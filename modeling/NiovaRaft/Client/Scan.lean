import NiovaRaft.Client.Sections

/-!
# The scan of the pending requests

The loop of `raft_client_check_pending_requests` over the tree.  Up to a point of the loop, the
requests on the list of the expired ones are those that the timer has a reference to, and it has
nothing to do with all others.  What the loop does to one request does not touch those that follow.
-/

namespace NiovaRaft

open Base Base.Handler

namespace RaftClient

/-! ## The timer's part -/

/-- The timer has found the request to be expired, and did not end it before. -/
structure View.Expiring (v : View) : Prop where
  expired : v.expired
  ends : ¬v.ends
  settled : (v.drop .expired).Settled

/-- The timer has to do with the requests on its list. -/
structure Part.Expiring (p : Part) : Prop where
  waiting : p.waiting = none
  nodup : p.expiredq.Nodup
  expired : ∀ sa ∈ p.expiredq, (p.views sa).Expiring
  settled : ∀ sa, sa ∉ p.expiredq → (p.views sa).Settled

theorem Part.Idle.expiring {p : Part} (h : p.Idle) : p.Expiring where
  waiting := h.waiting
  nodup := h.expiredq ▸ List.nodup_nil
  expired sa hsa := by
    rw [h.expiredq] at hsa
    cases hsa
  settled sa _ := h.views sa

theorem Part.Expiring.idle {p : Part} (h : p.Expiring) (hnil : p.expiredq = []) : p.Idle where
  views sa := h.settled sa (hnil ▸ List.not_mem_nil)
  expiredq := hnil
  waiting := h.waiting

theorem View.Settled.expiring {v : View} (h : v.Settled) (hends : ¬v.ends) :
    { v with expired := True }.Expiring where
  expired := trivial
  ends := hends
  settled := { h with expired := id }

/-- One more on the list. -/
theorem Part.Expiring.cons {p : Part} {sa : Nat} (h : p.Expiring) (hout : sa ∉ p.expiredq)
    (hends : ¬(p.views sa).ends) :
    { p.set sa { p.views sa with expired := True } with expiredq := sa :: p.expiredq }.Expiring where
  waiting := h.waiting
  nodup := List.nodup_cons.mpr ⟨hout, h.nodup⟩
  expired x hx := by
    by_cases heq : x = sa
    · subst heq
      rw [Part.views_set]
      exact (h.settled x hout).expiring hends
    · rw [Part.views_set_of_ne _ _ heq]
      exact h.expired x ((List.mem_cons.mp hx).resolve_left heq)
  settled x hx := by
    obtain ⟨hne, hold⟩ := not_or.mp (List.mem_cons.not.mp hx)
    rw [Part.views_set_of_ne _ _ hne]
    exact h.settled x hold

variable {strict : Prop} {s s' s₀ : Rci} {sa : Nat} {rest : List Nat} {input : ScanInput}

/-- Another list, of requests that are not linked otherwise. -/
theorem Rci.Inv.moved_expiredq (h : s.Inv strict) {l : List Nat} (hnodup : l.Nodup)
    (hl : ∀ x ∈ l, x < s.next ∧ (s.sub x).initializing = false ∧ (s.sub x).sendq = false) :
    Moved strict .timer s (· = { s.part .timer with expiredq := l }) (s.withExpiredq l) where
  inv := { h with
    ok := fun x => { h.ok x with expiring := hl x }
    expiredq := hnodup }
  others j hj := by simp [Rci.part, Rci.withExpiredq, hj]
  own := by simp [Rci.part, Rci.withExpiredq]

theorem Rci.Inv.expiring (h : s.Inv strict) (hsa : sa ∈ s.expiredq) :
    sa < s.next ∧ (s.sub sa).initializing = false ∧ (s.sub sa).sendq = false :=
  (h.ok sa).expiring hsa

/-! ## One request -/

/-- The state of the loop, which began in `s₀`, with the rest of the tree before it. -/
structure Scanning (strict : Prop) (input : ScanInput) (s₀ : Rci) (rest : List Nat) (s : Rci) :
    Prop where
  moved : Moved strict .timer s₀ Part.Expiring s
  nodup : rest.Nodup
  tree : ∀ x ∈ rest, x ∈ s.tree
  unlisted : ∀ x ∈ rest, x ∉ s.expiredq
  resends : strict → ∀ x ∈ rest, Resends input x (s.sub x) → .sending ∉ (s.sub x).held

/-- One request less. -/
theorem Scanning.next (h : Scanning strict input s₀ (sa :: rest) s)
    (hmoved : Moved strict .timer s Part.Expiring s') (hsub : ∀ x, x ≠ sa → s'.sub x = s.sub x)
    (htree : s'.tree = s.tree) (hlist : ∀ x ∈ s'.expiredq, x = sa ∨ x ∈ s.expiredq) :
    Scanning strict input s₀ rest s' := by
  obtain ⟨hsa, hnodup⟩ := List.nodup_cons.mp h.nodup
  have hne : ∀ x ∈ rest, x ≠ sa := fun x hx heq => hsa (heq ▸ hx)
  exact {
    moved := h.moved.trans hmoved
    nodup := hnodup
    tree := fun x hx => htree ▸ h.tree x (List.mem_cons_of_mem _ hx)
    unlisted := fun x hx hmem =>
      (hlist x hmem).elim (hne x hx) (h.unlisted x (List.mem_cons_of_mem _ hx))
    resends := fun hs x hx => by
      rw [hsub x (hne x hx)]
      exact h.resends hs x (List.mem_cons_of_mem _ hx) }

theorem view_get_expired (a : SubApp) :
    (a.get .expired).view .timer = { a.view .timer with expired := True } := by
  simp [SubApp.view, SubApp.get]

theorem view_get_expired_of_ne (a : SubApp) {j : Thread} (hj : j ≠ .timer) :
    (a.get .expired).view j = a.view j := by
  simp [SubApp.view, SubApp.get, hj]

/-- A request is put on the list. -/
theorem Scanning.moved_expired (h : Scanning strict input s₀ (sa :: rest) s)
    (hinit : (s.sub sa).initializing = false) (hsendq : (s.sub sa).sendq = false)
    (hcancel : (s.sub sa).cancel = false) :
    Moved strict .timer s Part.Expiring
      ((s.set sa ((s.sub sa).get .expired)).withExpiredq (sa :: s.expiredq)) := by
  have hs := h.moved.inv
  have hown := h.moved.own
  have hok := hs.ok sa
  have hpos := hs.pos_of_tree (h.tree sa List.mem_cons_self)
  have hout : sa ∉ s.expiredq := h.unlisted sa List.mem_cons_self
  have hsettled := hown.settled sa hout
  have hnot : .expired ∉ (s.sub sa).held := fun hmem => hsettled.expired ⟨rfl, hmem⟩
  have hends : ¬(s.sub sa).ender = some .timer := by
    intro hender
    rcases hok.ender _ hender with ⟨-, hc⟩ | ⟨⟨k, hk⟩, -⟩
    · exact absurd (hcancel.symm.trans hc) Bool.false_ne_true
    · cases hk
  have hget := hok.get hpos hnot (fun h => by cases h) (fun h => by cases h) fun hi =>
    absurd (hinit.symm.trans hi) Bool.false_ne_true
  have hfirst := hs.moved_set hget rfl fun j hj => view_get_expired_of_ne _ hj
  have hsecond := hfirst.inv.moved_expiredq (l := sa :: s.expiredq)
    (List.nodup_cons.mpr ⟨hout, hs.expiredq⟩) ?_
  · refine (hfirst.trans hsecond).mono ?_
    rintro q rfl
    rw [hfirst.own, view_get_expired]
    exact hown.cons hout hends
  · rintro x (_ | ⟨_, hx⟩)
    · rw [Rci.sub_set]
      exact ⟨hok.made_of_pos hpos, hinit, hsendq⟩
    · exact hfirst.inv.expiring hx

/-- A request is queued again. -/
theorem Scanning.moved_resent (h : Scanning strict input s₀ (sa :: rest) s)
    (hresends : Resends input sa (s.sub sa)) (hinit : (s.sub sa).initializing = false)
    (hsendq : (s.sub sa).sendq = false) :
    Moved strict .timer s Part.Expiring
      ((s.set sa ((s.sub sa).setDelay false).setQueued).withSendq (s.sendq ++ [sa])) := by
  have hs := h.moved.inv
  have hpos := hs.pos_of_tree (h.tree sa List.mem_cons_self)
  have hfirst := hs.moved_delay (i := .timer) hpos false
  have hsub := Rci.sub_set s sa ((s.sub sa).setDelay false)
  have hpos' : 0 < ((s.set sa ((s.sub sa).setDelay false)).sub sa).refCnt := by
    rw [hsub]
    exact hpos
  have hsecond := hfirst.inv.moved_enqueue (i := .timer) hpos' (by rw [hsub]; exact hinit)
    (by rw [hsub]; exact hsendq) (h.unlisted sa List.mem_cons_self) fun hstrict => by
      rw [hsub]
      exact h.resends hstrict sa List.mem_cons_self hresends
  rw [hsub, Rci.set_set, Rci.sendq_set] at hsecond
  refine (hfirst.trans hsecond).mono ?_
  rintro q rfl
  rw [hfirst.own]
  exact h.moved.own

theorem wp_scanRequest {D : Rci → Prop} (h : Scanning strict input s₀ (sa :: rest) s) :
    (scanRequest input sa).wp (fun _ => Scanning strict input s₀ rest) D s := by
  have hs := h.moved.inv
  have hpos := hs.pos_of_tree (h.tree sa List.mem_cons_self)
  have hcb := (hs.ok sa).cbExec_of_pos hpos
  have hsame : Scanning strict input s₀ rest s :=
    h.next ⟨hs, fun _ _ => rfl, h.moved.own⟩ (fun _ _ => rfl) rfl fun _ hx => .inr hx
  have hother : ∀ (a : SubApp) x, x ≠ sa → (s.set sa a).sub x = s.sub x := fun a x hx =>
    Function.update_of_ne hx _ _
  simp only [scanRequest, wp_bind, wp_touch hcb, wp_ite, wp_whenever, wp_modifySub, wp_modify,
    wp_pure]
  refine ⟨fun _ => hsame, fun hpending => ⟨fun _ => ?_, fun _ => ⟨fun hresends => ?_, fun _ => hsame⟩⟩⟩
  · simp only [SubApp.Bypassed, not_or, Bool.not_eq_true] at hpending
    obtain ⟨hcancel, hsendq, hinit⟩ := hpending
    exact h.next (h.moved_expired hinit hsendq hcancel) (hother _) rfl fun x hx => List.mem_cons.mp hx
  · simp only [SubApp.Bypassed, not_or, Bool.not_eq_true] at hpending
    obtain ⟨-, hsendq, hinit⟩ := hpending
    rw [wp_sendQueueAddLocked, Rci.sub_set, Rci.set_set, Rci.sendq_set]
    · exact h.next (h.moved_resent hresends hinit hsendq) (hother _) rfl fun _ hx => .inr hx
    · rw [Rci.sub_set]
      exact hcb
    · rw [Rci.sub_set]
      exact hinit
    · rw [Rci.sub_set]
      exact hsendq

/-! ## All requests -/

/-- By induction on the rest of the tree. -/
theorem wp_scanRequests {D : Rci → Prop} (h : Scanning strict input s₀ rest s) :
    (scanRequests input rest).wp (fun _ => Scanning strict input s₀ []) D s := by
  induction rest generalizing s with
  | nil => exact h
  | cons sa rest ih =>
    simp only [scanRequests, wp_bind]
    exact wp_mono (wp_scanRequest h) (fun _ _ hnext => ih hnext) fun _ hd => hd

/-- The scan, from where the timer is idle. -/
theorem wp_scan {D : Rci → Prop} (h : s.Inv strict) (hidle : (s.part .timer).Idle)
    (hrun : MayRun strict (.scan input) s) :
    (scan input).wp (fun l => Moved strict .timer s fun q => q.expiredq = l ∧ q.Expiring) D s := by
  have hnil : s.expiredq = [] := by simpa [Rci.part] using hidle.expiredq
  have hsame : s.withExpiredq [] = s := by
    rw [← hnil]
    rfl
  have hstart : Scanning strict input s s.tree s :=
    { moved := ⟨h, fun _ _ => rfl, hidle.expiring⟩
      nodup := h.tree
      tree := fun _ hx => hx
      unlisted := fun x _ => hnil ▸ List.not_mem_nil
      resends := hrun }
  simp only [scan, wp_bind, wp_modify, wp_gets, hsame]
  exact wp_mono (wp_scanRequests hstart)
    (fun _ s' hend => ⟨hend.moved.inv, hend.moved.others, rfl, hend.moved.own⟩) fun _ hd => hd

end RaftClient

end NiovaRaft
