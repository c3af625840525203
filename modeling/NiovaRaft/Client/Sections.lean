import NiovaRaft.Client.Ownership

/-!
# The sections of the client

What each critical section does to the part of the thread that runs it.  A section keeps the
invariant, and leaves the other threads' parts alone.

A section runs where it may: in every run, `raft_client_request_cancel` finds that its request is
initialized.  In a strict run besides, it finds no request at all, a launch does not fail but with
`-EAGAIN`, a reply does not meet another one that completes the request, and the timer does not queue
a request again that is just being sent.
-/

namespace NiovaRaft

open Base Base.Handler

namespace RaftClient

/-- Where a section may be run. -/
def MayRun (strict : Prop) : Section → Rci → Prop
  | .cancelCheck sa, s => ¬strict → (s.sub sa).initializing = false
  | .cancelLookup rncui, s => strict → s.find rncui = none
  | .launch rc, _ => strict → rc = 0 ∨ rc = EAGAIN
  | .tryComplete sa, s => strict → (s.sub sa).completing = false
  | .scan input, s => strict →
      ∀ sa ∈ s.tree, Resends input sa (s.sub sa) → .sending ∉ (s.sub sa).held
  | _, _ => True

/-- A thread that is blocked has nothing left to do. -/
def Asserts : Section → Part → Prop
  | .wait, p => ∀ sa, (p.views sa).Settled
  | _, _ => True

/-- What the threads of the client keep to.  A strict run does not die. -/
def discipline (strict : Prop) : Discipline Thread Section Rci :=
  .ofParts (Rci.Inv strict) Rci.part Part.Idle Asserts (fun _ => MayRun strict) fun _ => ¬strict

/-- Run by thread `i`, the program takes its part from one that `P` holds of to one that `Q` holds
of. -/
abbrev Does {α : Type} (strict : Prop) (i : Thread) (P : Part → Prop) (p : ClientProg α)
    (Q : α → Part → Prop) : Prop :=
  (discipline strict).Takes Rci.part i P p Q

/-- Thread `i` goes from `s` to `s'`. -/
abbrev Moved (strict : Prop) (i : Thread) (s : Rci) (P : Part → Prop) (s' : Rci) : Prop :=
  Discipline.Moved (Rci.Inv strict) Rci.part i s P s'

variable {strict : Prop} {s : Rci} {sa : Nat} {i : Thread} {v : View} {r : Ref}

/-- Nobody notices that a request was looked at that is not freed. -/
theorem wp_touch {Q : SubApp → Rci → Prop} {D : Rci → Prop} (h : (s.sub sa).cbExec = false) :
    (touch sa).wp Q D s ↔ Q (s.sub sa) s := by
  simp [touch, h]

theorem wp_modifySub {Q : Unit → Rci → Prop} {D : Rci → Prop} {f : SubApp → SubApp} :
    (modifySub sa f).wp Q D s ↔ Q () (s.set sa (f (s.sub sa))) := Iff.rfl

/-! ## References -/

section Refs

theorem Rci.Inv.pos_of_tree (h : s.Inv strict) (hsa : sa ∈ s.tree) : 0 < (s.sub sa).refCnt :=
  (h.ok sa).inTree.mp hsa

theorem Rci.find_mem {rncui : Nat} (h : s.find rncui = some sa) : sa ∈ s.tree :=
  List.mem_of_find?_eq_some h

theorem view_get_lookup (a : SubApp) : (a.get (.lookup i)).view i = { a.view i with lookup := True } := by
  simp [SubApp.view, SubApp.get]

theorem view_get_lookup_of_ne (a : SubApp) {j : Thread} (h : j ≠ i) :
    (a.get (.lookup i)).view j = a.view j := by
  simp [SubApp.view, SubApp.get, h]

/-- A thread looks a request up. -/
theorem Rci.Inv.moved_lookup (h : s.Inv strict) (hsa : sa ∈ s.tree)
    (hnot : ¬((s.part i).views sa).lookup) :
    Moved strict i s (· = (s.part i).set sa { (s.part i).views sa with lookup := True })
      (s.set sa ((s.sub sa).get (.lookup i))) := by
  have hok := (h.ok sa).get (h.pos_of_tree hsa) hnot (fun h => by cases h) (fun h => by cases h) fun _ => ⟨i, rfl⟩
  have hmoved := h.moved_set hok rfl fun j hj => view_get_lookup_of_ne _ hj
  rwa [view_get_lookup] at hmoved

/-- The thread has a reference to put. -/
def View.Has (v : View) (i : Thread) : Ref → Prop
  | .lookup j => j = i ∧ v.lookup
  | .matched j => j = i ∧ v.matched
  | .sending => v.sending
  | .expired => v.expired
  | .constructor => v.owes ∨ v.owning ∧ ¬v.blocks
  | .sendq => False

/-- What is left when it is put. -/
def View.drop (v : View) : Ref → View
  | .lookup _ => { v with lookup := False }
  | .matched _ => { v with matched := False }
  | .sending => { v with sending := False, flagged := False }
  | .expired => { v with expired := False }
  | .constructor => { v with owes := False, owning := False }
  | .sendq => v

theorem View.drop_not_destroying (h : ¬v.destroying) :
    { v.drop r with destroying := False } = v.drop r := by
  cases v
  cases r <;> simpa [View.drop] using h

variable {a : SubApp} {made inTree linked expiring awaited : Prop}

theorem View.Has.mem (h : (a.view i).Has i r) : r ∈ a.held := by
  cases r with
  | lookup j => exact h.1 ▸ h.2
  | matched j => exact h.1 ▸ h.2
  | sending => exact h.2
  | expired => exact h.2
  | sendq => exact h.elim
  | constructor =>
    rcases h with howes | ⟨howning, -⟩
    · exact howes.2
    · exact howning.2.2

theorem View.Has.ne_sendq (h : v.Has i r) : r ≠ .sendq := by
  rintro rfl
  exact h

/-- The constructor's reference is put by the one that ends the request, or by the one that gives it
up. -/
theorem View.Has.constructor (h : (a.view i).Has i .constructor) :
    a.initializing = true ∧ a.blocking = false ∨ a.ender ≠ none := by
  rcases h with howes | ⟨howning, hblocks⟩
  · exact .inr fun hnone => by cases howes.1.symm.trans hnone
  · exact .inl ⟨howning.2.1, Bool.eq_false_iff.mpr fun hb => hblocks ⟨howning.1, howning.2.1, hb⟩⟩

theorem view_drop (hnodup : a.held.Nodup) (h : (a.view i).Has i r) :
    (a.drop r).view i = (a.view i).drop r := by
  cases r with
  | lookup j =>
    obtain rfl := h.1
    simp [SubApp.view, SubApp.drop, View.drop, hnodup.mem_erase_iff]
  | matched j =>
    obtain rfl := h.1
    simp [SubApp.view, SubApp.drop, View.drop, hnodup.mem_erase_iff]
  | sending => simp [SubApp.view, SubApp.drop, View.drop, hnodup.mem_erase_iff]
  | expired => simp [SubApp.view, SubApp.drop, View.drop, hnodup.mem_erase_iff]
  | sendq => exact h.elim
  | constructor => simp [SubApp.view, SubApp.drop, View.drop, hnodup.mem_erase_iff]

theorem view_drop_of_ne (hok : a.Ok strict made inTree linked expiring awaited)
    (h : (a.view i).Has i r) {j : Thread} (hj : j ≠ i) : (a.drop r).view j = a.view j := by
  cases r with
  | lookup l =>
    obtain rfl := h.1
    simp [SubApp.view, SubApp.drop, hok.nodup.mem_erase_iff, hj]
  | matched l =>
    obtain rfl := h.1
    simp [SubApp.view, SubApp.drop, hok.nodup.mem_erase_iff, hj]
  | sending =>
    obtain rfl := h.1
    simp [SubApp.view, SubApp.drop, hok.nodup.mem_erase_iff, hj]
  | expired =>
    obtain rfl := h.1
    simp [SubApp.view, SubApp.drop, hok.nodup.mem_erase_iff, hj]
  | sendq => exact h.elim
  | constructor =>
    rcases h with ⟨hender, -⟩ | ⟨⟨howner, hinit, -⟩, -⟩
    · have hinit : a.initializing = false := by
        by_contra hn
        have hnone := (hok.initializing (Bool.not_eq_false _ ▸ hn)).2.2.2.2.2.2.2
        cases hender.symm.trans hnone
      simp [SubApp.view, SubApp.drop, hok.nodup.mem_erase_iff, hender, hinit, Ne.symm hj]
    · have hnone := (hok.initializing hinit).2.2.2.2.2.2.2
      simp [SubApp.view, SubApp.drop, hok.nodup.mem_erase_iff, hnone, howner, Ne.symm hj]

theorem view_setDestroyer (hcb : a.cbExec = false) :
    (a.setDestroyer i).view i = { a.view i with destroying := True } := by
  simp [SubApp.view, SubApp.setDestroyer, hcb]

theorem view_setDestroyer_of_ne (hdest : a.destroyer = none) {j : Thread} (hj : j ≠ i) :
    (a.setDestroyer i).view j = a.view j := by
  simp [SubApp.view, SubApp.setDestroyer, hdest, Ne.symm hj]

/-- A reference is put. -/
theorem wp_putRef {D : Rci → Prop} (h : s.Inv strict) (hhas : ((s.part i).views sa).Has i r)
    (hdest : ¬((s.part i).views sa).destroying) :
    (putRef i sa r).wp (fun last => Moved strict i s
      (· = (s.part i).set sa { ((s.part i).views sa).drop r with destroying := last = true })) D s := by
  have hok := h.ok sa
  have hr : r ∈ (s.sub sa).held := View.Has.mem hhas
  have hpos := hok.pos_of_mem hr
  have hcb := hok.cbExec_of_pos hpos
  have hnone := hok.destroyer_of_pos hpos
  have hview : ((s.sub sa).drop r).view i = ((s.part i).views sa).drop r := view_drop hok.nodup hhas
  have hctor : r = .constructor →
      (s.sub sa).initializing = true ∧ (s.sub sa).blocking = false ∨ (s.sub sa).ender ≠ none := by
    rintro rfl
    exact View.Has.constructor hhas
  simp only [putRef, wp_bind, wp_touch hcb, wp_assert, wp_modifySub, wp_ite, wp_modify, wp_pure,
    Rci.sub_set, Rci.set_set]
  refine ⟨fun _ => ⟨fun hlast => ?_, fun hmore => ?_⟩, fun hn => (hn hpos).elim⟩
  · have hset : s.Sets sa (((s.sub sa).drop r).setDestroyer i)
        ((s.set sa (((s.sub sa).drop r).setDestroyer i)).withTree (s.tree.erase sa)) :=
      { h.sets_set with
        tree := h.tree.erase sa
        mem_tree := fun x hx => List.mem_erase_of_ne hx }
    have hnot : sa ∉ s.tree.erase sa := h.tree.not_mem_erase
    have hlast := hok.dropLast (i := i) hr hhas.ne_sendq hctor hlast hnot
    rw [← propext (hset.awaited_self rfl rfl)] at hlast
    have hmoved := h.moved hset hlast fun j hj =>
      (view_setDestroyer_of_ne (a := (s.sub sa).drop r) hnone hj).trans (view_drop_of_ne hok hhas hj)
    rw [view_setDestroyer (a := (s.sub sa).drop r) hcb, hview] at hmoved
    simpa using hmoved
  · have hmoved := h.moved_set (hok.drop hr hhas.ne_sendq hctor hmore) rfl fun j hj =>
      view_drop_of_ne hok hhas hj
    rw [hview, ← View.drop_not_destroying hdest] at hmoved
    simpa using hmoved

/-! ## The destructor -/

theorem SubApp.Ok.refCnt_of_destroyer (h : a.Ok strict made inTree linked expiring awaited)
    (hdest : a.destroyer ≠ none) : made ∧ a.refCnt = 0 := by
  by_contra hn
  exact hdest (h.destroyer.mpr fun hmade => Nat.pos_of_ne_zero fun hzero => hn ⟨hmade, hzero⟩)

/-- Where a request is destroyed that a thread blocks for, that thread waits for it. -/
theorem SubApp.Ok.awaited_of_destroyer (h : a.Ok strict made inTree linked expiring awaited)
    (hdest : a.destroyer ≠ none) (hcb : a.cbExec = false) (hblocking : a.blocking = true) :
    awaited := by
  obtain ⟨hmade, hzero⟩ := h.refCnt_of_destroyer hdest
  refine h.awaited hmade hblocking ?_ hcb
  by_contra hn
  have hctor : .constructor ∉ a.held := fun hmem => Nat.ne_of_gt (h.pos_of_mem hmem) hzero
  have hfalse := h.unborn (Bool.not_eq_false _ ▸ hn) hctor
  exact absurd (hfalse.symm.trans hblocking) Bool.false_ne_true

theorem view_setDestructed (a : SubApp) :
    a.setDestructed.view i = { a.view i with destroying := False } := by
  simp [SubApp.view, SubApp.setDestructed]

theorem view_setDestructed_of_ne (hdest : a.destroyer = some i) {j : Thread} (hj : j ≠ i) :
    a.setDestructed.view j = a.view j := by
  simp [SubApp.view, SubApp.setDestructed, hdest, Ne.symm hj]

/-- The destructor of a request that nobody else knows. -/
theorem wp_subAppDestruct {D : Rci → Prop} (h : s.Inv strict)
    (hdest : ((s.part i).views sa).destroying) :
    (subAppDestruct sa).wp (fun _ => Moved strict i s
      (· = (s.part i).set sa { (s.part i).views sa with destroying := False })) D s := by
  obtain ⟨hdestroyer, hcb⟩ : (s.sub sa).destroyer = some i ∧ (s.sub sa).cbExec = false := hdest
  have hok := h.ok sa
  have hne : (s.sub sa).destroyer ≠ none := fun hnone => by cases hdestroyer.symm.trans hnone
  have hview : ∀ j, j ≠ i → (s.sub sa).setDestructed.view j = (s.sub sa).view j :=
    fun j hj => view_setDestructed_of_ne hdestroyer hj
  simp only [subAppDestruct, wp_bind, wp_touch hcb, wp_assert, wp_whenever, wp_modifySub]
  refine ⟨fun _ => ⟨fun hblocking => ?_, fun _ => ?_⟩, fun hn => (hn hcb).elim⟩
  · obtain ⟨k, howner, hwaiting, hnotifier⟩ := hok.awaited_of_destroyer hne hcb hblocking
    rw [howner]
    simp only [wake, wp_bind, wp_gets, wp_assert, wp_modify]
    refine ⟨fun _ => ?_, fun hn => (hn ⟨hnotifier, by omega⟩).elim⟩
    have hset : s.Sets sa (s.sub sa).setDestructed (Rci.set { s with
        notifier := Function.update s.notifier k (-(s.sub sa).error.natAbs) } sa
          (s.sub sa).setDestructed) :=
      { h.sets_set with
        notifier := fun l hl => by
          refine Function.update_of_ne ?_ _ _
          rintro rfl
          exact hl hwaiting }
    refine (h.moved hset ?_ hview).mono ?_
    · exact { hok.destruct hne hcb with awaited := fun _ _ _ hc => by cases hc }
    · rintro q rfl
      rw [view_setDestructed]
      rfl
  · refine (h.moved_set (hok.destruct hne hcb) rfl hview).mono ?_
    rintro q rfl
    rw [view_setDestructed]
    rfl

/-! ## New requests -/

/-- The view of a request that was never made. -/
def View.none : View where
  lookup := False
  matched := False
  sending := False
  flagged := False
  expired := False
  owning := False
  blocks := False
  destroying := False
  ends := False
  called := False
  owes := False

theorem view_empty (i : Thread) : SubApp.view {} i = .none := by
  simp [SubApp.view, View.none]

theorem view_subAppConstruct (i : Thread) (rncui : Nat) :
    (subAppConstruct i rncui).view i = { View.none with owning := True } := by
  simp [SubApp.view, View.none, subAppConstruct]

theorem view_subAppConstruct_of_ne (rncui : Nat) {j : Thread} (hj : j ≠ i) :
    (subAppConstruct i rncui).view j = .none := by
  simp [SubApp.view, View.none, subAppConstruct, Ne.symm hj]

theorem Rci.Inv.sub_next (h : s.Inv strict) : s.sub s.next = {} :=
  (h.ok s.next).fresh (Nat.lt_irrefl _)

/-- A request is made. -/
theorem Rci.Inv.moved_new (h : s.Inv strict) (rncui : Nat) :
    Moved strict i s (· = (s.part i).set s.next { View.none with owning := True })
      (s.set s.next (subAppConstruct i rncui)).withNew := by
  have hfresh := h.sub_next
  have hok := h.ok s.next
  have hout : ¬s.next ∈ s.tree := by
    rw [hok.inTree, hfresh]
    exact Nat.lt_irrefl 0
  have hunlinked : ¬s.next ∈ s.sendq := by
    rw [hok.linked, hfresh]
    exact Bool.false_ne_true
  have hset : s.Sets s.next (subAppConstruct i rncui)
      (s.set s.next (subAppConstruct i rncui)).withNew :=
    { h.sets_set with
      made := fun x hx => by
        show x < s.next + 1 ↔ x < s.next
        omega
      tree := List.nodup_append_comm.mpr (List.nodup_cons.mpr ⟨hout, h.tree⟩)
      mem_tree := fun x hx => by
        show x ∈ s.tree ++ [s.next] ↔ x ∈ s.tree
        simp [hx] }
  have hmoved := h.moved (i := i) hset (ok_subAppConstruct i rncui (Nat.lt_succ_self _)
    (List.mem_append_right _ (List.mem_singleton_self _)) hunlinked
    fun he => Nat.lt_irrefl _ (hok.expiring he).1) fun j hj => ?_
  · rwa [view_subAppConstruct] at hmoved
  · rw [view_subAppConstruct_of_ne rncui hj, hfresh, view_empty]

/-- What a lookup leads to. -/
def Part.Found (p : Part) : Option Nat → Part → Prop
  | none, q => q = p
  | some sa, q => q = p.set sa { p.views sa with lookup := True }

theorem Rci.Inv.moved_refl (h : s.Inv strict) : Moved strict i s (· = s.part i) s :=
  ⟨h, fun _ _ => rfl, rfl⟩

theorem wp_subAppLookup {D : Rci → Prop} (h : s.Inv strict) (rncui : Nat)
    (hnot : ∀ sa, ¬((s.part i).views sa).lookup) :
    (subAppLookup i rncui).wp (fun found s' => found = s.find rncui ∧
      Moved strict i s ((s.part i).Found found) s') D s := by
  simp only [subAppLookup, wp_bind, wp_gets]
  cases hfind : s.find rncui with
  | none => exact ⟨rfl, h.moved_refl⟩
  | some sa => exact ⟨rfl, h.moved_lookup (Rci.find_mem hfind) (hnot sa)⟩

/-- What an addition leads to: the request was there, or it was made. -/
def Part.Added (p : Part) : Nat × Bool → Part → Prop
  | (sa, true), q => q = p.set sa { p.views sa with lookup := True }
  | (sa, false), q => q = p.set sa { View.none with owning := True }

theorem wp_getAdd {D : Rci → Prop} (h : s.Inv strict) (rncui : Nat)
    (hnot : ∀ sa, ¬((s.part i).views sa).lookup) :
    (getAdd i rncui).wp (fun added => Moved strict i s ((s.part i).Added added)) D s := by
  simp only [getAdd, subAppLookup, wp_bind, wp_gets]
  cases hfind : s.find rncui with
  | none => exact h.moved_new rncui
  | some sa => exact h.moved_lookup (Rci.find_mem hfind) (hnot sa)

end Refs

/-! ## The end of a request -/

section Flags

variable {a : SubApp} {made inTree linked expiring awaited : Prop}

/-- The one that is to end a request finds its flags as they should be. -/
theorem SubApp.Ok.done_flags (h : a.Ok strict made inTree linked expiring awaited) (hs : strict)
    (hender : a.ender = some i) (hdone : a.enderDone = false) :
    a.ready = false ∧ a.completing = !a.cancel := by
  have hold := h.strict hs
  rcases h.ender i hender with ⟨rfl, hcancel⟩ | ⟨⟨k, rfl⟩, -⟩
  · obtain ⟨hcompleting, hready⟩ := hold.canceled hender
    exact ⟨hready, by rw [hcompleting, hcancel, Bool.not_true]⟩
  · obtain ⟨hcompleting, hready⟩ := hold.replied k hender
    have hcancel : a.cancel = false := by
      by_contra hn
      have htimer := hold.cancel (Bool.not_eq_false _ ▸ hn)
      cases hender.symm.trans htimer
    rw [hcompleting, hready, hdone, hcancel]
    exact ⟨rfl, rfl⟩

theorem view_setDone (a : SubApp) (error : Int) :
    (a.setDone i error).view i = { a.view i with called := (a.view i).ends } := by
  simp +contextual [SubApp.view, SubApp.setDone]

theorem view_setDone_of_ne (a : SubApp) (error : Int) {j : Thread} (hj : j ≠ i) :
    (a.setDone i error).view j = a.view j := by
  have hcalled : a.ender = some j ∧ (a.enderDone || decide (a.ender = some i)) = true ↔
      a.ender = some j ∧ a.enderDone = true := by
    refine and_congr_right fun hender => ?_
    simp [hender, hj]
  simp only [SubApp.view, SubApp.setDone, propext hcalled]

/-- `raft_client_sub_app_done`, called by the one that is to end the request, or, in a run that is not
strict, by the sender. -/
theorem wp_markDone (h : s.Inv strict) (error : Int) (hr : r ∈ (s.sub sa).held)
    (hrole : ((s.part i).views sa).ends ∧ ¬((s.part i).views sa).called ∨ ¬strict) :
    (markDone i sa error).wp (fun _ => Moved strict i s
      (· = (s.part i).set sa { (s.part i).views sa with called := ((s.part i).views sa).ends }))
      (fun d => d.Inv strict ∧ ¬strict) s := by
  have hok := h.ok sa
  have hpos := hok.pos_of_mem hr
  have hcb := hok.cbExec_of_pos hpos
  have hender : (s.sub sa).ender = some i ∧ (s.sub sa).enderDone = false ∨ ¬strict :=
    hrole.imp_left fun ⟨hends, hcalled⟩ => ⟨hends, Bool.eq_false_iff.mpr fun hd => hcalled ⟨hends, hd⟩⟩
  have hflags : strict → (s.sub sa).ready = false ∧ (s.sub sa).completing = !(s.sub sa).cancel := by
    intro hs
    obtain ⟨hender, hdone⟩ := hender.resolve_right (not_not.mpr hs)
    exact hok.done_flags hs hender hdone
  simp only [markDone, wp_bind, wp_touch hcb, wp_assert, wp_modifySub]
  refine ⟨fun hfirst => ⟨fun hsecond => ?_, fun hn => ?_⟩, fun hn => ?_⟩
  · have hmoved := h.moved_set (hok.markDone error hpos hfirst.2 hsecond hender) rfl fun j hj =>
      view_setDone_of_ne _ error hj
    rwa [view_setDone] at hmoved
  · exact ⟨h, fun hs => hn (hflags hs).2⟩
  · exact ⟨h, fun hs => hn ⟨hcb, (hflags hs).1⟩⟩

/-- The thread is to end the request. -/
def View.ending (v : View) : View := { v with ends := True, called := False, owes := True }

theorem view_setEnder (cancel completing : Bool) (hdone : a.enderDone = false)
    (hctor : .constructor ∈ a.held) :
    { a with cancel := cancel, completing := completing, ender := some i }.view i =
      (a.view i).ending := by
  simp [SubApp.view, View.ending, hdone, hctor]

theorem view_setEnder_of_ne (cancel completing : Bool) (hnone : a.ender = none) {j : Thread}
    (hj : j ≠ i) :
    { a with cancel := cancel, completing := completing, ender := some i }.view j = a.view j := by
  simp [SubApp.view, hnone, Ne.symm hj]

theorem SubApp.Ok.not_initializing (h : a.Ok strict made inTree linked expiring awaited)
    (hr : r ∈ a.held) (hkind : r = .sending ∨ r = .expired ∨ ∃ j, r = .matched j) :
    a.initializing = false := by
  by_contra hn
  obtain ⟨-, hsending, hexpired, hmatched, -⟩ := h.initializing (Bool.not_eq_false _ ▸ hn)
  rcases hkind with rfl | rfl | ⟨j, rfl⟩
  · exact hsending hr
  · exact hexpired hr
  · exact hmatched j hr

/-- The timer cancels a request that it has found to be expired. -/
theorem wp_markCancel {D : Rci → Prop} (h : s.Inv strict)
    (hexpired : ((s.part .timer).views sa).expired) (hends : ¬((s.part .timer).views sa).ends) :
    (markCancel .timer sa).wp (fun canceled => Moved strict .timer s (· = (s.part .timer).set sa
      (if canceled = true then ((s.part .timer).views sa).ending else (s.part .timer).views sa))) D s := by
  have hok := h.ok sa
  have hr : .expired ∈ (s.sub sa).held := hexpired.2
  have hpos := hok.pos_of_mem hr
  have hinit := hok.not_initializing hr (.inr (.inl rfl))
  simp only [markCancel, wp_bind, wp_touch (hok.cbExec_of_pos hpos), wp_ite, wp_modifySub, wp_pure]
  constructor
  · rintro ⟨hcompleting, hready⟩
    have hnone := hok.ender_eq_none hcompleting hready hends
    have hctor := hok.constructor (hok.made_of_pos hpos) hinit hnone
    have hmoved := h.moved_set (hok.markCancel hpos hcompleting hready hinit) rfl fun j hj =>
      view_setEnder_of_ne true _ hnone hj
    have hview : ((s.sub sa).setCancel .timer).view .timer = ((s.sub sa).view .timer).ending :=
      view_setEnder true _ (hok.enderDone hnone) hctor
    rw [hview] at hmoved
    exact hmoved
  · intro _
    simpa using h.moved_refl

/-- A reply completes a request, unless it has ended. -/
theorem wp_markCompleting (h : s.Inv strict) (k : Nat)
    (hmatched : ((s.part (.reply k)).views sa).matched) (hrun : MayRun strict (.tryComplete sa) s) :
    (markCompleting (.reply k) sa).wp (fun completing => Moved strict (.reply k) s
      (· = (s.part (.reply k)).set sa (if completing = true then
        ((s.part (.reply k)).views sa).ending else (s.part (.reply k)).views sa)))
      (fun d => d.Inv strict ∧ ¬strict) s := by
  have hok := h.ok sa
  have hr : .matched (.reply k) ∈ (s.sub sa).held := hmatched
  have hpos := hok.pos_of_mem hr
  have hinit := hok.not_initializing hr (.inr (.inr ⟨_, rfl⟩))
  simp only [markCompleting, wp_bind, wp_touch (hok.cbExec_of_pos hpos), wp_ite, wp_assert,
    wp_modifySub, wp_pure]
  refine ⟨fun _ => by simpa using h.moved_refl, fun hready => ⟨fun hcompleting => ?_, fun hn => ?_⟩⟩
  · refine ⟨fun _ => by simpa using h.moved_refl, fun hcancel => ?_⟩
    rw [Bool.not_eq_true] at hready hcancel
    have hne : (s.sub sa).ender ≠ some .timer := by
      intro htimer
      rcases hok.ender _ htimer with ⟨-, hc⟩ | ⟨⟨l, hl⟩, -⟩
      · exact absurd (hcancel.symm.trans hc) Bool.false_ne_true
      · cases hl
    have hnone := hok.ender_eq_none hcompleting hready hne
    have hctor := hok.constructor (hok.made_of_pos hpos) hinit hnone
    have hmoved := h.moved_set (hok.markCompleting k hpos hready hcancel hinit hnone) rfl
      fun j hj => view_setEnder_of_ne _ true hnone hj
    have hview : ((s.sub sa).setCompleting (.reply k)).view (.reply k) =
        ((s.sub sa).view (.reply k)).ending :=
      view_setEnder _ true (hok.enderDone hnone) hctor
    rw [hview] at hmoved
    exact hmoved
  · exact ⟨h, fun hs => hn (hrun hs)⟩

end Flags

/-! ## Lookups that turn into something else -/

section Lookups

variable {a : SubApp}

/-- What was looked up is the request of the reply. -/
def View.withMatch (v : View) : View := { v with lookup := False, matched := True }

theorem view_rename_matched (hnodup : a.held.Nodup) :
    (a.rename (.lookup i) (.matched i)).view i = (a.view i).withMatch := by
  simp [SubApp.view, SubApp.rename, View.withMatch, hnodup.mem_erase_iff]

theorem view_rename_matched_of_ne (hnodup : a.held.Nodup) {j : Thread} (hj : j ≠ i) :
    (a.rename (.lookup i) (.matched i)).view j = a.view j := by
  simp [SubApp.view, SubApp.rename, hnodup.mem_erase_iff, hj]

/-- The request is found to be the reply's. -/
theorem wp_checkReply {D : Rci → Prop} (h : s.Inv strict) (msgId : Nat)
    (hlookup : ((s.part i).views sa).lookup) (hmatched : ¬((s.part i).views sa).matched) :
    (checkReply i sa msgId).wp (fun other => Moved strict i s (· = (s.part i).set sa
      (if other = true then (s.part i).views sa else ((s.part i).views sa).withMatch))) D s := by
  have hok := h.ok sa
  have hr : .lookup i ∈ (s.sub sa).held := hlookup
  have hr' : .matched i ∉ (s.sub sa).held := hmatched
  simp only [checkReply, wp_bind, wp_touch (hok.cbExec_of_pos (hok.pos_of_mem hr)), wp_whenever,
    wp_modifySub, wp_pure]
  refine ⟨fun hsame => ?_, fun hother => ?_⟩
  · have hinit : (s.sub sa).initializing = false := (Bool.or_eq_false_iff.mp hsame).1
    have hmoved := h.moved_set (hok.rename hr hr' ⟨(fun h => by cases h), (fun h => by cases h)⟩ (fun h => by cases h) (fun h => by cases h) hinit) rfl fun j hj =>
      view_rename_matched_of_ne hok.nodup hj
    rw [view_rename_matched hok.nodup] at hmoved
    rw [hsame]
    exact hmoved
  · rw [Bool.not_eq_false] at hother
    rw [hother]
    simpa using h.moved_refl

theorem view_leak (hnodup : a.held.Nodup) :
    (a.leak (.lookup i)).view i = { a.view i with lookup := False } := by
  simp [SubApp.view, SubApp.leak, hnodup.mem_erase_iff]

theorem view_leak_of_ne (hnodup : a.held.Nodup) {j : Thread} (hj : j ≠ i) :
    (a.leak (.lookup i)).view j = a.view j := by
  simp [SubApp.view, SubApp.leak, hnodup.mem_erase_iff, hj]

/-- A request that is initialized is not canceled, and the reference to it is lost. -/
theorem wp_cancelCheck {D : Rci → Prop} (h : s.Inv strict) (hstrict : ¬strict)
    (hlookup : ((s.part i).views sa).lookup) (hrun : MayRun strict (.cancelCheck sa) s) :
    (cancelCheck i sa).wp (fun initializing s' => initializing = false ∧ Moved strict i s
      (· = (s.part i).set sa { (s.part i).views sa with lookup := False }) s') D s := by
  have hok := h.ok sa
  have hr : .lookup i ∈ (s.sub sa).held := hlookup
  have hinit : (s.sub sa).initializing = false := hrun hstrict
  simp only [cancelCheck, wp_bind, wp_touch (hok.cbExec_of_pos (hok.pos_of_mem hr)), wp_whenever,
    wp_modifySub, wp_pure]
  refine ⟨fun _ => ⟨hinit, ?_⟩, fun hn => (hn hinit).elim⟩
  have hmoved := h.moved_set (hok.leak hstrict hr (fun h => by cases h) (fun h => by cases h) hinit) rfl fun j hj =>
    view_leak_of_ne hok.nodup hj
  rwa [view_leak hok.nodup] at hmoved

end Lookups

/-! ## Submitting -/

section Submitting

variable {a : SubApp}

theorem view_setInit (msgId : Nat) (req : Request) (howns : (a.view i).owning) :
    (a.setInit msgId req).view i = { a.view i with blocks := req.blocking = true } := by
  obtain ⟨howner, hinit, -⟩ := howns
  simp [SubApp.view, SubApp.setInit, howner, hinit]

theorem view_setInit_of_ne (msgId : Nat) (req : Request) (howns : (a.view i).owning) {j : Thread}
    (hj : j ≠ i) : (a.setInit msgId req).view j = a.view j := by
  simp [SubApp.view, SubApp.setInit, howns.1, Ne.symm hj]

theorem wp_handleInit {D : Rci → Prop} (h : s.Inv strict) (req : Request)
    (howns : ((s.part i).views sa).owning) :
    (handleInit sa req).wp (fun _ => Moved strict i s (· = (s.part i).set sa
      { (s.part i).views sa with blocks := req.blocking = true })) D s := by
  have hok := h.ok sa
  have hinit : (s.sub sa).initializing = true := howns.2.1
  have hctor : .constructor ∈ (s.sub sa).held := howns.2.2
  simp only [handleInit, wp_bind, wp_touch (hok.cbExec_of_pos (hok.pos_of_mem hctor)), wp_modify,
    wp_gets, wp_modifySub]
  have hset : s.Sets sa ((s.sub sa).setInit (s.msgIdCounter + 1) req)
      (Rci.set { s with msgIdCounter := s.msgIdCounter + 1 } sa
        ((s.sub sa).setInit (s.msgIdCounter + 1) req)) := { h.sets_set with }
  have hnew := hok.handleInit (s.msgIdCounter + 1) req hctor hinit
  rw [← propext (hset.awaited_self rfl rfl)] at hnew
  have hmoved := h.moved hset hnew fun j hj => view_setInit_of_ne _ req howns hj
  rwa [view_setInit _ req howns] at hmoved

/-- A thread begins to wait, or is through with it. -/
theorem Rci.Inv.moved_waiter (h : s.Inv strict) {k : Nat}
    (hk : ∀ x, s.waiting k = some x → s.notifier k ≠ 1) (w : Option Nat) (n : Int) :
    Moved strict (.app k) s (· = (s.part (.app k)).withWaiting w) (s.withWaiter k w n) where
  inv := { h with
    ok := fun x => { h.ok x with
      awaited := fun hmade hblocking hinit hcb => by
        obtain ⟨l, howner, hwaiting, hnotifier⟩ := (h.ok x).awaited hmade hblocking hinit hcb
        have hl : l ≠ k := by
          rintro rfl
          exact hk x hwaiting hnotifier
        exact ⟨l, howner, (Function.update_of_ne hl ..).trans hwaiting,
          (Function.update_of_ne hl ..).trans hnotifier⟩ } }
  others j hj := by
    cases j with
    | app l =>
      have hl : l ≠ k := fun heq => hj (congrArg Thread.app heq)
      simp [Rci.part, Rci.withWaiter, hl]
    | timer => rfl
    | sender => rfl
    | reply l => rfl
  own := by simp [Rci.part, Rci.withWaiter, Part.withWaiting]

/-- The thread has made the request known. -/
def View.published (v : View) : View := { v with owning := False, blocks := False }

theorem view_setInitialized (a : SubApp) : a.setInitialized.view i = (a.view i).published := by
  simp [SubApp.view, SubApp.setInitialized, View.published]

theorem view_setInitialized_of_ne (howns : (a.view i).owning) {j : Thread} (hj : j ≠ i) :
    a.setInitialized.view j = a.view j := by
  simp [SubApp.view, SubApp.setInitialized, howns.1, Ne.symm hj]

theorem view_setQueued (a : SubApp) (j : Thread) : a.setQueued.view j = a.view j := by
  simp [SubApp.view, SubApp.setQueued, SubApp.get]

/-- A request is linked. -/
theorem Rci.Inv.moved_enqueue (h : s.Inv strict) (hpos : 0 < (s.sub sa).refCnt)
    (hinit : (s.sub sa).initializing = false) (hsendq : (s.sub sa).sendq = false)
    (hexp : sa ∉ s.expiredq) (hsending : strict → .sending ∉ (s.sub sa).held) :
    Moved strict i s (· = s.part i)
      ((s.set sa (s.sub sa).setQueued).withSendq (s.sendq ++ [sa])) := by
  have hok := h.ok sa
  have hout : sa ∉ s.sendq := by
    rw [hok.linked, hsendq]
    exact Bool.false_ne_true
  have hset : s.Sets sa (s.sub sa).setQueued
      ((s.set sa (s.sub sa).setQueued).withSendq (s.sendq ++ [sa])) :=
    { h.sets_set with
      sendq := List.nodup_append_comm.mpr (List.nodup_cons.mpr ⟨hout, h.sendq⟩)
      mem_sendq := fun x hx => by
        show x ∈ s.sendq ++ [sa] ↔ x ∈ s.sendq
        simp [hx] }
  have hin : sa ∈ s.sendq ++ [sa] := List.mem_append_right _ (List.mem_singleton_self _)
  have hnew := hok.enqueue hpos hinit hsendq hexp hsending hin
  rw [← propext (hset.awaited_self rfl rfl)] at hnew
  refine (h.moved hset hnew fun j _ => view_setQueued _ j).mono ?_
  rintro q rfl
  rw [view_setQueued]
  exact Part.set_self ..

theorem wp_sendQueueAddLocked {Q : Unit → Rci → Prop} {D : Rci → Prop}
    (hcb : (s.sub sa).cbExec = false) (hinit : (s.sub sa).initializing = false)
    (hsendq : (s.sub sa).sendq = false) :
    (sendQueueAddLocked sa).wp Q D s ↔
      Q () ((s.set sa (s.sub sa).setQueued).withSendq (s.sendq ++ [sa])) := by
  simp [sendQueueAddLocked, wp_touch hcb, wp_modifySub, hinit, hsendq]

theorem view_setDelay (a : SubApp) (b : Bool) (j : Thread) : (a.setDelay b).view j = a.view j := rfl

theorem Rci.Inv.moved_delay (h : s.Inv strict) (hpos : 0 < (s.sub sa).refCnt) (b : Bool) :
    Moved strict i s (· = s.part i) (s.set sa ((s.sub sa).setDelay b)) := by
  refine (h.moved_set ((h.ok sa).delay b hpos) rfl fun j _ => view_setDelay _ b j).mono ?_
  rintro q rfl
  exact Part.set_self ..

theorem Rci.Inv.moved_initialized (h : s.Inv strict) (howns : ((s.part i).views sa).owning)
    (hwait : (s.sub sa).blocking = true → s.Awaited sa) :
    Moved strict i s (· = (s.part i).set sa ((s.part i).views sa).published)
      (s.set sa (s.sub sa).setInitialized) := by
  have hmoved := h.moved_set ((h.ok sa).initialized howns.2.2 howns.2.1 hwait) rfl fun j hj =>
    view_setInitialized_of_ne howns hj
  rwa [view_setInitialized] at hmoved

/-- The thread is ready to wait, and the request is initialized. -/
theorem Rci.Inv.moved_submitted {k : Nat} (h : s.Inv strict)
    (howns : ((s.part (.app k)).views sa).owning) (hwaiting : (s.part (.app k)).waiting = none)
    {w : Option Nat} {n : Int} (hw : (s.sub sa).blocking = true → w = some sa ∧ n = 1) :
    Moved strict (.app k) s
      (· = ((s.part (.app k)).set sa ((s.part (.app k)).views sa).published).withWaiting w)
      ((s.withWaiter k w n).set sa (s.sub sa).setInitialized) := by
  have hidle : ∀ x, s.waiting k = some x → s.notifier k ≠ 1 := fun x hx =>
    by cases hx.symm.trans hwaiting
  have hfirst := h.moved_waiter hidle w n
  have hwait : ((s.withWaiter k w n).sub sa).blocking = true → (s.withWaiter k w n).Awaited sa := by
    intro hb
    obtain ⟨rfl, rfl⟩ := hw hb
    exact ⟨k, howns.1, Function.update_self .., Function.update_self ..⟩
  have hsecond := hfirst.inv.moved_initialized (i := .app k) howns hwait
  refine (hfirst.trans hsecond).mono ?_
  rintro q rfl
  rw [hfirst.own]
  rfl

/-- A request that was just initialized is queued, or left to the timer. -/
theorem wp_queueOrDelay {Q : Unit → Rci → Prop} {D : Rci → Prop} (h : s.Inv strict)
    (viable : Bool) (hpos : 0 < (s.sub sa).refCnt) (hinit : (s.sub sa).initializing = false)
    (hsendq : (s.sub sa).sendq = false) (hexp : sa ∉ s.expiredq)
    (hsending : .sending ∉ (s.sub sa).held)
    (hQ : ∀ s', Moved strict i s (· = s.part i) s' → Q () s') :
    (queueOrDelay sa viable).wp Q D s := by
  simp only [queueOrDelay, wp_ite, wp_modifySub,
    wp_sendQueueAddLocked ((h.ok sa).cbExec_of_pos hpos) hinit hsendq]
  exact ⟨fun _ => hQ _ (h.moved_enqueue hpos hinit hsendq hexp fun _ => hsending),
    fun _ => hQ _ (h.moved_delay hpos true)⟩

/-- The request is made known, and its thread is to block, or has nothing to do with it. -/
theorem wp_submitEnqueue {D : Rci → Prop} {k : Nat} (h : s.Inv strict) (viable : Bool)
    (howns : ((s.part (.app k)).views sa).owning) (hwaiting : (s.part (.app k)).waiting = none) :
    (submitEnqueue k sa viable).wp (fun block => Moved strict (.app k) s
      (· = ((s.part (.app k)).set sa ((s.part (.app k)).views sa).published).withWaiting
        (if block = true then some sa else none))) D s := by
  have hok := h.ok sa
  have hinit : (s.sub sa).initializing = true := howns.2.1
  have hctor : .constructor ∈ (s.sub sa).held := howns.2.2
  have hpos := hok.pos_of_mem hctor
  obtain ⟨hsendq, hsending, -⟩ := hok.initializing hinit
  simp only [submitEnqueue, wp_bind, wp_touch (hok.cbExec_of_pos hpos), wp_modify, wp_assert,
    wp_modifySub, wp_pure]
  refine ⟨fun _ => ?_, fun hn => (hn hinit).elim⟩
  have hmoved := h.moved_submitted howns hwaiting (w := if (s.sub sa).blocking = true then some sa else none)
    (n := if (s.sub sa).blocking = true then 1 else 0) fun hb => ⟨if_pos hb, if_pos hb⟩
  refine wp_queueOrDelay (i := .app k) hmoved.inv viable ?_ ?_ ?_ ?_ ?_ fun s' hqueued => ?_
  · rw [Rci.sub_set]
    exact hpos
  · rw [Rci.sub_set]
    rfl
  · rw [Rci.sub_set]
    exact Bool.eq_false_iff.mpr fun hq => hsendq (hok.sendqRef.mpr hq)
  · intro hexp
    exact absurd ((hok.expiring hexp).2.1.symm.trans hinit) Bool.false_ne_true
  · rw [Rci.sub_set]
    exact hsending
  · refine (hmoved.trans hqueued).mono ?_
    rintro q rfl
    exact hmoved.own

/-- A thread is woken up. -/
theorem wp_wait {D : Rci → Prop} {k : Nat} (h : s.Inv strict) (hnotifier : s.notifier k ≤ 0) :
    (modify fun s => s.withWaiter k none (s.notifier k) : Handler Rci Unit).wp
      (fun _ => Moved strict (.app k) s (· = (s.part (.app k)).withWaiting none)) D s :=
  h.moved_waiter (fun _ _ => by omega) none _

end Submitting

/-! ## The sender -/

section Sender

variable {a : SubApp}

/-- The sender has taken the request off the queue. -/
def View.dequeued (v : View) (stale : Bool) : View := { v with sending := True, flagged := stale = true }

theorem view_setDequeued (hnodup : a.held.Nodup) (stale : Bool) :
    (a.setDequeued stale).view .sender = (a.view .sender).dequeued stale := by
  simp [SubApp.view, SubApp.setDequeued, SubApp.rename, View.dequeued, hnodup.mem_erase_iff]

theorem view_setDequeued_of_ne (hnodup : a.held.Nodup) (stale : Bool) {j : Thread}
    (hj : j ≠ .sender) : (a.setDequeued stale).view j = a.view j := by
  simp [SubApp.view, SubApp.setDequeued, SubApp.rename, hnodup.mem_erase_iff, hj]

/-- A request is taken off the queue. -/
theorem Rci.Inv.moved_dequeue (h : s.Inv strict) (hlinked : sa ∈ s.sendq)
    (hnot : ¬((s.part .sender).views sa).sending) (stale : Bool) :
    Moved strict .sender s
      (· = (s.part .sender).set sa (((s.part .sender).views sa).dequeued stale))
      ((s.set sa ((s.sub sa).setDequeued stale)).withSendq (s.sendq.erase sa)) := by
  have hok := h.ok sa
  have hsending : .sending ∉ (s.sub sa).held := fun hmem => hnot ⟨rfl, hmem⟩
  have hset : s.Sets sa ((s.sub sa).setDequeued stale)
      ((s.set sa ((s.sub sa).setDequeued stale)).withSendq (s.sendq.erase sa)) :=
    { h.sets_set with
      sendq := h.sendq.erase sa
      mem_sendq := fun x hx => List.mem_erase_of_ne hx }
  have hout : sa ∉ s.sendq.erase sa := h.sendq.not_mem_erase
  have hnew := hok.dequeue stale (hok.linked.mp hlinked) hsending hout
  rw [← propext (hset.awaited_self rfl rfl)] at hnew
  have hmoved := h.moved hset hnew fun j hj => view_setDequeued_of_ne hok.nodup stale hj
  rw [view_setDequeued hok.nodup] at hmoved
  exact hmoved

/-- A request that need not be sent any more. -/
def SubApp.stale (a : SubApp) : Bool := a.cancel || a.ready || a.completing

theorem wp_dequeueHead_cons {Q : Option (Nat × Bool) → Rci → Prop} {D : Rci → Prop}
    (h : s.Inv strict) {rest : List Nat} (hqueue : s.sendq = sa :: rest) :
    dequeueHead.wp Q D s ↔ Q (some (sa, (s.sub sa).stale))
      ((s.set sa ((s.sub sa).setDequeued (s.sub sa).stale)).withSendq (s.sendq.erase sa)) := by
  have hok := h.ok sa
  have hsendq : (s.sub sa).sendq = true := hok.linked.mp (hqueue ▸ List.mem_cons_self)
  have hcb := hok.cbExec_of_pos (hok.pos_of_mem (hok.sendqRef.mpr hsendq))
  simp [dequeueHead, hqueue, sendQueueRemovePrepLocked, wp_touch hcb, wp_modifySub, hsendq,
    SubApp.stale]

/-- What a dequeue leads to. -/
def Part.Dequeued (p : Part) : Option (Nat × Bool) → Part → Prop
  | none, q => q = p
  | some (sa, stale), q => q = p.set sa ((p.views sa).dequeued stale)

theorem wp_dequeueHead {D : Rci → Prop} (h : s.Inv strict)
    (hnot : ∀ sa, ¬((s.part .sender).views sa).sending) :
    dequeueHead.wp (fun head => Moved strict .sender s ((s.part .sender).Dequeued head)) D s := by
  cases hqueue : s.sendq with
  | nil =>
    simp only [dequeueHead, wp_bind, wp_gets, hqueue]
    exact h.moved_refl
  | cons sa rest =>
    rw [wp_dequeueHead_cons h hqueue]
    exact h.moved_dequeue (hqueue ▸ List.mem_cons_self) (hnot sa) _

theorem Rci.Inv.moved_sent (h : s.Inv strict) (hpos : 0 < (s.sub sa).refCnt) :
    Moved strict i s (· = s.part i) (s.set sa (s.sub sa).setSent) := by
  refine (h.moved_set ((h.ok sa).sent hpos) rfl fun _ _ => rfl).mono ?_
  rintro q rfl
  exact Part.set_self ..

/-- A request that was not flagged is launched. -/
theorem wp_rpcLaunch {D : Rci → Prop} (h : s.Inv strict) (rc : Int)
    (hsending : ((s.part .sender).views sa).sending)
    (hflagged : ¬((s.part .sender).views sa).flagged) (hD : (s.sub sa).sendq = true → D s) :
    (rpcLaunch sa rc).wp (fun _ => Moved strict .sender s (· = s.part .sender)) D s := by
  have hok := h.ok sa
  have hr : .sending ∈ (s.sub sa).held := hsending.2
  have hpos := hok.pos_of_mem hr
  have hclear : (s.sub sa).flagged = false :=
    Bool.eq_false_iff.mpr fun hf => hflagged ⟨rfl, hr, hf⟩
  have hsame : { s with launchedFlagged := s.launchedFlagged || (s.sub sa).flagged } = s := by
    rw [hclear, Bool.or_false]
  simp only [rpcLaunch, wp_bind, wp_touch (hok.cbExec_of_pos hpos), wp_assert, wp_modify,
    wp_whenever, wp_modifySub, hsame]
  exact ⟨fun _ => ⟨fun _ => h.moved_sent hpos, fun _ => h.moved_refl⟩,
    fun hn => hD (Bool.not_eq_false _ ▸ hn)⟩

theorem wp_markSendFailed {D : Rci → Prop} (h : s.Inv strict) (hstrict : ¬strict)
    (hsending : ((s.part .sender).views sa).sending) :
    (markSendFailed sa).wp (fun _ => Moved strict .sender s (· = s.part .sender)) D s := by
  have hok := h.ok sa
  have hr : .sending ∈ (s.sub sa).held := hsending.2
  have hpos := hok.pos_of_mem hr
  have hinit := hok.not_initializing hr (.inl rfl)
  simp only [markSendFailed, wp_bind, wp_touch (hok.cbExec_of_pos hpos), wp_modifySub]
  refine (h.moved_set (hok.markSendFailed hstrict hpos hinit) rfl fun _ _ => rfl).mono ?_
  rintro q rfl
  exact Part.set_self ..

/-- The check of `raft_client_request_send_queue_remove_done`. -/
theorem wp_removeDone (h : s.Inv strict) (hsending : ((s.part .sender).views sa).sending) :
    (do
      let a ← touch sa
      assert (a.sendq = false) : Handler Rci Unit).wp
      (fun _ => Moved strict .sender s (· = s.part .sender)) (fun d => d.Inv strict ∧ ¬strict) s := by
  have hok := h.ok sa
  have hr : .sending ∈ (s.sub sa).held := hsending.2
  simp only [wp_bind, wp_touch (hok.cbExec_of_pos (hok.pos_of_mem hr)), wp_assert]
  exact ⟨fun _ => h.moved_refl, fun hn => ⟨h, fun hs => hn ((hok.strict hs).sending hr)⟩⟩

/-- The counters of the sender are nobody's. -/
theorem Rci.Inv.moved_counters (h : s.Inv strict) (cnt : Nat) (throttled : Bool) :
    Moved strict i s (· = s.part i)
      { s with intervalRpcCnt := cnt, requestsThrottled := throttled } :=
  ⟨{ h with }, fun _ _ => rfl, rfl⟩

theorem wp_remainingRpcs {D : Rci → Prop} (h : s.Inv strict) (newInterval : Bool) :
    (remainingRpcs newInterval).wp (fun _ => Moved strict i s (· = s.part i)) D s := by
  simp only [remainingRpcs, wp_bind, wp_whenever, wp_modify, wp_gets, wp_pure]
  exact ⟨fun _ => ⟨fun _ => h.moved_counters 0 true, fun _ => h.moved_counters 0 _⟩,
    fun _ => ⟨fun _ => h.moved_counters _ true, fun _ => h.moved_refl⟩⟩

end Sender

end RaftClient

end NiovaRaft
