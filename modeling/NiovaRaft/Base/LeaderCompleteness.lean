import NiovaRaft.Base.LogMatching

/-!
# Leader completeness

What a leader committed under the rules is in the log of every leader of a later term, and a
majority still holds it.  The argument follows an acknowledged prefix.  A peer that
acknowledged a prefix in term `t` keeps it as long as every later leader up to its own term had
the prefix when it stood (`Retained`): a peer removes entries only against the leader of its
term, and where they conflict.  The same then holds of the log it votes with.

Leader completeness is by induction on the later term.  The majority that acknowledged and the
majority that voted share a peer, and the log of that voter has the prefix by the induction
hypothesis for the terms in between.  The candidate's last entry is of a term between `t` and
its own, so its log is a prefix of the log of a leader that has the prefix.
-/

namespace Base.Replication

open World

variable {P E : Type} [Termed E]

/-! ## Acknowledged prefixes are retained -/

/-- Every leader of a term after `t` and before `u` stood with the prefix `l`. -/
def World.Inherited (w : World P E) (l : List E) (t u : Int) : Prop :=
  ∀ q t' l', w.led q t' → t < t' → t' < u → w.stood q t' = some l' → l <+: l'

omit [Termed E] in
theorem World.Inherited.anti {w w' : World P E} {l : List E} {t u u' : Int}
    (h : w'.Inherited l t u') (hx : Extends w w') (hu : u ≤ u') : w.Inherited l t u :=
  fun q t' l' hq h1 h2 hs => h q t' l' (hx.led hq) h1 (lt_of_lt_of_le h2 hu) (hx.stood hs)

/-- An acknowledged prefix stays in the synced log of a peer, and is in the log it votes with,
as long as the leaders in between have it. -/
structure Retained (w : World P E) : Prop where
  led : ∀ q t m, (q, t, m) ∈ w.acks → t ≤ (w.peer q).cur ∧
    ∃ r, w.led r t ∧ m ≤ (w.llog r t).length
  peer : ∀ q t m r k, (q, t, m) ∈ w.acks → w.led r t → k ≤ m →
    w.Inherited ((w.llog r t).take k) t ((w.peer q).cur + 1) →
    (w.llog r t).take k <+: (w.peer q).log.take (w.peer q).synced
  ballot : ∀ q t m r k, (q, t, m) ∈ w.acks → w.led r t → k ≤ m →
    ∀ b ∈ w.ballots, b.voter = q → t < b.term →
    w.Inherited ((w.llog r t).take k) t b.term → (w.llog r t).take k <+: b.log

section Retained

variable [DecidableEq P] [Fintype P] {R : Rules} {p : P} {w w' : World P E}

theorem Step.acks_cases (h : Step R p w w') :
    w'.acks = w.acks ∨
      ∃ m, w.MayAck p m ∧ w' = { w with acks := insert (p, (w.peer p).cur, m) w.acks } := by
  cases h with
  | ack m hm => exact .inr ⟨m, hm, rfl⟩
  | _ => exact .inl rfl

/-- A step keeps what is synced, or removes entries where they conflict with the leader. -/
theorem Step.synced_cases (hb : Basic R w) (h : Step R p w w') :
    (w.peer p).log.take (w.peer p).synced <+: (w'.peer p).log.take (w'.peer p).synced ∨
      ∃ k, (R.acked → w.Conflicts p k) ∧ (w'.peer p).log = (w.peer p).log.take k ∧
        (w'.peer p).synced = min (w.peer p).synced k ∧ (w'.peer p).cur = (w.peer p).cur := by
  have hs := hb.synced_le p
  cases h with
  | truncate k hs hl hc hg => exact .inr ⟨k, hg, by simp, by simp, by simp⟩
  | extend e hl he =>
    left
    simp only [setPeer_self]
    rw [List.take_append_of_le_length hs]
  | append q e hst hl hq hm he =>
    left
    simp only [setPeer_self]
    rw [List.take_append_of_le_length hs]
  | sync =>
    left
    simp only [setPeer_self, List.take_length]
    exact List.take_prefix _ _
  | crash k hk hl =>
    left
    simp only [setPeer_self, List.take_take, Nat.min_self]
    exact List.take_prefix_take_left hk
  | ack m hm => exact .inl (List.prefix_refl _)
  | apply i e hi he => exact .inl (List.prefix_refl _)
  | _ =>
    left
    simp only [setPeer_self]
    exact List.prefix_refl _

omit [DecidableEq P] in
/-- A peer does not remove an acknowledged prefix that the leaders since have inherited. -/
theorem Basic.le_of_conflicts (hb : Basic R w) (hu : w.Unique) {t : Int} {r : P} {k j : Nat}
    (hr : w.led r t) (ht : t ≤ (w.peer p).cur) (hlen : k ≤ (w.llog r t).length)
    (hin : w.Inherited ((w.llog r t).take k) t ((w.peer p).cur + 1))
    (hpre : (w.llog r t).take k <+: (w.peer p).log) (hc : w.Conflicts p j) : k ≤ j := by
  by_contra hlt
  rw [not_le] at hlt
  have hj : j < (w.llog r t).length := by omega
  have hpj : ((w.llog r t).take k)[j]? = some (w.llog r t)[j] := by
    rw [List.getElem?_take_of_lt hlt, List.getElem?_eq_getElem hj]
  have hej : (w.peer p).log[j]? = some (w.llog r t)[j] := by
    obtain ⟨s, hs⟩ := hpre
    rw [← hs, List.getElem?_append_left (by rw [List.length_take]; omega)]
    exact hpj
  obtain ⟨q, l, hq, hl, hconf, hnone⟩ := hc _ hej
  rcases lt_or_eq_of_le ht with hlt' | rfl
  · -- a later leader: it stood with the prefix
    obtain ⟨s, hs⟩ := hin q _ l hq hlt' (by omega) hl
    refine hconf _ ?_ rfl
    rw [← hs, List.getElem?_append_left (by rw [List.length_take]; omega)]
    exact hpj
  · -- the same leader: its log is what it stood with, then its own entries
    obtain rfl := hu q r _ hq hr
    obtain ⟨l', s, hl', hll, hown⟩ := hb.led_stood q _ hr
    obtain rfl : l' = l := Option.some.inj (hl'.symm.trans hl)
    rcases Nat.lt_or_ge j l'.length with h1 | h1
    · refine hconf (w.llog q (w.peer p).cur)[j] ?_ rfl
      rw [← List.getElem?_eq_getElem hj, hll, List.getElem?_append_left h1]
    · refine hnone (List.getElem?_eq_none h1) (hown _ ?_)
      have hmem : (w.llog q (w.peer p).cur)[j]? = some (w.llog q (w.peer p).cur)[j] :=
        List.getElem?_eq_getElem hj
      nth_rewrite 1 [hll] at hmem
      rw [List.getElem?_append_right h1] at hmem
      exact List.mem_of_getElem? hmem

omit [DecidableEq P] [Fintype P] in
/-- What a peer may acknowledge, it holds in common with the leader of its term. -/
theorem Matching.take_of_mayAck (hm : Matching w) (hu : w.Unique) {m : Nat}
    (h : w.MayAck p m) : ∃ r, w.led r (w.peer p).cur ∧ m ≤ (w.llog r (w.peer p).cur).length ∧
      (w.llog r (w.peer p).cur).take m <+: (w.peer p).log.take (w.peer p).synced := by
  obtain ⟨k, hmk, hms, hcase⟩ := h
  obtain ⟨r, hr, hk, hlen⟩ : ∃ r, w.led r (w.peer p).cur ∧
      (w.peer p).log.take k = (w.llog r (w.peer p).cur).take k ∧
      k ≤ (w.llog r (w.peer p).cur).length := by
    rcases hcase with ⟨r, hr, hmt⟩ | ⟨x, hk, hx, htx⟩
    · refine ⟨r, hr, hm.take_eq hu hr hmt, ?_⟩
      rcases hmt with rfl | ⟨x, y, -, hy, -⟩
      · exact Nat.zero_le _
      · have := (List.getElem?_eq_some_iff.mp hy).1
        omega
    · obtain ⟨r, hr, heq⟩ := hm.peer p _ x hx
      rw [htx] at hr heq
      rw [Nat.sub_add_cancel hk] at heq
      refine ⟨r, hr, heq, ?_⟩
      have h1 := (List.getElem?_eq_some_iff.mp hx).1
      have h2 := congrArg List.length heq
      simp only [List.length_take] at h2
      omega
  refine ⟨r, hr, by omega, ?_⟩
  have hm' : (w.llog r (w.peer p).cur).take m = (w.peer p).log.take m := by
    rw [← Nat.min_eq_left hmk, ← List.take_take, ← hk, List.take_take]
  rw [hm']
  exact List.take_prefix_take_left hms

omit [DecidableEq P] [Fintype P] [Termed E] in
/-- The leader that an acknowledgement is about, and the prefix, are those of before. -/
theorem Retained.old {t : Int} {m : Nat} (hled : ∃ r, w.led r t ∧ m ≤ (w.llog r t).length)
    (hx : Extends w w') (hu : w'.Unique) {r : P} {k : Nat} (hr : w'.led r t) (hk : k ≤ m) :
    w.led r t ∧ k ≤ (w.llog r t).length ∧ (w'.llog r t).take k = (w.llog r t).take k := by
  obtain ⟨r', hr', hlen⟩ := hled
  obtain rfl := hu r r' _ hr (hx.led hr')
  refine ⟨hr', by omega, ?_⟩
  obtain ⟨s, hs⟩ := hx.llog hr'
  rw [← hs, List.take_append_of_le_length (by omega)]

theorem Retained.peer_step (hr : Retained w) (hb : Basic R w) (hm : Matching w)
    (hR : R.acked) (hu : w'.Unique) (h : Step R p w w') (q : P) (t : Int) (m : Nat) (r : P)
    (k : Nat) (ha : (q, t, m) ∈ w'.acks) (hl : w'.led r t) (hk : k ≤ m)
    (hin : w'.Inherited ((w'.llog r t).take k) t ((w'.peer q).cur + 1)) :
    (w'.llog r t).take k <+: (w'.peer q).log.take (w'.peer q).synced := by
  have hx := h.extends
  have hu0 := hu.of_extends hx
  have hold : (q, t, m) ∈ w.acks →
      (w'.llog r t).take k <+: (w'.peer q).log.take (w'.peer q).synced := by
    intro ha
    obtain ⟨hcur, hled⟩ := hr.led q t m ha
    obtain ⟨hr0, hlen, heq⟩ := Retained.old hled hx hu hl hk
    rw [heq] at hin ⊢
    have hin0 : w.Inherited ((w.llog r t).take k) t ((w.peer q).cur + 1) :=
      hin.anti hx (by have := hx.cur q; omega)
    have hpre := hr.peer q t m r k ha hr0 hk hin0
    by_cases hq : q = p
    · subst hq
      rcases h.synced_cases hb with hs | ⟨j, hc, hlog, hsy, -⟩
      · exact hpre.trans hs
      · have hkj := hb.le_of_conflicts hu0 hr0 hcur hlen hin0
          (hpre.trans (List.take_prefix _ _)) (hc hR)
        rw [hlog, hsy, List.take_take, List.prefix_take_iff]
        rw [List.prefix_take_iff] at hpre
        refine ⟨hpre.1, ?_⟩
        have := hpre.2
        rw [List.length_take] at this ⊢
        omega
    · rw [h.peer_ne hq]
      exact hpre
  rcases h.acks_cases with heq | ⟨m', hmay, heq⟩
  · rw [heq] at ha
    exact hold ha
  · rw [heq] at ha
    rcases ha with ha | ha
    · cases ha
      obtain ⟨r', hr', hlen, hpre⟩ := hm.take_of_mayAck hu0 hmay
      subst heq
      obtain rfl := hu r r' _ hl hr'
      exact (List.take_prefix_take_left hk).trans hpre
    · exact hold ha

theorem Retained.ballot_step (hr : Retained w) (hb : Basic R w)
    (hu : w'.Unique) (h : Step R p w w') (q : P) (t : Int) (m : Nat) (r : P)
    (k : Nat) (ha : (q, t, m) ∈ w'.acks) (hl : w'.led r t) (hk : k ≤ m)
    (b : Ballot P E) (hbm : b ∈ w'.ballots) (hv : b.voter = q) (ht : t < b.term)
    (hin : w'.Inherited ((w'.llog r t).take k) t b.term) :
    (w'.llog r t).take k <+: b.log := by
  have hx := h.extends
  rcases h.acks_cases with heq | ⟨m', hmay, heq⟩
  · rw [heq] at ha
    obtain ⟨hcur, hled⟩ := hr.led q t m ha
    obtain ⟨hr0, hlen, htk⟩ := Retained.old hled hx hu hl hk
    rw [htk] at hin ⊢
    rcases h.ballots_cases with hbs | ⟨t', c, l, hbs, ht', -, hs, -⟩
    · rw [hbs] at hbm
      exact hr.ballot q t m r k ha hr0 hk b hbm hv ht (hin.anti hx (le_refl _))
    · rw [hbs] at hbm
      rcases hbm with rfl | hbm
      · -- a new ballot: the voter still holds what it acknowledged
        obtain rfl : p = q := hv
        have hpre := hr.peer p t m r k ha hr0 hk (hin.anti hx (by simp only; omega))
        rwa [hs, List.take_length] at hpre
      · exact hr.ballot q t m r k ha hr0 hk b hbm hv ht (hin.anti hx (le_refl _))
  · subst heq
    rcases ha with ha | ha
    · -- a new acknowledgement: no ballot of the peer is of a later term
      cases ha
      have := hb.ballot_le b hbm
      rw [hv] at this
      omega
    · exact hr.ballot q t m r k ha hl hk b hbm hv ht hin

theorem Retained.step (hr : Retained w) (hb : Basic R w) (hm : Matching w)
    (hR : R.acked) (hu : w'.Unique) (h : Step R p w w') : Retained w' where
  led := by
    intro q t m ha
    have hx := h.extends
    have hold : (q, t, m) ∈ w.acks → t ≤ (w'.peer q).cur ∧
        ∃ r, w'.led r t ∧ m ≤ (w'.llog r t).length := by
      intro ha
      obtain ⟨hcur, r, hr0, hlen⟩ := hr.led q t m ha
      exact ⟨le_trans hcur (hx.cur q), r, hx.led hr0, le_trans hlen (hx.llog hr0).length_le⟩
    rcases h.acks_cases with heq | ⟨m', hmay, heq⟩
    · rw [heq] at ha
      exact hold ha
    · rw [heq] at ha
      rcases ha with ha | ha
      · cases ha
        obtain ⟨r, hr0, hlen, -⟩ := hm.take_of_mayAck (hu.of_extends hx) hmay
        subst heq
        exact ⟨le_refl _, r, hr0, hlen⟩
      · exact hold ha
  peer := hr.peer_step hb hm hR hu h
  ballot := hr.ballot_step hb hu h

theorem Reachable.retained (h : Reachable R w) (hR : R.acked) (hu : w.Unique) :
    Retained w := by
  induction h with
  | init =>
    exact ⟨fun q t m ha => absurd ha (by simp [World.init]),
      fun q t m r k ha => absurd ha (by simp [World.init]),
      fun q t m r k ha => absurd ha (by simp [World.init])⟩
  | step p hrc hstep ih =>
    have hu' := hu.of_extends hstep.extends
    exact (ih hu').step hrc.basic (hrc.matching hu') hR hu hstep

end Retained

/-! ## Later leaders have what was committed -/

section Complete

variable [Fintype P] {R : Rules} {p : P} {w w' : World P E}

/-- A leader's log has no entry of a later term. -/
theorem Basic.term_le_of_led (hb : Basic R w) {q : P} {t : Int} (hq : w.led q t) {e : E}
    (he : e ∈ w.llog q t) : term e ≤ t := by
  obtain ⟨l, s, hl, heq, hs⟩ := hb.led_stood q t hq
  rw [heq, List.mem_append] at he
  rcases he with he | he
  · exact le_of_lt ((hb.stood_le q t l hl).2 e he)
  · exact le_of_eq (hs e he)

theorem lastTerm_eq {l : List E} {x : E} (hx : l[l.length - 1]? = some x) :
    lastTerm l = term x := by
  unfold lastTerm
  rw [List.getLast?_eq_getElem?, hx]
  rfl

omit [Fintype P] in
/-- A matched log is a prefix of the log of a leader of its last term. -/
theorem Matched.of_last {l : List E} (hm : w.Matched l) (hl : 0 < l.length) :
    ∃ q, w.led q (lastTerm l) ∧ l <+: w.llog q (lastTerm l) := by
  obtain ⟨x, hx⟩ : ∃ x, l[l.length - 1]? = some x :=
    ⟨_, List.getElem?_eq_getElem (by omega)⟩
  obtain ⟨q, hq, heq⟩ := hm _ x hx
  rw [Nat.sub_add_cancel hl, List.take_length] at heq
  rw [lastTerm_eq hx]
  exact ⟨q, hq, by rw [heq]; exact List.take_prefix _ _⟩

/-- No entry of a matched log is of a later term than its last one. -/
theorem Matched.term_le_lastTerm (hb : Basic R w) {l : List E} (hm : w.Matched l) {e : E}
    (he : e ∈ l) : term e ≤ lastTerm l := by
  obtain ⟨q, hq, hpre⟩ := Matched.of_last hm (List.length_pos_of_mem he)
  exact hb.term_le_of_led hq (hpre.subset he)

/-- The first `m` entries of the leader of `t` end in one of its own, and a majority
acknowledged them. -/
structure Secured (w : World P E) (q : P) (t : Int) (m : Nat) : Prop where
  led : w.led q t
  own : ∃ e, 0 < m ∧ (w.llog q t)[m - 1]? = some e ∧ term e = t
  acks : w.AckQuorum t m

theorem Secured.le_length {q : P} {t : Int} {m : Nat} (hs : Secured w q t m) :
    m ≤ (w.llog q t).length := by
  obtain ⟨e, hm, he, -⟩ := hs.own
  have := (List.getElem?_eq_some_iff.mp he).1
  omega

/-- A voter that holds a secured prefix elects only candidates that hold it. -/
theorem Secured.prefix_of_upToDate (hb : Basic R w) (hm : Matching w) (hu : w.Unique) {q : P}
    {t t' : Int} {m : Nat} (hs : Secured w q t m) {b : Ballot P E} (hbm : b ∈ w.ballots)
    (hpre : (w.llog q t).take m <+: b.log) {r : P} {l : List E} (hl : w.stood r t' = some l)
    (hup : UpToDate l b.log) (hin : w.Inherited ((w.llog q t).take m) t t') :
    (w.llog q t).take m <+: l := by
  obtain ⟨e, hm0, he, hte⟩ := hs.own
  have hlen := hs.le_length
  have hblen : m ≤ b.log.length := by
    have := hpre.length_le
    rw [List.length_take] at this
    omega
  have hllen : m ≤ l.length := le_trans hblen hup.2
  -- the candidate's last entry is of a term between `t` and its own
  have hmem : e ∈ b.log := by
    refine hpre.subset (List.mem_of_getElem? (i := m - 1) ?_)
    rw [List.getElem?_take_of_lt (by omega), he]
  have hlow : t ≤ lastTerm l := by
    have := Matched.term_le_lastTerm hb (hm.ballot b hbm) hmem
    rw [hte] at this
    exact le_trans this hup.1
  obtain ⟨q', hq', hpre'⟩ := Matched.of_last (hm.stood r t' l hl) (by omega)
  have hhigh : lastTerm l < t' := by
    have hx : l[l.length - 1]? = some l[l.length - 1] := List.getElem?_eq_getElem (by omega)
    rw [lastTerm_eq hx]
    exact (hb.stood_le r t' l hl).2 _ (List.getElem_mem _)
  have hall : (w.llog q t).take m <+: w.llog q' (lastTerm l) := by
    rcases lt_or_eq_of_le hlow with hlt | heq
    · obtain ⟨l', s, hl', heq, -⟩ := hb.led_stood q' _ hq'
      rw [heq]
      exact (hin q' _ l' hq' hlt hhigh hl').trans (List.prefix_append _ _)
    · rw [← heq] at hq' ⊢
      obtain rfl := hu q q' t hs.led hq'
      exact List.take_prefix _ _
  exact List.prefix_of_prefix_length_le hall hpre' (by rw [List.length_take]; omega)

/-- Leader completeness. -/
theorem Secured.inherited [DecidableEq P] (hb : Basic R w) (hR : R.counted) (hm : Matching w)
    (hu : w.Unique) (hr : Retained w) {q : P} {t : Int} {m : Nat} (hs : Secured w q t m)
    (u : Int) : w.Inherited ((w.llog q t).take m) t u := by
  -- by strong induction on how far the later term lies ahead
  suffices h : ∀ d : Nat, w.Inherited ((w.llog q t).take m) t (t + d) by
    intro r t' l hl h1 h2 h3
    exact h (t' - t + 1).toNat r t' l hl h1 (by omega) h3
  intro d
  induction d with
  | zero =>
    intro r t' l hl h1 h2 h3
    omega
  | succ d ih =>
    intro r t' l hl h1 h2 h3
    rcases lt_or_ge t' (t + d) with hlt | hge
    · exact ih r t' l hl h1 hlt h3
    · obtain rfl : t' = t + d := by
        push_cast at h2
        omega
      obtain ⟨Q, hQ, hv⟩ := hb.led_quorum hR r _ hl
      obtain ⟨Q', hQ', ha⟩ := hs.acks
      obtain ⟨v, hvQ, hvQ'⟩ := hQ.inter hQ'
      obtain ⟨vlog, hbm⟩ := hv v hvQ
      obtain ⟨m', hm', hack⟩ := ha v hvQ'
      have hpre := hr.ballot v t m' q m hack hs.led hm' _ hbm rfl h1 ih
      obtain ⟨l', hl', hup⟩ := hb.ballot_stood _ hbm
      obtain rfl : l' = l := Option.some.inj (hl'.symm.trans h3)
      exact hs.prefix_of_upToDate hb hm hu hbm hpre h3 hup ih

/-- A secured prefix is in the log of every leader of the same or a later term. -/
theorem Secured.prefix_llog [DecidableEq P] (hb : Basic R w) (hR : R.counted) (hm : Matching w)
    (hu : w.Unique) (hr : Retained w) {q r : P} {t t' : Int} {m : Nat}
    (hs : Secured w q t m) (hl : w.led r t') (ht : t ≤ t') :
    (w.llog q t).take m <+: w.llog r t' := by
  rcases lt_or_eq_of_le ht with hlt | rfl
  · obtain ⟨l, s, hst, heq, -⟩ := hb.led_stood r t' hl
    rw [heq]
    exact (hs.inherited hb hR hm hu hr (t' + 1) r t' l hl hlt (by omega) hst).trans
      (List.prefix_append _ _)
  · obtain rfl := hu q r t hs.led hl
    exact List.take_prefix _ _

/-- A majority holds a secured prefix in its synced logs, whatever happened since. -/
theorem Secured.held [DecidableEq P] (hb : Basic R w) (hR : R.counted) (hm : Matching w)
    (hu : w.Unique) (hr : Retained w) {q : P} {t : Int} {m : Nat} (hs : Secured w q t m) :
    ∃ Q : Finset P, Majority Q ∧
      ∀ v ∈ Q, (w.llog q t).take m <+: (w.peer v).log.take (w.peer v).synced := by
  obtain ⟨Q, hQ, ha⟩ := hs.acks
  refine ⟨Q, hQ, fun v hv => ?_⟩
  obtain ⟨m', hm', hack⟩ := ha v hv
  exact hr.peer v t m' q m hack hs.led hm' (hs.inherited hb hR hm hu hr _)

theorem Secured.mono {q : P} {t : Int} {m : Nat} (hs : Secured w q t m) (hx : Extends w w') :
    Secured w' q t m where
  led := hx.led hs.led
  own := by
    obtain ⟨e, hm, he, hte⟩ := hs.own
    obtain ⟨s, hs'⟩ := hx.llog hs.led
    refine ⟨e, hm, ?_, hte⟩
    rw [← hs', List.getElem?_append_left (List.getElem?_eq_some_iff.mp he).1, he]
  acks := by
    obtain ⟨Q, hQ, ha⟩ := hs.acks
    refine ⟨Q, hQ, fun v hv => ?_⟩
    obtain ⟨m', hm', hack⟩ := ha v hv
    exact ⟨m', hm', hx.acks hack⟩

end Complete

/-! ## What is committed and applied -/

/-- What leaders committed is secured. -/
def Committed [Fintype P] (w : World P E) : Prop :=
  ∀ q t m, (q, t, m) ∈ w.commits → Secured w q t m

/-- What a peer has committed is what some leader committed, and so is what it applied. -/
structure Covered (w : World P E) : Prop where
  peer : ∀ q, (w.peer q).commit = 0 ∨ ∃ r t m, (r, t, m) ∈ w.commits ∧ t ≤ (w.peer q).cur ∧
    (w.peer q).commit ≤ m ∧
    (w.peer q).log.take (w.peer q).commit = (w.llog r t).take (w.peer q).commit
  applied : ∀ q i e, (q, i, e) ∈ w.applied → ∃ r t m, (r, t, m) ∈ w.commits ∧ i < m ∧
    (w.llog r t)[i]? = some e

section Covered

variable [DecidableEq P] [Fintype P] {R : Rules} {p : P} {w w' : World P E}

theorem Committed.step (hc : Committed w) (hb : Basic R w) (hR : R.acked)
    (h : Step R p w w') : Committed w' := by
  intro q t m hm
  have hold : (q, t, m) ∈ w.commits → Secured w' q t m := fun hm => (hc q t m hm).mono h.extends
  cases h with
  | commitLead m' hl hm' hg =>
    rcases hm with hm | hm
    · cases hm
      obtain ⟨hled, heq⟩ := hb.leading p hl
      obtain ⟨hack, e, hpos, he, hte⟩ := hg hR
      exact ⟨hled, ⟨e, hpos, by rw [← heq] at he; exact he, hte⟩, hack⟩
    · exact hold hm
  | _ => exact hold hm

/-- A step of the peer keeps what it committed, forgets it, or commits. -/
theorem Step.commit_cases (hb : Basic R w) (h : Step R p w w') :
    ((w'.peer p).commit = (w.peer p).commit ∧
        (w'.peer p).log.take (w.peer p).commit = (w.peer p).log.take (w.peer p).commit) ∨
      (w'.peer p).commit = 0 ∨
      (∃ m, (w.peer p).leading = true ∧ (w'.peer p).commit = m ∧
        (p, (w.peer p).cur, m) ∈ w'.commits ∧ (w'.peer p).log = (w.peer p).log ∧
        (w'.peer p).cur = (w.peer p).cur ∧ w'.llog = w.llog) ∨
      ∃ c, (R.covered → w.MayFollow p c) ∧ (w'.peer p).commit = c ∧
        (w'.peer p).log = (w.peer p).log ∧ (w'.peer p).cur = (w.peer p).cur ∧
        w'.llog = w.llog := by
  have hcs : (w.peer p).commit ≤ (w.peer p).log.length :=
    le_trans (hb.commit_le p) (hb.synced_le p)
  cases h with
  | extend e hl he =>
    left
    rw [setPeer_self]
    exact ⟨rfl, List.take_append_of_le_length hcs⟩
  | append q e hst hl hq hm he =>
    left
    rw [setPeer_self]
    exact ⟨rfl, List.take_append_of_le_length hcs⟩
  | truncate k hs hl hc hg =>
    left
    rw [setPeer_self]
    exact ⟨rfl, by rw [List.take_take, Nat.min_eq_left hc]⟩
  | crash k hk hl => exact .inr (.inl (by simp))
  | commitLead m hl hm hg =>
    exact .inr (.inr (.inl ⟨m, hl, by simp, Set.mem_insert _ _, by simp, by simp, rfl⟩))
  | commitFollow c hc hg =>
    exact .inr (.inr (.inr ⟨c, hg, by simp, by simp, by simp, rfl⟩))
  | ack m hm => exact .inl ⟨rfl, rfl⟩
  | apply i e hi he => exact .inl ⟨rfl, rfl⟩
  | _ => exact .inl ⟨by simp, by simp⟩

/-- As far as a peer has committed, some leader did, in a term that is not newer. -/
theorem Reachable.commit_reported (h : Reachable R w) (hR : R.covered) (q : P) :
    (w.peer q).commit = 0 ∨ ∃ r t m, (r, t, m) ∈ w.commits ∧ t ≤ (w.peer q).cur ∧
      (w.peer q).commit ≤ m := by
  induction h with
  | init => exact .inl rfl
  | @step w w' p hrc hstep ih =>
    have hx := hstep.extends
    have hold : (w'.peer q).commit = (w.peer q).commit → (w'.peer q).commit = 0 ∨
        ∃ r t m, (r, t, m) ∈ w'.commits ∧ t ≤ (w'.peer q).cur ∧ (w'.peer q).commit ≤ m := by
      intro heq
      rw [heq]
      refine ih.imp_right ?_
      rintro ⟨r, t, m, h1, h2, h3⟩
      exact ⟨r, t, m, hx.commits h1, le_trans h2 (hx.cur q), h3⟩
    by_cases hq : q = p
    · subst hq
      rcases hstep.commit_cases hrc.basic with ⟨h1, -⟩ | h1 | ⟨m, -, h1, h2, -, h3, -⟩ |
        ⟨c, hg, h1, -, h3, -⟩
      · exact hold h1
      · exact .inl h1
      · exact .inr ⟨q, _, m, h2, le_of_eq h3.symm, le_of_eq h1⟩
      · obtain ⟨-, r, t, m, h4, h5, h6⟩ := hg hR
        exact .inr ⟨r, t, m, hx.commits h4, by rw [h3]; exact h5, by rw [h1]; exact h6⟩
    · exact hold (by rw [hstep.peer_ne hq])

omit [DecidableEq P] [Fintype P] [Termed E] in
/-- The part of a leader's log below a commit does not change. -/
theorem take_llog_eq {q : P} {t : Int} {m k : Nat} (hx : Extends w w') (hl : w.led q t)
    (hm : m ≤ (w.llog q t).length) (hk : k ≤ m) :
    (w'.llog q t).take k = (w.llog q t).take k := by
  obtain ⟨s, hs⟩ := hx.llog hl
  rw [← hs, List.take_append_of_le_length (by omega)]

/-- A follower that matches its leader commits what the leader's log has in common with an
earlier commit. -/
theorem World.MayFollow.covered (hb : Basic R w) (hR : R.counted) (hm : Matching w)
    (hu : w.Unique) (hr : Retained w) (hc : Committed w) {c : Nat} (h : w.MayFollow p c) :
    ∃ r t m, (r, t, m) ∈ w.commits ∧ t ≤ (w.peer p).cur ∧ c ≤ m ∧
      (w.peer p).log.take c = (w.llog r t).take c := by
  obtain ⟨⟨q, k, hck, hq, hmt⟩, r, t, m, hcm, ht, hcm'⟩ := h
  refine ⟨r, t, m, hcm, ht, hcm', ?_⟩
  have hs := hc r t m hcm
  have hpre := hs.prefix_llog hb hR hm hu hr hq ht
  obtain ⟨s, hs'⟩ := hpre
  have hlen : c ≤ ((w.llog r t).take m).length := by
    have := hs.le_length
    rw [List.length_take]
    omega
  calc (w.peer p).log.take c
      = ((w.peer p).log.take k).take c := by rw [List.take_take, Nat.min_eq_left hck]
    _ = ((w.llog q (w.peer p).cur).take k).take c := by rw [hm.take_eq hu hq hmt]
    _ = (w.llog q (w.peer p).cur).take c := by rw [List.take_take, Nat.min_eq_left hck]
    _ = ((w.llog r t).take m).take c := by
        rw [← hs', List.take_append_of_le_length hlen]
    _ = (w.llog r t).take c := by rw [List.take_take, Nat.min_eq_left hcm']

theorem Covered.peer_step (hv : Covered w) (hb : Basic R w) (hm : Matching w) (hu : w.Unique)
    (hr : Retained w) (hc : Committed w) (hR : R.counted) (hR' : R.covered)
    (h : Step R p w w') (q : P) :
    (w'.peer q).commit = 0 ∨ ∃ r t m, (r, t, m) ∈ w'.commits ∧ t ≤ (w'.peer q).cur ∧
      (w'.peer q).commit ≤ m ∧
      (w'.peer q).log.take (w'.peer q).commit = (w'.llog r t).take (w'.peer q).commit := by
  have hx := h.extends
  -- what was covered before is covered now, as long as the committed prefix is the same
  have hkeep : ∀ q, (w'.peer q).commit = (w.peer q).commit →
      (w'.peer q).log.take (w.peer q).commit = (w.peer q).log.take (w.peer q).commit →
      (w'.peer q).commit = 0 ∨ ∃ r t m, (r, t, m) ∈ w'.commits ∧ t ≤ (w'.peer q).cur ∧
        (w'.peer q).commit ≤ m ∧
        (w'.peer q).log.take (w'.peer q).commit = (w'.llog r t).take (w'.peer q).commit := by
    intro q h1 h2
    rcases hv.peer q with h0 | ⟨r, t, m, h3, h4, h5, h6⟩
    · exact .inl (by rw [h1, h0])
    · refine .inr ⟨r, t, m, hx.commits h3, le_trans h4 (hx.cur q), by rw [h1]; exact h5, ?_⟩
      have hs := hc r t m h3
      rw [h1, h2, h6, take_llog_eq hx hs.led hs.le_length h5]
  by_cases hq : q = p
  · subst hq
    rcases h.commit_cases hb with ⟨h1, h2⟩ | h0 | ⟨m, hl, h1, h2, h3, h4, h5⟩ |
      ⟨c, hg, h1, h2, h3, h4⟩
    · exact hkeep q h1 h2
    · exact .inl h0
    · obtain ⟨hled, heq⟩ := hb.leading q hl
      exact .inr ⟨q, _, m, h2, le_of_eq h4.symm, le_of_eq h1, by rw [h3, h5, heq]⟩
    · obtain ⟨r, t, m, h5, h6, h7, h8⟩ := (hg hR').covered hb hR hm hu hr hc
      exact .inr ⟨r, t, m, hx.commits h5, by rw [h3]; exact h6, by rw [h1]; exact h7,
        by rw [h1, h2, h4, h8]⟩
  · exact hkeep q (by rw [h.peer_ne hq]) (by rw [h.peer_ne hq])

theorem Covered.step (hv : Covered w) (hb : Basic R w) (hm : Matching w) (hu : w.Unique)
    (hr : Retained w) (hc : Committed w) (hR : R.counted) (hR' : R.covered)
    (h : Step R p w w') : Covered w' where
  peer := hv.peer_step hb hm hu hr hc hR hR' h
  applied := by
    have hx := h.extends
    have hold : ∀ q i e, (q, i, e) ∈ w.applied → ∃ r t m, (r, t, m) ∈ w'.commits ∧ i < m ∧
        (w'.llog r t)[i]? = some e := by
      intro q i e ha
      obtain ⟨r, t, m, h1, h2, h3⟩ := hv.applied q i e ha
      obtain ⟨s, hs⟩ := hx.llog (hc r t m h1).led
      refine ⟨r, t, m, hx.commits h1, h2, ?_⟩
      rw [← hs, List.getElem?_append_left (List.getElem?_eq_some_iff.mp h3).1, h3]
    intro q i e ha
    cases h with
    | apply i' e' hi he =>
      rcases ha with ha | ha
      · cases ha
        rcases hv.peer p with h0 | ⟨r, t, m, h1, -, h3, h4⟩
        · omega
        · refine ⟨r, t, m, h1, by omega, ?_⟩
          rw [← List.getElem?_take_of_lt (l := w.llog r t) hi, ← h4,
            List.getElem?_take_of_lt hi, he]
      · exact hold q i e ha
    | _ => exact hold q i e ha

theorem Reachable.committed (h : Reachable R w) (hR : R.acked) : Committed w := by
  induction h with
  | init => exact fun q t m hm => absurd hm (by simp [World.init])
  | step p hrc hstep ih => exact ih.step hrc.basic hR hstep

theorem Reachable.covered (h : Reachable R w) (hR : R.counted) (hR' : R.acked)
    (hR'' : R.covered) (hu : w.Unique) : Covered w := by
  induction h with
  | init => exact ⟨fun q => .inl rfl, fun q i e ha => absurd ha (by simp [World.init])⟩
  | step p hrc hstep ih =>
    have hu' := hu.of_extends hstep.extends
    exact (ih hu').step hrc.basic (hrc.matching hu') hu' (hrc.retained hR' hu')
      (hrc.committed hR') hR hR'' hstep

/-- State machine safety: what two peers applied at one position is the same. -/
theorem Reachable.applied_agree (h : Reachable R w) (hR : R.counted) (hR' : R.acked)
    (hR'' : R.covered) {q q' : P} {i : Nat} {e e' : E} (ha : (q, i, e) ∈ w.applied)
    (ha' : (q', i, e') ∈ w.applied) : e = e' := by
  have hb := h.basic
  have hu := hb.unique hR
  have hm := h.matching hu
  have hr := h.retained hR' hu
  have hc := h.committed hR'
  have hv := h.covered hR hR' hR'' hu
  obtain ⟨r, t, m, h1, h2, h3⟩ := hv.applied q i e ha
  obtain ⟨r', t', m', h1', h2', h3'⟩ := hv.applied q' i e' ha'
  -- the earlier of the two commits is in the log of the later leader
  have key : ∀ {r r' : P} {t t' : Int} {m m' : Nat} {e e' : E}, Secured w r t m →
      Secured w r' t' m' → i < m → (w.llog r t)[i]? = some e → (w.llog r' t')[i]? = some e' →
      t ≤ t' → e = e' := by
    intro r r' t t' m m' e e' hs hs' hi he he' ht
    obtain ⟨s, hs''⟩ := hs.prefix_llog hb hR hm hu hr hs'.led ht
    have hlen : i < ((w.llog r t).take m).length := by
      have := hs.le_length
      rw [List.length_take]
      omega
    rw [← hs'', List.getElem?_append_left hlen, List.getElem?_take_of_lt hi, he] at he'
    exact Option.some.inj he'
  rcases le_total t t' with ht | ht
  · exact key (hc r t m h1) (hc r' t' m' h1') h2 h3 h3' ht
  · exact (key (hc r' t' m' h1') (hc r t m h1) h2' h3' h3 ht).symm

end Covered

end Base.Replication
