import NiovaRaft.Base.Replication

/-!
# Log matching

Every log is made of prefixes of the leaders' logs: an entry of term `t` at position `i` makes
the log agree up to `i` with the log of a leader of `t`.  When no two peers led the same term,
two logs with entries of one term at one position therefore agree up to that position.

The invariant is about all logs at once: those of the peers, of the leaders, of the candidates
when they stood and of the voters when they voted.  An append keeps it because the follower's
log ends in an entry of the term that the leader's log has there.
-/

namespace Base.Replication

open World

variable {P E : Type} [Termed E]

/-- Where `l` has an entry of a term, it agrees with the log of a leader of that term. -/
def World.Matched (w : World P E) (l : List E) : Prop :=
  ∀ i e, l[i]? = some e →
    ∃ q, w.led q (term e) ∧ l.take (i + 1) = (w.llog q (term e)).take (i + 1)

namespace World

variable {w w' : World P E} {l l' : List E}

theorem Matched.nil : w.Matched ([] : List E) := by
  intro i e he
  simp at he

theorem Matched.of_isPrefix (h : w.Matched l) (hp : l' <+: l) : w.Matched l' := by
  intro i e he
  have hi : i < l'.length := (List.getElem?_eq_some_iff.mp he).1
  obtain ⟨s, rfl⟩ := hp
  obtain ⟨q, hq, heq⟩ := h i e (by rw [List.getElem?_append_left hi]; exact he)
  refine ⟨q, hq, ?_⟩
  rw [← heq, List.take_append_of_le_length (by omega)]

/-- The leaders' logs only grow, so a log stays matched. -/
theorem Matched.mono (h : w.Matched l) (hx : Extends w w') : w'.Matched l := by
  intro i e he
  obtain ⟨q, hq, heq⟩ := h i e he
  refine ⟨q, hx.led hq, ?_⟩
  have hi : i < l.length := (List.getElem?_eq_some_iff.mp he).1
  have hlen : i + 1 ≤ (w.llog q (term e)).length := by
    have := congrArg List.length heq
    simp only [List.length_take] at this
    omega
  obtain ⟨s, hs⟩ := hx.llog hq
  rw [heq, ← hs, List.take_append_of_le_length hlen]

/-- Two matched logs with entries of one term at one position agree up to it. -/
theorem Matched.agree (h : w.Matched l) (h' : w.Matched l') (hu : w.Unique) {i : Nat} {e e' : E}
    (he : l[i]? = some e) (he' : l'[i]? = some e') (ht : term e = term e') :
    l.take (i + 1) = l'.take (i + 1) := by
  obtain ⟨q, hq, heq⟩ := h i e he
  obtain ⟨q', hq', heq'⟩ := h' i e' he'
  rw [← ht] at hq' heq'
  obtain rfl := hu q q' _ hq hq'
  rw [heq, heq']

end World

/-- Every log of the world is matched. -/
structure Matching (w : World P E) : Prop where
  peer : ∀ q, w.Matched (w.peer q).log
  led : ∀ q t, w.led q t → w.Matched (w.llog q t)
  stood : ∀ q t l, w.stood q t = some l → w.Matched l
  ballot : ∀ b ∈ w.ballots, w.Matched b.log

section Step

variable [DecidableEq P] [Fintype P] {R : Rules} {p : P} {w w' : World P E}

omit [DecidableEq P] [Fintype P] in
/-- Up to where a follower matches the leader of its term, their logs agree. -/
theorem Matching.take_eq (hm : Matching w) (hu : w.Unique) {q : P} {k : Nat}
    (hq : w.led q (w.peer p).cur) (h : w.Matches p q k) :
    (w.peer p).log.take k = (w.llog q (w.peer p).cur).take k := by
  rcases h with rfl | ⟨x, y, hx, hy, hxy⟩
  · simp
  · rcases Nat.eq_zero_or_pos k with rfl | hk
    · simp
    · have := (hm.peer p).agree (hm.led q _ hq) hu hx hy hxy
      rwa [Nat.sub_add_cancel hk] at this

/-- The leader's log with its new entry. -/
theorem Matching.llog_append (hb : Basic R w) (hm : Matching w) (h : Step R p w w') {e : E}
    (hl : (w.peer p).leading = true) (he : term e = (w.peer p).cur)
    (h1 : w'.led = w.led)
    (h2 : w'.llog = Function.update w.llog p
      (Function.update (w.llog p) (w.peer p).cur (w.llog p (w.peer p).cur ++ [e]))) :
    w'.Matched (w.llog p (w.peer p).cur ++ [e]) := by
  obtain ⟨hled, -⟩ := hb.leading p hl
  intro i x hx
  rcases Nat.lt_or_ge i (w.llog p (w.peer p).cur).length with hi | hi
  · rw [List.getElem?_append_left hi] at hx
    obtain ⟨q, hq, heq⟩ := ((hm.led p _ hled).mono h.extends) i x hx
    exact ⟨q, hq, by rw [← heq, List.take_append_of_le_length (by omega)]⟩
  · -- the new entry is its leader's own
    have hx' : x = e := by
      rw [List.getElem?_append_right hi] at hx
      rcases Nat.eq_zero_or_pos (i - (w.llog p (w.peer p).cur).length) with h0 | h0
      · rw [h0] at hx
        simpa using hx.symm
      · rw [List.getElem?_eq_none (by rw [List.length_singleton]; omega)] at hx
        cases hx
    subst hx'
    refine ⟨p, by rw [h1, he]; exact hled, ?_⟩
    rw [h2, he, Function.update_self, Function.update_self]

theorem Matching.led_step (hb : Basic R w) (hm : Matching w) (h : Step R p w w') (q : P)
    (t : Int) (hl : w'.led q t) : w'.Matched (w'.llog q t) := by
  rcases h.led_cases with ⟨h1, h2⟩ | ⟨hs, -, h1, h2⟩ | ⟨e, hld, he, h1, h2⟩
  · rw [h1] at hl
    rw [h2]
    exact (hm.led q t hl).mono h.extends
  · by_cases hnew : q = p ∧ t = (w.peer p).cur
    · obtain ⟨rfl, rfl⟩ := hnew
      rw [h2, Function.update_self, Function.update_self]
      exact (hm.peer q).mono h.extends
    · have hl' : w.led q t := ((h1 q t).mp hl).resolve_right hnew
      have heq : w'.llog q t = w.llog q t := by
        rw [h2]
        by_cases hq : q = p
        · subst hq
          rw [Function.update_self, Function.update_of_ne fun ht => hnew ⟨rfl, ht⟩]
        · rw [Function.update_of_ne hq]
      rw [heq]
      exact (hm.led q t hl').mono h.extends
  · rw [h1] at hl
    by_cases hnew : q = p ∧ t = (w.peer p).cur
    · obtain ⟨rfl, rfl⟩ := hnew
      have happ := Matching.llog_append hb hm h hld he h1 h2
      rw [h2, Function.update_self, Function.update_self]
      exact happ
    · have heq : w'.llog q t = w.llog q t := by
        rw [h2]
        by_cases hq : q = p
        · subst hq
          rw [Function.update_self, Function.update_of_ne fun ht => hnew ⟨rfl, ht⟩]
        · rw [Function.update_of_ne hq]
      rw [heq]
      exact (hm.led q t hl).mono h.extends

/-- A step keeps the peer's log, cuts it short, or appends an entry of a leader. -/
theorem Step.log_cases (h : Step R p w w') :
    (w'.peer p).log <+: (w.peer p).log ∨
      (∃ e, (w.peer p).leading = true ∧ (w'.peer p).log = (w.peer p).log ++ [e] ∧
        (w'.peer p).leading = true) ∨
      ∃ q e, w.led q (w.peer p).cur ∧ w.Matches p q (w.peer p).log.length ∧
        (w.llog q (w.peer p).cur)[(w.peer p).log.length]? = some e ∧
        (w'.peer p).log = (w.peer p).log ++ [e] := by
  cases h with
  | extend e hl he => exact .inr (.inl ⟨e, hl, by simp, by simpa using hl⟩)
  | append q e hs hl hq hm he => exact .inr (.inr ⟨q, e, hq, hm, he, by simp⟩)
  | truncate k hs hl hc hg => exact .inl (by simpa using List.take_prefix k _)
  | crash k hk hl => exact .inl (by simpa using List.take_prefix k _)
  | ack m hm => exact .inl (List.prefix_refl _)
  | apply i e hi he => exact .inl (List.prefix_refl _)
  | _ => exact .inl (by simp)

theorem Matching.peer_step (hb : Basic R w) (hm : Matching w) (hu : w.Unique)
    (h : Step R p w w') (q : P) : w'.Matched (w'.peer q).log := by
  by_cases hq : q = p
  · subst hq
    rcases h.log_cases with hpre | ⟨e, -, hlog, hl⟩ | ⟨r, e, hr, hmt, he, hlog⟩
    · exact ((hm.peer q).mono h.extends).of_isPrefix hpre
    · -- a leader's log is the log recorded for its leadership
      obtain ⟨hled, heq⟩ := (hb.step h).leading q hl
      rw [← heq]
      exact hm.led_step hb h q _ hled
    · have hagree := hm.take_eq hu hr hmt
      rw [List.take_length] at hagree
      have hpre : (w'.peer q).log <+: w.llog r (w.peer q).cur := by
        have hnext : (w.llog r (w.peer q).cur).take ((w.peer q).log.length + 1) =
            (w'.peer q).log := by
          rw [List.take_add_one, he, ← hagree, hlog, Option.toList_some]
        rw [← hnext]
        exact List.take_prefix _ _
      exact ((hm.led r _ hr).mono h.extends).of_isPrefix hpre
  · rw [h.peer_ne hq]
    exact (hm.peer q).mono h.extends

theorem Matching.step (hb : Basic R w) (hm : Matching w) (hu : w.Unique)
    (h : Step R p w w') : Matching w' where
  peer := hm.peer_step hb hu h
  led := hm.led_step hb h
  stood := by
    intro q t l hl
    rcases h.stood_cases with heq | ⟨t', heq, -, -⟩
    · rw [heq] at hl
      exact (hm.stood q t l hl).mono h.extends
    · rw [heq] at hl
      by_cases hq : q = p
      · subst hq
        by_cases ht : t = t'
        · subst ht
          rw [Function.update_self, Function.update_self] at hl
          obtain rfl := Option.some.inj hl
          exact (hm.peer q).mono h.extends
        · rw [Function.update_self, Function.update_of_ne ht] at hl
          exact (hm.stood q t l hl).mono h.extends
      · rw [Function.update_of_ne hq] at hl
        exact (hm.stood q t l hl).mono h.extends
  ballot := by
    intro b hb'
    rcases h.ballots_cases with heq | ⟨t, c, l, heq, -⟩
    · rw [heq] at hb'
      exact (hm.ballot b hb').mono h.extends
    · rw [heq] at hb'
      rcases hb' with rfl | hb'
      · exact (hm.peer p).mono h.extends
      · exact (hm.ballot b hb').mono h.extends

omit [DecidableEq P] [Fintype P] [Termed E] in
theorem World.Unique.of_extends (hu : w'.Unique) (hx : Extends w w') : w.Unique :=
  fun p q t hp hq => hu p q t (hx.led hp) (hx.led hq)

/-- Log matching, for every run in which no two peers led the same term. -/
theorem Reachable.matching (h : Reachable R w) (hu : w.Unique) : Matching w := by
  induction h with
  | init =>
    exact ⟨fun q => Matched.nil, fun q t ht => absurd ht (by simp [World.init]),
      fun q t l hl => absurd hl (by simp [World.init]),
      fun b hb => absurd hb (by simp [World.init])⟩
  | step p hr hstep ih =>
    have hu' := hu.of_extends hstep.extends
    exact (ih hu').step hr.basic hu' hstep

end Step

end Base.Replication
