import NiovaRaft.Base.Quorum
import Mathlib.Data.Set.Insert
import Mathlib.Logic.Function.Basic
import Mathlib.Logic.Relation

/-!
# A replicated log

Peers hold logs of entries that carry terms.  A peer may stand for a term, cast a ballot in a
term, lead the term it stood for, and append to its log: as a leader its own entries, otherwise
the entries of the leader of its term.  What was not synced may be lost in a crash.  Besides
its peers a world carries its history: who stood for which term and with which log, the ballots
and the voters' logs, the log each leader had, what peers acknowledged, and what was committed
and applied.  The steps below say what one peer may do at a time.  They are small, so that a
program's handler is a sequence of them.

Three rules restrict the steps, and each may be off.  `counted`: a leader was elected by the
ballots of a majority in its term.  `acked`: a peer removes entries only against the leader of
its term, acknowledges only what it holds, and a leader commits only an entry of its own term
that a majority acknowledged.  `covered`: another peer commits only what was committed by a
leader.

This module has the steps and what they keep without any rule.
-/

namespace Base.Replication

/-- Entries that carry the term they were written in. -/
class Termed (E : Type) where
  term : E → Int

export Termed (term)

/-- One peer. -/
structure Peer (E : Type) where
  cur : Int
  log : List E
  synced : Nat
  standing : Bool
  leading : Bool
  commit : Nat

/-- A ballot, with the voter's log when it was cast. -/
structure Ballot (P E : Type) where
  voter : P
  term : Int
  cand : P
  log : List E

/-- All peers, and the history of the run. -/
structure World (P E : Type) where
  peer : P → Peer E
  stood : P → Int → Option (List E)
  ballots : Set (Ballot P E)
  led : P → Int → Prop
  llog : P → Int → List E
  acks : Set (P × Int × Nat)
  commits : Set (P × Int × Nat)
  applied : Set (P × Nat × E)

/-- Which rules are in force. -/
structure Rules where
  counted : Prop
  acked : Prop
  covered : Prop

/-- The term of the last entry, `0` for an empty log. -/
def lastTerm {E : Type} [Termed E] (l : List E) : Int := (l.getLast?.map term).getD 0

/-- A voter with log `v` accepts a candidate with log `l`. -/
def UpToDate {E : Type} [Termed E] (l v : List E) : Prop :=
  lastTerm v ≤ lastTerm l ∧ v.length ≤ l.length

variable {P E : Type} [Termed E]

namespace World

/-- Nobody did anything yet. -/
def init : World P E where
  peer := fun _ => ⟨0, [], 0, false, false, 0⟩
  stood := fun _ _ => none
  ballots := ∅
  led := fun _ _ => False
  llog := fun _ _ => []
  acks := ∅
  commits := ∅
  applied := ∅

/-- Replace one peer. -/
def setPeer [DecidableEq P] (w : World P E) (p : P) (x : Peer E) : World P E :=
  { w with peer := Function.update w.peer p x }

/-- The first `k` entries of `p` end in an entry of the term that `q`'s log has there, as the
leader of `p`'s term. -/
def Matches (w : World P E) (p q : P) (k : Nat) : Prop :=
  k = 0 ∨ ∃ x y, (w.peer p).log[k - 1]? = some x ∧
    (w.llog q (w.peer p).cur)[k - 1]? = some y ∧ term x = term y

/-- Entry `k` of `p` is none that the leader of its term has or will write there. -/
def Conflicts (w : World P E) (p : P) (k : Nat) : Prop :=
  ∀ e, (w.peer p).log[k]? = some e → ∃ q l, w.led q (w.peer p).cur ∧
    w.stood q (w.peer p).cur = some l ∧
    (∀ x, l[k]? = some x → term x ≠ term e) ∧ (l[k]? = none → term e ≠ (w.peer p).cur)

/-- `p` may acknowledge its first `m` entries: they are synced, and they end at or before an
entry it has in common with the leader of its term, or one of its term. -/
def MayAck (w : World P E) (p : P) (m : Nat) : Prop :=
  ∃ k, m ≤ k ∧ m ≤ (w.peer p).synced ∧
    ((∃ q, w.led q (w.peer p).cur ∧ w.Matches p q k) ∨
      ∃ x, 0 < k ∧ (w.peer p).log[k - 1]? = some x ∧ term x = (w.peer p).cur)

/-- A majority acknowledged the first `m` entries of the leader of `t`. -/
def AckQuorum [Fintype P] (w : World P E) (t : Int) (m : Nat) : Prop :=
  ∃ Q : Finset P, Majority Q ∧ ∀ q ∈ Q, ∃ m', m ≤ m' ∧ (q, t, m') ∈ w.acks

/-- A majority voted for `p` in `t`. -/
def BallotQuorum [Fintype P] (w : World P E) (p : P) (t : Int) : Prop :=
  ∃ Q : Finset P, Majority Q ∧ ∀ q ∈ Q, ∃ l, ⟨q, t, p, l⟩ ∈ w.ballots

/-- What `p` may commit as a follower: entries it has in common with the leader of its term, as
far as some leader committed. -/
def MayFollow (w : World P E) (p : P) (c : Nat) : Prop :=
  (∃ q k, c ≤ k ∧ w.led q (w.peer p).cur ∧ w.Matches p q k) ∧
    ∃ q t m, (q, t, m) ∈ w.commits ∧ t ≤ (w.peer p).cur ∧ c ≤ m

end World

open World

/-- One step of peer `p`. -/
inductive Step [DecidableEq P] [Fintype P] (R : Rules) (p : P) (w : World P E) :
    World P E → Prop
  /-- It gives up its candidacy or its leadership. -/
  | resign : Step R p w (w.setPeer p { w.peer p with standing := false, leading := false })
  /-- It learns of a newer term. -/
  | adopt (t : Int) (ht : (w.peer p).cur < t) :
      Step R p w (w.setPeer p { w.peer p with cur := t, standing := false, leading := false })
  /-- It stands for a new term and votes for itself. -/
  | stand (t : Int) (ht : (w.peer p).cur < t) (hs : (w.peer p).synced = (w.peer p).log.length)
      (hn : w.stood p t = none) :
      Step R p w
        { w.setPeer p { w.peer p with cur := t, standing := true, leading := false } with
          stood := Function.update w.stood p (Function.update (w.stood p) t (w.peer p).log)
          ballots := insert ⟨p, t, p, (w.peer p).log⟩ w.ballots }
  /-- It votes for a candidate of a newer term. -/
  | vote (t : Int) (c : P) (l : List E) (ht : (w.peer p).cur < t)
      (hs : (w.peer p).synced = (w.peer p).log.length) (hc : w.stood c t = some l)
      (hu : UpToDate l (w.peer p).log) :
      Step R p w
        { w.setPeer p { w.peer p with cur := t, standing := false, leading := false } with
          ballots := insert ⟨p, t, c, (w.peer p).log⟩ w.ballots }
  /-- It becomes the leader of the term it stands for. -/
  | lead (hs : (w.peer p).standing = true) (hl : ¬ w.led p (w.peer p).cur)
      (hq : R.counted → w.BallotQuorum p (w.peer p).cur) :
      Step R p w
        { w.setPeer p { w.peer p with standing := false, leading := true } with
          led := fun q t => w.led q t ∨ (q = p ∧ t = (w.peer p).cur)
          llog := Function.update w.llog p
            (Function.update (w.llog p) (w.peer p).cur (w.peer p).log) }
  /-- As a leader it appends an entry of its term. -/
  | extend (e : E) (hl : (w.peer p).leading = true) (he : term e = (w.peer p).cur) :
      Step R p w
        { w.setPeer p { w.peer p with log := (w.peer p).log ++ [e] } with
          llog := Function.update w.llog p
            (Function.update (w.llog p) (w.peer p).cur (w.llog p (w.peer p).cur ++ [e])) }
  /-- It appends the next entry of the leader of its term. -/
  | append (q : P) (e : E) (hs : (w.peer p).standing = false) (hl : (w.peer p).leading = false)
      (hq : w.led q (w.peer p).cur) (hm : w.Matches p q (w.peer p).log.length)
      (he : (w.llog q (w.peer p).cur)[(w.peer p).log.length]? = some e) :
      Step R p w (w.setPeer p { w.peer p with log := (w.peer p).log ++ [e] })
  /-- It removes its entries from `k` on. -/
  | truncate (k : Nat) (hs : (w.peer p).standing = false) (hl : (w.peer p).leading = false)
      (hc : (w.peer p).commit ≤ k) (hg : R.acked → w.Conflicts p k) :
      Step R p w (w.setPeer p
        { w.peer p with log := (w.peer p).log.take k, synced := min (w.peer p).synced k })
  /-- It syncs. -/
  | sync : Step R p w (w.setPeer p { w.peer p with synced := (w.peer p).log.length })
  /-- It crashes and keeps `k` entries, at least those it synced. -/
  | crash (k : Nat) (hk : (w.peer p).synced ≤ k) (hl : k ≤ (w.peer p).log.length) :
      Step R p w (w.setPeer p
        ⟨(w.peer p).cur, (w.peer p).log.take k, k, false, false, 0⟩)
  /-- It acknowledges its first `m` entries. -/
  | ack (m : Nat) (hm : w.MayAck p m) :
      Step R p w { w with acks := insert (p, (w.peer p).cur, m) w.acks }
  /-- As a leader it commits its first `m` entries. -/
  | commitLead (m : Nat) (hl : (w.peer p).leading = true) (hm : m ≤ (w.peer p).synced)
      (hg : R.acked → w.AckQuorum (w.peer p).cur m ∧
        ∃ e, 0 < m ∧ (w.peer p).log[m - 1]? = some e ∧ term e = (w.peer p).cur) :
      Step R p w
        { w.setPeer p { w.peer p with commit := m } with
          commits := insert (p, (w.peer p).cur, m) w.commits }
  /-- It commits its first `c` entries after its leader. -/
  | commitFollow (c : Nat) (hc : c ≤ (w.peer p).synced) (hg : R.covered → w.MayFollow p c) :
      Step R p w (w.setPeer p { w.peer p with commit := c })
  /-- It applies a committed entry. -/
  | apply (i : Nat) (e : E) (hi : i < (w.peer p).commit) (he : (w.peer p).log[i]? = some e) :
      Step R p w { w with applied := insert (p, i, e) w.applied }

/-- Steps of one peer. -/
abbrev Steps [DecidableEq P] [Fintype P] (R : Rules) (p : P) :
    World P E → World P E → Prop :=
  Relation.ReflTransGen (Step R p)

/-- Worlds that steps of any peers lead to. -/
inductive Reachable [DecidableEq P] [Fintype P] (R : Rules) : World P E → Prop
  | init : Reachable R World.init
  | step {w w' : World P E} (p : P) : Reachable R w → Step R p w w' → Reachable R w'

theorem Reachable.steps [DecidableEq P] [Fintype P] {R : Rules} {p : P} {w w' : World P E}
    (h : Reachable R w) (hs : Steps R p w w') : Reachable R w' := by
  induction hs with
  | refl => exact h
  | tail _ hstep ih => exact ih.step p hstep

/-! ## What a step leaves alone -/

section Frame

variable [DecidableEq P] [Fintype P] {R : Rules} {p q : P} {w w' : World P E}

theorem Step.peer_ne (h : Step R p w w') (hq : q ≠ p) : w'.peer q = w.peer q := by
  cases h <;> simp [setPeer, Function.update_of_ne hq]

theorem Step.llog_ne (h : Step R p w w') (hq : q ≠ p) : w'.llog q = w.llog q := by
  cases h <;> simp [setPeer, Function.update_of_ne hq]

theorem Step.led_ne (h : Step R p w w') (hq : q ≠ p) {t : Int} : w'.led q t ↔ w.led q t := by
  cases h <;> simp [setPeer, hq]

theorem Steps.peer_ne (h : Steps R p w w') (hq : q ≠ p) : w'.peer q = w.peer q := by
  induction h with
  | refl => rfl
  | tail _ hstep ih => rw [hstep.peer_ne hq, ih]

theorem Steps.llog_ne (h : Steps R p w w') (hq : q ≠ p) : w'.llog q = w.llog q := by
  induction h with
  | refl => rfl
  | tail _ hstep ih => rw [hstep.llog_ne hq, ih]

theorem Steps.led_ne (h : Steps R p w w') (hq : q ≠ p) {t : Int} : w'.led q t ↔ w.led q t := by
  induction h with
  | refl => rfl
  | tail _ hstep ih => rw [hstep.led_ne hq, ih]

end Frame

/-- The history of `w` is part of the history of `w'`. -/
structure Extends (w w' : World P E) : Prop where
  cur : ∀ q, (w.peer q).cur ≤ (w'.peer q).cur
  stood : ∀ {q t l}, w.stood q t = some l → w'.stood q t = some l
  ballots : w.ballots ⊆ w'.ballots
  led : ∀ {q t}, w.led q t → w'.led q t
  llog : ∀ {q t}, w.led q t → w.llog q t <+: w'.llog q t
  acks : w.acks ⊆ w'.acks
  commits : w.commits ⊆ w'.commits
  applied : w.applied ⊆ w'.applied

omit [Termed E] in
theorem Extends.refl (w : World P E) : Extends w w where
  cur := fun _ => le_refl _
  stood := id
  ballots := fun _ => id
  led := id
  llog := fun _ => List.prefix_refl _
  acks := fun _ => id
  commits := fun _ => id
  applied := fun _ => id

omit [Termed E] in
theorem Extends.trans {w₁ w₂ w₃ : World P E} (h : Extends w₁ w₂) (h' : Extends w₂ w₃) :
    Extends w₁ w₃ where
  cur := fun q => le_trans (h.cur q) (h'.cur q)
  stood := fun hs => h'.stood (h.stood hs)
  ballots := fun _ hb => h'.ballots (h.ballots hb)
  led := fun hl => h'.led (h.led hl)
  llog := fun hl => (h.llog hl).trans (h'.llog (h.led hl))
  acks := fun _ ha => h'.acks (h.acks ha)
  commits := fun _ hc => h'.commits (h.commits hc)
  applied := fun _ ha => h'.applied (h.applied ha)

section Extends

variable [DecidableEq P] [Fintype P] {R : Rules} {p : P} {w w' : World P E}

omit [Termed E] [Fintype P] in
/-- A peer that does not go back to an earlier term keeps the history. -/
theorem extends_setPeer {x : Peer E} (hx : (w.peer p).cur ≤ x.cur) :
    Extends w (w.setPeer p x) where
  cur := by
    intro q
    by_cases hq : q = p
    · subst hq
      simpa [setPeer] using hx
    · simp [setPeer, Function.update_of_ne hq]
  stood := id
  ballots := fun _ => id
  led := id
  llog := fun _ => List.prefix_refl _
  acks := fun _ => id
  commits := fun _ => id
  applied := fun _ => id

theorem Step.extends (h : Step R p w w') : Extends w w' := by
  cases h with
  | resign => exact extends_setPeer (le_refl _)
  | adopt t ht => exact extends_setPeer (le_of_lt ht)
  | stand t ht hs hn =>
    refine { extends_setPeer (le_of_lt ht) with stood := ?_, ballots := Set.subset_insert _ _ }
    intro q t' l hl
    by_cases hq : q = p
    · subst hq
      have hne : t' ≠ t := by
        rintro rfl
        rw [hn] at hl
        cases hl
      simpa [Function.update_of_ne hne] using hl
    · simpa [Function.update_of_ne hq] using hl
  | vote t c l ht hs hc hu =>
    exact { extends_setPeer (le_of_lt ht) with ballots := Set.subset_insert _ _ }
  | lead hs hl hq =>
    refine { extends_setPeer (p := p)
      (x := { w.peer p with standing := false, leading := true }) (le_refl _) with
      led := Or.inl, llog := ?_ }
    intro q t ht
    by_cases hqp : q = p
    · subst hqp
      have hne : t ≠ (w.peer q).cur := by
        rintro rfl
        exact hl ht
      simp [Function.update_of_ne hne]
    · simp [Function.update_of_ne hqp]
  | extend e hl he =>
    refine { extends_setPeer (p := p) (x := { w.peer p with log := (w.peer p).log ++ [e] })
      (le_refl _) with llog := ?_ }
    intro q t ht
    by_cases hqp : q = p
    · subst hqp
      by_cases hne : t = (w.peer q).cur
      · subst hne
        simp
      · simp [Function.update_of_ne hne]
    · simp [Function.update_of_ne hqp]
  | append q e hs hl hq hm he => exact extends_setPeer (le_refl _)
  | truncate k hs hl hc hg => exact extends_setPeer (le_refl _)
  | sync => exact extends_setPeer (le_refl _)
  | crash k hk hl => exact extends_setPeer (le_refl _)
  | ack m hm => exact { Extends.refl w with acks := Set.subset_insert _ _ }
  | commitLead m hl hm hg =>
    exact { extends_setPeer (p := p) (x := { w.peer p with commit := m }) (le_refl _) with
      commits := Set.subset_insert _ _ }
  | commitFollow c hc hg => exact extends_setPeer (le_refl _)
  | apply i e hi he => exact { Extends.refl w with applied := Set.subset_insert _ _ }

theorem Steps.extends (h : Steps R p w w') : Extends w w' := by
  induction h with
  | refl => exact Extends.refl w
  | tail _ hstep ih => exact ih.trans hstep.extends

end Extends

/-! ## What every run keeps -/

/-- What holds in every run, whatever the rules. -/
structure Basic [Fintype P] (R : Rules) (w : World P E) : Prop where
  terms_le : ∀ q, ∀ e ∈ (w.peer q).log, term e ≤ (w.peer q).cur
  synced_le : ∀ q, (w.peer q).synced ≤ (w.peer q).log.length
  commit_le : ∀ q, (w.peer q).commit ≤ (w.peer q).synced
  roles : ∀ q, (w.peer q).leading = true → (w.peer q).standing = false
  ballot_le : ∀ b ∈ w.ballots, b.term ≤ (w.peer b.voter).cur
  ballot_unique : ∀ b ∈ w.ballots, ∀ b' ∈ w.ballots, b.voter = b'.voter → b.term = b'.term →
    b.cand = b'.cand
  ballot_stood : ∀ b ∈ w.ballots, ∃ l, w.stood b.cand b.term = some l ∧ UpToDate l b.log
  stood_le : ∀ q t l, w.stood q t = some l → t ≤ (w.peer q).cur ∧ ∀ e ∈ l, term e < t
  standing : ∀ q, (w.peer q).standing = true →
    w.stood q (w.peer q).cur = some (w.peer q).log ∧ ¬ w.led q (w.peer q).cur
  leading : ∀ q, (w.peer q).leading = true →
    w.led q (w.peer q).cur ∧ w.llog q (w.peer q).cur = (w.peer q).log
  led_stood : ∀ q t, w.led q t → ∃ l s, w.stood q t = some l ∧ w.llog q t = l ++ s ∧
    ∀ e ∈ s, term e = t
  led_quorum : R.counted → ∀ q t, w.led q t → w.BallotQuorum q t

section Basic

variable [DecidableEq P] [Fintype P] {R : Rules} {p : P} {w w' : World P E}

omit [Termed E] [Fintype P] in
@[simp] theorem setPeer_self {x : Peer E} : (w.setPeer p x).peer p = x := by
  simp [setPeer]

theorem Basic.log_step (hb : Basic R w) (h : Step R p w w') (q : P) :
    (∀ e ∈ (w'.peer q).log, term e ≤ (w'.peer q).cur) ∧
      (w'.peer q).synced ≤ (w'.peer q).log.length ∧
      (w'.peer q).commit ≤ (w'.peer q).synced ∧
      ((w'.peer q).leading = true → (w'.peer q).standing = false) := by
  by_cases hq : q = p
  · subst hq
    have h1 := hb.terms_le q
    have h2 := hb.synced_le q
    have h3 := hb.commit_le q
    have h4 := hb.roles q
    cases h with
    | append r e hs hl hq hm he =>
      obtain ⟨l, s, hst, hll, hterm⟩ := hb.led_stood r _ hq
      have hle : term e ≤ (w.peer q).cur := by
        have hmem := List.mem_of_getElem? he
        rw [hll, List.mem_append] at hmem
        rcases hmem with hmem | hmem
        · exact le_of_lt ((hb.stood_le r _ l hst).2 e hmem)
        · exact le_of_eq (hterm e hmem)
      simp only [setPeer_self, List.mem_append, List.mem_singleton, List.length_append,
        List.length_singleton]
      refine ⟨?_, by omega, h3, h4⟩
      rintro x (hx | rfl)
      · exact h1 x hx
      · exact hle
    | extend e hl he =>
      simp only [setPeer_self, List.mem_append, List.mem_singleton, List.length_append,
        List.length_singleton]
      refine ⟨?_, by omega, h3, h4⟩
      rintro x (hx | rfl)
      · exact h1 x hx
      · exact le_of_eq he
    | truncate k hs hl hc hg =>
      simp only [setPeer_self, List.length_take]
      exact ⟨fun e he => h1 e (List.mem_of_mem_take he), by omega, by omega, h4⟩
    | crash k hk hl =>
      simp only [setPeer_self, List.length_take]
      exact ⟨fun e he => h1 e (List.mem_of_mem_take he), by omega, by omega, by simp⟩
    | ack m hm => exact ⟨h1, h2, h3, h4⟩
    | apply i e hi he => exact ⟨h1, h2, h3, h4⟩
    | adopt t ht | stand t ht hs hn | vote t c l ht hs hc hu =>
      simp only [setPeer_self]
      exact ⟨fun e he => le_trans (h1 e he) (le_of_lt ht), h2, h3, by simp⟩
    | resign | lead hs hl hq | sync | commitLead m hl hm hg | commitFollow c hc hg =>
      simp only [setPeer_self]
      exact ⟨h1, by omega, by omega, by simp_all⟩
  · rw [h.peer_ne hq]
    exact ⟨hb.terms_le q, hb.synced_le q, hb.commit_le q, hb.roles q⟩

omit [DecidableEq P] [Fintype P] in
theorem UpToDate.refl (l : List E) : UpToDate l l := ⟨le_refl _, le_refl _⟩

/-- A step casts no ballot, or one of a newer term by a peer that synced its log. -/
theorem Step.ballots_cases (h : Step R p w w') :
    w'.ballots = w.ballots ∨
      ∃ t c l, w'.ballots = insert ⟨p, t, c, (w.peer p).log⟩ w.ballots ∧ (w.peer p).cur < t ∧
        (w'.peer p).cur = t ∧ (w.peer p).synced = (w.peer p).log.length ∧
        w'.stood c t = some l ∧ UpToDate l (w.peer p).log := by
  cases h with
  | stand t ht hs hn =>
    exact .inr ⟨t, p, (w.peer p).log, rfl, ht, by simp, hs, by simp, UpToDate.refl _⟩
  | vote t c l ht hs hc hu => exact .inr ⟨t, c, l, rfl, ht, by simp, hs, hc, hu⟩
  | _ => exact .inl rfl

theorem Basic.ballots_step (hb : Basic R w) (h : Step R p w w') :
    (∀ b ∈ w'.ballots, b.term ≤ (w'.peer b.voter).cur) ∧
      (∀ b ∈ w'.ballots, ∀ b' ∈ w'.ballots, b.voter = b'.voter → b.term = b'.term →
        b.cand = b'.cand) ∧
      ∀ b ∈ w'.ballots, ∃ l, w'.stood b.cand b.term = some l ∧ UpToDate l b.log := by
  have hx := h.extends
  have hle : ∀ b ∈ w.ballots, b.term ≤ (w'.peer b.voter).cur := fun b hb' =>
    le_trans (hb.ballot_le b hb') (hx.cur b.voter)
  have hst : ∀ b ∈ w.ballots, ∃ l, w'.stood b.cand b.term = some l ∧ UpToDate l b.log := by
    intro b hb'
    obtain ⟨l, hl, hu⟩ := hb.ballot_stood b hb'
    exact ⟨l, hx.stood hl, hu⟩
  rcases h.ballots_cases with heq | ⟨t, c, l, heq, ht, hcur, -, hl, hu⟩
  · rw [heq]
    exact ⟨hle, hb.ballot_unique, hst⟩
  · rw [heq]
    -- no older ballot of `p` is for the new term
    have hnew : ∀ b ∈ w.ballots, b.voter = p → b.term ≠ t := by
      rintro b hb' rfl rfl
      exact absurd (hb.ballot_le b hb') (not_le.mpr ht)
    refine ⟨?_, ?_, ?_⟩
    · rintro b (rfl | hb')
      · exact le_of_eq hcur.symm
      · exact hle b hb'
    · rintro b (rfl | hb1) b' (rfl | hb2) hv htt
      · rfl
      · exact absurd htt.symm (hnew b' hb2 hv.symm)
      · exact absurd htt (hnew b hb1 hv)
      · exact hb.ballot_unique b hb1 b' hb2 hv htt
    · rintro b (rfl | hb')
      · exact ⟨l, hl, hu⟩
      · exact hst b hb'

/-- A step lets nobody stand, or `p` in a newer term. -/
theorem Step.stood_cases (h : Step R p w w') :
    w'.stood = w.stood ∨
      ∃ t, w'.stood = Function.update w.stood p (Function.update (w.stood p) t (w.peer p).log) ∧
        (w.peer p).cur < t ∧ (w'.peer p).cur = t := by
  cases h with
  | stand t ht hs hn => exact .inr ⟨t, rfl, ht, by simp⟩
  | _ => exact .inl rfl

theorem Basic.stood_step (hb : Basic R w) (h : Step R p w w') (q : P) (t : Int) (l : List E)
    (hl : w'.stood q t = some l) : t ≤ (w'.peer q).cur ∧ ∀ e ∈ l, term e < t := by
  have hold : w.stood q t = some l → t ≤ (w'.peer q).cur ∧ ∀ e ∈ l, term e < t := by
    intro hs
    obtain ⟨h1, h2⟩ := hb.stood_le q t l hs
    exact ⟨le_trans h1 (h.extends.cur q), h2⟩
  rcases h.stood_cases with heq | ⟨t', heq, ht, hcur⟩
  · rw [heq] at hl
    exact hold hl
  · rw [heq] at hl
    by_cases hq : q = p
    · subst hq
      by_cases htt : t = t'
      · subst htt
        rw [Function.update_self, Function.update_self] at hl
        obtain rfl := Option.some.inj hl
        exact ⟨le_of_eq hcur.symm, fun e he => lt_of_le_of_lt (hb.terms_le q e he) ht⟩
      · rw [Function.update_self, Function.update_of_ne htt] at hl
        exact hold hl
    · rw [Function.update_of_ne hq] at hl
      exact hold hl

theorem Basic.standing_step (hb : Basic R w) (h : Step R p w w') (q : P)
    (hs : (w'.peer q).standing = true) :
    w'.stood q (w'.peer q).cur = some (w'.peer q).log ∧ ¬ w'.led q (w'.peer q).cur := by
  by_cases hq : q = p
  · subst hq
    cases h with
    | stand t ht hs' hn =>
      simp only [setPeer_self, Function.update_self, true_and]
      intro hl
      obtain ⟨l, s, hst, -⟩ := hb.led_stood q t hl
      rw [hn] at hst
      cases hst
    | extend e hl he =>
      have := hb.roles q hl
      simp_all
    | append r e hs' hl hq hm he => simp_all
    | truncate k hs' hl hc hg => simp_all
    | ack m hm => exact hb.standing q hs
    | apply i e hi he => exact hb.standing q hs
    | sync | commitLead m hl hm hg | commitFollow c hc hg =>
      simp only [setPeer_self] at hs ⊢
      exact hb.standing q hs
    | resign | adopt t ht | vote t c l ht hs' hc hu | lead hs' hl hq | crash k hk hl =>
      simp at hs
  · rw [h.peer_ne hq] at hs ⊢
    obtain ⟨h1, h2⟩ := hb.standing q hs
    exact ⟨h.extends.stood h1, fun hl => h2 ((h.led_ne hq).mp hl)⟩

theorem Basic.leading_step (hb : Basic R w) (h : Step R p w w') (q : P)
    (hs : (w'.peer q).leading = true) :
    w'.led q (w'.peer q).cur ∧ w'.llog q (w'.peer q).cur = (w'.peer q).log := by
  by_cases hq : q = p
  · subst hq
    cases h with
    | lead hs' hl hq => simp
    | extend e hl he =>
      obtain ⟨h1, h2⟩ := hb.leading q hl
      simp only [setPeer_self, Function.update_self, h2, and_true]
      exact h1
    | append r e hs' hl hq hm he => simp_all
    | truncate k hs' hl hc hg => simp_all
    | ack m hm => exact hb.leading q hs
    | apply i e hi he => exact hb.leading q hs
    | sync | commitLead m hl hm hg | commitFollow c hc hg =>
      simp only [setPeer_self] at hs ⊢
      exact hb.leading q hs
    | resign | adopt t ht | stand t ht hs' hn | vote t c l ht hs' hc hu | crash k hk hl =>
      simp at hs
  · rw [h.peer_ne hq] at hs ⊢
    obtain ⟨h1, h2⟩ := hb.leading q hs
    rw [h.llog_ne hq]
    exact ⟨(h.led_ne hq).mpr h1, h2⟩

/-- A step changes no leader's log, starts a leadership, or appends to the log of a leader. -/
theorem Step.led_cases (h : Step R p w w') :
    (w'.led = w.led ∧ w'.llog = w.llog) ∨
      ((w.peer p).standing = true ∧ (R.counted → w.BallotQuorum p (w.peer p).cur) ∧
        (∀ q t, w'.led q t ↔ w.led q t ∨ (q = p ∧ t = (w.peer p).cur)) ∧
        w'.llog = Function.update w.llog p
          (Function.update (w.llog p) (w.peer p).cur (w.peer p).log)) ∨
      ∃ e, (w.peer p).leading = true ∧ term e = (w.peer p).cur ∧ w'.led = w.led ∧
        w'.llog = Function.update w.llog p
          (Function.update (w.llog p) (w.peer p).cur (w.llog p (w.peer p).cur ++ [e])) := by
  cases h with
  | lead hs hl hq => exact .inr (.inl ⟨hs, hq, fun _ _ => Iff.rfl, rfl⟩)
  | extend e hl he => exact .inr (.inr ⟨e, hl, he, rfl, rfl⟩)
  | _ => exact .inl ⟨rfl, rfl⟩

theorem Basic.led_stood_step (hb : Basic R w) (h : Step R p w w') (q : P) (t : Int)
    (hl : w'.led q t) :
    ∃ l s, w'.stood q t = some l ∧ w'.llog q t = l ++ s ∧ ∀ e ∈ s, term e = t := by
  have hold : w.led q t → w'.llog q t = w.llog q t →
      ∃ l s, w'.stood q t = some l ∧ w'.llog q t = l ++ s ∧ ∀ e ∈ s, term e = t := by
    intro hl heq
    obtain ⟨l, s, h1, h2, h3⟩ := hb.led_stood q t hl
    exact ⟨l, s, h.extends.stood h1, by rw [heq, h2], h3⟩
  rcases h.led_cases with ⟨h1, h2⟩ | ⟨hs, -, h1, h2⟩ | ⟨e, -, he, h1, h2⟩
  · rw [h1] at hl
    exact hold hl (by rw [h2])
  · by_cases hnew : q = p ∧ t = (w.peer p).cur
    · obtain ⟨rfl, rfl⟩ := hnew
      refine ⟨(w.peer q).log, [], h.extends.stood (hb.standing q hs).1, ?_, by simp⟩
      rw [h2, Function.update_self, Function.update_self, List.append_nil]
    · have hl' : w.led q t := ((h1 q t).mp hl).resolve_right hnew
      refine hold hl' ?_
      rw [h2]
      by_cases hq : q = p
      · subst hq
        have htt : t ≠ (w.peer q).cur := fun htt => hnew ⟨rfl, htt⟩
        rw [Function.update_self, Function.update_of_ne htt]
      · rw [Function.update_of_ne hq]
  · rw [h1] at hl
    by_cases hnew : q = p ∧ t = (w.peer p).cur
    · obtain ⟨rfl, rfl⟩ := hnew
      obtain ⟨l, s, h3, h4, h5⟩ := hb.led_stood q _ hl
      refine ⟨l, s ++ [e], h.extends.stood h3, ?_, ?_⟩
      · rw [h2, Function.update_self, Function.update_self, h4, List.append_assoc]
      · intro x hx
        rcases List.mem_append.mp hx with hx | hx
        · exact h5 x hx
        · rw [List.mem_singleton.mp hx, he]
    · refine hold hl ?_
      rw [h2]
      by_cases hq : q = p
      · subst hq
        have htt : t ≠ (w.peer q).cur := fun htt => hnew ⟨rfl, htt⟩
        rw [Function.update_self, Function.update_of_ne htt]
      · rw [Function.update_of_ne hq]

theorem Basic.led_quorum_step (hb : Basic R w) (h : Step R p w w') (hR : R.counted) (q : P)
    (t : Int) (hl : w'.led q t) : w'.BallotQuorum q t := by
  have hmono : w.BallotQuorum q t → w'.BallotQuorum q t := by
    rintro ⟨Q, hQ, hv⟩
    refine ⟨Q, hQ, fun v hvQ => ?_⟩
    obtain ⟨l, hl⟩ := hv v hvQ
    exact ⟨l, h.extends.ballots hl⟩
  rcases h.led_cases with ⟨h1, -⟩ | ⟨-, hq, h1, -⟩ | ⟨e, -, -, h1, -⟩
  · rw [h1] at hl
    exact hmono (hb.led_quorum hR q t hl)
  · rcases (h1 q t).mp hl with hl | ⟨rfl, rfl⟩
    · exact hmono (hb.led_quorum hR q t hl)
    · exact hmono (hq hR)
  · rw [h1] at hl
    exact hmono (hb.led_quorum hR q t hl)

theorem Basic.step (hb : Basic R w) (h : Step R p w w') : Basic R w' where
  terms_le := fun q => (hb.log_step h q).1
  synced_le := fun q => (hb.log_step h q).2.1
  commit_le := fun q => (hb.log_step h q).2.2.1
  roles := fun q => (hb.log_step h q).2.2.2
  ballot_le := (hb.ballots_step h).1
  ballot_unique := (hb.ballots_step h).2.1
  ballot_stood := (hb.ballots_step h).2.2
  stood_le := hb.stood_step h
  standing := hb.standing_step h
  leading := hb.leading_step h
  led_stood := hb.led_stood_step h
  led_quorum := hb.led_quorum_step h

omit [DecidableEq P] in
theorem Basic.init : Basic R (World.init : World P E) where
  terms_le := by simp [World.init]
  synced_le := by simp [World.init]
  commit_le := by simp [World.init]
  roles := by simp [World.init]
  ballot_le := by simp [World.init]
  ballot_unique := by simp [World.init]
  ballot_stood := by simp [World.init]
  stood_le := by simp [World.init]
  standing := by simp [World.init]
  leading := by simp [World.init]
  led_stood := by simp [World.init]
  led_quorum := by simp [World.init]

theorem Reachable.basic (h : Reachable R w) : Basic R w := by
  induction h with
  | init => exact Basic.init
  | step p _ hstep ih => exact ih.step hstep

/-- A peer that stands has synced its log, and leaves it as it is. -/
theorem Reachable.standing_synced (h : Reachable R w) {q : P}
    (hs : (w.peer q).standing = true) : (w.peer q).synced = (w.peer q).log.length := by
  induction h with
  | init => cases hs
  | step p hreach hstep ih =>
    by_cases hq : q = p
    · subst hq
      cases hstep with
      | stand t ht hsync hn => simpa using hsync
      | sync => simp
      | extend e hl he =>
        simp only [setPeer_self, hreach.basic.roles q hl] at hs
        cases hs
      | append r e hstand => simp [hstand] at hs
      | truncate k hstand => simp [hstand] at hs
      | ack m hm => exact ih hs
      | apply i e hi he => exact ih hs
      | commitLead m hl hm hg =>
        simp only [setPeer_self] at hs ⊢
        exact ih hs
      | commitFollow c hc hg =>
        simp only [setPeer_self] at hs ⊢
        exact ih hs
      | resign | adopt | vote | lead | crash => simp at hs
    · rw [hstep.peer_ne hq] at hs ⊢
      exact ih hs

/-! ## Election safety -/

/-- No two peers led the same term. -/
def World.Unique (w : World P E) : Prop := ∀ p q t, w.led p t → w.led q t → p = q

/-- Leaders elected by majorities of ballots are the only ones of their terms. -/
theorem Basic.unique (hb : Basic R w) (hR : R.counted) : w.Unique := by
  intro p q t hp hq
  obtain ⟨Q, hQ, hv⟩ := hb.led_quorum hR p t hp
  obtain ⟨Q', hQ', hv'⟩ := hb.led_quorum hR q t hq
  obtain ⟨v, h1, h2⟩ := hQ.inter hQ'
  obtain ⟨l, hl⟩ := hv v h1
  obtain ⟨l', hl'⟩ := hv' v h2
  exact hb.ballot_unique _ hl _ hl' rfl rfl

end Basic

end Base.Replication
