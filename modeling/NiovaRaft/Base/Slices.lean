import Mathlib.Data.List.Basic
import Mathlib.Data.UInt

/-!
# Consecutive parts of a list

A list is cut into parts of given lengths.  Part `i` begins where the lengths of the parts before it
add up to.
-/

namespace Base

variable {α : Type}

/-- Cut a list into consecutive parts. -/
def slices : List Nat → List α → List (List α)
  | [], _ => []
  | k :: ks, l => l.take k :: slices ks (l.drop k)

@[simp] theorem length_slices (ks : List Nat) (l : List α) : (slices ks l).length = ks.length := by
  induction ks generalizing l with
  | nil => rfl
  | cons k ks ih => simp [slices, ih]

/-- Where a part lies. -/
theorem getElem?_slices (ks : List Nat) (l : List α) (i : Nat) :
    (slices ks l)[i]? = ks[i]?.map fun k => (l.drop (ks.take i).sum).take k := by
  induction ks generalizing l i with
  | nil => rfl
  | cons k ks ih =>
    cases i with
    | zero => simp [slices]
    | succ i => simp [slices, ih, List.drop_drop]

/-- The parts of a concatenation. -/
theorem slices_flatten (ls : List (List α)) : slices (ls.map List.length) ls.flatten = ls := by
  induction ls with
  | nil => rfl
  | cons l ls ih => simp [slices, ih]

end Base
