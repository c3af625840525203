import Mathlib.Data.List.Nodup
import Mathlib.Data.UInt
import Mathlib.Order.Defs.LinearOrder
import Mathlib.Order.Lattice

/-!
# Keeping the largest

A list that is sorted by a key, the largest first, is read from the front.  Of the members of a kind
the first few are kept.  These are the ones with fewer than so many larger ones.
-/

namespace Base

variable {α β : Type}

section Above

variable [LinearOrder β] (key : α → β)

/-- How many have a larger key. -/
def above (l : List α) (k : β) : Nat := (l.filter fun y => decide (k < key y)).length

theorem above_perm {l l' : List α} (h : l.Perm l') (k : β) : above key l k = above key l' k :=
  (h.filter _).length_eq

theorem above_eq_zero {l : List α} {k : β} (h : ∀ y ∈ l, key y ≤ k) : above key l k = 0 := by
  rw [above, List.filter_eq_nil_iff.mpr, List.length_nil]
  intro y hy
  simpa using h y hy

/-- In a list sorted by the key, the front is what has few members above it. -/
theorem mem_take_iff {l : List α} (h : l.Pairwise fun x y => key y < key x) {x : α} (k : Nat) :
    x ∈ l.take k ↔ x ∈ l ∧ above key l (key x) < k := by
  induction l generalizing k with
  | nil => simp
  | cons a l ih =>
    obtain ⟨ha, hl⟩ := List.pairwise_cons.mp h
    cases k with
    | zero => simp
    | succ k =>
      rw [List.take_succ_cons, List.mem_cons, List.mem_cons, ih hl]
      have hcount : ∀ y ∈ l, above key (a :: l) (key y) = above key l (key y) + 1 := by
        intro y hy
        simp [above, ha y hy]
      have hfirst : above key (a :: l) (key a) = 0 := by
        refine above_eq_zero key fun y hy => ?_
        rcases List.mem_cons.mp hy with rfl | hy
        · exact le_refl _
        · exact le_of_lt (ha y hy)
      constructor
      · rintro (rfl | ⟨hx, hlt⟩)
        · exact ⟨.inl rfl, by omega⟩
        · exact ⟨.inr hx, by rw [hcount x hx]; omega⟩
      · rintro ⟨rfl | hx, hlt⟩
        · exact .inl rfl
        · rw [hcount x hx] at hlt
          exact .inr ⟨hx, by omega⟩

end Above

/-! ## Reading from the front -/

/-- What is dropped when the first is kept, and then the others until `num` are found. -/
def dropped (own : α → Bool) (num : Nat) : Nat → List α → List α
  | _, [] => []
  | found, x :: xs =>
      if own x = false then x :: dropped own num found xs
      else if found + 1 = 1 then dropped own num (found + 1) xs
      else if found + 1 > num then x :: dropped own num (found + 1) xs
      else dropped own num (found + 1) xs

theorem mem_of_mem_dropped {own : α → Bool} {num : Nat} {x : α} {xs : List α} {found : Nat}
    (h : x ∈ dropped own num found xs) : x ∈ xs := by
  induction xs generalizing found with
  | nil => exact h
  | cons y xs ih =>
    rw [dropped] at h
    split at h
    · rcases List.mem_cons.mp h with rfl | h
      · exact List.mem_cons_self
      · exact List.mem_cons_of_mem y (ih h)
    split at h
    · exact List.mem_cons_of_mem y (ih h)
    split at h
    · rcases List.mem_cons.mp h with rfl | h
      · exact List.mem_cons_self
      · exact List.mem_cons_of_mem y (ih h)
    · exact List.mem_cons_of_mem y (ih h)

/-- Of the kind, the first `max 1 num` are not dropped. -/
theorem mem_dropped_iff {own : α → Bool} {num : Nat} {xs : List α} (hnodup : xs.Nodup) (found : Nat)
    {x : α} : x ∈ dropped own num found xs ↔
      x ∈ xs ∧ x ∉ (xs.filter own).take (max 1 num - found) := by
  induction xs generalizing found with
  | nil => simp [dropped]
  | cons y xs ih =>
    obtain ⟨hy, hxs⟩ := List.nodup_cons.mp hnodup
    have hyfilter : ∀ k, y ∉ (xs.filter own).take k :=
      fun k hmem => hy (List.mem_of_mem_filter (List.mem_of_mem_take hmem))
    have hydrop : ∀ f, y ∉ dropped own num f xs := fun f hmem => hy (mem_of_mem_dropped hmem)
    rw [dropped]
    by_cases hown : own y = false
    · rw [if_pos hown, List.filter_cons_of_neg (by simp [hown]), List.mem_cons, List.mem_cons,
        ih hxs]
      constructor
      · rintro (rfl | ⟨hx, hnot⟩)
        · exact ⟨.inl rfl, hyfilter _⟩
        · exact ⟨.inr hx, hnot⟩
      · rintro ⟨rfl | hx, hnot⟩
        · exact .inl rfl
        · exact .inr ⟨hx, hnot⟩
    · have hpos : own y = true := by simpa using hown
      rw [if_neg hown, List.filter_cons_of_pos hpos, List.mem_cons]
      by_cases hkeep : found < max 1 num
      · -- kept: one place less for the others
        have hrest : max 1 num - found = (max 1 num - (found + 1)) + 1 := by omega
        have hloop : (if found + 1 = 1 then dropped own num (found + 1) xs
            else if found + 1 > num then y :: dropped own num (found + 1) xs
            else dropped own num (found + 1) xs) = dropped own num (found + 1) xs := by
          split
          · rfl
          · rw [if_neg (by omega)]
        rw [hloop, hrest, List.take_succ_cons, List.mem_cons, ih hxs]
        constructor
        · rintro ⟨hx, hnot⟩
          refine ⟨.inr hx, ?_⟩
          rintro (rfl | hmem)
          · exact hy hx
          · exact hnot hmem
        · rintro ⟨rfl | hx, hnot⟩
          · exact absurd (.inl rfl) hnot
          · exact ⟨hx, fun hmem => hnot (.inr hmem)⟩
      · have hzero : max 1 num - found = 0 := by omega
        have hzero' : max 1 num - (found + 1) = 0 := by omega
        rw [if_neg (by omega), if_pos (by omega), hzero, List.mem_cons, ih hxs, hzero',
          List.take_zero, List.take_zero]
        constructor
        · rintro (rfl | ⟨hx, -⟩)
          · exact ⟨.inl rfl, List.not_mem_nil⟩
          · exact ⟨.inr hx, List.not_mem_nil⟩
        · rintro ⟨rfl | hx, -⟩
          · exact .inl rfl
          · exact .inr ⟨hx, List.not_mem_nil⟩

end Base
