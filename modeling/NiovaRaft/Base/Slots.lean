import NiovaRaft.Base.Bytes

/-!
# Files of fixed-size slots

A file is cut into slots of one size, and each slot begins with a record that may be shorter than
the slot.  Records are written without padding, so the file ends with the last record or, after it
was cut, with the last slot.  The number of slots is still the file's length rounded up.
-/

namespace Base

variable {α : Type} [Zero α] {size : Nat} {file : List α} {slots : List (List α)}

omit [Zero α] in
/-- The file holds the records, each at the start of its slot. -/
structure Slotted (size : Nat) (file : List α) (slots : List (List α)) : Prop where
  fits : ∀ s ∈ slots, 0 < s.length ∧ s.length ≤ size
  holds : ∀ p s, slots[p]? = some s → slice file (p * size) s.length = s
  low : (slots.length - 1) * size < file.length ∨ slots = []
  high : file.length ≤ slots.length * size

/-- The records with the one in slot `p` replaced, or one more at the end. -/
def putSlot (slots : List (List α)) (p : Nat) (s : List α) : List (List α) :=
  slots.take p ++ s :: slots.drop (p + 1)

omit [Zero α] in
theorem length_putSlot {p : Nat} {s : List α} (h : p ≤ slots.length) :
    (putSlot slots p s).length = max slots.length (p + 1) := by
  simp only [putSlot, List.length_append, List.length_cons, List.length_take, List.length_drop]
  omega

omit [Zero α] in
theorem getElem?_putSlot_self {p : Nat} {s : List α} (h : p ≤ slots.length) :
    (putSlot slots p s)[p]? = some s := by
  have hlen : (slots.take p).length = p := by
    rw [List.length_take]
    omega
  rw [putSlot, List.getElem?_append_right (by omega), hlen, Nat.sub_self]
  rfl

omit [Zero α] in
theorem getElem?_putSlot_of_ne {p q : Nat} {s : List α} (h : p ≤ slots.length) (hne : q ≠ p) :
    (putSlot slots p s)[q]? = slots[q]? := by
  have hlen : (slots.take p).length = p := by
    rw [List.length_take]
    omega
  rcases Nat.lt_or_gt_of_ne hne with hlt | hgt
  · rw [putSlot, List.getElem?_append_left (by omega), List.getElem?_take_of_lt hlt]
  · obtain ⟨k, rfl⟩ : ∃ k, q = p + 1 + k := ⟨q - (p + 1), by omega⟩
    rw [putSlot, List.getElem?_append_right (by omega), hlen,
      show p + 1 + k - p = k + 1 by omega, List.getElem?_cons_succ, List.getElem?_drop]

namespace Slotted

omit [Zero α] in
theorem nil : Slotted size ([] : List α) [] :=
  ⟨fun s h => (by cases h), fun p s h => by simp at h, .inr rfl, by simp⟩

omit [Zero α] in
/-- A record ends within the file. -/
theorem le_length (h : Slotted size file slots) {p : Nat} {s : List α} (hs : slots[p]? = some s) :
    p * size + s.length ≤ file.length := by
  have hpos := (h.fits s (List.mem_of_getElem? hs)).1
  have hlen := congrArg List.length (h.holds p s hs)
  rw [length_slice] at hlen
  omega

omit [Zero α] in
/-- A part of a record. -/
theorem slice_eq (h : Slotted size file slots) {p k len : Nat} {s : List α}
    (hs : slots[p]? = some s) (hk : k + len ≤ s.length) :
    slice file (p * size + k) len = slice s k len := by
  rw [← h.holds p s hs]
  refine slice_congr fun i hi => ?_
  rw [getElem?_slice (by omega), Nat.add_assoc]

omit [Zero α] in
/-- A record ends before the next slot. -/
theorem add_le_mul (h : Slotted size file slots) {p q : Nat} {s : List α}
    (hs : slots[p]? = some s) (hlt : p < q) : p * size + s.length ≤ q * size := by
  have hsize := (h.fits s (List.mem_of_getElem? hs)).2
  have hstep : (p + 1) * size ≤ q * size := Nat.mul_le_mul_right size hlt
  rw [Nat.succ_mul] at hstep
  omega

/-- A record is written to a slot, or to the first slot past the end. -/
theorem overwrite (h : Slotted size file slots) {p : Nat} {s : List α} (hp : p ≤ slots.length)
    (hpos : 0 < s.length) (hsize : s.length ≤ size) :
    Slotted size (overwrite file (p * size) s) (putSlot slots p s) where
  fits := by
    intro t ht
    rcases List.mem_append.mp ht with htake | hrest
    · exact h.fits t (List.mem_of_mem_take htake)
    · rcases List.mem_cons.mp hrest with rfl | hdrop
      · exact ⟨hpos, hsize⟩
      · exact h.fits t (List.mem_of_mem_drop hdrop)
  holds := by
    intro q t ht
    by_cases hq : q = p
    · subst hq
      rw [getElem?_putSlot_self hp] at ht
      cases ht
      exact slice_overwrite_same
    · rw [getElem?_putSlot_of_ne hp hq] at ht
      rcases Nat.lt_or_gt_of_ne hq with hlt | hgt
      · rw [slice_overwrite_before (h.add_le_mul ht hlt) (h.le_length ht)]
        exact h.holds q t ht
      · have hstep : (p + 1) * size ≤ q * size := Nat.mul_le_mul_right size hgt
        rw [Nat.succ_mul] at hstep
        rw [slice_overwrite_after (by omega)]
        exact h.holds q t ht
  low := by
    left
    rw [length_putSlot hp, length_overwrite]
    rcases Nat.lt_or_eq_of_le hp with hlt | heq
    · rw [Nat.max_eq_left (by omega : p + 1 ≤ slots.length)]
      rcases h.low with hlow | hnil
      · exact lt_of_lt_of_le hlow (Nat.le_max_left ..)
      · rw [hnil] at hlt
        exact absurd hlt (Nat.not_lt_zero p)
    · rw [Nat.max_eq_right (by omega : slots.length ≤ p + 1), Nat.add_sub_cancel]
      exact lt_of_lt_of_le (Nat.lt_add_of_pos_right hpos) (Nat.le_max_right ..)
  high := by
    rw [length_putSlot hp, length_overwrite]
    refine Nat.max_le.mpr ⟨?_, ?_⟩
    · exact Nat.le_trans h.high (Nat.mul_le_mul_right size (Nat.le_max_left ..))
    · calc p * size + s.length ≤ (p + 1) * size := by rw [Nat.succ_mul]; omega
        _ ≤ max slots.length (p + 1) * size := Nat.mul_le_mul_right size (Nat.le_max_right ..)

/-- All slots from `k` on are cut off. -/
theorem resize (h : Slotted size file slots) {k : Nat} (hk : k ≤ slots.length) (hpos : 0 < size) :
    Slotted size (resize file (k * size)) (slots.take k) where
  fits := fun s hs => h.fits s (List.mem_of_mem_take hs)
  holds := by
    intro q t ht
    have hq : q < k := by
      have hlt := (List.getElem?_eq_some_iff.mp ht).1
      rw [List.length_take] at hlt
      omega
    rw [List.getElem?_take_of_lt hq] at ht
    rw [slice_resize (h.add_le_mul ht hq) (h.le_length ht)]
    exact h.holds q t ht
  low := by
    cases k with
    | zero => exact .inr rfl
    | succ k =>
      left
      rw [length_resize, List.length_take, Nat.min_eq_left hk, Nat.add_sub_cancel, Nat.succ_mul]
      omega
  high := by rw [length_resize, List.length_take, Nat.min_eq_left hk]

omit [Zero α] in
/-- The number of slots. -/
theorem count (h : Slotted size file slots) (hpos : 0 < size) :
    file.length / size + (if file.length % size ≠ 0 then 1 else 0) = slots.length := by
  have hhigh := h.high
  rcases h.low with hlow | hnil
  · rcases Nat.eq_or_lt_of_le hhigh with heq | hlt
    · rw [heq, Nat.mul_div_cancel _ hpos, Nat.mul_mod_left]
      rfl
    · have hup : file.length / size < slots.length := (Nat.div_lt_iff_lt_mul hpos).mpr hlt
      have hdown : slots.length - 1 ≤ file.length / size :=
        (Nat.le_div_iff_mul_le hpos).mpr (Nat.le_of_lt hlow)
      have hdiv : file.length / size = slots.length - 1 := by omega
      have hmod : file.length % size ≠ 0 := by
        intro hzero
        have hsum := Nat.div_add_mod file.length size
        rw [hdiv, hzero, Nat.mul_comm] at hsum
        omega
      rw [if_pos hmod]
      omega
  · rw [hnil] at hhigh ⊢
    have hzero : file.length = 0 := by simpa using hhigh
    rw [hzero]
    simp

end Slotted

end Base
