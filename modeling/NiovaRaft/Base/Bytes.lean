import Mathlib.Data.List.TakeDrop
import Mathlib.Data.Nat.Basic
import NiovaRaft.Base.Slices

/-!
# Buffers

A buffer is a list that is read and written in place.  A write past the end fills the gap with
zeros, as it does in a file.  A read gives what there is, and may come out short.  A number is kept
in a fixed number of bytes, the lowest one first.
-/

namespace Base

variable {α : Type} [Zero α]

/-- What a read of `len` elements at `off` gives. -/
def slice (l : List α) (off len : Nat) : List α := (l.drop off).take len

/-- A write of `xs` at `off`. -/
def overwrite (l : List α) (off : Nat) (xs : List α) : List α :=
  l.takeD off 0 ++ xs ++ l.drop (off + xs.length)

/-- Cut or extend a buffer to a length. -/
def resize (l : List α) (len : Nat) : List α := l.takeD len 0

/-! ## Lengths -/

omit [Zero α] in
@[simp] theorem length_slice {l : List α} {off len : Nat} :
    (slice l off len).length = min len (l.length - off) := by
  simp [slice]

@[simp] theorem length_overwrite {l xs : List α} {off : Nat} :
    (overwrite l off xs).length = max l.length (off + xs.length) := by
  simp only [overwrite, List.length_append, List.takeD_length, List.length_drop]
  omega

@[simp] theorem length_resize {l : List α} {len : Nat} : (resize l len).length = len :=
  List.takeD_length ..

/-! ## Elements -/

omit [Zero α] in
theorem getElem?_slice {l : List α} {off len i : Nat} (h : i < len) :
    (slice l off len)[i]? = l[off + i]? := by
  rw [slice, List.getElem?_take_of_lt h, List.getElem?_drop]

/-- Below the end, what is cut off or filled up is not seen. -/
theorem getElem?_takeD {l : List α} {len i : Nat} (hi : i < len) (hl : i < l.length) :
    (l.takeD len 0)[i]? = l[i]? := by
  induction l generalizing len i with
  | nil => simp at hl
  | cons x l ih =>
    cases len with
    | zero => omega
    | succ len =>
      cases i with
      | zero => rfl
      | succ i => exact ih (by omega) (by simpa using hl)

theorem getElem?_overwrite_before {l xs : List α} {off i : Nat} (hi : i < off)
    (hl : i < l.length) : (overwrite l off xs)[i]? = l[i]? := by
  rw [overwrite, List.append_assoc, List.getElem?_append_left (by simpa using hi)]
  exact getElem?_takeD hi hl

theorem getElem?_overwrite_within {l xs : List α} {off i : Nat} (h : i < xs.length) :
    (overwrite l off xs)[off + i]? = xs[i]? := by
  have hleft : off + i < (l.takeD off 0 ++ xs).length := by
    simp only [List.length_append, List.takeD_length]
    omega
  rw [overwrite, List.getElem?_append_left hleft, List.getElem?_append_right (by simp)]
  simp

theorem getElem?_overwrite_after {l xs : List α} {off i : Nat} (h : off + xs.length ≤ i) :
    (overwrite l off xs)[i]? = l[i]? := by
  have hright : (l.takeD off 0 ++ xs).length ≤ i := by
    simp only [List.length_append, List.takeD_length]
    exact h
  rw [overwrite, List.getElem?_append_right hright, List.getElem?_drop]
  congr 1
  simp only [List.length_append, List.takeD_length]
  omega

/-! ## Reads after writes -/

omit [Zero α] in
/-- Two buffers that agree on a range read the same there. -/
theorem slice_congr {l l' : List α} {off off' len : Nat}
    (h : ∀ i < len, l[off + i]? = l'[off' + i]?) : slice l off len = slice l' off' len := by
  refine List.ext_getElem? fun i => ?_
  by_cases hi : i < len
  · rw [getElem?_slice hi, getElem?_slice hi, h i hi]
  · have hout : ∀ (k : List α) (o : Nat), (slice k o len)[i]? = none := fun k o =>
      List.getElem?_eq_none (by simp only [length_slice]; omega)
    rw [hout, hout]

/-- A part of what was written. -/
theorem slice_overwrite_within {l xs : List α} {off k len : Nat} (h : k + len ≤ xs.length) :
    slice (overwrite l off xs) (off + k) len = slice xs k len := by
  refine slice_congr fun i hi => ?_
  rw [Nat.add_assoc]
  exact getElem?_overwrite_within (by omega)

@[simp] theorem slice_overwrite_same {l xs : List α} {off : Nat} :
    slice (overwrite l off xs) off xs.length = xs := by
  have h : slice (overwrite l off xs) (off + 0) xs.length = slice xs 0 xs.length :=
    slice_overwrite_within (by omega)
  rw [Nat.add_zero] at h
  rw [h]
  simp [slice]

theorem slice_overwrite_before {l xs : List α} {off off' len : Nat} (h : off' + len ≤ off)
    (hl : off' + len ≤ l.length) : slice (overwrite l off xs) off' len = slice l off' len :=
  slice_congr fun i hi => getElem?_overwrite_before (by omega) (by omega)

theorem slice_overwrite_after {l xs : List α} {off off' len : Nat} (h : off + xs.length ≤ off') :
    slice (overwrite l off xs) off' len = slice l off' len :=
  slice_congr fun i hi => getElem?_overwrite_after (by omega)

/-- What is written twice is there once. -/
theorem overwrite_overwrite {l xs : List α} {off : Nat} :
    overwrite (overwrite l off xs) off xs = overwrite l off xs := by
  refine List.ext_getElem? fun i => ?_
  rcases Nat.lt_or_ge i off with hbefore | hge
  · refine getElem?_overwrite_before hbefore ?_
    rw [length_overwrite]
    omega
  · obtain ⟨k, rfl⟩ := Nat.exists_eq_add_of_le hge
    rcases Nat.lt_or_ge k xs.length with hwithin | hafter
    · rw [getElem?_overwrite_within hwithin, getElem?_overwrite_within hwithin]
    · exact getElem?_overwrite_after (by omega)

theorem slice_resize {l : List α} {n off len : Nat} (h : off + len ≤ n)
    (hl : off + len ≤ l.length) : slice (resize l n) off len = slice l off len :=
  slice_congr fun i hi => getElem?_takeD (by omega) (by omega)

omit [Zero α] in
/-- A part of a buffer that was put together from parts. -/
theorem slice_flatten (ls : List (List α)) {i : Nat} {xs : List α} (h : ls[i]? = some xs) :
    slice ls.flatten ((ls.map List.length).take i).sum xs.length = xs := by
  have hpart := getElem?_slices (ls.map List.length) ls.flatten i
  rw [slices_flatten, h, List.getElem?_map, h] at hpart
  exact (Option.some.inj hpart).symm

/-! ## Numbers -/

/-- A number in `k` bytes, the lowest one first. -/
def leBytes : Nat → Nat → List UInt8
  | 0, _ => []
  | k + 1, v => UInt8.ofNat v :: leBytes k (v / 256)

/-- The number that bytes stand for. -/
def ofLeBytes : List UInt8 → Nat
  | [] => 0
  | b :: bs => b.toNat + 256 * ofLeBytes bs

@[simp] theorem length_leBytes (k v : Nat) : (leBytes k v).length = k := by
  induction k generalizing v with
  | zero => rfl
  | succ k ih => simp [leBytes, ih]

theorem ofLeBytes_leBytes {k v : Nat} (h : v < 256 ^ k) : ofLeBytes (leBytes k v) = v := by
  induction k generalizing v with
  | zero =>
    have hzero : v = 0 := by simpa using h
    rw [hzero]
    rfl
  | succ k ih =>
    have hdiv : v / 256 < 256 ^ k := by
      rw [Nat.div_lt_iff_lt_mul (by decide)]
      simpa [Nat.pow_succ] using h
    simp only [leBytes, ofLeBytes, ih hdiv, UInt8.toNat_ofNat']
    omega

end Base
