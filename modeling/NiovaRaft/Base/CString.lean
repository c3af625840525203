import Mathlib.Data.List.TakeDrop
import Mathlib.Data.List.TakeWhile
import NiovaRaft.Base.Bytes

/-!
# Strings in C

A string ends at its first zero.  What is printed into a buffer is cut off where the buffer ends, and
the length of the whole text is reported.
-/

namespace Base

/-- `snprintf` of a text into a buffer that is not empty: what is in the buffer, and what is
returned. -/
def snprintf (len : Nat) (text : List UInt8) : List UInt8 × Nat := (text.take (len - 1), text.length)

/-- The string at the start of a buffer. -/
def cstr (buf : List UInt8) : List UInt8 := buf.takeWhile fun b => b != 0

/-- `strndup`: a copy of the string, cut off after so many characters. -/
def strndup (s : List UInt8) (n : Nat) : List UInt8 := (cstr s).take n

/-- `strncmp`.  Behind a list there is a zero. -/
def strncmp (a b : List UInt8) : Nat → Int
  | 0 => 0
  | n + 1 =>
      let x := a.headD 0
      let y := b.headD 0
      if x ≠ y then (x.toNat : Int) - y.toNat
      else if x = 0 then 0
      else strncmp a.tail b.tail n

/-- The slash. -/
def slash : UInt8 := 47

/-- What comes after the last slash of a path. -/
def lastComponent (path : List UInt8) : List UInt8 :=
  (path.reverse.takeWhile fun b => b != slash).reverse

theorem cstr_append_zero {t : List UInt8} (h : 0 ∉ t) (rest : List UInt8) :
    cstr (t ++ 0 :: rest) = t := by
  have hpos : ∀ b ∈ t, (b != 0) = true := fun b hb => bne_iff_ne.mpr fun hzero => h (hzero ▸ hb)
  rw [cstr, List.takeWhile_append_of_pos hpos, List.takeWhile_cons_of_neg (by simp),
    List.append_nil]

theorem cstr_cons (x : UInt8) (l : List UInt8) : cstr (x :: l) = if x = 0 then [] else x :: cstr l := by
  rw [cstr, cstr, List.takeWhile_cons]
  by_cases hx : x = 0 <;> simp [hx]

/-- A string has no zero in it, so it is its own string. -/
theorem cstr_of_notMem {t : List UInt8} (h : 0 ∉ t) : cstr t = t := by
  rw [cstr, List.takeWhile_eq_self_iff]
  exact fun b hb => bne_iff_ne.mpr fun hzero => h (hzero ▸ hb)

theorem zero_notMem_strndup (s : List UInt8) (n : Nat) : 0 ∉ strndup s n := by
  intro h
  have hmem : (0 : UInt8) ∈ s.takeWhile fun b => b != 0 := List.mem_of_mem_take h
  simpa using List.mem_takeWhile_imp hmem

/-- Two strings compare equal when they begin with the same characters. -/
theorem strncmp_eq_zero_iff (a b : List UInt8) (n : Nat) :
    strncmp a b n = 0 ↔ (cstr a).take n = (cstr b).take n := by
  induction n generalizing a b with
  | zero => simp [strncmp]
  | succ n ih =>
    have hhead : ∀ l : List UInt8, (cstr l).take (n + 1) =
        if l.headD 0 = 0 then [] else l.headD 0 :: (cstr l.tail).take n := by
      intro l
      cases l with
      | nil => rfl
      | cons x l =>
        rw [cstr_cons]
        split <;> simp_all
    rw [hhead a, hhead b, strncmp]
    by_cases hxy : a.headD 0 = b.headD 0
    · rw [if_neg (not_not.mpr hxy), ← hxy]
      by_cases hx : a.headD 0 = 0
      · rw [if_pos hx, if_pos hx, if_pos hx]
        exact iff_of_true rfl rfl
      · rw [if_neg hx, if_neg hx, if_neg hx, List.cons.injEq, ih]
        exact (and_iff_right rfl).symm
    · rw [if_pos hxy]
      refine iff_of_false ?_ ?_
      · have hne : (a.headD 0).toNat ≠ (b.headD 0).toNat := fun h => hxy (UInt8.toNat_inj.mp h)
        omega
      · intro h
        split at h <;> split at h <;> simp_all

/-- A string compares equal to what `strndup` makes of it, unless it is cut off before the comparison
ends. -/
theorem strncmp_strndup (s : List UInt8) (n k : Nat) :
    strncmp s (strndup s n) k = 0 ↔ k ≤ n ∨ (cstr s).length ≤ n := by
  rw [strncmp_eq_zero_iff, cstr_of_notMem (zero_notMem_strndup s n), strndup, List.take_take]
  constructor
  · intro h
    have hlen := congrArg List.length h
    rw [List.length_take, List.length_take] at hlen
    omega
  · rintro (hk | hs)
    · rw [Nat.min_eq_left hk]
    · rcases Nat.le_total k n with hk | hk
      · rw [Nat.min_eq_left hk]
      · rw [Nat.min_eq_right hk, List.take_of_length_le hs, List.take_of_length_le (hs.trans hk)]

theorem lastComponent_append {name : List UInt8} (h : slash ∉ name) (dir : List UInt8) :
    lastComponent (dir ++ slash :: name) = name := by
  have hpos : ∀ b ∈ name.reverse, (b != slash) = true := by
    intro b hb
    exact bne_iff_ne.mpr fun hslash => h (hslash ▸ List.mem_reverse.mp hb)
  rw [lastComponent, List.reverse_append, List.reverse_cons, List.append_assoc,
    List.takeWhile_append_of_pos hpos, List.singleton_append,
    List.takeWhile_cons_of_neg (by simp), List.append_nil, List.reverse_reverse]

/-! ## Parts of buffers -/

/-- Cutting behind a first part. -/
theorem resize_append {a : List UInt8} {n : Nat} (h : a.length = n) (b : List UInt8) (k : Nat) :
    resize (a ++ b) (n + k) = a ++ resize b k := by
  subst h
  induction a with
  | nil => rw [List.length_nil, Nat.zero_add, List.nil_append, List.nil_append]
  | cons x a ih =>
    rw [List.length_cons, Nat.add_right_comm, List.cons_append, List.cons_append, ← ih]
    rfl

/-- The byte behind a first part is replaced. -/
theorem set_append_cons {a : List UInt8} {n : Nat} (h : a.length = n) (x y : UInt8)
    (b : List UInt8) : (a ++ x :: b).set n y = a ++ y :: b := by
  rw [List.set_append_right _ _ (Nat.le_of_eq h), h, Nat.sub_self, List.set_cons_zero]

end Base
