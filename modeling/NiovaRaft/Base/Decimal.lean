import Mathlib.Data.List.Lex
import Mathlib.Data.Nat.Log
import Mathlib.Data.UInt
import Mathlib.Order.Basic
import Mathlib.Order.Lattice

/-!
# Numbers as text

A number in decimal, filled up with zeros to a fixed width.  Texts are compared byte by byte, and
then such numbers compare as texts the way they do as numbers.
-/

namespace Base

instance byteLinearOrder : LinearOrder UInt8 where
  le_refl := UInt8.le_refl
  le_trans _ _ _ := UInt8.le_trans
  le_antisymm _ _ := UInt8.le_antisymm
  le_total := UInt8.le_total
  lt_iff_le_not_ge a b := by
    simp only [UInt8.lt_iff_toNat_lt, UInt8.le_iff_toNat_le]
    omega
  min_def _ _ := rfl
  max_def _ _ := rfl
  toDecidableLE := inferInstance
  toDecidableLT := inferInstance
  toDecidableEq := inferInstance

/-! ## Comparing texts -/

section Texts

variable {α : Type} [LinearOrder α]

theorem append_lt_append_iff (p a b : List α) : p ++ a < p ++ b ↔ a < b := by
  induction p with
  | nil => rfl
  | cons x p ih =>
    rw [List.cons_append, List.cons_append, List.cons_lt_cons_iff, ih]
    simp

/-- Texts of one length compare by themselves, whatever follows. -/
theorem append_lt_append_of_lt {a b : List α} (hlen : a.length = b.length) (h : a < b)
    (x y : List α) : a ++ x < b ++ y := by
  induction a generalizing b with
  | nil =>
    cases b with
    | nil => exact absurd h (lt_irrefl _)
    | cons c b => simp at hlen
  | cons d a ih =>
    cases b with
    | nil => simp at hlen
    | cons c b =>
      rw [List.cons_append, List.cons_append, List.cons_lt_cons_iff]
      rcases List.cons_lt_cons_iff.mp h with hlt | ⟨rfl, hlt⟩
      · exact .inl hlt
      · exact .inr ⟨rfl, ih (by simpa using hlen) hlt⟩

theorem cons_lt_cons_of_lt {a b : α} (h : a < b) (x y : List α) : a :: x < b :: y :=
  List.cons_lt_cons_iff.mpr (.inl h)

/-- A text between a prefix and an extension of it extends it too. -/
theorem prefix_of_le_of_le {p l x : List α} (hle : p ≤ l) (hl : l ≤ p ++ x) :
    p <+: l := by
  induction p generalizing l with
  | nil => exact List.nil_prefix
  | cons b p ih =>
    cases l with
    | nil => exact absurd hle (not_le_of_gt (List.nil_lt_cons ..))
    | cons c l =>
      have hbc : b = c := by
        rcases lt_trichotomy b c with hlt | heq | hgt
        · exact absurd (cons_lt_cons_of_lt hlt (p ++ x) l) (not_lt_of_ge hl)
        · exact heq
        · exact absurd (cons_lt_cons_of_lt hgt l p) (not_lt_of_ge hle)
      subst hbc
      have hdrop : ∀ {k k' : List α}, b :: k ≤ b :: k' → k ≤ k' := by
        intro k k' h
        by_contra hlt
        exact absurd (List.cons_lt_cons_iff.mpr (.inr ⟨rfl, not_le.mp hlt⟩)) (not_lt_of_ge h)
      exact List.cons_prefix_cons.mpr ⟨rfl, ih (hdrop hle) (hdrop hl)⟩

end Texts

/-! ## Decimals -/

/-- The bytes of an ASCII text. -/
def ascii (cs : List Char) : List UInt8 := cs.map fun c => UInt8.ofNat c.toNat

/-- A digit as text. -/
def digitByte (d : Nat) : UInt8 := UInt8.ofNat (48 + d % 10)

/-- The last `w` digits of a number. -/
def decimal : Nat → Nat → List UInt8
  | 0, _ => []
  | w + 1, n => digitByte (n / 10 ^ w) :: decimal w n

/-- The number that the leading digits of a text stand for, after those that stand for `acc`. -/
def readDecimal (acc : Nat) : List UInt8 → Nat
  | [] => acc
  | b :: bs => if 48 ≤ b ∧ b ≤ 57 then readDecimal (10 * acc + (b.toNat - 48)) bs else acc

theorem toNat_digitByte (d : Nat) : (digitByte d).toNat = 48 + d % 10 := by
  have hlt := Nat.mod_lt d (by decide : 0 < 10)
  rw [digitByte, UInt8.toNat_ofNat']
  omega

@[simp] theorem length_decimal (w n : Nat) : (decimal w n).length = w := by
  induction w with
  | zero => rfl
  | succ w ih => rw [decimal, List.length_cons, ih]

/-- A number by its first digit and the others. -/
theorem mod_pow_succ_eq (n w : Nat) : n % 10 ^ (w + 1) = n / 10 ^ w % 10 * 10 ^ w + n % 10 ^ w := by
  rw [Nat.pow_succ, Nat.mod_mul, Nat.add_comm, Nat.mul_comm]

/-- Numbers compare by their first digit, and then by the others. -/
theorem mul_add_lt_mul_add {a b x y p : Nat} (hx : x < p) (hy : y < p) :
    a * p + x < b * p + y ↔ a < b ∨ a = b ∧ x < y := by
  have hstep : ∀ {c d : Nat}, c < d → c * p + p ≤ d * p := by
    intro c d h
    rw [← Nat.succ_mul]
    exact Nat.mul_le_mul_right p h
  rcases Nat.lt_trichotomy a b with hlt | rfl | hgt
  · have hle := hstep hlt
    omega
  · omega
  · have hle := hstep hgt
    omega

/-- Decimals of one width compare as texts the way they do as numbers. -/
theorem decimal_lt_decimal (w m n : Nat) :
    decimal w m < decimal w n ↔ m % 10 ^ w < n % 10 ^ w := by
  induction w with
  | zero => simp [decimal, Nat.mod_one]
  | succ w ih =>
    have hm := Nat.mod_lt m (Nat.pow_pos (n := w) (by decide : 0 < 10))
    have hn := Nat.mod_lt n (Nat.pow_pos (n := w) (by decide : 0 < 10))
    rw [decimal, decimal, List.cons_lt_cons_iff, ih, UInt8.lt_iff_toNat_lt, ← UInt8.toNat_inj,
      toNat_digitByte, toNat_digitByte, mod_pow_succ_eq, mod_pow_succ_eq, mul_add_lt_mul_add hm hn]
    omega

theorem digitByte_mem_range (d : Nat) : 48 ≤ digitByte d ∧ digitByte d ≤ 57 := by
  have hlt := Nat.mod_lt d (by decide : 0 < 10)
  rw [UInt8.le_iff_toNat_le, UInt8.le_iff_toNat_le, toNat_digitByte]
  exact ⟨Nat.le_add_right 48 _, by show 48 + d % 10 ≤ 57; omega⟩

/-- A decimal is read back, up to the first byte that is no digit. -/
theorem readDecimal_decimal (w n acc : Nat) (rest : List UInt8) :
    readDecimal acc (decimal w n ++ rest) = readDecimal (acc * 10 ^ w + n % 10 ^ w) rest := by
  induction w generalizing acc with
  | zero => simp [decimal, Nat.mod_one]
  | succ w ih =>
    rw [decimal, List.cons_append, readDecimal, if_pos (digitByte_mem_range _), toNat_digitByte, ih,
      mod_pow_succ_eq, Nat.add_sub_cancel_left, Nat.add_mul, Nat.pow_succ, Nat.add_assoc,
      Nat.mul_comm 10 acc, Nat.mul_assoc, Nat.mul_comm 10]

theorem decimal_inj {w m n : Nat} (hm : m < 10 ^ w) (hn : n < 10 ^ w)
    (h : decimal w m = decimal w n) : m = n := by
  have hread : ∀ k, k < 10 ^ w → readDecimal 0 (decimal w k) = k := by
    intro k hk
    have := readDecimal_decimal w k 0 []
    rwa [List.append_nil, Nat.zero_mul, Nat.zero_add, Nat.mod_eq_of_lt hk, readDecimal] at this
  rw [← hread m hm, ← hread n hn, h]

/-- A decimal and its last digit. -/
theorem decimal_succ_eq (w n : Nat) : decimal (w + 1) n = decimal w (n / 10) ++ [digitByte n] := by
  induction w with
  | zero =>
    show [digitByte (n / 10 ^ 0)] = [digitByte n]
    rw [Nat.pow_zero, Nat.div_one]
  | succ w ih =>
    have hdiv : n / 10 ^ (w + 1) = n / 10 / 10 ^ w := by
      rw [Nat.div_div_eq_div_mul, Nat.pow_succ, Nat.mul_comm]
    rw [decimal, ih, decimal, hdiv, List.cons_append]

/-- A byte that is no digit. -/
theorem not_mem_decimal {b : UInt8} (hb : ¬(48 ≤ b ∧ b ≤ 57)) (w n : Nat) : b ∉ decimal w n := by
  induction w with
  | zero => exact List.not_mem_nil
  | succ w ih =>
    rw [decimal]
    intro hmem
    rcases List.mem_cons.mp hmem with rfl | hmem
    · exact hb (digitByte_mem_range _)
    · exact ih hmem

/-- What `printf` prints for `%0<w>zu`. -/
def zeroPadded (w n : Nat) : List UInt8 := decimal (max w (Nat.log 10 n + 1)) n

theorem zeroPadded_eq {w n : Nat} (hw : 0 < w) (h : n < 10 ^ w) : zeroPadded w n = decimal w n := by
  have hlog : Nat.log 10 n + 1 ≤ w := by
    by_cases hn : n = 0
    · rw [hn, Nat.log_zero_right]
      exact hw
    · exact Nat.log_lt_of_lt_pow hn h
  rw [zeroPadded, Nat.max_eq_left hlog]

/-- A padded number is read back. -/
theorem readDecimal_zeroPadded (w n : Nat) {b : UInt8} (rest : List UInt8)
    (hb : ¬(48 ≤ b ∧ b ≤ 57)) : readDecimal 0 (zeroPadded w n ++ b :: rest) = n := by
  have hlt : n < 10 ^ max w (Nat.log 10 n + 1) :=
    Nat.lt_of_lt_of_le (Nat.lt_pow_succ_log_self (by decide) n)
      (Nat.pow_le_pow_right (by decide) (Nat.le_max_right ..))
  rw [zeroPadded, readDecimal_decimal, Nat.zero_mul, Nat.zero_add, Nat.mod_eq_of_lt hlt,
    readDecimal, if_neg hb]

end Base
