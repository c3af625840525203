import Mathlib.Data.List.Basic
import Mathlib.Data.Nat.Log
import Mathlib.Data.UInt

/-!
# Hexadecimal texts

Numbers and bytes printed in base sixteen, with lower case letters, and read back from digits of
either case.  A byte takes two digits.
-/

namespace Base

/-- A digit as text. -/
def hexDigit (d : Nat) : UInt8 :=
  if d % 16 < 10 then UInt8.ofNat (48 + d % 16) else UInt8.ofNat (87 + d % 16)

/-- What a digit stands for. -/
def hexVal (b : UInt8) : Option Nat :=
  if 48 ≤ b.toNat ∧ b.toNat ≤ 57 then some (b.toNat - 48)
  else if 97 ≤ b.toNat ∧ b.toNat ≤ 102 then some (b.toNat - 87)
  else if 65 ≤ b.toNat ∧ b.toNat ≤ 70 then some (b.toNat - 55)
  else none

/-- The text has nothing but digits. -/
def HexDigits (t : List UInt8) : Prop := ∀ b ∈ t, (hexVal b).isSome = true

instance (t : List UInt8) : Decidable (HexDigits t) := inferInstanceAs (Decidable (∀ b ∈ t, _))

theorem hexVal_hexDigit (d : Nat) : hexVal (hexDigit d) = some (d % 16) := by
  have hall : ∀ k < 16,
      hexVal (if k < 10 then UInt8.ofNat (48 + k) else UInt8.ofNat (87 + k)) = some k := by decide
  exact hall _ (Nat.mod_lt d (by decide))

theorem hexVal_lt {b : UInt8} {v : Nat} (h : hexVal b = some v) : v < 16 := by
  rw [hexVal] at h
  split at h
  · cases h
    omega
  split at h
  · cases h
    omega
  split at h
  · cases h
    omega
  · cases h

theorem HexDigits.append {s t : List UInt8} (hs : HexDigits s) (ht : HexDigits t) :
    HexDigits (s ++ t) := by
  intro b hb
  rcases List.mem_append.mp hb with hb | hb
  · exact hs b hb
  · exact ht b hb

theorem HexDigits.not_mem {t : List UInt8} (h : HexDigits t) {b : UInt8} (hb : hexVal b = none) :
    b ∉ t := by
  intro hmem
  have := h b hmem
  rw [hb] at this
  cases this

/-! ## Numbers -/

/-- The last `w` digits of a number. -/
def hexFixed : Nat → Nat → List UInt8
  | 0, _ => []
  | w + 1, n => hexDigit (n / 16 ^ w) :: hexFixed w n

/-- How many digits `printf` prints for `%lx`. -/
def hexWidth (n : Nat) : Nat := Nat.log 16 n + 1

/-- What `printf` prints for `%lx`. -/
def hexText (n : Nat) : List UInt8 := hexFixed (hexWidth n) n

/-- The number that the leading digits of a text stand for, after those that stand for `acc`. -/
def readHex (acc : Nat) : List UInt8 → Nat
  | [] => acc
  | b :: bs =>
      match hexVal b with
      | some v => readHex (16 * acc + v) bs
      | none => acc

@[simp] theorem length_hexFixed (w n : Nat) : (hexFixed w n).length = w := by
  induction w with
  | zero => rfl
  | succ w ih => rw [hexFixed, List.length_cons, ih]

theorem hexDigits_hexFixed (w n : Nat) : HexDigits (hexFixed w n) := by
  induction w with
  | zero => exact fun b hb => by cases hb
  | succ w ih =>
    intro b hb
    rcases List.mem_cons.mp hb with rfl | hb
    · rw [hexVal_hexDigit]
      rfl
    · exact ih b hb

theorem readHex_hexFixed (w n acc : Nat) :
    readHex acc (hexFixed w n) = acc * 16 ^ w + n % 16 ^ w := by
  induction w generalizing acc with
  | zero => simp [hexFixed, readHex, Nat.mod_one]
  | succ w ih =>
    have hsplit : n % 16 ^ (w + 1) = n / 16 ^ w % 16 * 16 ^ w + n % 16 ^ w := by
      rw [Nat.pow_succ, Nat.mod_mul, Nat.add_comm, Nat.mul_comm]
    simp only [hexFixed, readHex, hexVal_hexDigit]
    rw [ih, hsplit, Nat.add_mul, Nat.pow_succ, Nat.add_assoc, Nat.mul_comm 16 acc, Nat.mul_assoc,
      Nat.mul_comm 16]

@[simp] theorem length_hexText (n : Nat) : (hexText n).length = hexWidth n := length_hexFixed _ _

theorem hexDigits_hexText (n : Nat) : HexDigits (hexText n) := hexDigits_hexFixed _ _

theorem hexText_ne_nil (n : Nat) : hexText n ≠ [] := List.cons_ne_nil _ _

/-- A number is read back. -/
theorem readHex_hexText (n : Nat) : readHex 0 (hexText n) = n := by
  have hlt : n < 16 ^ hexWidth n := Nat.lt_pow_succ_log_self (by decide) n
  rw [hexText, readHex_hexFixed, Nat.zero_mul, Nat.zero_add, Nat.mod_eq_of_lt hlt]

theorem readHex_lt {t : List UInt8} (acc : Nat) : readHex acc t < (acc + 1) * 16 ^ t.length := by
  induction t generalizing acc with
  | nil => simp [readHex]
  | cons b t ih =>
    rw [readHex, List.length_cons, Nat.pow_succ, Nat.mul_comm (16 ^ t.length), ← Nat.mul_assoc]
    cases hb : hexVal b with
    | none =>
      have hpow : 0 < 16 ^ t.length := Nat.pow_pos (by decide)
      calc acc < (acc + 1) * 16 := by omega
        _ ≤ (acc + 1) * 16 * 16 ^ t.length := Nat.le_mul_of_pos_right _ hpow
    | some v =>
      have hv := hexVal_lt hb
      calc readHex (16 * acc + v) t < (16 * acc + v + 1) * 16 ^ t.length := ih _
        _ ≤ (acc + 1) * 16 * 16 ^ t.length := Nat.mul_le_mul_right _ (by omega)

/-- Printing a number takes no more digits than it was read from. -/
theorem hexWidth_le {t : List UInt8} (ht : t ≠ []) {n : Nat} (h : n ≤ readHex 0 t) :
    hexWidth n ≤ t.length := by
  have hlt : n < 16 ^ t.length := by
    have := readHex_lt (t := t) 0
    omega
  have hlen : t.length ≠ 0 := fun hzero => ht (List.eq_nil_of_length_eq_zero hzero)
  exact Nat.log_lt_of_lt_pow' hlen hlt

/-! ## Bytes -/

/-- Bytes as text, two digits each. -/
def hexBytes : List UInt8 → List UInt8
  | [] => []
  | b :: bs => hexDigit (b.toNat / 16) :: hexDigit b.toNat :: hexBytes bs

/-- The bytes that pairs of digits stand for. -/
def unhexBytes : List UInt8 → List UInt8
  | hi :: lo :: t =>
      UInt8.ofNat (16 * (hexVal hi).getD 0 + (hexVal lo).getD 0) :: unhexBytes t
  | _ => []

theorem hexBytes_append (s t : List UInt8) : hexBytes (s ++ t) = hexBytes s ++ hexBytes t := by
  induction s with
  | nil => rfl
  | cons b s ih => rw [List.cons_append, hexBytes, hexBytes, ih, List.cons_append, List.cons_append]

@[simp] theorem length_hexBytes (bs : List UInt8) : (hexBytes bs).length = 2 * bs.length := by
  induction bs with
  | nil => rfl
  | cons b bs ih =>
    rw [hexBytes, List.length_cons, List.length_cons, ih, List.length_cons]
    omega

theorem hexDigits_hexBytes (bs : List UInt8) : HexDigits (hexBytes bs) := by
  induction bs with
  | nil => exact fun b hb => by cases hb
  | cons b bs ih =>
    intro c hc
    rcases List.mem_cons.mp hc with rfl | hc
    · rw [hexVal_hexDigit]
      rfl
    rcases List.mem_cons.mp hc with rfl | hc
    · rw [hexVal_hexDigit]
      rfl
    · exact ih c hc

/-- Bytes are read back. -/
theorem unhexBytes_hexBytes (bs : List UInt8) : unhexBytes (hexBytes bs) = bs := by
  induction bs with
  | nil => rfl
  | cons b bs ih =>
    have hb : b.toNat < 256 := b.toNat_lt
    have hbyte : 16 * (b.toNat / 16 % 16) + b.toNat % 16 = b.toNat := by omega
    rw [hexBytes, unhexBytes, hexVal_hexDigit, hexVal_hexDigit, ih, Option.getD_some,
      Option.getD_some, hbyte, UInt8.ofNat_toNat]

end Base
