import Mathlib.Data.Fin.VecNotation
import Mathlib.Tactic.FinCases
import NiovaRaft.Model.RaftNet

/-!
# The text of a user id

A buffer for the text of a user id has room for a uuid and four words of sixteen digits, but not for
the separators between them.  The round trip goes through as long as the words take no more than
sixty digits together.  What was read from a text is never too long to be printed again.
-/

namespace NiovaRaft.RaftNet

open Base

variable [UuidText]

/-! ## Printing -/

/-- How many digits the words take. -/
def ClientUserId.digits (rncui : ClientUserId) : Nat :=
  (List.ofFn fun i => hexWidth (rncui.words i).toNat).sum

/-- The words as texts. -/
def ClientUserId.wordTexts (rncui : ClientUserId) : List (List UInt8) :=
  List.ofFn fun i => hexText (rncui.words i).toNat

theorem text_eq_intercalate (rncui : ClientUserId) :
    rncui.text =
      [clientUserIdV0StrSep].intercalate (UuidText.unparse rncui.uuid :: rncui.wordTexts) := by
  simp [ClientUserId.text, ClientUserId.wordTexts, List.intercalate, List.intersperse]

theorem length_text (rncui : ClientUserId) : rncui.text.length = 40 + rncui.digits := by
  have huuid := (UuidText.unparse_form rncui.uuid).length_eq
  simp only [ClientUserId.text, ClientUserId.digits, List.length_append, huuid, List.ofFn_succ,
    List.ofFn_zero, List.flatten_cons, List.flatten_nil, List.length_cons, List.length_nil,
    length_hexText, List.sum_cons, List.sum_nil]
  omega

theorem clientUserIdToString_eq (rncui : ClientUserId) :
    clientUserIdToString rncui clientUserIdV0StrlenSize =
      (rncui.text.take 100, if rncui.digits ≤ 60 then .ok () else .error .ENOSPC) := by
  rw [clientUserIdToString, if_neg (by decide)]
  simp only [snprintf, length_text, clientUserIdV0StrlenSize]
  by_cases hle : rncui.digits ≤ 60
  · rw [if_pos hle, if_neg (by omega)]
  · rw [if_neg hle, if_pos (by omega)]

/-! ## Reading -/

omit [UuidText] in
theorem not_mem_sep_of_hexDigits {t : List UInt8} (h : HexDigits t) : clientUserIdV0StrSep ∉ t :=
  h.not_mem (by decide)

omit [UuidText] in
theorem not_mem_sep_of_uuidForm {t : List UInt8} (h : UuidForm t) : clientUserIdV0StrSep ∉ t :=
  h.not_mem (by decide) (by decide)

omit [UuidText] in
theorem uuidForm_ne_nil {t : List UInt8} (h : UuidForm t) : t ≠ [] := by
  rintro rfl
  exact absurd h.length_eq (by decide)

omit [UuidText] in
/-- The parts are found where they were put. -/
theorem strtokAll_intercalate {u : List UInt8} {ws : List (List UInt8)} (hu : UuidForm u)
    (hws : ∀ w ∈ ws, w ≠ [] ∧ HexDigits w) :
    strtokAll ([clientUserIdV0StrSep].intercalate (u :: ws)) = u :: ws := by
  have hsep : ∀ t ∈ u :: ws, clientUserIdV0StrSep ∉ t := by
    intro t ht
    rcases List.mem_cons.mp ht with rfl | ht
    · exact not_mem_sep_of_uuidForm hu
    · exact not_mem_sep_of_hexDigits (hws t ht).2
  rw [strtokAll, List.splitOn_intercalate _ hsep (List.cons_ne_nil u ws), List.filter_eq_self]
  intro t ht
  rcases List.mem_cons.mp ht with rfl | ht
  · exact decide_eq_true (uuidForm_ne_nil hu)
  · exact decide_eq_true (hws t ht).1

theorem parseSubs_four {u a b c d : List UInt8} (rncui : ClientUserId) {uuid : Uuid}
    (hu : UuidText.parse u = some uuid) :
    parseSubs 0 [u, a, b, c, d] rncui =
      .ok ⟨uuid, ![strtoull a, strtoull b, strtoull c, strtoull d], rncui.version⟩ := by
  simp only [parseSubs, hu]
  have hwords : Function.update (Function.update (Function.update (Function.update rncui.words 0
      (strtoull a)) 1 (strtoull b)) 2 (strtoull c)) 3 (strtoull d) =
      ![strtoull a, strtoull b, strtoull c, strtoull d] := by
    funext i
    fin_cases i <;> rfl
  exact congrArg (fun ws => Except.ok (ClientUserId.mk uuid ws rncui.version)) hwords

omit [UuidText] in
theorem strtoull_hexText (w : UInt64) : strtoull (hexText w.toNat) = w := by
  have hlt := w.toNat_lt
  rw [strtoull, readHex_hexText, Nat.min_eq_left (by omega), UInt64.ofNat_toNat]

omit [UuidText] in
theorem hexWidth_strtoull {t : List UInt8} (ht : t ≠ []) : hexWidth (strtoull t).toNat ≤ t.length := by
  refine hexWidth_le ht ?_
  rw [strtoull, UInt64.toNat_ofNat']
  exact (Nat.mod_le _ _).trans (Nat.min_le_left _ _)

/-! ### The expression -/

/-- The expression as it is meant: what lies between the separators. -/
def regexecExact (t : List UInt8) : Bool :=
  match t.splitOn clientUserIdV0StrSep with
  | u :: ws => decide (UuidForm u ∧ ws.length = 4 ∧ ∀ w ∈ ws, w ≠ [] ∧ HexDigits w)
  | [] => false

omit [UuidText] in
theorem regexecExact_iff (t : List UInt8) : regexecExact t = true ↔
    ∃ u ws, UuidForm u ∧ ws.length = 4 ∧ (∀ w ∈ ws, w ≠ [] ∧ HexDigits w) ∧
      t = [clientUserIdV0StrSep].intercalate (u :: ws) := by
  constructor
  · intro h
    have hsplit : [clientUserIdV0StrSep].intercalate (t.splitOn clientUserIdV0StrSep) = t :=
      List.intercalate_splitOn clientUserIdV0StrSep
    rw [regexecExact] at h
    cases hparts : t.splitOn clientUserIdV0StrSep with
    | nil =>
      rw [hparts] at h
      cases h
    | cons u ws =>
      rw [hparts] at h hsplit
      obtain ⟨hu, hfour, hws⟩ := of_decide_eq_true h
      exact ⟨u, ws, hu, hfour, hws, hsplit.symm⟩
  · rintro ⟨u, ws, hu, hfour, hws, rfl⟩
    have hsep : ∀ p ∈ u :: ws, clientUserIdV0StrSep ∉ p := by
      intro p hp
      rcases List.mem_cons.mp hp with rfl | hp
      · exact not_mem_sep_of_uuidForm hu
      · exact not_mem_sep_of_hexDigits (hws p hp).2
    rw [regexecExact, List.splitOn_intercalate _ hsep (List.cons_ne_nil u ws)]
    exact decide_eq_true ⟨hu, hfour, hws⟩

@[reducible] def RncuiRegex.exact : RncuiRegex := ⟨regexecExact, regexecExact_iff⟩

/-! ### A whole text -/

variable [RncuiRegex]

/-- A text that is short enough is read. -/
theorem clientUserIdParse_text {rncui : ClientUserId} (h : rncui.digits ≤ 60)
    (dest : ClientUserId) :
    clientUserIdParse (rncui.text.take 100) dest 0 = .ok { rncui with version := dest.version } := by
  have hlen : rncui.text.length ≤ 100 := by
    rw [length_text]
    omega
  have hwords : ∀ w ∈ rncui.wordTexts, w ≠ [] ∧ HexDigits w := by
    intro w hw
    obtain ⟨i, rfl⟩ := List.mem_ofFn.mp hw
    exact ⟨hexText_ne_nil _, hexDigits_hexText _⟩
  have hregex : RncuiRegex.regexec rncui.text = true :=
    (RncuiRegex.regexec_iff _).mpr ⟨_, _, UuidText.unparse_form rncui.uuid, List.length_ofFn, hwords,
      text_eq_intercalate rncui⟩
  have hfour : rncui.wordTexts = [hexText (rncui.words 0).toNat, hexText (rncui.words 1).toNat,
      hexText (rncui.words 2).toNat, hexText (rncui.words 3).toNat] := rfl
  rw [clientUserIdParse, if_neg (by decide), List.take_of_length_le hlen,
    if_neg (by rw [clientUserIdV0StrlenSize]; omega)]
  simp only [clientUserIdV0StrlenSize, Nat.add_one_sub_one, List.take_of_length_le hlen]
  rw [if_pos hregex, text_eq_intercalate,
    strtokAll_intercalate (UuidText.unparse_form rncui.uuid) hwords, hfour,
    parseSubs_four dest (UuidText.parse_unparse rncui.uuid)]
  simp only [strtoull_hexText]
  congr 2
  funext i
  fin_cases i <;> rfl

/-- What was read takes no more digits than it was read from. -/
theorem digits_le_of_parse {s : List UInt8} {dest rncui : ClientUserId}
    (h : clientUserIdParse s dest 0 = .ok rncui) : rncui.digits ≤ 60 := by
  rw [clientUserIdParse, if_neg (by decide)] at h
  by_cases hlong : min s.length clientUserIdV0StrlenSize = clientUserIdV0StrlenSize
  · rw [if_pos hlong] at h
    cases h
  have hlen : s.length ≤ 100 := by
    rw [clientUserIdV0StrlenSize] at hlong
    omega
  rw [if_neg hlong] at h
  simp only [clientUserIdV0StrlenSize, Nat.add_one_sub_one, List.take_of_length_le hlen] at h
  by_cases hregex : RncuiRegex.regexec s = true
  · rw [if_pos hregex] at h
    obtain ⟨u, ws, hu, hfour, hws, rfl⟩ := (RncuiRegex.regexec_iff s).mp hregex
    rw [strtokAll_intercalate hu hws] at h
    match ws, hfour with
    | [a, b, c, d], _ =>
      cases huuid : UuidText.parse u with
      | none =>
        simp only [parseSubs, huuid] at h
        cases h
      | some uuid =>
        rw [parseSubs_four dest huuid] at h
        cases h
        have hwidth : ∀ w ∈ [a, b, c, d], hexWidth (strtoull w).toNat ≤ w.length :=
          fun w hw => hexWidth_strtoull (hws w hw).1
        simp only [List.mem_cons, List.not_mem_nil, or_false, forall_eq_or_imp, forall_eq] at hwidth
        obtain ⟨ha, hb, hc, hd⟩ := hwidth
        simp only [List.intercalate, List.intersperse, List.flatten_cons, List.flatten_nil,
          List.length_append, List.length_cons, List.length_nil, hu.length_eq] at hlen
        have hsum : ClientUserId.digits
            ⟨uuid, ![strtoull a, strtoull b, strtoull c, strtoull d], dest.version⟩ =
            hexWidth (strtoull a).toNat + (hexWidth (strtoull b).toNat +
              (hexWidth (strtoull c).toNat + (hexWidth (strtoull d).toNat + 0))) := rfl
        omega
  · rw [if_neg hregex] at h
    cases h

/-! ## The round trip -/

omit [UuidText] [RncuiRegex] in
theorem cmpWords_self (xs : List Nat) : cmpWords xs xs = 0 := by
  induction xs with
  | nil => rfl
  | cons x xs ih => rw [cmpWords, if_neg (fun h => h rfl), ih]

/-- An id is printed into a buffer of the size that is meant for it, and what is read from there
compares as equal. -/
def RoundTrips (rncui dest : ClientUserId) : Prop :=
  ∃ outString rncui',
    clientUserIdToString rncui clientUserIdV0StrlenSize = (outString, .ok ()) ∧
      clientUserIdParse outString dest 0 = .ok rncui' ∧ clientUserIdCmp rncui' rncui = some 0

/-- The round trip of an id, and that of a text. -/
theorem user_id_round_trip :
    (∀ rncui dest : ClientUserId, RoundTrips rncui dest ↔
      rncui.digits ≤ 60 ∧ rncui.version = 0 ∧ dest.version = 0) ∧
    ∀ s dest rncui, clientUserIdParse s dest 0 = .ok rncui → ∀ dest',
      ∃ outString,
        clientUserIdToString rncui clientUserIdV0StrlenSize = (outString, .ok ()) ∧
          clientUserIdParse outString dest' 0 = .ok { rncui with version := dest'.version } := by
  constructor
  · intro rncui dest
    constructor
    · rintro ⟨outString, rncui', hprint, hparse, hcmp⟩
      rw [clientUserIdToString_eq] at hprint
      by_cases hle : rncui.digits ≤ 60
      · rw [if_pos hle] at hprint
        cases hprint
        rw [clientUserIdParse_text hle] at hparse
        cases hparse
        rw [clientUserIdCmp] at hcmp
        by_cases hversions : dest.version = 0 ∧ rncui.version = 0
        · exact ⟨hle, hversions.2, hversions.1⟩
        · rw [if_neg hversions] at hcmp
          cases hcmp
      · rw [if_neg hle] at hprint
        cases hprint
    · rintro ⟨hle, hversion, hdest⟩
      refine ⟨rncui.text.take 100, _, ?_, clientUserIdParse_text hle dest, ?_⟩
      · rw [clientUserIdToString_eq, if_pos hle]
      · rw [clientUserIdCmp, if_pos ⟨hdest, hversion⟩]
        exact congrArg some (cmpWords_self _)
  · intro s dest rncui h dest'
    have hle := digits_le_of_parse h
    exact ⟨_, by rw [clientUserIdToString_eq, if_pos hle], clientUserIdParse_text hle dest'⟩

omit [UuidText] [RncuiRegex] in
/-- Small words. -/
theorem user_id_round_trip_short :
    @RoundTrips .lower .exact ⟨.null, fun _ => 1, 0⟩ ⟨.null, fun _ => 0, 0⟩ :=
  ((@user_id_round_trip .lower .exact).1 _ _).mpr ⟨by decide, rfl, rfl⟩

omit [UuidText] [RncuiRegex] in
/-- With the largest words, the text does not fit. -/
theorem user_id_round_trip_long :
    ¬@RoundTrips .lower .exact ⟨.null, fun _ => 18446744073709551615, 0⟩ ⟨.null, fun _ => 0, 0⟩ := by
  rintro ⟨outString, rncui', hprint, -⟩
  rw [@clientUserIdToString_eq .lower, if_neg (by decide)] at hprint
  cases hprint

end NiovaRaft.RaftNet
