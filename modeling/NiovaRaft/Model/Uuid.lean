import NiovaRaft.Base.Hex

/-!
# Uuids

`libuuid` prints and reads uuids.  What is used of it: a uuid is printed as 32 hexadecimal digits in
five groups, nothing else is read as one, and what was printed is read back.
-/

namespace NiovaRaft

open Base

/-- `uuid_t`. -/
structure Uuid where
  bytes : List UInt8
  length_bytes : bytes.length = 16
deriving DecidableEq

/-- The null uuid. -/
def Uuid.null : Uuid := ⟨List.replicate 16 0, rfl⟩

/-! ## Texts -/

/-- The separator of the groups. -/
def uuidSep : UInt8 := 45

/-- Five groups of digits. -/
def UuidGroups (gs : List (List UInt8)) : Prop :=
  gs.map List.length = [8, 4, 4, 4, 12] ∧ ∀ g ∈ gs, HexDigits g

instance (gs : List (List UInt8)) : Decidable (UuidGroups gs) :=
  inferInstanceAs (Decidable (_ ∧ _))

/-- The form of a uuid's text. -/
def UuidForm (t : List UInt8) : Prop := ∃ gs, UuidGroups gs ∧ t = [uuidSep].intercalate gs

/-- `uuid_unparse` and `uuid_parse`. -/
class UuidText where
  unparse : Uuid → List UInt8
  parse : List UInt8 → Option Uuid
  unparse_form : ∀ u, UuidForm (unparse u)
  parse_form : ∀ t u, parse t = some u → UuidForm t
  parse_unparse : ∀ u, parse (unparse u) = some u

theorem UuidGroups.eq {gs : List (List UInt8)} (h : UuidGroups gs) :
    ∃ a b c d e, gs = [a, b, c, d, e] ∧ a.length = 8 ∧ b.length = 4 ∧ c.length = 4 ∧
      d.length = 4 ∧ e.length = 12 := by
  obtain ⟨hlen, -⟩ := h
  have hfive : gs.length = 5 := by simpa using congrArg List.length hlen
  match gs, hfive with
  | [a, b, c, d, e], _ =>
    simp only [List.map_cons, List.map_nil, List.cons.injEq, and_true] at hlen
    exact ⟨a, b, c, d, e, rfl, hlen⟩

theorem UuidForm.length_eq {t : List UInt8} (h : UuidForm t) : t.length = 36 := by
  obtain ⟨gs, hgs, rfl⟩ := h
  obtain ⟨a, b, c, d, e, rfl, ha, hb, hc, hd, he⟩ := hgs.eq
  simp [List.intercalate, List.intersperse, ha, hb, hc, hd, he]

/-- A text begins with a digit. -/
theorem UuidForm.head {t : List UInt8} (h : UuidForm t) :
    ∃ b rest, t = b :: rest ∧ (hexVal b).isSome = true := by
  obtain ⟨gs, hgs, rfl⟩ := h
  obtain ⟨a, b, c, d, e, rfl, ha, -⟩ := hgs.eq
  cases a with
  | nil => cases ha
  | cons x a => exact ⟨x, _, rfl, hgs.2 (x :: a) List.mem_cons_self x List.mem_cons_self⟩

/-- A byte that is neither a digit nor the separator. -/
theorem UuidForm.not_mem {t : List UInt8} (h : UuidForm t) {x : UInt8} (hx : hexVal x = none)
    (hsep : x ≠ uuidSep) : x ∉ t := by
  obtain ⟨gs, hgs, rfl⟩ := h
  intro hmem
  obtain ⟨a, b, c, d, e, rfl, -⟩ := hgs.eq
  have hnone : ∀ g ∈ [a, b, c, d, e], x ∉ g := fun g hg => (hgs.2 g hg).not_mem hx
  simp only [List.mem_cons, List.not_mem_nil, or_false, forall_eq_or_imp, forall_eq] at hnone
  obtain ⟨ha, hb, hc, hd, he⟩ := hnone
  simp [List.intercalate, List.intersperse, hsep, ha, hb, hc, hd, he] at hmem

/-- The groups are what lies between the separators. -/
theorem uuidForm_iff {t : List UInt8} : UuidForm t ↔ UuidGroups (t.splitOn uuidSep) := by
  constructor
  · rintro ⟨gs, hgs, rfl⟩
    have hsep : ∀ g ∈ gs, uuidSep ∉ g := fun g hg => (hgs.2 g hg).not_mem (by decide)
    obtain ⟨a, b, c, d, e, rfl, -⟩ := hgs.eq
    rwa [List.splitOn_intercalate uuidSep hsep (List.cons_ne_nil _ _)]
  · intro h
    exact ⟨_, h, (List.intercalate_splitOn uuidSep).symm⟩

instance (t : List UInt8) : Decidable (UuidForm t) := decidable_of_iff _ uuidForm_iff.symm

/-! ## The usual text

The digits of the bytes in order, in lower case. -/

namespace UuidText

/-- The bytes of the groups. -/
def groups (bs : List UInt8) : List (List UInt8) :=
  [bs.take 4, (bs.drop 4).take 2, (bs.drop 6).take 2, (bs.drop 8).take 2, bs.drop 10]

theorem flatten_groups (bs : List UInt8) : (groups bs).flatten = bs := by
  have hstep : ∀ i k, (bs.drop i).take k ++ bs.drop (i + k) = bs.drop i := by
    intro i k
    rw [← List.drop_drop, List.take_append_drop]
  simp only [groups, List.flatten_cons, List.flatten_nil, List.append_nil]
  rw [hstep 8 2, hstep 6 2, hstep 4 2, List.take_append_drop]

def lowerUnparse (u : Uuid) : List UInt8 := [uuidSep].intercalate ((groups u.bytes).map hexBytes)

def lowerParse (t : List UInt8) : Option Uuid :=
  let gs := t.splitOn uuidSep
  if h : UuidGroups gs ∧ (unhexBytes gs.flatten).length = 16 then some ⟨_, h.2⟩ else none

theorem uuidGroups_hexBytes (u : Uuid) : UuidGroups ((groups u.bytes).map hexBytes) := by
  constructor
  · simp [groups, u.length_bytes]
  · intro g hg
    obtain ⟨bs, -, rfl⟩ := List.mem_map.mp hg
    exact hexDigits_hexBytes bs

theorem splitOn_lowerUnparse (u : Uuid) :
    (lowerUnparse u).splitOn uuidSep = (groups u.bytes).map hexBytes := by
  refine List.splitOn_intercalate uuidSep (fun g hg => ?_) (List.cons_ne_nil _ _)
  exact ((uuidGroups_hexBytes u).2 g hg).not_mem (by decide)

theorem flatten_map_hexBytes (gs : List (List UInt8)) :
    (gs.map hexBytes).flatten = hexBytes gs.flatten := by
  induction gs with
  | nil => rfl
  | cons g gs ih => rw [List.map_cons, List.flatten_cons, ih, List.flatten_cons, hexBytes_append]

theorem lowerParse_lowerUnparse (u : Uuid) : lowerParse (lowerUnparse u) = some u := by
  have hbytes : unhexBytes ((groups u.bytes).map hexBytes).flatten = u.bytes := by
    rw [flatten_map_hexBytes, flatten_groups, unhexBytes_hexBytes]
  simp only [lowerParse, splitOn_lowerUnparse, hbytes]
  exact dif_pos ⟨uuidGroups_hexBytes u, u.length_bytes⟩

theorem lowerParse_form {t : List UInt8} {u : Uuid} (h : lowerParse t = some u) : UuidForm t := by
  rw [lowerParse] at h
  by_cases hcond : UuidGroups (t.splitOn uuidSep) ∧
      (unhexBytes (t.splitOn uuidSep).flatten).length = 16
  · exact uuidForm_iff.mpr hcond.1
  · simp only [dif_neg hcond] at h
    cases h

/-- The usual functions. -/
@[reducible] def lower : UuidText :=
  ⟨lowerUnparse, lowerParse, fun u => ⟨_, uuidGroups_hexBytes u, rfl⟩,
    fun _ _ h => lowerParse_form h, lowerParse_lowerUnparse⟩

end UuidText

end NiovaRaft
