import Mathlib.Data.FinEnum
import NiovaRaft.Backend.RecoveryMarker

/-!
# The names of checkpoints

A checkpoint's name has the uuids of the database and the peer and twenty digits.  The builder of its
path takes a path as long as the buffer for one that fits, and the last digit is then cut off.  What
the scan reads from such a name is the index without its last digit.
-/

namespace NiovaRaft.RocksDirs

open Base

/-! ## Indexes -/

theorem EntryIdx.unsigned_of_nonneg {i : EntryIdx} (h : 0 ≤ i.1) : (i.unsigned : Int) = i.1 := by
  have hlt := i.2.2
  rw [EntryIdx.unsigned, Int.toNat_of_nonneg (Int.emod_nonneg _ (by decide)),
    Int.emod_eq_of_lt h (by omega)]

theorem EntryIdx.unsigned_lt (i : EntryIdx) : i.unsigned < 2 ^ 64 := by
  have hlt := Int.emod_lt_of_pos i.1 (by decide : (0 : Int) < 2 ^ 64)
  have hpos := Int.emod_nonneg i.1 (by decide : (2 : Int) ^ 64 ≠ 0)
  rw [EntryIdx.unsigned]
  omega

theorem EntryIdx.ofUnsigned_val {n : Nat} (h : n < 2 ^ 63) :
    (EntryIdx.ofUnsigned (UInt64.ofNat n)).1 = n := by
  have hn : (UInt64.ofNat n).toNat = n := by
    rw [UInt64.toNat_ofNat']
    exact Nat.mod_eq_of_lt (by omega)
  rw [EntryIdx.ofUnsigned, dif_pos (by omega)]
  exact congrArg Nat.cast hn

/-! ## Parsing

The uuids are where the separators are replaced with terminators, and the digits go on to the end. -/

section Parsing

variable [UuidText]

theorem zero_not_mem_unparse (u : Uuid) : (0 : UInt8) ∉ UuidText.unparse u :=
  (UuidText.unparse_form u).not_mem (by decide) (by decide)

theorem length_unparse (u : Uuid) : (UuidText.unparse u).length = 36 :=
  (UuidText.unparse_form u).length_eq

/-- A name with any digits. -/
def nameWith (db peer : Uuid) (digits : List UInt8) : List UInt8 :=
  chkptRestoreName db peer ++ underscore :: digits

theorem length_nameWith (db peer : Uuid) (digits : List UInt8) :
    (nameWith db peer digits).length = 74 + digits.length := by
  rw [nameWith, chkptRestoreName, List.length_append, List.length_append, List.length_cons,
    List.length_cons, length_unparse, length_unparse]
  omega

/-- The buffer that is parsed: both separators are now terminators. -/
theorem parseBuffer_eq (db peer : Uuid) (digits rest : List UInt8) :
    ((resize (nameWith db peer digits ++ 0 :: rest) chkptFilenameLen ++ [0]).set
        (uuidStrLen - 1) 0).set (uuidStrLen * 2 - 1) 0 =
      UuidText.unparse db ++ 0 :: (UuidText.unparse peer ++
        0 :: (resize (digits ++ 0 :: rest) 20 ++ [0])) := by
  have hdb := length_unparse db
  have hpeer := length_unparse peer
  have hfront : nameWith db peer digits ++ 0 :: rest =
      (UuidText.unparse db ++ underscore :: (UuidText.unparse peer ++ [underscore])) ++
        (digits ++ 0 :: rest) := by
    simp [nameWith, chkptRestoreName]
  have hlen : (UuidText.unparse db ++ underscore :: (UuidText.unparse peer ++ [underscore])).length =
      74 := by
    simp [hdb, hpeer]
  rw [hfront, show chkptFilenameLen = 74 + 20 from rfl, resize_append hlen]
  have hfirst : (UuidText.unparse db ++ underscore :: (UuidText.unparse peer ++ [underscore])) ++
      resize (digits ++ 0 :: rest) 20 ++ [0] =
      UuidText.unparse db ++ underscore :: (UuidText.unparse peer ++
        underscore :: (resize (digits ++ 0 :: rest) 20 ++ [0])) := by
    simp
  rw [hfirst, show uuidStrLen - 1 = 36 from rfl, set_append_cons hdb]
  have hsecond : ∀ tail : List UInt8, UuidText.unparse db ++ 0 :: (UuidText.unparse peer ++ tail) =
      (UuidText.unparse db ++ 0 :: UuidText.unparse peer) ++ tail := by
    intro tail
    simp
  have hlen' : (UuidText.unparse db ++ 0 :: UuidText.unparse peer).length = 73 := by
    simp [hdb, hpeer]
  rw [hsecond, show uuidStrLen * 2 - 1 = 73 from rfl, set_append_cons hlen', hsecond]

/-- An entry with a whole name is long enough. -/
theorem dReclen_of_nameWith {dent : Dirent} {db peer : Uuid} {n : Nat}
    (h : dent.dName = nameWith db peer (decimal 20 n)) : chkptFilenameLen ≤ dent.dReclen := by
  have hlen := dent.dReclen_ge
  rw [h, length_nameWith, length_decimal] at hlen
  rw [show chkptFilenameLen = 94 from rfl]
  omega

variable [DecimalText]

/-- An entry with up to twenty digits is read as what the digits stand for. -/
theorem chkptScanParseEntry_nameWith {dent : Dirent} (hdir : dent.dType = .dir) {db peer : Uuid}
    {digits : List UInt8} (hname : dent.dName = nameWith db peer digits)
    (hlen : digits.length ≤ 20) (hfit : chkptFilenameLen ≤ dent.dReclen) (hzero : 0 ∉ digits) :
    chkptScanParseEntry dent =
      match DecimalText.toUnsignedLongLong digits with
      | some idx => .ok (db, peer, EntryIdx.ofUnsigned idx)
      | none => .error (-EBADMSG) := by
  have hdigits : cstr (resize (digits ++ 0 :: dent.rest) 20 ++ [0]) = digits := by
    obtain ⟨k, hk⟩ : ∃ k, 20 = digits.length + k := ⟨20 - digits.length, by omega⟩
    rw [hk, resize_append rfl]
    cases k with
    | zero =>
      show cstr (digits ++ [] ++ [0]) = digits
      rw [List.append_nil]
      exact cstr_append_zero hzero []
    | succ k =>
      rw [List.append_assoc]
      exact cstr_append_zero hzero _
  have hdb := length_unparse db
  have hpeer := length_unparse peer
  have hdrop : ∀ tail : List UInt8,
      (UuidText.unparse db ++ 0 :: tail).drop uuidStrLen = tail := by
    intro tail
    rw [show uuidStrLen = 36 + 1 from rfl, ← hdb, ← List.drop_drop, List.drop_left]
    rfl
  have hdrop' : ∀ tail : List UInt8,
      (UuidText.unparse db ++ 0 :: (UuidText.unparse peer ++ 0 :: tail)).drop (uuidStrLen * 2) =
        tail := by
    intro tail
    rw [show uuidStrLen * 2 = uuidStrLen + (36 + 1) from rfl, ← List.drop_drop, hdrop, ← hpeer,
      ← List.drop_drop, List.drop_left]
    rfl
  rw [chkptScanParseEntry, if_neg (Nat.not_lt.mpr hfit), if_neg (by simp [hdir])]
  simp only [Dirent.dNameBytes, hname, parseBuffer_eq, cstr_append_zero (zero_not_mem_unparse db),
    hdrop, hdrop', cstr_append_zero (zero_not_mem_unparse peer), hdigits, UuidText.parse_unparse]
  cases DecimalText.toUnsignedLongLong digits <;> rfl

/-- An entry that is no directory is refused. -/
theorem chkptScanParseEntry_other {dent : Dirent} (hdir : dent.dType ≠ .dir) :
    ∃ rc, chkptScanParseEntry dent = .error rc := by
  rw [chkptScanParseEntry]
  by_cases hlen : dent.dReclen < chkptFilenameLen
  · exact ⟨_, if_pos hlen⟩
  · rw [if_neg hlen]
    exact ⟨_, if_pos hdir⟩

end Parsing

/-! ## Paths -/

theorem not_mem_slash_decimal (w n : Nat) : slash ∉ decimal w n := not_mem_decimal (by decide) w n

theorem zero_not_mem_decimal (w n : Nat) : (0 : UInt8) ∉ decimal w n :=
  not_mem_decimal (by decide) w n

section Paths

variable [UuidText]

theorem chkptName_eq {idx : Nat} (h : idx < 10 ^ 20) (db peer : Uuid) :
    chkptName db peer idx = nameWith db peer (decimal 20 idx) := by
  rw [chkptName, zeroPadded_eq (by decide) h, nameWith]

theorem not_mem_slash_nameWith (db peer : Uuid) {digits : List UInt8} (h : slash ∉ digits) :
    slash ∉ nameWith db peer digits := by
  rw [nameWith, List.mem_append, List.mem_cons]
  rintro (hname | hsep | hdigits)
  · exact not_mem_slash_chkptRestoreName db peer hname
  · exact absurd hsep (by decide)
  · exact h hdigits

/-- The directory of the server's own checkpoints. -/
def selfDir (base : List UInt8) : List UInt8 := base ++ slash :: subdirChkptSelf

/-- The length of a whole path: twelve bytes for the directory, 94 for the name. -/
theorem length_selfPath (base : List UInt8) (db peer : Uuid) (n : Nat) :
    (selfDir base ++ slash :: nameWith db peer (decimal 20 n)).length = base.length + 106 := by
  rw [selfDir, List.length_append, List.length_append, List.length_cons, List.length_cons,
    length_nameWith, length_decimal]
  rfl

theorem checkpointPathBuild_self_eq {base : List UInt8} {peer db : Uuid} {idx : EntryIdx} {len : Nat}
    (h : ¬(peer = Uuid.null ∨ db = Uuid.null ∨ len = 0 ∨ idx.1 < 0)) :
    checkpointPathBuild base peer db idx true false len =
      ((selfDir base ++ slash :: nameWith db peer (decimal 20 idx.unsigned)).take (len - 1),
        if base.length + 106 > len then -ENAMETOOLONG else 0) := by
  have hlt : idx.unsigned < 10 ^ 20 := Nat.lt_trans idx.unsigned_lt (by decide)
  have hpath : base ++ slash :: subdirChkptSelf ++ slash :: ([] : List UInt8) ++
      chkptName db peer idx.unsigned =
        selfDir base ++ slash :: nameWith db peer (decimal 20 idx.unsigned) := by
    rw [chkptName_eq hlt, selfDir]
    simp
  rw [checkpointPathBuild, if_neg h, ← length_selfPath base db peer idx.unsigned, ← hpath]
  rfl

/-! ### Names that were cut off -/

/-- The path is as long as the buffer. -/
def Fills (base : List UInt8) (len : Nat) : Prop := base.length + 106 = len

theorem args_of_build {base : List UInt8} {peer db : Uuid} {idx : EntryIdx} {len : Nat}
    (h : (checkpointPathBuild base peer db idx true false len).2 = 0) :
    ¬(peer = Uuid.null ∨ db = Uuid.null ∨ len = 0 ∨ idx.1 < 0) := by
  intro hargs
  rw [checkpointPathBuild, if_pos hargs] at h
  have hrc : -EINVAL = 0 := h
  exact absurd hrc (by decide)

theorem length_le_of_build {base : List UInt8} {peer db : Uuid} {idx : EntryIdx} {len : Nat}
    (h : (checkpointPathBuild base peer db idx true false len).2 = 0) : base.length + 106 ≤ len := by
  rw [checkpointPathBuild_self_eq (args_of_build h)] at h
  by_contra hlong
  have hrc : -ENAMETOOLONG = 0 := (if_pos (Nat.not_le.mp hlong)).symm.trans h
  exact absurd hrc (by decide)

/-- The whole name, or all of it but the last digit. -/
theorem lastComponent_checkpointPathBuild {base : List UInt8} {peer db : Uuid} {idx : EntryIdx}
    {len : Nat} (h : (checkpointPathBuild base peer db idx true false len).2 = 0) :
    (¬Fills base len ∧
      lastComponent (checkpointPathBuild base peer db idx true false len).1 =
        nameWith db peer (decimal 20 idx.unsigned)) ∨
    (Fills base len ∧
      lastComponent (checkpointPathBuild base peer db idx true false len).1 =
        nameWith db peer (decimal 19 (idx.unsigned / 10))) := by
  have hle := length_le_of_build h
  have hlen := length_selfPath base db peer idx.unsigned
  rw [checkpointPathBuild_self_eq (args_of_build h)]
  by_cases hfills : Fills base len
  · refine .inr ⟨hfills, ?_⟩
    have hsplit : selfDir base ++ slash :: nameWith db peer (decimal 20 idx.unsigned) =
        (selfDir base ++ slash :: nameWith db peer (decimal 19 (idx.unsigned / 10))) ++
          [digitByte idx.unsigned] := by
      rw [decimal_succ_eq]
      simp [nameWith]
    have hcut : len - 1 =
        (selfDir base ++ slash :: nameWith db peer (decimal 19 (idx.unsigned / 10))).length := by
      rw [hsplit, List.length_append, List.length_singleton] at hlen
      rw [Fills] at hfills
      omega
    show lastComponent (List.take (len - 1) _) = _
    rw [hsplit, hcut, List.take_left]
    exact lastComponent_append (not_mem_slash_nameWith db peer (not_mem_slash_decimal _ _)) _
  · refine .inl ⟨hfills, ?_⟩
    rw [Fills] at hfills
    show lastComponent (List.take (len - 1) _) = _
    rw [List.take_of_length_le (by omega)]
    exact lastComponent_append (not_mem_slash_nameWith db peer (not_mem_slash_decimal _ _)) _

theorem unparse_inj {u v : Uuid} (h : UuidText.unparse u = UuidText.unparse v) : u = v := by
  have hu := UuidText.parse_unparse u
  rw [h, UuidText.parse_unparse] at hu
  exact (Option.some.inj hu).symm

theorem nameWith_inj {db peer db' peer' : Uuid} {digits digits' : List UInt8}
    (h : nameWith db peer digits = nameWith db' peer' digits') :
    db = db' ∧ peer = peer' ∧ digits = digits' := by
  simp only [nameWith, chkptRestoreName, List.append_assoc, List.cons_append] at h
  obtain ⟨hdb, h⟩ := List.append_inj h (by rw [length_unparse, length_unparse])
  obtain ⟨hpeer, h⟩ := List.append_inj (List.cons.inj h).2 (by rw [length_unparse, length_unparse])
  exact ⟨unparse_inj hdb, unparse_inj hpeer, (List.cons.inj h).2⟩

end Paths

/-! ## The round trip -/

/-- What a path is built from, for a checkpoint of the server itself. -/
structure PathArgs where
  base : List UInt8
  peer : Uuid
  db : Uuid
  idx : EntryIdx
  len : Nat

section RoundTrip

variable [UuidText]

/-- The buffer, and what is returned. -/
def PathArgs.build (a : PathArgs) : List UInt8 × Int :=
  checkpointPathBuild a.base a.peer a.db a.idx true false a.len

/-- The name of the directory. -/
def PathArgs.name (a : PathArgs) : List UInt8 := lastComponent a.build.1

/-- Names differ where the checkpoints do. -/
def Distinguished (a b : PathArgs) : Prop :=
  a.name = b.name → a.db = b.db ∧ a.peer = b.peer ∧ a.idx = b.idx

theorem unsigned_of_build {a : PathArgs} (h : a.build.2 = 0) : (a.idx.unsigned : Int) = a.idx.1 :=
  EntryIdx.unsigned_of_nonneg (Int.not_lt.mp fun hneg => args_of_build h (.inr (.inr (.inr hneg))))

theorem unsigned_lt_of_build {a : PathArgs} (h : a.build.2 = 0) : a.idx.unsigned < 2 ^ 63 := by
  have heq := unsigned_of_build h
  have hlt := a.idx.2.2
  omega

theorem distinguished_iff {a b : PathArgs} (ha : a.build.2 = 0) (hb : b.build.2 = 0) :
    Distinguished a b ↔ ¬(Fills a.base a.len ∧ Fills b.base b.len) ∨ a.db ≠ b.db ∨
      a.peer ≠ b.peer ∨ a.idx = b.idx ∨ a.idx.1 / 10 ≠ b.idx.1 / 10 := by
  have hidxa := unsigned_of_build ha
  have hidxb := unsigned_of_build hb
  have hlta := unsigned_lt_of_build ha
  have hltb := unsigned_lt_of_build hb
  constructor
  · intro hdist
    by_contra hcond
    simp only [not_or, not_not, ne_eq] at hcond
    obtain ⟨⟨hfa, hfb⟩, hdb, hpeer, hidx, hdiv⟩ := hcond
    obtain ⟨hna, -⟩ | ⟨-, hna⟩ := lastComponent_checkpointPathBuild ha
    · exact hna hfa
    obtain ⟨hnb, -⟩ | ⟨-, hnb⟩ := lastComponent_checkpointPathBuild hb
    · exact hnb hfb
    have hcut : a.idx.unsigned / 10 = b.idx.unsigned / 10 := by omega
    refine hidx (hdist ?_).2.2
    rw [PathArgs.name, PathArgs.name, PathArgs.build, PathArgs.build, hna, hnb, hdb, hpeer, hcut]
  · intro hcond hname
    rw [PathArgs.name, PathArgs.name, PathArgs.build, PathArgs.build] at hname
    obtain ⟨hfa, hna⟩ | ⟨hfa, hna⟩ := lastComponent_checkpointPathBuild ha <;>
      obtain ⟨hfb, hnb⟩ | ⟨hfb, hnb⟩ := lastComponent_checkpointPathBuild hb <;>
      rw [hna, hnb] at hname <;> obtain ⟨hdb, hpeer, hdigits⟩ := nameWith_inj hname
    · have hidx := decimal_inj (by omega) (by omega) hdigits
      exact ⟨hdb, hpeer, Subtype.ext (by omega)⟩
    · exact absurd (congrArg List.length hdigits) (by simp)
    · exact absurd (congrArg List.length hdigits) (by simp)
    · have hcut := decimal_inj (by omega) (by omega) hdigits
      obtain hnot | hne | hne | heq | hne := hcond
      · exact absurd ⟨hfa, hfb⟩ hnot
      · exact absurd hdb hne
      · exact absurd hpeer hne
      · exact ⟨hdb, hpeer, heq⟩
      · exact absurd (by omega) hne

variable [DecimalText]

/-- The scan reads what the name was made from. -/
def ReadBack (a : PathArgs) : Prop :=
  ∀ dent : Dirent, dent.dName = a.name → dent.dType = .dir → chkptFilenameLen ≤ dent.dReclen →
    chkptScanParseEntry dent = .ok (a.db, a.peer, a.idx)

/-- What the scan reads from a name with digits. -/
theorem chkptScanParseEntry_decimal {dent : Dirent} (hdir : dent.dType = .dir)
    (hfit : chkptFilenameLen ≤ dent.dReclen) {db peer : Uuid} {w n : Nat} (hw : 0 < w)
    (hw' : w ≤ 20) (hn : n < 10 ^ w) (hlt : n < 2 ^ 64)
    (hname : dent.dName = nameWith db peer (decimal w n)) :
    chkptScanParseEntry dent = .ok (db, peer, EntryIdx.ofUnsigned (UInt64.ofNat n)) := by
  rw [chkptScanParseEntry_nameWith hdir hname (by simpa using hw') hfit (zero_not_mem_decimal w n),
    DecimalText.toUnsignedLongLong_decimal w n hw hn, if_pos hlt]

theorem readBack_iff {a : PathArgs} (ha : a.build.2 = 0) :
    ReadBack a ↔ ¬Fills a.base a.len ∨ a.idx.1 = 0 := by
  have hidx := unsigned_of_build ha
  have hlt := unsigned_lt_of_build ha
  obtain ⟨hfills, hname⟩ | ⟨hfills, hname⟩ := lastComponent_checkpointPathBuild ha
  · refine iff_of_true (fun dent hdent hdir hfit => ?_) (.inl hfills)
    rw [chkptScanParseEntry_decimal hdir hfit (by decide) (by decide) (by omega) (by omega)
      (hdent.trans hname)]
    have heq : EntryIdx.ofUnsigned (UInt64.ofNat a.idx.unsigned) = a.idx :=
      Subtype.ext ((EntryIdx.ofUnsigned_val hlt).trans hidx)
    rw [heq]
  · have hval : (EntryIdx.ofUnsigned (UInt64.ofNat (a.idx.unsigned / 10))).1 =
        (a.idx.unsigned / 10 : Nat) := EntryIdx.ofUnsigned_val (by omega)
    have hread : ∀ dent : Dirent, dent.dName = a.name → dent.dType = .dir →
        chkptFilenameLen ≤ dent.dReclen → chkptScanParseEntry dent =
          .ok (a.db, a.peer, EntryIdx.ofUnsigned (UInt64.ofNat (a.idx.unsigned / 10))) :=
      fun dent hdent hdir hfit => chkptScanParseEntry_decimal hdir hfit (by decide) (by decide)
        (by omega) (by omega) (hdent.trans hname)
    constructor
    · intro hback
      let dent : Dirent :=
        ⟨a.name, .dir, 19 + a.name.length + 1 + chkptFilenameLen, [], Nat.le_add_right _ _⟩
      have hfit : chkptFilenameLen ≤ dent.dReclen := Nat.le_add_left _ _
      have heq := (hread dent rfl rfl hfit).symm.trans (hback dent rfl rfl hfit)
      have hidx' : (EntryIdx.ofUnsigned (UInt64.ofNat (a.idx.unsigned / 10))).1 = a.idx.1 :=
        congrArg Subtype.val (Prod.mk.inj (Prod.mk.inj (Except.ok.inj heq)).2).2
      exact .inr (by omega)
    · rintro (hnot | hzero)
      · exact absurd hfills hnot
      · intro dent hdent hdir hfit
        have heq : EntryIdx.ofUnsigned (UInt64.ofNat (a.idx.unsigned / 10)) = a.idx :=
          Subtype.ext (by omega)
        rw [hread dent hdent hdir hfit, heq]

/-- Names are read back and told apart, unless a path fills its buffer. -/
theorem checkpoint_name_round_trip {a b : PathArgs} (ha : a.build.2 = 0) (hb : b.build.2 = 0) :
    (ReadBack a ↔ ¬Fills a.base a.len ∨ a.idx.1 = 0) ∧
      (Distinguished a b ↔ ¬(Fills a.base a.len ∧ Fills b.base b.len) ∨ a.db ≠ b.db ∨
        a.peer ≠ b.peer ∨ a.idx = b.idx ∨ a.idx.1 / 10 ≠ b.idx.1 / 10) :=
  ⟨readBack_iff ha, distinguished_iff ha hb⟩

end RoundTrip

/-! ## Two paths -/

/-- A decimal that fits. -/
def decimalText (t : List UInt8) : Option UInt64 :=
  if t ≠ [] ∧ (∀ b ∈ t, 48 ≤ b ∧ b ≤ 57) ∧ readDecimal 0 t < 2 ^ 64 then
    some (UInt64.ofNat (readDecimal 0 t))
  else none

theorem decimalText_decimal (w n : Nat) (hw : 0 < w) (hn : n < 10 ^ w) :
    decimalText (decimal w n) = if n < 2 ^ 64 then some (UInt64.ofNat n) else none := by
  have hread := readDecimal_decimal w n 0 []
  rw [List.append_nil, Nat.zero_mul, Nat.zero_add, Nat.mod_eq_of_lt hn, readDecimal] at hread
  have hne : decimal w n ≠ [] := by
    intro hnil
    have hlen := length_decimal w n
    rw [hnil] at hlen
    exact absurd hlen.symm (Nat.ne_of_gt hw)
  have hdigits : ∀ b ∈ decimal w n, 48 ≤ b ∧ b ≤ 57 := by
    intro b hb
    by_contra hnot
    exact not_mem_decimal hnot w n hb
  rw [decimalText, hread]
  by_cases hlt : n < 2 ^ 64
  · rw [if_pos ⟨hne, hdigits, hlt⟩, if_pos hlt]
  · rw [if_neg (fun h => hlt h.2.2), if_neg hlt]

@[reducible] def DecimalText.usual : DecimalText := ⟨decimalText, decimalText_decimal⟩

/-- Checkpoints `7` and `8` in `/raft`, with a buffer of a given size. -/
def sevenArgs (len : Nat) : PathArgs :=
  ⟨ascii "/raft".toList, onesUuid, twosUuid, ⟨7, by decide⟩, len⟩
def eightArgs (len : Nat) : PathArgs :=
  ⟨ascii "/raft".toList, onesUuid, twosUuid, ⟨8, by decide⟩, len⟩

theorem checkpoint_name_round_trip_in_raft :
    (@ReadBack .lower .usual (sevenArgs 4096) ↔
      ¬Fills (sevenArgs 4096).base 4096 ∨ (sevenArgs 4096).idx.1 = 0) ∧
    (@Distinguished .lower (sevenArgs 4096) (eightArgs 4096) ↔
      ¬(Fills (sevenArgs 4096).base 4096 ∧ Fills (eightArgs 4096).base 4096) ∨ twosUuid ≠ twosUuid ∨
        onesUuid ≠ onesUuid ∨ (sevenArgs 4096).idx = (eightArgs 4096).idx ∨
          (7 : Int) / 10 ≠ (8 : Int) / 10) :=
  @checkpoint_name_round_trip .lower .usual (sevenArgs 4096) (eightArgs 4096) (by decide) (by decide)

/-- In a buffer of 111 bytes both paths are accepted, and neither index is read back. -/
theorem checkpoint_name_cut_off :
    (@PathArgs.build .lower (sevenArgs 111)).2 = 0 ∧ (@PathArgs.build .lower (eightArgs 111)).2 = 0 ∧
      ¬@ReadBack .lower .usual (sevenArgs 111) ∧
      ¬@Distinguished .lower (sevenArgs 111) (eightArgs 111) := by
  have hseven : (@PathArgs.build .lower (sevenArgs 111)).2 = 0 := by decide
  have hnext : (@PathArgs.build .lower (eightArgs 111)).2 = 0 := by decide
  refine ⟨hseven, hnext, ?_, ?_⟩
  · rw [@readBack_iff .lower .usual (sevenArgs 111) hseven]
    rintro (hnot | hzero)
    · exact hnot rfl
    · exact absurd hzero (by decide)
  · intro hdist
    exact absurd (hdist (by decide)).2.2 (by decide)

end NiovaRaft.RocksDirs
