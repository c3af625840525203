import NiovaRaft.Model.RocksLog

/-!
# The order of the keys

Keys are compared byte by byte.  The records of the database come first, then the entries in the
order of their indexes, and the marker of the log's end comes last.  The two keys of an entry are next
to each other.
-/

namespace NiovaRaft

open Base

namespace Rocks

/-! ## Entries -/

/-- The keys of the entries are in the order of the indexes, and those of one entry in the order of
their last bytes. -/
theorem entryKeyWith_lt_iff {c d : UInt8} {i j : Nat} (hi : i < 10 ^ 16) (hj : j < 10 ^ 16) :
    entryKeyWith c i < entryKeyWith d j ↔ i < j ∨ i = j ∧ c < d := by
  have hlt : ∀ {c d : UInt8} {i j : Nat}, i < 10 ^ 16 → j < 10 ^ 16 → i < j →
      entryKeyWith c i < entryKeyWith d j := by
    intro c d i j hi hj h
    rw [entryKeyWith, entryKeyWith, append_lt_append_iff, zeroPadded_eq (by decide) hi,
      zeroPadded_eq (by decide) hj]
    refine append_lt_append_of_lt (by simp) ?_ _ _
    rwa [decimal_lt_decimal, Nat.mod_eq_of_lt hi, Nat.mod_eq_of_lt hj]
  rcases Nat.lt_trichotomy i j with h | rfl | h
  · exact iff_of_true (hlt hi hj h) (.inl h)
  · rw [entryKeyWith, entryKeyWith, append_lt_append_iff, append_lt_append_iff,
      List.cons_lt_cons_iff]
    simp
  · refine iff_of_false (not_lt_of_gt (hlt hj hi h)) ?_
    omega

theorem indexOfKey_entryKeyWith {c : UInt8} (hc : ¬(48 ≤ c ∧ c ≤ 57)) (i : Nat) :
    indexOfKey (entryKeyWith c i) = i := by
  rw [indexOfKey, entryKeyWith, List.drop_left]
  exact readDecimal_zeroPadded 16 i [] hc

/-- A key of the log, between the records of the database and the end marker. -/
def InLog (key : Key) : Prop := headerEnd ≤ key ∧ key < lastEntry

theorem headerEnd_lt_entryKeyWith (c : UInt8) (i : Nat) (x : List UInt8) :
    headerEnd ++ x < entryKeyWith c i :=
  cons_lt_cons_of_lt (by decide : (97 : UInt8) < 101) _ _

theorem entryKeyWith_lt_lastEntry (c : UInt8) (i : Nat) (x : List UInt8) :
    entryKeyWith c i < lastEntry ++ x :=
  cons_lt_cons_of_lt (by decide : (101 : UInt8) < 122) _ _

theorem headerEnd_lt_lastEntry (x y : List UInt8) : headerEnd ++ x < lastEntry ++ y :=
  cons_lt_cons_of_lt (by decide : (97 : UInt8) < 122) _ _

theorem inLog_entryKeyWith (c : UInt8) (i : Nat) : InLog (entryKeyWith c i) := by
  refine ⟨le_of_lt ?_, ?_⟩
  · simpa using headerEnd_lt_entryKeyWith c i []
  · simpa using entryKeyWith_lt_lastEntry c i []

theorem entryKeyWith_inj {c d : UInt8} (hc : ¬(48 ≤ c ∧ c ≤ 57)) (hd : ¬(48 ≤ d ∧ d ≤ 57))
    {i j : Nat} : entryKeyWith c i = entryKeyWith d j ↔ i = j ∧ c = d := by
  constructor
  · intro h
    have hidx : i = j := by
      rw [← indexOfKey_entryKeyWith hc i, h, indexOfKey_entryKeyWith hd]
    subst hidx
    simpa [entryKeyWith] using h
  · rintro ⟨rfl, rfl⟩
    rfl

@[simp] theorem entryKey_inj {i j : Nat} : entryKey i = entryKey j ↔ i = j := by
  rw [entryKey, entryKeyWith_inj (by decide) (by decide), and_iff_left rfl]

@[simp] theorem entryHeaderKey_inj {i j : Nat} : entryHeaderKey i = entryHeaderKey j ↔ i = j := by
  rw [entryHeaderKey, entryKeyWith_inj (by decide) (by decide), and_iff_left rfl]

@[simp] theorem entryKey_ne_entryHeaderKey (i j : Nat) : entryKey i ≠ entryHeaderKey j := by
  rw [entryKey, entryHeaderKey, Ne, entryKeyWith_inj (by decide) (by decide)]
  exact fun h => absurd h.2 (by decide)

/-- A record of the database itself. -/
theorem inLog_headerEnd_append (x : List UInt8) : InLog (headerEnd ++ x) := by
  refine ⟨?_, by simpa using headerEnd_lt_lastEntry x []⟩
  cases x with
  | nil => rw [List.append_nil]
  | cons b x =>
    refine le_of_lt ?_
    have hlt := (append_lt_append_iff headerEnd [] (b :: x)).mpr (List.nil_lt_cons ..)
    rwa [List.append_nil] at hlt

/-- Which entries a bound of the lower suffix divides. -/
theorem entryKey_le_iff {c : UInt8} (hc : c = 101 ∨ c = 104) {i j : Nat} (hi : i < 10 ^ 16)
    (hj : j < 10 ^ 16) : entryKey i ≤ entryKeyWith c j ↔ i ≤ j := by
  have hnot : ¬c < 101 := by
    rcases hc with rfl | rfl <;> decide
  rw [← not_lt, entryKey, entryKeyWith_lt_iff hj hi]
  constructor
  · intro h
    by_contra hlt
    exact h (.inl (by omega))
  · rintro hle (hlt | ⟨-, hlt⟩)
    · omega
    · exact hnot hlt

/-- The records of the database are none of an entry. -/
theorem headerEnd_append_ne_entryKeyWith (x : List UInt8) (c : UInt8) (i : Nat) :
    headerEnd ++ x ≠ entryKeyWith c i :=
  ne_of_lt (headerEnd_lt_entryKeyWith c i x)

/-! ## The end of the log -/

theorem lastEntry_prefix_lastEntryKey (raftUuidStr peerUuidStr : List UInt8) :
    lastEntry <+: lastEntryKey raftUuidStr peerUuidStr := by
  rw [lastEntryKey, List.append_assoc, List.append_assoc]
  exact List.prefix_append ..

/-- The end marker is past the log. -/
theorem lastEntry_le_key {key : Key} (h : lastEntry <+: key) : lastEntry ≤ key := by
  obtain ⟨x, rfl⟩ := h
  cases x with
  | nil => rw [List.append_nil]
  | cons b x =>
    have hlt := (append_lt_append_iff lastEntry [] (b :: x)).mpr (List.nil_lt_cons ..)
    rw [List.append_nil] at hlt
    exact le_of_lt hlt

theorem ne_of_inLog {endMarker : Key} (hmarker : lastEntry <+: endMarker) {key : Key} (hkey : InLog key) :
    endMarker ≠ key := by
  rintro rfl
  exact absurd hkey.2 (not_lt_of_ge (lastEntry_le_key hmarker))

/-- The log headers lie below the records of the database. -/
theorem logHeaderKey_lt_headerEnd (raftUuidStr peerUuidStr x : List UInt8) :
    logHeaderKey raftUuidStr peerUuidStr < headerEnd ++ x :=
  List.cons_lt_cons_iff.mpr (.inr ⟨rfl, cons_lt_cons_of_lt (by decide : (48 : UInt8) < 49) _ _⟩)

end Rocks

end NiovaRaft
