import NiovaRaft.Model.PosixLog

/-!
# The log file refines an indexed log

The file of the POSIX backend against what it is for: two copies of the log header and a list of
entries.  Whatever is written, cut off and written again at another length, each slot reads as the
entry it was last given, and the length of the file tells the number of entries.
-/

namespace NiovaRaft

open Base Posix

/-! ## Numbers and fields -/

theorem ofInt64Bytes_int64Bytes {v : Int} (hlow : -2 ^ 63 ≤ v) (hhigh : v < 2 ^ 63) :
    ofInt64Bytes (int64Bytes v) = v := by
  have hval : ofLeBytes (int64Bytes v) = (v % 2 ^ 64).toNat := by
    refine ofLeBytes_leBytes ?_
    simp only [Int.reducePow, Nat.reducePow]
    omega
  rw [ofInt64Bytes, hval]
  simp only [Int.reducePow, Int.reduceNeg, Nat.reducePow] at hlow hhigh ⊢
  split <;> omega

theorem rehIndex_entryHeaderBytes {m : EntryMeta} {crc dataSize : Nat} {index term : Int}
    (hlow : -2 ^ 63 ≤ index) (hhigh : index < 2 ^ 63) :
    rehIndex (entryHeaderBytes m crc dataSize index term) = index := by
  have hpart := slice_flatten (entryHeaderFields m crc dataSize index term) (i := 5) rfl
  simp only [entryHeaderFields, List.map_cons, List.take_succ_cons, List.take_zero, List.sum_cons,
    List.sum_nil, length_leBytes, List.takeD_length, length_int64Bytes] at hpart
  rw [rehIndex, entryHeaderBytes, entryHeaderFields]
  exact (congrArg ofInt64Bytes hpart).trans (ofInt64Bytes_int64Bytes hlow hhigh)

/-- A header block has the index of its slot. -/
theorem rehIndex_headerEntry (crc : List UInt8 → Nat) (m : EntryMeta) (rlh : RaftLogHeader) :
    rehIndex (headerEntry crc m rlh).header = (rlh.seqno % 2 : Nat) - 2 :=
  rehIndex_entryHeaderBytes (by simp only [numRaftLogHeaders]; omega)
    (by simp only [numRaftLogHeaders]; omega)

/-- An entry fits its slot. -/
theorem RawEntry.length_bytes_le (re : RawEntry) :
    0 < re.bytes.length ∧ re.bytes.length ≤ entrySizePosix := by
  have hheader := re.length_header
  have hdata := re.length_data
  simp only [RawEntry.bytes, List.length_append, hheader, entryHeaderSize, entrySizePosix,
    StoreType.entryMaxDataSize] at hdata ⊢
  omega

/-! ## What the file stands for -/

/-- Two copies of the log header and the entries. -/
structure IndexedLog where
  header : Fin 2 → RawEntry
  entries : List RawEntry

/-- The operations on the file. -/
inductive PosixOp where
  | entryWrite (re : RawEntry)
  | logTruncate (entryIdx : Nat)
  | headerWrite (m : EntryMeta) (rlh : RaftLogHeader)

/-- An operation on the file. -/
def PosixOp.onFile (crc : List UInt8 → Nat) (file : List UInt8) : PosixOp → List UInt8
  | entryWrite re => Posix.entryWrite file re
  | logTruncate entryIdx => Posix.logTruncate file entryIdx
  | headerWrite m rlh => Posix.headerWrite crc m file rlh

/-- The entries with the one at `i` replaced, or one more at the end. -/
def IndexedLog.put (l : IndexedLog) (i : Nat) (re : RawEntry) : IndexedLog :=
  { l with entries := l.entries.take i ++ re :: l.entries.drop (i + 1) }

/-- The same operation on the log. -/
def PosixOp.onLog (crc : List UInt8 → Nat) (l : IndexedLog) : PosixOp → IndexedLog
  | entryWrite re => l.put (rehIndex re.header).toNat re
  | logTruncate entryIdx => { l with entries := l.entries.take entryIdx }
  | headerWrite m rlh =>
      ⟨Function.update l.header (Fin.ofNat 2 rlh.seqno) (headerEntry crc m rlh), l.entries⟩

/-- Entries are written one after the other or again, and the log is cut at one of them or at its
end. -/
def PosixOp.Admitted (l : IndexedLog) : PosixOp → Prop
  | entryWrite re => 0 ≤ rehIndex re.header ∧ rehIndex re.header ≤ l.entries.length
  | logTruncate entryIdx => entryIdx ≤ l.entries.length
  | headerWrite _ _ => True

/-- All operations of a sequence are admitted where they take place. -/
def AllAdmitted (crc : List UInt8 → Nat) : IndexedLog → List PosixOp → Prop
  | _, [] => True
  | l, op :: ops => op.Admitted l ∧ AllAdmitted crc (op.onLog crc l) ops

/-- A new file. -/
def IndexedLog.initial (crc : List UInt8 → Nat) (m : EntryMeta) : IndexedLog :=
  ⟨fun i => headerEntry crc m (initialHeader i), []⟩

/-- The slots of the file. -/
def IndexedLog.slots (l : IndexedLog) : List (List UInt8) :=
  (l.header 0).bytes :: (l.header 1).bytes :: l.entries.map RawEntry.bytes

/-! ## One operation -/

section Step

variable {crc : List UInt8 → Nat} {file : List UInt8} {l : IndexedLog}

theorem IndexedLog.length_slots (l : IndexedLog) : l.slots.length = l.entries.length + 2 := by
  simp [slots]

theorem IndexedLog.slots_put (l : IndexedLog) (i : Nat) (re : RawEntry) :
    (l.put i re).slots = putSlot l.slots (i + 2) re.bytes := by
  simp [slots, put, putSlot, List.map_take, List.map_drop]

/-- Where entry `i` lies. -/
theorem indexToPhysOffset_natCast (i : Nat) :
    indexToPhysOffset i = (i + 2) * entrySizePosix := by
  simp only [indexToPhysOffset, numRaftLogHeaders]
  congr 1

/-- Where a copy of the log header lies. -/
theorem indexToPhysOffset_header (i : Nat) : indexToPhysOffset (i - 2) = i * entrySizePosix := by
  simp only [indexToPhysOffset, numRaftLogHeaders]
  congr 1
  omega

/-- A write to a slot of the file. -/
theorem slotted_write {p : Nat} (h : Slotted entrySizePosix file l.slots) (re : RawEntry)
    (hp : p ≤ l.slots.length) (hoff : indexToPhysOffset (rehIndex re.header) = p * entrySizePosix) :
    Slotted entrySizePosix (entryWrite file re) (putSlot l.slots p re.bytes) := by
  rw [entryWrite, hoff]
  exact h.overwrite hp re.length_bytes_le.1 re.length_bytes_le.2

/-- Every operation does to the file what it does to the log. -/
theorem slotted_onFile (h : Slotted entrySizePosix file l.slots) {op : PosixOp}
    (hop : op.Admitted l) :
    Slotted entrySizePosix (op.onFile crc file) (op.onLog crc l).slots := by
  cases op with
  | entryWrite re =>
    obtain ⟨hlow, hhigh⟩ := hop
    obtain ⟨i, hi⟩ : ∃ i : Nat, rehIndex re.header = i := ⟨_, (Int.toNat_of_nonneg hlow).symm⟩
    rw [PosixOp.onLog, hi, Int.toNat_natCast, IndexedLog.slots_put]
    refine slotted_write h re ?_ (by rw [hi]; exact indexToPhysOffset_natCast i)
    rw [IndexedLog.length_slots]
    omega
  | logTruncate entryIdx =>
    have hslots : (PosixOp.onLog crc l (.logTruncate entryIdx)).slots =
        l.slots.take (entryIdx + 2) := by
      simp [PosixOp.onLog, IndexedLog.slots, List.map_take]
    rw [hslots, PosixOp.onFile, Posix.logTruncate, indexToPhysOffset_natCast]
    refine h.resize ?_ (by decide)
    rw [IndexedLog.length_slots]
    exact Nat.add_le_add_right hop 2
  | headerWrite m rlh =>
    have hslots : (PosixOp.onLog crc l (.headerWrite m rlh)).slots =
        putSlot l.slots (rlh.seqno % 2) (headerEntry crc m rlh).bytes := by
      rcases Nat.mod_two_eq_zero_or_one rlh.seqno with hmod | hmod <;>
        simp [PosixOp.onLog, IndexedLog.slots, putSlot, Function.update, Fin.ext_iff, hmod]
    rw [hslots]
    refine slotted_write h _ ?_ (by rw [rehIndex_headerEntry]; exact indexToPhysOffset_header _)
    have hmod := Nat.mod_lt rlh.seqno (by decide : 0 < 2)
    rw [IndexedLog.length_slots]
    omega

/-- The file of a server that never ran. -/
theorem slotted_initial (m : EntryMeta) :
    Slotted entrySizePosix (setupInitializeHeaders crc m) (IndexedLog.initial crc m).slots := by
  have hoff : ∀ i : Nat, i < 2 →
      indexToPhysOffset (rehIndex (headerEntry crc m (initialHeader i)).header) =
        i * entrySizePosix := by
    intro i hi
    rw [rehIndex_headerEntry, initialHeader, Nat.mod_eq_of_lt hi]
    exact indexToPhysOffset_header i
  have hwrite : ∀ {file : List UInt8} {slots : List (List UInt8)} {i : Nat},
      Slotted entrySizePosix file slots → i < 2 → i ≤ slots.length →
      Slotted entrySizePosix (headerWrite crc m file (initialHeader i))
        (putSlot slots i (headerEntry crc m (initialHeader i)).bytes) := by
    intro file slots i h hi hlen
    rw [headerWrite, entryWrite, hoff i hi]
    exact h.overwrite hlen (RawEntry.length_bytes_le _).1 (RawEntry.length_bytes_le _).2
  exact hwrite (hwrite .nil (by decide) (Nat.le_refl 0)) (by decide) (Nat.le_refl 1)

/-! ## Reading -/

/-- What a slot is read as, to the length of its entry and to that of the entry's header. -/
theorem readCommon_slot {p : Nat} {idx : Int} {re : RawEntry}
    (h : Slotted entrySizePosix file l.slots) (hp : l.slots[p]? = some re.bytes)
    (hoff : indexToPhysOffset idx = p * entrySizePosix) :
    entryRead file idx re.data.length = re.bytes ∧
      readCommon file idx entryHeaderSize = re.header := by
  have hlen : entryHeaderSize + re.data.length = re.bytes.length := by
    rw [RawEntry.bytes, List.length_append, re.length_header]
  constructor
  · rw [entryRead, readCommon, hoff, hlen]
    exact h.holds p _ hp
  · have hpart : slice file (p * entrySizePosix + 0) entryHeaderSize =
        slice re.bytes 0 entryHeaderSize := h.slice_eq hp (by omega)
    rw [Nat.add_zero] at hpart
    rw [readCommon, hoff, hpart, slice, List.drop_zero, RawEntry.bytes, ← re.length_header,
      List.take_left]

/-- The log can be read off the file. -/
theorem reads_of_slotted (h : Slotted entrySizePosix file l.slots) :
    (∀ (i : Nat) (re : RawEntry), l.entries[i]? = some re →
      entryHeaderRead file i = .ok re.header ∧ entryRead file i re.data.length = re.bytes) ∧
    (∀ i : Fin 2, entryRead file (i - 2) (l.header i).data.length = (l.header i).bytes) ∧
    numEntriesCalc file = l.entries.length := by
  refine ⟨fun i re hi => ?_, fun i => ?_, ?_⟩
  · have hslot : l.slots[i + 2]? = some re.bytes := by
      simp [IndexedLog.slots, hi]
    obtain ⟨hentry, hheader⟩ := readCommon_slot h hslot (indexToPhysOffset_natCast i)
    refine ⟨?_, hentry⟩
    rw [entryHeaderRead, hheader, if_neg (by omega), if_neg (not_not.mpr re.length_header)]
  · have hslot : l.slots[i.val]? = some (l.header i).bytes := by
      match i with
      | 0 => rfl
      | 1 => rfl
    exact (readCommon_slot h hslot (indexToPhysOffset_header i)).1
  · have hcount := h.count (by decide)
    rw [IndexedLog.length_slots] at hcount
    rw [numEntriesCalc, hcount, numRaftLogHeaders]
    omega

end Step

/-- The file after a sequence of operations. -/
def fileAfter (crc : List UInt8 → Nat) (m : EntryMeta) (ops : List PosixOp) : List UInt8 :=
  ops.foldl (PosixOp.onFile crc) (setupInitializeHeaders crc m)

/-- The log after the same operations. -/
def logAfter (crc : List UInt8 → Nat) (m : EntryMeta) (ops : List PosixOp) : IndexedLog :=
  ops.foldl (PosixOp.onLog crc) (.initial crc m)

/-- A run of the file is one of the log. -/
theorem slotted_foldl {crc : List UInt8 → Nat} (ops : List PosixOp) {file : List UInt8}
    {l : IndexedLog} (h : Slotted entrySizePosix file l.slots) (hops : AllAdmitted crc l ops) :
    Slotted entrySizePosix (ops.foldl (PosixOp.onFile crc) file)
      (ops.foldl (PosixOp.onLog crc) l).slots := by
  induction ops generalizing file l with
  | nil => exact h
  | cons op ops ih => exact ih (slotted_onFile h hops.1) hops.2

/-- After any sequence of operations, every entry and both copies of the log header are read as they
were last written, and the file tells the number of entries. -/
theorem posix_file_refines_log (crc : List UInt8 → Nat) (m : EntryMeta) (ops : List PosixOp)
    (h : AllAdmitted crc (.initial crc m) ops) :
    (∀ (i : Nat) (re : RawEntry), (logAfter crc m ops).entries[i]? = some re →
      entryHeaderRead (fileAfter crc m ops) i = .ok re.header ∧
        entryRead (fileAfter crc m ops) i re.data.length = re.bytes) ∧
    (∀ i : Fin 2, entryRead (fileAfter crc m ops) (i - 2) ((logAfter crc m ops).header i).data.length =
      ((logAfter crc m ops).header i).bytes) ∧
    numEntriesCalc (fileAfter crc m ops) = (logAfter crc m ops).entries.length :=
  reads_of_slotted (slotted_foldl ops (slotted_initial m) h)

/-- What a peer writes into its entries. -/
def sampleMeta : EntryMeta := ⟨7, 9, [], 1, false, []⟩

/-- An entry of term 1. -/
def sampleEntry (i : Nat) (data : List UInt8)
    (h : data.length ≤ StoreType.posixFlatFile.entryMaxDataSize) : RawEntry :=
  rawEntryInit (fun _ => 0) sampleMeta i 1 data h

/-- Two entries, of which the second is cut off and written again with less data, and a vote. -/
def rewrittenTail : List PosixOp :=
  [.entryWrite (sampleEntry 0 [1, 2] (by decide)), .entryWrite (sampleEntry 1 [3, 4, 5] (by decide)),
    .headerWrite sampleMeta ⟨0, headerMagic, 1, 2, 7⟩, .logTruncate 1,
    .entryWrite (sampleEntry 1 [6] (by decide))]

theorem rehIndex_sampleEntry {i : Nat} (hi : i < 2 ^ 63) {data : List UInt8}
    (h : data.length ≤ StoreType.posixFlatFile.entryMaxDataSize) :
    rehIndex (sampleEntry i data h).header = i :=
  rehIndex_entryHeaderBytes (by omega) (by exact_mod_cast hi)

theorem posix_file_refines_log_rewrittenTail :
    AllAdmitted (fun _ => 0) (.initial (fun _ => 0) sampleMeta) rewrittenTail ∧
      (logAfter (fun _ => 0) sampleMeta rewrittenTail).entries.length = 2 ∧
      numEntriesCalc (fileAfter (fun _ => 0) sampleMeta rewrittenTail) = 2 := by
  have hadmits : AllAdmitted (fun _ => 0) (.initial (fun _ => 0) sampleMeta) rewrittenTail := by
    simp [rewrittenTail, AllAdmitted, PosixOp.Admitted, PosixOp.onLog, IndexedLog.put,
      IndexedLog.initial, rehIndex_sampleEntry]
  have hlen : (logAfter (fun _ => 0) sampleMeta rewrittenTail).entries.length = 2 := by
    simp [logAfter, rewrittenTail, PosixOp.onLog, IndexedLog.put, IndexedLog.initial,
      rehIndex_sampleEntry]
  have hcount := (posix_file_refines_log _ _ _ hadmits).2.2
  rw [hlen] at hcount
  exact ⟨hadmits, hlen, hcount⟩

end NiovaRaft
