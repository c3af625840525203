import NiovaRaft.Model.Clients
import NiovaRaft.Model.StoredLog
import NiovaRaft.Base.Slots

/-!
# The log file of the POSIX backend

The flat file that `raft_server_backend_posix.c` keeps: two slots for copies of the log header, then
one slot for each entry, all of `RAFT_ENTRY_SIZE_POSIX` bytes.  An entry goes to disk as it lies in
memory, its header and its data without padding.  A copy of the log header is stored as an entry
with a negative index.

The file is a list of bytes.  `pwrite`, `pread` and `ftruncate` are `Base.overwrite`, `Base.slice`
and `Base.resize`.
-/

namespace NiovaRaft

open Base

/-! ## Numbers in memory -/

/-- A signed 64-bit number in memory. -/
def int64Bytes (v : Int) : List UInt8 := leBytes 8 (v % 2 ^ 64).toNat

/-- The signed 64-bit number that bytes stand for. -/
def ofInt64Bytes (bytes : List UInt8) : Int :=
  if ofLeBytes bytes < 2 ^ 63 then ofLeBytes bytes else ofLeBytes bytes - 2 ^ 64

/-! ## Entries -/

/-- `RAFT_ENTRY_SIZE_POSIX`. -/
def entrySizePosix : Nat := 65536

/-- `sizeof(struct raft_entry_header)`. -/
def entryHeaderSize : Nat := 496

/-- `NUM_RAFT_LOG_HEADERS`. -/
def numRaftLogHeaders : Nat := 2

/-- `reh_crc` of a header in memory. -/
def rehCrc (header : List UInt8) : Nat := ofLeBytes (slice header 40 4)

/-- `reh_data_size` of a header in memory. -/
def rehDataSize (header : List UInt8) : Nat := ofLeBytes (slice header 44 4)

/-- `reh_index` of a header in memory. -/
def rehIndex (header : List UInt8) : Int := ofInt64Bytes (slice header 48 8)

/-- `struct raft_entry` in memory.  The header tells the size of the data, which
`raft_server_entry_init` has checked against `RAFT_ENTRY_MAX_DATA_SIZE`. -/
structure RawEntry where
  header : List UInt8
  data : List UInt8
  length_header : header.length = entryHeaderSize
  dataSize_eq : rehDataSize header = data.length
  length_data : data.length ≤ StoreType.posixFlatFile.entryMaxDataSize

/-- The entry as one piece. -/
def RawEntry.bytes (re : RawEntry) : List UInt8 := re.header ++ re.data

/-- `raft_server_entry_to_total_size`. -/
def entryToTotalSize (header : List UInt8) : Nat := entryHeaderSize + rehDataSize header

/-- What an entry is written with besides its index, its term and its data. -/
structure EntryMeta where
  selfUuid : Nat
  raftUuid : Nat
  storeTime : List UInt8
  applyHandlerVersion : Nat
  leaderChangeMarker : Bool
  entrySz : List Nat

/-- The fields of `struct raft_entry_header` as `raft_server_entry_init` fills them in. -/
def entryHeaderFields (m : EntryMeta) (crc dataSize : Nat) (index term : Int) :
    List (List UInt8) :=
  [leBytes 8 entryMagic, leBytes 16 m.selfUuid, m.storeTime.takeD 16 0, leBytes 4 crc,
    leBytes 4 dataSize, int64Bytes index, int64Bytes term, leBytes 16 m.raftUuid,
    ((m.entrySz.takeD entryNumEntries 0).map (leBytes 4)).flatten, leBytes 8 m.applyHandlerVersion,
    leBytes 1 (if m.leaderChangeMarker then 1 else 0), leBytes 1 m.entrySz.length,
    List.replicate 6 0]

/-- The header in memory. -/
def entryHeaderBytes (m : EntryMeta) (crc dataSize : Nat) (index term : Int) : List UInt8 :=
  (entryHeaderFields m crc dataSize index term).flatten

/-- `raft_server_entry_calc_crc`, over a checksum: all from `reh_data_size` on. -/
def rawEntryCalcCrc (crc : List UInt8 → Nat) (re : List UInt8) : Nat :=
  crc (slice re 44 (entryToTotalSize re - 44)) % 2 ^ 32

@[simp] theorem length_int64Bytes (v : Int) : (int64Bytes v).length = 8 := length_leBytes ..

theorem length_entryHeaderBytes (m : EntryMeta) (crc dataSize : Nat) (index term : Int) :
    (entryHeaderBytes m crc dataSize index term).length = entryHeaderSize := by
  have hsizes : ∀ l : List Nat, (l.map (leBytes 4)).flatten.length = 4 * l.length := by
    intro l
    induction l with
    | nil => rfl
    | cons x l ih =>
      simp only [List.map_cons, List.flatten_cons, List.length_append, ih, length_leBytes,
        List.length_cons]
      omega
  simp only [entryHeaderBytes, entryHeaderFields, List.flatten_cons, List.flatten_nil,
    List.length_append, length_leBytes, List.takeD_length, length_int64Bytes, hsizes,
    List.length_replicate, List.length_nil, entryNumEntries, entryHeaderSize]

theorem rehDataSize_entryHeaderBytes {m : EntryMeta} {crc dataSize : Nat} {index term : Int}
    (h : dataSize < 2 ^ 32) : rehDataSize (entryHeaderBytes m crc dataSize index term) = dataSize := by
  have hpart := slice_flatten (entryHeaderFields m crc dataSize index term) (i := 4) rfl
  simp only [entryHeaderFields, List.map_cons, List.take_succ_cons, List.take_zero, List.sum_cons,
    List.sum_nil, length_leBytes, List.takeD_length] at hpart
  rw [rehDataSize, entryHeaderBytes, entryHeaderFields]
  exact (congrArg ofLeBytes hpart).trans (ofLeBytes_leBytes h)

/-- `raft_server_entry_init`.  The checksum is taken with `reh_crc` cleared. -/
def rawEntryInit (crc : List UInt8 → Nat) (m : EntryMeta) (index term : Int) (data : List UInt8)
    (h : data.length ≤ StoreType.posixFlatFile.entryMaxDataSize) : RawEntry where
  header := entryHeaderBytes m
    (rawEntryCalcCrc crc (entryHeaderBytes m 0 data.length index term ++ data)) data.length index term
  data := data
  length_header := length_entryHeaderBytes ..
  dataSize_eq := rehDataSize_entryHeaderBytes
    (lt_of_le_of_lt h (by decide : StoreType.posixFlatFile.entryMaxDataSize < 2 ^ 32))
  length_data := h

/-! ## The log header -/

/-- `RAFT_HEADER_MAGIC`. -/
def headerMagic : Nat := 0xafaeadacabaaa9a8

/-- `struct raft_log_header`.  The null uuid is `0`. -/
structure RaftLogHeader where
  version : Nat
  magic : Nat
  term : Int
  seqno : Nat
  votedFor : Nat
deriving DecidableEq, Repr

namespace RaftLogHeader

/-- A header cleared by `memset`. -/
def zero : RaftLogHeader := ⟨0, 0, 0, 0, 0⟩

/-- The header in memory. -/
def bytes (rlh : RaftLogHeader) : List UInt8 :=
  [leBytes 8 rlh.version, leBytes 8 rlh.magic, int64Bytes rlh.term, leBytes 8 rlh.seqno,
    leBytes 16 rlh.votedFor].flatten

/-- The header that bytes stand for. -/
def ofBytes (bytes : List UInt8) : RaftLogHeader :=
  ⟨ofLeBytes (slice bytes 0 8), ofLeBytes (slice bytes 8 8), ofInt64Bytes (slice bytes 16 8),
    ofLeBytes (slice bytes 24 8), ofLeBytes (slice bytes 32 16)⟩

/-- `sizeof(struct raft_log_header)`. -/
theorem length_bytes (rlh : RaftLogHeader) : rlh.bytes.length = 48 := by
  simp [bytes]

end RaftLogHeader

/-! ## The file -/

namespace Posix

/-- `rsbr_raft_index_to_phys_offset`, with `rsbr_entry_idx_to_phys_idx`. -/
def indexToPhysOffset (entryIdx : Int) : Nat :=
  (entryIdx + numRaftLogHeaders).toNat * entrySizePosix

/-- `rsbp_entry_write`. -/
def entryWrite (file : List UInt8) (re : RawEntry) : List UInt8 :=
  overwrite file (indexToPhysOffset (rehIndex re.header)) re.bytes

/-- `rsbp_read_common`: what `pread` returns. -/
def readCommon (file : List UInt8) (idx : Int) (expectedSz : Nat) : List UInt8 :=
  slice file (indexToPhysOffset idx) expectedSz

/-- `rsbp_entry_read` of an entry with `dataSize` bytes of data. -/
def entryRead (file : List UInt8) (idx : Int) (dataSize : Nat) : List UInt8 :=
  readCommon file idx (entryHeaderSize + dataSize)

/-- The errors of the backend. -/
inductive BackendErrno where
  | einval | eio | ebadmsg
deriving DecidableEq, Repr

/-- `rsbp_entry_header_read`. -/
def entryHeaderRead (file : List UInt8) (idx : Int) : Except BackendErrno (List UInt8) :=
  if idx < 0 then .error .einval
  else if (readCommon file idx entryHeaderSize).length ≠ entryHeaderSize then .error .eio
  else .ok (readCommon file idx entryHeaderSize)

/-- `rsbp_log_truncate`. -/
def logTruncate (file : List UInt8) (entryIdx : Int) : List UInt8 :=
  resize file (indexToPhysOffset entryIdx)

/-- `rsbp_num_entries_calc`. -/
def numEntriesCalc (file : List UInt8) : Int :=
  max 0 (((file.length / entrySizePosix + if file.length % entrySizePosix ≠ 0 then 1 else 0 : Nat) :
    Int) - numRaftLogHeaders)

/-- The entry that `rsbp_header_write` stores: the block of the header alternates. -/
def headerEntry (crc : List UInt8 → Nat) (m : EntryMeta) (rlh : RaftLogHeader) : RawEntry :=
  rawEntryInit crc { m with leaderChangeMarker := false, entrySz := [48] }
    ((rlh.seqno % numRaftLogHeaders : Nat) - numRaftLogHeaders) rlh.term rlh.bytes
    (by rw [RaftLogHeader.length_bytes]; decide)

/-- `rsbp_header_write`. -/
def headerWrite (crc : List UInt8 → Nat) (m : EntryMeta) (file : List UInt8)
    (rlh : RaftLogHeader) : List UInt8 :=
  entryWrite file (headerEntry crc m rlh)

/-- The header that a new file is given. -/
def initialHeader (seqno : Nat) : RaftLogHeader :=
  { RaftLogHeader.zero with magic := headerMagic, seqno := seqno }

/-- `rsbp_setup_initialize_headers`. -/
def setupInitializeHeaders (crc : List UInt8 → Nat) (m : EntryMeta) : List UInt8 :=
  headerWrite crc m (headerWrite crc m [] (initialHeader 0)) (initialHeader 1)

/-- A block as `rsbp_header_load` reads it.  There is none when the read comes out short or the
checksum is wrong. -/
def headerBlock (crc : List UInt8 → Nat) (file : List UInt8) (i : Nat) : Option RaftLogHeader :=
  let re := entryRead file (i - numRaftLogHeaders) 48
  if re.length ≠ entryHeaderSize + 48 then none
  else if rawEntryCalcCrc crc re ≠ rehCrc re then none
  else some (.ofBytes (slice re entryHeaderSize 48))

/-- One round of `rsbp_header_load`. -/
def mostRecent (rlh : RaftLogHeader) : Option RaftLogHeader → RaftLogHeader
  | none => rlh
  | some rlh' => if rlh.magic ≠ headerMagic ∨ rlh.seqno < rlh'.seqno then rlh' else rlh

/-- `rsbp_header_load`, by the blocks that it reads. -/
def headerLoad (blocks : Nat → Option RaftLogHeader) : Except BackendErrno RaftLogHeader :=
  let rlh := (List.range numRaftLogHeaders).foldl (fun rlh i => mostRecent rlh (blocks i)) .zero
  if rlh.magic ≠ headerMagic then .error .ebadmsg else .ok rlh

end Posix

end NiovaRaft
