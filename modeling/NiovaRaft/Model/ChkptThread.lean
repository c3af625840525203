import NiovaRaft.Base.Threads
import NiovaRaft.Model.StoredLog

/-!
# The checkpoint thread beside a reader

The main thread reads the log, and the checkpoint thread compacts it.  A reader registers its index
in `ri_pending_read_idx`, and `ri_lowest_idx` is raised past no registered index; both take place
under `ri_compaction_mutex`.  Before that a reader checks the range of the index without the mutex,
and under it checks once more.

Here the functions that read and compact are cut at their critical sections.  The backend is
RocksDB, the only one that takes checkpoints.  Memory that was allocated and not written to is an
input.
-/

namespace NiovaRaft

open Base Base.Handler RaftServer

variable {n : Nat}

/-- The thread that reads and the one that compacts. -/
inductive ReadThread where
  | main | chkpt
deriving DecidableEq, Repr

/-- The critical sections. -/
inductive ReadSection where
  /-- Those of a read of an index, of an entry with so much data or of a header. -/
  | entrySize (idx : Int) (len : Nat) | rangeCheck (idx : Int) (len : Option Nat)
  | registerIdx (idx : Int) | assertErange | headerRead | dataRead | unregisterIdx | checkRead
  /-- A read returns to its caller. -/
  | returned
  /-- Those of `raft_server_append_entry_sender`. -/
  | checkHeader | checkEntry
  /-- Those of `raft_server_reap_log`. -/
  | compactMaxIdx | lowestIdx | increaseLowestIdx | logReap
  /-- What the main thread does between two reads. -/
  | elsewhere
deriving DecidableEq, Repr

/-- `struct raft_entry`, in memory. -/
structure EntryBuf where
  header : StoredHeader
  data : List UInt8

/-- The index of a buffer, which says what to read into it. -/
def EntryBuf.index (re : EntryBuf) : Int := re.header.reh.index

/-- What a read gives to its caller. -/
inductive ReadContents where
  | header (reh : EntryHeader)
  | data (data : List UInt8)
deriving DecidableEq, Repr

/-- A read that has returned: what it returned, whether anything was read into the buffer that its
caller was given or had checked, the entry at the index, and the lowest index at the time. -/
structure Returned where
  idx : Int
  result : Except Int ReadContents
  filled : Bool
  stored : Option Entry
  lowestIdx : Int

/-- What the threads share: the instance with its uuids and the index that is registered.  The reads
that have returned are kept for the record: no section looks at them. -/
structure ReadShared (n : Nat) where
  ri : RaftInstance n
  selfUuid : Nat
  raftUuid : Nat
  pendingReadIdx : Int
  returned : List Returned

/-- A header as this instance stores it. -/
def ReadShared.storedHeader (s : ReadShared n) (reh : EntryHeader) : StoredHeader :=
  ⟨entryMagic, s.selfUuid, s.raftUuid, reh⟩

/-- A program of one of the threads. -/
abbrev ReadProg (n : Nat) (α : Type) : Type 1 := Prog ReadSection (ReadShared n) α

namespace ChkptThread

/-- `RAFT_ENTRY_IDX_ANY`. -/
def entryIdxAny : Int := -1

/-- `sizeof(struct raft_entry_header)`. -/
def entryHeaderSize : Nat := 496

/-- `ri_max_entry_size`. -/
def maxEntrySize (ri : RaftInstance n) : Nat := ri.entryMaxDataSize + entryHeaderSize

def EINVAL : Int := 22
def ENOENT : Int := 2
def EAGAIN : Int := 11
def ENOSPC : Int := 28
def EDOM : Int := 33
def ERANGE : Int := 34
def EBADSLT : Int := 57
def EBADMSG : Int := 74
def EMSGSIZE : Int := 90
def EKEYREJECTED : Int := 129

/-! ## Registering -/

/-- `raft_server_entry_has_been_compacted`. -/
def entryHasBeenCompacted (ri : RaftInstance n) (idx : Int) : Bool := decide (idx < ri.lowestIdx)

/-- `raft_server_entry_range_check`. -/
def entryRangeCheck (ri : RaftInstance n) (idx : Int) : Int :=
  if idx > ri.currentIdx .unsync ∧ ri.procState ≠ .booting then -EDOM
  else if entryHasBeenCompacted ri idx = true then -ERANGE
  else 0

/-- `raft_server_read_entry_register_idx`.  Under the mutex it returns the truth value of
`raft_server_entry_has_been_compacted`. -/
def readEntryRegisterIdx (entryIdx : Int) (len : Option Nat) : ReadProg n Int := do
  let rc ← .critical (.rangeCheck entryIdx len) do
    assert (0 ≤ entryIdx)
    gets fun s => entryRangeCheck s.ri entryIdx
  if rc ≠ 0 then pure rc
  else .critical (.registerIdx entryIdx) do
    let s ← get
    assert (s.pendingReadIdx = entryIdxAny)
    if entryHasBeenCompacted s.ri entryIdx = true then pure 1
    else do
      modify fun s => { s with pendingReadIdx := entryIdx }
      pure 0

/-- `raft_server_read_entry_unregister_idx`. -/
def readEntryUnregisterIdx (entryIdx : Int) : ReadProg n Unit :=
  .critical .unregisterIdx do
    let s ← get
    assert (s.pendingReadIdx = entryIdx)
    modify fun s => { s with pendingReadIdx := entryIdxAny }

/-! ## Reading -/

/-- `rsbr_entry_header_read`. -/
def entryHeaderRead (re : EntryBuf) : ReadProg n (Int × EntryBuf) :=
  .critical .headerRead (gets fun s =>
    match s.ri.store.db.read re.index.toNat with
    | none => (-ENOENT, re)
    | some stored => (0, { re with header := s.storedHeader stored.header }))

/-- The second half of `rsbr_entry_read`.  No value of no bytes can be asked for, and data that does
not fit is written past the end of the buffer. -/
def entryDataRead (re : EntryBuf) : ReadProg n (Int × EntryBuf) :=
  .critical .dataRead do
    let s ← get
    fatalIf (re.data.length < re.header.reh.dataSize)
    if re.header.reh.dataSize = 0 then pure (-EINVAL, re)
    else
      match s.ri.store.db.read re.index.toNat with
      | none => pure (-ENOENT, re)
      | some stored =>
          if stored.data.length > re.header.reh.dataSize then pure (-ENOSPC, re)
          else if stored.data.length < re.header.reh.dataSize then pure (-EMSGSIZE, re)
          else pure (re.header.reh.dataSize + entryHeaderSize, { re with data := stored.data })

/-- `rsbr_entry_read`. -/
def rsbrEntryRead (re : EntryBuf) : ReadProg n (Int × EntryBuf) := do
  let header ← entryHeaderRead re
  if header.1 ≠ 0 then pure header
  else entryDataRead header.2

/-- The backend's read of a header, or of all of the entry. -/
def backendRead (re : EntryBuf) (headerOnly : Bool) : ReadProg n (Int × EntryBuf) :=
  if headerOnly = true then entryHeaderRead re else rsbrEntryRead re

/-- `raft_server_entry_read_by_store_common`.  What it returns comes with the buffer. -/
def entryReadByStoreCommon (re : EntryBuf) (headerOnly : Bool) : ReadProg n (Int × EntryBuf) := do
  let rc ← readEntryRegisterIdx re.index (if headerOnly = true then none else some re.data.length)
  if rc ≠ 0 then do
    .critical .assertErange (assert (rc = -ERANGE))
    pure (rc, re)
  else do
    let rrc ← backendRead re headerOnly
    readEntryUnregisterIdx re.index
    .critical .checkRead (fatalIf (rrc.1 ≠ 0 ∧
      (headerOnly = true ∨ rrc.1 ≠ rrc.2.header.reh.dataSize + entryHeaderSize)))
    pure rrc

/-- `read_server_entry_validate`. -/
def entryValidate (s : ReadShared n) (rh : StoredHeader) (expectedRehIdx : Int) : Int :=
  if rh.magic ≠ entryMagic ∨ rh.reh.dataSize > s.ri.entryMaxDataSize then -EINVAL
  else if rh.reh.index ≠ expectedRehIdx then -EBADSLT
  else if rh.selfUuid ≠ s.selfUuid ∨ rh.raftUuid ≠ s.raftUuid then -EKEYREJECTED
  else 0

/-- A read of `idx` returns to its caller. -/
def returns {α : Type} (idx : Int) (filled : Bool) (contents : α → ReadContents)
    (result : ReadShared n → Except Int α) : ReadProg n (Except Int α) :=
  .critical .returned do
    let s ← get
    modify fun s => { s with returned := s.returned ++
      [⟨idx, (result s).map contents, filled, s.ri.store.db.entries[idx.toNat]?, s.ri.lowestIdx⟩] }
    pure (result s)

/-- What `raft_server_entry_header_read_by_store` returns after the read. -/
def headerResult (s : ReadShared n) (rc : Int) (reh : StoredHeader) (rehIndex : Int) :
    Except Int EntryHeader :=
  if rc ≠ 0 then .error rc
  else if entryValidate s reh rehIndex ≠ 0 then .error (entryValidate s reh rehIndex)
  else .ok reh.reh

/-- The caller's buffer for a header, with the index to read. -/
def headerBuf (reh : StoredHeader) (rehIndex : Int) : EntryBuf :=
  ⟨{ reh with reh := { reh.reh with index := rehIndex } }, []⟩

/-- `raft_server_entry_header_read_by_store`, with the caller's buffer for the header. -/
def entryHeaderReadByStore (reh : StoredHeader) (rehIndex : Int) :
    ReadProg n (Except Int EntryHeader) :=
  if rehIndex < 0 then returns rehIndex false .header fun _ => .error (-EINVAL)
  else do
    let rc ← entryReadByStoreCommon (headerBuf reh rehIndex) true
    returns rehIndex (decide (rc.1 = 0)) .header fun s => headerResult s rc.1 rc.2.header rehIndex

/-- What `raft_server_entry_read` returns once the buffer was to be read into.  It does not look at
the result of the read. -/
def readResult [Externals] (s : ReadShared n) (re : EntryBuf) (reIdx : Int) (len : Nat) :
    Except Int (List UInt8) :=
  if entryValidate s re.header reIdx ≠ 0 then .error (entryValidate s re.header reIdx)
  else if re.header.reh.dataSize < len then .error (-ENOSPC)
  else if (entryCheckCrc ⟨re.header.reh, re.data⟩).isOk = false then .error (-EBADMSG)
  else .ok (re.data.take len)

/-- The buffer that `raft_server_entry_read` allocates, with the two fields that it sets. -/
def allocated (reIdx : Int) (len : Nat) (unread : EntryBuf) : EntryBuf :=
  ⟨{ unread.header with reh := { unread.header.reh with dataSize := len, index := reIdx } },
    (unread.data ++ List.replicate len 0).take len⟩

/-- `raft_server_entry_read`, with what the allocated memory holds. -/
def entryRead [Externals] (reIdx : Int) (len : Nat) (unread : EntryBuf) :
    ReadProg n (Except Int (List UInt8)) := do
  let maxSize ← .critical (.entrySize reIdx len) (gets fun s => maxEntrySize s.ri)
  if len > maxSize then returns reIdx false .data fun _ => .error (-EINVAL)
  else do
    let rc ← entryReadByStoreCommon (allocated reIdx len unread) false
    returns reIdx (decide (0 < rc.1)) .data fun s => readResult s rc.2 reIdx len

/-- What `raft_server_append_entry_sender` reads for the entry it sends.  It goes on to the next
follower where the entry was compacted. -/
def appendEntrySenderRead [Externals] (peerNextRaftIdx : Int) (unread : EntryBuf) :
    ReadProg n Unit := do
  let reh ← entryHeaderReadByStore .null peerNextRaftIdx
  match reh with
  | .error rc => .critical .checkHeader (fatalIf (rc ≠ -ERANGE))
  | .ok reh => do
      .critical .checkHeader (assert (reh.index = peerNextRaftIdx))
      .whenever (reh.dataSize ≠ 0) do
        let data ← entryRead peerNextRaftIdx reh.dataSize unread
        match data with
        | .error rc => .critical .checkEntry (fatalIf (rc ≠ -ERANGE))
        | .ok _ => pure ()

/-! ## Compacting -/

/-- `raft_server_compaction_try_increase_lowest_idx`. -/
def compactionTryIncreaseLowestIdx (newLowestIdx : Int) : ReadProg n Int :=
  .critical .increaseLowestIdx do
    let s ← get
    assert (0 ≤ newLowestIdx)
    assert (newLowestIdx > s.ri.lowestIdx)
    if s.pendingReadIdx ≠ entryIdxAny ∧ s.pendingReadIdx < newLowestIdx then pure (-EAGAIN)
    else do
      modify fun s => { s with ri := { s.ri with lowestIdx := newLowestIdx } }
      pure 0

/-- `rsbr_log_reap`. -/
def logReap (entryIdx : Int) : ReadProg n Unit :=
  .critical .logReap do
    assert (0 ≤ entryIdx)
    modify fun s => { s with ri := { s.ri with
      store := s.ri.store.put (s.ri.store.db.reap entryIdx.toNat) true } }

/-- `raft_server_reap_log`. -/
def reapLog (numKeepEntries : Int) : ReadProg n Unit :=
  .whenever (500 ≤ numKeepEntries) do
    let maxIdx ← .critical .compactMaxIdx (gets (·.ri.lastApplied.syncedIdx))
    .whenever (0 ≤ maxIdx) do
      let lowestIdx ← .critical .lowestIdx do
        let s ← get
        assert (maxIdx ≥ max 0 s.ri.lowestIdx)
        pure (max 0 s.ri.lowestIdx)
      .whenever (maxIdx - numKeepEntries > lowestIdx + numKeepEntries) do
        let rc ← compactionTryIncreaseLowestIdx (maxIdx - numKeepEntries)
        .whenever (rc = 0) (logReap (maxIdx - numKeepEntries))

/-! ## The threads -/

/-- Both threads are idle. -/
def started (ri : RaftInstance n) (selfUuid raftUuid : Nat) : ReadShared n :=
  ⟨ri, selfUuid, raftUuid, entryIdxAny, []⟩

end ChkptThread

end NiovaRaft
