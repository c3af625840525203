import NiovaRaft.Model.Types

/-!
# The log of a server

The functions of `raft_server.c` below the protocol: the cached headers of the newest synced
and newest stored entry, reads and writes of entries, the log header and `backend_sync`.

The backend is the value `ri.store`.  Log header writes, truncation, reaping and
`rib_backend_sync` flush everything that was written before them, in both backends.  Entry
writes are flushed only with synchronous writes.  `durable` is the one way to the store: the
process may be killed before any write, and what was flushed until then survives.

`NIOVA_ASSERT`, `FATAL_IF` and a log message of level `LL_FATAL` kill the process.
-/

namespace NiovaRaft

variable {n : Nat}

/-! ## The store -/

/-- The contents become `db`.  A write that is not flushed may be lost in a crash. -/
def Store.put (st : Store n) (db : Db n) (flushed : Bool) : Store n :=
  ⟨db, if flushed then [db] else st.recoverable ++ [db]⟩

/-- Everything written so far is flushed. -/
def Store.flush (st : Store n) : Store n := st.put st.db true

/-- `rib_entry_write`: store an entry at its index, which is at most one past the newest. -/
def Db.write (db : Db n) (re : Entry) : Db n :=
  let idx := re.header.index.toNat
  { db with entries := if idx < db.entries.length then db.entries.set idx re
      else db.entries ++ [re] }

/-- `rib_log_truncate`: remove the entries from `idx` on. -/
def Db.truncate (db : Db n) (idx : Nat) : Db n := { db with entries := db.entries.take idx }

/-- `rib_log_reap`: remove the entries below `idx`. -/
def Db.reap (db : Db n) (idx : Nat) : Db n := { db with reaped := max db.reaped idx }

/-- `rsbr_sm_apply_opt`: the batch of the last-applied record and the supplements. -/
def Db.apply (db : Db n) (la : LastApplied) (batch : Option AppBatch) : Db n :=
  { db with lastApplied := some la, supplements := db.supplements ++ batch.toList }

namespace RaftInstance

/-- `raft_server_does_synchronous_writes`. -/
def doesSynchronousWrites (ri : RaftInstance n) : Bool := ri.opts.synchronousWrites

/-- `raft_instance_get_newest_header`. -/
def newestHeader (ri : RaftInstance n) : NehdrType → EntryHeader
  | .sync => ri.newestSync
  | .unsync => ri.newestUnsync
  | .all => ri.newestUnsync

/-- `raft_server_get_current_raft_entry_index`. -/
def currentIdx (ri : RaftInstance n) (type : NehdrType) : Int := (ri.newestHeader type).index

/-- `raft_instance_is_leader`. -/
def isLeader (ri : RaftInstance n) : Bool := ri.state = .leader

/-- `raft_instance_is_follower`. -/
def isFollower (ri : RaftInstance n) : Bool := ri.state = .follower

/-- `raft_instance_is_candidate`. -/
def isCandidate (ri : RaftInstance n) : Bool := ri.state = .candidate

/-- `raft_instance_is_candidate_prevote`. -/
def isCandidatePrevote (ri : RaftInstance n) : Bool := ri.state = .candidatePrevote

/-- `RAFT_ENTRY_MAX_DATA_SIZE(ri)`. -/
def entryMaxDataSize (ri : RaftInstance n) : Nat := ri.opts.storeType.entryMaxDataSize

end RaftInstance

namespace RaftServer

open Base Base.Handler

/-- The instance. -/
def getRi : Server n (RaftInstance n) := gets (·.ri)

/-- Update the instance. -/
def modifyRi (f : RaftInstance n → RaftInstance n) : Server n Unit :=
  modify fun s => { s with ri := f s.ri }

/-- Write to the store, unless the process is killed first. -/
def durable (f : Store n → Store n) : Server n Unit := do
  let fuse ← gets (·.fuse)
  fatalIf (fuse = some 0)
  modify fun s =>
    { s with ri := { s.ri with store := f s.ri.store }, fuse := s.fuse.map (· - 1) }

/-- Record a point of the run. -/
def observe (o : RaftInstance n → Obs n) : Server n Unit :=
  modify fun s => { s with trace := s.trace ++ [o s.ri] }

/-- `raft_server_send_msg`.  Sending to no peer dereferences a null pointer. -/
def sendMsg (dst : Option (Fin n)) (msg : RpcMsg n) : Server n Unit :=
  match dst with
  | none => abort
  | some d => modify fun s => { s with out := s.out ++ [(d, msg)] }

/-! ## Entries -/

/-- `raft_server_entry_calc_crc`. -/
def entryCalcCrc [Externals] (re : Entry) : Nat :=
  Externals.niovaCrc ⟨re.header.dataSize, re.header.index, re.header.term, re.header.entrySz,
    re.header.applyHandlerVersion, re.header.leaderChangeMarker, re.header.numEntries, re.data⟩

/-- `raft_server_entry_check_crc`. -/
def entryCheckCrc [Externals] (re : Entry) : Except Errno Unit :=
  if entryCalcCrc re = re.header.crc then .ok () else .error .EBADMSG

/-- The entry that `raft_server_entry_init` builds.  The sizes and the data are copied only
when there is data. -/
def entryOf [Externals] (ri : RaftInstance n) (reIdx currentTerm : Int) (data : List UInt8)
    (entrySizes : List Nat) (leaderChangeMarker : Bool) : Entry :=
  let total := entrySizes.sum
  let re : Entry :=
    { header :=
        { crc := 0, dataSize := total, index := reIdx, term := currentTerm,
          entrySz := if total = 0 then List.replicate entrySizes.length 0 else entrySizes,
          applyHandlerVersion := ri.opts.applyHandlerVersion,
          leaderChangeMarker := leaderChangeMarker, numEntries := entrySizes.length },
      data := data.take total }
  { re with header := { re.header with crc := entryCalcCrc re } }

/-- `raft_server_entry_init`. -/
def entryInit [Externals] (reIdx currentTerm : Int) (data : List UInt8)
    (entrySizes : List Nat) (leaderChangeMarker : Bool) : Server n Entry := do
  let ri ← getRi
  assert (leaderChangeMarker = true ∨ entrySizes.length ≠ 0)
  assert (0 ≤ reIdx)
  assert (entrySizes.sum ≤ ri.entryMaxDataSize)
  pure (entryOf ri reIdx currentTerm data entrySizes leaderChangeMarker)

/-! ## The newest entries -/

/-- One of the two headers under `raft_instance_update_newest_entry_hdr`. -/
def updateHdr (force : Bool) (reh tgt : EntryHeader) : EntryHeader :=
  if force = true ∨ reh.index > tgt.index then reh else tgt

/-- `raft_instance_update_newest_entry_hdr`.  With synchronous writes each header that is
visited must change. -/
def updateNewestEntryHdr (reh : EntryHeader) (type : NehdrType) (force : Bool) :
    Server n Unit :=
  if reh.index < 0 then pure ()
  else do
    let ri ← getRi
    whenever (type ≠ .unsync) do
      assert (ri.doesSynchronousWrites = false ∨ force = true ∨ reh.index > ri.newestSync.index)
      modifyRi fun ri => { ri with newestSync := updateHdr force reh ri.newestSync }
    whenever (type ≠ .sync) do
      assert (ri.doesSynchronousWrites = false ∨ force = true ∨ reh.index > ri.newestUnsync.index)
      modifyRi fun ri => { ri with newestUnsync := updateHdr force reh ri.newestUnsync }

/-- `raft_server_has_unsynced_entries`. -/
def hasUnsyncedEntries : Server n Bool := do
  let ri ← getRi
  let diff := ri.newestSync ≠ ri.newestUnsync
  fatalIf (diff ∧ (ri.newestSync.index > ri.newestUnsync.index ∨
    ri.newestSync.term > ri.newestUnsync.term ∨ ri.doesSynchronousWrites = true))
  pure diff

/-- `raft_server_entry_next_entry_is_valid`. -/
def entryNextEntryIsValid (nextReh : EntryHeader) : Server n Bool :=
  if nextReh.index < 0 then pure true
  else do
    let ri ← getRi
    fatalIf (ri.doesSynchronousWrites = true ∧ ri.newestUnsync.index ≠ ri.newestSync.index)
    pure (decide (nextReh.index = ri.newestUnsync.index + 1 ∧
      ri.newestUnsync.term ≤ nextReh.term))

/-! ## Writes -/

/-- `raft_server_entry_write_by_store`. -/
def entryWriteByStore (re : Entry) : Server n Unit := do
  let ri ← getRi
  durable fun st => st.put (st.db.write re) ri.doesSynchronousWrites

/-- `raft_server_entry_write`. -/
def entryWrite [Externals] (reIdx term : Int) (data : List UInt8) (entrySizes : List Nat)
    (leaderChangeMarker : Bool) : Server n Unit := do
  let ri ← getRi
  -- `-E2BIG` is fatal in the caller
  fatalIf (ri.entryMaxDataSize < entrySizes.sum)
  let re ← entryInit reIdx term data entrySizes leaderChangeMarker
  let valid ← entryNextEntryIsValid re.header
  assert (valid = true)
  entryWriteByStore re
  updateNewestEntryHdr re.header (if ri.doesSynchronousWrites then .all else .unsync) false
  whenever (ri.doesSynchronousWrites = true) do
    let unsynced ← hasUnsyncedEntries
    fatalIf (unsynced = true)

/-- `raft_server_write_next_entry`. -/
def writeNextEntry [Externals] (term : Int) (data : List UInt8) (wrEntrySizes : List Nat)
    (leaderChangeMarker : Bool) : Server n Unit := do
  let ri ← getRi
  assert (term ≥ ri.newestUnsync.term)
  let nextEntryIdx := ri.newestUnsync.index + 1
  fatalIf (nextEntryIdx < 0)
  entryWrite nextEntryIdx term data wrEntrySizes leaderChangeMarker

/-- `raft_server_backend_sync`.  Both backends' `rib_backend_sync` succeed. -/
def backendSync : Server n Unit := do
  let ri ← getRi
  if ri.doesSynchronousWrites = true then do
    let unsynced ← hasUnsyncedEntries
    fatalIf (unsynced = true)
  else do
    assert (ri.newestSync.index ≤ ri.newestUnsync.index)
    durable Store.flush
    updateNewestEntryHdr ri.newestUnsync .sync false
    assert (ri.lastApplied.syncedIdx ≤ ri.lastApplied.idx)
    modifyRi fun ri => { ri with lastApplied :=
      { ri.lastApplied with syncedIdx := max ri.lastApplied.syncedIdx ri.lastApplied.idx } }

/-- `raft_server_backend_sync_pending`, less the wakeup of the sender. -/
def backendSyncPending : Server n Unit := do
  let unsynced ← hasUnsyncedEntries
  whenever (unsynced = true) backendSync

/-- `raft_server_log_header_write_prep`. -/
def logHeaderWritePrep (candidate : Option (Fin n)) (candidateTerm : Int) : Server n Unit := do
  let ri ← getRi
  fatalIf (candidate ≠ none ∧ ri.logHdr.term > candidateTerm)
  modifyRi fun ri => { ri with logHdr := ⟨candidateTerm, candidate, ri.logHdr.seqno + 1⟩ }

/-- `rib_header_write`. -/
def headerWrite : Server n Unit := do
  let ri ← getRi
  durable fun st => st.put { st.db with hdr := ri.logHdr } true

/-- `raft_server_log_header_write`. -/
def logHeaderWrite (candidate : Option (Fin n)) (candidateTerm : Int) : Server n Unit := do
  logHeaderWritePrep candidate candidateTerm
  headerWrite
  backendSync

/-- `raft_server_log_truncate`. -/
def logTruncate : Server n Unit := do
  let ri ← getRi
  let truncEntryIdx := ri.currentIdx .sync + 1
  assert (0 ≤ truncEntryIdx)
  durable fun st => st.put (st.db.truncate truncEntryIdx.toNat) true

/-! ## Reads -/

/-- `read_server_entry_validate`. -/
def entryValidate (ri : RaftInstance n) (rh : EntryHeader) (expectedRehIdx : Int) :
    Except Errno EntryHeader :=
  if ri.entryMaxDataSize < rh.dataSize then .error .EINVAL
  else if rh.index ≠ expectedRehIdx then .error .EBADSLT
  else .ok rh

/-- `raft_server_entry_read_by_store_common`: the stored entry, or `-ERANGE` for an entry that
was compacted.  An index past the newest entry fails an assertion, unless the process is
booting, and so does an entry the backend does not hold. -/
def entryReadByStoreCommon (idx : Int) : Server n (Except Errno Entry) := do
  let ri ← getRi
  assert (0 ≤ idx)
  assert (idx ≤ ri.currentIdx .unsync ∨ ri.procState = .booting)
  if idx < ri.lowestIdx then pure (.error .ERANGE)
  else
    match ri.store.db.read idx.toNat with
    | none => abort
    | some re => pure (.ok re)

/-- `raft_server_entry_header_read_by_store`. -/
def entryHeaderReadByStore (rehIndex : Int) : Server n (Except Errno EntryHeader) :=
  if rehIndex < 0 then pure (.error .EINVAL)
  else do
    let ri ← getRi
    let re ← entryReadByStoreCommon rehIndex
    pure (re.bind fun re => entryValidate ri re.header rehIndex)

/-- `raft_server_entry_read`.  It ignores the result of the read: after `-ERANGE` the
validation sees a header that was never filled in, and fails. -/
def entryRead [Externals] (reIdx : Int) (len : Nat) : Server n (Except Errno (List UInt8)) := do
  let ri ← getRi
  let re ← entryReadByStoreCommon reIdx
  pure <| match re with
    | .error _ => .error .EINVAL
    | .ok re => do
        let _ ← entryValidate ri re.header reIdx
        if re.header.dataSize < len then .error .ENOSPC
        else do
          entryCheckCrc re
          pure (re.data.take len)

end RaftServer

end NiovaRaft
