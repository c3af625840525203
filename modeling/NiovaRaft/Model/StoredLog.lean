import NiovaRaft.Model.Startup

/-!
# The stored log at startup

`raft_server_log_load` once more, over headers as a backend may return them.  A backend that was not
shut down may hold anything past some entry: the header may be missing, or be the remains of another
write.  `Model.Startup` loads a log in which every header is its entry's own.

The backend tells how many entries it has detected and where the log begins.  A header that it
cannot read kills the process.
-/

namespace NiovaRaft

open Base Base.Handler

/-- `RAFT_ENTRY_MAGIC`. -/
def entryMagic : Nat := 0x1a2b3c4dd4c3b2a1

/-- `LOG_INITIAL_SCAN_SZ`. -/
def logInitialScanSz : Int := 1000

/-- `struct raft_entry_header` with what tells whose it is. -/
structure StoredHeader where
  magic : Nat
  selfUuid : Nat
  raftUuid : Nat
  reh : EntryHeader
deriving DecidableEq, Repr

/-- The header of an empty log. -/
def StoredHeader.null : StoredHeader := ⟨0, 0, 0, .null⟩

@[simp] theorem StoredHeader.null_index : StoredHeader.null.reh.index = -1 := rfl

/-- What `rib_entry_header_read` finds, the number of entries detected at startup and the lowest
index, which is `-1` where there is none. -/
structure StoredLog where
  headers : Nat → Option StoredHeader
  entriesDetected : Nat
  lowestIdx : Int

/-- `rib_log_truncate`. -/
def StoredLog.truncate (log : StoredLog) (entryIdx : Int) : StoredLog :=
  { log with
    headers := fun i => if (i : Int) < entryIdx then log.headers i else none
    entriesDetected := min log.entriesDetected entryIdx.toNat }

/-- The errors of a scan. -/
inductive ScanErrno where
  | EINVAL | ERANGE | EBADSLT | EKEYREJECTED
deriving DecidableEq, Repr

/-- The part of `struct raft_instance` that is used to load the log.  Whether the log header could
be loaded is the backend's answer. -/
structure LoadProc where
  opts : Options
  selfUuid : Nat
  raftUuid : Nat
  headerLoad : Except ScanErrno Unit
  log : StoredLog
  newestSync : StoredHeader
  newestUnsync : StoredHeader

abbrev Loader : Type → Type := Base.Handler LoadProc

namespace Loader

/-- `read_server_entry_validate`. -/
def entryValidate (p : LoadProc) (rh : StoredHeader) (expectedRehIdx : Int) :
    Except ScanErrno StoredHeader :=
  if rh.magic ≠ entryMagic ∨ rh.reh.dataSize > p.opts.storeType.entryMaxDataSize then .error .EINVAL
  else if rh.reh.index ≠ expectedRehIdx then .error .EBADSLT
  else if rh.selfUuid ≠ p.selfUuid ∨ rh.raftUuid ≠ p.raftUuid then .error .EKEYREJECTED
  else .ok rh

/-- `raft_server_entry_read_by_store_common`, for a header and while booting. -/
def entryReadByStoreCommon (idx : Int) : Loader (Except ScanErrno StoredHeader) := do
  let p ← get
  if idx < p.log.lowestIdx then pure (.error .ERANGE)
  else
    match p.log.headers idx.toNat with
    | none => abort
    | some reh => pure (.ok reh)

/-- `raft_server_entry_header_read_by_store`. -/
def entryHeaderReadByStore (rehIndex : Int) : Loader (Except ScanErrno StoredHeader) :=
  if rehIndex < 0 then pure (.error .EINVAL)
  else do
    let p ← get
    let reh ← entryReadByStoreCommon rehIndex
    pure (reh.bind fun reh => entryValidate p reh rehIndex)

/-- `raft_server_entry_next_entry_is_valid`. -/
def entryNextEntryIsValid (nextReh : StoredHeader) : Loader Bool :=
  if nextReh.reh.index < 0 then pure true
  else do
    let p ← get
    fatalIf (p.opts.synchronousWrites = true ∧
      p.newestUnsync.reh.index ≠ p.newestSync.reh.index)
    pure (decide (nextReh.reh.index = p.newestUnsync.reh.index + 1 ∧
      p.newestUnsync.reh.term ≤ nextReh.reh.term))

/-- One header of `raft_instance_update_newest_entry_hdr`. -/
def updateHdr (reh tgt : StoredHeader) : StoredHeader :=
  if reh.reh.index > tgt.reh.index then reh else tgt

/-- `raft_instance_update_newest_entry_hdr`, for both headers and without force. -/
def updateNewestEntryHdr (reh : StoredHeader) : Loader Unit :=
  if reh.reh.index < 0 then pure ()
  else do
    let p ← get
    assert (p.opts.synchronousWrites = false ∨ (reh.reh.index > p.newestSync.reh.index ∧
      reh.reh.index > p.newestUnsync.reh.index))
    modify fun p =>
      { p with
        newestSync := updateHdr reh p.newestSync
        newestUnsync := updateHdr reh p.newestUnsync }

/-- `raft_instance_initialize_newest_entry_hdr`. -/
def initializeNewestEntryHdr : Loader Unit :=
  modify fun p => { p with newestSync := .null, newestUnsync := .null }

/-- Whether entry `i` may follow in a scan that began at `start`.  The first entry of a scan is not
compared with the newest one, and in a scan from index zero no entry is. -/
def scannedEntryIsValid (start i : Int) (reh : StoredHeader) : Loader Bool :=
  if start ≠ 0 ∧ i > start then entryNextEntryIsValid reh else pure true

/-- `raft_server_entries_scan_internal`: `count` entries are read from index `i` on, in a scan that
began at `start`. -/
def entriesScanInternal (start : Int) : Nat → Int → Loader (Except ScanErrno Unit)
  | 0, _ => pure (.ok ())
  | count + 1, i => do
      let reh ← entryHeaderReadByStore i
      match reh with
      | .error rc => pure (.error rc)
      | .ok reh => do
          let valid ← scannedEntryIsValid start i reh
          if valid = false then pure (.error .EINVAL)
          else do
            updateNewestEntryHdr reh
            entriesScanInternal start count (i + 1)

/-- Where `raft_server_entries_scan` starts. -/
def scanStartingEntry (p : LoadProc) : Int :=
  if p.opts.storeType = .rocksdbPersistentApp ∧ p.opts.maxScanEntries > 0 ∧
      (p.log.entriesDetected : Int) > p.opts.maxScanEntries then
    max p.log.lowestIdx (p.log.entriesDetected - p.opts.maxScanEntries)
  else max 0 p.log.lowestIdx

/-- The scan of the start of the log, when the main one begins further on.  The newest headers are
cleared after it. -/
def initialScan (startingEntry : Int) : Loader (Except ScanErrno Unit) := do
  let p ← get
  if startingEntry > 0 then do
    let rc ← entriesScanInternal p.log.lowestIdx
      (min (p.log.lowestIdx + logInitialScanSz) p.log.entriesDetected - p.log.lowestIdx).toNat
      p.log.lowestIdx
    whenever (rc.isOk = true) initializeNewestEntryHdr
    pure rc
  else pure (.ok ())

/-- `raft_server_entries_scan`. -/
def entriesScan : Loader (Except ScanErrno Unit) := do
  let p ← get
  if p.log.entriesDetected = 0 then pure (.ok ())
  else do
    let startingEntry := scanStartingEntry p
    let rc ← initialScan startingEntry
    match rc with
    | .error rc => pure (.error rc)
    | .ok () =>
        entriesScanInternal startingEntry (p.log.entriesDetected - startingEntry).toNat
          startingEntry

/-- `raft_server_log_truncate`. -/
def logTruncate : Loader Unit := do
  let p ← get
  assert (p.newestSync.reh.index + 1 ≥ 0)
  modify fun p => { p with log := p.log.truncate (p.newestSync.reh.index + 1) }

/-- `raft_server_log_load`. -/
def logLoad : Loader (Except ScanErrno Unit) := do
  let p ← get
  match p.headerLoad with
  | .error rc => pure (.error rc)
  | .ok () => do
      let rc ← entriesScan
      whenever (rc.isOk = true) logTruncate
      pure rc

end Loader

end NiovaRaft
