import NiovaRaft.Model.Apply

/-!
# Startup

What a process makes of the contents of its backend.  The log header gives the term and the
vote, the entries are scanned for the newest valid one, and everything past it is truncated.
The process starts as a follower that knows no leader and has nothing committed.  Only a
persistent application keeps its last-applied record.
-/

namespace NiovaRaft

variable {n : Nat}

namespace RaftServer

open Base Base.Handler

/-- The value of an instance after `raft_server_instance_init`,
`raft_instance_initialize_newest_entry_hdr` and the backend's setup: the lowest index and the
last-applied record come from the backend. -/
def instanceInit (self : Fin n) (opts : Options) (db : Db n) : RaftInstance n :=
  { self := self
    opts := opts
    procState := .booting
    state := .none
    followerReason := .none
    csnLeader := none
    logHdr := ⟨0, none, 0⟩
    candidate := ⟨0, false, fun _ => .unknown⟩
    leader := ⟨0, 0, fun _ => FollowerInfo.zero⟩
    commitIdx := -1
    lastApplied :=
      if opts.storeType = .rocksdbPersistentApp then db.lastApplied.getD LastApplied.initial
      else LastApplied.initial
    checkpointLastIdx := if opts.storeType = .posixFlatFile then -1 else db.chkptIdx
    lowestIdx :=
      if opts.storeType = .posixFlatFile ∨ db.entries = [] then -1 else db.reaped
    newestSync := EntryHeader.null
    newestUnsync := EntryHeader.null
    needsBulkRecovery := false
    recoveryHandle := ⟨none, 0, false⟩
    store := ⟨db, [db]⟩ }

/-- `raft_instance_initialize_newest_entry_hdr`. -/
def initializeNewestEntryHdr : Server n Unit :=
  modifyRi fun ri => { ri with newestSync := EntryHeader.null, newestUnsync := EntryHeader.null }

/-- `raft_server_header_load`. -/
def headerLoad : Server n Unit :=
  modifyRi fun ri => { ri with logHdr := ri.store.db.hdr }

/-- `raft_server_entries_scan_internal`: `count` entries are read from index `i` on, in a scan
that began at `start`. -/
def entriesScanInternal (start : Int) : Nat → Int → Server n (Except Errno Unit)
  | 0, _ => pure (.ok ())
  | count + 1, i => do
      let reh ← entryHeaderReadByStore i
      match reh with
      | .error rc => pure (.error rc)
      | .ok reh => do
          let valid ← if start ≠ 0 ∧ i > start then entryNextEntryIsValid reh else pure true
          if valid = false then pure (.error .EINVAL)
          else do
            updateNewestEntryHdr reh .all false
            entriesScanInternal start count (i + 1)

/-- Where `raft_server_entries_scan` starts. -/
def scanStartingEntry (ri : RaftInstance n) (entryMaxIdx : Int) : Int :=
  if ri.opts.storeType = .rocksdbPersistentApp ∧ ri.opts.maxScanEntries > 0 ∧
      entryMaxIdx > ri.opts.maxScanEntries then
    max ri.lowestIdx (entryMaxIdx - ri.opts.maxScanEntries)
  else max 0 ri.lowestIdx

/-- `raft_server_entries_scan`. -/
def entriesScan : Server n (Except Errno Unit) := do
  let ri ← getRi
  let entryMaxIdx : Int := ri.store.db.entries.length
  if entryMaxIdx = 0 then pure (.ok ())
  else do
    let startingEntry := scanStartingEntry ri entryMaxIdx
    let rc ←
      if startingEntry > 0 then do
        let rc ← entriesScanInternal ri.lowestIdx
          (min (ri.lowestIdx + 1000) entryMaxIdx - ri.lowestIdx).toNat ri.lowestIdx
        whenever (rc.isOk = true) initializeNewestEntryHdr
        pure rc
      else pure (.ok ())
    match rc with
    | .error rc => pure (.error rc)
    | .ok () => entriesScanInternal startingEntry (entryMaxIdx - startingEntry).toNat startingEntry

/-- `raft_server_log_load`. -/
def logLoad : Server n (Except Errno Unit) := do
  headerLoad
  let rc ← entriesScan
  whenever (rc.isOk = true) logTruncate
  pure rc

/-- The log is loaded, and `raft_server_main_loop` is entered as a follower. -/
def instanceStartup : Server n (Except Errno Unit) := do
  let rc ← logLoad
  whenever (rc.isOk = true)
    (modifyRi fun ri =>
      { ri with
        procState := .running, state := .follower, followerReason := .leaderAlreadyPresent })
  pure rc

/-- The instance of a process started on a backend.  A process that fails to start is down. -/
def instanceRun (self : Fin n) (opts : Options) (db : Db n) : RaftInstance n :=
  match instanceStartup (⟨instanceInit self opts db, [], [], none⟩ : Proc n) with
  | .ok (.ok ()) s => s.ri
  | .ok (.error _) s => { s.ri with procState := .shutdown }
  | .abort s => { s.ri with procState := .shutdown }

/-- The backend of a server that never ran. -/
def freshDb : Db n := ⟨⟨0, none, 0⟩, [], 0, none, [], -1⟩

end RaftServer

end NiovaRaft
