import NiovaRaft.Base.Threads
import NiovaRaft.Model.AppendEntries
import NiovaRaft.Model.Apply

/-!
# The sync thread beside the main thread

The event loop runs in the main thread.  With asynchronous writes a second thread syncs the backend
and moves the `SYNC` header on.  The two share the newest headers, each access under
`ri_newest_entry_mutex`, and the last-applied record.  `raft_server_backend_sync` is serialised by
a mutex of its own.

Here the functions that touch the newest headers are cut at their critical sections.  What the main
thread reads and no other thread writes is read in the section it is used in.  Writes are
asynchronous throughout.
-/

namespace NiovaRaft

open Base Base.Handler RaftServer

variable {n : Nat}

/-- The two threads. -/
inductive Thread where
  | main | sync
deriving DecidableEq, Repr

/-- The critical sections, one name for each that touches the newest headers, the last-applied
record or the backend. -/
inductive SyncSection where
  | hasUnsyncedEntries
  /-- Those of `raft_server_backend_sync`. -/
  | lockSync | copyApplied | copyUnsync | checkSync | backendSync | publishSync | unlockSync
  /-- Those of `raft_server_write_next_entry`. -/
  | prepareEntry | writeEntry | newestEntry
  /-- Those of `raft_server_log_header_write`. -/
  | prepareHeader | writeHeader
  /-- Those of `raft_server_append_entry_log_prepare_and_check`. -/
  | checkBounds | checkStored | checkPrune | checkCommitted | readHeader | forceNewest
  | currentSync | truncate | assertSynced
  | stateMachineApply
  /-- What the main thread does besides. -/
  | elsewhere
deriving DecidableEq, Repr

/-- What the threads share: the process, the mutex of `raft_server_backend_sync`, and the `UNSYNC`
header that the sync thread has copied and not yet published.  The last is kept for the record: no
section reads it. -/
structure SyncShared (n : Nat) where
  proc : Proc n
  syncMutex : Option Thread
  copied : Option EntryHeader

/-- A program of one of the threads. -/
abbrev SyncProg (n : Nat) (α : Type) : Type 1 := Prog SyncSection (SyncShared n) α

namespace SyncThread

/-- A section of the functions of the server. -/
def onProc {α : Type} (m : Server n α) : Handler (SyncShared n) α := fun s =>
  match m s.proc with
  | .ok a p => .ok a { s with proc := p }
  | .abort p => .abort { s with proc := p }

/-- Record what the sync thread has copied. -/
def record (thread : Thread) (reh : Option EntryHeader) : Handler (SyncShared n) Unit :=
  Handler.whenever (thread = .sync) (modify fun s => { s with copied := reh })

/-! ## Syncing -/

/-- `raft_server_has_unsynced_entries`. -/
def hasUnsyncedEntries : SyncProg n Bool :=
  .critical .hasUnsyncedEntries (onProc RaftServer.hasUnsyncedEntries)

/-- `raft_server_backend_sync`.  Both backends' `rib_backend_sync` succeed. -/
def backendSync (thread : Thread) : SyncProg n Unit := do
  .await .lockSync (fun s => decide (s.syncMutex = none))
    (modify fun s => { s with syncMutex := some thread })
  let myLastAppliedIdx ← .critical .copyApplied (gets (·.proc.ri.lastApplied.idx))
  let unsyncReh ← .critical .copyUnsync do
    let unsyncReh ← gets (·.proc.ri.newestUnsync)
    record thread (some unsyncReh)
    pure unsyncReh
  .critical .checkSync (onProc do
    let ri ← getRi
    assert (ri.currentIdx .sync ≤ unsyncReh.index))
  .critical .backendSync (onProc (durable Store.flush))
  .critical .publishSync do
    onProc (updateNewestEntryHdr unsyncReh .sync false)
    record thread none
  .critical .unlockSync do
    onProc do
      let ri ← getRi
      assert (ri.lastApplied.syncedIdx ≤ ri.lastApplied.idx)
      assert (ri.lastApplied.syncedIdx ≤ myLastAppliedIdx)
      modifyRi fun ri => { ri with lastApplied :=
        { ri.lastApplied with syncedIdx := max ri.lastApplied.syncedIdx myLastAppliedIdx } }
    modify fun s => { s with syncMutex := none }

/-- `raft_server_backend_sync_pending`, less the wakeup of the sender. -/
def backendSyncPending (thread : Thread) : SyncProg n Unit := do
  let unsynced ← hasUnsyncedEntries
  .whenever (unsynced = true) (backendSync thread)

/-- An iteration of `raft_server_sync_thread`, less the leader's look at its commit index. -/
def syncThread : SyncProg n Unit := do
  let unsynced ← hasUnsyncedEntries
  .whenever (unsynced = true) (backendSyncPending .sync)

/-! ## The main thread -/

/-- `raft_server_write_next_entry`. -/
def writeNextEntry [Externals] (term : Int) (data : List UInt8) (wrEntrySizes : List Nat)
    (leaderChangeMarker : Bool) : SyncProg n Unit := do
  let re ← .critical .prepareEntry (onProc do
    let ri ← getRi
    assert (term ≥ ri.newestUnsync.term)
    let nextEntryIdx := ri.newestUnsync.index + 1
    fatalIf (nextEntryIdx < 0)
    fatalIf (ri.entryMaxDataSize < wrEntrySizes.sum)
    let re ← entryInit nextEntryIdx term data wrEntrySizes leaderChangeMarker
    let valid ← entryNextEntryIsValid re.header
    assert (valid = true)
    pure re)
  .critical .writeEntry (onProc (entryWriteByStore re))
  .critical .newestEntry (onProc (updateNewestEntryHdr re.header .unsync false))

/-- `raft_server_log_header_write`. -/
def logHeaderWrite (candidate : Option (Fin n)) (candidateTerm : Int) : SyncProg n Unit := do
  .critical .prepareHeader (onProc (logHeaderWritePrep candidate candidateTerm))
  .critical .writeHeader (onProc headerWrite)
  backendSync .main

/-- `raft_server_log_truncate`. -/
def logTruncate : SyncProg n Unit := do
  let idx ← .critical .currentSync (gets (·.proc.ri.currentIdx .sync))
  .critical .truncate (onProc do
    assert (0 ≤ idx + 1)
    durable fun st => st.put (st.db.truncate (idx + 1).toNat) true)

/-- `raft_server_append_entry_log_prune_if_needed`. -/
def appendEntryLogPruneIfNeeded (raerq : AppendEntriesRequestMsg) : SyncProg n Unit := do
  .critical .checkPrune (onProc do
    let ri ← getRi
    assert (ri.isFollower = true)
    assert (raerq.prevLogIndex ≥ -1))
  backendSync .main
  .critical .checkCommitted (onProc do
    let ri ← getRi
    fatalIf (ri.commitIdx ≥ raerq.prevLogIndex + 1 ∨ ri.lastApplied.idx ≥ raerq.prevLogIndex + 1))
  .whenever (raerq.prevLogIndex ≥ 0) do
    let reh ← .critical .readHeader (onProc do
      let reh ← entryHeaderReadByStore raerq.prevLogIndex
      match reh with
      | .error _ => abort
      | .ok reh => pure reh)
    .critical .forceNewest (onProc (updateNewestEntryHdr reh .all true))
  logTruncate

/-- `raft_server_follower_index_ahead_of_leader`, as far as it changes the log. -/
def followerIndexAheadOfLeader (raerq : AppendEntriesRequestMsg) : SyncProg n Unit := do
  let stored ← .critical .checkStored (onProc (appendEntryCheckAlreadyStored raerq))
  .whenever (stored = false) do
    appendEntryLogPruneIfNeeded raerq
    let unsynced ← hasUnsyncedEntries
    .critical .assertSynced (assert (unsynced = false))

/-- `raft_server_append_entry_log_prepare_and_check`, as far as it changes the log. -/
def appendEntryLogPrepareAndCheck (raerq : AppendEntriesRequestMsg) : SyncProg n Unit := do
  let ahead ← .critical .checkBounds (onProc do
    let ri ← getRi
    pure (decide ((appendEntryRequestBoundsCheck ri raerq).isOk = true ∧
      ri.newestUnsync.index > raerq.prevLogIndex)))
  .whenever (ahead = true) (followerIndexAheadOfLeader raerq)

/-! ## The threads -/

/-- Anything else that the main thread does to its instance: it leaves the newest headers and the
entries alone. -/
structure Elsewhere (n : Nat) where
  run : RaftInstance n → RaftInstance n
  opts : ∀ ri, (run ri).opts = ri.opts
  newestSync : ∀ ri, (run ri).newestSync = ri.newestSync
  newestUnsync : ∀ ri, (run ri).newestUnsync = ri.newestUnsync
  entries : ∀ ri, (run ri).store.db.entries = ri.store.db.entries

/-- What a thread may be made to do.  The sync thread does one thing. -/
inductive Op (n : Nat) where
  | syncThread
  | write (term : Int) (data : List UInt8) (wrEntrySizes : List Nat) (leaderChangeMarker : Bool)
  | append (raerq : AppendEntriesRequestMsg)
  | header (candidate : Option (Fin n)) (candidateTerm : Int)
  | syncPending
  | apply (cb : SmRequestCb)
  | elsewhere (change : Elsewhere n)

/-- The programs of the threads. -/
def program [Externals] : Thread → Op n → SyncProg n Unit
  | .sync, _ => syncThread
  | .main, .write term data sizes marker => writeNextEntry term data sizes marker
  | .main, .append raerq => appendEntryLogPrepareAndCheck raerq
  | .main, .header candidate term => logHeaderWrite candidate term
  | .main, .syncPending => backendSyncPending .main
  | .main, .apply cb => .critical .stateMachineApply (onProc (RaftServer.stateMachineApply cb))
  | .main, .elsewhere change => .critical .elsewhere (onProc (modifyRi change.run))
  | .main, .syncThread => pure ()

/-- Both threads are idle. -/
def started (ri : RaftInstance n) : SyncShared n := ⟨⟨ri, [], [], none⟩, none, none⟩

end SyncThread

end NiovaRaft
