import NiovaRaft.Model.Election

/-!
# AppendEntries at the follower

The handling of an `APPEND_ENTRIES` request: the term check, the comparison of the follower's
log with the index and term the request names, pruning, the write of the carried entry, the
advance of the commit index and the reply.  Fault injection is off.

A request names the entry before the carried one (`prevLogIndex`, `prevLogTerm`) and the term
of the carried one (`logTerm`).  A follower whose log ends at `prevLogIndex` compares the terms
there.  A follower whose log is longer first looks whether it holds the carried entry already,
and otherwise prunes its log down to `prevLogIndex`.
-/

namespace NiovaRaft

variable {n : Nat}

namespace RaftServer

open Base Base.Handler

/-! ## The log against the request -/

/-- `raft_server_append_entry_check_already_stored`. -/
def appendEntryCheckAlreadyStored (raerq : AppendEntriesRequestMsg) : Server n Bool := do
  let ri ← getRi
  assert (ri.isFollower = true)
  if raerq.entryOutOfRange = true then pure false
  else do
    assert (raerq.prevLogIndex ≥ -1)
    let leadersNextIdxForMe := raerq.prevLogIndex + 1
    assert (ri.currentIdx .unsync ≥ leadersNextIdxForMe)
    let stored ←
      if raerq.logTerm > 0 then do
        let reh ← entryHeaderReadByStore leadersNextIdxForMe
        match reh with
        | .error _ => abort
        | .ok reh =>
            if reh.term ≠ raerq.logTerm then pure false
            else do
              fatalIf (raerq.thisIdxCrc ≠ reh.crc ∧ raerq.heartbeatMsg = false)
              pure true
      else pure true
    if stored = false then pure false
    else if raerq.prevLogIndex ≥ 0 then do
      let reh ← entryHeaderReadByStore raerq.prevLogIndex
      match reh with
      | .error _ => abort
      | .ok reh => do
          fatalIf (reh.term ≠ raerq.prevLogTerm)
          fatalIf (raerq.prevIdxCrc ≠ reh.crc)
          pure true
    else pure true

/-- `raft_server_append_entry_log_prune_if_needed`. -/
def appendEntryLogPruneIfNeeded (raerq : AppendEntriesRequestMsg) : Server n Unit := do
  let ri ← getRi
  assert (ri.isFollower = true)
  assert (raerq.prevLogIndex ≥ -1)
  let raftEntryIdxPrune := raerq.prevLogIndex + 1
  backendSync
  fatalIf (ri.commitIdx ≥ raftEntryIdxPrune ∨ ri.lastApplied.idx ≥ raftEntryIdxPrune)
  whenever (raerq.prevLogIndex ≥ 0) do
    let reh ← entryHeaderReadByStore raerq.prevLogIndex
    match reh with
    | .error _ => abort
    | .ok reh => updateNewestEntryHdr reh .all true
  logTruncate

/-- `raft_server_follower_index_ahead_of_leader`: the outcome, and the header that is the
newest one afterwards. -/
def followerIndexAheadOfLeader (raerq : AppendEntriesRequestMsg) :
    Server n (Except Errno Unit × EntryHeader) := do
  let stored ← appendEntryCheckAlreadyStored raerq
  if stored = true then do
    let ri ← getRi
    pure (.error .EALREADY, ri.newestSync)
  else do
    appendEntryLogPruneIfNeeded raerq
    let unsynced ← hasUnsyncedEntries
    assert (unsynced = false)
    let ri ← getRi
    pure (.ok (), ri.newestSync)

/-- `raft_server_append_entry_request_bounds_check`. -/
def appendEntryRequestBoundsCheck (ri : RaftInstance n) (raerq : AppendEntriesRequestMsg) :
    Except Errno Unit :=
  if raerq.prevLogIndex ≠ -1 ∧ raerq.prevLogIndex < raerq.lowestIndex then .error .EBADR
  else if raerq.prevLogIndex < ri.lowestIdx then .error .EBADR
  else if raerq.entryOutOfRange = true then .error .EBADR
  else .ok ()

/-- The comparison that ends `raft_server_append_entry_log_prepare_and_check`, with the
assertion before it. -/
def compareWithLeader (reh : EntryHeader) (raerq : AppendEntriesRequestMsg) :
    Server n (Except Errno Unit) := do
  assert (reh.index ≤ raerq.prevLogIndex)
  pure (if reh.index < raerq.prevLogIndex then .error .ERANGE
    else if reh.term ≠ raerq.prevLogTerm then .error .EEXIST
    else .ok ())

/-- `raft_server_append_entry_log_prepare_and_check`. -/
def appendEntryLogPrepareAndCheck (raerq : AppendEntriesRequestMsg) :
    Server n (Except Errno Unit) := do
  let ri ← getRi
  match appendEntryRequestBoundsCheck ri raerq with
  | .error rc => pure (.error rc)
  | .ok () =>
      if ri.newestUnsync.index > raerq.prevLogIndex then do
        let ahead ← followerIndexAheadOfLeader raerq
        match ahead with
        | (.error rc, _) => pure (.error rc)
        | (.ok (), reh) => compareWithLeader reh raerq
      else compareWithLeader ri.newestUnsync raerq

/-! ## The term -/

/-- `raft_server_process_append_entries_term_check_ops`. -/
def processAppendEntriesTermCheckOps (sender : Fin n) (raerq : AppendEntriesRequestMsg) :
    Server n (Except Errno Unit) := do
  let ri ← getRi
  let leaderTerm := raerq.leaderTerm
  if ri.logHdr.term > leaderTerm then pure (.error .ESTALE)
  else do
    if ri.isCandidate = true ∨ ri.isCandidatePrevote = true then
      becomesFollower leaderTerm (some sender) .staleTermWhileCandidate
    else if ri.logHdr.term < leaderTerm ∧ ri.isLeader = true then
      becomesFollower leaderTerm (some sender) .staleTermWhileLeader
    else if ri.logHdr.term < leaderTerm ∧ ri.isFollower = true then
      tryUpdateLogHeaderNullVotedForPeer leaderTerm
    else pure ()
    setLeaderCsn sender
    pure (.ok ())

/-! ## The write and the reply -/

/-- `raft_server_write_new_entry_from_leader`.  `num_entries` is narrowed to eight bits. -/
def writeNewEntryFromLeader [Externals] (raerq : AppendEntriesRequestMsg) : Server n Unit := do
  let ri ← getRi
  assert (ri.isFollower = true)
  if raerq.heartbeatMsg = true then pure ()
  else do
    assert (raerq.logTerm > 0)
    assert (raerq.logTerm ≥ raerq.prevLogTerm)
    assert (raerq.logTerm ≥ ri.newestUnsync.term)
    let numEntries := raerq.numEntries % 256
    assert (raerq.entriesSz ≤ ri.entryMaxDataSize)
    assert (ri.newestUnsync.index = raerq.prevLogIndex)
    assert (raerq.leaderChangeMarker = false ∨ numEntries = 1)
    writeNextEntry raerq.logTerm raerq.entries (raerq.sizeArr.take numEntries)
      raerq.leaderChangeMarker

/-- `raft_server_process_append_entries_request_prep_reply`. -/
def processAppendEntriesRequestPrepReply (ri : RaftInstance n) (raerq : AppendEntriesRequestMsg)
    (staleTerm nonMatchingPrevTerm updateSli : Bool) (rc : Except Errno Unit) :
    AppendEntriesReplyMsg :=
  let currentIdx := ri.currentIdx .sync
  { leaderTerm := ri.logHdr.term
    prevLogIndex := raerq.prevLogIndex
    syncedLogIndex := if rc.isOk ∨ nonMatchingPrevTerm = true then currentIdx else -1
    heartbeatMsg := raerq.heartbeatMsg
    errStaleTerm := staleTerm
    errNonMatchingPrevTerm := nonMatchingPrevTerm
    newlyInitializedPeer := currentIdx = -1
    updateSli := updateSli }

/-- `raft_server_append_entry_reply_send`. -/
def appendEntryReplySend (raerq : AppendEntriesRequestMsg) (sender : Fin n)
    (staleTerm nonMatchingPrevTerm updateSli : Bool) (aeRc : Except Errno Unit) :
    Server n Unit := do
  let ri ← getRi
  sendMsg (some sender) (.appendEntriesReply
    (processAppendEntriesRequestPrepReply ri raerq staleTerm nonMatchingPrevTerm updateSli aeRc))

/-- `raft_server_process_append_entries_request_validity_check`. -/
def processAppendEntriesRequestValidityCheck (ri : RaftInstance n)
    (raerq : AppendEntriesRequestMsg) : Except Errno Unit :=
  if raerq.prevLogIndex < -1 ∨ raerq.entriesSz > ri.entryMaxDataSize then .error .EINVAL
  else .ok ()

/-- `raft_server_advance_commit_idx`, less the wakeup of the state machine. -/
def advanceCommitIdx (newCommitIdx : Int) : Server n Unit := do
  let ri ← getRi
  whenever (ri.commitIdx < newCommitIdx ∧ ri.currentIdx .sync ≥ newCommitIdx) do
    modifyRi fun ri => { ri with commitIdx := newCommitIdx }
    observe fun ri => .commits ri.state ri.logHdr.term newCommitIdx ri.log

/-- `raft_server_process_bulk_recovery_check`, with `raft_server_init_recovery_handle`. -/
def processBulkRecoveryCheck (sender : Fin n) (raerq : AppendEntriesRequestMsg) :
    Server n (Except Errno Unit) := do
  let ri ← getRi
  if raerq.entryOutOfRange = false then pure (.ok ())
  else if ri.currentIdx .unsync ≥ raerq.lowestIndex then pure (.error .EAGAIN)
  else do
    modifyRi fun ri =>
      { ri with needsBulkRecovery := true, recoveryHandle := ⟨some sender, raerq.chkptIndex, false⟩ }
    pure (.error .ERANGE)

/-- The cases on the outcome of `raft_server_append_entry_log_prepare_and_check`.  The result
is whether the reply says that the previous term does not match. -/
def processAppendEntriesOutcome [Externals] (raerq : AppendEntriesRequestMsg) :
    Except Errno Unit → Server n Bool
  | .ok () => do
      whenever (raerq.heartbeatMsg = false) (writeNewEntryFromLeader raerq)
      advanceCommitIdx raerq.commitIndex
      pure false
  | .error .EBADR => pure false
  | .error .EALREADY => do
      let ri ← getRi
      advanceCommitIdx (min raerq.commitIndex (ri.currentIdx .sync))
      pure false
  | .error _ => pure true

/-- `raft_server_process_append_entries_request` once a request is valid and needs no bulk
recovery. -/
def processValidAppendEntries [Externals] (sender : Fin n) (raerq : AppendEntriesRequestMsg)
    (updateSli : Bool) : Server n Unit := do
  let rc ← processAppendEntriesTermCheckOps sender raerq
  match rc with
  | .error e => appendEntryReplySend raerq sender true false updateSli (.error e)
  | .ok () =>
      if updateSli = true then appendEntryReplySend raerq sender false false true (.ok ())
      else do
        let rc ← appendEntryLogPrepareAndCheck raerq
        let nonMatchingPrevTerm ← processAppendEntriesOutcome raerq rc
        appendEntryReplySend raerq sender false nonMatchingPrevTerm false rc

/-- `raft_server_process_append_entries_request`. -/
def processAppendEntriesRequest [Externals] (sender : Fin n)
    (raerq : AppendEntriesRequestMsg) : Server n Unit := do
  let ri ← getRi
  match processAppendEntriesRequestValidityCheck ri raerq with
  | .error _ => pure ()
  | .ok () => do
      let rc ← processBulkRecoveryCheck sender raerq
      match rc with
      | .ok () => processValidAppendEntries sender raerq false
      | .error .EAGAIN => processValidAppendEntries sender raerq true
      | .error _ => pure ()

end RaftServer

end NiovaRaft
