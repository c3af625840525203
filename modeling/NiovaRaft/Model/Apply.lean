import NiovaRaft.Model.Leader
import NiovaRaft.Model.Request

/-!
# Applying, syncing, compacting

What a server does beside the messages of its peers: the state machine's apply loop, the sync
thread, the checkpoint thread and the callbacks of the event loop.

The application is outside the repository: an apply is given the callback to call.  Of what the
callback does, the write supplements matter here.  Replies to clients are left out.
-/

namespace NiovaRaft

variable {n : Nat}

namespace RaftServer

open Base Base.Handler

/-! ## The state machine -/

/-- `raft_server_sm_apply_opt`: the batch is written without a flush.  The flat-file backend has no
such operation. -/
def smApplyOpt (batch : Option AppBatch) : Server n Unit := do
  let ri ← getRi
  whenever (ri.opts.storeType ≠ .posixFlatFile)
    (durable fun st => st.put (st.db.apply ri.lastApplied batch) false)

/-- `raft_server_set_last_applied`.  The result is the caller's record, moved to the next
sub-entry. -/
def setLastApplied (nai : LastApplied) : Server n LastApplied := do
  let ri ← getRi
  assert (nai.idx ≥ ri.lastApplied.idx ∧ nai.subIdx ≤ nai.subIdxMax)
  if nai.subIdx = nai.subIdxMax then do
    modifyRi fun ri => { ri with lastApplied :=
      { ri.lastApplied with
        idx := nai.idx, subIdx := nai.subIdx, subIdxMax := nai.subIdxMax,
        cumulativeCrc := nai.cumulativeCrc, kvCumulativeCrc := nai.kvCumulativeCrc } }
    pure nai
  else do
    modifyRi fun ri => { ri with lastApplied :=
      { ri.lastApplied with idx := nai.idx, subIdx := nai.subIdx, subIdxMax := nai.subIdxMax } }
    pure { nai with subIdx := nai.subIdx + 1 }

/-- `raft_server_needs_apply`. -/
def needsApply : Server n Bool := do
  let ri ← getRi
  assert (ri.lastApplied.idx ≤ ri.commitIdx)
  pure (decide (ri.lastApplied.idx < ri.commitIdx ∨
    (ri.lastApplied.idx = ri.commitIdx ∧ ri.lastApplied.subIdx < ri.lastApplied.subIdxMax)))

/-- `raft_server_next_apply_idx`. -/
def nextApplyIdx (la : LastApplied) : LastApplied :=
  if la.subIdx = la.subIdxMax then { la with subIdx := 0, subIdxMax := 0, idx := la.idx + 1 }
  else { la with subIdx := la.subIdx + 1 }

/-- `raft_server_get_raft_header_to_apply`. -/
def getRaftHeaderToApply : Server n (LastApplied × EntryHeader) := do
  let ri ← getRi
  assert (ri.lastApplied.subIdx ≤ ri.lastApplied.subIdxMax)
  let nai := nextApplyIdx ri.lastApplied
  let reh ← entryHeaderReadByStore nai.idx
  match reh with
  | .error _ => abort
  | .ok reh => do
      assert (ri.lastApplied.subIdx = ri.lastApplied.subIdxMax ∨
        reh.numEntries = ri.lastApplied.subIdxMax + 1)
      pure ({ nai with
        subIdxMax := reh.numEntries - 1
        cumulativeCrc := ri.lastApplied.cumulativeCrc ^^^ reh.crc }, reh)

/-- The handle of a sub-entry as the callback is given it. -/
def applyRequest (reh : EntryHeader) (nai : LastApplied) (data : List UInt8) (size : Nat) :
    Server n ClientRequestHandle := do
  let rncr ← netClientRequestInitSmApply data size
  pure { rncr with
    smWriteSupp := netSmWriteSupplementEnableKvCrc rncr.smWriteSupp nai.kvCumulativeCrc
    applyHandlerVersion := reh.applyHandlerVersion }

/-- The body of the loop over the sub-entries, for sub-entry `i`. -/
def applySubEntry [Externals] (cb : SmRequestCb) (reh : EntryHeader) (i : Nat) (data : List UInt8)
    (size : Nat) (nai : LastApplied) : Server n LastApplied := do
  let rncr ← applyRequest reh nai data size
  observe fun _ => .requests nai.idx i rncr
  let supp := (cb i rncr).foldl netSmWriteSupplementAdd rncr.smWriteSupp
  let sub : SubEntry := ⟨nai.idx, i, rncr.requestOrCommitData⟩
  let nai ← setLastApplied { nai with kvCumulativeCrc := netSmWriteSupplementGetKvCrc supp }
  smApplyOpt (some ⟨sub, supp.ws⟩)
  pure nai

/-- The loop over the sub-entries: sub-entry `i` lies at `offset` of the data.  Sub-entries
that were applied before are skipped. -/
def applySubEntries [Externals] (cb : SmRequestCb) (reh : EntryHeader) (data : List UInt8) :
    List Nat → Nat → Nat → LastApplied → Server n Unit
  | [], _, _, _ => pure ()
  | size :: sizes, i, offset, nai =>
      if i < nai.subIdx then applySubEntries cb reh data sizes (i + 1) (offset + size) nai
      else do
        let nai ← applySubEntry cb reh i ((data.drop offset).take size) size nai
        applySubEntries cb reh data sizes (i + 1) (offset + size) nai

/-- The wakeup for the next entry.  Of it only the check is modelled. -/
def notifyIfNeedsApply : Server n Unit := do
  let _ ← needsApply
  pure ()

/-- `raft_server_state_machine_apply`. -/
def stateMachineApply [Externals] (cb : SmRequestCb) : Server n Unit := do
  let needed ← needsApply
  whenever (needed = true) do
    let (nai, reh) ← getRaftHeaderToApply
    if reh.leaderChangeMarker = true ∨ reh.dataSize = 0 then do
      observe fun _ => .applies nai.idx reh.term reh.entrySz []
      let _ ← setLastApplied nai
      smApplyOpt none
      notifyIfNeedsApply
    else do
      let data ← entryRead nai.idx reh.dataSize
      match data with
      | .error _ => abort
      | .ok data => do
          observe fun _ => .applies nai.idx reh.term reh.entrySz data
          applySubEntries cb reh data (reh.entrySz.take reh.numEntries) 0 0 nai
          let ri ← getRi
          assert (ri.lastApplied.subIdx = ri.lastApplied.subIdxMax)
          notifyIfNeedsApply

/-! ## The other threads -/

/-- One round of `raft_server_sync_thread`.  What it computes about the commit index only
decides whether `raft_server_commit_idx_adv_evp_cb` is woken. -/
def syncThread : Server n Unit := do
  let ri ← getRi
  whenever (ri.doesSynchronousWrites = false) do
    let unsynced ← hasUnsyncedEntries
    whenever (unsynced = true) do
      backendSyncPending
      let _ ← leaderCanAdvanceCommitIdx true
      pure ()

/-- `raft_server_take_chkpt`, with `rsbr_checkpoint`, which names the checkpoint after the index
that was applied and synced, and `raft_server_set_checkpoint_last_idx`.  The errors `-ENODATA` and
`-EALREADY` change nothing. -/
def takeChkpt : Server n Unit := do
  let ri ← getRi
  let chkptIdx := ri.lastApplied.syncedIdx
  whenever (0 ≤ chkptIdx ∧ chkptIdx ≠ ri.checkpointLastIdx) do
    durable fun st => st.put { st.db with chkptIdx := chkptIdx } true
    fatalIf (chkptIdx < ri.checkpointLastIdx)
    modifyRi fun ri => { ri with checkpointLastIdx := chkptIdx }

/-- `raft_server_reap_log`, with `raft_server_compaction_try_increase_lowest_idx`: no read is
pending when the checkpoint thread runs between two handlers. -/
def reapLog (numKeepEntries : Int) : Server n Unit := do
  let ri ← getRi
  let maxIdx := ri.lastApplied.syncedIdx
  whenever (500 ≤ numKeepEntries ∧ 0 ≤ maxIdx) do
    let lowestIdx := max 0 ri.lowestIdx
    assert (maxIdx ≥ lowestIdx)
    let newLowestIdx := maxIdx - numKeepEntries
    whenever (newLowestIdx > lowestIdx + numKeepEntries) do
      assert (newLowestIdx > ri.lowestIdx)
      modifyRi fun ri => { ri with lowestIdx := newLowestIdx }
      durable fun st => st.put (st.db.reap newLowestIdx.toNat) true

/-- An iteration of `raft_server_chkpt_thread`, in which a checkpoint or a reap may be due.  The
flat-file backend takes no checkpoints, and `ri_log_reap_factor` is set only for a persistent
application. -/
def chkptThread (takesChkpt reaps : Bool) (numKeepEntries : Int) : Server n Unit := do
  let ri ← getRi
  whenever (0 ≤ ri.lastApplied.syncedIdx) do
    fatalIf (ri.lastApplied.syncedIdx - ri.checkpointLastIdx < 0)
    whenever (takesChkpt = true ∧ ri.opts.storeType ≠ .posixFlatFile) takeChkpt
    whenever (reaps = true ∧ ri.opts.storeType = .rocksdbPersistentApp) (reapLog numKeepEntries)

/-! ## The event loop -/

/-- `raft_server_follower_send_sync_idx`. -/
def followerSendSyncIdx : Server n Unit := do
  let ri ← getRi
  whenever (ri.isFollower = true ∧ ri.doesSynchronousWrites = false ∧
      ri.csnLeader ≠ some ri.self)
    (sendMsg ri.csnLeader (.syncIdxUpdate ⟨ri.newestSync.index, ri.newestSync.term⟩))

/-- `raft_server_remote_send_evp_cb`. -/
def remoteSendEvpCb [Externals] (clock : SendClock n) : Server n Unit := do
  let ri ← getRi
  if ri.isLeader = true then appendEntrySender clock false
  else whenever (ri.isFollower = true) followerSendSyncIdx

/-- `raft_server_commit_idx_adv_evp_cb`. -/
def commitIdxAdvEvpCb : Server n Unit := do
  let ri ← getRi
  whenever (ri.isLeader = true) leaderTryAdvanceCommitIdx

/-- `raft_server_timerfd_leader_cb`.  Whether `raft_leader_check_quorum` holds and whether a
heartbeat is due are inputs. -/
def timerfdLeaderCb [Externals] (quorumOk heartbeatDue : Bool) (clock : SendClock n) :
    Server n Unit :=
  if quorumOk = false then becomeCandidate true
  else whenever (heartbeatDue = true) (appendEntrySender clock true)

/-- `raft_server_timerfd_cb`. -/
def timerfdCb [Externals] (quorumOk heartbeatDue : Bool) (clock : SendClock n) :
    Server n Unit := do
  let ri ← getRi
  match ri.state with
  | .follower | .candidatePrevote | .candidate => becomeCandidate true
  | .leader => timerfdLeaderCb quorumOk heartbeatDue clock
  | .none | .client => pure ()

/-- `raft_server_write_coalesced_entries`: the leader writes the collected requests, one
sub-entry each. -/
def writeCoalescedEntries [Externals] (requests : List (List UInt8)) : Server n Unit := do
  let ri ← getRi
  whenever (ri.isLeader = true ∧ requests ≠ [])
    (leaderWriteNewEntry requests.flatten (requests.map List.length) false)

/-- `raft_server_process_received_server_msg`. -/
def processReceivedServerMsg [Externals] (sender : Fin n) : RpcMsg n → Server n Unit
  | .preVoteRequest m => processVoteRequestCommon sender true m
  | .voteRequest m => processVoteRequestCommon sender false m
  | .preVoteReply m => processVoteReplyCommon sender true m
  | .voteReply m => processVoteReplyCommon sender false m
  | .syncIdxUpdate m => processSyncIdxUpdate sender m
  | .appendEntriesRequest m => processAppendEntriesRequest sender m
  | .appendEntriesReply m => processAppendEntriesReply sender m

end RaftServer

end NiovaRaft
