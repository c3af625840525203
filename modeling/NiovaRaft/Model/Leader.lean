import NiovaRaft.Model.AppendEntries
import Mathlib.Data.List.Sort

/-!
# The leader

Replication as the leader drives it.  For each peer it keeps a slot with the index to send
next, the index it takes as acknowledged, the index the peer reported as synced, and the term
and checksum of two entries: the one before the next index, which is cached, and the one at the
next index, which is read again for each message.  The commit index is the highest index that a
majority of the slots reaches.

The clocks are inputs.  For each peer `raft_net_comm_recency` either reports that nothing was
sent yet (`none`) or the time since an unanswered send, and `nowMsec` is the coarse clock.
-/

namespace NiovaRaft

variable {n : Nat}

namespace RaftInstance

/-- `raft_server_get_follower_info`. -/
def followerInfo (ri : RaftInstance n) (peer : Fin n) : FollowerInfo := ri.leader.rfi peer

/-- The instance with one slot replaced. -/
def setFollowerInfo (ri : RaftInstance n) (peer : Fin n) (rfi : FollowerInfo) :
    RaftInstance n :=
  { ri with leader := { ri.leader with rfi := Function.update ri.leader.rfi peer rfi } }

end RaftInstance

namespace RaftServer

open Base Base.Handler

/-! ## The commit index -/

/-- `raft_server_leader_setup_self_follower_info`. -/
def selfFollowerInfo (syncHdr : EntryHeader) (self : FollowerInfo) : FollowerInfo :=
  { self with
    nextIdx := syncHdr.index + 1
    syncedIdx := syncHdr.index
    ackdIdx := syncHdr.index
    prevIdxTerm := syncHdr.term }

/-- The index a slot contributes to the majority: no synced index past the acknowledged one. -/
def FollowerInfo.commitVote (rfi : FollowerInfo) : Int := min rfi.ackdIdx rfi.syncedIdx

/-- `raft_majority_index_value`. -/
def majorityIndexValue (numRaftMembers : Nat) : Nat := numRaftMembers - numRaftMembers / 2 - 1

/-- `raft_server_get_majority_entry_idx`: sort, then take the entry at the majority index. -/
def getMajorityEntryIdx (values : List Int) : Int :=
  (values.insertionSort (· ≤ ·)).getD (majorityIndexValue values.length) (-1)

/-- `raft_server_leader_calculate_committed_idx`. -/
def leaderCalculateCommittedIdx : Server n Int := do
  let ri ← getRi
  assert (ri.isLeader = true)
  modifyRi fun ri =>
    ri.setFollowerInfo ri.self (selfFollowerInfo ri.newestSync (ri.followerInfo ri.self))
  let ri ← getRi
  pure (getMajorityEntryIdx
    ((List.finRange n).map fun i => FollowerInfo.commitVote (ri.followerInfo i)))

/-- `raft_server_leader_can_advance_commit_idx`. -/
def leaderCanAdvanceCommitIdx (syncThread : Bool) : Server n Int := do
  let ri ← getRi
  if ri.isLeader = false then pure (-1)
  else do
    let committedRaftIdx ← leaderCalculateCommittedIdx
    fatalIf (syncThread = false ∧ committedRaftIdx < ri.commitIdx ∧
      committedRaftIdx ≥ ri.leader.initialTermIdx)
    pure (if committedRaftIdx ≥ ri.leader.initialTermIdx ∧ committedRaftIdx > ri.commitIdx
      then committedRaftIdx else -1)

/-- `raft_server_leader_try_advance_commit_idx`. -/
def leaderTryAdvanceCommitIdx : Server n Unit := do
  let ri ← getRi
  assert (ri.isLeader = true)
  let committedRaftIdx ← leaderCanAdvanceCommitIdx false
  whenever (committedRaftIdx ≠ -1) (advanceCommitIdx committedRaftIdx)

/-! ## Replies -/

/-- The slot after `raft_server_try_update_follower_sync_idx` accepted a synced index. -/
def FollowerInfo.accept (rfi : FollowerInfo) (sli : Int) : FollowerInfo :=
  { rfi with ackdIdx := max rfi.ackdIdx (rfi.nextIdx - 1), syncedIdx := max rfi.syncedIdx sli }

/-- `raft_server_try_update_follower_sync_idx`, for a message with term `term` and synced log
index `sli`. -/
def tryUpdateFollowerSyncIdx (peer : Fin n) (term sli : Int) : Server n Unit := do
  let ri ← getRi
  let rfi := ri.followerInfo peer
  whenever (term = ri.newestSync.term ∧ rfi.syncedIdx ≤ rfi.nextIdx) do
    modifyRi fun ri => ri.setFollowerInfo peer (FollowerInfo.accept rfi sli)
    whenever (rfi.ackdIdx < rfi.nextIdx - 1 ∨ rfi.syncedIdx < sli) leaderTryAdvanceCommitIdx

/-- The slot after a reply with `raerpm_update_sli`. -/
def FollowerInfo.updateSli (rfi : FollowerInfo) (sli : Int) : FollowerInfo :=
  if sli > rfi.nextIdx then
    { rfi with nextIdx := sli + 1, ackdIdx := sli, syncedIdx := sli, prevIdxTerm := -1 }
  else rfi

/-- The slot after a reply with `raerpm_err_non_matching_prev_term`. -/
def FollowerInfo.rewind (rfi : FollowerInfo) (raerp : AppendEntriesReplyMsg) : FollowerInfo :=
  if rfi.nextIdx > 0 then
    { rfi with
      nextIdx :=
        if raerp.newlyInitializedPeer then 0
        else if raerp.syncedLogIndex ≥ 0 ∧ raerp.syncedLogIndex < rfi.nextIdx then
          raerp.syncedLogIndex
        else rfi.nextIdx - 1
      prevIdxTerm := -1 }
  else rfi

/-- The slot after a successful reply: a carried entry moves the next index. -/
def FollowerInfo.advance (rfi : FollowerInfo) (raerp : AppendEntriesReplyMsg) : FollowerInfo :=
  if raerp.heartbeatMsg then rfi
  else { rfi with prevIdxTerm := -1, nextIdx := rfi.nextIdx + 1 }

/-- `raft_server_apply_append_entries_reply_result`, less the clocks and the wakeup of the
sender. -/
def applyAppendEntriesReplyResult (follower : Fin n) (raerp : AppendEntriesReplyMsg) :
    Server n Unit := do
  let ri ← getRi
  assert (ri.isLeader = true)
  assert (raerp.errStaleTerm = false)
  let rfi := ri.followerInfo follower
  if raerp.prevLogIndex + 1 ≠ rfi.nextIdx then pure ()
  else if raerp.updateSli = true then
    modifyRi fun ri => ri.setFollowerInfo follower (FollowerInfo.updateSli rfi raerp.syncedLogIndex)
  else if raerp.errNonMatchingPrevTerm = true then
    modifyRi fun ri => ri.setFollowerInfo follower (FollowerInfo.rewind rfi raerp)
  else do
    modifyRi fun ri => ri.setFollowerInfo follower (FollowerInfo.advance rfi raerp)
    tryUpdateFollowerSyncIdx follower raerp.leaderTerm raerp.syncedLogIndex

/-- `raft_server_process_append_entries_reply`. -/
def processAppendEntriesReply (sender : Fin n) (raerp : AppendEntriesReplyMsg) :
    Server n Unit := do
  let ri ← getRi
  if ri.isLeader = false then pure ()
  else if raerp.errStaleTerm = true then
    whenever (raerp.leaderTerm > ri.logHdr.term)
      (becomesFollower raerp.leaderTerm (some sender) .staleTermWhileLeader)
  else applyAppendEntriesReplyResult sender raerp

/-- `raft_server_process_sync_idx_update`. -/
def processSyncIdxUpdate (sender : Fin n) (msg : SyncIdxUpdateMsg) : Server n Unit := do
  let ri ← getRi
  whenever (ri.isLeader = true ∧ msg.term = ri.logHdr.term)
    (tryUpdateFollowerSyncIdx sender msg.term msg.syncedLogIndex)

/-! ## Sending -/

/-- What `raft_net_comm_recency` reports for each peer, and the clock. -/
structure SendClock (n : Nat) where
  sinceLastUnacked : Fin n → Option Nat
  nowMsec : Nat

/-- The slot after the first part of `raft_server_refresh_follower_prev_log_term`. -/
def FollowerInfo.beforeRefresh (rfi : FollowerInfo) : FollowerInfo :=
  if rfi.nextIdx = 0 then { rfi with prevIdxTerm := 0, currentIdxTerm := -1 } else rfi

/-- The refresh of the entry before the next index, when it is not cached. -/
def refreshPrev (peer : Fin n) : Server n (Except Errno Unit) := do
  let ri ← getRi
  let rfi := ri.followerInfo peer
  if rfi.prevIdxTerm ≥ 0 then pure (.ok ())
  else do
    assert (rfi.nextIdx - 1 ≥ -1)
    assert (rfi.nextIdx - 1 ≤ ri.currentIdx .unsync)
    let reh ← entryHeaderReadByStore (rfi.nextIdx - 1)
    match reh with
    | .error rc => do
        modifyRi fun ri => ri.setFollowerInfo peer { rfi with prevIdxTerm := 0, prevIdxCrc := 0 }
        pure (.error rc)
    | .ok reh => do
        fatalIf (reh.term < 0)
        modifyRi fun ri =>
          ri.setFollowerInfo peer { rfi with prevIdxTerm := reh.term, prevIdxCrc := reh.crc }
        pure (.ok ())

/-- The refresh of the entry at the next index, when the leader holds one. -/
def refreshCurrent (peer : Fin n) : Server n (Except Errno Unit) := do
  let ri ← getRi
  let rfi := ri.followerInfo peer
  if ri.currentIdx .unsync < rfi.nextIdx then pure (.ok ())
  else do
    let reh ← entryHeaderReadByStore rfi.nextIdx
    match reh with
    | .error rc => do
        modifyRi fun ri =>
          ri.setFollowerInfo peer { rfi with currentIdxTerm := -1, currentIdxCrc := 0 }
        pure (.error rc)
    | .ok reh => do
        modifyRi fun ri =>
          ri.setFollowerInfo peer { rfi with currentIdxTerm := reh.term, currentIdxCrc := reh.crc }
        pure (.ok ())

/-- `raft_server_refresh_follower_prev_log_term`. -/
def refreshFollowerPrevLogTerm (peer : Fin n) : Server n (Except Errno Unit) := do
  let ri ← getRi
  assert (ri.isLeader = true)
  assert ((ri.followerInfo peer).nextIdx ≥ 0)
  modifyRi fun ri =>
    ri.setFollowerInfo peer (FollowerInfo.beforeRefresh (ri.followerInfo peer))
  let rc ← refreshPrev peer
  match rc with
  | .error rc => pure (.error rc)
  | .ok () => refreshCurrent peer

/-- `raft_server_leader_init_append_entry_msg`: the message without its entry, and whether the
entry before it was compacted.  Any other failure to read it is fatal. -/
def leaderInitAppendEntryMsg (peer : Fin n) (heartbeat : Bool) :
    Server n (AppendEntriesRequestMsg × Bool) := do
  let rc ← refreshFollowerPrevLogTerm peer
  assert (rc.isOk = true ∨ rc = .error .ERANGE)
  let ri ← getRi
  assert (ri.isLeader = true ∧ ri.leader.leaderTerm = ri.logHdr.term)
  let rfi := ri.followerInfo peer
  let outOfRange := !rc.isOk
  pure
    ({ leaderTerm := ri.logHdr.term
       logTerm := if outOfRange then 0 else rfi.currentIdxTerm
       commitIndex := ri.commitIdx
       lowestIndex := ri.lowestIdx
       chkptIndex := ri.checkpointLastIdx
       prevLogTerm := if outOfRange then -1 else rfi.prevIdxTerm
       prevLogIndex := rfi.nextIdx - 1
       prevIdxCrc := if outOfRange then 0 else rfi.prevIdxCrc
       thisIdxCrc := if outOfRange then 0 else rfi.currentIdxCrc
       sizeArr := []
       entriesSz := 0
       numEntries := 0
       heartbeatMsg := heartbeat || outOfRange
       leaderChangeMarker := false
       entryOutOfRange := outOfRange
       entries := [] }, outOfRange)

/-- `raft_server_append_entry_should_send_to_follower`. -/
def appendEntryShouldSendToFollower (clock : SendClock n) (peer : Fin n) : Server n Bool := do
  let ri ← getRi
  let rfi := ri.followerInfo peer
  match clock.sinceLastUnacked peer with
  | none => pure false
  | some since => do
      let wait := decide (since > 0 ∧ clock.nowMsec ≤ rfi.aeSendsWaitUntil)
      modifyRi fun ri => ri.setFollowerInfo peer
        { rfi with aeSendsWaitUntil :=
            if since = 0 then 0
            else if wait then rfi.aeSendsWaitUntil
            else clock.nowMsec + min 30000 (rfi.aeSendsWaitUntil * 2 + 1) }
      if rfi.nextIdx > ri.currentIdx .unsync then do
        assert (rfi.nextIdx = ri.currentIdx .unsync + 1)
        pure false
      else pure (!wait)

/-- The entry goes into the message.  The result is `none` when the entry was compacted in the
meantime and nothing is sent. -/
def attachEntry [Externals] (raerq : AppendEntriesRequestMsg) :
    Server n (Option AppendEntriesRequestMsg) := do
  let peerNextRaftIdx := raerq.prevLogIndex + 1
  let reh ← entryHeaderReadByStore peerNextRaftIdx
  match reh with
  | .error .ERANGE => pure none
  | .error _ => abort
  | .ok reh => do
      let raerq := { raerq with
        entriesSz := reh.dataSize
        leaderChangeMarker := reh.leaderChangeMarker
        numEntries := reh.numEntries
        sizeArr := reh.entrySz }
      assert (reh.index = peerNextRaftIdx)
      if raerq.entriesSz = 0 then pure (some raerq)
      else do
        let data ← entryRead peerNextRaftIdx raerq.entriesSz
        match data with
        | .error .ERANGE => pure none
        | .error _ => abort
        | .ok data => pure (some { raerq with entries := data })

/-- One round of the loop of `raft_server_append_entry_sender`, for a peer that is sent to.
The result is the loop's `heartbeat`, which a compacted entry turns on for the peers that
follow. -/
def appendEntrySendTo [Externals] (myRaftIdx : Int) (peer : Fin n) (heartbeat : Bool) :
    Server n Bool := do
  let (raerq, stale) ← leaderInitAppendEntryMsg peer heartbeat
  let heartbeat := heartbeat || stale
  assert (stale = false ∨ raerq.heartbeatMsg = true)
  fatalIf (raerq.prevLogIndex > myRaftIdx)
  if heartbeat = false ∧ raerq.prevLogIndex + 1 ≤ myRaftIdx then do
    let msg ← attachEntry raerq
    match msg with
    | none => pure heartbeat
    | some raerq => do
        sendMsg (some peer) (.appendEntriesRequest raerq)
        pure heartbeat
  else do
    sendMsg (some peer) (.appendEntriesRequest
      { raerq with heartbeatMsg := true, entriesSz := 0, numEntries := 0, sizeArr := [],
                   leaderChangeMarker := false })
    pure heartbeat

/-- The loop of `raft_server_append_entry_sender`. -/
def appendEntrySenderLoop [Externals] (clock : SendClock n) (myRaftIdx : Int) :
    List (Fin n) → Bool → Server n Unit
  | [], _ => pure ()
  | peer :: peers, heartbeat => do
      let ri ← getRi
      if peer = ri.self then appendEntrySenderLoop clock myRaftIdx peers heartbeat
      else do
        let send ← appendEntryShouldSendToFollower clock peer
        if send = false ∧ heartbeat = false then
          appendEntrySenderLoop clock myRaftIdx peers heartbeat
        else do
          let heartbeat ← appendEntrySendTo myRaftIdx peer heartbeat
          appendEntrySenderLoop clock myRaftIdx peers heartbeat

/-- `raft_server_append_entry_sender`. -/
def appendEntrySender [Externals] (clock : SendClock n) (heartbeat : Bool) : Server n Unit := do
  let ri ← getRi
  let myRaftIdx := ri.currentIdx .unsync
  whenever (ri.isLeader = true ∧ 0 ≤ myRaftIdx)
    (appendEntrySenderLoop clock myRaftIdx (List.finRange n) heartbeat)

end RaftServer

end NiovaRaft
