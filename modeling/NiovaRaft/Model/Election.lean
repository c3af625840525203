import NiovaRaft.Model.Log
import Mathlib.Data.List.FinRange

/-!
# Elections

Candidacy, votes and the change of role.  An election has two rounds.  A server whose timer
expires asks for pre-votes without touching its term.  With a majority of these it persists
the next term with a vote for itself and asks for votes.  A granted `VOTE` reply makes the
voter persist the candidate's term and its vote, and a majority of them makes a leader.

A reply carries the term the voter had before it voted, and no more of the request it
answers.
-/

namespace NiovaRaft

variable {n : Nat}

namespace RaftServer

open Base Base.Handler

/-! ## Candidacy -/

/-- `raft_server_candidate_count_votes`. -/
def candidateCountVotes (ri : RaftInstance n) (result : VoteResult) : Nat :=
  (List.finRange n).countP fun i => ri.candidate.results i = result

/-- `raft_server_candidate_is_viable`. -/
def candidateIsViable (ri : RaftInstance n) : Bool :=
  (ri.isCandidate && decide (ri.candidate.term = ri.logHdr.term)) ||
  (ri.isCandidatePrevote && decide (ri.candidate.term = ri.logHdr.term + 1))

/-- `raft_server_candidate_can_become_leader`. -/
def candidateCanBecomeLeader (ri : RaftInstance n) : Bool :=
  candidateIsViable ri && decide (n / 2 + 1 ≤ candidateCountVotes ri .voteYes)

/-- `raft_server_prevote_candidate_can_become_candidate`. -/
def prevoteCandidateCanBecomeCandidate (ri : RaftInstance n) : Bool :=
  candidateIsViable ri && decide (n / 2 + 1 ≤ candidateCountVotes ri .preVoteYes)

/-- `raft_server_init_candidate_state`. -/
def initCandidateState (prevote : Bool) : Server n Unit :=
  modifyRi fun ri =>
    { ri with
      state := if prevote then .candidatePrevote else .candidate
      candidate := ⟨ri.logHdr.term + 1, prevote, fun _ => .unknown⟩ }

/-- Whether a vote result belongs to the round the candidate is in. -/
def voteResultIsForRound (prevote : Bool) (result : VoteResult) : Bool :=
  if prevote then result = .preVoteYes ∨ result = .preVoteNo
  else result = .voteYes ∨ result = .voteNo

/-- `raft_server_candidate_reg_vote_result`.  Every peer has a slot, so `-ERANGE` does not
arise. -/
def candidateRegVoteResult (voter : Fin n) (result : VoteResult) :
    Server n (Except Errno Unit) := do
  let ri ← getRi
  if result = .unknown then pure (.error .EINVAL)
  else if ri.isCandidatePrevote = false ∧ ri.isCandidate = false then pure (.error .EPERM)
  else if voteResultIsForRound ri.isCandidatePrevote result = false then pure (.error .EINVAL)
  else do
    fatalIf (ri.candidate.term ≠ ri.logHdr.term + if ri.isCandidatePrevote then 1 else 0)
    modifyRi fun ri => { ri with candidate :=
      { ri.candidate with results := Function.update ri.candidate.results voter result } }
    pure (.ok ())

/-- `raft_server_vote_for_self`.  A full candidate persists the next term. -/
def voteForSelf : Server n (Except Errno Unit) := do
  let ri ← getRi
  if ri.isCandidatePrevote = false ∧ ri.isCandidate = false then pure (.error .EPERM)
  else if ri.isCandidate = true then do
    logHeaderWrite (some ri.self) (ri.logHdr.term + 1)
    candidateRegVoteResult ri.self .voteYes
  else candidateRegVoteResult ri.self .preVoteYes

/-- `raft_server_broadcast_msg`. -/
def broadcastMsg (msg : RpcMsg n) : Server n Unit :=
  modify fun s =>
    { s with out := s.out ++ ((List.finRange n).filter (· ≠ s.ri.self)).map (·, msg) }

/-- `raft_server_become_candidate`. -/
def becomeCandidate (prevote : Bool) : Server n Unit := do
  modifyRi fun ri => { ri with csnLeader := none }
  let ri ← getRi
  assert (prevote = true ∨ ri.isCandidatePrevote = true)
  initCandidateState prevote
  let rc ← voteForSelf
  assert (rc.isOk = true)
  let synced ← getRi
  let vreq : VoteRequestMsg :=
    ⟨ri.logHdr.term + 1, synced.newestSync.term, synced.newestSync.index⟩
  broadcastMsg (if prevote then .preVoteRequest vreq else .voteRequest vreq)

/-! ## Following -/

/-- `raft_server_update_log_header`. -/
def updateLogHeader (newTerm : Int) (peerWithNewerTerm : Option (Fin n)) : Server n Unit := do
  let ri ← getRi
  assert (newTerm > ri.logHdr.term)
  logHeaderWrite peerWithNewerTerm newTerm

/-- `raft_server_try_update_log_header_null_voted_for_peer`. -/
def tryUpdateLogHeaderNullVotedForPeer (newTerm : Int) : Server n Unit := do
  let ri ← getRi
  whenever (ri.logHdr.term < newTerm) (updateLogHeader newTerm none)

/-- `raft_server_set_leader_csn`. -/
def setLeaderCsn (leader : Fin n) : Server n Unit :=
  modifyRi fun ri => { ri with csnLeader := some leader }

/-- The part of `raft_server_becomes_follower` after the suggested leader was found. -/
def follow (newTerm : Int) (leader : Fin n) (reason : FollowerReason) : Server n Unit := do
  modifyRi fun ri => { ri with state := .follower, followerReason := reason }
  let ri ← getRi
  assert (if reason = .staleTermWhileCandidate then newTerm ≥ ri.logHdr.term
    else newTerm > ri.logHdr.term)
  setLeaderCsn leader
  whenever (newTerm ≠ ri.logHdr.term)
    (updateLogHeader newTerm (if reason = .votedForPeer then some leader else none))

/-- `raft_server_becomes_follower`.  Without a peer to follow, or when that peer is this
server, nothing happens. -/
def becomesFollower (newTerm : Int) (peerWithNewerTerm : Option (Fin n))
    (reason : FollowerReason) : Server n Unit := do
  let ri ← getRi
  match peerWithNewerTerm with
  | none => pure ()
  | some leader => whenever (leader ≠ ri.self) (follow newTerm leader reason)

/-! ## Leading -/

/-- The slot of every peer at the start of a leadership. -/
def followerInfoInit (syncHdr : EntryHeader) : FollowerInfo :=
  { FollowerInfo.zero with
    nextIdx := syncHdr.index + 1
    prevIdxTerm := syncHdr.term
    prevIdxCrc := syncHdr.crc
    currentIdxTerm := -1
    currentIdxCrc := 0
    syncedIdx := -1
    ackdIdx := -1 }

/-- `raft_server_leader_init_state`. -/
def leaderInitState : Server n Unit := do
  let ri ← getRi
  let unsynced ← hasUnsyncedEntries
  fatalIf (unsynced = true)
  modifyRi fun ri =>
    { ri with
      state := .leader
      leader := ⟨ri.newestSync.index, ri.logHdr.term, fun _ => followerInfoInit ri.newestSync⟩ }
  observe fun _ => .leads ri.logHdr.term (ri.log.take (ri.newestSync.index + 1).toNat)

/-- `raft_server_leader_write_new_entry`. -/
def leaderWriteNewEntry [Externals] (data : List UInt8) (wrEntrySizes : List Nat)
    (leaderChangeMarker : Bool) : Server n Unit := do
  let ri ← getRi
  assert (ri.isLeader = true)
  assert (leaderChangeMarker = false ∨ wrEntrySizes.length = 1)
  writeNextEntry ri.logHdr.term data wrEntrySizes leaderChangeMarker

/-- `raft_server_write_leader_change_marker`. -/
def writeLeaderChangeMarker [Externals] : Server n Unit := do
  let ri ← getRi
  assert (ri.isLeader = true)
  leaderWriteNewEntry [] [0] true

/-- `raft_server_candidate_becomes_leader`. -/
def candidateBecomesLeader [Externals] : Server n Unit := do
  let ri ← getRi
  assert (candidateIsViable ri = true)
  leaderInitState
  writeLeaderChangeMarker
  setLeaderCsn ri.self

/-! ## Votes -/

/-- What a vote reply means in its round. -/
def voteResultOf (prevote granted : Bool) : VoteResult :=
  if granted then (if prevote then .preVoteYes else .voteYes)
  else if prevote then .preVoteNo else .voteNo

/-- What the candidate does once a result is registered. -/
def actOnVoteResult [Externals] (result : VoteResult) (vreply : VoteReplyMsg n) :
    Server n Unit := do
  let ri ← getRi
  match result with
  | .preVoteYes => whenever (prevoteCandidateCanBecomeCandidate ri = true) (becomeCandidate false)
  | .preVoteNo => pure ()
  | .voteYes => whenever (candidateCanBecomeLeader ri = true) candidateBecomesLeader
  | .voteNo =>
      whenever (ri.logHdr.term < vreply.term)
        (becomesFollower vreply.term vreply.currentLeader .staleTermWhileCandidate)
  | .unknown => abort

/-- `raft_server_process_vote_reply_common`. -/
def processVoteReplyCommon [Externals] (sender : Fin n) (prevote : Bool)
    (vreply : VoteReplyMsg n) : Server n Unit := do
  let ri ← getRi
  if prevote ≠ ri.isCandidatePrevote ∧ (!prevote) ≠ ri.isCandidate then pure ()
  else do
    let result := voteResultOf prevote vreply.votedGranted
    let rc ← candidateRegVoteResult sender result
    whenever (rc.isOk = true) (actOnVoteResult result vreply)

/-- `raft_server_process_vote_request_decide`. -/
def processVoteRequestDecide (ri : RaftInstance n) (vreq : VoteRequestMsg)
    (cmpHdr : EntryHeader) : Bool :=
  !decide (vreq.proposedTerm ≤ ri.logHdr.term ∨ vreq.lastLogTerm < cmpHdr.term ∨
    vreq.lastLogIndex < cmpHdr.index)

/-- `raft_server_process_pre_vote_request_decide`. -/
def processPreVoteRequestDecide (ri : RaftInstance n) (vreq : VoteRequestMsg)
    (cmpHdr : EntryHeader) : Bool :=
  processVoteRequestDecide ri vreq cmpHdr &&
    (decide (vreq.proposedTerm > ri.logHdr.term + 1) ||
      (decide (ri.csnLeader = none) || ri.isCandidate || ri.isCandidatePrevote))

/-- `raft_server_process_vote_request_common`. -/
def processVoteRequestCommon (sender : Fin n) (prevote : Bool) (vreq : VoteRequestMsg) :
    Server n Unit := do
  backendSyncPending
  let ri ← getRi
  let result :=
    if prevote then processPreVoteRequestDecide ri vreq ri.newestSync
    else processVoteRequestDecide ri vreq ri.newestSync
  let reply : VoteReplyMsg n :=
    ⟨result, ri.logHdr.term, if result then none else ri.csnLeader⟩
  whenever (prevote = false ∧ result = true)
    (becomesFollower vreq.proposedTerm (some sender) .votedForPeer)
  sendMsg (some sender) (if prevote then .preVoteReply reply else .voteReply reply)

end RaftServer

end NiovaRaft
