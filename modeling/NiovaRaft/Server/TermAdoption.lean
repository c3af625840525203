import NiovaRaft.Spec.Roles
import NiovaRaft.Model.Cluster

/-!
# Newer terms

A server that is told of a newer term should take it and follow.  All handlers leave this to
`raft_server_becomes_follower`, which first looks up the uuid it is given and does nothing without
a peer to follow.  An `APPEND_ENTRIES` message gives the uuid of its sender.  A vote that was not
granted gives the leader the voter knows of, and a voter that knows of none leaves the candidate in
its old term.
-/

namespace NiovaRaft

open Base Base.Handler RaftServer

variable {n : Nat}

/-! ## The messages -/

/-- `raft_peer_uuid_to_csn`.  The uuids stand in the order of `ri_csn_raft_peers`, the null uuid is
`0`. -/
def raftPeerUuidToCsn (peers : Fin n → Nat) (peerUuid : Nat) : Option (Fin n) :=
  if peerUuid = 0 then none else (List.finRange n).find? fun i => peers i = peerUuid

/-- The messages that tell of a term, a vote with the uuid that it names as the leader. -/
inductive TermMsg where
  | appendEntriesRequest (m : AppendEntriesRequestMsg)
  | appendEntriesReply (m : AppendEntriesReplyMsg)
  | voteReply (votedGranted : Bool) (term : Int) (currentLeader : Nat)
deriving DecidableEq, Repr

namespace TermMsg

/-- The message as the handlers see it: a uuid stands for the peer it is looked up as. -/
def decode (peers : Fin n → Nat) : TermMsg → RpcMsg n
  | appendEntriesRequest m => .appendEntriesRequest m
  | appendEntriesReply m => .appendEntriesReply m
  | voteReply votedGranted term currentLeader =>
      .voteReply ⟨votedGranted, term, raftPeerUuidToCsn peers currentLeader⟩

/-- The term that the message tells of. -/
def term : TermMsg → Int
  | appendEntriesRequest m => m.leaderTerm
  | appendEntriesReply m => m.leaderTerm
  | voteReply _ term _ => term

/-- The receiver looks at the term: the request is valid and starts no bulk recovery, the reply is
marked stale and meets a leader, the vote was not granted and meets a candidate. -/
def Concerns (ri : RaftInstance n) : TermMsg → Prop
  | appendEntriesRequest m => processAppendEntriesRequestValidityCheck ri m = .ok () ∧
      ¬ (m.entryOutOfRange = true ∧ ri.currentIdx .unsync < m.lowestIndex)
  | appendEntriesReply m => m.errStaleTerm = true ∧ ri.isLeader = true
  | voteReply votedGranted _ _ => votedGranted = false ∧ ri.isCandidate = true

/-- The handler finds a peer other than the server itself to follow.  A follower that gets a
request needs none. -/
def FindsLeader (peers : Fin n → Nat) (ri : RaftInstance n) (sender : Fin n) : TermMsg → Prop
  | appendEntriesRequest _ => ri.isFollower = true ∨
      ((ri.isCandidate = true ∨ ri.isCandidatePrevote = true ∨ ri.isLeader = true) ∧
        sender ≠ ri.self)
  | appendEntriesReply _ => sender ≠ ri.self
  | voteReply _ _ currentLeader =>
      ∃ leader, raftPeerUuidToCsn peers currentLeader = some leader ∧ leader ≠ ri.self

end TermMsg

/-- The server follows in the given term. -/
def FollowsIn (term : Int) (ri : RaftInstance n) : Prop :=
  ri.logHdr.term = term ∧ ri.state = .follower

/-! ## The handlers -/

section

variable {s : Proc n}

theorem FollowsIn.congr {term : Int} {s' : Proc n} (h : roleOf s' = roleOf s) :
    FollowsIn term s'.ri ↔ FollowsIn term s.ri := by
  simp only [roleOf, roleIn, Prod.mk.injEq] at h
  simp only [FollowsIn, h.2.1, h.2.2.1]

theorem not_followsIn_of_lt {term : Int} {ri : RaftInstance n} (h : ri.logHdr.term < term) :
    ¬ FollowsIn term ri :=
  fun hf => absurd hf.1 h.ne

/-- A newer term is taken exactly when there is a peer to follow. -/
theorem wp_becomesFollower_followsIn {term : Int} {peer : Option (Fin n)} {reason : FollowerReason}
    (h : s.ri.logHdr.term < term) :
    (becomesFollower term peer reason).wp (fun _ s' =>
      FollowsIn term s'.ri ↔ ∃ leader, peer = some leader ∧ leader ≠ s.ri.self)
      (fun _ => True) s := by
  rw [becomesFollower, wp_bind, wp_getRi]
  cases peer with
  | none => exact iff_of_false (not_followsIn_of_lt h) (by simp)
  | some leader =>
    simp only [wp_whenever, follow, wp_bind, wp_modifyRi, wp_getRi, wp_assert, setLeaderCsn,
      updateLogHeader]
    refine ⟨fun hother => ⟨fun _ => ⟨fun _ => ⟨fun _ => ?_, fun _ => trivial⟩, fun heq => ?_⟩,
      fun _ => trivial⟩, fun hself => ?_⟩
    · refine wp_mono wp_logHeaderWrite_headerWritten (fun _ s' hw => ?_) fun _ _ => trivial
      exact iff_of_true ⟨hw.term, hw.state⟩ ⟨leader, rfl, hother⟩
    · exact absurd h.ne' heq
    · refine iff_of_false (not_followsIn_of_lt h) ?_
      rintro ⟨x, ⟨⟩, hx⟩
      exact hself hx

/-- A request of a newer term passes the term check.  Its term is taken unless the server stands or
leads and sent the request itself, or does neither and does not follow. -/
theorem wp_processAppendEntriesTermCheckOps_followsIn (peers : Fin n → Nat) {sender : Fin n}
    {m : AppendEntriesRequestMsg} (h : s.ri.logHdr.term < m.leaderTerm) :
    (processAppendEntriesTermCheckOps sender m).wp (fun rc s' => rc = .ok () ∧
      (FollowsIn m.leaderTerm s'.ri ↔
        TermMsg.FindsLeader peers s.ri sender (.appendEntriesRequest m))) (fun _ => True) s := by
  have hdemote : ∀ reason, (s.ri.isFollower = false ∧ (s.ri.isCandidate = true ∨
      s.ri.isCandidatePrevote = true ∨ s.ri.isLeader = true)) →
      (becomesFollower m.leaderTerm (some sender) reason).wp (fun _ s' =>
        (FollowsIn m.leaderTerm s'.ri ↔
          TermMsg.FindsLeader peers s.ri sender (.appendEntriesRequest m))) (fun _ => True) s := by
    intro reason hrole
    refine wp_mono (wp_becomesFollower_followsIn h) (fun _ s' hs' => hs'.trans ?_) fun _ => id
    simp [TermMsg.FindsLeader, hrole]
  simp only [processAppendEntriesTermCheckOps, wp_bind, wp_getRi, wp_ite, wp_pure, setLeaderCsn,
    wp_modifyRi]
  refine ⟨fun hstale => absurd hstale (by omega), fun _ => ⟨fun hcand => ?_, fun hnocand =>
    ⟨fun hlead => ?_, fun hnolead => ⟨fun hfollow => ?_, fun hnofollow => ?_⟩⟩⟩⟩
  · refine wp_mono (hdemote _ ?_) (fun _ s' hs' => ⟨trivial, hs'⟩) fun _ => id
    rcases hcand with hstate | hstate <;> simp [RaftInstance.isCandidate,
      RaftInstance.isCandidatePrevote] at hstate <;> simp [RaftInstance.isFollower, hstate,
      RaftInstance.isCandidate, RaftInstance.isCandidatePrevote]
  · refine wp_mono (hdemote _ ?_) (fun _ s' hs' => ⟨trivial, hs'⟩) fun _ => id
    have hstate : s.ri.state = .leader := by simpa [RaftInstance.isLeader] using hlead.2
    simp [RaftInstance.isFollower, RaftInstance.isLeader, hstate]
  · have hstate : s.ri.state = .follower := by simpa [RaftInstance.isFollower] using hfollow.2
    simp only [tryUpdateLogHeaderNullVotedForPeer, updateLogHeader, wp_bind, wp_getRi, wp_whenever,
      wp_assert]
    refine ⟨fun _ => ⟨fun _ => ?_, fun _ => trivial⟩, fun hge => absurd h hge⟩
    refine wp_mono wp_logHeaderWrite_headerWritten (fun _ s' hw => ⟨trivial, ?_⟩) fun _ _ => trivial
    exact iff_of_true ⟨hw.term, hw.state.trans hstate⟩ (.inl hfollow.2)
  · refine ⟨trivial, iff_of_false (not_followsIn_of_lt h) ?_⟩
    rintro (hf | ⟨hc | hc | hl, -⟩)
    · exact hnofollow ⟨h, hf⟩
    · exact hnocand (.inl hc)
    · exact hnocand (.inr hc)
    · exact hnolead ⟨h, hl⟩

section Requests

variable [Externals]

/-- What follows the term check keeps the role. -/
theorem wp_processValidAppendEntries_followsIn (peers : Fin n → Nat) {sender : Fin n}
    {m : AppendEntriesRequestMsg} {updateSli : Bool} (h : s.ri.logHdr.term < m.leaderTerm) :
    (processValidAppendEntries sender m updateSli).wp (fun _ s' =>
      FollowsIn m.leaderTerm s'.ri ↔
        TermMsg.FindsLeader peers s.ri sender (.appendEntriesRequest m)) (fun _ => True) s := by
  rw [processValidAppendEntries, wp_bind]
  refine wp_mono (wp_processAppendEntriesTermCheckOps_followsIn peers h) ?_ fun _ _ => trivial
  rintro rc s₁ ⟨rfl, hs₁⟩
  -- the rest of the handler, with what it leaves of the role
  have hreply : ∀ {st nm us : Bool} {rc : Except Errno Unit} {s₂ : Proc n},
      KeepsRole (appendEntryReplySend m sender st nm us rc) s₂ :=
    .bind .gets fun _ _ _ => keepsRole_sendMsg rfl
  refine wp_mono (wp_of_keepsRole (s := s₁) ?_) (fun _ s' hs' => ?_) fun _ _ => trivial
  · refine .ite (fun _ => hreply) fun _ => ?_
    exact .bind keepsRole_appendEntryLogPrepareAndCheck fun _ _ _ =>
      .bind keepsRole_processAppendEntriesOutcome fun _ _ _ => hreply
  · exact (FollowsIn.congr (congrArg Prod.fst hs')).trans hs₁

theorem wp_processAppendEntriesRequest_followsIn (peers : Fin n → Nat) {sender : Fin n}
    {m : AppendEntriesRequestMsg} (hc : TermMsg.Concerns s.ri (.appendEntriesRequest m))
    (h : s.ri.logHdr.term < m.leaderTerm) :
    (processAppendEntriesRequest sender m).wp (fun _ s' =>
      FollowsIn m.leaderTerm s'.ri ↔
        TermMsg.FindsLeader peers s.ri sender (.appendEntriesRequest m)) (fun _ => True) s := by
  obtain ⟨hvalid, hno⟩ := hc
  simp only [processAppendEntriesRequest, wp_bind, wp_getRi, hvalid, processBulkRecoveryCheck,
    wp_ite, wp_pure, wp_modifyRi]
  refine ⟨fun _ => wp_processValidAppendEntries_followsIn peers h, fun hrange => ⟨fun _ =>
    wp_processValidAppendEntries_followsIn peers h, fun hlow => ?_⟩⟩
  exact absurd ⟨by simpa using hrange, not_le.mp hlow⟩ hno

theorem wp_processVoteReplyCommon_followsIn {sender : Fin n} {term : Int} {leader : Option (Fin n)}
    (hcand : s.ri.isCandidate = true) (h : s.ri.logHdr.term < term) :
    (processVoteReplyCommon sender false ⟨false, term, leader⟩).wp (fun _ s' =>
      FollowsIn term s'.ri ↔ ∃ x, leader = some x ∧ x ≠ s.ri.self) (fun _ => True) s := by
  have hstate : s.ri.state = .candidate := by simpa [RaftInstance.isCandidate] using hcand
  have hnopre : s.ri.isCandidatePrevote = false := by
    simp [RaftInstance.isCandidatePrevote, hstate]
  have hresult : voteResultOf false false = .voteNo := rfl
  simp only [processVoteReplyCommon, hresult, wp_bind, wp_getRi, wp_ite, wp_pure]
  refine ⟨fun hirr => absurd hirr (by simp [hnopre]), fun _ => ?_⟩
  simp only [candidateRegVoteResult, wp_bind, wp_getRi, wp_ite, wp_pure, wp_fatalIf, wp_modifyRi,
    wp_whenever, hnopre, hcand, voteResultIsForRound]
  refine ⟨fun hun => (by cases hun), fun _ => ⟨fun hno => (by cases hno.2), fun _ =>
    ⟨fun hround => absurd hround (by simp), fun _ => ⟨fun _ => trivial, fun _ =>
      ⟨fun _ => ?_, fun hok => absurd rfl hok⟩⟩⟩⟩⟩
  simp only [actOnVoteResult, wp_bind, wp_getRi, wp_whenever]
  exact ⟨fun _ => wp_becomesFollower_followsIn h, fun hge => absurd h hge⟩

/-- A message that tells of a newer term, whatever its handler makes of it. -/
theorem wp_processReceivedServerMsg_followsIn (peers : Fin n → Nat) (sender : Fin n) {msg : TermMsg}
    (hc : msg.Concerns s.ri) (h : s.ri.logHdr.term < msg.term) :
    (processReceivedServerMsg sender (msg.decode peers)).wp (fun _ s' =>
      FollowsIn msg.term s'.ri ↔ msg.FindsLeader peers s.ri sender) (fun _ => True) s := by
  cases msg with
  | appendEntriesRequest m => exact wp_processAppendEntriesRequest_followsIn peers hc h
  | appendEntriesReply m =>
    obtain ⟨hstale, hlead⟩ := hc
    simp only [TermMsg.decode, processReceivedServerMsg, processAppendEntriesReply, wp_bind,
      wp_getRi, wp_ite, wp_pure, wp_whenever, hlead, hstale]
    refine ⟨fun hno => (by cases hno), fun _ => ⟨fun _ => ⟨fun _ => ?_, fun hge => absurd h hge⟩,
      fun hno => absurd trivial hno⟩⟩
    refine wp_mono (wp_becomesFollower_followsIn h) (fun _ s' hs' => hs'.trans ?_) fun _ => id
    simp [TermMsg.FindsLeader]
  | voteReply votedGranted term currentLeader =>
    obtain ⟨rfl, hcand⟩ := hc
    exact wp_processVoteReplyCommon_followsIn hcand h

end Requests

end

/-! ## Adoption -/

/-- A server that is told of a newer term follows in it exactly when it finds a peer to follow. -/
theorem newer_term_adopted [Externals] (peers : Fin n → Nat) (sender : Fin n) (msg : TermMsg)
    {s s' : Proc n} (hc : msg.Concerns s.ri) (hnewer : s.ri.logHdr.term < msg.term)
    (hret : processReceivedServerMsg sender (msg.decode peers) s = .ok () s') :
    FollowsIn msg.term s'.ri ↔ msg.FindsLeader peers s.ri sender := by
  have hwp := wp_processReceivedServerMsg_followsIn peers sender hc hnewer
  exact wp_of_ok (Q := fun _ s' => FollowsIn _ s'.ri ↔ _) hret hwp

/-- Servers 0 and 1 stand for term 1, then server 1 stands for term 2 and turns server 0 down. -/
def rivalCandidates : List (Event 3) :=
  [.expire 0, .deliver 1 0, .deliver 0 2, .expire 1, .deliver 2 6, .deliver 1 7, .expire 1,
    .deliver 2 11, .deliver 1 12, .deliver 1 3]

/-- Three peers with uuids of their own. -/
def samplePeers : Fin 3 → Nat := fun i => i.val + 100

/-- Server 0 once the three servers are there. -/
def standsAlone : Proc 3 := ⟨(afterRun rivalCandidates).servers 0, [], [], none⟩

/-- What server 0 makes of the vote that server 1 did not grant, by the uuid that the vote names. -/
def afterRefusal (currentLeader : Nat) : Outcome (Proc 3) Unit :=
  @processReceivedServerMsg 3 sampleExternals 1
    ((TermMsg.voteReply false 2 currentLeader).decode samplePeers) standsAlone

/-- Had server 1 named server 2 as its leader, server 0 would have followed. -/
theorem newer_term_adopted_namedLeader :
    (TermMsg.voteReply false 2 102).Concerns standsAlone.ri ∧
      standsAlone.ri.logHdr.term < (TermMsg.voteReply false 2 102).term ∧
      ∃ s', afterRefusal 102 = .ok () s' ∧ FollowsIn 2 s'.ri := by
  have hc : (TermMsg.voteReply false 2 102).Concerns standsAlone.ri :=
    ⟨rfl, by decide +kernel⟩
  have hnewer : standsAlone.ri.logHdr.term < (TermMsg.voteReply false 2 102).term := by
    decide +kernel
  have hret : afterRefusal 102 = .ok () (afterRefusal 102).state :=
    Outcome.eq_ok_state (by decide +kernel)
  refine ⟨hc, hnewer, _, hret, ?_⟩
  have hfinds : (TermMsg.voteReply false 2 102).FindsLeader samplePeers standsAlone.ri 1 :=
    ⟨2, by decide, by decide +kernel⟩
  exact (@newer_term_adopted 3 sampleExternals samplePeers 1 _ _ _ hc hnewer hret).mpr hfinds

/-- Server 1 knows of no leader.  Its reply is on its way to server 0, which stays a candidate of
the older term. -/
theorem rivalCandidates_not_adopted :
    @Cluster.Reach 3 sampleExternals Cluster.anyEvent threeServers (afterRun rivalCandidates) ∧
      (⟨1, 0, (TermMsg.voteReply false 2 0).decode samplePeers, some (.voteRequest ⟨1, 0, -1⟩)⟩ :
        Packet 3) ∈ (afterRun rivalCandidates).net ∧
      (TermMsg.voteReply false 2 0).Concerns standsAlone.ri ∧
      standsAlone.ri.logHdr.term < (TermMsg.voteReply false 2 0).term ∧
      ∃ s', afterRefusal 0 = .ok () s' ∧ s'.ri.logHdr.term = 1 ∧ s'.ri.state = .candidate ∧
        ¬ FollowsIn 2 s'.ri := by
  have hterm : (afterRefusal 0).state.ri.logHdr.term = 1 := by decide +kernel
  refine ⟨reach_afterRun _, by decide +kernel, ⟨rfl, by decide +kernel⟩, by decide +kernel, _,
    Outcome.eq_ok_state (by decide +kernel), hterm, by decide +kernel, fun h => ?_⟩
  exact absurd (hterm.symm.trans h.1) (by decide)

end NiovaRaft
