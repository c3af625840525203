import NiovaRaft.Spec.Rounds

/-!
# A candidate and its voters

What the handlers of an election do when nothing goes wrong: a server stands in a round, a voter
that has no reason to refuse answers yes, and a candidate that has a majority goes on to the next
round or leads.  The rules say that nobody dies of it, whatever else the instances hold.
-/

namespace NiovaRaft

open Base Base.Handler RaftServer

variable {n : Nat} {prevote : Bool} {t : Int}

/-- The request of a round. -/
def requestOf (prevote : Bool) (vreq : VoteRequestMsg) : RpcMsg n :=
  if prevote then .preVoteRequest vreq else .voteRequest vreq

/-- The reply of a round. -/
def replyOf (prevote : Bool) (vreply : VoteReplyMsg n) : RpcMsg n :=
  if prevote then .preVoteReply vreply else .voteReply vreply

/-- The request asks for votes for term `t`, with a log that is not behind the entry. -/
structure Proposes (t : Int) (hdr : EntryHeader) (vreq : VoteRequestMsg) : Prop where
  term : vreq.proposedTerm = t
  lastTerm : hdr.term ≤ vreq.lastLogTerm
  lastIndex : hdr.index ≤ vreq.lastLogIndex

/-- A server that has not voted in term `t`, whose log is not ahead of the entry in term or in
index, and that does not follow a leader of the term before. -/
structure Votes (t : Int) (hdr : EntryHeader) (ri : RaftInstance n) : Prop where
  term : ri.logHdr.term < t
  lastTerm : ri.newestUnsync.term ≤ hdr.term
  lastIndex : ri.newestUnsync.index ≤ hdr.index
  undecided : ri.logHdr.term + 1 < t ∨ ri.csnLeader = none ∨ ri.state = .candidate ∨
    ri.state = .candidatePrevote

/-- The server and its log are as before. -/
structure Unmoved (ri ri' : RaftInstance n) : Prop where
  self : ri'.self = ri.self
  entries : ri'.store.db.entries = ri.store.db.entries
  unsync : ri'.newestUnsync = ri.newestUnsync
  procState : ri'.procState = ri.procState
  bulk : ri'.needsBulkRecovery = ri.needsBulkRecovery

/-- A server stands for term `t`, with its own vote but no majority yet. -/
structure Standing (prevote : Bool) (t : Int) (ri : RaftInstance n) : Prop where
  cons : Consistent ri
  state : ri.state = if prevote then .candidatePrevote else .candidate
  term : ri.logHdr.term + (if prevote then 1 else 0) = t
  candidate : ri.candidate.term = t
  newest : ri.newestUnsync.term < t
  synced : prevote = false → ri.newestSync = ri.newestUnsync
  own : ri.candidate.results ri.self = voteResultOf prevote true
  few : candidateCountVotes ri (voteResultOf prevote true) < n / 2 + 1

/-- The server leads term `t`, with a marker at the end of its log. -/
structure TakesLead (t : Int) (ri ri' : RaftInstance n) : Prop where
  state : ri'.state = .leader
  term : ri'.logHdr.term = t
  leaderTerm : ri'.leader.leaderTerm = t
  procState : ri'.procState = ri.procState
  bulk : ri'.needsBulkRecovery = ri.needsBulkRecovery
  marked : ∃ re, re.header.leaderChangeMarker = true ∧ re.term = t ∧
    ri'.store.db.entries = ri.store.db.entries ++ [re]

theorem Unmoved.refl (ri : RaftInstance n) : Unmoved ri ri := ⟨rfl, rfl, rfl, rfl, rfl⟩

theorem Unmoved.trans {ri ri' ri'' : RaftInstance n} (h : Unmoved ri ri') (h' : Unmoved ri' ri'') :
    Unmoved ri ri'' :=
  ⟨h'.self.trans h.self, h'.entries.trans h.entries, h'.unsync.trans h.unsync,
    h'.procState.trans h.procState, h'.bulk.trans h.bulk⟩

theorem TakesLead.of_unmoved {ri ri' ri'' : RaftInstance n} (h : TakesLead t ri' ri'')
    (hmoved : Unmoved ri ri') : TakesLead t ri ri'' := by
  obtain ⟨re, hmarker, hterm, hentries⟩ := h.marked
  refine ⟨h.state, h.term, h.leaderTerm, h.procState.trans hmoved.procState,
    h.bulk.trans hmoved.bulk, re, hmarker, hterm, ?_⟩
  rw [hentries, hmoved.entries]

theorem Unmoved.flushed (ri : RaftInstance n) : Unmoved ri ri.flushed := by
  refine ⟨rfl, ?_, rfl, rfl, rfl⟩
  unfold RaftInstance.flushed
  dsimp only
  split <;> rfl

/-- Nobody but the server itself has voted yet. -/
theorem candidateCountVotes_own {ri : RaftInstance n} {result : VoteResult}
    (hresult : result ≠ .unknown)
    (hresults : ri.candidate.results = Function.update (fun _ => .unknown) ri.self result) :
    candidateCountVotes ri result = 1 := by
  rw [candidateCountVotes, List.countP_eq_length_filter]
  have hall : ∀ i, decide (ri.candidate.results i = result) = decide (i = ri.self) := by
    intro i
    rw [hresults]
    by_cases hi : i = ri.self
    · rw [hi, Function.update_self]
      simp
    · rw [Function.update_of_ne hi]
      simp [hi, Ne.symm hresult]
  have hfilter : (List.finRange n).filter (fun i => decide (ri.candidate.results i = result)) =
      (List.finRange n).filter fun i => decide (i = ri.self) :=
    List.filter_congr fun i _ => hall i
  rw [hfilter, ← List.countP_eq_length_filter]
  exact List.count_eq_one_of_mem (List.nodup_finRange n) (List.mem_finRange ri.self)

namespace Standing

variable {ri : RaftInstance n} {voter : Fin n}

theorem isCandidatePrevote (h : Standing prevote t ri) : ri.isCandidatePrevote = prevote := by
  cases prevote <;> simp [RaftInstance.isCandidatePrevote, h.state]

theorem isCandidate (h : Standing prevote t ri) : ri.isCandidate = !prevote := by
  cases prevote <;> simp [RaftInstance.isCandidate, h.state]

theorem viable (h : Standing prevote t ri) : candidateIsViable ri = true := by
  have hterm := h.term
  have hcandidate := h.candidate
  rw [candidateIsViable, h.isCandidate, h.isCandidatePrevote]
  cases prevote with
  | true =>
    rw [if_pos rfl] at hterm
    simp [hcandidate, hterm]
  | false =>
    rw [if_neg Bool.false_ne_true] at hterm
    simp [hcandidate, ← hterm]

/-- One vote more, and still no majority. -/
theorem counted (h : Standing prevote t ri) (hother : voter ≠ ri.self)
    (hfew : ¬ n / 2 + 1 ≤ candidateCountVotes (ri.withVote voter (voteResultOf prevote true))
      (voteResultOf prevote true)) :
    Standing prevote t (ri.withVote voter (voteResultOf prevote true)) := by
  have hc := h.cons
  refine ⟨⟨hc.entries, hc.unsync, hc.sync, hc.reaped, hc.applied⟩, h.state, h.term, h.candidate,
    h.newest, h.synced, ?_, not_le.mp hfew⟩
  show Function.update ri.candidate.results voter _ ri.self = _
  rw [Function.update_of_ne (Ne.symm hother)]
  exact h.own

end Standing

/-- What a voter has when it decides: all of its log is synced. -/
structure Decides (ri ri' : RaftInstance n) : Prop where
  cons : Consistent ri'
  sync : ri'.newestSync = ri.newestUnsync
  unsync : ri'.newestUnsync = ri.newestUnsync
  hdr : ri'.logHdr = ri.logHdr
  csnLeader : ri'.csnLeader = ri.csnLeader
  state : ri'.state = ri.state
  procState : ri'.procState = ri.procState
  bulk : ri'.needsBulkRecovery = ri.needsBulkRecovery

/-- A voter that has no reason to refuse does not. -/
theorem Votes.grants {hdr : EntryHeader} {ri ri' : RaftInstance n} {vreq : VoteRequestMsg}
    (h : Votes t hdr ri) (hv : Proposes t hdr vreq) (hd : Decides ri ri') :
    processVoteRequestDecide ri' vreq ri'.newestSync = true ∧
      processPreVoteRequestDecide ri' vreq ri'.newestSync = true := by
  have hterm := hv.term
  have hlastTerm := hv.lastTerm
  have hlastIndex := hv.lastIndex
  have hvote : processVoteRequestDecide ri' vreq ri'.newestSync = true := by
    rw [processVoteRequestDecide, hd.sync, hd.hdr, Bool.not_eq_true', decide_eq_false_iff_not]
    have h1 := h.term
    have h2 := h.lastTerm
    have h3 := h.lastIndex
    omega
  refine ⟨hvote, ?_⟩
  rw [processPreVoteRequestDecide, hvote, hd.hdr, hterm, RaftInstance.isCandidate,
    RaftInstance.isCandidatePrevote, hd.csnLeader, hd.state]
  rcases h.undecided with hlow | hnone | hcand | hpre
  · simp [hlow]
  · simp [hnone]
  · simp [hcand]
  · simp [hpre]

variable {s : Proc n} {D : Proc n → Prop}

namespace RaftServer

/-! ## Standing -/

/-- The messages to all others. -/
def broadcast (ri : RaftInstance n) (msg : RpcMsg n) : List (Fin n × RpcMsg n) :=
  ((List.finRange n).filter (· ≠ ri.self)).map (·, msg)

theorem mem_broadcast {ri : RaftInstance n} {msg : RpcMsg n} {m : Fin n × RpcMsg n} :
    m ∈ broadcast ri msg ↔ m.1 ≠ ri.self ∧ m.2 = msg := by
  rw [broadcast, List.mem_map]
  constructor
  · rintro ⟨q, hq, rfl⟩
    exact ⟨of_decide_eq_true (List.mem_filter.mp hq).2, rfl⟩
  · rintro ⟨hq, rfl⟩
    exact ⟨m.1, List.mem_filter.mpr ⟨List.mem_finRange _, decide_eq_true hq⟩, rfl⟩

theorem broadcast_nodup (ri : RaftInstance n) (msg : RpcMsg n) :
    ((broadcast ri msg).map Prod.fst).Nodup := by
  rw [broadcast, List.map_map]
  exact ((List.nodup_finRange n).filter _).map fun _ _ h => h

/-- A server asks for pre-votes. -/
theorem wp_becomeCandidate_polls {Q : Unit → Proc n → Prop} (hc : Consistent s.ri) (hn : 1 < n)
    (hnewest : s.ri.newestUnsync.term ≤ s.ri.logHdr.term)
    (hQ : ∀ ri', Unmoved s.ri ri' → Standing true (s.ri.logHdr.term + 1) ri' → Q () { s with
      ri := ri'
      out := s.out ++ broadcast s.ri (requestOf true
        ⟨s.ri.logHdr.term + 1, s.ri.newestSync.term, s.ri.newestSync.index⟩) }) :
    (becomeCandidate true).wp Q D s := by
  set ri' : RaftInstance n := { s.ri with
    csnLeader := none
    state := .candidatePrevote
    candidate := ⟨s.ri.logHdr.term + 1, true,
      Function.update (fun _ => .unknown) s.ri.self .preVoteYes⟩ } with hri'
  have hown : candidateCountVotes ri' .preVoteYes = 1 :=
    candidateCountVotes_own (by simp) rfl
  have hstands : Standing true (s.ri.logHdr.term + 1) ri' := by
    refine ⟨⟨hc.entries, hc.unsync, hc.sync, hc.reaped, hc.applied⟩, rfl, rfl, rfl,
      Int.lt_add_one_of_le hnewest, fun h => (by cases h), ?_, ?_⟩
    · show Function.update (fun _ => VoteResult.unknown) s.ri.self .preVoteYes s.ri.self = _
      exact Function.update_self _ _ _
    · show candidateCountVotes ri' .preVoteYes < _
      rw [hown]
      omega
  have hdone := hQ ri' ⟨rfl, rfl, rfl, rfl, rfl⟩ hstands
  simp only [becomeCandidate, initCandidateState, voteForSelf, candidateRegVoteResult,
    broadcastMsg, wp_bind, wp_modifyRi, wp_getRi, wp_assert, wp_ite, wp_pure, wp_modify,
    wp_fatalIf]
  refine ⟨fun _ => ⟨fun h => absurd h.1 (by simp [RaftInstance.isCandidatePrevote]), fun _ =>
    ⟨fun h => absurd h (by simp [RaftInstance.isCandidate]), fun _ => ?_⟩⟩,
    fun h => absurd (.inl trivial) h⟩
  refine ⟨fun h => (by cases h), fun _ => ⟨fun h => absurd h.1
    (by simp [RaftInstance.isCandidatePrevote]), fun _ => ⟨fun h => absurd h
    (by simp [RaftInstance.isCandidatePrevote, voteResultIsForRound]), fun _ => ?_⟩⟩⟩
  refine ⟨fun h => absurd rfl h, fun _ => ⟨fun _ => hdone, fun h => absurd rfl h⟩⟩

/-- A server that has its majority of pre-votes persists the next term and asks for votes. -/
theorem wp_becomeCandidate_asks {Q : Unit → Proc n → Prop} (hc : Consistent s.ri) (hn : 1 < n)
    (hstate : s.ri.state = .candidatePrevote)
    (hnewest : s.ri.newestUnsync.term ≤ s.ri.logHdr.term) (hfuse : s.fuse = none)
    (hQ : ∀ ri', Unmoved s.ri ri' → Standing false (s.ri.logHdr.term + 1) ri' → Q () { s with
      ri := ri'
      out := s.out ++ broadcast s.ri (requestOf false
        ⟨s.ri.logHdr.term + 1, s.ri.newestUnsync.term, s.ri.newestUnsync.index⟩) }) :
    (becomeCandidate false).wp Q D s := by
  set ri₁ : RaftInstance n := { s.ri with
    csnLeader := none
    state := .candidate
    candidate := ⟨s.ri.logHdr.term + 1, false, fun _ => .unknown⟩ } with hri₁
  set hdr := nextHeader ri₁ (some s.ri.self) (s.ri.logHdr.term + 1) with hhdr
  set ri₂ := (ri₁.withHeader hdr).flushed with hri₂
  have hc₁ : Consistent ri₁ := ⟨hc.entries, hc.unsync, hc.sync, hc.reaped, hc.applied⟩
  have hheader : Unmoved s.ri (ri₁.withHeader hdr) := ⟨rfl, rfl, rfl, rfl, rfl⟩
  have hmoved : Unmoved s.ri ri₂ := hheader.trans (.flushed _)
  have hsynced : ri₂.newestSync = s.ri.newestUnsync := (hc₁.withHeader _).flushed_newestSync
  have hown : candidateCountVotes (ri₂.withVote s.ri.self .voteYes) .voteYes = 1 :=
    candidateCountVotes_own (by simp) rfl
  have hstands : Standing false (s.ri.logHdr.term + 1) (ri₂.withVote s.ri.self .voteYes) := by
    have hc₂ := (hc₁.withHeader hdr).flushed
    refine ⟨⟨hc₂.entries, hc₂.unsync, hc₂.sync, hc₂.reaped, hc₂.applied⟩, rfl, ?_, rfl,
      Int.lt_add_one_of_le hnewest, fun _ => hsynced, ?_, ?_⟩
    · exact Int.add_zero _
    · show Function.update (fun _ => VoteResult.unknown) s.ri.self .voteYes s.ri.self = _
      exact Function.update_self _ _ _
    · show candidateCountVotes (ri₂.withVote s.ri.self .voteYes) .voteYes < _
      rw [hown]
      omega
  have hdone := hQ (ri₂.withVote s.ri.self .voteYes)
    (hmoved.trans ⟨rfl, rfl, rfl, rfl, rfl⟩) hstands
  simp only [becomeCandidate, initCandidateState, voteForSelf, broadcastMsg, wp_bind, wp_modifyRi,
    wp_getRi, wp_assert, wp_ite, wp_pure, wp_modify]
  refine ⟨fun _ => ⟨fun h => absurd h.2 (by simp [RaftInstance.isCandidate]), fun _ =>
    ⟨fun _ => ?_, fun h => absurd (by simp [RaftInstance.isCandidate]) h⟩⟩,
    fun h => absurd (.inr (by simp [RaftInstance.isCandidatePrevote, hstate])) h⟩
  refine wp_logHeaderWrite hc₁ (Int.lt_succ _) (fun h => absurd hfuse h) (fun h => absurd hfuse h)
    fun fuse hnone => ?_
  cases hnone hfuse
  simp only [candidateRegVoteResult, wp_bind, wp_modifyRi, wp_getRi, wp_ite, wp_pure, wp_fatalIf]
  refine ⟨fun h => (by cases h), fun _ => ⟨fun h => absurd h.2 ?_, fun _ => ⟨fun h => absurd h ?_,
    fun _ => ⟨fun h => absurd ?_ h, fun _ => ?_⟩⟩⟩⟩
  · simp [RaftInstance.flushed, RaftInstance.withHeader, RaftInstance.isCandidate]
  · simp [RaftInstance.flushed, RaftInstance.withHeader, RaftInstance.isCandidatePrevote,
      voteResultIsForRound]
  · simp [RaftInstance.flushed, RaftInstance.withHeader, RaftInstance.isCandidatePrevote,
      nextHeader]
  · rw [hfuse, ← hsynced] at hdone
    exact ⟨fun _ => hdone, fun h => absurd rfl h⟩

section Lead

variable [Externals]

/-- A candidate that has its majority of votes puts its marker at the end of its log. -/
theorem wp_candidateBecomesLeader_leads {Q : Unit → Proc n → Prop} (hc : Consistent s.ri)
    (hstate : s.ri.state = .candidate) (hviable : s.ri.candidate.term = s.ri.logHdr.term)
    (hsynced : s.ri.newestSync = s.ri.newestUnsync)
    (hnewest : s.ri.newestUnsync.term ≤ s.ri.logHdr.term) (hfuse : s.fuse = none)
    (hQ : ∀ s', TakesLead s.ri.logHdr.term s.ri s'.ri → s'.out = s.out → Q () s') :
    candidateBecomesLeader.wp Q D s := by
  simp only [candidateBecomesLeader, leaderInitState, wp_bind, wp_getRi, wp_assert]
  refine ⟨fun _ => ?_, fun h => absurd ?_ h⟩
  · refine wp_hasUnsyncedEntries_of_consistent hc ?_
    simp only [wp_fatalIf, wp_modifyRi, wp_observe, writeLeaderChangeMarker, leaderWriteNewEntry,
      wp_bind, wp_getRi, wp_assert]
    refine ⟨fun h => absurd h (by simp [hsynced]), fun _ => ⟨fun _ => ⟨fun _ => ⟨fun _ => ?_,
      fun h => absurd (.inr rfl) h⟩, fun h => absurd rfl h⟩, fun h => absurd rfl h⟩⟩
    refine wp_writeNextEntry ⟨hc.entries, hc.unsync, hc.sync, hc.reaped, hc.applied⟩
      (fun h => absurd hfuse (h hnewest (Nat.zero_le _) (.inl rfl))) fun fuse _ _ _ _ => ?_
    exact hQ _ ⟨rfl, rfl, rfl, rfl, rfl, _, rfl, rfl, rfl⟩ rfl
  · simp [candidateIsViable, RaftInstance.isCandidate, hstate, hviable]

/-- The timer of a server that hears of no majority. -/
theorem wp_timerfdCb_stands {heartbeatDue : Bool} {clock : SendClock n}
    {Q : Unit → Proc n → Prop} (hstate : s.ri.state ≠ .none ∧ s.ri.state ≠ .client)
    (h : (becomeCandidate true).wp Q D s) : (timerfdCb false heartbeatDue clock).wp Q D s := by
  rw [timerfdCb, wp_bind, wp_getRi]
  cases hs : s.ri.state with
  | none => exact absurd hs hstate.1
  | client => exact absurd hs hstate.2
  | follower => exact h
  | candidatePrevote => exact h
  | candidate => exact h
  | leader => exact h

/-! ## Replies -/

omit [Externals] in
/-- A vote for the round that the candidate is in is registered. -/
theorem wp_candidateRegVoteResult_counts {voter : Fin n} {Q : Except Errno Unit → Proc n → Prop}
    (h : Standing prevote t s.ri)
    (hQ : Q (.ok ()) { s with ri := s.ri.withVote voter (voteResultOf prevote true) }) :
    (candidateRegVoteResult voter (voteResultOf prevote true)).wp Q D s := by
  have hterm := h.term
  have hcandidate := h.candidate
  simp only [candidateRegVoteResult, wp_bind, wp_getRi, wp_ite, wp_pure, wp_fatalIf, wp_modifyRi,
    h.isCandidatePrevote, h.isCandidate]
  cases prevote with
  | true =>
    rw [if_pos rfl] at hterm
    refine ⟨fun hr => (by cases hr), fun _ => ⟨fun hnone => absurd hnone.1 (by simp), fun _ =>
      ⟨fun hround => absurd hround (by simp [voteResultIsForRound, voteResultOf]), fun _ =>
        ⟨fun hother => absurd (hcandidate.trans hterm.symm) hother, fun _ => hQ⟩⟩⟩⟩
  | false =>
    rw [if_neg Bool.false_ne_true] at hterm
    refine ⟨fun hr => (by cases hr), fun _ => ⟨fun hnone => absurd hnone.2 (by simp), fun _ =>
      ⟨fun hround => absurd hround (by simp [voteResultIsForRound, voteResultOf]), fun _ =>
        ⟨fun hother => absurd (hcandidate.trans hterm.symm) hother, fun _ => hQ⟩⟩⟩⟩

/-- A yes in the round that the candidate is in. -/
theorem wp_processVoteReplyCommon_yes {sender : Fin n} {vreply : VoteReplyMsg n}
    {Q : Unit → Proc n → Prop} (h : Standing prevote t s.ri) (hn : 1 < n) (hfuse : s.fuse = none)
    (hyes : vreply.votedGranted = true) (hother : sender ≠ s.ri.self)
    (hcounted : ∀ ri', ri' = s.ri.withVote sender (voteResultOf prevote true) →
      Standing prevote t ri' → Q () { s with ri := ri' })
    (hasks : prevote = true → ∀ ri', Unmoved s.ri ri' → Standing false t ri' → Q () { s with
      ri := ri'
      out := s.out ++ broadcast s.ri (requestOf false
        ⟨t, s.ri.newestUnsync.term, s.ri.newestUnsync.index⟩) })
    (hleads : prevote = false → ∀ s', TakesLead t s.ri s'.ri → s'.out = s.out → Q () s') :
    (processVoteReplyCommon sender prevote vreply).wp Q D s := by
  have hc := h.cons
  have hterm := h.term
  have hnewest := h.newest
  have hcandidate := h.candidate
  set s₁ : Proc n := { s with ri := s.ri.withVote sender (voteResultOf prevote true) } with hs₁
  have hc₁ : Consistent s₁.ri := ⟨hc.entries, hc.unsync, hc.sync, hc.reaped, hc.applied⟩
  have hviable : candidateIsViable s₁.ri = true := h.viable
  -- the vote is for the round that the candidate is in
  have hreg : (candidateRegVoteResult sender (voteResultOf prevote true)).wp
      (fun rc s' => rc.isOk = true ∧ s' = s₁) D s := by
    refine wp_candidateRegVoteResult_counts h ?_
    exact ⟨rfl, rfl⟩
  simp only [processVoteReplyCommon, wp_bind, wp_getRi, wp_ite, wp_pure, hyes,
    h.isCandidatePrevote, h.isCandidate]
  refine ⟨fun hother => absurd rfl hother.1, fun _ => wp_mono hreg ?_ fun _ hd => hd⟩
  rintro rc s' ⟨hok, rfl⟩
  rw [wp_whenever]
  refine ⟨fun _ => ?_, fun herr => absurd hok herr⟩
  cases prevote with
  | true =>
    rw [if_pos rfl] at hterm
    show (actOnVoteResult .preVoteYes vreply).wp Q D s₁
    rw [actOnVoteResult, wp_bind, wp_getRi, wp_whenever, prevoteCandidateCanBecomeCandidate,
      hviable, Bool.true_and, decide_eq_true_eq]
    refine ⟨fun _ => ?_, fun hfew => hcounted _ rfl (h.counted hother hfew)⟩
    have hold : s₁.ri.newestUnsync.term ≤ s₁.ri.logHdr.term := by
      show s.ri.newestUnsync.term ≤ s.ri.logHdr.term
      omega
    refine wp_becomeCandidate_asks hc₁ hn h.state hold hfuse fun ri' hmoved hstands => ?_
    have hvoted : Unmoved s.ri s₁.ri := ⟨rfl, rfl, rfl, rfl, rfl⟩
    have hdone := hasks rfl ri' (hvoted.trans hmoved) (hterm ▸ hstands)
    rw [← hterm] at hdone
    exact hdone
  | false =>
    rw [if_neg Bool.false_ne_true, Int.add_zero] at hterm
    show (actOnVoteResult .voteYes vreply).wp Q D s₁
    rw [actOnVoteResult, wp_bind, wp_getRi, wp_whenever, candidateCanBecomeLeader, hviable,
      Bool.true_and, decide_eq_true_eq]
    refine ⟨fun _ => ?_, fun hfew => hcounted _ rfl (h.counted hother hfew)⟩
    have hold : s₁.ri.newestUnsync.term ≤ s₁.ri.logHdr.term := by
      show s.ri.newestUnsync.term ≤ s.ri.logHdr.term
      omega
    refine wp_candidateBecomesLeader_leads hc₁ h.state (hcandidate.trans hterm.symm) (h.synced rfl)
      hold hfuse fun s' hs' hout => ?_
    refine hleads rfl s' ⟨hs'.state, hs'.term.trans hterm, hs'.leaderTerm.trans hterm,
      hs'.procState, hs'.bulk, ?_⟩ hout
    obtain ⟨re, hmarker, hre, hentries⟩ := hs'.marked
    exact ⟨re, hmarker, hre.trans hterm, hentries⟩

/-- A reply that comes too late. -/
theorem wp_processVoteReplyCommon_late {sender : Fin n} {vreply : VoteReplyMsg n}
    {Q : Unit → Proc n → Prop}
    (hlate : s.ri.state = .leader ∨ (prevote = true ∧ s.ri.state = .candidate)) (hQ : Q () s) :
    (processVoteReplyCommon sender prevote vreply).wp Q D s := by
  simp only [processVoteReplyCommon, wp_bind, wp_getRi, wp_ite, wp_pure]
  refine ⟨fun _ => hQ, fun hround => ?_⟩
  rcases hlate with hleader | ⟨rfl, hcandidate⟩
  · -- a leader registers no votes
    have herr : ∀ rc : Errno, (whenever ((Except.error rc : Except Errno Unit).isOk = true)
        (actOnVoteResult (voteResultOf prevote vreply.votedGranted) vreply)).wp Q D s := by
      intro rc
      rw [wp_whenever]
      exact ⟨fun hok => (by cases hok), fun _ => hQ⟩
    simp only [candidateRegVoteResult, wp_bind, wp_getRi, wp_ite, wp_pure]
    refine ⟨fun _ => herr _, fun _ => ⟨fun _ => herr _, fun hstands => absurd ?_ hstands⟩⟩
    simp [RaftInstance.isCandidatePrevote, RaftInstance.isCandidate, hleader]
  · exact absurd ⟨by simp [RaftInstance.isCandidatePrevote, hcandidate],
      by simp [RaftInstance.isCandidate, hcandidate]⟩ hround

end Lead

/-! ## Requests -/

theorem wp_backendSyncPending_decides {Q : Unit → Proc n → Prop} (hc : Consistent s.ri)
    (hfuse : s.fuse = none) (hQ : ∀ ri', Decides s.ri ri' → Q () { s with ri := ri' }) :
    backendSyncPending.wp Q D s := by
  refine wp_backendSyncPending hc (fun h => absurd hfuse h) (fun hsame => ?_) fun fuse hnone => ?_
  · exact hQ s.ri ⟨hc, hsame, rfl, rfl, rfl, rfl, rfl, rfl⟩
  · rw [hnone hfuse, ← hfuse]
    exact hQ s.ri.flushed ⟨hc.flushed, hc.flushed_newestSync, rfl, rfl, rfl, rfl, rfl, rfl⟩

/-- A voter answers. -/
theorem wp_processVoteRequestCommon_answers {sender : Fin n} {vreq : VoteRequestMsg}
    {Q : Unit → Proc n → Prop} (hc : Consistent s.ri) (hfuse : s.fuse = none)
    (hQ : ∀ ri' vreply, Consistent ri' → ri'.procState = s.ri.procState →
      ri'.needsBulkRecovery = s.ri.needsBulkRecovery →
      (∀ t hdr, Votes t hdr s.ri → Proposes t hdr vreq → vreply.votedGranted = true) →
      (prevote = true → ∀ t hdr, Votes t hdr s.ri → Votes t hdr ri') → Q () { s with
        ri := ri'
        out := s.out ++ [(sender, replyOf prevote vreply)] }) :
    (processVoteRequestCommon sender prevote vreq).wp Q D s := by
  rw [processVoteRequestCommon, wp_bind]
  refine wp_backendSyncPending_decides hc hfuse fun ri₁ hd => ?_
  simp only [wp_bind, wp_getRi, wp_whenever, wp_sendMsg_some]
  have hgrants : ∀ t hdr, Votes t hdr s.ri → Proposes t hdr vreq →
      (if prevote then processPreVoteRequestDecide ri₁ vreq ri₁.newestSync
        else processVoteRequestDecide ri₁ vreq ri₁.newestSync) = true := by
    intro t hdr hvotes hv
    cases prevote with
    | true => exact (hvotes.grants hv hd).2
    | false => exact (hvotes.grants hv hd).1
  refine ⟨?_, fun _ => ?_⟩
  · rintro ⟨rfl, hgranted⟩
    -- the vote is persisted
    have hnewer : ri₁.logHdr.term < vreq.proposedTerm := by
      rw [if_neg Bool.false_ne_true, processVoteRequestDecide, Bool.not_eq_true',
        decide_eq_false_iff_not] at hgranted
      omega
    have hc₁ := hd.cons
    have hvoted : ∀ ri' vreply, Consistent ri' → ri'.procState = ri₁.procState →
        ri'.needsBulkRecovery = ri₁.needsBulkRecovery → vreply.votedGranted = true → Q () { s with
          ri := ri'
          out := s.out ++ [(sender, replyOf false vreply)] } :=
      fun ri' vreply hc' hproc hbulk hyes => hQ ri' vreply hc' (hproc.trans hd.procState)
        (hbulk.trans hd.bulk) (fun _ _ _ _ => hyes) fun h => (by cases h)
    simp only [becomesFollower, follow, setLeaderCsn, updateLogHeader, wp_bind, wp_getRi,
      wp_whenever, wp_modifyRi, wp_assert]
    refine ⟨fun _ => ⟨fun _ => ⟨fun _ => ⟨fun _ => ?_, fun h => absurd hnewer h⟩, fun h => ?_⟩,
      fun h => absurd hnewer h⟩, fun _ => ?_⟩
    · refine wp_logHeaderWrite ⟨hc₁.entries, hc₁.unsync, hc₁.sync, hc₁.reaped, hc₁.applied⟩ hnewer
        (fun h => absurd hfuse h) (fun h => absurd hfuse h) fun fuse hnone => ?_
      rw [hnone hfuse, ← hfuse]
      refine hvoted _ _ ?_ rfl rfl hgranted
      refine Consistent.flushed (Consistent.withHeader ?_ _)
      exact ⟨hc₁.entries, hc₁.unsync, hc₁.sync, hc₁.reaped, hc₁.applied⟩
    · exact absurd hnewer (by have := not_not.mp h; omega)
    · exact hvoted ri₁ _ hc₁ rfl rfl hgranted
  · refine hQ ri₁ _ hd.cons hd.procState hd.bulk hgrants fun _ t hdr hvotes => ?_
    refine ⟨?_, ?_, ?_, ?_⟩
    · rw [hd.hdr]
      exact hvotes.term
    · rw [hd.unsync]
      exact hvotes.lastTerm
    · rw [hd.unsync]
      exact hvotes.lastIndex
    · rw [hd.hdr, hd.csnLeader, hd.state]
      exact hvotes.undecided

end RaftServer

end NiovaRaft
