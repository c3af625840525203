import NiovaRaft.Spec.Writes

/-!
# Roles

What the functions that change the role of a server leave behind.  Started where the role agrees
with the terms that are kept, none of their assertions fails: such a process dies of a kill alone.
All other functions leave role and terms as they are.
-/

namespace NiovaRaft

open Base Base.Handler Relation

variable {n : Nat}

/-- A server that neither stands nor leads. -/
structure Passive (ri : RaftInstance n) : Prop where
  candidate : ri.state ≠ .candidate
  prevote : ri.state ≠ .candidatePrevote
  leader : ri.state ≠ .leader

/-- What a server keeps of the candidacy it asks for, or of its leadership, is about the term it
has persisted. -/
structure RoleTerms (ri : RaftInstance n) : Prop where
  prevote : ri.state = .candidatePrevote → ri.candidate.term = ri.logHdr.term + 1
  leaderTerm : ri.state = .leader → ri.leader.leaderTerm = ri.logHdr.term
  leaderCsn : ri.state = .leader → ri.csnLeader = some ri.self

/-- The same, with what a candidate keeps. -/
structure RolesAgree (ri : RaftInstance n) : Prop extends RoleTerms ri where
  candidate : ri.state = .candidate → ri.candidate.term = ri.logHdr.term
  synced : ri.state = .candidate → ri.newestSync = ri.newestUnsync

/-- A change of an instance after which the role agrees with the terms.  Only a candidate comes to
lead. -/
structure RoleStep (ri ri' : RaftInstance n) : Prop where
  terms : RoleTerms ri'
  enters : ri'.state = .leader → ri.state = .leader ∨ ri.state = .candidate

theorem RoleTerms.stay {ri : RaftInstance n} (h : RoleTerms ri) : RoleStep ri ri := ⟨h, .inl⟩

theorem Passive.of_follower {ri : RaftInstance n} (h : ri.state = .follower) : Passive ri := by
  constructor <;> rw [h] <;> simp

theorem Passive.roleTerms {ri : RaftInstance n} (h : Passive ri) : RoleTerms ri where
  prevote := fun hs => absurd hs h.prevote
  leaderTerm := fun hs => absurd hs h.leader
  leaderCsn := fun hs => absurd hs h.leader

theorem Passive.roleStep {ri ri' : RaftInstance n} (h : Passive ri') : RoleStep ri ri' :=
  ⟨h.roleTerms, fun hs => absurd hs h.leader⟩

namespace RaftServer

variable {s : Proc n} {α : Type}

/-- Whoever keeps the role keeps what is said about it. -/
theorem roleStep_of_roleOf {s' : Proc n} (h : RoleTerms s.ri) (hrole : roleOf s' = roleOf s) :
    RoleStep s.ri s'.ri := by
  simp only [roleOf, roleIn, Prod.mk.injEq] at hrole
  obtain ⟨hself, hstate, hhdr, hcsn, hcand, hterm⟩ := hrole
  refine ⟨⟨?_, ?_, ?_⟩, fun hlead => .inl (by rw [← hstate]; exact hlead)⟩
  · rw [hstate, hcand, hhdr]
    exact h.prevote
  · rw [hstate, hterm, hhdr]
    exact h.leaderTerm
  · rw [hstate, hcsn, hself]
    exact h.leaderCsn

theorem passive_congr {s' : Proc n} (h : Passive s.ri) (hrole : roleOf s' = roleOf s) :
    Passive s'.ri := by
  simp only [roleOf, roleIn, Prod.mk.injEq] at hrole
  constructor <;> rw [hrole.2.1]
  · exact h.candidate
  · exact h.prevote
  · exact h.leader

/-! ## Candidacy -/

/-- A result is registered by a candidate, for the round it is in. -/
theorem wp_candidateRegVoteResult_of_terms {voter : Fin n} {result : VoteResult}
    {Q : Except Errno Unit → Proc n → Prop} {D : Proc n → Prop}
    (hpre : s.ri.state = .candidatePrevote → s.ri.candidate.term = s.ri.logHdr.term + 1)
    (hcand : s.ri.state = .candidate → s.ri.candidate.term = s.ri.logHdr.term)
    (herr : ∀ rc, (result = .unknown ∨
      (s.ri.isCandidatePrevote = false ∧ s.ri.isCandidate = false) ∨
      voteResultIsForRound s.ri.isCandidatePrevote result = false) → Q (.error rc) s)
    (hok : (s.ri.isCandidatePrevote = true ∨ s.ri.isCandidate = true) →
      voteResultIsForRound s.ri.isCandidatePrevote result = true →
      Q (.ok ()) { s with ri := { s.ri with candidate := { s.ri.candidate with
        results := Function.update s.ri.candidate.results voter result } } }) :
    (candidateRegVoteResult voter result).wp Q D s := by
  simp only [candidateRegVoteResult, wp_bind, wp_getRi, wp_ite, wp_pure, wp_fatalIf, wp_modifyRi]
  refine ⟨fun h => herr _ (.inl h), fun _ => ⟨fun h => herr _ (.inr (.inl h)), fun hstands =>
    ⟨fun h => herr _ (.inr (.inr h)), fun hround => ⟨fun hne => absurd ?_ hne, fun _ => ?_⟩⟩⟩⟩
  · by_cases hp : s.ri.state = .candidatePrevote
    · rw [hpre hp]
      simp [RaftInstance.isCandidatePrevote, hp]
    · have hc : s.ri.state = .candidate := by
        simpa [RaftInstance.isCandidatePrevote, RaftInstance.isCandidate, hp] using hstands
      rw [hcand hc]
      simp [RaftInstance.isCandidatePrevote, hp]
  · refine hok ?_ (eq_true_of_ne_false hround)
    by_contra hnone
    simp only [not_or, Bool.not_eq_true] at hnone
    exact hstands hnone

/-- A timer expires, or too few votes came in: the first round begins. -/
theorem wp_becomeCandidate_prevote :
    (becomeCandidate true).wp (fun _ s' => RoleTerms s'.ri ∧ s'.ri.state ≠ .leader)
      (fun _ => False) s := by
  simp only [becomeCandidate, initCandidateState, voteForSelf, broadcastMsg, wp_bind, wp_modifyRi,
    wp_getRi, wp_assert, wp_ite, wp_pure, wp_modify]
  refine ⟨fun _ => ⟨fun h => absurd h.1 (by simp [RaftInstance.isCandidatePrevote]), fun _ => ?_⟩,
    fun h => absurd (.inl trivial) h⟩
  refine ⟨fun h => absurd h (by simp [RaftInstance.isCandidate]), fun _ => ?_⟩
  refine wp_candidateRegVoteResult_of_terms (fun _ => rfl) (fun h => ?_) (fun rc h => ?_)
    fun _ _ => ⟨fun _ => ⟨⟨fun _ => rfl, fun h => ?_, fun h => ?_⟩, fun h => ?_⟩, fun h => ?_⟩
  all_goals simp [RaftInstance.isCandidatePrevote, voteResultIsForRound, Except.isOk,
    Except.toBool] at h

/-- A majority of pre-votes: the server stands for the next term. -/
theorem wp_becomeCandidate_stands (hc : Consistent s.ri) (hpre : s.ri.state = .candidatePrevote) :
    (becomeCandidate false).wp (fun _ s' => RoleTerms s'.ri ∧ s'.ri.state ≠ .leader)
      (fun _ => s.fuse ≠ none) s := by
  simp only [becomeCandidate, initCandidateState, voteForSelf, broadcastMsg, wp_bind, wp_modifyRi,
    wp_getRi, wp_assert, wp_ite, wp_pure, wp_modify]
  refine ⟨fun _ => ⟨fun h => absurd h.2 (by simp [RaftInstance.isCandidate]), fun _ => ?_⟩,
    fun h => absurd (.inr (by simp [RaftInstance.isCandidatePrevote, hpre])) h⟩
  refine ⟨fun _ => ?_, fun h => absurd (by simp [RaftInstance.isCandidate]) h⟩
  refine wp_logHeaderWrite ⟨hc.entries, hc.unsync, hc.sync, hc.reaped, hc.applied⟩ (Int.lt_succ _)
    (fun h => h) (fun h _ => h) fun fuse _ => ?_
  refine wp_candidateRegVoteResult_of_terms (fun h => ?_) (fun _ => rfl) (fun rc h => ?_)
    fun _ _ => ⟨fun _ => ⟨⟨fun h => ?_, fun h => ?_, fun h => ?_⟩, fun h => ?_⟩, fun h => ?_⟩
  all_goals simp [RaftInstance.flushed, RaftInstance.withHeader, RaftInstance.isCandidatePrevote,
    RaftInstance.isCandidate, voteResultIsForRound, Except.isOk, Except.toBool] at h

/-! ## Following -/

/-- Whoever follows another server does so in a term that is not older. -/
theorem wp_becomesFollower_passive {term : Int} {peer : Option (Fin n)} {reason : FollowerReason}
    {Q : Unit → Proc n → Prop} (hc : Consistent s.ri)
    (hterm : if reason = .staleTermWhileCandidate then s.ri.logHdr.term ≤ term
      else s.ri.logHdr.term < term)
    (hstay : (∀ x, peer = some x → x = s.ri.self) → Q () s)
    (hfollow : ∀ s', s'.ri.self = s.ri.self → s'.ri.state = .follower → Q () s') :
    (becomesFollower term peer reason).wp Q (fun _ => s.fuse ≠ none) s := by
  rw [becomesFollower, wp_bind, wp_getRi]
  cases peer with
  | none => exact hstay fun x h => (by cases h)
  | some x =>
    simp only [wp_whenever, follow, wp_bind, wp_modifyRi, wp_getRi, wp_assert, setLeaderCsn,
      updateLogHeader]
    refine ⟨fun _ => ⟨fun _ => ⟨fun hne => ⟨fun hlt => ?_, fun hle => absurd ?_ hle⟩, fun _ => ?_⟩,
      fun h => absurd hterm h⟩, fun hself => hstay ?_⟩
    · exact wp_logHeaderWrite ⟨hc.entries, hc.unsync, hc.sync, hc.reaped, hc.applied⟩ hlt
        (fun h => h) (fun h _ => h) fun fuse _ => hfollow _ rfl rfl
    · split at hterm
      · exact lt_of_le_of_ne hterm (Ne.symm hne)
      · exact hterm
    · exact hfollow _ rfl rfl
    · rintro y ⟨⟩
      exact not_not.mp hself

/-! ## Leading -/

section Lead

variable [Externals]

/-- A candidate that has everything synced leads. -/
theorem wp_candidateBecomesLeader (hc : Consistent s.ri) (hroles : RolesAgree s.ri)
    (hstate : s.ri.state = .candidate) (hterm : s.ri.newestUnsync.term ≤ s.ri.logHdr.term) :
    candidateBecomesLeader.wp (fun _ s' => RoleTerms s'.ri) (fun _ => s.fuse ≠ none) s := by
  simp only [candidateBecomesLeader, leaderInitState, wp_bind, wp_getRi, wp_assert]
  refine ⟨fun _ => ?_, fun h => absurd ?_ h⟩
  · refine wp_hasUnsyncedEntries_of_consistent hc ?_
    simp only [wp_fatalIf, wp_modifyRi, wp_observe, writeLeaderChangeMarker, leaderWriteNewEntry,
      wp_bind, wp_getRi, wp_assert]
    refine ⟨fun h => ?_, fun _ => ⟨fun _ => ⟨fun _ => ⟨fun _ => ?_, fun h => ?_⟩, fun h => ?_⟩,
      fun h => ?_⟩⟩
    · simp [hroles.synced hstate] at h
    · refine wp_writeNextEntry ⟨hc.entries, hc.unsync, hc.sync, hc.reaped, hc.applied⟩
        (fun h => h hterm (by simp) (.inl rfl)) fun fuse _ _ _ _ => ?_
      exact ⟨fun h => (by cases h), fun _ => rfl, fun _ => rfl⟩
    · simp at h
    · simp [RaftInstance.isLeader] at h
    · simp [RaftInstance.isLeader] at h
  · simp [candidateIsViable, RaftInstance.isCandidate, hstate, hroles.candidate hstate]

/-! ## Votes -/

/-- What a candidate does with a result of its round. -/
theorem wp_actOnVoteResult {result : VoteResult} {m : VoteReplyMsg n} (hc : Consistent s.ri)
    (hroles : RolesAgree s.ri) (hterm : s.ri.newestUnsync.term ≤ s.ri.logHdr.term)
    (hstands : s.ri.isCandidatePrevote = true ∨ s.ri.isCandidate = true)
    (hround : voteResultIsForRound s.ri.isCandidatePrevote result = true) :
    (actOnVoteResult result m).wp (fun _ s' => RoleStep s.ri s'.ri) (fun _ => s.fuse ≠ none) s := by
  have hstay := hroles.toRoleTerms.stay
  rw [actOnVoteResult, wp_bind, wp_getRi]
  cases result with
  | unknown => simp [voteResultIsForRound] at hround
  | preVoteNo => exact hstay
  | preVoteYes =>
    have hpre : s.ri.state = .candidatePrevote := by
      simpa [voteResultIsForRound, RaftInstance.isCandidatePrevote] using hround
    rw [wp_whenever]
    refine ⟨fun _ => ?_, fun _ => hstay⟩
    exact wp_mono (wp_becomeCandidate_stands hc hpre)
      (fun _ s' h => ⟨h.1, fun hlead => absurd hlead h.2⟩) fun _ => id
  | voteYes =>
    have hcand : s.ri.state = .candidate := by
      have hpre : s.ri.isCandidatePrevote = false := by
        simpa [voteResultIsForRound] using hround
      simpa [hpre, RaftInstance.isCandidate] using hstands
    rw [wp_whenever]
    refine ⟨fun _ => ?_, fun _ => hstay⟩
    exact wp_mono (wp_candidateBecomesLeader hc hroles hcand hterm)
      (fun _ s' h => ⟨h, fun _ => .inr hcand⟩) fun _ => id
  | voteNo =>
    rw [wp_whenever]
    refine ⟨fun hlt => ?_, fun _ => hstay⟩
    exact wp_becomesFollower_passive hc (le_of_lt hlt) (fun _ => hstay)
      fun s' _ h => (Passive.of_follower h).roleStep

/-- No vote reply makes a server fail. -/
theorem wp_processVoteReplyCommon_roles {sender : Fin n} {prevote : Bool} {m : VoteReplyMsg n}
    (hc : Consistent s.ri) (hroles : RolesAgree s.ri)
    (hterm : s.ri.newestUnsync.term ≤ s.ri.logHdr.term) :
    (processVoteReplyCommon sender prevote m).wp (fun _ s' => RoleStep s.ri s'.ri)
      (fun _ => s.fuse ≠ none) s := by
  have hstay := hroles.toRoleTerms.stay
  simp only [processVoteReplyCommon, wp_bind, wp_getRi, wp_ite, wp_pure]
  refine ⟨fun _ => hstay, fun _ => ?_⟩
  refine wp_candidateRegVoteResult_of_terms hroles.prevote hroles.candidate (fun rc _ => ?_)
    fun hstands hround => ?_
  · rw [wp_whenever]
    exact ⟨fun h => absurd h (by simp [Except.isOk, Except.toBool]), fun _ => hstay⟩
  · rw [wp_whenever]
    refine ⟨fun _ => ?_, fun h => absurd (by simp [Except.isOk, Except.toBool]) h⟩
    -- a registered vote changes neither the role nor a term
    exact wp_mono (wp_actOnVoteResult ⟨hc.entries, hc.unsync, hc.sync, hc.reaped, hc.applied⟩
      ⟨⟨hroles.prevote, hroles.leaderTerm, hroles.leaderCsn⟩, hroles.candidate, hroles.synced⟩
      hterm hstands hround) (fun _ s' h => ⟨h.terms, h.enters⟩) fun _ => id

end Lead

/-- No request for votes makes a server fail. -/
theorem wp_processVoteRequestCommon_roles {sender : Fin n} {prevote : Bool} {m : VoteRequestMsg}
    (hc : Consistent s.ri) (hroles : RoleTerms s.ri) :
    (processVoteRequestCommon sender prevote m).wp (fun _ s' => RoleStep s.ri s'.ri)
      (fun _ => s.fuse ≠ none) s := by
  -- what follows the sync, wherever it led
  have hrest : ∀ s₁ : Proc n, Consistent s₁.ri → RoleStep s.ri s₁.ri →
      (s.fuse = none → s₁.fuse = none) →
      (do
        let ri ← getRi
        let result :=
          if prevote then processPreVoteRequestDecide ri m ri.newestSync
          else processVoteRequestDecide ri m ri.newestSync
        let reply : VoteReplyMsg n :=
          ⟨result, ri.logHdr.term, if result then none else ri.csnLeader⟩
        whenever (prevote = false ∧ result = true)
          (becomesFollower m.proposedTerm (some sender) .votedForPeer)
        sendMsg (some sender) (if prevote then .preVoteReply reply else .voteReply reply) :
        Server n Unit).wp (fun _ s' => RoleStep s.ri s'.ri) (fun _ => s.fuse ≠ none) s₁ := by
    intro s₁ hc₁ hroles₁ hfuse
    simp only [wp_bind, wp_getRi, wp_whenever, wp_sendMsg_some]
    refine ⟨fun hgrant => ?_, fun _ => hroles₁⟩
    obtain ⟨rfl, hres⟩ := hgrant
    have hlt : s₁.ri.logHdr.term < m.proposedTerm := by
      simp only [Bool.false_eq_true, if_false, processVoteRequestDecide, Bool.not_eq_true',
        decide_eq_false_iff_not, not_or, not_le] at hres
      exact hres.1
    exact wp_mono (wp_becomesFollower_passive hc₁ hlt (Q := fun _ s' => RoleStep s.ri s'.ri)
      (fun _ => hroles₁) fun s' _ h => (Passive.of_follower h).roleStep)
      (fun _ _ h => h) fun _ h hnone => h (hfuse hnone)
  rw [processVoteRequestCommon, wp_bind]
  refine wp_backendSyncPending hc (fun h => h) (fun _ => hrest s hc hroles.stay id)
    fun fuse hfuse => hrest _ hc.flushed ?_ hfuse
  exact ⟨⟨hroles.prevote, hroles.leaderTerm, hroles.leaderCsn⟩, .inl⟩

/-! ## The term of a request -/

/-- A server that takes the term of a request follows from there on, unless it is the leader of that
term itself.  Whatever the request says, no assertion fails. -/
theorem wp_processAppendEntriesTermCheckOps_roles {sender : Fin n} {m : AppendEntriesRequestMsg}
    (hc : Consistent s.ri) :
    (processAppendEntriesTermCheckOps sender m).wp (fun rc s' =>
        (rc ≠ .ok () → s' = s) ∧ (rc = .ok () → sender ≠ s.ri.self →
          (s.ri.state = .leader → s.ri.logHdr.term ≠ m.leaderTerm) → Passive s'.ri))
      (fun _ => s.fuse ≠ none) s := by
  -- where the server follows the sender
  have hfollow : ∀ reason : FollowerReason, (if reason = .staleTermWhileCandidate then
        s.ri.logHdr.term ≤ m.leaderTerm else s.ri.logHdr.term < m.leaderTerm) →
      (becomesFollower m.leaderTerm (some sender) reason).wp (fun _ s' =>
        (setLeaderCsn sender >>= fun _ => pure (.ok ()) : Server n (Except Errno Unit)).wp
          (fun rc s' => (rc ≠ .ok () → s' = s) ∧ (rc = .ok () → sender ≠ s.ri.self →
            (s.ri.state = .leader → s.ri.logHdr.term ≠ m.leaderTerm) → Passive s'.ri))
          (fun _ => s.fuse ≠ none) s') (fun _ => s.fuse ≠ none) s := by
    intro reason hterm
    refine wp_becomesFollower_passive hc hterm (fun hself => ?_) fun s' _ hstate => ?_
    · exact ⟨fun h => absurd rfl h, fun _ hne => absurd (hself sender rfl) hne⟩
    · exact ⟨fun h => absurd rfl h, fun _ _ _ => .of_follower hstate⟩
  simp only [processAppendEntriesTermCheckOps, wp_bind, wp_getRi, wp_ite, wp_pure] at hfollow ⊢
  refine ⟨fun _ => ⟨fun _ => trivial, fun h => (by cases h)⟩, fun hle => ⟨fun _ => ?_, fun hcand =>
    ⟨fun hlead => ?_, fun hlead => ⟨fun hf => ?_, fun _ => ?_⟩⟩⟩⟩
  · exact hfollow .staleTermWhileCandidate (not_lt.mp hle)
  · exact hfollow .staleTermWhileLeader hlead.1
  · have hstate : s.ri.state = .follower := by simpa [RaftInstance.isFollower] using hf.2
    simp only [tryUpdateLogHeaderNullVotedForPeer, updateLogHeader, wp_bind, wp_getRi, wp_whenever,
      wp_assert]
    refine ⟨fun hlt => ⟨fun _ => ?_, fun h => absurd hlt h⟩, fun h => absurd hf.1 h⟩
    refine wp_logHeaderWrite hc hlt (fun h => h) (fun h _ => h) fun fuse _ => ?_
    exact ⟨fun h => absurd rfl h, fun _ _ _ => .of_follower hstate⟩
  · refine ⟨fun h => absurd rfl h, fun _ _ hother => ?_⟩
    simp only [not_or, Bool.not_eq_true, RaftInstance.isCandidate, RaftInstance.isCandidatePrevote,
      decide_eq_false_iff_not] at hcand
    refine ⟨hcand.1, hcand.2, fun hl => hother hl ?_⟩
    have hnot : ¬ s.ri.logHdr.term < m.leaderTerm := fun hlt =>
      hlead ⟨hlt, by simpa [RaftInstance.isLeader] using hl⟩
    exact le_antisymm (not_lt.mp hle) (not_lt.mp hnot)

/-! ## The functions that keep the role -/

theorem wp_of_keepsRole {m : Server n α} (h : KeepsRole m s) :
    m.wp (fun _ s' => roleView s' = roleView s) (fun d => (roleView d).2 = (roleView s).2) s := by
  refine wp_intro (fun _ _ hres => roleView_eq h hres) fun d hres => ?_
  obtain ⟨v, hto, hd⟩ := wp_of_abort hres h
  rcases ReflTransGen.cases_head hto with rfl | ⟨_, hfalse, -⟩
  · exact hd
  · exact hfalse.elim

theorem keepsRole_sendMsg {dst : Option (Fin n)} {msg : RpcMsg n} (hmsg : msg.isPreVote = false) :
    KeepsRole (sendMsg dst msg) s := by
  cases dst with
  | none => exact .abort fun _ => rfl
  | some d =>
    refine .modify ?_
    have hout : (s.out ++ [(d, msg)]).filter (·.2.isPreVote) = s.out.filter (·.2.isPreVote) := by
      rw [List.filter_append, List.filter_cons_of_neg (by simp [hmsg]), List.filter_nil,
        List.append_nil]
    simp only [roleView, hout]
    exact .refl

theorem keepsRole_leaderCanAdvanceCommitIdx {syncThread : Bool} :
    KeepsRole (leaderCanAdvanceCommitIdx syncThread : Server n Int) s := by
  refine .bind .gets fun _ _ _ => .ite (fun _ => .pure) fun _ => .bind ?_ fun _ _ _ =>
    .fatalIf_bind (fun _ => rfl) fun _ => .pure
  exact .bind .gets fun _ _ _ => .assert_bind (fun _ => rfl) fun _ =>
    .bind (.modify .refl) fun _ _ _ => .bind .gets fun _ _ _ => .pure

theorem keepsRole_leaderTryAdvanceCommitIdx :
    KeepsRole (leaderTryAdvanceCommitIdx : Server n Unit) s :=
  .bind .gets fun _ _ _ => .assert_bind (fun _ => rfl) fun _ =>
    .bind keepsRole_leaderCanAdvanceCommitIdx fun _ _ _ => .whenever fun _ =>
      keepsRole_advanceCommitIdx

theorem keepsRole_tryUpdateFollowerSyncIdx {peer : Fin n} {term sli : Int} :
    KeepsRole (tryUpdateFollowerSyncIdx peer term sli) s :=
  .bind .gets fun _ _ _ => .whenever fun _ => .bind (.modify .refl) fun _ _ _ =>
    .whenever fun _ => keepsRole_leaderTryAdvanceCommitIdx

theorem keepsRole_applyAppendEntriesReplyResult {follower : Fin n} {m : AppendEntriesReplyMsg} :
    KeepsRole (applyAppendEntriesReplyResult follower m) s :=
  .bind .gets fun _ _ _ => .assert_bind (fun _ => rfl) fun _ =>
    .assert_bind (fun _ => rfl) fun _ => .ite (fun _ => .pure) fun _ =>
    .ite (fun _ => .modify .refl) fun _ => .ite (fun _ => .modify .refl) fun _ =>
    .bind (.modify .refl) fun _ _ _ => keepsRole_tryUpdateFollowerSyncIdx

theorem keepsRole_processSyncIdxUpdate {sender : Fin n} {m : SyncIdxUpdateMsg} :
    KeepsRole (processSyncIdxUpdate sender m) s :=
  .bind .gets fun _ _ _ => .whenever fun _ => keepsRole_tryUpdateFollowerSyncIdx

theorem keepsRole_syncThread : KeepsRole (syncThread : Server n Unit) s :=
  .bind .gets fun _ _ _ => .whenever fun _ => .bind keepsRole_hasUnsyncedEntries fun _ _ _ =>
    .whenever fun _ => .bind (.bind keepsRole_hasUnsyncedEntries fun _ _ _ => .whenever fun _ =>
      keepsRole_backendSync) fun _ _ _ =>
    .bind keepsRole_leaderCanAdvanceCommitIdx fun _ _ _ => .pure

theorem keepsRole_commitIdxAdvEvpCb : KeepsRole (commitIdxAdvEvpCb : Server n Unit) s :=
  .bind .gets fun _ _ _ => .whenever fun _ => keepsRole_leaderTryAdvanceCommitIdx

theorem roleIn_of_sending {v v' : Visible n} (h : Sending v v') : roleIn v'.1 = roleIn v.1 := by
  cases h with
  | slot => rfl
  | request => rfl

/-- What the steps of a function keep of the role, it keeps, and so it is where it dies. -/
theorem wp_role_of_within {write : Visible n → Visible n → Prop} {m : Server n α}
    (h : m.Within Proc.visible write LeftBehind s)
    (hstep : ∀ v v', write v v' → roleIn v'.1 = roleIn v.1 ∧
      v'.1.store.db.hdr = v.1.store.db.hdr ∧
      v'.2.filter (·.2.isPreVote) = v.2.filter (·.2.isPreVote)) :
    m.wp (fun _ s' => roleView s' = roleView s) (fun d => (roleView d).2 = (roleView s).2) s := by
  have hinv := h.invariant (P := fun v : Visible n =>
    (roleIn v.1, v.1.store.db.hdr, v.2.filter (·.2.isPreVote)) = roleView s) ?_ rfl
  · refine wp_mono hinv (fun _ _ hs => hs) ?_
    rintro d ⟨v, hv, hd⟩
    have hout : d.out = v.2 := hd.out
    have hstore : d.ri.store = v.1.store := hd.ri.store
    rw [← hv, roleView, hstore, hout]
  · intro v v' hv hw
    obtain ⟨hrole, hhdr, hout⟩ := hstep v v' hw
    rw [hrole, hhdr, hout]
    exact hv

theorem wp_chkptThread_role {takesChkpt reaps : Bool} {keep : Int} :
    (chkptThread takesChkpt reaps keep).wp (fun _ s' => roleView s' = roleView s)
      (fun d => (roleView d).2 = (roleView s).2) s := by
  refine wp_role_of_within compacts_chkptThread fun v v' hstep => ?_
  cases hstep with
  | checkpoint => exact ⟨rfl, rfl, rfl⟩
  | reap => exact ⟨rfl, rfl, rfl⟩

section Keep

variable [Externals]

theorem keepsRole_writeCoalescedEntries {requests : List (List UInt8)} :
    KeepsRole (writeCoalescedEntries requests : Server n Unit) s :=
  .bind .gets fun _ _ _ => .whenever fun _ => .bind .gets fun _ _ _ =>
    .assert_bind (fun _ => rfl) fun _ => .assert_bind (fun _ => rfl) fun _ =>
      keepsRole_writeNextEntry

theorem wp_stateMachineApply_role {cb : SmRequestCb} :
    (stateMachineApply cb).wp (fun _ s' => roleView s' = roleView s)
      (fun d => (roleView d).2 = (roleView s).2) s := by
  refine wp_role_of_within applies_stateMachineApply fun v v' hstep => ?_
  cases hstep with
  | @record ri out la batch =>
    refine ⟨rfl, ?_, rfl⟩
    simp only [RaftInstance.recordApplied]
    split <;> rfl

theorem wp_appendEntrySender_role {clock : SendClock n} {heartbeat : Bool} :
    (appendEntrySender clock heartbeat).wp (fun _ s' => roleView s' = roleView s)
      (fun d => (roleView d).2 = (roleView s).2) s := by
  refine wp_role_of_within sends_appendEntrySender fun v v' hstep =>
    ⟨roleIn_of_sending hstep, ?_⟩
  cases hstep with
  | slot => exact ⟨rfl, rfl⟩
  | request q m => exact ⟨rfl, by simp [RpcMsg.isPreVote]⟩

/-! ## Requests and replies to append -/

/-- A request of another server, which is not a leader of the same term. -/
theorem wp_processAppendEntriesRequest_roles {sender : Fin n} {m : AppendEntriesRequestMsg}
    (hc : Consistent s.ri) (hroles : RoleTerms s.ri) (hne : sender ≠ s.ri.self)
    (hother : s.ri.state = .leader → s.ri.logHdr.term ≠ m.leaderTerm) :
    (processAppendEntriesRequest sender m).wp (fun _ s' => RoleStep s.ri s'.ri)
      (fun _ => True) s := by
  -- once the term is known
  have hvalid : ∀ updateSli, (processValidAppendEntries sender m updateSli).wp
      (fun _ s' => RoleStep s.ri s'.ri) (fun _ => True) s := by
    intro updateSli
    rw [processValidAppendEntries, wp_bind]
    refine wp_mono (wp_processAppendEntriesTermCheckOps_roles hc) (fun rc s₁ h => ?_)
      fun _ _ => trivial
    cases rc with
    | error rc =>
      rw [h.1 (by simp)]
      exact hroles.stay
    | ok u =>
      have hpassive := h.2 rfl hne hother
      simp only [wp_ite]
      refine ⟨fun _ => hpassive.roleStep, fun _ => ?_⟩
      have hrest : KeepsRole (do
          let rc ← appendEntryLogPrepareAndCheck m
          let nonMatchingPrevTerm ← processAppendEntriesOutcome m rc
          appendEntryReplySend m sender false nonMatchingPrevTerm false rc) s₁ :=
        .bind keepsRole_appendEntryLogPrepareAndCheck fun _ _ _ =>
          .bind keepsRole_processAppendEntriesOutcome fun _ _ _ =>
          .bind .gets fun _ _ _ => keepsRole_sendMsg rfl
      exact wp_mono (wp_of_keepsRole hrest)
        (fun _ _ hview => (passive_congr hpassive (congrArg Prod.fst hview)).roleStep)
        fun _ _ => trivial
  rw [processAppendEntriesRequest, wp_bind, wp_getRi]
  cases processAppendEntriesRequestValidityCheck s.ri m with
  | error rc => exact hroles.stay
  | ok u =>
    simp only [processBulkRecoveryCheck, wp_bind, wp_getRi, wp_ite, wp_pure, wp_modifyRi]
    exact ⟨fun _ => hvalid false, fun _ => ⟨fun _ => hvalid true, fun _ =>
      ⟨⟨hroles.prevote, hroles.leaderTerm, hroles.leaderCsn⟩, .inl⟩⟩⟩

omit [Externals] in
theorem wp_processAppendEntriesReply_roles {sender : Fin n} {m : AppendEntriesReplyMsg}
    (hc : Consistent s.ri) (hroles : RoleTerms s.ri) :
    (processAppendEntriesReply sender m).wp (fun _ s' => RoleStep s.ri s'.ri)
      (fun _ => m.errStaleTerm = true → s.fuse ≠ none) s := by
  simp only [processAppendEntriesReply, wp_bind, wp_getRi, wp_ite, wp_pure, wp_whenever]
  refine ⟨fun _ => hroles.stay, fun _ => ⟨fun hstale => ⟨fun hlt => ?_, fun _ => hroles.stay⟩,
    fun hfresh => ?_⟩⟩
  · exact wp_mono (wp_becomesFollower_passive hc hlt (Q := fun _ s' => RoleStep s.ri s'.ri)
      (fun _ => hroles.stay) fun s' _ h => (Passive.of_follower h).roleStep)
      (fun _ _ h => h) fun _ h _ => h
  · exact wp_mono (wp_of_keepsRole keepsRole_applyAppendEntriesReplyResult)
      (fun _ _ hview => roleStep_of_roleOf hroles (congrArg Prod.fst hview)) fun _ _ h => absurd h hfresh

end Keep

end RaftServer

end NiovaRaft
