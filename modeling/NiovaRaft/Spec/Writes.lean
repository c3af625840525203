import NiovaRaft.Spec.AppendEntries
import NiovaRaft.Spec.Sender

/-!
# The writes of each handler

One lemma for each function of the server that writes or sends: all its steps are listed in `Act`.
The lemmas follow the code, and use what it has asserted before a write where the list asks for it.
-/

namespace NiovaRaft

namespace RaftServer

open Base Base.Handler Relation

variable {n : Nat} [Externals] {cause : Option (Packet n)} {s : Proc n} {α : Type}

/-! ## Primitives -/

theorem writes_getRi_bind {f : RaftInstance n → Server n α} (h : Writes cause (f s.ri) s) :
    Writes cause (getRi >>= f) s :=
  h

theorem writes_modifyRi {f : RaftInstance n → RaftInstance n} (h : Update cause s.ri (f s.ri)) :
    Writes cause (modifyRi f) s :=
  .single (.write h)

theorem writes_observe {o : RaftInstance n → Obs n} : Writes cause (observe o) s :=
  .refl

theorem writes_sendMsg {dst : Option (Fin n)} {msg : RpcMsg n}
    (h : ∀ d, dst = some d → Message cause s.ri (d, msg)) : Writes cause (sendMsg dst msg) s := by
  cases dst with
  | none => exact .abort .refl
  | some d => exact .single (.send [(d, msg)] (by simpa using h d rfl))

theorem writes_fatalIf {c : Prop} [Decidable c] :
    Writes cause (Handler.fatalIf c : Server n Unit) s :=
  .fatalIf LeftBehind.refl

theorem writes_assert_bind {c : Prop} [Decidable c] {f : Unit → Server n α}
    (h : c → Writes cause (f ()) s) : Writes cause (Handler.assert c >>= f) s :=
  .assert_bind LeftBehind.refl h

theorem writes_fatalIf_bind {c : Prop} [Decidable c] {f : Unit → Server n α}
    (h : ¬ c → Writes cause (f ()) s) : Writes cause (Handler.fatalIf c >>= f) s :=
  .fatalIf_bind LeftBehind.refl h

/-- A handler that was specified by its outcomes. -/
theorem writes_of_wp {m : Server n α}
    (h : m.wp (fun _ s' => ReflTransGen (Act cause) s.visible s'.visible)
      (fun d => ∃ v, ReflTransGen (Act cause) s.visible v ∧ LeftBehind v d.visible) s) :
    Writes cause m s :=
  h

/-- A process that dies before it wrote anything. -/
theorem dies_at {d : Proc n} (h : LeftBehind s.visible d.visible) :
    ∃ v, ReflTransGen (Act cause) s.visible v ∧ LeftBehind v d.visible :=
  ⟨s.visible, .refl, h⟩

theorem writes_durable {f : Store n → Store n}
    (h : Update cause s.ri { s.ri with store := f s.ri.store }) : Writes cause (durable f) s :=
  writes_of_wp (wp_durable (fun _ => dies_at (.refl _)) fun _ _ => .single (.write h))

/-! ## The log -/

theorem writes_hasUnsyncedEntries : Writes cause hasUnsyncedEntries s :=
  writes_of_wp (wp_hasUnsyncedEntries (dies_at (.refl _)) .refl)

theorem writes_backendSync : Writes cause backendSync s := by
  refine writes_getRi_bind (.ite (fun _ => ?_) fun _ => ?_)
  · exact .bind writes_hasUnsyncedEntries fun _ _ _ => writes_fatalIf
  refine writes_assert_bind fun _ => writes_of_wp ?_
  rw [wp_bind]
  refine wp_durable (fun _ => dies_at (.refl _)) fun fuse _ => ?_
  -- what is left of the sync, from where the backend was flushed
  have hflush : Act cause s.visible ({ s.ri with store := s.ri.store.flush }, s.out) :=
    .write .flush
  have hdone : ∀ ri : RaftInstance n, ReflTransGen (Act cause) s.visible (ri, s.out) →
      ri.store.recoverable = [ri.store.db] →
      (do
        Handler.assert (s.ri.lastApplied.syncedIdx ≤ s.ri.lastApplied.idx)
        modifyRi fun ri => { ri with lastApplied := { ri.lastApplied with
          syncedIdx := max ri.lastApplied.syncedIdx ri.lastApplied.idx } } : Server n Unit).wp
        (fun _ s' => ReflTransGen (Act cause) s.visible s'.visible)
        (fun d => ∃ v, ReflTransGen (Act cause) s.visible v ∧ LeftBehind v d.visible)
        { s with ri := ri, fuse := fuse } := by
    intro ri hri hrec
    simp only [wp_bind, wp_assert, wp_modifyRi]
    exact ⟨fun _ => hri.tail (.write (.appliedSynced hrec)), fun _ => ⟨_, hri, .refl _⟩⟩
  rw [wp_bind, updateNewestEntryHdr, wp_ite]
  refine ⟨fun _ => hdone _ (.single hflush) rfl, fun _ => ?_⟩
  simp only [wp_bind, wp_getRi, wp_whenever, wp_assert, wp_modifyRi]
  refine ⟨fun _ => ⟨fun _ => ⟨fun h => absurd rfl h, fun _ => ?_⟩, fun _ => ?_⟩,
    fun h => absurd (by simp) h⟩
  · have hto : ReflTransGen (Act cause) s.visible ({ s.ri with
        store := s.ri.store.flush
        newestSync := updateHdr false s.ri.newestUnsync s.ri.newestSync }, s.out) :=
      (ReflTransGen.single hflush).tail (.write (.synced rfl))
    simpa only [wp_bind, wp_assert, wp_modifyRi] using hdone _ hto rfl
  · exact ⟨_, .single hflush, .refl _⟩

theorem writes_backendSyncPending : Writes cause backendSyncPending s :=
  .bind writes_hasUnsyncedEntries fun _ _ _ => .whenever fun _ => writes_backendSync

theorem writes_logHeaderWrite {candidate : Option (Fin n)} {term : Int}
    (h : s.ri.logHdr.term < term) (hstate : s.ri.state ≠ .leader) :
    Writes cause (logHeaderWrite candidate term) s := by
  refine writes_of_wp ?_
  simp only [logHeaderWrite, logHeaderWritePrep, headerWrite, wp_bind, wp_getRi, wp_fatalIf,
    wp_modifyRi]
  refine ⟨fun _ => dies_at (.refl _), fun _ => ?_⟩
  refine wp_durable (fun _ => dies_at ⟨⟨rfl, rfl, rfl⟩, rfl⟩) fun fuse _ => ?_
  have hto : Act cause s.visible
      (s.ri.withHeader ⟨term, candidate, s.ri.logHdr.seqno + 1⟩, s.out) :=
    .write (.header candidate term h hstate)
  have hsync : Writes cause backendSync
      { s with ri := s.ri.withHeader ⟨term, candidate, s.ri.logHdr.seqno + 1⟩, fuse := fuse } :=
    writes_backendSync
  exact hsync.head hto

theorem writes_writeNextEntry {term : Int} {data : List UInt8} {sizes : List Nat} {marker : Bool} :
    Writes cause (writeNextEntry term data sizes marker) s := by
  refine writes_getRi_bind (writes_assert_bind fun hterm => writes_fatalIf_bind fun hidx => ?_)
  refine writes_getRi_bind (writes_fatalIf_bind fun _ => ?_)
  simp only [entryInit]
  refine writes_of_wp ?_
  simp only [wp_bind, wp_getRi, wp_assert, wp_pure]
  refine ⟨fun hsizes => ⟨fun _ => ⟨fun hfits => ?_, fun _ => dies_at (.refl _)⟩,
    fun _ => dies_at (.refl _)⟩, fun _ => dies_at (.refl _)⟩
  have hnext : entryOf s.ri (s.ri.newestUnsync.index + 1) term data sizes marker =
      s.ri.nextEntry term data sizes marker := rfl
  have hreh : (s.ri.nextEntry term data sizes marker).header.index =
      s.ri.newestUnsync.index + 1 := rfl
  have hto : Act cause s.visible
      (s.ri.storeEntry (s.ri.nextEntry term data sizes marker), s.out) :=
    .write (.entry term data sizes marker hterm (by omega) hsizes hfits)
  rw [hnext]
  set re := s.ri.nextEntry term data sizes marker with hre
  have hneg : ¬ re.header.index < 0 := by omega
  have hun : s.ri.newestUnsync.index < re.header.index := by omega
  simp only [entryNextEntryIsValid, if_neg hneg, wp_bind, wp_getRi, wp_fatalIf, wp_pure,
    entryWriteByStore]
  refine ⟨fun _ => dies_at (.refl _), fun _ => ⟨fun _ => ?_, fun _ => dies_at (.refl _)⟩⟩
  refine wp_durable (fun _ => dies_at (.refl _)) fun fuse _ => ?_
  have hdead : ∀ d, Survives (s.ri.storeEntry re) d →
      ∃ v, ReflTransGen (Act cause) s.visible v ∧ LeftBehind v (d, s.out) :=
    fun d hd => ⟨_, .single hto, hd, rfl⟩
  rw [updateNewestEntryHdr, if_neg hneg]
  simp only [wp_bind, wp_getRi, wp_whenever, wp_assert, wp_modifyRi, updateHdr_of_gt hun]
  cases hs : s.ri.doesSynchronousWrites with
  | true =>
    have hafter : (s.ri.storeEntry re) = { s.ri with
        store := s.ri.store.put (s.ri.store.db.write re) true
        newestSync := re.header, newestUnsync := re.header } := by
      simp [RaftInstance.storeEntry, hs]
    rw [hafter] at hto hdead
    refine ⟨fun _ => ⟨fun hsy => ?_, fun _ => hdead _ ⟨rfl, rfl, rfl⟩⟩, fun h => absurd (by simp) h⟩
    have hsy' : s.ri.newestSync.index < re.header.index := by
      simpa [RaftInstance.doesSynchronousWrites] using
        hsy.resolve_left (fun h => by
          have : s.ri.doesSynchronousWrites = false := h
          simp [hs] at this)
    simp only [updateHdr_of_gt hsy']
    refine ⟨fun _ => ⟨fun _ => ⟨fun _ => ?_, fun h => absurd trivial h⟩,
      fun _ => hdead _ ⟨rfl, rfl, rfl⟩⟩, fun h => absurd (by simp) h⟩
    refine wp_hasUnsyncedEntries (hdead _ ⟨rfl, rfl, rfl⟩) ?_
    rw [wp_fatalIf]
    exact ⟨fun _ => hdead _ ⟨rfl, rfl, rfl⟩, fun _ => .single hto⟩
  | false =>
    have hafter : (s.ri.storeEntry re) = { s.ri with
        store := s.ri.store.put (s.ri.store.db.write re) false, newestUnsync := re.header } := by
      simp [RaftInstance.storeEntry, hs]
    rw [hafter] at hto hdead
    refine ⟨fun h => absurd h (by simp), fun _ => ⟨fun _ => ⟨fun _ => ?_,
      fun _ => hdead _ ⟨rfl, rfl, rfl⟩⟩, fun h => absurd (by simp) h⟩⟩
    exact ⟨fun h => absurd h (by simp), fun _ => .single hto⟩

/-! ## Elections -/

theorem writes_candidateRegVoteResult {voter : Fin n} {result : VoteResult} :
    Writes cause (candidateRegVoteResult voter result) s := by
  refine writes_getRi_bind (.ite (fun _ => .pure) fun _ => .ite (fun _ => .pure) fun _ =>
    .ite (fun _ => .pure) fun _ => writes_fatalIf_bind fun _ => ?_)
  exact .bind (writes_modifyRi (.role _ _ _ _ (.inr rfl))) fun _ _ _ => .pure

theorem writes_voteForSelf : Writes cause voteForSelf s := by
  refine writes_getRi_bind (.ite (fun _ => .pure) fun _ => .ite (fun hcand => ?_) fun _ => ?_)
  · refine .bind (writes_logHeaderWrite (Int.lt_succ _) ?_) fun _ _ _ =>
      writes_candidateRegVoteResult
    have hstate : s.ri.state = .candidate := by simpa [RaftInstance.isCandidate] using hcand
    rw [hstate]
    exact fun h => by cases h
  · exact writes_candidateRegVoteResult

theorem writes_broadcastMsg {msg : RpcMsg n} (h : ∀ d, Message cause s.ri (d, msg)) :
    Writes cause (broadcastMsg msg) s := by
  refine .single (.send _ fun m hm => ?_)
  obtain ⟨d, -, rfl⟩ := List.mem_map.mp hm
  exact h d

theorem writes_becomeCandidate {prevote : Bool} : Writes cause (becomeCandidate prevote) s := by
  refine .bind (writes_modifyRi (.role _ _ _ _ (.inr rfl))) fun _ s₁ _ => ?_
  refine writes_getRi_bind (writes_assert_bind fun _ => ?_)
  refine .bind (writes_modifyRi (.role _ _ _ _ (.inl ?_))) fun _ s₂ _ => ?_
  · cases prevote <;> simp
  refine .bind writes_voteForSelf fun _ s₃ _ => writes_assert_bind fun _ => ?_
  refine writes_getRi_bind (writes_broadcastMsg fun d => ?_)
  cases prevote with
  | true => exact .preVoteRequest d _
  | false => exact .voteRequest d _

theorem writes_updateLogHeader {term : Int} {peer : Option (Fin n)}
    (hstate : s.ri.state ≠ .leader) : Writes cause (updateLogHeader term peer) s :=
  writes_getRi_bind (writes_assert_bind fun h => writes_logHeaderWrite h hstate)

theorem writes_tryUpdateLogHeaderNullVotedForPeer {term : Int} (hstate : s.ri.state ≠ .leader) :
    Writes cause (tryUpdateLogHeaderNullVotedForPeer term) s :=
  writes_getRi_bind (.whenever fun _ => writes_updateLogHeader hstate)

theorem writes_setLeaderCsn {leader : Fin n} : Writes cause (setLeaderCsn leader) s :=
  writes_modifyRi (.role _ _ _ _ (.inr rfl))

theorem writes_becomesFollower {term : Int} {peer : Option (Fin n)} {reason : FollowerReason} :
    Writes cause (becomesFollower term peer reason) s := by
  refine writes_getRi_bind ?_
  cases peer with
  | none => exact .pure
  | some leader =>
    refine .whenever fun _ => ?_
    refine .bind (writes_modifyRi (.role _ _ _ _ (.inl (by simp)))) fun _ s₁ h₁ => ?_
    refine writes_getRi_bind (writes_assert_bind fun _ => ?_)
    refine .bind writes_setLeaderCsn fun _ s₂ h₂ => .whenever fun _ => writes_updateLogHeader ?_
    cases h₁
    cases h₂
    exact fun h => by cases h

theorem writes_leaderInitState (hcause : ∃ pkt m, cause = some pkt ∧ pkt.msg = .voteReply m) :
    Writes cause leaderInitState s := by
  refine writes_getRi_bind (writes_of_wp ?_)
  rw [wp_bind]
  refine wp_hasUnsyncedEntries (dies_at (.refl _)) ?_
  simp only [wp_bind, wp_fatalIf, wp_modifyRi, wp_observe, decide_eq_true_eq]
  exact ⟨fun _ => dies_at (.refl _), fun h => .single (.write (.lead (not_not.mp h) hcause))⟩

theorem writes_leaderWriteNewEntry {data : List UInt8} {sizes : List Nat} {marker : Bool} :
    Writes cause (leaderWriteNewEntry data sizes marker) s :=
  writes_getRi_bind (writes_assert_bind fun _ => writes_assert_bind fun _ => writes_writeNextEntry)

theorem writes_candidateBecomesLeader
    (hcause : ∃ pkt m, cause = some pkt ∧ pkt.msg = .voteReply m) :
    Writes cause candidateBecomesLeader s := by
  refine writes_getRi_bind (writes_assert_bind fun _ => ?_)
  refine .bind (writes_leaderInitState hcause) fun _ s₁ _ => ?_
  refine .bind (writes_getRi_bind (writes_assert_bind fun _ => writes_leaderWriteNewEntry))
    fun _ s₂ _ => writes_setLeaderCsn

theorem writes_processVoteReplyCommon {sender : Fin n} {prevote : Bool} {vreply : VoteReplyMsg n}
    (hcause : prevote = false → ∃ pkt m, cause = some pkt ∧ pkt.msg = .voteReply m) :
    Writes cause (processVoteReplyCommon sender prevote vreply) s := by
  refine writes_getRi_bind (.ite (fun _ => .pure) fun _ => ?_)
  refine .bind writes_candidateRegVoteResult fun rc s₁ _ => .whenever fun _ => ?_
  refine writes_getRi_bind ?_
  cases hresult : voteResultOf prevote vreply.votedGranted with
  | unknown => exact .abort LeftBehind.refl
  | preVoteYes => exact .whenever fun _ => writes_becomeCandidate
  | preVoteNo => exact .pure
  | voteYes =>
    refine .whenever fun _ => writes_candidateBecomesLeader (hcause ?_)
    cases prevote with
    | false => rfl
    | true => cases hg : vreply.votedGranted <;> simp [voteResultOf, hg] at hresult
  | voteNo => exact .whenever fun _ => writes_becomesFollower

theorem writes_processVoteRequestCommon {sender : Fin n} {prevote : Bool} {vreq : VoteRequestMsg} :
    Writes cause (processVoteRequestCommon sender prevote vreq) s := by
  refine .bind writes_backendSyncPending fun _ s₁ _ => writes_getRi_bind ?_
  refine .bind (.whenever fun _ => writes_becomesFollower) fun _ s₂ _ => writes_sendMsg ?_
  intro d _
  cases prevote with
  | true => exact .preVoteReply d _
  | false => exact .voteReply d _

/-! ## AppendEntries at the follower -/

theorem writes_appendEntryCheckAlreadyStored {m : AppendEntriesRequestMsg} :
    Writes cause (appendEntryCheckAlreadyStored m) s :=
  writes_of_wp (wp_appendEntryCheckAlreadyStored (dies_at (.refl _)) (fun _ => .refl)
    (fun _ _ => .refl) (fun _ _ => .refl))

/-- The log is cut where the newest synced entry is. -/
theorem writes_logTruncate (hcommit : 0 ≤ s.ri.newestSync.index + 1 →
      s.ri.commitIdx ≤ s.ri.newestSync.index)
    (happlied : 0 ≤ s.ri.newestSync.index + 1 → s.ri.lastApplied.idx ≤ s.ri.newestSync.index)
    (hnewest : s.ri.newestUnsync.index ≤ s.ri.newestSync.index ∨ s.ri.newestUnsync.index < 0)
    (hstate : s.ri.state = .follower) : Writes cause logTruncate s := by
  refine writes_getRi_bind (writes_assert_bind fun h => writes_durable ?_)
  have h0 : 0 ≤ s.ri.newestSync.index + 1 := h
  exact .truncate (by omega) (hcommit h0) (happlied h0) (by omega) hstate

theorem writes_appendEntryLogPruneIfNeeded {m : AppendEntriesRequestMsg} :
    Writes cause (appendEntryLogPruneIfNeeded m) s := by
  refine writes_getRi_bind (writes_assert_bind fun hf => writes_assert_bind fun hprev => ?_)
  refine .bind writes_backendSync fun _ s₁ hsync => writes_fatalIf_bind fun hlow => ?_
  have hfrom := wp_of_ok hsync wp_backendSync_syncedFrom
  have hci := hfrom.commitIdx
  have hai := hfrom.applied
  have hstate : s₁.ri.state = .follower := by
    rw [hfrom.state]
    simpa [RaftInstance.isFollower] using hf
  refine writes_of_wp ?_
  simp only [wp_bind, wp_whenever]
  refine ⟨fun h0 => ?_, fun hneg => ?_⟩
  · refine wp_entryHeaderReadByStore_validated (dies_at (.refl _))
      (fun _ _ => dies_at (.refl _)) fun re _ _ hre hidx => ?_
    refine wp_updateNewestEntryHdr_force (by omega) ?_
    have hto : Act cause s₁.visible (s₁.ri.withNewest re.header re.header, s₁.out) :=
      .write (.newest re (by omega) (by omega) (by rw [hidx]; exact hre) hstate)
    have hcut : Writes cause logTruncate
        { s₁ with ri := s₁.ri.withNewest re.header re.header } := by
      refine writes_logTruncate (fun _ => ?_) (fun _ => ?_) (.inl (le_refl _)) hstate
      · change s₁.ri.commitIdx ≤ re.header.index
        omega
      · change s₁.ri.lastApplied.idx ≤ re.header.index
        omega
    exact hcut.head hto
  · exact writes_logTruncate (fun h => by omega) (fun h => by omega) hfrom.newest hstate

theorem writes_appendEntryLogPrepareAndCheck {m : AppendEntriesRequestMsg} :
    Writes cause (appendEntryLogPrepareAndCheck m) s := by
  have hcmp : ∀ (reh : EntryHeader) (s' : Proc n), Writes cause (compareWithLeader reh m) s' :=
    fun reh s' => writes_assert_bind fun _ => .pure
  refine writes_getRi_bind ?_
  cases appendEntryRequestBoundsCheck s.ri m with
  | error rc => exact .pure
  | ok u =>
    refine .ite (fun _ => ?_) fun _ => hcmp _ _
    refine .bind (.bind writes_appendEntryCheckAlreadyStored fun stored s₁ _ => .ite (fun _ => ?_)
      fun _ => ?_) fun ahead s₂ _ => ?_
    · exact writes_getRi_bind .pure
    · refine .bind writes_appendEntryLogPruneIfNeeded fun _ s₂ _ => ?_
      refine .bind writes_hasUnsyncedEntries fun _ s₃ _ => writes_assert_bind fun _ => ?_
      exact writes_getRi_bind .pure
    · obtain ⟨rc, reh⟩ := ahead
      cases rc with
      | error rc => exact .pure
      | ok u => exact hcmp _ _

omit [Externals] in
/-- To follow is to take the term.  A server does not follow itself. -/
theorem wp_becomesFollower_follows {term : Int} {leader : Fin n} {reason : FollowerReason} :
    (becomesFollower term (some leader) reason).wp (fun _ s' => leader ≠ s'.ri.self →
      s'.ri.state = .follower ∧ s'.ri.logHdr.term = term) (fun _ => True) s := by
  simp only [becomesFollower, wp_bind, wp_getRi, wp_whenever, follow, wp_modifyRi, wp_assert,
    setLeaderCsn, updateLogHeader]
  refine ⟨fun _ => ⟨fun _ => ⟨fun _ => ⟨fun _ => ?_, fun _ => trivial⟩, fun heq => ?_⟩,
    fun _ => trivial⟩, fun h h' => absurd h' h⟩
  · refine wp_mono wp_logHeaderWrite_headerWritten (fun _ s' h _ => ?_) fun _ _ => trivial
    exact ⟨h.state, h.term⟩
  · exact fun _ => ⟨trivial, (not_not.mp heq).symm⟩

theorem writes_processAppendEntriesTermCheckOps {sender : Fin n} {m : AppendEntriesRequestMsg} :
    Writes cause (processAppendEntriesTermCheckOps sender m) s := by
  have hcsn : ∀ s' : Proc n, Writes cause (do
      setLeaderCsn sender
      pure (.ok ()) : Server n (Except Errno Unit)) s' :=
    fun s' => .bind writes_setLeaderCsn fun _ _ _ => .pure
  refine writes_getRi_bind (.ite (fun _ => .pure) fun _ => ?_)
  refine .ite (fun _ => .bind writes_becomesFollower fun _ s₁ _ => hcsn s₁) fun _ => ?_
  refine .ite (fun _ => .bind writes_becomesFollower fun _ s₁ _ => hcsn s₁) fun _ => ?_
  refine .ite (fun hf => ?_) fun _ => hcsn s
  refine .bind (writes_tryUpdateLogHeaderNullVotedForPeer ?_) fun _ s₁ _ => hcsn s₁
  have hstate : s.ri.state = .follower := by simpa [RaftInstance.isFollower] using hf.2
  rw [hstate]
  exact fun h => by cases h

/-! A request that was not stale is handled in its term from there on. -/

/-- The server's name, its role and its header, with what it keeps of its own or another server's
leadership. -/
def roleIn (ri : RaftInstance n) :
    Fin n × RaftState × LogHeader n × Option (Fin n) × CandidateState n × Int :=
  (ri.self, ri.state, ri.logHdr, ri.csnLeader, ri.candidate, ri.leader.leaderTerm)

/-- The same of a process. -/
def roleOf (s : Proc n) : Fin n × RaftState × LogHeader n × Option (Fin n) × CandidateState n × Int :=
  roleIn s.ri

/-- The role of a process, with the header in its backend and the pre-votes it sent. -/
def roleView (s : Proc n) :
    (Fin n × RaftState × LogHeader n × Option (Fin n) × CandidateState n × Int) × LogHeader n ×
      List (Fin n × RpcMsg n) :=
  (roleOf s, s.ri.store.db.hdr, s.out.filter (·.2.isPreVote))

/-- Started in `s`, the function leaves role and header as they are and sends no pre-vote.  What is
persisted of the header and what was sent survive where it dies. -/
abbrev KeepsRole (m : Server n α) (s : Proc n) : Prop :=
  m.Within roleView (fun _ _ => False) (fun v d => d.2 = v.2) s

omit [Externals] in
theorem roleView_eq {m : Server n α} {a : α} {s' : Proc n} (h : KeepsRole m s)
    (hres : m s = .ok a s') : roleView s' = roleView s := by
  have hok := wp_of_ok hres h
  rcases ReflTransGen.cases_head hok with heq | ⟨_, hfalse, -⟩
  · exact heq.symm
  · exact hfalse.elim

omit [Externals] in
theorem roleOf_eq {m : Server n α} {a : α} {s' : Proc n} (h : KeepsRole m s)
    (hres : m s = .ok a s') : roleOf s' = roleOf s :=
  congrArg Prod.fst (roleView_eq h hres)

omit [Externals] in
theorem keepsRole_updateNewestEntryHdr {reh : EntryHeader} {type : NehdrType} {force : Bool} :
    KeepsRole (updateNewestEntryHdr reh type force) s := by
  refine .ite (fun _ => .pure) fun _ => .bind .gets fun ri s₁ _ => ?_
  refine .bind (.whenever fun _ => .assert_bind (fun _ => rfl) fun _ => .modify .refl)
    fun _ s₂ _ => ?_
  exact .whenever fun _ => .assert_bind (fun _ => rfl) fun _ => .modify .refl

omit [Externals] in
theorem keepsRole_durable {f : Store n → Store n} (hf : ∀ st, (f st).db.hdr = st.db.hdr) :
    KeepsRole (durable f) s := by
  refine .bind .gets fun _ s₁ _ => .fatalIf_bind (fun _ => rfl) fun _ => .modify ?_
  simp only [roleView, roleOf, roleIn, hf]
  exact .refl

omit [Externals] in
theorem keepsRole_hasUnsyncedEntries : KeepsRole (hasUnsyncedEntries : Server n Bool) s :=
  .bind .gets fun _ _ _ => .fatalIf_bind (fun _ => rfl) fun _ => .pure

theorem keepsRole_writeNextEntry {term : Int} {data : List UInt8} {sizes : List Nat}
    {marker : Bool} : KeepsRole (writeNextEntry term data sizes marker) s := by
  refine .bind .gets fun _ s₁ _ => .assert_bind (fun _ => rfl) fun _ =>
    .fatalIf_bind (fun _ => rfl) fun _ => ?_
  refine .bind .gets fun _ s₂ _ => .fatalIf_bind (fun _ => rfl) fun _ => ?_
  have hinit : ∀ (idx : Int) (s' : Proc n), KeepsRole (entryInit idx term data sizes marker) s' :=
    fun idx s' => .bind .gets fun _ _ _ => .assert_bind (fun _ => rfl) fun _ =>
      .assert_bind (fun _ => rfl) fun _ => .assert_bind (fun _ => rfl) fun _ => .pure
  have hvalid : ∀ (reh : EntryHeader) (s' : Proc n), KeepsRole (entryNextEntryIsValid reh) s' :=
    fun reh s' => .ite (fun _ => .pure) fun _ => .bind .gets fun _ _ _ =>
      .fatalIf_bind (fun _ => rfl) fun _ => .pure
  refine .bind (hinit _ _) fun re s₃ _ => .bind (hvalid _ _) fun _ s₄ _ =>
    .assert_bind (fun _ => rfl) fun _ => ?_
  refine .bind (.bind .gets fun _ _ _ => keepsRole_durable fun _ => rfl) fun _ s₅ _ => ?_
  refine .bind keepsRole_updateNewestEntryHdr fun _ s₆ _ => .whenever fun _ => ?_
  exact .bind keepsRole_hasUnsyncedEntries fun _ _ _ => .fatalIf fun _ => rfl

theorem keepsRole_writeNewEntryFromLeader {m : AppendEntriesRequestMsg} :
    KeepsRole (writeNewEntryFromLeader m) s := by
  refine .bind .gets fun _ _ _ => .assert_bind (fun _ => rfl) fun _ => .ite (fun _ => .pure)
    fun _ => ?_
  exact .assert_bind (fun _ => rfl) fun _ => .assert_bind (fun _ => rfl) fun _ =>
    .assert_bind (fun _ => rfl) fun _ => .assert_bind (fun _ => rfl) fun _ =>
    .assert_bind (fun _ => rfl) fun _ => .assert_bind (fun _ => rfl) fun _ =>
      keepsRole_writeNextEntry

omit [Externals] in
theorem keepsRole_advanceCommitIdx {idx : Int} :
    KeepsRole (advanceCommitIdx idx : Server n Unit) s :=
  .bind .gets fun _ _ _ => .whenever fun _ => .bind (.modify .refl) fun _ _ _ => .modify .refl

omit [Externals] in
theorem keepsRole_of_wp {m : Server n α}
    (h : m.wp (fun _ s' => ReflTransGen (fun _ _ => False) (roleView s) (roleView s'))
      (fun d => ∃ v, ReflTransGen (fun _ _ => False) (roleView s) v ∧ (roleView d).2 = v.2) s) :
    KeepsRole m s :=
  h

omit [Externals] in
theorem keepsRole_backendSync : KeepsRole (backendSync : Server n Unit) s := by
  refine .bind .gets fun _ _ _ => .ite (fun _ => ?_) fun _ => ?_
  · exact .bind keepsRole_hasUnsyncedEntries fun _ _ _ => .fatalIf fun _ => rfl
  · refine .assert_bind (fun _ => rfl) fun _ => .bind (keepsRole_durable fun _ => rfl) fun _ _ _ => ?_
    refine .bind keepsRole_updateNewestEntryHdr fun _ _ _ => ?_
    exact .assert_bind (fun _ => rfl) fun _ => .modify .refl

omit [Externals] in
theorem keepsRole_appendEntryLogPruneIfNeeded {m : AppendEntriesRequestMsg} :
    KeepsRole (appendEntryLogPruneIfNeeded m : Server n Unit) s := by
  refine .bind .gets fun _ s₁ _ => .assert_bind (fun _ => rfl) fun _ =>
    .assert_bind (fun _ => rfl) fun _ => .bind keepsRole_backendSync fun _ s₂ _ =>
    .fatalIf_bind (fun _ => rfl) fun _ => .bind (.whenever fun _ => ?_) fun _ s₃ _ => ?_
  · refine .bind (keepsRole_of_wp (wp_entryHeaderReadByStore ⟨_, .refl, rfl⟩ (fun _ => .refl)
      fun _ _ _ _ => .refl)) fun reh s₃ _ => ?_
    cases reh with
    | error rc => exact .abort fun _ => rfl
    | ok reh => exact keepsRole_updateNewestEntryHdr
  · exact .bind .gets fun _ _ _ => .assert_bind (fun _ => rfl) fun _ =>
      keepsRole_durable fun _ => rfl

omit [Externals] in
theorem keepsRole_appendEntryLogPrepareAndCheck {m : AppendEntriesRequestMsg} :
    KeepsRole (appendEntryLogPrepareAndCheck m : Server n (Except Errno Unit)) s := by
  have hcmp : ∀ (reh : EntryHeader) (s' : Proc n), KeepsRole (compareWithLeader reh m) s' :=
    fun reh s' => .assert_bind (fun _ => rfl) fun _ => .pure
  refine .bind .gets fun ri s₁ _ => ?_
  cases appendEntryRequestBoundsCheck ri m with
  | error rc => exact .pure
  | ok u =>
    refine .ite (fun _ => .bind (.bind ?_ fun stored s₂ _ => .ite (fun _ => ?_) fun _ => ?_)
      fun ahead s₃ _ => ?_) fun _ => hcmp _ _
    · exact keepsRole_of_wp (wp_appendEntryCheckAlreadyStored ⟨_, .refl, rfl⟩ (fun _ => .refl)
        (fun _ _ => .refl) fun _ _ => .refl)
    · exact .bind .gets fun _ _ _ => .pure
    · refine .bind keepsRole_appendEntryLogPruneIfNeeded fun _ _ _ => ?_
      refine .bind keepsRole_hasUnsyncedEntries fun _ _ _ => .assert_bind (fun _ => rfl) fun _ => ?_
      exact .bind .gets fun _ _ _ => .pure
    · obtain ⟨rc, reh⟩ := ahead
      cases rc with
      | error rc => exact .pure
      | ok u => exact hcmp _ _

theorem keepsRole_processAppendEntriesOutcome {m : AppendEntriesRequestMsg}
    {rc : Except Errno Unit} : KeepsRole (processAppendEntriesOutcome m rc) s := by
  match rc with
  | .ok () =>
    refine .bind (.whenever fun _ => keepsRole_writeNewEntryFromLeader) fun _ _ _ => ?_
    exact .bind keepsRole_advanceCommitIdx fun _ _ _ => .pure
  | .error .EALREADY =>
    exact .bind .gets fun _ _ _ => .bind keepsRole_advanceCommitIdx fun _ _ _ => .pure
  | .error .EBADR | .error .EINVAL | .error .ERANGE | .error .EBADSLT | .error .EEXIST
  | .error .ESTALE | .error .EAGAIN | .error .EPERM | .error .ENOSPC | .error .EBADMSG
  | .error .EINPROGRESS | .error .ENOENT | .error .ENOSYS | .error .EBUSY | .error .E2BIG =>
    exact .pure

/-- The term of a request that is not stale was taken, unless the request is the server's own. -/
def TermAccepted (m : AppendEntriesRequestMsg) (sender : Fin n) (s : Proc n) : Prop :=
  sender ≠ s.ri.self → s.ri.logHdr.term ≤ m.leaderTerm ∧
    (s.ri.state = .leader → s.ri.logHdr.term = m.leaderTerm)

omit [Externals] in
theorem TermAccepted.congr {m : AppendEntriesRequestMsg} {sender : Fin n} {s' : Proc n}
    (h : TermAccepted m sender s) (hrole : roleOf s' = roleOf s) : TermAccepted m sender s' := by
  simp only [roleOf, roleIn, Prod.mk.injEq] at hrole
  obtain ⟨hself, hstate, hhdr, -⟩ := hrole
  unfold TermAccepted
  rw [hself, hstate, hhdr]
  exact h

omit [Externals] in
theorem wp_processAppendEntriesTermCheckOps_accepted {sender : Fin n}
    {m : AppendEntriesRequestMsg} :
    (processAppendEntriesTermCheckOps sender m).wp
      (fun rc s' => rc = .ok () → TermAccepted m sender s') (fun _ => True) s := by
  -- where the server follows the sender
  have hfollow : ∀ reason, (becomesFollower m.leaderTerm (some sender) reason).wp (fun _ s' =>
      (setLeaderCsn sender >>= fun _ => pure (.ok ()) : Server n (Except Errno Unit)).wp
        (fun rc s' => rc = .ok () → TermAccepted m sender s') (fun _ => True) s')
      (fun _ => True) s := by
    intro reason
    refine wp_mono wp_becomesFollower_follows (fun _ s' h => ?_) fun _ => id
    intro _ hne
    obtain ⟨hstate, hterm⟩ := h hne
    exact ⟨le_of_eq hterm, fun _ => hterm⟩
  simp only [processAppendEntriesTermCheckOps, wp_bind, wp_getRi, wp_ite, wp_pure] at hfollow ⊢
  refine ⟨fun _ h => (by cases h), fun hle => ⟨fun _ => hfollow _, fun _ => ⟨fun _ => hfollow _,
    fun hlead => ⟨fun hf => ?_, fun _ => ?_⟩⟩⟩⟩
  · simp only [tryUpdateLogHeaderNullVotedForPeer, updateLogHeader, wp_bind, wp_getRi, wp_whenever,
      wp_assert]
    refine ⟨fun _ => ⟨fun _ => ?_, fun _ => trivial⟩, fun h => absurd hf.1 h⟩
    refine wp_mono wp_logHeaderWrite_headerWritten (fun _ s' h => ?_) fun _ _ => trivial
    intro _ hne
    exact ⟨le_of_eq h.term, fun _ => h.term⟩
  · intro _ hne
    refine ⟨not_lt.mp hle, fun hl => ?_⟩
    have hnot : ¬ s.ri.logHdr.term < m.leaderTerm := fun hlt =>
      hlead ⟨hlt, by simpa [RaftInstance.isLeader] using hl⟩
    exact le_antisymm (not_lt.mp hle) (not_lt.mp hnot)

theorem writes_writeNewEntryFromLeader {m : AppendEntriesRequestMsg} :
    Writes cause (writeNewEntryFromLeader m) s :=
  writes_getRi_bind (writes_assert_bind fun _ => .ite (fun _ => .pure) fun _ =>
    writes_assert_bind fun _ => writes_assert_bind fun _ => writes_assert_bind fun _ =>
      writes_assert_bind fun _ => writes_assert_bind fun _ => writes_assert_bind fun _ =>
        writes_writeNextEntry)

theorem writes_advanceCommitIdx {idx : Int}
    (h : s.ri.commitIdx < idx → idx ≤ s.ri.newestSync.index → CommitSource cause s.ri idx) :
    Writes cause (advanceCommitIdx idx) s :=
  writes_getRi_bind (.whenever fun hlt =>
    .bind (writes_modifyRi (.commit idx hlt.1 hlt.2 (h hlt.1 hlt.2))) fun _ _ _ => writes_observe)

section Request

variable {pkt : Packet n} {m : AppendEntriesRequestMsg}

theorem writes_appendEntryReplySend (hmsg : pkt.msg = .appendEntriesRequest m)
    {stale nonMatching sli : Bool} {rc : Except Errno Unit}
    (hterm : stale = false → TermAccepted m pkt.src s) :
    Writes (some pkt) (appendEntryReplySend m pkt.src stale nonMatching sli rc) s := by
  refine writes_getRi_bind (writes_sendMsg fun d hd => ?_)
  obtain rfl := Option.some.inj hd
  exact .reply pkt m rfl hmsg _ _ _ _ fun hne hstale => (hterm hstale hne).1

/-- A request of a leader raises the commit index no further than it says. -/
theorem writes_processAppendEntriesOutcome {rc : Except Errno Unit}
    (hmsg : pkt.msg = .appendEntriesRequest m) (hterm : TermAccepted m pkt.src s) :
    Writes (some pkt) (processAppendEntriesOutcome m rc) s := by
  match rc with
  | .ok () =>
    refine .bind (.whenever fun _ => writes_writeNewEntryFromLeader) fun _ s₁ h₁ => ?_
    have hterm₁ := hterm.congr (roleOf_eq (.whenever fun _ => keepsRole_writeNewEntryFromLeader) h₁)
    refine .bind (writes_advanceCommitIdx fun _ _ => ?_) fun _ _ _ => .pure
    exact .request pkt m rfl hmsg (.inl rfl) fun hne => (hterm₁ hne).2
  | .error .EALREADY =>
    refine writes_getRi_bind (.bind (writes_advanceCommitIdx fun _ _ => ?_) fun _ _ _ => .pure)
    exact .request pkt m rfl hmsg (.inr rfl) fun hne => (hterm hne).2
  | .error .EBADR | .error .EINVAL | .error .ERANGE | .error .EBADSLT | .error .EEXIST
  | .error .ESTALE | .error .EAGAIN | .error .EPERM | .error .ENOSPC | .error .EBADMSG
  | .error .EINPROGRESS | .error .ENOENT | .error .ENOSYS | .error .EBUSY | .error .E2BIG =>
    exact .pure

theorem writes_processAppendEntriesRequest (hmsg : pkt.msg = .appendEntriesRequest m) :
    Writes (some pkt) (processAppendEntriesRequest pkt.src m) s := by
  have hvalid : ∀ (sli : Bool) (s' : Proc n), Writes (some pkt)
      (processValidAppendEntries pkt.src m sli) s' := by
    intro sli s'
    refine .bind writes_processAppendEntriesTermCheckOps fun rc s₁ h₁ => ?_
    have hterm := wp_of_ok h₁ wp_processAppendEntriesTermCheckOps_accepted
    cases rc with
    | error e => exact writes_appendEntryReplySend hmsg fun h => by cases h
    | ok u =>
      refine .ite (fun _ => writes_appendEntryReplySend hmsg fun _ => hterm rfl) fun _ => ?_
      refine .bind writes_appendEntryLogPrepareAndCheck fun rc s₂ h₂ => ?_
      have hterm₂ := (hterm rfl).congr (roleOf_eq keepsRole_appendEntryLogPrepareAndCheck h₂)
      refine .bind (writes_processAppendEntriesOutcome hmsg hterm₂) fun _ s₃ h₃ => ?_
      exact writes_appendEntryReplySend hmsg fun _ =>
        hterm₂.congr (roleOf_eq keepsRole_processAppendEntriesOutcome h₃)
  refine writes_getRi_bind ?_
  cases processAppendEntriesRequestValidityCheck s.ri m with
  | error rc => exact .pure
  | ok u =>
    refine .bind (writes_getRi_bind (.ite (fun _ => .pure) fun _ => .ite (fun _ => .pure) fun _ =>
      .bind (writes_modifyRi (.recovery _)) fun _ _ _ => .pure)) fun rc s₁ _ => ?_
    match rc with
    | .ok () => exact hvalid false s₁
    | .error .EAGAIN => exact hvalid true s₁
    | .error .EBADR | .error .EINVAL | .error .ERANGE | .error .EBADSLT | .error .EEXIST
    | .error .ESTALE | .error .EALREADY | .error .EPERM | .error .ENOSPC | .error .EBADMSG
    | .error .EINPROGRESS | .error .ENOENT | .error .ENOSYS | .error .EBUSY | .error .E2BIG =>
      exact .pure

end Request

/-! ## The leader -/

theorem writes_leaderCanAdvanceCommitIdx {syncThread : Bool} :
    Writes cause (leaderCanAdvanceCommitIdx syncThread) s := by
  refine writes_getRi_bind (.ite (fun _ => .pure) fun _ => .bind ?_ fun _ s₁ _ =>
    writes_fatalIf_bind fun _ => .pure)
  refine writes_getRi_bind (writes_assert_bind fun _ =>
    .bind (writes_modifyRi (.slot _ _ (.self rfl))) fun _ s₁ _ => writes_getRi_bind .pure)

omit [Externals] in
/-- The leader's own slot is refreshed once. -/
theorem committedIdx_withSelf (ri : RaftInstance n) : committedIdx (withSelf ri) = committedIdx ri := by
  have hself : withSelf (withSelf ri) = withSelf ri := by
    simp [withSelf, RaftInstance.setFollowerInfo, RaftInstance.followerInfo, selfFollowerInfo]
  unfold committedIdx
  rw [hself]

omit [Externals] in
/-- An index to advance to is one of the leader's own term, or past it, and a majority of the slots
reaches it. -/
theorem wp_leaderCanAdvanceCommitIdx_init {syncThread : Bool} :
    (leaderCanAdvanceCommitIdx syncThread).wp (fun idx s' => idx ≠ -1 →
      s'.ri.state = .leader ∧ s'.ri.leader.initialTermIdx ≤ idx ∧ idx = committedIdx s'.ri)
      (fun _ => True) s := by
  refine wp_leaderCanAdvanceCommitIdx (fun _ _ => trivial) (fun _ h => absurd rfl h)
    fun hlead c hc hne => ?_
  split at hc
  · rename_i hge
    subst hc
    exact ⟨hlead, hge.1, (committedIdx_withSelf _).symm⟩
  · exact absurd hc hne

theorem writes_leaderTryAdvanceCommitIdx : Writes cause leaderTryAdvanceCommitIdx s := by
  refine writes_getRi_bind (writes_assert_bind fun _ => ?_)
  refine .bind writes_leaderCanAdvanceCommitIdx fun idx s₁ hres => .whenever fun hne => ?_
  obtain ⟨hlead, hinit, hmaj⟩ := wp_of_ok hres wp_leaderCanAdvanceCommitIdx_init hne
  exact writes_advanceCommitIdx fun _ _ => .leader hlead hinit hmaj

theorem writes_tryUpdateFollowerSyncIdx {peer : Fin n} {term sli : Int} :
    Writes cause (tryUpdateFollowerSyncIdx peer term sli) s :=
  writes_getRi_bind (.whenever fun _ => .bind (writes_modifyRi (.slot _ _ (.accept sli)))
    fun _ _ _ => .whenever fun _ => writes_leaderTryAdvanceCommitIdx)

theorem writes_processAppendEntriesReply {pkt : Packet n} {m : AppendEntriesReplyMsg}
    (hmsg : pkt.msg = .appendEntriesReply m) :
    Writes (some pkt) (processAppendEntriesReply pkt.src m) s := by
  refine writes_getRi_bind (.ite (fun _ => .pure) fun _ => .ite (fun _ => ?_) fun hstale => ?_)
  · exact .whenever fun _ => writes_becomesFollower
  refine writes_getRi_bind (writes_assert_bind fun _ => writes_assert_bind fun _ => ?_)
  refine .ite (fun _ => .pure) fun hprev => ?_
  have hreply : RepliesTo (some pkt) s.ri pkt.src m :=
    ⟨⟨pkt, rfl, rfl, hmsg⟩, eq_false_of_ne_true hstale, not_not.mp hprev⟩
  refine .ite (fun hsli => writes_modifyRi (.slot _ _ (.updateSli m hreply hsli))) fun hsli =>
    .ite (fun _ => writes_modifyRi (.slot _ _ (.rewind m hreply))) fun hmatch => ?_
  refine .bind (writes_modifyRi (.slot _ _ (.advance m hreply ?_ ?_))) fun _ s₁ _ =>
    writes_tryUpdateFollowerSyncIdx
  · exact eq_false_of_ne_true hsli
  · exact eq_false_of_ne_true hmatch

theorem writes_processSyncIdxUpdate {sender : Fin n} {msg : SyncIdxUpdateMsg} :
    Writes cause (processSyncIdxUpdate sender msg) s :=
  writes_getRi_bind (.whenever fun _ => writes_tryUpdateFollowerSyncIdx)

/-! ## Applying -/

omit [Externals] in
theorem applies_dies_at {s d : Proc n} (h : LeftBehind s.visible d.visible) :
    ∃ v, ReflTransGen (Applying (n := n)) s.visible v ∧ LeftBehind v d.visible :=
  ⟨_, .refl, h⟩

omit [Externals] in
/-- The record of a committed entry. -/
theorem applying_moveTo {ri : RaftInstance n} {out : List (Fin n × RpcMsg n)} {nai : LastApplied}
    (hidx : ri.lastApplied.idx ≤ nai.idx) (hle : nai.idx ≤ ri.commitIdx)
    (hsub : nai.subIdx ≤ nai.subIdxMax) (batch : Option AppBatch) :
    Applying (ri, out) (ri.recordApplied (ri.lastApplied.moveTo nai) batch, out) := by
  refine .record _ _ ?_ ?_ ?_ (LastApplied.moveTo_syncedIdx _ _)
  · rw [LastApplied.moveTo_idx]
    exact hidx
  · rw [LastApplied.moveTo_idx]
    exact hle
  · rw [LastApplied.moveTo_subIdx, LastApplied.moveTo_subIdxMax]
    exact hsub

theorem applies_applySubEntries {cb : SmRequestCb} {reh : EntryHeader} {data : List UInt8}
    (sizes : List Nat) (i offset : Nat) (nai : LastApplied) (hle : nai.idx ≤ s.ri.commitIdx) :
    Applies (applySubEntries cb reh data sizes i offset nai) s := by
  induction sizes generalizing i offset nai s with
  | nil => exact .pure
  | cons size sizes ih =>
    refine .ite (fun _ => ih _ _ _ hle) fun _ => ?_
    unfold Within
    rw [wp_bind]
    refine wp_applySubEntry rfl (fun _ => applies_dies_at ⟨⟨rfl, rfl, rfl⟩, rfl⟩)
      (fun _ => applies_dies_at ⟨⟨rfl, rfl, rfl⟩, rfl⟩) fun fuse _ hidx hsub => ?_
    refine Within.head (applying_moveTo (by exact hidx) (by exact hle) (by exact hsub) _)
      (ih _ _ _ ?_)
    rw [LastApplied.nextSub_idx]
    exact hle

omit [Externals] in
theorem applies_notifyIfNeedsApply : Applies notifyIfNeedsApply s :=
  wp_notifyIfNeedsApply (applies_dies_at (.refl _)) .refl

theorem applies_stateMachineApply {cb : SmRequestCb} : Applies (stateMachineApply cb) s := by
  have hdead := applies_dies_at (LeftBehind.refl s.visible)
  refine wp_stateMachineApply_rule hdead (fun _ => .refl) (fun re hnext _ => ?_) fun re hnext _ => ?_
  · refine wp_setLastApplied_record (fun _ => applies_dies_at ⟨⟨rfl, rfl, rfl⟩, rfl⟩)
      (fun _ => applies_dies_at ⟨⟨rfl, rfl, rfl⟩, rfl⟩) fun fuse _ hidx hsub => ?_
    exact Within.head (applying_moveTo hidx (nextApplyIdx_le hnext.needed) hsub none)
      applies_notifyIfNeedsApply
  · refine wp_mono (applies_applySubEntries (s := { s with trace := s.trace ++ [_] }) _ _ _ _
      (nextApplyIdx_le hnext.needed)) (fun _ s' hs' => ?_) fun _ => id
    exact ⟨fun _ => wp_notifyIfNeedsApply ⟨_, hs', .refl _⟩ hs', ⟨_, hs', .refl _⟩⟩

/-! ## Compacting -/

omit [Externals] in
theorem compacts_dies_at {s d : Proc n} (h : LeftBehind s.visible d.visible) :
    ∃ v, ReflTransGen (Compacting (n := n)) s.visible v ∧ LeftBehind v d.visible :=
  ⟨_, .refl, h⟩

omit [Externals] in
/-- A checkpoint is taken at the synced index, unless there is one already. -/
theorem wp_takeChkpt {Q : Unit → Proc n → Prop} {D : Proc n → Prop}
    (hge : s.ri.checkpointLastIdx ≤ s.ri.lastApplied.syncedIdx)
    (hkilled : s.fuse ≠ none → D s)
    (hnone : (0 ≤ s.ri.lastApplied.syncedIdx →
      s.ri.lastApplied.syncedIdx = s.ri.checkpointLastIdx) → Q () s)
    (htaken : ∀ fuse, (s.fuse = none → fuse = none) → 0 ≤ s.ri.lastApplied.syncedIdx →
      Q () { s with ri := s.ri.withCheckpoint s.ri.lastApplied.syncedIdx, fuse := fuse }) :
    (takeChkpt : Server n Unit).wp Q D s := by
  unfold takeChkpt
  rw [wp_bind, wp_getRi, wp_whenever]
  refine ⟨fun h0 => ?_, fun h0 => hnone fun hpos => by_contra fun hne => h0 ⟨hpos, hne⟩⟩
  rw [wp_bind]
  refine wp_durable hkilled fun fuse hfuse => ?_
  simp only [wp_bind, wp_fatalIf, wp_modifyRi]
  exact ⟨fun h => absurd h (not_lt.mpr hge), fun _ => htaken fuse hfuse h0.1⟩

omit [Externals] in
/-- The entries below `syncedIdx - keep` are removed, when there are more than `keep` of them. -/
theorem wp_reapLog {keep : Int} {Q : Unit → Proc n → Prop} {D : Proc n → Prop}
    (hassert : 0 ≤ s.ri.lastApplied.syncedIdx →
      s.ri.lastApplied.syncedIdx < max 0 s.ri.lowestIdx → D s)
    (hkilled : s.fuse ≠ none → D { s with ri :=
      { s.ri with lowestIdx := s.ri.lastApplied.syncedIdx - keep } })
    (hnone : (500 ≤ keep → 0 ≤ s.ri.lastApplied.syncedIdx →
      ¬ max 0 s.ri.lowestIdx + keep < s.ri.lastApplied.syncedIdx - keep) → Q () s)
    (hreaped : ∀ fuse, (s.fuse = none → fuse = none) → 500 ≤ keep →
      0 ≤ s.ri.lastApplied.syncedIdx →
      max 0 s.ri.lowestIdx + keep < s.ri.lastApplied.syncedIdx - keep →
      Q () { s with ri := s.ri.reapTo (s.ri.lastApplied.syncedIdx - keep), fuse := fuse }) :
    (reapLog keep : Server n Unit).wp Q D s := by
  unfold reapLog
  simp only [wp_bind, wp_getRi, wp_whenever, wp_assert]
  refine ⟨fun h0 => ⟨fun _ => ⟨fun hlow => ⟨fun _ => ?_, fun h => ?_⟩,
    fun hlow => hnone fun _ _ => hlow⟩, ?_⟩, fun h0 => hnone fun hkeep hpos => absurd ⟨hkeep, hpos⟩ h0⟩
  · rw [wp_modifyRi]
    exact wp_durable hkilled fun fuse hfuse => hreaped fuse hfuse h0.1 h0.2 hlow
  · exact absurd (by omega) h
  · exact fun h => hassert h0.2 (not_le.mp h)

omit [Externals] in
theorem compacts_chkptThread {takesChkpt reaps : Bool} {keep : Int} :
    Compacts (chkptThread takesChkpt reaps keep) s := by
  unfold chkptThread
  refine .bind .gets fun ri s₁ hres => ?_
  obtain ⟨rfl, rfl⟩ : s.ri = ri ∧ s = s₁ := by
    cases hres
    exact ⟨rfl, rfl⟩
  refine .whenever fun _ => .fatalIf_bind .refl fun hge => ?_
  refine .bind (.whenever fun _ => ?_) fun _ s₁ _ => .whenever fun _ => ?_
  · exact wp_takeChkpt (by omega) (fun _ => compacts_dies_at (.refl _)) (fun _ => .refl)
      fun _ _ h0 => .single (.checkpoint h0 (by omega))
  · exact wp_reapLog (fun _ _ => compacts_dies_at (.refl _))
      (fun _ => compacts_dies_at ⟨⟨rfl, rfl, rfl⟩, rfl⟩) (fun _ => .refl)
      fun _ _ hkeep _ hlow => .single (.reap keep hkeep (by omega))

/-! ## The other threads and the event loop -/

theorem writes_syncThread : Writes cause syncThread s :=
  writes_getRi_bind (.whenever fun _ => .bind writes_hasUnsyncedEntries fun _ _ _ =>
    .whenever fun _ => .bind writes_backendSyncPending fun _ _ _ =>
      .bind writes_leaderCanAdvanceCommitIdx fun _ _ _ => .pure)

theorem writes_commitIdxAdvEvpCb : Writes cause commitIdxAdvEvpCb s :=
  writes_getRi_bind (.whenever fun _ => writes_leaderTryAdvanceCommitIdx)

theorem writes_writeCoalescedEntries {requests : List (List UInt8)} :
    Writes cause (writeCoalescedEntries requests) s :=
  writes_getRi_bind (.whenever fun _ => writes_leaderWriteNewEntry)

theorem writes_processReceivedServerMsg (pkt : Packet n) :
    Writes (some pkt) (processReceivedServerMsg pkt.src pkt.msg) s := by
  cases hmsg : pkt.msg with
  | preVoteRequest m => exact writes_processVoteRequestCommon
  | voteRequest m => exact writes_processVoteRequestCommon
  | preVoteReply m => exact writes_processVoteReplyCommon fun h => (by cases h)
  | voteReply m => exact writes_processVoteReplyCommon fun _ => ⟨pkt, m, rfl, hmsg⟩
  | appendEntriesRequest m => exact writes_processAppendEntriesRequest hmsg
  | appendEntriesReply m => exact writes_processAppendEntriesReply hmsg
  | syncIdxUpdate m => exact writes_processSyncIdxUpdate

/-- A leader that is woken runs the sender. -/
theorem remoteSendEvpCb_cases {clock : SendClock n} :
    (s.ri.state = .leader ∧ remoteSendEvpCb clock s = appendEntrySender clock false s) ∨
      (s.ri.state ≠ .leader ∧ Writes cause (remoteSendEvpCb clock) s) := by
  by_cases hlead : s.ri.state = .leader
  · left
    refine ⟨hlead, ?_⟩
    simp [remoteSendEvpCb, RaftInstance.isLeader, hlead, bind, andThen, getRi, gets]
  · right
    refine ⟨hlead, writes_getRi_bind (.ite (fun h => ?_) fun _ => .whenever fun _ => ?_)⟩
    · exact absurd (by simpa [RaftInstance.isLeader] using h) hlead
    · exact writes_getRi_bind (.whenever fun _ => writes_sendMsg fun d _ => .syncIdxUpdate d)

/-- A leader's timer runs the sender or ends its leadership. -/
theorem timerfdCb_cases (cause : Option (Packet n)) (quorumOk heartbeatDue : Bool)
    (clock : SendClock n) (s : Proc n) :
    (s.ri.state = .leader ∧ quorumOk = true ∧ heartbeatDue = true ∧
        timerfdCb quorumOk heartbeatDue clock s = appendEntrySender clock true s) ∨
      Writes cause (timerfdCb quorumOk heartbeatDue clock) s := by
  by_cases hsend : s.ri.state = .leader ∧ quorumOk = true ∧ heartbeatDue = true
  · left
    obtain ⟨hlead, rfl, rfl⟩ := hsend
    refine ⟨hlead, rfl, rfl, ?_⟩
    simp [timerfdCb, timerfdLeaderCb, hlead, bind, andThen, getRi, gets, whenever]
  · right
    refine writes_getRi_bind ?_
    cases hstate : s.ri.state with
    | none => exact .pure
    | client => exact .pure
    | follower => exact writes_becomeCandidate
    | candidatePrevote => exact writes_becomeCandidate
    | candidate => exact writes_becomeCandidate
    | leader =>
      refine .ite (fun _ => writes_becomeCandidate) fun hok => .whenever fun hdue => ?_
      exact absurd ⟨hstate, eq_true_of_ne_false hok, hdue⟩ hsend

end RaftServer

open Base Base.Handler

variable {n : Nat}

namespace Cluster

/-- The event has a leader run its sender. -/
def RunsSender [Externals] (c : Cluster n) (e : Event n) : Prop :=
  (c.servers e.server).state = .leader ∧ e.sends = true ∧ ∃ clock heartbeat,
    c.handler e (c.proc e) = RaftServer.appendEntrySender clock heartbeat (c.proc e)

/-- The handler of an event, whatever it is. -/
theorem handler_cases [Externals] (c : Cluster n) (e : Event n) :
    c.RunsSender e ∨
      (∃ cb, e.action = .smApply cb ∧ c.handler e = RaftServer.stateMachineApply cb) ∨
      (∃ takesChkpt reaps keep, e.action = .chkptThread takesChkpt reaps keep ∧
        c.handler e = RaftServer.chkptThread takesChkpt reaps keep) ∨
      Writes (c.delivered e) (c.handler e) (c.proc e) := by
  unfold RunsSender handler Event.sends
  cases hact : e.action with
  | deliver k =>
    refine .inr (.inr (.inr ?_))
    simp only
    cases hdel : c.delivered e with
    | none => exact .pure
    | some pkt => exact RaftServer.writes_processReceivedServerMsg pkt
  | timer quorumOk heartbeatDue clock =>
    rcases RaftServer.timerfdCb_cases (c.delivered e) quorumOk heartbeatDue clock (c.proc e)
      with ⟨hlead, hok, hdue, h⟩ | h
    · exact .inl ⟨hlead, by simp [hok, hdue], clock, true, h⟩
    · exact .inr (.inr (.inr h))
  | remoteSend clock =>
    rcases RaftServer.remoteSendEvpCb_cases (s := c.proc e) with ⟨hlead, h⟩ | ⟨_, h⟩
    · exact .inl ⟨hlead, rfl, clock, false, h⟩
    · exact .inr (.inr (.inr h))
  | commitIdxAdv => exact .inr (.inr (.inr RaftServer.writes_commitIdxAdvEvpCb))
  | smApply cb => exact .inr (.inl ⟨cb, rfl, rfl⟩)
  | syncThread => exact .inr (.inr (.inr RaftServer.writes_syncThread))
  | write requests =>
    exact .inr (.inr (.inr (.whenever fun _ => RaftServer.writes_writeCoalescedEntries)))
  | chkptThread takesChkpt reaps keep => exact .inr (.inr (.inl ⟨takesChkpt, reaps, keep, rfl, rfl⟩))
  | crash => exact .inr (.inr (.inr (.abort .refl)))

variable [Externals] {c : Cluster n} {e : Event n}

/-- The other servers do not notice. -/
theorem step_servers_of_ne {p : Fin n} (hp : p ≠ e.server) :
    (c.step e).servers p = c.servers p := by
  unfold step
  split
  · cases c.handler e (c.proc e) <;> simp [commit, Function.update_of_ne hp]
  · rfl

/-- A message of an event, with the instance that sent it. -/
inductive Sent (c : Cluster n) (e : Event n) (P : RaftInstance n → Prop) : Fin n × RpcMsg n → Prop
  | message (ri : RaftInstance n) (h : P ri) {m : Fin n × RpcMsg n}
      (hm : Message (c.delivered e) ri m) : Sent c e P m
  | request (ri : RaftInstance n) (h : P ri) (hsame : SameButSlots (c.servers e.server) ri)
      (hlead : ri.state = .leader) (q : Fin n) (m : AppendEntriesRequestMsg) (hne : q ≠ ri.self)
      (hm : BuiltFrom ri (ri.followerInfo q) m) : Sent c e P (q, .appendEntriesRequest m)

/-- An event keeps `P`: the writes of its handler do, those of a sender to the slots of its peers,
an apply, and an iteration of the checkpoint thread. -/
structure Keeps (c : Cluster n) (e : Event n) (P : RaftInstance n → Prop) : Prop where
  write : ∀ ri ri', P ri → Update (c.delivered e) ri ri' → P ri'
  refresh : c.RunsSender e → ∀ ri q rfi, P ri → q ≠ ri.self →
    SlotRefresh ri (ri.followerInfo q) rfi → P (ri.setFollowerInfo q rfi)
  apply : ∀ cb, e.action = .smApply cb → P (c.servers e.server) →
    (RaftServer.stateMachineApply cb).wp (fun _ s => P s.ri)
      (fun d => ∃ ri, P ri ∧ Survives ri d.ri) (c.proc e)
  compact : ∀ takesChkpt reaps keep, e.action = .chkptThread takesChkpt reaps keep →
    P (c.servers e.server) →
    (RaftServer.chkptThread takesChkpt reaps keep).wp (fun _ s => P s.ri)
      (fun d => ∃ ri, P ri ∧ Survives ri d.ri) (c.proc e)

/-- What the single steps of an apply keep, it keeps. -/
theorem keeps_apply {P : RaftInstance n → Prop}
    (hrecord : ∀ (ri : RaftInstance n) (la : LastApplied) (batch : Option AppBatch), P ri →
      ri.lastApplied.idx ≤ la.idx → la.idx ≤ ri.commitIdx → la.subIdx ≤ la.subIdxMax →
      la.syncedIdx = ri.lastApplied.syncedIdx → P (ri.recordApplied la batch)) (cb : SmRequestCb)
    (_ : e.action = .smApply cb) (h : P (c.servers e.server)) :
    (RaftServer.stateMachineApply cb).wp (fun _ s => P s.ri)
      (fun d => ∃ ri, P ri ∧ Survives ri d.ri) (c.proc e) := by
  have happlies : Applies (RaftServer.stateMachineApply cb) (c.proc e) :=
    RaftServer.applies_stateMachineApply
  have hinv := happlies.invariant (P := fun v : Visible n => P v.1) ?_ h
  · refine wp_mono hinv (fun _ _ hs => hs) ?_
    rintro d ⟨v, hv, hd⟩
    exact ⟨v.1, hv, hd.ri⟩
  · intro v v' hv hstep
    cases hstep with
    | record la batch hidx hcommit hsub hsynced =>
      exact hrecord _ la batch hv hidx hcommit hsub hsynced

/-- An apply sends nothing. -/
theorem wp_stateMachineApply_out {cb : SmRequestCb} {s : Proc n} :
    (RaftServer.stateMachineApply cb).wp (fun _ s' => s'.out = s.out) (fun d => d.out = s.out) s := by
  have happlies : Applies (RaftServer.stateMachineApply cb) s :=
    RaftServer.applies_stateMachineApply
  have hinv := happlies.invariant (P := fun v : Visible n => v.2 = s.out) ?_ rfl
  · refine wp_mono hinv (fun _ _ hs => hs) ?_
    rintro d ⟨v, hv, hd⟩
    exact hd.out.trans hv
  · intro v v' hv hstep
    cases hstep with
    | record la batch => exact hv

omit [Externals] in
/-- What checkpoints and reaps keep, an iteration of the checkpoint thread keeps. -/
theorem keeps_compact {P : RaftInstance n → Prop}
    (hcheckpoint : ∀ ri : RaftInstance n, P ri → 0 ≤ ri.lastApplied.syncedIdx →
      ri.checkpointLastIdx ≤ ri.lastApplied.syncedIdx →
      P (ri.withCheckpoint ri.lastApplied.syncedIdx))
    (hreap : ∀ (ri : RaftInstance n) (keep : Int), P ri → 500 ≤ keep →
      ri.lowestIdx < ri.lastApplied.syncedIdx - keep → P (ri.reapTo (ri.lastApplied.syncedIdx - keep)))
    (takesChkpt reaps : Bool) (keep : Int) (_ : e.action = .chkptThread takesChkpt reaps keep)
    (h : P (c.servers e.server)) :
    (RaftServer.chkptThread takesChkpt reaps keep).wp (fun _ s => P s.ri)
      (fun d => ∃ ri, P ri ∧ Survives ri d.ri) (c.proc e) := by
  have hcompacts : Compacts (RaftServer.chkptThread takesChkpt reaps keep) (c.proc e) :=
    RaftServer.compacts_chkptThread
  have hinv := hcompacts.invariant (P := fun v : Visible n => P v.1) ?_ h
  · refine wp_mono hinv (fun _ _ hs => hs) ?_
    rintro d ⟨v, hv, hd⟩
    exact ⟨v.1, hv, hd.ri⟩
  · intro v v' hv hstep
    cases hstep with
    | checkpoint h0 hge => exact hcheckpoint _ hv h0 hge
    | reap keep hkeep hlow => exact hreap _ keep hv hkeep hlow

omit [Externals] in
/-- The checkpoint thread sends nothing. -/
theorem wp_chkptThread_out {takesChkpt reaps : Bool} {keep : Int} {s : Proc n} :
    (RaftServer.chkptThread takesChkpt reaps keep).wp (fun _ s' => s'.out = s.out)
      (fun d => d.out = s.out) s := by
  have hcompacts : Compacts (RaftServer.chkptThread takesChkpt reaps keep) s :=
    RaftServer.compacts_chkptThread
  have hinv := hcompacts.invariant (P := fun v : Visible n => v.2 = s.out) ?_ rfl
  · refine wp_mono hinv (fun _ _ hs => hs) ?_
    rintro d ⟨v, hv, hd⟩
    exact hd.out.trans hv
  · intro v v' hv hstep
    cases hstep with
    | checkpoint | reap => exact hv

/-- What an event keeps holds wherever its handler leads to, and of every instance that sent a
message on the way. -/
theorem Keeps.wp_handler {P : RaftInstance n → Prop} (hP : Keeps c e P)
    (h : P (c.servers e.server)) :
    (c.handler e).wp (fun _ s => P s.ri ∧ ∀ m ∈ s.out, Sent c e P m)
      (fun d => (∃ ri, P ri ∧ Survives ri d.ri) ∧ ∀ m ∈ d.out, Sent c e P m) (c.proc e) := by
  have hdead : ∀ {d : Proc n} {v : Visible n}, P v.1 → (∀ m ∈ v.2, Sent c e P m) →
      LeftBehind v d.visible → (∃ ri, P ri ∧ Survives ri d.ri) ∧ ∀ m ∈ d.out, Sent c e P m := by
    intro d v hv hout hd
    have hsent : d.out = v.2 := hd.out
    exact ⟨⟨v.1, hv, hd.ri⟩, by rw [hsent]; exact hout⟩
  rcases c.handler_cases e with hruns | ⟨cb, hact, hrun⟩ | ⟨takes, reaps, keep, hact, hrun⟩ | hwrites
  · obtain ⟨_, _, clock, heartbeat, hrun⟩ := id hruns
    have hsend : Sends (RaftServer.appendEntrySender clock heartbeat) (c.proc e) :=
      RaftServer.sends_appendEntrySender
    have hinv := hsend.invariant (P := fun v : Visible n => P v.1 ∧
      SameButSlots (c.servers e.server) v.1 ∧ ∀ m ∈ v.2, Sent c e P m) ?_
      ⟨h, .refl _, fun m hm => by cases hm⟩
    · unfold wp at hinv ⊢
      rw [hrun]
      split at hinv
      · exact ⟨hinv.1, hinv.2.2⟩
      · obtain ⟨v, hv, hd⟩ := hinv
        exact hdead hv.1 hv.2.2 hd
    · rintro v v' ⟨hv, hsame, hout⟩ hstep
      have hsame' := hsame.trans hstep.sameButSlots
      cases hstep with
      | slot q rfi hne hslot => exact ⟨hP.refresh hruns _ q rfi hv hne hslot, hsame', hout⟩
      | request q m hlead hne hbuilt =>
        refine ⟨hv, hsame', fun m' hm' => ?_⟩
        rcases List.mem_append.mp hm' with hm' | hm'
        · exact hout m' hm'
        · obtain rfl := List.mem_singleton.mp hm'
          exact .request _ hv hsame hlead q m hne hbuilt
  · rw [hrun]
    refine wp_intro (fun _ s hres => ?_) fun d hres => ?_
    · have hs := wp_of_ok hres (hP.apply cb hact h)
      have hout := wp_of_ok hres wp_stateMachineApply_out
      exact ⟨hs, by simp [hout, proc]⟩
    · have hd := wp_of_abort hres (hP.apply cb hact h)
      have hout := wp_of_abort hres wp_stateMachineApply_out
      exact ⟨hd, by simp [hout, proc]⟩
  · rw [hrun]
    refine wp_intro (fun _ s hres => ?_) fun d hres => ?_
    · have hs := wp_of_ok hres (hP.compact takes reaps keep hact h)
      have hout := wp_of_ok hres wp_chkptThread_out
      exact ⟨hs, by simp [hout, proc]⟩
    · have hd := wp_of_abort hres (hP.compact takes reaps keep hact h)
      have hout := wp_of_abort hres wp_chkptThread_out
      exact ⟨hd, by simp [hout, proc]⟩
  · have hinv := hwrites.invariant (P := fun v : Visible n => P v.1 ∧ ∀ m ∈ v.2, Sent c e P m) ?_
      ⟨h, fun m hm => by cases hm⟩
    · refine wp_mono hinv (fun _ _ hs => hs) ?_
      rintro d ⟨v, hv, hd⟩
      exact hdead hv.1 hv.2 hd
    · rintro v v' ⟨hv, hout⟩ hstep
      cases hstep with
      | write hup => exact ⟨hP.write _ _ hv hup, hout⟩
      | send ms hms =>
        refine ⟨hv, fun m' hm' => ?_⟩
        rcases List.mem_append.mp hm' with hm' | hm'
        · exact hout m' hm'
        · exact .message _ hv (hms m' hm')

/-- The server of an event ends up where its handler or a restart leads. -/
theorem step_server {S : RaftInstance n → Prop} (hen : c.enabled e = true)
    (hwp : (c.handler e).wp (fun _ s => S s.ri) (fun d => S (restart d.ri e.keep)) (c.proc e)) :
    S ((c.step e).servers e.server) := by
  unfold step
  rw [if_pos hen]
  cases hres : c.handler e (c.proc e) with
  | ok u s =>
    have hs := wp_of_ok hres hwp
    simpa [commit] using hs
  | abort d =>
    have hd := wp_of_abort hres hwp
    simpa [commit] using hd

/-- A server that serves and does not die ends its event where its handler does. -/
theorem step_of_wp {P : Proc n → Prop} (hserves : serves (c.servers e.server) = true)
    (hwp : (c.handler e).wp (fun _ s => P s) (fun _ => False) (c.proc e)) :
    ∃ s, P s ∧ c.step e = c.commit e s s.ri := by
  obtain ⟨u, s, hres, hs⟩ := exists_ok_of_wp hwp
  have hen : c.enabled e = true := by rw [enabled, hserves, Bool.true_or]
  refine ⟨s, hs, ?_⟩
  rw [step, if_pos hen, hres]

/-- An event that does not fail leaves its server what the handler made of it. -/
theorem exists_step_of_wp {P : Proc n → Prop} (hserves : serves (c.servers e.server) = true)
    (hwp : (c.handler e).wp (fun _ s => P s) (fun _ => False) (c.proc e)) :
    ∃ s, P s ∧ (c.step e).servers e.server = s.ri ∧
      (c.step e).net = c.net ++ s.out.map fun m =>
        ⟨e.server, m.1, m.2, (c.delivered e).map (·.msg)⟩ := by
  obtain ⟨s, hs, hstep⟩ := step_of_wp hserves hwp
  refine ⟨s, hs, ?_, ?_⟩
  · rw [hstep, commit]
    exact Function.update_self _ _ _
  · rw [hstep]
    rfl

/-- The server of an event is the only one to send. -/
theorem net_step (c : Cluster n) (e : Event n) :
    ∃ ms, (c.step e).net = c.net ++ ms ∧ ∀ pkt ∈ ms, pkt.src = e.server := by
  have hout : ∀ out : List (Fin n × RpcMsg n), ∀ pkt ∈ out.map fun m =>
      (⟨e.server, m.1, m.2, (c.delivered e).map (·.msg)⟩ : Packet n), pkt.src = e.server := by
    intro out pkt hpkt
    obtain ⟨m, -, rfl⟩ := List.mem_map.mp hpkt
    rfl
  rw [step]
  split
  · split
    · exact ⟨_, rfl, hout _⟩
    · exact ⟨_, rfl, hout _⟩
  · exact ⟨[], (List.append_nil _).symm, fun pkt hpkt => (by cases hpkt)⟩

/-- Messages stay in the network. -/
theorem getElem?_net_step {i : Nat} {pkt : Packet n} (h : c.net[i]? = some pkt) (e : Event n) :
    (c.step e).net[i]? = some pkt := by
  obtain ⟨ms, hnet, -⟩ := net_step c e
  rw [hnet, List.getElem?_append_left (List.getElem?_eq_some_iff.mp h).1, h]

omit [Externals] in
/-- A message that arrives is the one at its place in the network. -/
theorem delivered_of_getElem? {i : Nat} {pkt : Packet n} (h : c.net[i]? = some pkt) {p : Fin n}
    (hdst : pkt.dst = p) : c.delivered ⟨p, .deliver i, none, 0⟩ = some pkt := by
  unfold delivered
  simp [h, hdst]

/-- What an event and the restart of a dead process keep holds after the event. -/
theorem Keeps.step {p : Fin n} {P : RaftInstance n → Prop} (hP : Keeps c e P) (h : P (c.servers p))
    (hrestart : ∀ ri d, e.server = p → c.handler e (c.proc e) = .abort d → Survives ri d.ri →
      P ri → (c.step e).servers p = restart d.ri e.keep → P (restart d.ri e.keep)) :
    P ((c.step e).servers p) := by
  by_cases hp : p = e.server
  · subst hp
    by_cases hen : c.enabled e = true
    · have hwp := hP.wp_handler h
      refine step_server hen (wp_intro (fun _ s hres => ?_) fun d hres => ?_)
      · have hs := wp_of_ok hres hwp
        exact hs.1
      · obtain ⟨⟨ri, hri, hd⟩, -⟩ := wp_of_abort hres hwp
        refine hrestart ri d rfl hres hd hri ?_
        simp [Cluster.step, hen, hres, commit]
    · rw [Cluster.step, if_neg hen]
      exact h
  · rw [step_servers_of_ne hp]
    exact h

/-- The messages of an event are those that were there, and those its server sent. -/
theorem Keeps.sent {P : RaftInstance n → Prop} (hP : Keeps c e P) (h : P (c.servers e.server))
    {pkt : Packet n} (hpkt : pkt ∈ (c.step e).net) :
    pkt ∈ c.net ∨ (pkt.src = e.server ∧ pkt.cause = (c.delivered e).map (·.msg) ∧
      Sent c e P (pkt.dst, pkt.msg)) := by
  have hwp := hP.wp_handler h
  have hnew : ∀ (s : Proc n) (ri : RaftInstance n), (∀ m ∈ s.out, Sent c e P m) →
      pkt ∈ (c.commit e s ri).net → pkt ∈ c.net ∨ (pkt.src = e.server ∧
        pkt.cause = (c.delivered e).map (·.msg) ∧ Sent c e P (pkt.dst, pkt.msg)) := by
    intro s ri hout hmem
    simp only [commit, List.mem_append, List.mem_map] at hmem
    rcases hmem with hmem | ⟨m, hm, rfl⟩
    · exact .inl hmem
    · exact .inr ⟨rfl, rfl, hout m hm⟩
  unfold Cluster.step at hpkt
  split at hpkt
  · cases hres : c.handler e (c.proc e) with
    | ok u s =>
      rw [hres] at hpkt
      obtain ⟨-, hout⟩ := wp_of_ok hres hwp
      exact hnew s _ hout hpkt
    | abort d =>
      rw [hres] at hpkt
      obtain ⟨-, hout⟩ := wp_of_abort hres hwp
      exact hnew d _ hout hpkt
  · exact .inl hpkt

end Cluster

end NiovaRaft
