import NiovaRaft.Spec.Roles
import NiovaRaft.Base.Quorum

/-!
# Rounds of pre-votes

What the functions of an election do to the pre-votes of a server.  A round begins where a timer
expires, with the server's own pre-vote.  It goes on, with the granted replies that arrive, until
the server stands or follows.  A server persists a vote for itself in the one function that ends a
round with a majority.
-/

namespace NiovaRaft

open Base Base.Handler Relation

variable {n : Nat}

/-- The pre-votes among the messages that were sent. -/
def preVotes (out : List (Fin n × RpcMsg n)) : List (Fin n × RpcMsg n) :=
  out.filter (·.2.isPreVote)

theorem preVotes_append {out ms : List (Fin n × RpcMsg n)} (h : ∀ m ∈ ms, m.2.isPreVote = false) :
    preVotes (out ++ ms) = preVotes out := by
  have hnone : ms.filter (·.2.isPreVote) = [] := by
    rw [List.filter_eq_nil_iff]
    intro m hm
    simp [h m hm]
  rw [preVotes, List.filter_append, hnone, List.append_nil]
  rfl

theorem preVotes_reply {out : List (Fin n × RpcMsg n)} {dst : Fin n} {reply : VoteReplyMsg n} :
    preVotes (out ++ [(dst, .preVoteReply reply)]) = preVotes out ++ [(dst, .preVoteReply reply)] :=
  List.filter_append ..

/-- The instance after a vote was registered. -/
def RaftInstance.withVote (ri : RaftInstance n) (voter : Fin n) (result : VoteResult) :
    RaftInstance n :=
  { ri with candidate :=
    { ri.candidate with results := Function.update ri.candidate.results voter result } }

/-- The round of `ri` is won, and the next term persisted, by the votes that were counted and those
that are `granted` now. -/
structure RoundWon (granted : Fin n → Prop) (ri : RaftInstance n) (hdr : LogHeader n) : Prop where
  prevote : ri.state = .candidatePrevote
  term : hdr.term = ri.logHdr.term + 1
  majority : ∃ voters : Finset (Fin n), Majority voters ∧
    ∀ q ∈ voters, ri.candidate.results q = .preVoteYes ∨ granted q

/-- The header holds no new vote for the server itself, unless its round was won. -/
def OwnVoteWon (granted : Fin n → Prop) (ri : RaftInstance n) (hdr : LogHeader n) : Prop :=
  hdr = ri.logHdr ∨ hdr.votedFor ≠ some ri.self ∨ RoundWon granted ri hdr

/-- What becomes of a round.  `expired` says that the timer has. -/
structure RoundStep (expired : Bool) (granted : Fin n → Prop) (ri ri' : RaftInstance n) :
    Prop where
  hdr : ri'.state = .candidatePrevote → ri'.logHdr = ri.logHdr
  begins : ri'.state = .candidatePrevote → expired = true →
    ∀ q, ri'.candidate.results q = .preVoteYes → q = ri.self
  counts : ri'.state = .candidatePrevote → expired = false → ri.state = .candidatePrevote ∧
    ∀ q, ri'.candidate.results q = .preVoteYes → ri.candidate.results q = .preVoteYes ∨ granted q
  stands : ri'.state = .candidate → ri.state = .candidate ∨ RoundWon granted ri ri'.logHdr
  vote : OwnVoteWon granted ri ri'.logHdr

section

variable {expired : Bool} {granted : Fin n → Prop} {ri ri' : RaftInstance n}

theorem RoundWon.mono {granted' : Fin n → Prop} {hdr : LogHeader n} (h : RoundWon granted ri hdr)
    (hg : ∀ q, granted q → granted' q) : RoundWon granted' ri hdr := by
  obtain ⟨hpre, hterm, voters, hmaj, hvoters⟩ := h
  exact ⟨hpre, hterm, voters, hmaj, fun q hq => (hvoters q hq).imp_right (hg q)⟩

theorem OwnVoteWon.mono {granted' : Fin n → Prop} {hdr : LogHeader n}
    (h : OwnVoteWon granted ri hdr) (hg : ∀ q, granted q → granted' q) :
    OwnVoteWon granted' ri hdr :=
  h.imp_right fun h => h.imp_right fun h => h.mono hg

theorem RoundStep.mono {granted' : Fin n → Prop} (h : RoundStep expired granted ri ri')
    (hg : ∀ q, granted q → granted' q) : RoundStep expired granted' ri ri' where
  hdr := h.hdr
  begins := h.begins
  counts := fun hs he => ⟨(h.counts hs he).1, fun q hq => ((h.counts hs he).2 q hq).imp_right (hg q)⟩
  stands := fun hs => (h.stands hs).imp_right fun h => h.mono hg
  vote := h.vote.mono hg

/-- The server is in no round, and does not stand unless it did. -/
theorem RoundStep.of_state (hpre : ri'.state ≠ .candidatePrevote)
    (hcand : ri'.state = .candidate → ri.state = .candidate)
    (hvote : OwnVoteWon granted ri ri'.logHdr) : RoundStep expired granted ri ri' where
  hdr := fun hs => absurd hs hpre
  begins := fun hs => absurd hs hpre
  counts := fun hs => absurd hs hpre
  stands := fun hs => .inl (hcand hs)
  vote := hvote

/-- Role and header are as before, and no timer has expired. -/
theorem RoundStep.of_role (h : RaftServer.roleIn ri' = RaftServer.roleIn ri) :
    RoundStep false granted ri ri' := by
  simp only [RaftServer.roleIn, Prod.mk.injEq] at h
  obtain ⟨-, hstate, hhdr, -, hcand, -⟩ := h
  refine ⟨fun _ => hhdr, fun _ h => (by cases h), fun hs _ => ⟨hstate ▸ hs, fun q hq => .inl ?_⟩,
    fun hs => .inl (hstate ▸ hs), .inl hhdr⟩
  rw [← hcand]
  exact hq

/-- Whoever keeps the role keeps the round. -/
theorem RoundStep.trans_role {ri₁ : RaftInstance n} (h : RoundStep expired granted ri ri₁)
    (hrole : RaftServer.roleIn ri' = RaftServer.roleIn ri₁) : RoundStep expired granted ri ri' := by
  simp only [RaftServer.roleIn, Prod.mk.injEq] at hrole
  obtain ⟨-, hstate, hhdr, -, hcand, -⟩ := hrole
  constructor
  · rw [hstate, hhdr]
    exact h.hdr
  · rw [hstate, hcand]
    exact h.begins
  · rw [hstate, hcand]
    exact h.counts
  · rw [hstate, hhdr]
    exact h.stands
  · rw [hhdr]
    exact h.vote

end

/-- What a function that sends no pre-vote leaves of the round of `s`. -/
structure RoundKept (granted : Fin n → Prop) (s s' : Proc n) : Prop where
  self : s'.ri.self = s.ri.self
  step : RoundStep false granted s.ri s'.ri
  persisted : s'.ri.store.db.hdr = s'.ri.logHdr
  sent : preVotes s'.out = preVotes s.out

/-- What of it survives a process that dies. -/
structure RoundLeft (granted : Fin n → Prop) (s d : Proc n) : Prop where
  vote : OwnVoteWon granted s.ri d.ri.store.db.hdr
  sent : preVotes d.out = preVotes s.out

section

variable {granted : Fin n → Prop} {s s' s₁ d : Proc n}

theorem RoundKept.refl (hmem : s.ri.store.db.hdr = s.ri.logHdr) : RoundKept granted s s :=
  ⟨rfl, .of_role rfl, hmem, rfl⟩

theorem RoundKept.left (h : RoundKept granted s s₁) : RoundLeft granted s s₁ :=
  ⟨by rw [h.persisted]; exact h.step.vote, h.sent⟩

theorem RoundKept.trans_role (h : RoundKept granted s s₁)
    (hview : RaftServer.roleView s' = RaftServer.roleView s₁) : RoundKept granted s s' := by
  simp only [RaftServer.roleView, Prod.mk.injEq] at hview
  obtain ⟨hrole, hhdr, hout⟩ := hview
  have hstep := h.step.trans_role hrole
  simp only [RaftServer.roleOf, RaftServer.roleIn, Prod.mk.injEq] at hrole
  obtain ⟨hself, -, hlog, -⟩ := hrole
  exact ⟨hself.trans h.self, hstep, by rw [hhdr, hlog, h.persisted], hout.trans h.sent⟩

/-- Outside a round, the votes that are counted are of no account. -/
theorem RoundKept.withCandidate (h : RoundKept granted s s₁) (hpre : s₁.ri.state ≠ .candidatePrevote)
    (cand : CandidateState n) :
    RoundKept granted s { s₁ with ri := { s₁.ri with candidate := cand } } where
  self := h.self
  step := ⟨h.step.hdr, fun hs => absurd hs hpre, fun hs => absurd hs hpre, h.step.stands, h.step.vote⟩
  persisted := h.persisted
  sent := h.sent

theorem RoundKept.trans_dead (h : RoundKept granted s s₁)
    (hview : (RaftServer.roleView d).2 = (RaftServer.roleView s₁).2) : RoundLeft granted s d := by
  simp only [RaftServer.roleView, Prod.mk.injEq] at hview
  obtain ⟨hhdr, hout⟩ := hview
  refine ⟨?_, hout.trans h.sent⟩
  rw [hhdr, h.persisted]
  exact h.step.vote

end

namespace RaftServer

variable {s s₀ : Proc n} {granted : Fin n → Prop}

/-- What keeps the role may come after anything. -/
theorem wp_keepsRole_round {α : Type} {m : Server n α} (h : RoundKept granted s₀ s)
    (hm : m.wp (fun _ s' => roleView s' = roleView s) (fun d => (roleView d).2 = (roleView s).2) s) :
    m.wp (fun _ s' => RoundKept granted s₀ s') (RoundLeft granted s₀) s :=
  wp_mono hm (fun _ _ hview => h.trans_role hview) fun _ hview => h.trans_dead hview

theorem wp_keepsRole_bind {α β : Type} {m : Server n α} {f : α → Server n β}
    {Q : β → Proc n → Prop} (h : RoundKept granted s₀ s) (hm : KeepsRole m s)
    (hf : ∀ a s₁, RoundKept granted s₀ s₁ → roleView s₁ = roleView s →
      (f a).wp Q (RoundLeft granted s₀) s₁) : (m >>= f).wp Q (RoundLeft granted s₀) s := by
  rw [wp_bind]
  exact wp_mono (wp_of_keepsRole hm) (fun a s₁ hview => hf a s₁ (h.trans_role hview) hview)
    fun _ hview => h.trans_dead hview

/-! ## The header -/

/-- A header write changes the header, in memory and in the backend.  A process that dies has
persisted the old one or the new one. -/
theorem wp_logHeaderWrite_roles {cand : Option (Fin n)} {term : Int} :
    (logHeaderWrite cand term).wp
      (fun _ s' => roleView s' = roleView { s with ri := s.ri.withHeader (nextHeader s.ri cand term) })
      (fun d => (roleView d).2 = (roleView s).2 ∨
        (roleView d).2 = (nextHeader s.ri cand term, (roleView s).2.2)) s := by
  simp only [logHeaderWrite, logHeaderWritePrep, headerWrite, wp_bind, wp_getRi, wp_fatalIf,
    wp_modifyRi]
  refine ⟨fun _ => .inl trivial, fun _ => wp_durable (fun _ => .inl rfl) fun fuse _ => ?_⟩
  exact wp_mono (wp_of_keepsRole keepsRole_backendSync) (fun _ _ h => h) fun _ h => .inr h

/-- A newer term is persisted without a vote for the server itself, by one that is in no round. -/
theorem wp_logHeaderWrite_round {cand : Option (Fin n)} {term : Int} (h : RoundKept granted s₀ s)
    (hcand : cand ≠ some s₀.ri.self) (hpre : s.ri.state ≠ .candidatePrevote)
    (hstands : s.ri.state ≠ .candidate) :
    (logHeaderWrite cand term).wp (fun _ s' => RoundKept granted s₀ s') (RoundLeft granted s₀) s := by
  have hvote : OwnVoteWon granted s₀.ri (nextHeader s.ri cand term) := .inr (.inl hcand)
  have hnew : RoundKept granted s₀
      { s with ri := s.ri.withHeader (nextHeader s.ri cand term) } := by
    exact ⟨h.self, .of_state hpre (fun hs => absurd hs hstands) hvote, rfl, h.sent⟩
  refine wp_mono wp_logHeaderWrite_roles (fun _ _ hview => hnew.trans_role hview) ?_
  rintro d (hd | hd)
  · exact h.trans_dead hd
  · exact hnew.trans_dead hd

/-- Whoever follows another server is in no round. -/
theorem wp_becomesFollower_round {term : Int} {peer : Option (Fin n)} {reason : FollowerReason}
    (h : RoundKept granted s₀ s) :
    (becomesFollower term peer reason).wp (fun _ s' => RoundKept granted s₀ s')
      (RoundLeft granted s₀) s := by
  rw [becomesFollower, wp_bind, wp_getRi]
  cases peer with
  | none => exact h
  | some x =>
    simp only [wp_whenever, follow, wp_bind, wp_modifyRi, wp_getRi, wp_assert, setLeaderCsn,
      updateLogHeader]
    have hfollows : ∀ csn, RoundKept granted s₀ { s with ri := { s.ri with
        state := .follower, followerReason := reason, csnLeader := csn } } := by
      intro csn
      exact ⟨h.self, .of_state (fun hs => (by cases hs)) (fun hs => (by cases hs)) h.step.vote,
        h.persisted, h.sent⟩
    refine ⟨fun hne => ⟨fun _ => ⟨fun _ => ⟨fun _ => ?_, fun _ => (hfollows _).left⟩,
      fun _ => hfollows _⟩, fun _ => (hfollows _).left⟩, fun _ => h⟩
    refine wp_logHeaderWrite_round (hfollows _) ?_ (fun hs => (by cases hs)) fun hs => (by cases hs)
    split
    · rw [← h.self]
      exact fun heq => hne (Option.some.inj heq)
    · exact fun heq => (by cases heq)

/-! ## Candidacy -/

/-- A result is registered by a candidate, in the round it is for. -/
theorem wp_candidateRegVoteResult_for {voter : Fin n} {result : VoteResult}
    {Q : Except Errno Unit → Proc n → Prop} {D : Proc n → Prop} (hD : D s)
    (herr : ∀ rc, Q (.error rc) s)
    (hok : (s.ri.isCandidatePrevote = true ∨ s.ri.isCandidate = true) →
      voteResultIsForRound s.ri.isCandidatePrevote result = true →
      Q (.ok ()) { s with ri := s.ri.withVote voter result }) :
    (candidateRegVoteResult voter result).wp Q D s := by
  simp only [candidateRegVoteResult, wp_bind, wp_getRi, wp_ite, wp_pure, wp_fatalIf, wp_modifyRi]
  refine ⟨fun _ => herr _, fun _ => ⟨fun _ => herr _, fun hstands => ⟨fun _ => herr _,
    fun hround => ⟨fun _ => hD, fun _ => hok ?_ (eq_true_of_ne_false hround)⟩⟩⟩⟩
  by_contra hnone
  simp only [not_or, Bool.not_eq_true] at hnone
  exact hstands hnone

/-- A timer expires: a round begins, with the server's own pre-vote, and all others are asked. -/
theorem wp_becomeCandidate_begins :
    (becomeCandidate true).wp
      (fun _ s' => RoundStep true granted s.ri s'.ri ∧ s'.ri.state = .candidatePrevote ∧
        ∀ m ∈ s'.out, m ∈ s.out ∨ ∃ vreq, m.2 = .preVoteRequest vreq ∧
          vreq.proposedTerm = s.ri.logHdr.term + 1)
      (fun _ => False) s := by
  simp only [becomeCandidate, initCandidateState, voteForSelf, broadcastMsg, wp_bind, wp_modifyRi,
    wp_getRi, wp_assert, wp_ite, wp_pure, wp_modify]
  refine ⟨fun _ => ⟨fun h => absurd h.1 (by simp [RaftInstance.isCandidatePrevote]), fun _ => ?_⟩,
    fun h => absurd (.inl trivial) h⟩
  refine ⟨fun h => absurd h (by simp [RaftInstance.isCandidate]), fun _ => ?_⟩
  refine wp_candidateRegVoteResult_of_terms (fun _ => rfl) (fun h => (by cases h)) (fun rc h => ?_)
    fun _ _ => ⟨fun _ => ⟨⟨fun _ => rfl, fun _ _ q hq => ?_, fun _ h => (by cases h),
      fun h => (by cases h), .inl rfl⟩, rfl, fun m hm => ?_⟩, fun h => ?_⟩
  · simp [RaftInstance.isCandidatePrevote, voteResultIsForRound] at h
  · by_contra hne
    simp [Function.update_of_ne hne] at hq
  · rcases List.mem_append.mp hm with hm | hm
    · exact .inl hm
    · obtain ⟨dst, -, rfl⟩ := List.mem_map.mp hm
      exact .inr ⟨_, rfl, rfl⟩
  · simp [Except.isOk, Except.toBool] at h

/-- A majority of pre-votes: the server persists the next term with a vote for itself. -/
theorem wp_becomeCandidate_round (h : RoundKept granted s₀ s)
    (hwon : ∀ hdr : LogHeader n, hdr.term = s.ri.logHdr.term + 1 → RoundWon granted s₀.ri hdr) :
    (becomeCandidate false).wp (fun _ s' => RoundKept granted s₀ s') (RoundLeft granted s₀) s := by
  -- the instance once the term is persisted
  have hstood : ∀ cand csn, RoundKept granted s₀ { s with
      ri := RaftInstance.withHeader
        { s.ri with state := .candidate, candidate := cand, csnLeader := csn }
        (nextHeader s.ri (some s.ri.self) (s.ri.logHdr.term + 1)) } := by
    intro cand csn
    have hdone := hwon (nextHeader s.ri (some s.ri.self) (s.ri.logHdr.term + 1)) rfl
    exact ⟨h.self, ⟨fun hs => (by cases hs), fun hs => (by cases hs), fun hs => (by cases hs),
      fun _ => .inr hdone, .inr (.inr hdone)⟩, rfl, h.sent⟩
  simp only [becomeCandidate, initCandidateState, voteForSelf, broadcastMsg, wp_bind, wp_modifyRi,
    wp_getRi, wp_assert, wp_ite, wp_pure, wp_modify]
  refine ⟨fun _ => ⟨fun h => absurd h.2 (by simp [RaftInstance.isCandidate]), fun _ => ?_⟩,
    fun _ => ?_⟩
  · refine ⟨fun _ => ?_, fun h => absurd (by simp [RaftInstance.isCandidate]) h⟩
    refine wp_mono wp_logHeaderWrite_roles (fun _ s₁ hview => ?_) ?_
    · -- the term is persisted: a vote for itself is registered, and votes are asked for
      have hnew := (hstood _ _).trans_role hview
      have hstate : s₁.ri.state = .candidate := congrArg (fun v => v.1.2.1) hview
      refine wp_candidateRegVoteResult_for hnew.left (fun rc => ?_) fun _ _ => ⟨fun _ => ?_, ?_⟩
      · exact ⟨fun hok => absurd hok (by simp [Except.isOk, Except.toBool]), fun _ => hnew.left⟩
      · have hkept := hnew.withCandidate (by rw [hstate]; exact fun hs => (by cases hs))
        refine ⟨(hkept _).self, (hkept _).step, (hkept _).persisted, ?_⟩
        rw [preVotes_append fun m hm => ?_]
        · exact hnew.sent
        · obtain ⟨dst, -, rfl⟩ := List.mem_map.mp hm
          rfl
      · exact fun hno => absurd (by simp [Except.isOk, Except.toBool]) hno
    · rintro d (hd | hd)
      · exact h.trans_dead hd
      · exact (hstood s.ri.candidate none).trans_dead hd
  · exact ⟨by rw [h.persisted]; exact h.step.vote, h.sent⟩

/-! ## Votes -/

section Votes

variable [Externals]

theorem wp_candidateBecomesLeader_round (h : RoundKept granted s₀ s) :
    candidateBecomesLeader.wp (fun _ s' => RoundKept granted s₀ s') (RoundLeft granted s₀) s := by
  have hleads : ∀ {s₁ : Proc n}, RoundKept granted s₀ s₁ → ∀ leader trace, RoundKept granted s₀
      { s₁ with ri := { s₁.ri with state := .leader, leader := leader }, trace := trace } := by
    intro s₁ h₁ leader trace
    exact ⟨h₁.self, .of_state (fun hs => (by cases hs)) (fun hs => (by cases hs)) h₁.step.vote,
      h₁.persisted, h₁.sent⟩
  rw [candidateBecomesLeader, wp_bind, wp_getRi]
  simp only [wp_bind, wp_assert, leaderInitState, wp_getRi]
  refine ⟨fun _ => ?_, fun _ => h.left⟩
  refine wp_mono (wp_of_keepsRole keepsRole_hasUnsyncedEntries) (fun _ s₁ hview => ?_)
    fun _ hview => h.trans_dead hview
  have h₁ := h.trans_role hview
  simp only [wp_fatalIf, wp_modifyRi, wp_observe]
  refine ⟨fun _ => h₁.left, fun _ => ?_⟩
  have hmarker : ∀ s' : Proc n, KeepsRole writeLeaderChangeMarker s' := fun s' =>
    .bind .gets fun _ _ _ => .assert_bind (fun _ => rfl) fun _ => .bind .gets fun _ _ _ =>
    .assert_bind (fun _ => rfl) fun _ => .assert_bind (fun _ => rfl) fun _ =>
    keepsRole_writeNextEntry
  refine wp_mono (wp_of_keepsRole (hmarker _)) (fun _ s₂ hview₂ => ?_) fun d hview₂ => ?_
  · have h₂ := (hleads h₁ _ _).trans_role hview₂
    have hstate : s₂.ri.state = .leader := congrArg (fun v => v.1.2.1) hview₂
    rw [setLeaderCsn, wp_modifyRi]
    refine ⟨h₂.self, .of_state ?_ ?_ h₂.step.vote, h₂.persisted, h₂.sent⟩
    · rw [hstate]
      exact fun hs => (by cases hs)
    · rw [hstate]
      exact fun hs => (by cases hs)
  · exact (hleads h₁ _ _).trans_dead hview₂

/-- What is done about a pre-vote that was counted. -/
theorem wp_actOnVoteResult_preVote {sender : Fin n} {m : VoteReplyMsg n}
    (hmem : s.ri.store.db.hdr = s.ri.logHdr) (hpre : s.ri.state = .candidatePrevote) :
    (actOnVoteResult (voteResultOf true m.votedGranted) m).wp
      (fun _ s' => RoundKept (fun q => q = sender ∧ m.votedGranted = true) s s')
      (RoundLeft (fun q => q = sender ∧ m.votedGranted = true) s)
      { s with ri := s.ri.withVote sender (voteResultOf true m.votedGranted) } := by
  have hyes : ∀ q, (s.ri.withVote sender (voteResultOf true m.votedGranted)).candidate.results q =
      .preVoteYes → s.ri.candidate.results q = .preVoteYes ∨ q = sender ∧ m.votedGranted = true := by
    intro q hq
    change Function.update s.ri.candidate.results sender _ q = _ at hq
    by_cases hqs : q = sender
    · rw [hqs, Function.update_self] at hq
      refine .inr ⟨hqs, ?_⟩
      cases hg : m.votedGranted with
      | true => rfl
      | false => simp [voteResultOf, hg] at hq
    · rw [Function.update_of_ne hqs] at hq
      exact .inl hq
  have hcounted : RoundKept (fun q => q = sender ∧ m.votedGranted = true) s
      { s with ri := s.ri.withVote sender (voteResultOf true m.votedGranted) } := by
    refine ⟨rfl, ⟨fun _ => rfl, fun _ h => (by cases h), fun _ _ => ⟨hpre, hyes⟩, fun hs => ?_,
      .inl rfl⟩, hmem, rfl⟩
    have hcand : s.ri.state = .candidate := hs
    rw [hpre] at hcand
    cases hcand
  rw [actOnVoteResult, wp_bind, wp_getRi]
  cases hres : voteResultOf true m.votedGranted with
  | preVoteYes =>
    rw [hres] at hcounted hyes
    rw [wp_whenever]
    refine ⟨fun hcan => wp_becomeCandidate_round hcounted fun hdr hterm => ?_, fun _ => hcounted⟩
    simp only [prevoteCandidateCanBecomeCandidate, Bool.and_eq_true, decide_eq_true_eq] at hcan
    refine ⟨hpre, hterm, _, majority_of_countP _ hcan.2, fun q hq => hyes q ?_⟩
    simpa using hq
  | preVoteNo =>
    rw [hres] at hcounted
    exact hcounted
  | unknown | voteYes | voteNo => cases hg : m.votedGranted <;> simp [voteResultOf, hg] at hres

/-- What is done about a vote that was counted. -/
theorem wp_actOnVoteResult_vote {m : VoteReplyMsg n} (h : RoundKept granted s₀ s) :
    (actOnVoteResult (voteResultOf false m.votedGranted) m).wp
      (fun _ s' => RoundKept granted s₀ s') (RoundLeft granted s₀) s := by
  rw [actOnVoteResult, wp_bind, wp_getRi]
  cases hres : voteResultOf false m.votedGranted with
  | voteYes =>
    rw [wp_whenever]
    exact ⟨fun _ => wp_candidateBecomesLeader_round h, fun _ => h⟩
  | voteNo =>
    rw [wp_whenever]
    exact ⟨fun _ => wp_becomesFollower_round h, fun _ => h⟩
  | unknown | preVoteYes | preVoteNo => cases hg : m.votedGranted <;> simp [voteResultOf, hg] at hres

/-- A reply to a vote or a pre-vote.  The pre-vote of its sender is counted where it is granted. -/
theorem wp_processVoteReplyCommon_round {sender : Fin n} {prevote : Bool} {m : VoteReplyMsg n}
    (hmem : s.ri.store.db.hdr = s.ri.logHdr) :
    (processVoteReplyCommon sender prevote m).wp
      (fun _ s' => RoundKept (fun q => q = sender ∧ prevote = true ∧ m.votedGranted = true) s s')
      (RoundLeft (fun q => q = sender ∧ prevote = true ∧ m.votedGranted = true) s) s := by
  have hstay : RoundKept (fun q => q = sender ∧ prevote = true ∧ m.votedGranted = true) s s :=
    .refl hmem
  simp only [processVoteReplyCommon, wp_bind, wp_getRi, wp_ite, wp_pure]
  refine ⟨fun _ => hstay, fun _ => ?_⟩
  refine wp_candidateRegVoteResult_for hstay.left (fun rc => ?_) fun hstands hround => ?_
  · rw [wp_whenever]
    exact ⟨fun h => absurd h (by simp [Except.isOk, Except.toBool]), fun _ => hstay⟩
  · rw [wp_whenever]
    refine ⟨fun _ => ?_, fun h => absurd (by simp [Except.isOk, Except.toBool]) h⟩
    -- in which round the server is follows from the reply
    have hpre : s.ri.isCandidatePrevote = prevote := by
      cases hp : s.ri.isCandidatePrevote <;> rw [hp] at hround <;>
        cases prevote <;> cases hg : m.votedGranted <;>
        simp [voteResultIsForRound, voteResultOf, hg] at hround ⊢
    cases prevote with
    | true =>
      have hstate : s.ri.state = .candidatePrevote := by
        simpa [RaftInstance.isCandidatePrevote] using hpre
      simpa using @wp_actOnVoteResult_preVote n s _ sender m hmem hstate
    | false =>
      have hstate : s.ri.state ≠ .candidatePrevote := by
        simpa [RaftInstance.isCandidatePrevote] using hpre
      exact wp_actOnVoteResult_vote (hstay.withCandidate hstate _)

end Votes

/-! ## Requests for votes -/

theorem keepsRole_backendSyncPending : KeepsRole (backendSyncPending : Server n Unit) s :=
  .bind keepsRole_hasUnsyncedEntries fun _ _ _ => .whenever fun _ => keepsRole_backendSync

/-- A vote is persisted for another server. -/
theorem wp_processVoteRequestCommon_round {sender : Fin n} {vreq : VoteRequestMsg}
    (hmem : s.ri.store.db.hdr = s.ri.logHdr) :
    (processVoteRequestCommon sender false vreq).wp (fun _ s' => RoundKept granted s s')
      (RoundLeft granted s) s := by
  have hsend : ∀ (reply : VoteReplyMsg n) (s₂ : Proc n), RoundKept granted s s₂ →
      (sendMsg (some sender) (.voteReply reply)).wp (fun _ s' => RoundKept granted s s')
        (RoundLeft granted s) s₂ := fun reply s₂ h₂ =>
    wp_keepsRole_round h₂ (wp_of_keepsRole (keepsRole_sendMsg rfl))
  rw [processVoteRequestCommon]
  refine wp_keepsRole_bind (.refl hmem) keepsRole_backendSyncPending fun _ s₁ h₁ _ => ?_
  simp only [wp_bind, wp_getRi, wp_whenever, Bool.false_eq_true, if_false]
  refine ⟨fun _ => ?_, fun _ => hsend _ _ h₁⟩
  exact wp_mono (wp_becomesFollower_round h₁) (fun _ s₂ h₂ => hsend _ _ h₂) fun _ => id

/-- A pre-vote is answered, and nothing else happens. -/
theorem wp_processVoteRequestCommon_preVote {sender : Fin n} {vreq : VoteRequestMsg}
    (hmem : s.ri.store.db.hdr = s.ri.logHdr) :
    (processVoteRequestCommon sender true vreq).wp
      (fun _ s' => RoundStep false granted s.ri s'.ri ∧
        ∃ reply, preVotes s'.out = preVotes s.out ++ [(sender, .preVoteReply reply)])
      (RoundLeft granted s) s := by
  rw [processVoteRequestCommon]
  refine wp_keepsRole_bind (.refl hmem) keepsRole_backendSyncPending fun _ s₁ h₁ _ => ?_
  simp only [wp_bind, wp_getRi, wp_whenever, wp_sendMsg_some, if_true]
  refine ⟨fun h => (by cases h.1), fun _ => ⟨h₁.step, ?_⟩⟩
  exact ⟨_, preVotes_reply.trans (congrArg (· ++ _) h₁.sent)⟩

/-! ## Requests and replies to append -/

theorem wp_processAppendEntriesTermCheckOps_round {sender : Fin n} {m : AppendEntriesRequestMsg}
    (hmem : s.ri.store.db.hdr = s.ri.logHdr) :
    (processAppendEntriesTermCheckOps sender m).wp (fun _ s' => RoundKept granted s s')
      (RoundLeft granted s) s := by
  have hstay : RoundKept granted s s := .refl hmem
  simp only [processAppendEntriesTermCheckOps, wp_bind, wp_getRi, wp_ite, wp_pure, setLeaderCsn,
    wp_modifyRi]
  have hcsn : ∀ s₁ : Proc n, RoundKept granted s s₁ → RoundKept granted s
      { s₁ with ri := { s₁.ri with csnLeader := some sender } } := by
    intro s₁ h₁
    exact ⟨h₁.self, ⟨h₁.step.hdr, h₁.step.begins, h₁.step.counts, h₁.step.stands, h₁.step.vote⟩,
      h₁.persisted, h₁.sent⟩
  refine ⟨fun _ => hstay, fun _ => ⟨fun _ => ?_, fun _ => ⟨fun _ => ?_, fun _ => ⟨fun hf => ?_,
    fun _ => hcsn s hstay⟩⟩⟩⟩
  · exact wp_mono (wp_becomesFollower_round hstay) (fun _ s₁ h₁ => hcsn s₁ h₁) fun _ => id
  · exact wp_mono (wp_becomesFollower_round hstay) (fun _ s₁ h₁ => hcsn s₁ h₁) fun _ => id
  · have hstate : s.ri.state = .follower := by simpa [RaftInstance.isFollower] using hf.2
    simp only [tryUpdateLogHeaderNullVotedForPeer, updateLogHeader, wp_bind, wp_getRi, wp_whenever,
      wp_assert]
    refine ⟨fun _ => ⟨fun _ => ?_, fun _ => hstay.left⟩, fun _ => hcsn s hstay⟩
    refine wp_mono (wp_logHeaderWrite_round hstay (fun h => (by cases h)) ?_ ?_)
      (fun _ s₁ h₁ => hcsn s₁ h₁) fun _ => id
    · rw [hstate]
      exact fun hs => (by cases hs)
    · rw [hstate]
      exact fun hs => (by cases hs)

theorem wp_processAppendEntriesRequest_round [Externals] {sender : Fin n}
    {m : AppendEntriesRequestMsg} (hmem : s.ri.store.db.hdr = s.ri.logHdr) :
    (processAppendEntriesRequest sender m).wp (fun _ s' => RoundKept granted s s')
      (RoundLeft granted s) s := by
  have hstay : RoundKept granted s s := .refl hmem
  have hreply : ∀ (rc : Except Errno Unit) (stale nonMatching updateSli : Bool) (s' : Proc n),
      KeepsRole (appendEntryReplySend m sender stale nonMatching updateSli rc) s' :=
    fun _ _ _ _ _ => .bind .gets fun _ _ _ => keepsRole_sendMsg rfl
  -- once the term is known
  have hvalid : ∀ updateSli, (processValidAppendEntries sender m updateSli).wp
      (fun _ s' => RoundKept granted s s') (RoundLeft granted s) s := by
    intro updateSli
    rw [processValidAppendEntries, wp_bind]
    refine wp_mono (wp_processAppendEntriesTermCheckOps_round hmem) (fun rc s₁ h₁ => ?_) fun _ => id
    cases rc with
    | error rc => exact wp_keepsRole_round h₁ (wp_of_keepsRole (hreply _ _ _ _ _))
    | ok u =>
      simp only [wp_ite]
      refine ⟨fun _ => wp_keepsRole_round h₁ (wp_of_keepsRole (hreply _ _ _ _ _)), fun _ => ?_⟩
      exact wp_keepsRole_round h₁ (wp_of_keepsRole
        (.bind keepsRole_appendEntryLogPrepareAndCheck fun _ _ _ =>
          .bind keepsRole_processAppendEntriesOutcome fun _ _ _ => hreply _ _ _ _ _))
  rw [processAppendEntriesRequest, wp_bind, wp_getRi]
  cases processAppendEntriesRequestValidityCheck s.ri m with
  | error rc => exact hstay
  | ok u =>
    simp only [processBulkRecoveryCheck, wp_bind, wp_getRi, wp_ite, wp_pure, wp_modifyRi]
    exact ⟨fun _ => hvalid false, fun _ => ⟨fun _ => hvalid true, fun _ =>
      ⟨rfl, .of_role rfl, hmem, rfl⟩⟩⟩

theorem wp_processAppendEntriesReply_round {sender : Fin n} {m : AppendEntriesReplyMsg}
    (hmem : s.ri.store.db.hdr = s.ri.logHdr) :
    (processAppendEntriesReply sender m).wp (fun _ s' => RoundKept granted s s')
      (RoundLeft granted s) s := by
  have hstay : RoundKept granted s s := .refl hmem
  simp only [processAppendEntriesReply, wp_bind, wp_getRi, wp_ite, wp_pure, wp_whenever]
  refine ⟨fun _ => hstay, fun _ => ⟨fun _ => ⟨fun _ => wp_becomesFollower_round hstay,
    fun _ => hstay⟩, fun _ => ?_⟩⟩
  exact wp_keepsRole_round hstay (wp_of_keepsRole keepsRole_applyAppendEntriesReplyResult)

end RaftServer

end NiovaRaft
