import NiovaRaft.Safety.LogMatching

/-!
# Election safety

A reply that grants a vote does not name the term of the vote.  A candidate that has moved on to
a later term still counts it, so that two servers may be elected in one term by three voters.
When every vote is counted in the term it was cast in, a term has one leader.
-/

namespace NiovaRaft

open Base.Replication Refinement

variable {n : Nat}

/-- A vote that a candidate would count was cast in the candidate's term. -/
def voteAnswersTerm (ri : RaftInstance n) (pkt : Packet n) : Bool :=
  match pkt.msg, pkt.cause with
  | .voteReply m, some (.voteRequest m') =>
      decide (m.votedGranted = true → ri.state = .candidate → m'.proposedTerm = ri.logHdr.term)
  | _, _ => true

/-- The message that is delivered, if any, is no vote of another term. -/
def VotesAnswerTerm (c : Cluster n) (e : Event n) : Prop :=
  (c.delivered e).all (voteAnswersTerm (c.servers e.server)) = true

instance : ∀ (c : Cluster n) (e : Event n), Decidable (VotesAnswerTerm c e) :=
  fun _ _ => inferInstanceAs (Decidable (_ = true))

theorem VotesAnswerTerm.counted {c : Cluster n} {e : Event n} (h : VotesAnswerTerm c e)
    {pkt : Packet n} (hdel : c.delivered e = some pkt) {m : VoteReplyMsg n}
    (hmsg : pkt.msg = .voteReply m) (hg : m.votedGranted = true)
    (hst : (c.servers e.server).state = .candidate) {m' : VoteRequestMsg}
    (hcause : pkt.cause = some (.voteRequest m')) :
    m'.proposedTerm = (c.servers e.server).logHdr.term := by
  rw [VotesAnswerTerm, hdel, Option.all_some, voteAnswersTerm, hmsg, hcause] at h
  exact of_decide_eq_true h hg hst

/-- Votes are counted in the term they were cast in. -/
def countedRules : Rules := ⟨True, False, False⟩

theorem VotesAnswerTerm.faithful {c : Cluster n} {e : Event n} (h : VotesAnswerTerm c e) :
    Faithful countedRules c e := by
  unfold Faithful
  cases e.action with
  | deliver k =>
    intro pkt hdel
    unfold Verified
    cases hmsg : pkt.msg with
    | voteReply m => exact fun _ hg hst m' hcause => h.counted hdel hmsg hg hst hcause
    | appendEntriesRequest m => exact fun h => h.elim
    | appendEntriesReply m => exact fun h => h.elim
    | _ => trivial
  | timer => exact fun h => h.elim
  | remoteSend => exact fun h => h.elim
  | _ => trivial

/-- What the history tells about leaders holds in the world. -/
theorem uniqueLeaders_of_unique {R : Rules} {c : Cluster n} {w : ClusterWorld n}
    (h : Coupled R c w) (hu : w.Unique) : c.UniqueLeaders :=
  fun p q t _ _ hp hq => hu p q t (h.history _ hp).1 (h.history _ hq).1

/-- Election safety. -/
theorem election_safety [Externals] {opts : Fin n → Options} {c : Cluster n}
    (h : Cluster.Reach VotesAnswerTerm opts c) : c.UniqueLeaders := by
  obtain ⟨w, hw⟩ := Refinement.Reach.coupled h (fun _ _ => VotesAnswerTerm.faithful)
    fun _ _ _ _ h => h.elim
  exact uniqueLeaders_of_unique hw (hw.reach.basic.unique trivial)

/-- An election in which every vote is counted in its term. -/
theorem election_safety_servedRequest :
    (0, Obs.leads 1 []) ∈ (afterRun servedRequest).history ∧
      (afterRun servedRequest).UniqueLeaders :=
  ⟨by decide +kernel,
    @election_safety 3 sampleExternals _ _ (reach_afterRun_of (by decide +kernel))⟩

/-- Server 1 votes for server 0 in term 1.  The vote arrives when server 0 stands for term 2, and
makes it the leader of term 2.  Server 2 then stands for term 2 and has the vote of server 1 in
that term. -/
def lateVote : List (Event 3) :=
  [.expire 0, .deliver 1 0, .deliver 0 2, .deliver 1 3, .expire 0, .deliver 2 7, .deliver 0 8,
    .deliver 0 5, .deliver 2 4, .expire 1, .expire 2, .deliver 1 15, .deliver 2 16, .deliver 1 18,
    .deliver 2 19]

/-- Two servers lead term 2. -/
theorem lateVote_two_leaders :
    @Cluster.Reach 3 sampleExternals Cluster.anyEvent threeServers (afterRun lateVote) ∧
      ¬ (afterRun lateVote).UniqueLeaders :=
  ⟨reach_afterRun _, by decide +kernel⟩

end NiovaRaft
