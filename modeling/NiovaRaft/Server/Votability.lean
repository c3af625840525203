import NiovaRaft.Model.Cluster

/-!
# Who may vote for whom

A voter compares the last synced entry of a candidate with its own.  It wants neither the term nor
the index to be lower, in place of comparing the indexes only where the terms are the same.  Logs
are then ordered by both coordinates at once, which is a preorder but not a total one: of two logs,
one with the newer term and the other with more entries, neither is good enough for the other
server.
-/

namespace NiovaRaft

open RaftServer

variable {n : Nat}

/-- What `raft_server_become_candidate` asks of its peers, for a proposed term. -/
def voteRequestOf (candidate : RaftInstance n) (proposedTerm : Int) : VoteRequestMsg :=
  ⟨proposedTerm, candidate.newestSync.term, candidate.newestSync.index⟩

/-- `raft_server_process_vote_request_decide` at a voter, for the log of a candidate. -/
def grantsVote (voter candidate : RaftInstance n) (proposedTerm : Int) : Bool :=
  processVoteRequestDecide voter (voteRequestOf candidate proposedTerm) voter.newestSync

/-- The log of `ri'` ends at least where that of `ri` ends, in both coordinates. -/
def LogLe (ri ri' : RaftInstance n) : Prop :=
  ri.newestSync.term ≤ ri'.newestSync.term ∧ ri.newestSync.index ≤ ri'.newestSync.index

/-- One log ends in a newer term and the other at a higher index. -/
def Opposed (ri ri' : RaftInstance n) : Prop :=
  (ri.newestSync.term < ri'.newestSync.term ∧ ri'.newestSync.index < ri.newestSync.index) ∨
    (ri'.newestSync.term < ri.newestSync.term ∧ ri.newestSync.index < ri'.newestSync.index)

instance (ri ri' : RaftInstance n) : Decidable (Opposed ri ri') :=
  inferInstanceAs (Decidable (_ ∨ _))

theorem LogLe.trans {a b c : RaftInstance n} (hab : LogLe a b) (hbc : LogLe b c) : LogLe a c :=
  ⟨hab.1.trans hbc.1, hab.2.trans hbc.2⟩

/-- Two logs are comparable unless they are opposed. -/
theorem logLe_or_logLe_iff {a b : RaftInstance n} : LogLe a b ∨ LogLe b a ↔ ¬ Opposed a b := by
  unfold LogLe Opposed
  omega

/-- A vote is granted for a newer term and a log that is not behind. -/
theorem grantsVote_iff {voter candidate : RaftInstance n} {proposedTerm : Int} :
    grantsVote voter candidate proposedTerm = true ↔
      voter.logHdr.term < proposedTerm ∧ LogLe voter candidate := by
  have hdecide : grantsVote voter candidate proposedTerm = true ↔
      ¬ (proposedTerm ≤ voter.logHdr.term ∨ candidate.newestSync.term < voter.newestSync.term ∨
        candidate.newestSync.index < voter.newestSync.index) := by
    rw [grantsVote, processVoteRequestDecide, Bool.not_eq_true', decide_eq_false_iff_not]
    rfl
  rw [hdecide, LogLe]
  omega

/-- Of two servers, one votes for the other in a term that is new to both, exactly when their logs
are not opposed.  Who votes for a server whose voter it would vote for would vote for that one too,
in whatever terms. -/
theorem votability_of_logs (a b c : RaftInstance n) :
    (∀ term, a.logHdr.term < term → b.logHdr.term < term →
      (grantsVote a b term = true ∨ grantsVote b a term = true ↔ ¬ Opposed a b)) ∧
    (∀ term term' term'', grantsVote b a term = true → grantsVote c b term' = true →
      c.logHdr.term < term'' → grantsVote c a term'' = true) := by
  constructor
  · intro term ha hb
    calc grantsVote a b term = true ∨ grantsVote b a term = true
        ↔ LogLe a b ∨ LogLe b a := by simp only [grantsVote_iff, ha, hb, true_and]
      _ ↔ ¬ Opposed a b := logLe_or_logLe_iff
  · intro term term' term'' hba hcb hterm
    rw [grantsVote_iff] at hba hcb ⊢
    exact ⟨hterm, hcb.2.trans hba.2⟩

/-- Server 0 leads term 1, writes a request and syncs it.  Servers 1 and 2, which hold nothing of
it, elect server 1 in term 2, which syncs its marker. -/
def opposedLeaders : List (Event 3) :=
  [.expire 0, .deliver 1 0, .deliver 0 2, .deliver 1 3, .deliver 0 5, .write 0 [7], .sync 0,
    .crash 0, .expire 1, .deliver 2 7, .deliver 1 8, .deliver 2 10, .deliver 1 11, .sync 1]

/-- Server 2, whose log is empty, votes for either of the other two. -/
theorem votability_of_logs_opposedLeaders :
    (grantsVote ((afterRun opposedLeaders).servers 2) ((afterRun opposedLeaders).servers 0) 3 = true ∨
      grantsVote ((afterRun opposedLeaders).servers 0) ((afterRun opposedLeaders).servers 2) 3 =
        true) ∧
      ¬ Opposed ((afterRun opposedLeaders).servers 2) ((afterRun opposedLeaders).servers 0) := by
  have hno : ¬ Opposed ((afterRun opposedLeaders).servers 2)
      ((afterRun opposedLeaders).servers 0) := by decide +kernel
  exact ⟨((votability_of_logs _ _ ((afterRun opposedLeaders).servers 1)).1 3 (by decide +kernel)
    (by decide +kernel)).mpr hno, hno⟩

/-- Servers 0 and 1 are reached with logs for which each refuses the other in every term. -/
theorem opposedLeaders_refuse :
    @Cluster.Reach 3 sampleExternals Cluster.anyEvent threeServers (afterRun opposedLeaders) ∧
      ∀ term,
        grantsVote ((afterRun opposedLeaders).servers 0) ((afterRun opposedLeaders).servers 1) term =
          false ∧
        grantsVote ((afterRun opposedLeaders).servers 1) ((afterRun opposedLeaders).servers 0) term =
          false := by
  refine ⟨reach_afterRun _, fun term => ?_⟩
  have hopposed : Opposed ((afterRun opposedLeaders).servers 0)
      ((afterRun opposedLeaders).servers 1) := by decide +kernel
  have hno := mt logLe_or_logLe_iff.mp (not_not.mpr hopposed)
  constructor <;> rw [← Bool.not_eq_true, grantsVote_iff]
  · exact fun h => hno (.inl h.2)
  · exact fun h => hno (.inr h.2)

end NiovaRaft
