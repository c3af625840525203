import NiovaRaft.Base.Quorum
import NiovaRaft.Model.Leader
import NiovaRaft.Spec.Log

/-!
# What the leader's commit rule computes

The index that the leader may commit is the highest one that a majority of its slots reaches,
its own slot being what it has synced.  `le_committedIdx_iff` says so in terms of counting.
-/

namespace NiovaRaft

variable {n : Nat}

namespace RaftServer

open Base Base.Handler

/-- The slots with the leader's own refreshed. -/
def withSelf (ri : RaftInstance n) : RaftInstance n :=
  ri.setFollowerInfo ri.self (selfFollowerInfo ri.newestSync (ri.followerInfo ri.self))

/-- The index that a majority of the slots reaches. -/
def committedIdx (ri : RaftInstance n) : Int :=
  getMajorityEntryIdx
    ((List.finRange n).map fun i => FollowerInfo.commitVote ((withSelf ri).followerInfo i))

/-- How many slots reach an index. -/
def countReaching (ri : RaftInstance n) (x : Int) : Nat :=
  (List.finRange n).countP fun i => x ≤ FollowerInfo.commitVote ((withSelf ri).followerInfo i)

/-- An index is at most the committed one when a majority of the slots reaches it. -/
theorem le_committedIdx_iff {ri : RaftInstance n} {x : Int} :
    x ≤ committedIdx ri ↔ n / 2 + 1 ≤ countReaching ri x := by
  have hpos : 0 < n := ri.self.pos
  have hlen : ((List.finRange n).map fun i =>
      FollowerInfo.commitVote ((withSelf ri).followerInfo i)).length = n := by
    rw [List.length_map, List.length_finRange]
  have hk : majorityIndexValue n < ((List.finRange n).map fun i =>
      FollowerInfo.commitVote ((withSelf ri).followerInfo i)).length := by
    rw [hlen, majorityIndexValue]
    omega
  rw [committedIdx, getMajorityEntryIdx, hlen, le_sorted_iff_le_countP hk, hlen, countReaching,
    List.countP_map, majorityIndexValue]
  have hsub : n - (n - n / 2 - 1) = n / 2 + 1 := by omega
  rw [hsub]
  rfl

variable {s : Proc n} {D : Proc n → Prop}

/-- `raft_server_leader_can_advance_commit_idx`: at least the initial index, and more than is
committed. -/
theorem wp_leaderCanAdvanceCommitIdx {syncThread : Bool} {Q : Int → Proc n → Prop}
    (hD : syncThread = false → committedIdx s.ri < s.ri.commitIdx → D { s with ri := withSelf s.ri })
    (hno : s.ri.state ≠ .leader → Q (-1) s)
    (hQ : s.ri.state = .leader → ∀ c, c = (if committedIdx s.ri ≥ s.ri.leader.initialTermIdx ∧
      committedIdx s.ri > s.ri.commitIdx then committedIdx s.ri else -1) →
      Q c { s with ri := withSelf s.ri }) :
    (leaderCanAdvanceCommitIdx syncThread).wp Q D s := by
  simp only [leaderCanAdvanceCommitIdx, leaderCalculateCommittedIdx, wp_bind, wp_getRi, wp_ite,
    wp_pure, wp_assert, wp_modifyRi, wp_fatalIf]
  refine ⟨fun h => hno (by simpa [RaftInstance.isLeader] using h), fun h => ⟨fun _ => ?_, fun h' => ?_⟩⟩
  · refine ⟨fun h => hD h.1 h.2.1, fun _ => hQ (by simpa [RaftInstance.isLeader] using h) _ rfl⟩
  · exact absurd (eq_true_of_ne_false h) h'

/-- The commit index moves to the index that a majority of the slots reaches. -/
structure Advances (ri : RaftInstance n) : Prop where
  init : ri.leader.initialTermIdx ≤ committedIdx ri
  commit : ri.commitIdx < committedIdx ri
  sync : committedIdx ri ≤ ri.newestSync.index

/-- `raft_server_leader_try_advance_commit_idx`: the commit index stays, or moves to an index
that a majority of the slots reaches. -/
theorem wp_leaderTryAdvanceCommitIdx {Q : Unit → Proc n → Prop}
    (hD : s.ri.state ≠ .leader → D s) (hD' : ¬ Advances s.ri → D { s with ri := withSelf s.ri })
    (hstay : committedIdx s.ri = -1 ∨ ¬ Advances s.ri → Q () { s with ri := withSelf s.ri })
    (hadv : s.ri.state = .leader → Advances s.ri → Q () { s with
        ri := { withSelf s.ri with commitIdx := committedIdx s.ri }
        trace := s.trace ++ [.commits .leader s.ri.logHdr.term (committedIdx s.ri) s.ri.log] }) :
    leaderTryAdvanceCommitIdx.wp Q D s := by
  simp only [leaderTryAdvanceCommitIdx, wp_bind, wp_getRi, wp_assert]
  refine ⟨fun hl => ?_, fun hl => hD (by simpa [RaftInstance.isLeader] using hl)⟩
  have hlead : s.ri.state = .leader := by simpa [RaftInstance.isLeader] using hl
  refine wp_leaderCanAdvanceCommitIdx (fun _ h => hD' fun hadv => ?_) (fun h => absurd hlead h)
    fun _ c hc => ?_
  · have := hadv.commit
    omega
  simp only [wp_whenever, advanceCommitIdx, wp_bind, wp_getRi, wp_modifyRi, wp_observe]
  split at hc
  · rename_i hcond
    subst hc
    refine ⟨fun hne => ⟨fun h => ?_, fun h => hstay (.inr ?_)⟩, fun heq => hstay (.inl ?_)⟩
    · have hfin := hadv hlead ⟨hcond.1, hcond.2, h.2⟩
      rw [← hlead] at hfin
      exact hfin
    · exact fun hadv => h ⟨hcond.2, hadv.sync⟩
    · exact not_not.mp heq
  · rename_i hcond
    refine ⟨fun hne => absurd hc hne, fun _ => hstay (.inr fun hadv => hcond ⟨?_, ?_⟩)⟩
    · exact hadv.init
    · exact hadv.commit

end RaftServer

end NiovaRaft
