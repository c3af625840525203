import NiovaRaft.Safety.StateMachine
import NiovaRaft.Spec.Follower

/-!
# How far a follower commits

A request verifies the follower's log up to the entry it carries.  A follower may commit no
further than that, since what lies beyond may be of another leader.  The shortcut for requests
that are already stored commits up to the follower's own synced index instead.
-/

namespace NiovaRaft

open Base Base.Handler RaftServer

variable {n : Nat}

/-- The highest index that a request verifies against the leader's log: that of the entry before
the carried one, or that of the carried one when it is stored or found stored. -/
def highestVerified (ri : RaftInstance n) (m : AppendEntriesRequestMsg) : Int :=
  if AlreadyStored ri m then verifiedIdx m
  else if m.heartbeatMsg = true then m.prevLogIndex
  else m.prevLogIndex + 1

/-- After the request the commit index is at most what it was or what the request verified, and
it does not come to exceed the leader's. -/
def CommitBounded [Externals] (ri : RaftInstance n) (sender : Fin n)
    (m : AppendEntriesRequestMsg) : Prop :=
  ∀ out trace fuse s', processAppendEntriesRequest sender m ⟨ri, out, trace, fuse⟩ = .ok () s' →
    s'.ri.commitIdx ≤ max ri.commitIdx (highestVerified ri m) ∧
      (ri.commitIdx ≤ m.commitIndex → s'.ri.commitIdx ≤ m.commitIndex)

section

variable [Externals] {ri : RaftInstance n} {sender : Fin n} {m : AppendEntriesRequestMsg}

/-- A consistent follower keeps the bound exactly when the shortcut does. -/
theorem commitBounded_iff (hc : Consistent ri) (hf : ri.state = .follower) :
    CommitBounded ri sender m ↔ (m.entriesSz ≤ ri.entryMaxDataSize → ShortcutVerified ri m) := by
  constructor
  · intro h hfits hst
    have hwp : (processAppendEntriesRequest sender m).wp _ _ ⟨ri, [], [], none⟩ :=
      wp_processAppendEntriesRequest_of_shortcut hc hf rfl hfits hst
    cases hres : processAppendEntriesRequest sender m ⟨ri, [], [], none⟩ with
    | ok u s' =>
      have hcommit := wp_of_ok hres hwp
      obtain ⟨hle, -⟩ := h [] [] none s' hres
      rw [hcommit, highestVerified, if_pos hst.stored] at hle
      exact le_trans (le_max_right _ _) hle
    | abort s' => exact (wp_of_abort hres hwp).elim
  · intro h out trace fuse s' hres
    obtain ⟨r, -, hh⟩ := wp_of_ok hres
      (wp_processAppendEntriesRequest (s := ⟨ri, out, trace, fuse⟩) hc hf)
    cases hh with
    | ignored hcommit => exact ⟨by rw [hcommit]; exact le_max_left _ _, fun h => hcommit ▸ h⟩
    | marked hcommit => exact ⟨by rw [hcommit]; exact le_max_left _ _, fun h => hcommit ▸ h⟩
    | refused _ _ _ _ _ hsame =>
      exact ⟨by rw [hsame.commit]; exact le_max_left _ _, fun h => hsame.commit ▸ h⟩
    | stored hfits hst _ _ hcommit =>
      have hver := h hfits hst
      rw [hcommit, highestVerified, if_pos hst.stored]
      exact ⟨max_le (le_max_left _ _) hver, fun hle => max_le hle (min_le_left _ _)⟩
    | kept hheart _ _ hcommit =>
      have hge : m.prevLogIndex ≤ highestVerified ri m := by
        unfold highestVerified verifiedIdx
        split
        · split <;> omega
        · exact le_refl _
      rcases hcommit with hcommit | ⟨hcommit, hle⟩
      · exact ⟨by rw [hcommit]; exact le_max_left _ _, fun h => hcommit ▸ h⟩
      · exact ⟨by rw [hcommit]; exact le_max_of_le_right (le_trans hle hge),
          fun _ => le_of_eq hcommit⟩
    | appended hheart hterm _ _ hcommit =>
      have heq : highestVerified ri m = m.prevLogIndex + 1 := by
        unfold highestVerified verifiedIdx
        simp [hheart, hterm]
      rcases hcommit with hcommit | ⟨hcommit, hle⟩
      · exact ⟨by rw [hcommit]; exact le_max_left _ _, fun h => hcommit ▸ h⟩
      · exact ⟨by rw [hcommit, heq]; exact le_max_of_le_right hle, fun _ => le_of_eq hcommit⟩

/-- The bound at every reachable follower, for every request. -/
theorem follower_commit_bound {opts : Fin n → Options} {c : Cluster n}
    (h : Cluster.Reach Cluster.anyEvent opts c) {p : Fin n}
    (hrun : (c.servers p).procState = .running) (hf : (c.servers p).state = .follower) :
    CommitBounded (c.servers p) sender m ↔
      (m.entriesSz ≤ (c.servers p).entryMaxDataSize → ShortcutVerified (c.servers p) m) :=
  commitBounded_iff (h.consistent hrun) hf

end

/-- The request that server 0 sends last: the marker of term 1, with a commit index of 1. -/
def rewoundRequest : AppendEntriesRequestMsg :=
  { leaderTerm := 3, logTerm := 1, commitIndex := 1, lowestIndex := -1, chkptIndex := -1,
    prevLogTerm := 0, prevLogIndex := -1, prevIdxCrc := 7, thisIdxCrc := 7, sizeArr := [0],
    entriesSz := 0, numEntries := 1, heartbeatMsg := false, leaderChangeMarker := true,
    entryOutOfRange := false, entries := [] }

/-- With a commit index of 0, the request makes server 2 commit what it verifies. -/
theorem follower_commit_bound_lateRewind :
    @CommitBounded 3 sampleExternals ((afterRun lateRewind).servers 2) 0
      { rewoundRequest with commitIndex := 0 } :=
  (@follower_commit_bound 3 sampleExternals _ _ _ _ (reach_afterRun _) 2 (by decide +kernel)
    (by decide +kernel)).mpr (by decide +kernel)

/-- The request is on its way to server 2, a follower.  It verifies index 0, and server 2 commits
index 1. -/
theorem lateRewind_commits_unverified :
    @Cluster.Reach 3 sampleExternals Cluster.anyEvent threeServers (afterRun lateRewind) ∧
      (⟨0, 2, .appendEntriesRequest rewoundRequest, none⟩ : Packet 3) ∈ (afterRun lateRewind).net ∧
      ((afterRun lateRewind).servers 2).state = .follower ∧
      ¬ @CommitBounded 3 sampleExternals ((afterRun lateRewind).servers 2) 0 rewoundRequest := by
  have hrun : ((afterRun lateRewind).servers 2).procState = .running := by decide +kernel
  have hf : ((afterRun lateRewind).servers 2).state = .follower := by decide +kernel
  have hc := @Cluster.Reach.consistent 3 sampleExternals _ _ _ (reach_afterRun lateRewind) 2 hrun
  refine ⟨reach_afterRun _, by decide +kernel, hf, fun h => ?_⟩
  exact absurd ((@commitBounded_iff 3 sampleExternals _ _ _ hc hf).mp h) (by decide +kernel)

end NiovaRaft
