import NiovaRaft.Follower.CatchUp
import NiovaRaft.Spec.Leader
import NiovaRaft.Spec.Sender

/-!
# A leader that lets a follower catch up

The leader's slot for the follower stands at an index `k` of its log.  When the follower is due, and
nobody else is, the sender sends the request for entry `k`.  A reply that the logs differ moves the
slot back.  Any other one moves it on, and the leader may commit what a majority of its slots
reaches then.
-/

namespace NiovaRaft

open Base Base.Handler Base.LogRepair RaftServer

variable {n : Nat} {q : Fin n} {k : Nat}

/-! ## What the leader may commit -/

namespace RaftServer

variable {ri ri' : RaftInstance n}

/-- Higher slots do not lower the index that a majority reaches. -/
theorem committedIdx_mono (hself : ri'.self = ri.self) (hsync : ri'.newestSync = ri.newestSync)
    (hvote : ∀ p, p ≠ ri.self → FollowerInfo.commitVote (ri.followerInfo p) ≤
      FollowerInfo.commitVote (ri'.followerInfo p)) : committedIdx ri ≤ committedIdx ri' := by
  have hreached : n / 2 + 1 ≤ countReaching ri (committedIdx ri) :=
    le_committedIdx_iff.mp (le_refl _)
  refine le_committedIdx_iff.mpr (hreached.trans ?_)
  refine List.countP_mono_left fun p _ hreach => ?_
  simp only [decide_eq_true_eq] at hreach ⊢
  refine hreach.trans ?_
  by_cases hp : p = ri.self
  · subst hp
    rw [withSelf, withSelf, hself, RaftInstance.followerInfo_set, RaftInstance.followerInfo_set]
    simp [FollowerInfo.commitVote, selfFollowerInfo, hsync]
  · have hp' : p ≠ ri'.self := by rwa [hself]
    rw [withSelf, withSelf, RaftInstance.followerInfo_set_of_ne _ _ hp,
      RaftInstance.followerInfo_set_of_ne _ _ hp']
    exact hvote p hp

/-- The index depends on the slots of the others. -/
theorem committedIdx_congr (hself : ri'.self = ri.self) (hsync : ri'.newestSync = ri.newestSync)
    (hvote : ∀ p, p ≠ ri.self → FollowerInfo.commitVote (ri'.followerInfo p) =
      FollowerInfo.commitVote (ri.followerInfo p)) : committedIdx ri' = committedIdx ri := by
  refine le_antisymm ?_ ?_
  · refine committedIdx_mono hself.symm hsync.symm fun p hp => (hvote p ?_).le
    rwa [← hself]
  · exact committedIdx_mono hself hsync fun p hp => (hvote p hp).ge

/-- What the leader may commit when the follower acknowledges all of its log, as long as it reports
no more to be synced. -/
def mayCommit (ri : RaftInstance n) (q : Fin n) : Int :=
  committedIdx (ri.setFollowerInfo q
    { ri.followerInfo q with ackdIdx := (ri.followerInfo q).syncedIdx })

/-- The commit index cannot turn out to be too high. -/
def CommitHeld (ri : RaftInstance n) : Prop :=
  ri.commitIdx ≤ ri.leader.initialTermIdx ∨ ri.commitIdx ≤ committedIdx ri

instance (ri : RaftInstance n) : Decidable (CommitHeld ri) := inferInstanceAs (Decidable (_ ∨ _))

variable {s : Proc n} {D : Proc n → Prop}

end RaftServer

/-! ## The slot -/

/-- A leader whose slot for `q` stands at entry `k`.  The entry before it is not compacted. -/
structure Leading (q : Fin n) (k : Nat) (ri : RaftInstance n) : Prop where
  cons : Consistent ri
  leader : ri.state = .leader
  term : ri.leader.leaderTerm = ri.logHdr.term
  nextIdx : (ri.followerInfo q).nextIdx = k
  within : k ≤ ri.store.db.entries.length
  lowest : ri.lowestIdx ≤ 0 ∨ ri.lowestIdx < k
  cached : 0 ≤ (ri.followerInfo q).prevIdxTerm → 0 < k → ∃ re,
    ri.store.db.entries[k - 1]? = some re ∧ re.header.term = (ri.followerInfo q).prevIdxTerm ∧
      re.header.crc = (ri.followerInfo q).prevIdxCrc
  synced : -1 ≤ (ri.followerInfo q).syncedIdx
  commit : CommitHeld ri

/-- Only slots and the commit index have changed, and no slot but that of `q` and the leader's
own. -/
structure Tallied (q : Fin n) (ri ri' : RaftInstance n) : Prop where
  same : ri' =
    { ri with leader := { ri.leader with rfi := ri'.leader.rfi }, commitIdx := ri'.commitIdx }
  others : ∀ p, p ≠ q → p ≠ ri.self → ri'.followerInfo p = ri.followerInfo p

namespace Tallied

variable {ri ri' ri'' : RaftInstance n}

theorem self (h : Tallied q ri ri') : ri'.self = ri.self := by rw [h.same]

theorem newestSync (h : Tallied q ri ri') : ri'.newestSync = ri.newestSync := by rw [h.same]

theorem store (h : Tallied q ri ri') : ri'.store = ri.store := by rw [h.same]

theorem consistent (h : Tallied q ri ri') (hc : Consistent ri) : Consistent ri' := by
  rw [h.same]
  exact ⟨hc.entries, hc.unsync, hc.sync, hc.reaped, hc.applied⟩

theorem trans (h : Tallied q ri ri') (h' : Tallied q ri' ri'') : Tallied q ri ri'' := by
  refine ⟨?_, fun p hp hself => ?_⟩
  · rw [h'.same, h.same]
  · rw [h'.others p hp (by rwa [h.self]), h.others p hp hself]

theorem setFollowerInfo (ri : RaftInstance n) (q : Fin n) (rfi : FollowerInfo) :
    Tallied q ri (ri.setFollowerInfo q rfi) :=
  ⟨rfl, fun _ hp _ => RaftInstance.followerInfo_set_of_ne _ _ hp⟩

theorem withSelf (ri : RaftInstance n) (q : Fin n) (ci : Int) :
    Tallied q ri { withSelf ri with commitIdx := ci } :=
  ⟨rfl, fun _ _ hp => RaftInstance.followerInfo_set_of_ne _ _ hp⟩

/-- Where the slot of `q` votes no lower, the majority reaches no less. -/
theorem committedIdx_le (h : Tallied q ri ri')
    (hvote : FollowerInfo.commitVote (ri.followerInfo q) ≤
      FollowerInfo.commitVote (ri'.followerInfo q)) : committedIdx ri ≤ committedIdx ri' := by
  refine committedIdx_mono h.self h.newestSync fun p hp => ?_
  by_cases hpq : p = q
  · subst hpq
    exact hvote
  · rw [h.others p hpq hp]

/-- What the leader may commit depends on what `q` has reported to be synced. -/
theorem mayCommit_eq (h : Tallied q ri ri')
    (hsynced : (ri'.followerInfo q).syncedIdx = (ri.followerInfo q).syncedIdx) :
    mayCommit ri' q = mayCommit ri q := by
  refine @committedIdx_congr _ (ri.setFollowerInfo q _) _ h.self h.newestSync fun p hp => ?_
  by_cases hpq : p = q
  · subst hpq
    simp [FollowerInfo.commitVote, hsynced]
  · rw [RaftInstance.followerInfo_set_of_ne _ _ hpq, RaftInstance.followerInfo_set_of_ne _ _ hpq,
      h.others p hpq hp]

end Tallied

/-- The slot of `q` stands elsewhere now, and caches nothing. -/
theorem Leading.moveTo {ri ri' : RaftInstance n} {k' : Nat} (h : Leading q k ri)
    (ht : Tallied q ri ri') (hnext : (ri'.followerInfo q).nextIdx = k')
    (hwithin : k' ≤ ri.store.db.entries.length) (hlow : ri.lowestIdx ≤ 0 ∨ ri.lowestIdx < k')
    (hprev : (ri'.followerInfo q).prevIdxTerm = -1)
    (hsynced : (ri.followerInfo q).syncedIdx ≤ (ri'.followerInfo q).syncedIdx)
    (hcommit : CommitHeld ri') : Leading q k' ri' := by
  have hcons := ht.consistent h.cons
  have hold := h.synced
  refine ⟨hcons, ?_, ?_, hnext, ?_, ?_, fun h0 => ?_, hold.trans hsynced, hcommit⟩
  · rw [ht.same]
    exact h.leader
  · rw [ht.same]
    exact h.term
  · rw [ht.store]
    exact hwithin
  · rw [ht.same]
    exact hlow
  · rw [hprev] at h0
    omega

/-- A slot that says what the request for entry `k` names before it. -/
structure SlotReady (L : List Entry) (k : Nat) (rfi₀ rfi : FollowerInfo) : Prop where
  nextIdx : rfi.nextIdx = k
  ackdIdx : rfi.ackdIdx = rfi₀.ackdIdx
  syncedIdx : rfi.syncedIdx = rfi₀.syncedIdx
  first : k = 0 → rfi.prevIdxTerm = 0
  prev : ∀ re, 0 < k → L[k - 1]? = some re →
    rfi.prevIdxTerm = re.header.term ∧ rfi.prevIdxCrc = re.header.crc

/-- The leader goes on as before with a slot that stands where it did. -/
theorem Leading.setSlot {ri : RaftInstance n} {rfi : FollowerInfo} (h : Leading q k ri)
    (hnext : rfi.nextIdx = (ri.followerInfo q).nextIdx)
    (hackd : rfi.ackdIdx = (ri.followerInfo q).ackdIdx)
    (hsynced : rfi.syncedIdx = (ri.followerInfo q).syncedIdx)
    (hcached : 0 ≤ rfi.prevIdxTerm → 0 < k → ∃ re, ri.store.db.entries[k - 1]? = some re ∧
      re.header.term = rfi.prevIdxTerm ∧ re.header.crc = rfi.prevIdxCrc) :
    Leading q k (ri.setFollowerInfo q rfi) := by
  have hslot := RaftInstance.followerInfo_set ri q rfi
  have hcommitted : committedIdx (ri.setFollowerInfo q rfi) = committedIdx ri := by
    refine committedIdx_congr rfl rfl fun p _ => ?_
    by_cases hpq : p = q
    · subst hpq
      rw [hslot, FollowerInfo.commitVote, FollowerInfo.commitVote, hackd, hsynced]
    · rw [RaftInstance.followerInfo_set_of_ne _ _ hpq]
  refine ⟨⟨h.cons.entries, h.cons.unsync, h.cons.sync, h.cons.reaped, h.cons.applied⟩, h.leader,
    h.term, ?_, h.within, h.lowest, ?_, ?_, ?_⟩
  · rw [hslot, hnext]
    exact h.nextIdx
  · rw [hslot]
    exact hcached
  · rw [hslot, hsynced]
    exact h.synced
  · show _ ≤ _ ∨ _ ≤ _
    rw [hcommitted]
    exact h.commit

theorem Leading.ready {ri : RaftInstance n} {rfi : FollowerInfo} (h : Leading q k ri)
    (hready : SlotReady ri.store.db.entries k (ri.followerInfo q) rfi) :
    Leading q k (ri.setFollowerInfo q rfi) := by
  refine h.setSlot (hready.nextIdx.trans h.nextIdx.symm) hready.ackdIdx hready.syncedIdx
    fun _ hpos => ?_
  have hlt : k - 1 < ri.store.db.entries.length := by
    have := h.within
    omega
  have hget := List.getElem?_eq_getElem hlt
  obtain ⟨hterm, hcrc⟩ := hready.prev _ hpos hget
  exact ⟨_, hget, hterm.symm, hcrc.symm⟩

/-! ## The reply -/

namespace RaftServer

variable {s : Proc n} {D : Proc n → Prop} {r : AppendEntriesReplyMsg}

/-- What a reply or a sync index update that is taken does to the slot. -/
structure Reported (q : Fin n) (sli : Int) (ri ri' : RaftInstance n) : Prop
    extends Tallied q ri ri' where
  nextIdx : (ri'.followerInfo q).nextIdx = (ri.followerInfo q).nextIdx
  prevIdxTerm : (ri'.followerInfo q).prevIdxTerm = (ri.followerInfo q).prevIdxTerm
  le_synced : (ri.followerInfo q).syncedIdx ≤ (ri'.followerInfo q).syncedIdx
  synced_le : (ri'.followerInfo q).syncedIdx ≤ max (ri.followerInfo q).syncedIdx sli
  vote : FollowerInfo.commitVote (ri.followerInfo q) ≤
    FollowerInfo.commitVote (ri'.followerInfo q)
  commit : ri'.commitIdx = ri.commitIdx ∨ ri'.commitIdx = committedIdx ri'

/-- The commit index is not too high afterwards either. -/
theorem Reported.commitHeld {sli : Int} {ri ri' : RaftInstance n} (h : Reported q sli ri ri')
    (hheld : CommitHeld ri) : CommitHeld ri' := by
  have hinit : ri'.leader.initialTermIdx = ri.leader.initialTermIdx := by rw [h.same]
  have hmono := h.committedIdx_le h.vote
  rcases h.commit with hcommit | hcommit
  · rw [CommitHeld, hinit, hcommit]
    exact hheld.imp_right fun hle => hle.trans hmono
  · exact .inr hcommit.le

section Send

variable [Externals]

end Send

end RaftServer

end NiovaRaft
