import NiovaRaft.Base.Poll
import NiovaRaft.Leader.CatchUp
import NiovaRaft.Safety.LogMatching
import NiovaRaft.Spec.Campaign

/-!
# A majority that has the leader's log lets it commit

A leader has synced its log, and followers that make a majority with it have the same log.  They
sync it, each in its own time, and report what they have synced.  Reports may get lost, arrive in
any order and more than once.  When one of each follower has arrived that covers the whole log, the
leader has committed all of it.
-/

namespace NiovaRaft

open Base Base.Handler RaftServer

variable {n : Nat} {followers : Finset (Fin n)} {last : Int}

/-! ## The leader -/

/-- The leader commits what a majority of its slots reaches, unless it is from before its term. -/
def CommitCurrent (ri : RaftInstance n) : Prop :=
  committedIdx ri < ri.leader.initialTermIdx ∨ committedIdx ri ≤ ri.commitIdx

/-- A leader that waits for the reports of the followers.  Their slots stand at the end of its log,
which it has synced up to `last`. -/
structure Collecting (followers : Finset (Fin n)) (last : Int) (ri : RaftInstance n) : Prop where
  cons : Consistent ri
  leader : ri.state = .leader
  other : ri.self ∉ followers
  synced : ri.newestSync.index = last
  term : ri.newestSync.term = ri.logHdr.term
  low : -1 ≤ ri.commitIdx
  held : CommitHeld ri
  votes : ∀ p, p ≠ ri.self → FollowerInfo.commitVote (ri.followerInfo p) ≤ last
  slots : ∀ q ∈ followers, (ri.followerInfo q).nextIdx = last + 1 ∧
    (ri.followerInfo q).syncedIdx ≤ last + 1

/-- Only slots and the commit index have changed, and no slot votes lower, or past the log. -/
structure Collected (last : Int) (ri ri' : RaftInstance n) : Prop where
  same : ri' =
    { ri with leader := { ri.leader with rfi := ri'.leader.rfi }, commitIdx := ri'.commitIdx }
  nextIdx : ∀ p, p ≠ ri.self → (ri'.followerInfo p).nextIdx = (ri.followerInfo p).nextIdx
  synced : ∀ p, p ≠ ri.self →
    (ri'.followerInfo p).syncedIdx ≤ max (ri.followerInfo p).syncedIdx last
  le_vote : ∀ p, p ≠ ri.self → FollowerInfo.commitVote (ri.followerInfo p) ≤
    FollowerInfo.commitVote (ri'.followerInfo p)
  vote_le : ∀ p, p ≠ ri.self → FollowerInfo.commitVote (ri'.followerInfo p) ≤ last

theorem Collected.trans {ri ri' ri'' : RaftInstance n} (h : Collected last ri ri')
    (h' : Collected last ri' ri'') : Collected last ri ri'' := by
  have hself : ri'.self = ri.self := by rw [h.same]
  have hother : ∀ {p : Fin n}, p ≠ ri.self → p ≠ ri'.self := fun hp => by rwa [hself]
  refine ⟨?_, fun p hp => ?_, fun p hp => ?_, fun p hp => ?_, fun p hp => ?_⟩
  · rw [h'.same, h.same]
  · exact (h'.nextIdx p (hother hp)).trans (h.nextIdx p hp)
  · have hfirst := h.synced p hp
    have hthen := h'.synced p (hother hp)
    omega
  · exact (h.le_vote p hp).trans (h'.le_vote p (hother hp))
  · exact h'.vote_le p (hother hp)

namespace Collecting

variable {ri ri' : RaftInstance n}

theorem refl (h : Collecting followers last ri) : Collected last ri ri :=
  ⟨rfl, fun _ _ => rfl, fun _ _ => le_max_left _ _, fun _ _ => le_refl _, h.votes⟩

/-- What a majority reaches the leader has synced. -/
theorem committedIdx_le (h : Collecting followers last ri) : committedIdx ri ≤ last := by
  have hreached : n / 2 + 1 ≤ countReaching ri (committedIdx ri) :=
    le_committedIdx_iff.mp (le_refl _)
  have hpos : 0 < countReaching ri (committedIdx ri) := by omega
  obtain ⟨p, -, hp⟩ := List.countP_pos_iff.mp hpos
  rw [decide_eq_true_eq] at hp
  refine hp.trans ?_
  by_cases hself : p = ri.self
  · rw [hself, withSelf, RaftInstance.followerInfo_set]
    exact (min_le_right _ _).trans h.synced.le
  · rw [withSelf, RaftInstance.followerInfo_set_of_ne _ _ hself]
    exact h.votes p hself

/-- Slots that vote no lower do not make the commit index too high. -/
theorem commitHeld (h : Collecting followers last ri) (hc : Collected last ri ri')
    (hcommit : ri'.commitIdx = ri.commitIdx) : CommitHeld ri' := by
  have hself : ri'.self = ri.self := by rw [hc.same]
  have hsync : ri'.newestSync = ri.newestSync := by rw [hc.same]
  have hinit : ri'.leader.initialTermIdx = ri.leader.initialTermIdx := by rw [hc.same]
  have hmono : committedIdx ri ≤ committedIdx ri' := committedIdx_mono hself hsync hc.le_vote
  rw [CommitHeld, hcommit, hinit]
  exact h.held.imp_right fun hle => hle.trans hmono

theorem collected (h : Collecting followers last ri) (hc : Collected last ri ri')
    (hlow : -1 ≤ ri'.commitIdx) (hheld : CommitHeld ri') : Collecting followers last ri' := by
  have hself : ri'.self = ri.self := by rw [hc.same]
  refine ⟨?_, ?_, ?_, ?_, ?_, hlow, hheld, fun p hp => ?_, fun q hq => ?_⟩
  · rw [hc.same]
    exact ⟨h.cons.entries, h.cons.unsync, h.cons.sync, h.cons.reaped, h.cons.applied⟩
  · rw [hc.same]
    exact h.leader
  · rw [hself]
    exact h.other
  · rw [hc.same]
    exact h.synced
  · rw [hc.same]
    exact h.term
  · exact hc.vote_le p (hself ▸ hp)
  · have hne : q ≠ ri.self := fun heq => h.other (heq ▸ hq)
    obtain ⟨hnext, hsynced⟩ := h.slots q hq
    refine ⟨(hc.nextIdx q hne).trans hnext, (hc.synced q hne).trans ?_⟩
    omega

/-- A majority has reported the whole log. -/
theorem committed_of_reported (h : Collecting followers last ri) (hcurrent : CommitCurrent ri)
    (hinit : ri.leader.initialTermIdx ≤ last) (hmajority : Majority (insert ri.self followers))
    (hall : ∀ q ∈ followers, last ≤ FollowerInfo.commitVote (ri.followerInfo q)) :
    ri.commitIdx = last := by
  have hreach : last ≤ committedIdx ri := by
    rw [le_committedIdx_iff, countReaching, ← card_filter_eq_countP]
    have hsub : insert ri.self followers ⊆ Finset.univ.filter fun p =>
        decide (last ≤ FollowerInfo.commitVote ((withSelf ri).followerInfo p)) = true := by
      intro p hp
      rw [Finset.mem_filter, decide_eq_true_eq]
      refine ⟨Finset.mem_univ _, ?_⟩
      rcases Finset.mem_insert.mp hp with rfl | hp
      · rw [withSelf, RaftInstance.followerInfo_set]
        exact le_min h.synced.ge h.synced.ge
      · have hne : p ≠ ri.self := fun heq => h.other (heq ▸ hp)
        rw [withSelf, RaftInstance.followerInfo_set_of_ne _ _ hne]
        exact hall p hp
    have hcard := Finset.card_le_card hsub
    rw [Majority, Fintype.card_fin] at hmajority
    omega
  have hle := h.committedIdx_le
  rcases hcurrent with hcurrent | hcurrent
  · omega
  · rcases h.held with hheld | hheld <;> omega

end Collecting

namespace RaftServer

variable {s : Proc n} {D : Proc n → Prop} {q : Fin n}

/-- The leader looks at its commit index, and has what a majority reaches then. -/
theorem wp_leaderTryAdvanceCommitIdx_current {Q : Unit → Proc n → Prop}
    (h : Collecting followers last s.ri)
    (hQ : ∀ ri' trace, Collecting followers last ri' → Collected last s.ri ri' →
      (∀ p, p ≠ s.ri.self → ri'.followerInfo p = s.ri.followerInfo p) → CommitCurrent ri' →
      Q () { s with ri := ri', trace := trace }) :
    leaderTryAdvanceCommitIdx.wp Q D s := by
  have hlead := h.leader
  have hlow := h.low
  have hsync := h.committedIdx_le
  have hslot : ∀ ci p, p ≠ s.ri.self →
      RaftInstance.followerInfo { withSelf s.ri with commitIdx := ci } p =
        s.ri.followerInfo p := fun ci p hp => RaftInstance.followerInfo_set_of_ne _ _ hp
  -- whatever the commit index is then, the rest is the same
  have hdone : ∀ trace ci, (ci = s.ri.commitIdx ∨ ci = committedIdx s.ri) → -1 ≤ ci →
      (committedIdx s.ri < s.ri.leader.initialTermIdx ∨ committedIdx s.ri ≤ ci) →
      Q () { s with ri := { withSelf s.ri with commitIdx := ci }, trace := trace } := by
    intro trace ci hci hpos hcurrent
    have hcommitted : committedIdx { withSelf s.ri with commitIdx := ci } = committedIdx s.ri :=
      committedIdx_congr rfl rfl fun p hp => by rw [hslot ci p hp]
    have hheld : CommitHeld { withSelf s.ri with commitIdx := ci } := by
      show ci ≤ s.ri.leader.initialTermIdx ∨ ci ≤ committedIdx _
      rw [hcommitted]
      rcases hci with rfl | rfl
      · exact h.held
      · exact .inr (le_refl _)
    have hcollected : Collected last s.ri { withSelf s.ri with commitIdx := ci } := by
      refine ⟨rfl, fun p hp => ?_, fun p hp => ?_, fun p hp => ?_, fun p hp => ?_⟩
      all_goals rw [hslot ci p hp]
      · exact le_max_left _ _
      · exact h.votes p hp
    refine hQ _ trace (h.collected hcollected hpos hheld) hcollected (hslot ci) ?_
    show committedIdx _ < _ ∨ committedIdx _ ≤ ci
    rw [hcommitted]
    exact hcurrent
  have hisLeader : s.ri.isLeader = true := by simp [RaftInstance.isLeader, hlead]
  simp only [leaderTryAdvanceCommitIdx, wp_bind, wp_getRi, wp_assert]
  refine ⟨fun _ => ?_, fun hno => absurd hisLeader hno⟩
  simp only [leaderCanAdvanceCommitIdx, leaderCalculateCommittedIdx, advanceCommitIdx, wp_bind,
    wp_getRi, wp_assert, wp_ite, wp_pure, wp_modifyRi, wp_fatalIf, wp_whenever, wp_observe]
  refine ⟨fun hno => absurd hisLeader (by simp [hno]), fun _ => ⟨fun _ => ⟨fun hfatal => ?_,
    fun _ => ?_⟩, fun hno => absurd hisLeader hno⟩⟩
  · have hless : committedIdx s.ri < s.ri.commitIdx := hfatal.2.1
    have hinit : s.ri.leader.initialTermIdx ≤ committedIdx s.ri := hfatal.2.2
    rcases h.held with hheld | hheld <;> omega
  · set c : Int := if committedIdx s.ri ≥ s.ri.leader.initialTermIdx ∧
      committedIdx s.ri > s.ri.commitIdx then committedIdx s.ri else -1 with hc
    change (c ≠ -1 → ((s.ri.commitIdx < c ∧ s.ri.newestSync.index ≥ c) → _) ∧
      (¬ (s.ri.commitIdx < c ∧ s.ri.newestSync.index ≥ c) → _)) ∧ (¬ c ≠ -1 → _)
    have hsynced := h.synced
    refine ⟨fun hne => ⟨fun _ => ?_, fun hno => absurd ?_ hno⟩, fun hnone => ?_⟩
    · have hval : c = committedIdx s.ri := by
        rw [hc]
        exact if_pos (by_contra fun hcond => hne (if_neg hcond))
      exact hdone _ c (.inr hval) (by omega) (.inr hval.ge)
    · split at hc <;> omega
    · refine hdone s.trace s.ri.commitIdx (.inl rfl) hlow ?_
      split at hc <;> omega

/-- The leader takes a report. -/
theorem wp_tryUpdateFollowerSyncIdx_collects {sli : Int} {Q : Unit → Proc n → Prop}
    (h : Collecting followers last s.ri) (hcurrent : CommitCurrent s.ri) (hq : q ∈ followers)
    (hsli : sli ≤ last)
    (hQ : ∀ ri' trace, Collecting followers last ri' → Collected last s.ri ri' →
      CommitCurrent ri' → (sli = last → last ≤ FollowerInfo.commitVote (ri'.followerInfo q)) →
      Q () { s with ri := ri', trace := trace }) :
    (tryUpdateFollowerSyncIdx q s.ri.logHdr.term sli).wp Q D s := by
  have hne : q ≠ s.ri.self := fun heq => h.other (heq ▸ hq)
  obtain ⟨hnext, hsynced⟩ := h.slots q hq
  have hvote : min (s.ri.followerInfo q).ackdIdx (s.ri.followerInfo q).syncedIdx ≤ last :=
    h.votes q hne
  set ri₁ := s.ri.setFollowerInfo q (FollowerInfo.accept (s.ri.followerInfo q) sli) with hri₁
  have hslot : ri₁.followerInfo q = FollowerInfo.accept (s.ri.followerInfo q) sli :=
    RaftInstance.followerInfo_set _ _ _
  have hothers : ∀ p, p ≠ q → ri₁.followerInfo p = s.ri.followerInfo p := fun p hp =>
    RaftInstance.followerInfo_set_of_ne _ _ hp
  have hcollected : Collected last s.ri ri₁ := by
    refine ⟨rfl, fun p hp => ?_, fun p hp => ?_, fun p hp => ?_, fun p hp => ?_⟩
    all_goals by_cases hpq : p = q
    · rw [hpq, hslot]
      rfl
    · rw [hothers p hpq]
    · rw [hpq, hslot]
      exact max_le_max_left _ hsli
    · rw [hothers p hpq]
      exact le_max_left _ _
    · rw [hpq, hslot]
      exact min_le_min (le_max_left _ _) (le_max_left _ _)
    · rw [hothers p hpq]
    · rw [hpq, hslot, FollowerInfo.commitVote, FollowerInfo.accept]
      dsimp only
      omega
    · rw [hothers p hpq]
      exact h.votes p hp
  have h₁ := h.collected hcollected h.low (h.commitHeld hcollected rfl)
  -- a report of the whole log
  have hreported : sli = last → last ≤ FollowerInfo.commitVote (ri₁.followerInfo q) := by
    intro hall
    rw [hslot, FollowerInfo.commitVote, FollowerInfo.accept]
    dsimp only
    omega
  simp only [tryUpdateFollowerSyncIdx, wp_bind, wp_getRi, wp_whenever, wp_modifyRi]
  refine ⟨fun _ => ⟨fun _ => ?_, fun hsame => ?_⟩, fun hno => absurd ⟨h.term.symm, ?_⟩ hno⟩
  · refine wp_leaderTryAdvanceCommitIdx_current (s := { s with ri := ri₁ }) h₁
      fun ri' trace h' hc' hsame hcurrent' => ?_
    refine hQ ri' trace h' (hcollected.trans hc') hcurrent' fun hall => ?_
    rw [hsame q hne]
    exact hreported hall
  · refine hQ ri₁ s.trace h₁ hcollected ?_ hreported
    have hcommitted : committedIdx ri₁ = committedIdx s.ri := by
      refine committedIdx_congr rfl rfl fun p _ => ?_
      by_cases hpq : p = q
      · rw [hpq, hslot, FollowerInfo.commitVote, FollowerInfo.commitVote, FollowerInfo.accept]
        dsimp only
        omega
      · rw [hothers p hpq]
    show committedIdx ri₁ < _ ∨ committedIdx ri₁ ≤ _
    rw [hcommitted]
    exact hcurrent
  · show (s.ri.followerInfo q).syncedIdx ≤ (s.ri.followerInfo q).nextIdx
    omega

/-- `raft_server_process_sync_idx_update`, for a report of entries that the leader has. -/
theorem wp_processSyncIdxUpdate_collects {m : SyncIdxUpdateMsg} {Q : Unit → Proc n → Prop}
    (h : Collecting followers last s.ri) (hcurrent : CommitCurrent s.ri) (hq : q ∈ followers)
    (hsli : m.syncedLogIndex ≤ last)
    (hQ : ∀ ri' trace, Collecting followers last ri' → Collected last s.ri ri' →
      CommitCurrent ri' → (m = ⟨last, s.ri.logHdr.term⟩ →
        last ≤ FollowerInfo.commitVote (ri'.followerInfo q)) →
      Q () { s with ri := ri', trace := trace }) :
    (processSyncIdxUpdate q m).wp Q D s := by
  have hisLeader : s.ri.isLeader = true := by simp [RaftInstance.isLeader, h.leader]
  simp only [processSyncIdxUpdate, wp_bind, wp_getRi, wp_whenever]
  refine ⟨fun hterm => ?_, fun hno => ?_⟩
  · rw [hterm.2]
    refine wp_tryUpdateFollowerSyncIdx_collects h hcurrent hq hsli fun ri' trace h' hc' hcur hrep =>
      hQ ri' trace h' hc' hcur fun hall => hrep ?_
    rw [hall]
  · refine hQ s.ri s.trace h h.refl hcurrent fun hall => absurd ⟨hisLeader, ?_⟩ hno
    rw [hall]

/-- `raft_server_commit_idx_adv_evp_cb` at a leader. -/
theorem wp_commitIdxAdvEvpCb_current {Q : Unit → Proc n → Prop}
    (h : Collecting followers last s.ri)
    (hQ : ∀ ri' trace, Collecting followers last ri' → Collected last s.ri ri' →
      CommitCurrent ri' → Q () { s with ri := ri', trace := trace }) :
    commitIdxAdvEvpCb.wp Q D s := by
  have hisLeader : s.ri.isLeader = true := by simp [RaftInstance.isLeader, h.leader]
  simp only [commitIdxAdvEvpCb, wp_bind, wp_getRi, wp_whenever]
  refine ⟨fun _ => ?_, fun hno => absurd hisLeader hno⟩
  exact wp_leaderTryAdvanceCommitIdx_current h fun ri' trace h' hc' _ hcur =>
    hQ ri' trace h' hc' hcur

end RaftServer

/-! ## The followers -/

/-- A follower of `l` with the same log. -/
structure Reporting (l : Fin n) (L : List Entry) (ri : RaftInstance n) : Prop where
  cons : Consistent ri
  follower : ri.state = .follower
  follows : ri.csnLeader = some l
  other : l ≠ ri.self
  serves : Cluster.serves ri = true
  log : ri.store.db.entries = L
  async : ri.doesSynchronousWrites = false

theorem Reporting.flushed {l : Fin n} {L : List Entry} {ri : RaftInstance n}
    (h : Reporting l L ri) : Reporting l L ri.flushed := by
  have hmoved := Unmoved.flushed ri
  refine ⟨h.cons.flushed, h.follower, h.follows, ?_, ?_, ?_, h.async⟩
  · rw [hmoved.self]
    exact h.other
  · rw [Cluster.serves, hmoved.procState, hmoved.bulk]
    exact h.serves
  · rw [hmoved.entries]
    exact h.log

/-- It reports nothing that its leader does not have. -/
theorem Reporting.sync_le {l : Fin n} {L : List Entry} {ri : RaftInstance n}
    (h : Reporting l L ri) : ri.newestSync.index ≤ L.length - 1 := by
  have hle := h.cons.sync_index_le
  rw [h.cons.unsync_index, h.log] at hle
  exact hle

namespace RaftServer

variable {s : Proc n} {D : Proc n → Prop} {l : Fin n} {L : List Entry}

theorem wp_syncThread_reporting {Q : Unit → Proc n → Prop} (h : Reporting l L s.ri)
    (hfuse : s.fuse = none)
    (hQ : ∀ ri', Reporting l L ri' → Q () { s with ri := ri' }) : syncThread.wp Q D s := by
  have hdone : ∀ s' : Proc n, s'.ri.state = .follower → Q () s' →
      (leaderCanAdvanceCommitIdx true).wp (fun _ s' => Q () s') D s' := by
    intro s' hfollower hQ'
    refine wp_leaderCanAdvanceCommitIdx (fun h => (by cases h)) (fun _ => hQ') fun hlead => ?_
    cases hfollower.symm.trans hlead
  simp only [syncThread, wp_bind, wp_getRi, wp_whenever, wp_pure]
  refine ⟨fun _ => wp_hasUnsyncedEntries_of_consistent h.cons ⟨fun _ => ?_, fun _ => hQ _ h⟩,
    fun _ => hQ _ h⟩
  refine wp_backendSyncPending h.cons (fun hno => absurd hfuse hno)
    (fun _ => hdone s h.follower (hQ _ h)) fun fuse hnone => ?_
  rw [hnone hfuse, ← hfuse]
  exact hdone { s with ri := s.ri.flushed } h.follower (hQ s.ri.flushed h.flushed)

theorem wp_remoteSendEvpCb_reporting [Externals] {clock : SendClock n} {Q : Unit → Proc n → Prop}
    (h : Reporting l L s.ri)
    (hQ : Q () { s with out := s.out ++
      [(l, .syncIdxUpdate ⟨s.ri.newestSync.index, s.ri.newestSync.term⟩)] }) :
    (remoteSendEvpCb clock).wp Q D s := by
  have hleader : ¬ s.ri.isLeader = true := by simp [RaftInstance.isLeader, h.follower]
  have hfollower : s.ri.isFollower = true := by simp [RaftInstance.isFollower, h.follower]
  simp only [remoteSendEvpCb, followerSendSyncIdx, wp_bind, wp_getRi, wp_ite, wp_whenever,
    h.follows, wp_sendMsg_some]
  refine ⟨fun hlead => absurd hlead hleader, fun _ => ⟨fun _ => ⟨fun _ => hQ, fun hno => ?_⟩,
    fun hno => absurd hfollower hno⟩⟩
  exact absurd ⟨hfollower, h.async, fun heq => h.other (Option.some.inj heq)⟩ hno

end RaftServer

/-! ## Reports in a cluster -/

variable {l : Fin n} {c₀ c : Cluster n} {arrived : List Nat}

/-- The newest entry of the leader's log. -/
def Cluster.newestIdx (c : Cluster n) (l : Fin n) : Int :=
  (c.servers l).store.db.entries.length - 1

/-- A leader that has synced its log, and followers that have the log too. -/
structure Awaiting (l : Fin n) (followers : Finset (Fin n)) (c : Cluster n) : Prop where
  collecting : Collecting followers (c.newestIdx l) (c.servers l)
  self : (c.servers l).self = l
  serves : Cluster.serves (c.servers l) = true
  init : (c.servers l).leader.initialTermIdx ≤ c.newestIdx l
  majority : Majority (insert l followers)
  reporting : ∀ q ∈ followers, Reporting l (c.servers l).store.db.entries (c.servers q)

/-- The report that all of the log is synced. -/
def Cluster.fullReport (c : Cluster n) (l : Fin n) : RpcMsg n :=
  .syncIdxUpdate ⟨c.newestIdx l, (c.servers l).logHdr.term⟩

/-- The leader looks at its commit index, and the followers sync and report.  Their messages at the
places in the list have arrived so far. -/
inductive Committing [Externals] (l : Fin n) (followers : Finset (Fin n)) (c₀ : Cluster n) :
    Cluster n → List Nat → Prop
  | starts : Committing l followers c₀ (c₀.step ⟨l, .commitIdxAdv, none, 0⟩) []
  | others {c : Cluster n} {arrived : List Nat} (e : Event n) (hl : e.server ≠ l)
      (hq : e.server ∉ followers) (h : Committing l followers c₀ c arrived) :
      Committing l followers c₀ (c.step e) arrived
  | looks {c : Cluster n} {arrived : List Nat} (h : Committing l followers c₀ c arrived) :
      Committing l followers c₀ (c.step ⟨l, .commitIdxAdv, none, 0⟩) arrived
  | syncs {c : Cluster n} {arrived : List Nat} {q : Fin n} (hq : q ∈ followers)
      (h : Committing l followers c₀ c arrived) :
      Committing l followers c₀ (c.step ⟨q, .syncThread, none, 0⟩) arrived
  | reports {c : Cluster n} {arrived : List Nat} {q : Fin n} (hq : q ∈ followers)
      (clock : SendClock n) (h : Committing l followers c₀ c arrived) :
      Committing l followers c₀ (c.step ⟨q, .remoteSend clock, none, 0⟩) arrived
  | arrives {c : Cluster n} {arrived : List Nat} {i : Nat} {pkt : Packet n}
      (hi : c₀.net.length ≤ i) (hnet : c.net[i]? = some pkt) (hsrc : pkt.src ∈ followers)
      (hdst : pkt.dst = l) (h : Committing l followers c₀ c arrived) :
      Committing l followers c₀ (c.step ⟨l, .deliver i, none, 0⟩) (i :: arrived)

/-- How far the leader and the followers have come. -/
structure Gathering (l : Fin n) (followers : Finset (Fin n)) (c₀ c : Cluster n)
    (arrived : List Nat) : Prop where
  begun : c₀.net.length ≤ c.net.length
  collecting : Collecting followers (c₀.newestIdx l) (c.servers l)
  current : CommitCurrent (c.servers l)
  collected : Collected (c₀.newestIdx l) (c₀.servers l) (c.servers l)
  reporting : ∀ q ∈ followers, Reporting l (c₀.servers l).store.db.entries (c.servers q)
  sent : ∀ pkt ∈ c.net.drop c₀.net.length, pkt.src ∈ followers → pkt.dst = l →
    ∃ m, pkt.msg = .syncIdxUpdate m ∧ m.syncedLogIndex ≤ c₀.newestIdx l
  counted : ∀ i ∈ arrived, ∀ pkt, c.net[i]? = some pkt → pkt.src ∈ followers →
    pkt.msg = c₀.fullReport l →
      c₀.newestIdx l ≤ FollowerInfo.commitVote ((c.servers l).followerInfo pkt.src)
  placed : ∀ i ∈ arrived, i < c.net.length

theorem Awaiting.other (h : Awaiting l followers c₀) : l ∉ followers :=
  h.self ▸ h.collecting.other

namespace Gathering

variable {c' : Cluster n} {ms : List (Packet n)}

/-- The followers send reports at most, and the leader gets one or none. -/
theorem next (h : Gathering l followers c₀ c arrived) {arrived' : List Nat}
    (hnet : c'.net = c.net ++ ms) (hcollecting : Collecting followers (c₀.newestIdx l) (c'.servers l))
    (hcurrent : CommitCurrent (c'.servers l))
    (hcollected : Collected (c₀.newestIdx l) (c.servers l) (c'.servers l))
    (hreporting : ∀ q ∈ followers,
      Reporting l (c₀.servers l).store.db.entries (c'.servers q))
    (hsent : ∀ pkt ∈ ms, pkt.src ∈ followers → pkt.dst = l →
      ∃ m, pkt.msg = .syncIdxUpdate m ∧ m.syncedLogIndex ≤ c₀.newestIdx l)
    (hplaced : ∀ i ∈ arrived', i < c.net.length)
    (hcounted : ∀ i ∈ arrived', i ∉ arrived → ∀ pkt, c.net[i]? = some pkt →
      pkt.src ∈ followers → pkt.msg = c₀.fullReport l →
        c₀.newestIdx l ≤ FollowerInfo.commitVote ((c'.servers l).followerInfo pkt.src)) :
    Gathering l followers c₀ c' arrived' := by
  have hself : (c.servers l).self = (c'.servers l).self := by rw [hcollected.same]
  refine ⟨?_, hcollecting, hcurrent, h.collected.trans hcollected, hreporting, fun pkt hpkt => ?_,
    fun i hi pkt hpkt hsrc hmsg => ?_, fun i hi => ?_⟩
  · rw [hnet, List.length_append]
    exact Nat.le_add_right_of_le h.begun
  · rw [hnet, List.drop_append_of_le_length h.begun] at hpkt
    rcases List.mem_append.mp hpkt with hpkt | hpkt
    · exact h.sent pkt hpkt
    · exact hsent pkt hpkt
  · rw [hnet, List.getElem?_append_left (hplaced i hi)] at hpkt
    by_cases hold : i ∈ arrived
    · have hne : pkt.src ≠ (c.servers l).self := fun heq => h.collecting.other (heq ▸ hsrc)
      exact (h.counted i hold pkt hpkt hsrc hmsg).trans (hcollected.le_vote _ hne)
    · exact hcounted i hi hold pkt hpkt hsrc hmsg
  · rw [hnet, List.length_append]
    exact Nat.lt_add_right _ (hplaced i hi)

section Steps

variable [Externals]

/-- Nothing happens to the leader and the followers. -/
theorem others (h : Gathering l followers c₀ c arrived) {e : Event n} (hl : e.server ≠ l)
    (hq : e.server ∉ followers) : Gathering l followers c₀ (c.step e) arrived := by
  obtain ⟨ms, hnet, hsrc⟩ := Cluster.net_step c e
  have hsame : (c.step e).servers l = c.servers l := Cluster.step_servers_of_ne (Ne.symm hl)
  refine h.next hnet ?_ ?_ ?_ (fun q hqf => ?_) (fun pkt hpkt hf => ?_) h.placed
    fun i hi hnew => absurd hi hnew
  · rw [hsame]
    exact h.collecting
  · rw [hsame]
    exact h.current
  · rw [hsame]
    exact h.collecting.refl
  · rw [Cluster.step_servers_of_ne fun heq => hq (heq ▸ hqf)]
    exact h.reporting q hqf
  · exact absurd (hsrc pkt hpkt ▸ hf) hq

/-- A follower syncs or reports. -/
theorem follower (h : Gathering l followers c₀ c arrived) (ha : Awaiting l followers c₀)
    {e : Event n} (hq : e.server ∈ followers)
    (hwp : (c.handler e).wp (fun _ s => Reporting l (c₀.servers l).store.db.entries s.ri ∧
        ∀ msg ∈ s.out, msg.1 = l → ∃ m, msg.2 = .syncIdxUpdate m ∧
          m.syncedLogIndex ≤ c₀.newestIdx l) (fun _ => False) (c.proc e)) :
    Gathering l followers c₀ (c.step e) arrived := by
  obtain ⟨s, ⟨hreporting, hout⟩, hservers, hnet⟩ :=
    Cluster.exists_step_of_wp (h.reporting _ hq).serves hwp
  have hsame : (c.step e).servers l = c.servers l :=
    Cluster.step_servers_of_ne fun heq => ha.other (heq ▸ hq)
  refine h.next hnet ?_ ?_ ?_ (fun q hqf => ?_) (fun pkt hpkt _ hdst => ?_) h.placed
    fun i hi hnew => absurd hi hnew
  · rw [hsame]
    exact h.collecting
  · rw [hsame]
    exact h.current
  · rw [hsame]
    exact h.collecting.refl
  · by_cases heq : q = e.server
    · rw [heq, hservers]
      exact hreporting
    · rw [Cluster.step_servers_of_ne heq]
      exact h.reporting q hqf
  · obtain ⟨msg, hmsg, rfl⟩ := List.mem_map.mp hpkt
    exact hout msg hmsg hdst

/-- The leader looks at its commit index, or gets a report. -/
theorem leader (h : Gathering l followers c₀ c arrived) (ha : Awaiting l followers c₀)
    {e : Event n} {arrived' : List Nat} (he : e.server = l)
    (hplaced : ∀ i ∈ arrived', i < c.net.length)
    (hwp : (c.handler e).wp (fun _ s => Collecting followers (c₀.newestIdx l) s.ri ∧
        CommitCurrent s.ri ∧ Collected (c₀.newestIdx l) (c.servers l) s.ri ∧ s.out = [] ∧
        ∀ i ∈ arrived', i ∉ arrived → ∀ pkt, c.net[i]? = some pkt → pkt.src ∈ followers →
          pkt.msg = c₀.fullReport l →
            c₀.newestIdx l ≤ FollowerInfo.commitVote (s.ri.followerInfo pkt.src))
        (fun _ => False) (c.proc e)) :
    Gathering l followers c₀ (c.step e) arrived' := by
  have hserves : Cluster.serves (c.servers e.server) = true := by
    rw [he, h.collected.same]
    exact ha.serves
  obtain ⟨s, ⟨hcollecting, hcurrent, hcollected, hout, hcounted⟩, hservers, hnet⟩ :=
    Cluster.exists_step_of_wp hserves hwp
  rw [he] at hservers
  rw [hout] at hnet
  refine h.next hnet ?_ ?_ ?_ (fun q hq => ?_) (fun pkt hpkt => (by cases hpkt)) hplaced
    fun i hi hnew pkt hpkt hsrc hmsg => ?_
  · rw [hservers]
    exact hcollecting
  · rw [hservers]
    exact hcurrent
  · rw [hservers]
    exact hcollected
  · rw [Cluster.step_servers_of_ne fun heq => ha.other (he ▸ heq ▸ hq)]
    exact h.reporting q hq
  · rw [hservers]
    exact hcounted i hi hnew pkt hpkt hsrc hmsg

theorem looks (h : Gathering l followers c₀ c arrived) (ha : Awaiting l followers c₀) :
    Gathering l followers c₀ (c.step ⟨l, .commitIdxAdv, none, 0⟩) arrived := by
  refine h.leader ha rfl h.placed ?_
  refine wp_commitIdxAdvEvpCb_current (s := c.proc _) h.collecting fun ri' trace h' hc' hcur => ?_
  exact ⟨h', hcur, hc', rfl, fun i hi hnew => absurd hi hnew⟩

theorem syncs (h : Gathering l followers c₀ c arrived) (ha : Awaiting l followers c₀) {q : Fin n}
    (hq : q ∈ followers) :
    Gathering l followers c₀ (c.step ⟨q, .syncThread, none, 0⟩) arrived := by
  refine h.follower ha hq ?_
  refine wp_syncThread_reporting (s := c.proc _) (h.reporting q hq) rfl fun ri' h' => ?_
  exact ⟨h', fun msg hmsg => (by cases hmsg)⟩

theorem reports (h : Gathering l followers c₀ c arrived) (ha : Awaiting l followers c₀) {q : Fin n}
    (hq : q ∈ followers) (clock : SendClock n) :
    Gathering l followers c₀ (c.step ⟨q, .remoteSend clock, none, 0⟩) arrived := by
  have hr := h.reporting q hq
  refine h.follower ha hq ?_
  refine wp_remoteSendEvpCb_reporting (s := c.proc _) hr ⟨hr, fun msg hmsg _ => ?_⟩
  rw [List.mem_singleton.mp hmsg]
  exact ⟨_, rfl, hr.sync_le⟩

/-- The leader gets a report. -/
theorem arrives (h : Gathering l followers c₀ c arrived) (ha : Awaiting l followers c₀) {i : Nat}
    {pkt : Packet n} (hi : c₀.net.length ≤ i) (hnet : c.net[i]? = some pkt)
    (hsrc : pkt.src ∈ followers) (hdst : pkt.dst = l) :
    Gathering l followers c₀ (c.step ⟨l, .deliver i, none, 0⟩) (i :: arrived) := by
  obtain ⟨m, hmsg, hsli⟩ := h.sent pkt (mem_drop_of_getElem? hi hnet) hsrc hdst
  have hterm : (c.servers l).logHdr.term = (c₀.servers l).logHdr.term := by
    rw [h.collected.same]
  have hlt := (List.getElem?_eq_some_iff.mp hnet).1
  refine h.leader ha rfl (fun j hj => ?_) ?_
  · rcases List.mem_cons.mp hj with rfl | hj
    · exact hlt
    · exact h.placed j hj
  · rw [Cluster.handler_of_delivered (Cluster.delivered_of_getElem? hnet hdst), hmsg]
    refine wp_processSyncIdxUpdate_collects (s := c.proc _) h.collecting h.current hsrc hsli
      fun ri' trace h' hc' hcur hreported => ⟨h', hcur, hc', rfl, fun j hj hnew pkt' hpkt' _ hfull => ?_⟩
    rcases List.mem_cons.mp hj with rfl | hj
    · cases hnet.symm.trans hpkt'
      have heq : RpcMsg.syncIdxUpdate m = c₀.fullReport l := hmsg.symm.trans hfull
      refine hreported ?_
      cases heq
      exact congrArg _ hterm.symm
    · exact absurd hj hnew

/-- The leader looks at its commit index for the first time. -/
theorem starts (ha : Awaiting l followers c₀) :
    Gathering l followers c₀ (c₀.step ⟨l, .commitIdxAdv, none, 0⟩) [] := by
  have hwp : (c₀.handler ⟨l, .commitIdxAdv, none, 0⟩).wp (fun _ s =>
      Collecting followers (c₀.newestIdx l) s.ri ∧ CommitCurrent s.ri ∧
        Collected (c₀.newestIdx l) (c₀.servers l) s.ri ∧ s.out = []) (fun _ => False)
      (c₀.proc ⟨l, .commitIdxAdv, none, 0⟩) := by
    refine wp_commitIdxAdvEvpCb_current (s := c₀.proc _) ha.collecting fun ri' trace h' hc' hcur => ?_
    exact ⟨h', hcur, hc', rfl⟩
  obtain ⟨s, ⟨hcollecting, hcurrent, hcollected, hout⟩, hservers, hnet⟩ :=
    Cluster.exists_step_of_wp ha.serves hwp
  have hsame : (c₀.step ⟨l, .commitIdxAdv, none, 0⟩).net = c₀.net := by
    rw [hnet, hout]
    exact List.append_nil _
  refine ⟨?_, ?_, ?_, ?_, fun q hq => ?_, fun pkt hpkt => ?_, fun i hi => (by cases hi),
    fun i hi => (by cases hi)⟩
  · rw [hsame]
  · rw [hservers]
    exact hcollecting
  · rw [hservers]
    exact hcurrent
  · rw [hservers]
    exact hcollected
  · have hne : q ≠ l := fun heq => ha.other (heq ▸ hq)
    rw [Cluster.step_servers_of_ne hne]
    exact ha.reporting q hq
  · rw [hsame, List.drop_length] at hpkt
    cases hpkt

end Steps

end Gathering

section Commits

variable [Externals]

theorem Committing.gathering (h : Committing l followers c₀ c arrived)
    (ha : Awaiting l followers c₀) : Gathering l followers c₀ c arrived := by
  induction h with
  | starts => exact .starts ha
  | others e hl hq _ ih => exact ih.others hl hq
  | looks _ ih => exact ih.looks ha
  | syncs hq _ ih => exact ih.syncs ha hq
  | reports hq clock _ ih => exact ih.reports ha hq clock
  | arrives hi hnet hsrc hdst _ ih => exact ih.arrives ha hi hnet hsrc hdst

/-- A leader that has committed all of the log that it had. -/
structure CommittedAll (l : Fin n) (c c' : Cluster n) : Prop where
  leads : (c'.servers l).state = .leader
  term : (c'.servers l).logHdr.term = (c.servers l).logHdr.term
  log : (c'.servers l).store.db.entries = (c.servers l).store.db.entries
  committed : (c'.servers l).commitIdx = c.newestIdx l

/-- Once a report of the whole log has arrived of each of the followers, the leader has committed
it. -/
theorem leader_commits_log (ha : Awaiting l followers c₀)
    (h : Committing l followers c₀ c arrived)
    (hall : ∀ q ∈ followers, ∃ i ∈ arrived, ∃ pkt, c.net[i]? = some pkt ∧ pkt.src = q ∧
      pkt.msg = c₀.fullReport l) : CommittedAll l c₀ c := by
  have hg := h.gathering ha
  have hsame := hg.collected.same
  refine ⟨hg.collecting.leader, ?_, ?_, ?_⟩
  · rw [hsame]
  · rw [hsame]
  · refine hg.collecting.committed_of_reported hg.current ?_ ?_ fun q hq => ?_
    · rw [hsame]
      exact ha.init
    · rw [hsame, ha.self]
      exact ha.majority
    · obtain ⟨i, hi, pkt, hpkt, rfl, hmsg⟩ := hall q hq
      exact hg.counted i hi pkt hpkt hq hmsg

/-- Server 0 is elected and replicates a request to server 1, which has not synced it yet. -/
def replicatedRequest : List (Event 3) :=
  [.expire 0, .deliver 1 0, .deliver 0 2, .deliver 1 3, .deliver 0 5, .write 0 [7, 8], .send 0,
    .deliver 1 6, .deliver 0 8, .send 0, .deliver 1 9, .deliver 0 11, .sync 0]

/-- Server 1 syncs and reports. -/
def reportedRequest : List (Event 3) := [.advance 0, .sync 1, .send 1, .deliver 0 12]

theorem run_reportedRequest (c : Cluster 3) : c.run reportedRequest =
    (((c.step (.advance 0)).step (.sync 1)).step (.send 1)).step (.deliver 0 12) := by
  simp only [Cluster.run, reportedRequest, List.foldl_cons, List.foldl_nil]

omit [Externals] in
theorem awaiting_replicatedRequest : Awaiting 0 {1} (afterRun replicatedRequest) := by
  have hreach := reach_afterRun replicatedRequest
  have hc := fun q => @Cluster.Reach.consistent 3 sampleExternals _ _ _ hreach q
  refine ⟨⟨hc 0 (by decide +kernel), by decide +kernel, by decide +kernel, by decide +kernel,
    by decide +kernel, by decide +kernel, by decide +kernel, by decide +kernel,
    by decide +kernel⟩, by decide +kernel, by decide +kernel, by decide +kernel, ?_,
    fun q hq => ?_⟩
  · show Fintype.card (Fin 3) < _
    decide +kernel
  · cases Finset.mem_singleton.mp hq
    exact ⟨hc 1 (by decide +kernel), by decide +kernel, by decide +kernel, by decide +kernel,
      by decide +kernel, by decide +kernel, by decide +kernel⟩

omit [Externals] in
theorem committing_reportedRequest : @Committing 3 sampleExternals 0 {1}
    (afterRun replicatedRequest) (afterRun (replicatedRequest ++ reportedRequest)) [12] := by
  have happend : afterRun (replicatedRequest ++ reportedRequest) =
      @Cluster.run 3 sampleExternals (afterRun replicatedRequest) reportedRequest :=
    List.foldl_append
  have hq : (1 : Fin 3) ∈ ({1} : Finset (Fin 3)) := Finset.mem_singleton_self 1
  have h₀ := @Committing.starts 3 sampleExternals 0 {1} (afterRun replicatedRequest)
  have h₁ := @Committing.syncs 3 sampleExternals _ _ _ _ _ 1 hq h₀
  have h₂ := @Committing.reports 3 sampleExternals _ _ _ _ _ 1 hq Event.clock h₁
  rw [happend, @run_reportedRequest sampleExternals]
  exact @Committing.arrives 3 sampleExternals _ _ _ _ _ 12 _ (by decide +kernel)
    (List.getElem?_eq_getElem (by decide +kernel)) (by decide +kernel) (by decide +kernel) h₂

omit [Externals] in
/-- Server 0 commits the request. -/
theorem leader_commits_log_reportedRequest :
    CommittedAll 0 (afterRun replicatedRequest)
      (afterRun (replicatedRequest ++ reportedRequest)) := by
  have hsent : ((afterRun (replicatedRequest ++ reportedRequest)).net[12]?.any fun pkt =>
      decide (pkt.src = 1 ∧ pkt.msg = (afterRun replicatedRequest).fullReport 0)) = true := by
    decide +kernel
  refine @leader_commits_log 3 {1} 0 _ _ _ sampleExternals awaiting_replicatedRequest
    committing_reportedRequest fun q hq => ⟨12, List.mem_singleton_self 12, ?_⟩
  cases Finset.mem_singleton.mp hq
  obtain ⟨pkt, hpkt, hfull⟩ := (Option.any_eq_true _ _).mp hsent
  exact ⟨pkt, hpkt, of_decide_eq_true hfull⟩

end Commits

end NiovaRaft
