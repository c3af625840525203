import NiovaRaft.Refinement.AppendEntries
import NiovaRaft.Spec.Leader

/-!
# The leader as steps

What the leader does with its slots.  A slot's synced index is one that its peer acknowledged
in the leader's term, if each reply is taken for what it is: `ReplyVerified` says when.  The
majority of the slots is then a quorum of acknowledgements, and the commit index follows it.

A commit of an entry of an earlier term is no step of a world with the rule `acked`.  The
handlers below end in a step, or have made such a commit.
-/

namespace NiovaRaft

namespace Refinement

open Base Base.Replication Base.Handler RaftServer

variable {n : Nat} {R : Rules} {w₀ w : ClusterWorld n} {p : Fin n} {cause : Option (RpcMsg n)}
  {s : Proc n}

/-! ## Slots -/

/-- The slot of a peer may be replaced by one that is right. -/
theorem Ok.setSlot {ri : RaftInstance n} {q : Fin n} {rfi : FollowerInfo} (ho : Ok R w p ri)
    (hslot : ri.state = .leader → SlotOk R w p q ri.lowestIdx rfi) :
    Ok R w p (ri.setFollowerInfo q rfi) where
  stored := ho.stored.reroll
  role := by
    obtain ⟨h1, h2, h3, h4, h5, h6⟩ := ho.role
    refine ⟨h1, h2, h3, h4, h5, fun hl => ⟨(h6 hl).init, fun q' => ?_⟩⟩
    by_cases hq : q' = q
    · subst hq
      simpa [RaftInstance.setFollowerInfo] using hslot hl
    · simpa [RaftInstance.setFollowerInfo, Function.update_of_ne hq] using (h6 hl).slots q'

/-- A leader agrees with itself. -/
theorem agrees_of_leading (hb : Basic R w) (hl : (w.peer p).leading = true) : Agrees w p := by
  obtain ⟨hled, hllog⟩ := hb.leading p hl
  refine ⟨p, hled, ?_⟩
  by_cases h0 : (w.peer p).log.length = 0
  · exact .inl h0
  · obtain ⟨x, hx⟩ : ∃ x, (w.peer p).log[(w.peer p).log.length - 1]? = some x :=
      ⟨_, List.getElem?_eq_getElem (by omega)⟩
    exact .inr ⟨x, x, hx, by rw [hllog]; exact hx, rfl⟩

/-- The leader's own slot says what it has synced. -/
theorem slotOk_self {ri : RaftInstance n} {rfi : FollowerInfo} (hst : Stored w p ri) :
    SlotOk R (afterAck w p) p p ri.lowestIdx (selfFollowerInfo ri.newestSync rfi) where
  prev := (slotOk_init (R := R) (w := afterAck w p) (hst.congr rfl) p ri.lowestIdx).prev
  synced := by
    intro _ _
    refine ⟨(w.peer p).synced, ?_, Set.mem_insert _ _⟩
    have := hst.sync_index
    simp only [selfFollowerInfo]
    omega

/-- The leader's own slot is refreshed. -/
theorem sim_withSelf {ri : RaftInstance n} {out : List (Fin n × RpcMsg n)} {trace : List (Obs n)}
    (hs : Sim R w₀ cause p w out trace) (ho : Ok R w p ri) :
    ∃ w', Sim R w₀ cause p w' out trace ∧ Ok R w' p (withSelf ri) ∧ w'.peer p = w.peer p := by
  by_cases hlead : ri.state = .leader
  · have hstep := step_afterAck hs.basic (agrees_of_leading hs.basic (ho.role.leads.mp hlead))
    refine ⟨afterAck w p, hs.step hstep fun _ => id, (ho.afterAck hstep.extends).setSlot ?_, rfl⟩
    intro _
    rw [ho.stored.self]
    exact slotOk_self ho.stored
  · exact ⟨w, hs, ho.setSlot fun h => absurd h hlead, rfl⟩

/-! ## The commit index -/

/-- A leader committed an entry that is none of its term. -/
def ForeignCommit (trace : List (Obs n)) : Prop := ∃ o ∈ trace, Cluster.commitsOwn o = false

/-- The handler may return here, or it has committed an entry of another term. -/
def Done (R : Rules) (w₀ : ClusterWorld n) (cause : Option (RpcMsg n)) (p : Fin n) (s : Proc n) :
    Prop :=
  Live R w₀ cause p s ∨ (R.acked ∧ ForeignCommit s.trace)

/-- The index a majority of the slots reaches was acknowledged by a majority. -/
theorem ackQuorum_of_committedIdx {ri : RaftInstance n} (ho : Ok R w p (withSelf ri))
    (hlead : ri.state = .leader) (hR : R.acked) (h0 : 0 ≤ committedIdx ri) :
    w.AckQuorum (w.peer p).cur (committedIdx ri + 1).toNat := by
  have hcount := le_committedIdx_iff.mp (le_refl (committedIdx ri))
  refine ⟨_, majority_of_countP _ hcount, fun q hq => ?_⟩
  have hle : committedIdx ri ≤ FollowerInfo.commitVote ((withSelf ri).followerInfo q) := by
    simpa using hq
  have hsync : committedIdx ri ≤ ((withSelf ri).followerInfo q).syncedIdx :=
    le_trans hle (min_le_right _ _)
  obtain ⟨m, hm, ha⟩ := ((ho.role.leader hlead).slots q).synced hR (le_trans h0 hsync)
  refine ⟨m, ?_, ha⟩
  change ((withSelf ri).followerInfo q).syncedIdx + 1 ≤ m at hm
  omega

/-- The world once the leader `p` has committed its first `m` entries. -/
def afterCommitLead (w : ClusterWorld n) (p : Fin n) (m : Nat) : ClusterWorld n :=
  { w.setPeer p { w.peer p with commit := m } with
    commits := insert (p, (w.peer p).cur, m) w.commits }

@[simp] theorem afterCommitLead_peer {m : Nat} :
    (afterCommitLead w p m).peer p = { w.peer p with commit := m } :=
  setPeer_self

theorem sim_leaderTryAdvanceCommitIdx (hs : Sim R w₀ cause p w s.out s.trace)
    (ho : Ok R w p s.ri) :
    leaderTryAdvanceCommitIdx.wp (fun _ => Done R w₀ cause p) (Dead R w₀ cause p) s := by
  obtain ⟨w', hs', ho', hp⟩ := sim_withSelf hs ho
  refine wp_leaderTryAdvanceCommitIdx (fun _ => .intro hs ho)
    (fun _ => Dead.intro (s := { s with ri := _ }) hs' ho') (fun _ => .inl (.intro (s := { s with ri := _ }) hs' ho')) ?_
  rintro hlead ⟨-, hlt, hle⟩
  have hcommit := ho.stored.commit
  have hsync := ho.stored.sync_index
  by_cases hbad : R.acked ∧ Cluster.commitsOwn (n := n)
      (.commits .leader s.ri.logHdr.term (committedIdx s.ri) s.ri.log) = false
  · exact .inr ⟨hbad.1, _, List.mem_append_right _ (List.mem_singleton.mpr rfl), hbad.2⟩
  left
  have hleading : (w'.peer p).leading = true := ho'.role.leads.mp hlead
  obtain ⟨hled, hllog⟩ := hs'.basic.leading p hleading
  have hterm : s.ri.logHdr.term = (w'.peer p).cur := ho'.stored.term
  have hlog : s.ri.log = (w'.peer p).log := ho'.stored.store.log.symm
  have hstep : Step R p w' (afterCommitLead w' p (committedIdx s.ri + 1).toNat) := by
    refine .commitLead _ hleading (by rw [hp]; omega) fun hR => ⟨?_, ?_⟩
    · exact ackQuorum_of_committedIdx ho' hlead hR (by omega)
    · have hown : ∃ e, s.ri.log[(committedIdx s.ri).toNat]? = some e ∧
          e.term = s.ri.logHdr.term := by
        simpa [hR, Cluster.commitsOwn, Option.any_eq_true] using hbad
      obtain ⟨e, he, hte⟩ := hown
      refine ⟨e, by omega, ?_, by rw [← hterm]; exact hte⟩
      have hpos : (committedIdx s.ri + 1).toNat - 1 = (committedIdx s.ri).toNat := by omega
      rw [hpos, ← hlog]
      exact he
  refine ⟨afterCommitLead w' p (committedIdx s.ri + 1).toNat,
    (hs'.step hstep fun _ => id).observe ?_, ?_, ?_⟩
  · rw [hterm]
    refine ⟨hled, ?_, ho.stored.lt_log_length hle, .inl (Set.mem_insert _ _)⟩
    change s.ri.log <+: w'.llog p (w'.peer p).cur
    rw [hllog, hlog]
  · exact ho'.stored.committed (by omega) afterCommitLead_peer
  · refine ho'.role.mono hstep.extends ?_ ?_ ?_ ?_ rfl rfl rfl rfl (le_refl _)
    all_goals rw [afterCommitLead_peer]
    exact fun _ => List.prefix_refl _

/-! ## Replies -/

/-- `raft_server_try_update_follower_sync_idx`: the synced index must have been acknowledged in
the leader's term. -/
theorem sim_tryUpdateFollowerSyncIdx {peer : Fin n} {t sli : Int}
    (hs : Sim R w₀ cause p w s.out s.trace) (ho : Ok R w p s.ri)
    (hack : R.acked → t = s.ri.newestSync.term → 0 ≤ sli →
      ∃ k : Nat, sli + 1 ≤ k ∧ (peer, (w.peer p).cur, k) ∈ w.acks) :
    (tryUpdateFollowerSyncIdx peer t sli).wp (fun _ => Done R w₀ cause p) (Dead R w₀ cause p)
      s := by
  simp only [tryUpdateFollowerSyncIdx, wp_bind, wp_getRi, wp_whenever, wp_modifyRi]
  refine ⟨fun hcond => ?_, fun _ => .inl (.intro hs ho)⟩
  have hok : Ok R w p (s.ri.setFollowerInfo peer
      (FollowerInfo.accept (s.ri.followerInfo peer) sli)) := by
    refine ho.setSlot fun hl => ⟨((ho.role.leader hl).slots peer).prev, fun hR h0 => ?_⟩
    have hold := ((ho.role.leader hl).slots peer).synced hR
    change 0 ≤ max (s.ri.followerInfo peer).syncedIdx sli at h0
    change ∃ k : Nat, max (s.ri.followerInfo peer).syncedIdx sli + 1 ≤ k ∧ _
    rcases le_total (s.ri.followerInfo peer).syncedIdx sli with hle | hle
    · rw [max_eq_right hle] at h0 ⊢
      exact hack hR hcond.1 h0
    · rw [max_eq_left hle] at h0 ⊢
      exact hold h0
  exact ⟨fun _ => sim_leaderTryAdvanceCommitIdx hs hok, fun _ => .inl (.intro hs hok)⟩

/-- A reply is taken for what it is: it raises no slot by its synced index alone, and one that
acknowledges was sent in the leader's term. -/
structure ReplyVerified (ri : RaftInstance n) (sender : Fin n) (m : AppendEntriesReplyMsg) :
    Prop where
  raise : ri.state = .leader → m.errStaleTerm = false →
    m.prevLogIndex + 1 = (ri.followerInfo sender).nextIdx → m.updateSli = true →
    m.syncedLogIndex ≤ (ri.followerInfo sender).nextIdx
  term : ri.state = .leader → Clean m →
    m.prevLogIndex + 1 = (ri.followerInfo sender).nextIdx →
    m.leaderTerm = ri.newestSync.term → m.leaderTerm = ri.logHdr.term

theorem sim_applyAppendEntriesReplyResult {sender : Fin n} {m : AppendEntriesReplyMsg}
    (hs : Sim R w₀ cause p w s.out s.trace) (ho : Ok R w p s.ri) (hm : AeReplyOk R w sender m)
    (hver : R.acked → ReplyVerified s.ri sender m) :
    (applyAppendEntriesReplyResult sender m).wp (fun _ => Done R w₀ cause p)
      (Dead R w₀ cause p) s := by
  have hdead : Dead R w₀ cause p s := .intro hs ho
  simp only [applyAppendEntriesReplyResult, wp_bind, wp_getRi, wp_assert, wp_ite, wp_pure,
    wp_modifyRi]
  refine ⟨fun hl => ⟨fun hstale => ⟨fun _ => .inl (.intro hs ho), fun hnext => ⟨fun hsli => ?_,
    fun hsli => ⟨fun hnm => ?_, fun hnm => ?_⟩⟩⟩, fun _ => hdead⟩, fun _ => hdead⟩
  all_goals have hlead : s.ri.state = .leader := by simpa [RaftInstance.isLeader] using hl
  all_goals have hslot := (ho.role.leader hlead).slots sender
  all_goals have hnext' : m.prevLogIndex + 1 = (s.ri.followerInfo sender).nextIdx :=
    not_not.mp hnext
  · refine .inl (.intro (s := { s with ri := _ }) hs (ho.setSlot fun _ => ?_))
    unfold FollowerInfo.updateSli
    split
    · rename_i hgt
      refine ⟨by simp, fun hR _ => ?_⟩
      exact absurd ((hver hR).raise hlead hstale hnext' hsli) (not_le.mpr hgt)
    · exact hslot
  · refine .inl (.intro (s := { s with ri := _ }) hs (ho.setSlot fun _ => ?_))
    unfold FollowerInfo.rewind
    split
    · exact ⟨by simp, hslot.synced⟩
    · exact hslot
  · have hok : Ok R w p (s.ri.setFollowerInfo sender
        (FollowerInfo.advance (s.ri.followerInfo sender) m)) := by
      refine ho.setSlot fun _ => ?_
      unfold FollowerInfo.advance
      split
      · exact hslot
      · exact ⟨by simp, hslot.synced⟩
    refine sim_tryUpdateFollowerSyncIdx (s := { s with ri := _ }) hs hok fun hR ht h0 => ?_
    have hclean : Clean m := ⟨hstale, by simpa using hnm, by simpa using hsli⟩
    obtain ⟨k, hk, ha⟩ := hm.acked hR hclean h0
    refine ⟨k, hk, ?_⟩
    rw [← ho.stored.term, ← (hver hR).term hlead hclean hnext' ht]
    exact ha

theorem sim_processAppendEntriesReply {sender : Fin n} {m : AppendEntriesReplyMsg}
    (hs : Sim R w₀ cause p w s.out s.trace) (ho : Ok R w p s.ri) (hm : AeReplyOk R w sender m)
    (hver : R.acked → ReplyVerified s.ri sender m) :
    (processAppendEntriesReply sender m).wp (fun _ => Done R w₀ cause p) (Dead R w₀ cause p)
      s := by
  have hlive : Done R w₀ cause p s := .inl (.intro hs ho)
  simp only [processAppendEntriesReply, wp_bind, wp_getRi, wp_ite, wp_pure, wp_whenever]
  refine ⟨fun _ => hlive, fun _ => ⟨fun _ => ⟨fun _ => ?_, fun _ => hlive⟩, fun _ => ?_⟩⟩
  · refine sim_becomesFollower hs ho ?_ (by simp) (fun _ => hlive)
      fun x w' s' _ hsim hok _ _ _ _ _ => .inl (.intro hsim hok)
    intro x hx
    obtain rfl := Option.some.inj hx
    exact hm.term
  · exact sim_applyAppendEntriesReplyResult hs ho hm hver

theorem sim_processSyncIdxUpdate {sender : Fin n} {m : SyncIdxUpdateMsg}
    (hs : Sim R w₀ cause p w s.out s.trace) (ho : Ok R w p s.ri)
    (hm : SyncIdxUpdateOk R w sender p m) :
    (processSyncIdxUpdate sender m).wp (fun _ => Done R w₀ cause p) (Dead R w₀ cause p) s := by
  simp only [processSyncIdxUpdate, wp_bind, wp_getRi, wp_whenever]
  refine ⟨fun hcond => ?_, fun _ => .inl (.intro hs ho)⟩
  refine sim_tryUpdateFollowerSyncIdx hs ho fun hR _ h0 => ?_
  have hterm := ho.stored.term
  rcases hm hR h0 with ⟨k, hk, ha⟩ | hlt
  · exact ⟨k, hk, by rw [← hterm, ← hcond.2]; exact ha⟩
  · omega

/-! ## Sending -/

theorem setFollowerInfo_self (ri : RaftInstance n) (q : Fin n) :
    ri.setFollowerInfo q (ri.followerInfo q) = ri := by
  simp [RaftInstance.setFollowerInfo, RaftInstance.followerInfo]

@[simp] theorem setFollowerInfo_set (ri : RaftInstance n) (q : Fin n) (a b : FollowerInfo) :
    (ri.setFollowerInfo q a).setFollowerInfo q b = ri.setFollowerInfo q b := by
  simp [RaftInstance.setFollowerInfo]

@[simp] theorem followerInfo_set (ri : RaftInstance n) (q : Fin n) (a : FollowerInfo) :
    (ri.setFollowerInfo q a).followerInfo q = a := by
  simp [RaftInstance.setFollowerInfo, RaftInstance.followerInfo]

/-- The term that goes with the next index, where the leader has no entry there: none, or its
own. -/
def SlotFresh (ri : RaftInstance n) (rfi : FollowerInfo) : Prop :=
  rfi.nextIdx = ri.newestUnsync.index + 1 →
    rfi.currentIdxTerm ≤ 0 ∨ rfi.currentIdxTerm = ri.logHdr.term

/-- A slot after its refresh: the term before the next index is known, and the term at the next
index is that of the leader's entry. -/
structure Refreshed (ri : RaftInstance n) (old rfi : FollowerInfo) : Prop where
  next : rfi.nextIdx = old.nextIdx
  nonneg : 0 ≤ rfi.nextIdx
  prev : 0 ≤ rfi.prevIdxTerm
  held : rfi.nextIdx ≤ ri.newestUnsync.index →
    ∃ re, ri.store.db.entries[rfi.nextIdx.toNat]? = some re ∧ re.term = rfi.currentIdxTerm
  past : ri.newestUnsync.index < rfi.nextIdx →
    rfi.currentIdxTerm = old.currentIdxTerm ∨ rfi.currentIdxTerm = -1

theorem sim_refreshPrev {peer : Fin n} {Q : Except Errno Unit → Proc n → Prop}
    (hs : Sim R w₀ cause p w s.out s.trace) (ho : Ok R w p s.ri) (hlead : s.ri.state = .leader)
    (hQ : ∀ rc rfi, SlotOk R w p peer s.ri.lowestIdx rfi →
      rfi.nextIdx = (s.ri.followerInfo peer).nextIdx →
      rfi.currentIdxTerm = (s.ri.followerInfo peer).currentIdxTerm →
      (rc = .ok () → 0 ≤ rfi.prevIdxTerm) →
      Q rc { s with ri := s.ri.setFollowerInfo peer rfi }) :
    (refreshPrev peer).wp Q (Dead R w₀ cause p) s := by
  have hdead : Dead R w₀ cause p s := .intro hs ho
  have hslot := (ho.role.leader hlead).slots peer
  simp only [refreshPrev, wp_bind, wp_getRi, wp_ite, wp_pure, wp_assert]
  refine ⟨fun hge => ?_, fun _ => ⟨fun _ => ⟨fun _ => ?_, fun _ => hdead⟩, fun _ => hdead⟩⟩
  · have h := hQ (.ok ()) (s.ri.followerInfo peer) hslot rfl rfl fun _ => hge
    rwa [setFollowerInfo_self] at h
  · refine wp_entryHeaderReadByStore_of_entries ho.stored.cons hdead ?_ ?_
    · intro rc hrc
      simp only [wp_bind, wp_modifyRi, wp_pure]
      refine hQ (.error rc) _ ⟨fun _ h0 hlow => ?_, hslot.synced⟩ rfl rfl (by simp)
      simp only at h0 hlow
      omega
    · intro re h0 hlow hre
      simp only [wp_bind, wp_fatalIf, wp_modifyRi, wp_pure]
      refine ⟨fun _ => hdead, fun hterm => hQ (.ok ()) _ ⟨fun _ _ _ => ?_, hslot.synced⟩ rfl rfl
        fun _ => not_lt.mp hterm⟩
      exact ⟨re.core, ho.stored.store.getElem hre, rfl⟩

theorem sim_refreshCurrent {peer : Fin n} {Q : Except Errno Unit → Proc n → Prop}
    (hs : Sim R w₀ cause p w s.out s.trace) (ho : Ok R w p s.ri)
    (hQ : ∀ rc rfi, SlotOk R w p peer s.ri.lowestIdx (s.ri.followerInfo peer) →
      rfi.nextIdx = (s.ri.followerInfo peer).nextIdx →
      rfi.prevIdxTerm = (s.ri.followerInfo peer).prevIdxTerm →
      rfi.syncedIdx = (s.ri.followerInfo peer).syncedIdx →
      (rc = .ok () → rfi.nextIdx ≤ s.ri.newestUnsync.index →
        ∃ re, s.ri.store.db.entries[rfi.nextIdx.toNat]? = some re ∧
          re.term = rfi.currentIdxTerm) →
      (s.ri.newestUnsync.index < rfi.nextIdx →
        rfi.currentIdxTerm = (s.ri.followerInfo peer).currentIdxTerm) →
      Q rc { s with ri := s.ri.setFollowerInfo peer rfi })
    (hslot : SlotOk R w p peer s.ri.lowestIdx (s.ri.followerInfo peer)) :
    (refreshCurrent peer).wp Q (Dead R w₀ cause p) s := by
  have hdead : Dead R w₀ cause p s := .intro hs ho
  simp only [refreshCurrent, wp_bind, wp_getRi, wp_ite, wp_pure]
  refine ⟨fun hlt => ?_, fun hge => ?_⟩
  · have hlt' : s.ri.newestUnsync.index < (s.ri.followerInfo peer).nextIdx := hlt
    have h := hQ (.ok ()) (s.ri.followerInfo peer) hslot rfl rfl rfl
      (fun _ h => absurd h (by omega)) fun _ => rfl
    rwa [setFollowerInfo_self] at h
  · have hge' : (s.ri.followerInfo peer).nextIdx ≤ s.ri.newestUnsync.index := not_lt.mp hge
    refine wp_entryHeaderReadByStore hdead ?_ ?_
    · intro rc
      simp only [wp_bind, wp_modifyRi, wp_pure]
      exact hQ (.error rc) _ hslot rfl rfl rfl (by simp) fun h => absurd h (not_lt.mpr hge')
    · intro re _ _ hre
      simp only [wp_bind, wp_modifyRi, wp_pure]
      exact hQ (.ok ()) _ hslot rfl rfl rfl (fun _ _ => ⟨re, hre, rfl⟩)
        fun h => absurd h (not_lt.mpr hge')

theorem sim_refreshFollowerPrevLogTerm {peer : Fin n} {Q : Except Errno Unit → Proc n → Prop}
    (hs : Sim R w₀ cause p w s.out s.trace) (ho : Ok R w p s.ri)
    (hfresh : R.acked → SlotFresh s.ri (s.ri.followerInfo peer))
    (hQ : ∀ rc rfi, s.ri.state = .leader → SlotOk R w p peer s.ri.lowestIdx rfi →
      (R.acked → SlotFresh s.ri rfi) →
      (rc = .ok () → Refreshed s.ri (s.ri.followerInfo peer) rfi) →
      Q rc { s with ri := s.ri.setFollowerInfo peer rfi }) :
    (refreshFollowerPrevLogTerm peer).wp Q (Dead R w₀ cause p) s := by
  have hdead : Dead R w₀ cause p s := .intro hs ho
  simp only [refreshFollowerPrevLogTerm, wp_bind, wp_getRi, wp_assert, wp_modifyRi]
  refine ⟨fun hl => ⟨fun h0 => ?_, fun _ => hdead⟩, fun _ => hdead⟩
  have hlead : s.ri.state = .leader := by simpa [RaftInstance.isLeader] using hl
  have hslot := (ho.role.leader hlead).slots peer
  -- the slot before the reads
  set old := s.ri.followerInfo peer with hold
  have hbefore : SlotOk R w p peer s.ri.lowestIdx (FollowerInfo.beforeRefresh old) := by
    unfold FollowerInfo.beforeRefresh
    split
    · rename_i hz
      refine ⟨fun _ hpos => ?_, hslot.synced⟩
      simp only [hz] at hpos
      omega
    · exact hslot
  have hnext : (FollowerInfo.beforeRefresh old).nextIdx = old.nextIdx := by
    unfold FollowerInfo.beforeRefresh
    split <;> rfl
  have hct : (FollowerInfo.beforeRefresh old).currentIdxTerm = old.currentIdxTerm ∨
      (FollowerInfo.beforeRefresh old).currentIdxTerm = -1 := by
    unfold FollowerInfo.beforeRefresh
    split
    · exact .inr rfl
    · exact .inl rfl
  have hfresh1 : R.acked → SlotFresh s.ri (FollowerInfo.beforeRefresh old) := by
    intro hR hn
    rcases hct with h | h
    · rw [h]
      exact hfresh hR (by rw [← hnext]; exact hn)
    · exact .inl (by omega)
  refine sim_refreshPrev (s := { s with ri := _ }) hs (ho.setSlot fun _ => hbefore) hlead ?_
  intro rc rfi hok1 hn1 hc1 hp1
  simp only [followerInfo_set] at hn1 hc1
  have hfresh2 : R.acked → SlotFresh s.ri rfi := by
    intro hR hn
    rw [hc1]
    exact hfresh1 hR (by rw [← hn1]; exact hn)
  simp only [setFollowerInfo_set]
  cases rc with
  | error rc => exact hQ _ _ hlead hok1 hfresh2 (by simp)
  | ok u =>
    refine sim_refreshCurrent (s := { s with ri := _ }) hs (ho.setSlot fun _ => hok1) ?_
      (by rw [followerInfo_set]; exact hok1)
    intro rc rfi2 hok2 hn2 hpr2 hsy2 hheld2 hpast2
    simp only [followerInfo_set] at hok2 hn2 hpr2 hsy2 hpast2
    simp only [setFollowerInfo_set]
    refine hQ rc rfi2 hlead ⟨?_, ?_⟩ ?_ fun hrc => ?_
    · rw [hpr2, hn2]
      exact hok2.prev
    · rw [hsy2]
      exact hok2.synced
    · intro hR hn
      rw [hpast2 (by rw [hn]; exact Int.lt_succ _)]
      exact hfresh2 hR (by rw [← hn2]; exact hn)
    · refine ⟨by rw [hn2, hn1, hnext], by rw [hn2, hn1, hnext]; exact h0, ?_, hheld2 hrc, ?_⟩
      · rw [hpr2]
        exact hp1 rfl
      · intro h
        rw [hpast2 h, hc1]
        exact hct

/-- What a leader writes into a request is right, whatever entry goes with it. -/
theorem aeRequestOk_of_slot {ri : RaftInstance n} {rfi : FollowerInfo} {peer : Fin n}
    {m : AppendEntriesRequestMsg} (hreach : Reachable R w) (ho : Ok R w p ri)
    (hlead : ri.state = .leader) (hslot : SlotOk R w p peer ri.lowestIdx rfi)
    (hterm : m.leaderTerm = ri.logHdr.term) (hcommit : m.commitIndex = ri.commitIdx)
    (hlow : m.lowestIndex = ri.lowestIdx) (hidx : m.prevLogIndex = rfi.nextIdx - 1)
    (hprev : m.entryOutOfRange = false → m.prevLogTerm = rfi.prevIdxTerm ∧ 0 ≤ rfi.prevIdxTerm)
    (hnext : R.acked → 0 < m.logTerm →
      (∃ re, ri.store.db.entries[rfi.nextIdx.toNat]? = some re ∧ re.term = m.logTerm) ∨
        (m.logTerm = ri.logHdr.term ∧ rfi.nextIdx = ri.newestUnsync.index + 1))
    (hcarried : m.heartbeatMsg = false →
      ∃ re, ri.store.db.entries[rfi.nextIdx.toNat]? = some re ∧ Carries m re.core) :
    AeRequestOk R w p m := by
  have hb := hreach.basic
  obtain ⟨hled, hllog⟩ := hb.leading p (ho.role.leads.mp hlead)
  rw [← ho.stored.term, ← hterm] at hled hllog
  have hpos : m.prevLogIndex + 1 = rfi.nextIdx := by omega
  refine ⟨hled, ?_, ?_, ?_, ?_⟩
  · intro hin hl h0
    obtain ⟨h1, h2⟩ := hprev hin
    obtain ⟨e, he, hte⟩ := hslot.prev h2 (by omega) (by omega)
    exact ⟨e, by rw [hllog, hidx]; exact he, by rw [hte, h1]⟩
  · intro hheart
    obtain ⟨re, hre, hc⟩ := hcarried hheart
    exact ⟨re.core, by rw [hllog, hpos]; exact ho.stored.store.getElem hre, hc⟩
  · intro hR h0
    rcases hnext hR h0 with ⟨re, hre, hte⟩ | ⟨hte, hend⟩
    · exact .inl ⟨re.core, by rw [hllog, hpos]; exact ho.stored.store.getElem hre, hte⟩
    · -- past the end of the leader's log, which is its own from where it stood
      right
      obtain ⟨l, tl, hst, heq, -⟩ := hb.led_stood p _ hled
      have hlen := ho.stored.unsync_index
      have hcom := ho.stored.commit
      have h1 := hb.commit_le p
      have h2 := hb.synced_le p
      have h3 : l.length ≤ (w.peer p).log.length := by
        rw [← hllog, heq, List.length_append]
        omega
      exact ⟨by rw [hte, hterm], by omega, l, hst, by omega⟩
  · intro hR h0
    have hcom := ho.stored.commit
    rcases hreach.commit_reported hR p with hz | ⟨q, t, k, h1, h2, h3⟩
    · omega
    · exact ⟨q, t, k, h1, by rw [hterm, ho.stored.term]; exact h2, by omega⟩

/-- Every slot is fresh. -/
def TermsFresh (ri : RaftInstance n) : Prop :=
  ∀ q, q ≠ ri.self → SlotFresh ri (ri.followerInfo q)

theorem TermsFresh.set {ri : RaftInstance n} {q : Fin n} {rfi : FollowerInfo} (h : TermsFresh ri)
    (hq : SlotFresh ri rfi) : TermsFresh (ri.setFollowerInfo q rfi) := by
  intro q' hne
  by_cases hqq : q' = q
  · subst hqq
    rw [followerInfo_set]
    exact hq
  · have hsame : (ri.setFollowerInfo q rfi).followerInfo q' = ri.followerInfo q' := by
      simp [RaftInstance.setFollowerInfo, RaftInstance.followerInfo, Function.update_of_ne hqq]
    rw [hsame]
    exact h q' hne

section Send

variable [Externals]

/-- `raft_server_leader_init_append_entry_msg`, and the entry that goes with it. -/
theorem sim_attachEntry (ri : RaftInstance n) {rfi old : FollowerInfo}
    {m : AppendEntriesRequestMsg} {Q : Option AppendEntriesRequestMsg → Proc n → Prop}
    (hs : Sim R w₀ cause p w s.out s.trace) (ho : Ok R w p s.ri)
    (hri : s.ri.store = ri.store) (href : Refreshed ri old rfi)
    (hidx : m.prevLogIndex = rfi.nextIdx - 1) (hterm : m.logTerm = rfi.currentIdxTerm)
    (hdata : m.entries = []) (hle : rfi.nextIdx ≤ ri.newestUnsync.index) (hnone : Q none s)
    (hQ : ∀ m' re, ri.store.db.entries[rfi.nextIdx.toNat]? = some re → Carries m' re.core →
      m'.leaderTerm = m.leaderTerm → m'.logTerm = m.logTerm → m'.commitIndex = m.commitIndex →
      m'.lowestIndex = m.lowestIndex → m'.prevLogTerm = m.prevLogTerm →
      m'.prevLogIndex = m.prevLogIndex → m'.entryOutOfRange = m.entryOutOfRange →
      Q (some m') s) :
    (attachEntry m).wp Q (Dead R w₀ cause p) s := by
  have hdead : Dead R w₀ cause p s := .intro hs ho
  have hpos : m.prevLogIndex + 1 = rfi.nextIdx := by omega
  rw [attachEntry, wp_bind, hpos]
  refine wp_entryHeaderReadByStore hdead (fun rc => ?_) fun re _ _ hre => ?_
  · cases rc with
    | ERANGE => exact hnone
    | _ => exact hdead
  obtain ⟨re', hre', ht'⟩ := href.held hle
  have hre0 : ri.store.db.entries[rfi.nextIdx.toNat]? = some re := by rw [← hri]; exact hre
  obtain rfl : re' = re := Option.some.inj (hre'.symm.trans hre0)
  have hok := ho.stored.cons.entries.entry _ _ hre
  have hterm' : re'.core.term = m.logTerm := by
    rw [hterm, ← ht']
    rfl
  simp only [wp_bind, wp_assert, wp_ite, wp_pure]
  refine ⟨fun _ => ⟨fun hz => ?_, fun hnz => ?_⟩, fun _ => hdead⟩
  · have hempty : re'.data = [] := by
      rw [← List.length_eq_zero_iff, hok.dataLength]
      exact hz
    refine hQ _ re' hre0 ⟨hterm', rfl, rfl, hok.numEntries, hok.narrow, rfl, ?_, ?_, ?_⟩ rfl rfl rfl
      rfl rfl rfl rfl
    · intro hmk
      rw [← hok.dataSize]
      exact hz
    · change re'.data = m.entries
      rw [hempty, hdata]
    · change m.entries.length = _
      rw [hdata, ← hok.dataSize]
      exact hz.symm
  · refine wp_entryRead hdead (fun rc _ => ?_) fun re'' _ hre'' => ?_
    · cases rc with
      | ERANGE => exact hnone
      | _ => exact hdead
    · obtain rfl : re'' = re' := Option.some.inj (hre''.symm.trans hre)
      have htake : re''.data.take re''.header.dataSize = re''.data :=
        List.take_of_length_le (le_of_eq hok.dataLength)
      simp only [wp_pure, htake]
      refine hQ _ re'' hre0 ⟨hterm', rfl, rfl, hok.numEntries, hok.narrow, rfl, ?_, rfl, ?_⟩ rfl rfl
        rfl rfl rfl rfl rfl
      · intro hmk
        rw [← hok.dataSize]
        exact hok.marker hmk
      · rw [← hok.dataSize]
        exact hok.dataLength

theorem sim_appendEntrySendTo {peer : Fin n} {my : Int} {heartbeat : Bool}
    {Q : Bool → Proc n → Prop} (hs : Sim R w₀ cause p w s.out s.trace) (ho : Ok R w p s.ri)
    (hne : p ≠ peer) (hmy : my = s.ri.newestUnsync.index) (hfresh : R.acked → TermsFresh s.ri)
    (hQ : ∀ b s', Sim R w₀ cause p w s'.out s'.trace → Ok R w p s'.ri →
      (R.acked → TermsFresh s'.ri) → s'.ri.newestUnsync = s.ri.newestUnsync → Q b s') :
    (appendEntrySendTo my peer heartbeat).wp Q (Dead R w₀ cause p) s := by
  have hpeer : peer ≠ s.ri.self := by
    rw [ho.stored.self]
    exact hne.symm
  simp only [appendEntrySendTo, leaderInitAppendEntryMsg, wp_bind]
  refine sim_refreshFollowerPrevLogTerm hs ho (fun hR => hfresh hR peer hpeer) ?_
  intro rc rfi hlead hslot hfr href
  have hok : Ok R w p (s.ri.setFollowerInfo peer rfi) := ho.setSlot fun _ => hslot
  have hdead : Dead R w₀ cause p { s with ri := s.ri.setFollowerInfo peer rfi } :=
    .intro (s := { s with ri := _ }) hs hok
  have hfresh' : R.acked → TermsFresh (s.ri.setFollowerInfo peer rfi) := fun hR =>
    (hfresh hR).set (hfr hR)
  simp only [wp_assert, wp_getRi, wp_pure, wp_fatalIf, wp_ite, followerInfo_set]
  refine ⟨fun _ => ⟨fun _ => ⟨fun _ => ⟨fun _ => hdead, fun hpast => ?_⟩, fun _ => hdead⟩,
    fun _ => hdead⟩, fun _ => hdead⟩
  have hrc : rc.isOk = true → rc = .ok () := by
    cases rc with
    | error e => simp [Except.isOk, Except.toBool]
    | ok u => simp
  -- the slot's term where the leader has no entry
  have hnext : R.acked → 0 < (if (!rc.isOk) = true then 0 else rfi.currentIdxTerm) →
      (∃ re, s.ri.store.db.entries[rfi.nextIdx.toNat]? = some re ∧
        re.term = (if (!rc.isOk) = true then 0 else rfi.currentIdxTerm)) ∨
      ((if (!rc.isOk) = true then 0 else rfi.currentIdxTerm) = s.ri.logHdr.term ∧
        rfi.nextIdx = s.ri.newestUnsync.index + 1) := by
    intro hR hpos
    cases hb : rc.isOk with
    | false => simp [hb] at hpos
    | true =>
      simp only [hb, Bool.not_true, Bool.false_eq_true, if_false] at hpos ⊢
      have hr := href (hrc hb)
      by_cases hle : rfi.nextIdx ≤ s.ri.newestUnsync.index
      · exact .inl (hr.held hle)
      · have hend : rfi.nextIdx = s.ri.newestUnsync.index + 1 := by omega
        rcases hfr hR hend with h | h
        · omega
        · exact .inr ⟨h, hend⟩
  refine ⟨fun hsend => ?_, fun _ => ?_⟩
  · -- with its entry
    simp only [Bool.or_eq_false_iff, Bool.not_eq_false'] at hsend
    obtain ⟨⟨hheart, hisok⟩, hle⟩ := hsend
    have hr := href (hrc hisok)
    rw [wp_bind]
    refine sim_attachEntry s.ri (s := { s with ri := s.ri.setFollowerInfo peer rfi }) hs hok
      rfl hr ?_ ?_ ?_ (by omega) ?_ ?_
    · rfl
    · simp [hisok]
    · rfl
    · exact hQ _ _ hs hok hfresh' rfl
    intro m' re hre hc h1 h2 h3 h4 h5 h6 h7
    simp only [wp_bind, wp_sendMsg_some, wp_pure]
    refine hQ _ _ (hs.send hne ?_) hok hfresh' rfl
    refine aeRequestOk_of_slot hs.reach ho hlead hslot h1 h3 h4 h6 ?_ ?_ fun _ => ⟨re, hre, hc⟩
    · intro _
      refine ⟨?_, hr.prev⟩
      rw [h5]
      simp [hisok]
    · rw [h2]
      exact hnext
  · -- as a heartbeat
    simp only [wp_bind, wp_sendMsg_some, wp_pure]
    refine hQ _ _ (hs.send hne ?_) hok hfresh' rfl
    refine aeRequestOk_of_slot hs.reach ho hlead hslot rfl rfl rfl rfl ?_ hnext (by simp)
    intro hin
    have hisok : rc.isOk = true := by simpa using hin
    exact ⟨by simp [hisok], (href (hrc hisok)).prev⟩

omit [Externals] in
theorem sim_appendEntryShouldSendToFollower {clock : SendClock n} {peer : Fin n}
    {Q : Bool → Proc n → Prop} (hs : Sim R w₀ cause p w s.out s.trace) (ho : Ok R w p s.ri)
    (hne : p ≠ peer) (hfresh : R.acked → TermsFresh s.ri)
    (hQ : ∀ b s', Sim R w₀ cause p w s'.out s'.trace → Ok R w p s'.ri →
      (R.acked → TermsFresh s'.ri) → s'.ri.newestUnsync = s.ri.newestUnsync → Q b s') :
    (appendEntryShouldSendToFollower clock peer).wp Q (Dead R w₀ cause p) s := by
  rw [appendEntryShouldSendToFollower, wp_bind, wp_getRi]
  cases clock.sinceLastUnacked peer with
  | none => exact hQ false s hs ho hfresh rfl
  | some since =>
    simp only [wp_bind, wp_modifyRi, wp_ite, wp_assert, wp_pure]
    have hok : ∀ until', Ok R w p (s.ri.setFollowerInfo peer
        { s.ri.followerInfo peer with aeSendsWaitUntil := until' }) := by
      intro until'
      refine ho.setSlot fun hl => ?_
      have := (ho.role.leader hl).slots peer
      exact ⟨this.prev, this.synced⟩
    have hf : ∀ until', R.acked → TermsFresh (s.ri.setFollowerInfo peer
        { s.ri.followerInfo peer with aeSendsWaitUntil := until' }) := by
      intro until' hR
      refine (hfresh hR).set (hfresh hR peer ?_)
      rw [ho.stored.self]
      exact hne.symm
    refine ⟨fun _ => ⟨fun _ => ?_, fun _ => ?_⟩, fun _ => ?_⟩
    · exact hQ false _ hs (hok _) (hf _) rfl
    · exact Dead.intro (s := { s with ri := _ }) hs (hok _)
    · exact hQ _ _ hs (hok _) (hf _) rfl

/-- The loop of `raft_server_append_entry_sender`. -/
theorem sim_appendEntrySenderLoop {clock : SendClock n} {my : Int} (peers : List (Fin n))
    (heartbeat : Bool) (hs : Sim R w₀ cause p w s.out s.trace) (ho : Ok R w p s.ri)
    (hmy : my = s.ri.newestUnsync.index) (hfresh : R.acked → TermsFresh s.ri) :
    (appendEntrySenderLoop clock my peers heartbeat).wp (fun _ => Live R w₀ cause p)
      (Dead R w₀ cause p) s := by
  induction peers generalizing heartbeat s with
  | nil => exact .intro hs ho
  | cons peer peers ih =>
    simp only [appendEntrySenderLoop, wp_bind, wp_getRi, wp_ite]
    refine ⟨fun _ => ih heartbeat hs ho hmy hfresh, fun hself => ?_⟩
    have hne : p ≠ peer := by
      rw [← ho.stored.self]
      exact fun h => hself h.symm
    refine sim_appendEntryShouldSendToFollower hs ho hne hfresh ?_
    intro send s' hs' ho' hfresh' hun'
    have hmy' : my = s'.ri.newestUnsync.index := by rw [hun', hmy]
    refine ⟨fun _ => ih heartbeat hs' ho' hmy' hfresh', fun _ => ?_⟩
    refine sim_appendEntrySendTo hs' ho' hne hmy' hfresh' fun b s'' hs'' ho'' hf'' hun => ?_
    exact ih b hs'' ho'' (by rw [hun]; exact hmy') hf''

theorem sim_appendEntrySender {clock : SendClock n} {heartbeat : Bool}
    (hs : Sim R w₀ cause p w s.out s.trace) (ho : Ok R w p s.ri)
    (hfresh : R.acked → s.ri.state = .leader → TermsFresh s.ri) :
    (appendEntrySender clock heartbeat).wp (fun _ => Live R w₀ cause p) (Dead R w₀ cause p)
      s := by
  simp only [appendEntrySender, wp_bind, wp_getRi, wp_whenever]
  refine ⟨fun hcond => ?_, fun _ => .intro hs ho⟩
  have hlead : s.ri.state = .leader := by simpa [RaftInstance.isLeader] using hcond.1
  exact sim_appendEntrySenderLoop _ _ hs ho rfl fun hR => hfresh hR hlead

end Send

end Refinement

end NiovaRaft
