import NiovaRaft.Base.Alike
import NiovaRaft.Spec.Sender

/-!
# One follower and the others

`raft_server_append_entry_sender` walks over the peers with one message buffer and one `heartbeat`
flag for all of them.  A follower whose next entry was compacted turns the flag on, and it stays on
for the peers that come after it.  What a follower is sent depends on its own slot, on the leader's
log and indexes, and on this flag: on a follower that is out of range and comes before it.
-/

namespace NiovaRaft

open Base Base.Handler

variable {n : Nat}

/-- The two leaders have the same log, the same indexes and the same slot for `j`. -/
structure SameFor (j : Fin n) (ri ri' : RaftInstance n) : Prop where
  self : ri'.self = ri.self
  opts : ri'.opts = ri.opts
  procState : ri'.procState = ri.procState
  state : ri'.state = ri.state
  term : ri'.logHdr.term = ri.logHdr.term
  leaderTerm : ri'.leader.leaderTerm = ri.leader.leaderTerm
  commit : ri'.commitIdx = ri.commitIdx
  lowest : ri'.lowestIdx = ri.lowestIdx
  checkpoint : ri'.checkpointLastIdx = ri.checkpointLastIdx
  newest : ri'.newestUnsync = ri.newestUnsync
  entries : ri'.store.db.entries = ri.store.db.entries
  reaped : ri'.store.db.reaped = ri.store.db.reaped
  slot : ri'.followerInfo j = ri.followerInfo j

/-- The messages for one peer. -/
def messagesTo (j : Fin n) (out : List (Fin n × RpcMsg n)) : List (Fin n × RpcMsg n) :=
  out.filter fun m => m.1 = j

/-- The same, with the messages for `j` so far. -/
structure AlikeFor (j : Fin n) (s s' : Proc n) : Prop where
  ri : SameFor j s.ri s'.ri
  out : messagesTo j s'.out = messagesTo j s.out

theorem SameFor.symm {j : Fin n} {ri ri' : RaftInstance n} (h : SameFor j ri ri') :
    SameFor j ri' ri :=
  ⟨h.self.symm, h.opts.symm, h.procState.symm, h.state.symm, h.term.symm, h.leaderTerm.symm,
    h.commit.symm, h.lowest.symm, h.checkpoint.symm, h.newest.symm, h.entries.symm, h.reaped.symm,
    h.slot.symm⟩

theorem SameFor.trans {j : Fin n} {ri ri' ri'' : RaftInstance n} (h : SameFor j ri ri')
    (h' : SameFor j ri' ri'') : SameFor j ri ri'' :=
  ⟨h'.self.trans h.self, h'.opts.trans h.opts, h'.procState.trans h.procState,
    h'.state.trans h.state, h'.term.trans h.term, h'.leaderTerm.trans h.leaderTerm,
    h'.commit.trans h.commit, h'.lowest.trans h.lowest, h'.checkpoint.trans h.checkpoint,
    h'.newest.trans h.newest, h'.entries.trans h.entries, h'.reaped.trans h.reaped,
    h'.slot.trans h.slot⟩

theorem AlikeFor.refl (j : Fin n) (s : Proc n) : AlikeFor j s s :=
  ⟨⟨rfl, rfl, rfl, rfl, rfl, rfl, rfl, rfl, rfl, rfl, rfl, rfl, rfl⟩, rfl⟩

theorem AlikeFor.symm {j : Fin n} {s s' : Proc n} (h : AlikeFor j s s') : AlikeFor j s' s :=
  ⟨h.ri.symm, h.out.symm⟩

theorem AlikeFor.trans {j : Fin n} {s s' s'' : Proc n} (h : AlikeFor j s s')
    (h' : AlikeFor j s' s'') : AlikeFor j s s'' :=
  ⟨h.ri.trans h'.ri, h'.out.trans h.out⟩

/-- An entry that a request to peer `i` needs was compacted: the one before the next index, unless
its term is cached, or the one at the next index. -/
def RaftInstance.OutOfRange (ri : RaftInstance n) (i : Fin n) : Prop :=
  ((ri.followerInfo i).nextIdx ≠ 0 ∧ (ri.followerInfo i).prevIdxTerm < 0 ∧
      (ri.followerInfo i).nextIdx - 1 < ri.lowestIdx) ∨
    ((ri.followerInfo i).nextIdx ≤ ri.newestUnsync.index ∧
      (ri.followerInfo i).nextIdx < ri.lowestIdx)

instance (ri : RaftInstance n) (i : Fin n) : Decidable (ri.OutOfRange i) :=
  inferInstanceAs (Decidable (_ ∨ _))

/-- There is an entry for peer `i`, and the leader does not wait for an answer. -/
def RaftInstance.Due (ri : RaftInstance n) (clock : RaftServer.SendClock n) (i : Fin n) : Prop :=
  (ri.followerInfo i).nextIdx ≤ ri.newestUnsync.index ∧ (clock.sinceLastUnacked i).any fun since =>
    !decide (0 < since ∧ clock.nowMsec ≤ (ri.followerInfo i).aeSendsWaitUntil)

instance (ri : RaftInstance n) (clock : RaftServer.SendClock n) (i : Fin n) :
    Decidable (ri.Due clock i) :=
  inferInstanceAs (Decidable (_ ∧ _))

/-- A peer before `j` is sent to and turns the heartbeat flag on. -/
def RaftInstance.FlagRaised (ri : RaftInstance n) (clock : RaftServer.SendClock n) (j : Fin n) : Prop :=
  ∃ i < j, i ≠ ri.self ∧ ri.Due clock i ∧ ri.OutOfRange i

theorem SameFor.outOfRange {j : Fin n} {ri ri' : RaftInstance n} (h : SameFor j ri ri') :
    ri'.OutOfRange j ↔ ri.OutOfRange j := by
  unfold RaftInstance.OutOfRange
  rw [h.slot, h.lowest, h.newest]

theorem SameFor.due {j : Fin n} {ri ri' : RaftInstance n} {clock clock' : RaftServer.SendClock n}
    (h : SameFor j ri ri') (hnow : clock'.nowMsec = clock.nowMsec)
    (hsince : clock'.sinceLastUnacked j = clock.sinceLastUnacked j) :
    ri'.Due clock' j ↔ ri.Due clock j := by
  unfold RaftInstance.Due
  rw [h.slot, h.newest, hnow, hsince]

/-! ## A round for the follower -/

namespace RaftServer

open RaftInstance

variable {j : Fin n} {s s' : Proc n}

theorem SameFor.setSlot {ri ri' : RaftInstance n} (h : SameFor j ri ri') (rfi : FollowerInfo) :
    SameFor j (ri.setFollowerInfo j rfi) (ri'.setFollowerInfo j rfi) :=
  ⟨h.self, h.opts, h.procState, h.state, h.term, h.leaderTerm, h.commit, h.lowest, h.checkpoint,
    h.newest, h.entries, h.reaped, by rw [followerInfo_set, followerInfo_set]⟩

theorem alike_setSlot (h : AlikeFor j s s') (rfi : FollowerInfo) :
    Alike (AlikeFor j) (modifyRi fun ri => ri.setFollowerInfo j rfi)
      (modifyRi fun ri => ri.setFollowerInfo j rfi) s s' :=
  .modify ⟨SameFor.setSlot h.ri rfi, h.out⟩

theorem alike_entryReadByStoreCommon (h : AlikeFor j s s') (idx : Int) :
    Alike (AlikeFor j) (entryReadByStoreCommon idx) (entryReadByStoreCommon idx) s s' := by
  obtain ⟨⟨_, _, hproc, _, _, _, _, hlow, _, hnew, hent, hreap, _⟩, _⟩ := id h
  have hread : s'.ri.store.db.read = s.ri.store.db.read := by
    unfold Db.read
    rw [hent, hreap]
  have hidx : s'.ri.currentIdx .unsync = s.ri.currentIdx .unsync := by
    simp [currentIdx, newestHeader, hnew]
  refine .gets_bind ?_
  rw [hproc, hlow, hidx, hread]
  refine .assert_bind h fun _ => .assert_bind h fun _ => .ite (fun _ => .pure h) fun _ => ?_
  cases s.ri.store.db.read idx.toNat with
  | none => exact .abort h
  | some re => exact .pure h

theorem entryValidate_congr (h : SameFor j s.ri s'.ri) :
    entryValidate s'.ri = entryValidate s.ri := by
  unfold entryValidate entryMaxDataSize
  rw [h.opts]

theorem alike_entryHeaderReadByStore (h : AlikeFor j s s') (idx : Int) :
    Alike (AlikeFor j) (entryHeaderReadByStore idx) (entryHeaderReadByStore idx) s s' := by
  refine .ite (fun _ => .pure h) fun _ => .gets_bind ?_
  rw [entryValidate_congr h.ri]
  exact .bind (alike_entryReadByStoreCommon h idx) fun re t t' _ ht => .pure ht

theorem alike_entryRead [Externals] (h : AlikeFor j s s') (idx : Int) (len : Nat) :
    Alike (AlikeFor j) (entryRead idx len) (entryRead idx len) s s' := by
  refine .gets_bind ?_
  rw [entryValidate_congr h.ri]
  exact .bind (alike_entryReadByStoreCommon h idx) fun re t t' _ ht => .pure ht

theorem alike_refreshPrev (h : AlikeFor j s s') :
    Alike (AlikeFor j) (refreshPrev j) (refreshPrev j) s s' := by
  have hidx : s'.ri.currentIdx .unsync = s.ri.currentIdx .unsync := by
    simp [currentIdx, newestHeader, h.ri.newest]
  refine .gets_bind ?_
  dsimp only
  rw [h.ri.slot, hidx]
  refine .ite (fun _ => .pure h) fun _ => .assert_bind h fun _ => .assert_bind h fun _ => ?_
  refine .bind (alike_entryHeaderReadByStore h _) fun reh t t' _ ht => ?_
  cases reh with
  | error rc => exact .bind (alike_setSlot ht _) fun _ u u' _ hu => .pure hu
  | ok reh =>
    exact .fatalIf_bind ht fun _ => .bind (alike_setSlot ht _) fun _ u u' _ hu => .pure hu

theorem alike_refreshCurrent (h : AlikeFor j s s') :
    Alike (AlikeFor j) (refreshCurrent j) (refreshCurrent j) s s' := by
  have hidx : s'.ri.currentIdx .unsync = s.ri.currentIdx .unsync := by
    simp [currentIdx, newestHeader, h.ri.newest]
  refine .gets_bind ?_
  dsimp only
  rw [h.ri.slot, hidx]
  refine .ite (fun _ => .pure h) fun _ => ?_
  refine .bind (alike_entryHeaderReadByStore h _) fun reh t t' _ ht => ?_
  cases reh with
  | error rc => exact .bind (alike_setSlot ht _) fun _ u u' _ hu => .pure hu
  | ok reh => exact .bind (alike_setSlot ht _) fun _ u u' _ hu => .pure hu

theorem alike_refreshFollowerPrevLogTerm (h : AlikeFor j s s') :
    Alike (AlikeFor j) (refreshFollowerPrevLogTerm j) (refreshFollowerPrevLogTerm j) s s' := by
  have hlead : s'.ri.isLeader = s.ri.isLeader := by simp [isLeader, h.ri.state]
  refine .gets_bind ?_
  rw [h.ri.slot, hlead]
  refine .assert_bind h fun _ => .assert_bind h fun _ => .bind (.modify ⟨?_, h.out⟩) fun _ t t' _ ht =>
    .bind (alike_refreshPrev ht) fun rc u u' _ hu => ?_
  · dsimp only
    rw [h.ri.slot]
    exact SameFor.setSlot h.ri _
  · cases rc with
    | error rc => exact .pure hu
    | ok _ => exact alike_refreshCurrent hu

theorem alike_attachEntry [Externals] (h : AlikeFor j s s') (m : AppendEntriesRequestMsg) :
    Alike (AlikeFor j) (attachEntry m) (attachEntry m) s s' := by
  refine .bind (alike_entryHeaderReadByStore h _) fun reh t t' _ ht => ?_
  cases reh with
  | error rc =>
    cases rc with
    | ERANGE => exact .pure ht
    | _ => exact .abort ht
  | ok reh =>
    refine .assert_bind ht fun _ => .ite (fun _ => .pure ht) fun _ => ?_
    refine .bind (alike_entryRead ht _ _) fun data u u' _ hu => ?_
    cases data with
    | error rc =>
      cases rc with
      | ERANGE => exact .pure hu
      | _ => exact .abort hu
    | ok data => exact .pure hu

theorem alike_sendMsg (h : AlikeFor j s s') (msg : RpcMsg n) :
    Alike (AlikeFor j) (sendMsg (some j) msg) (sendMsg (some j) msg) s s' := by
  refine .modify ⟨h.ri, ?_⟩
  have hout := h.out
  unfold messagesTo at hout ⊢
  simp only [List.filter_append]
  rw [hout]

theorem alike_appendEntryShouldSendToFollower {clock clock' : SendClock n} (h : AlikeFor j s s')
    (hnow : clock'.nowMsec = clock.nowMsec)
    (hsince : clock'.sinceLastUnacked j = clock.sinceLastUnacked j) :
    Alike (AlikeFor j) (appendEntryShouldSendToFollower clock j)
      (appendEntryShouldSendToFollower clock' j) s s' := by
  have hidx : s'.ri.currentIdx .unsync = s.ri.currentIdx .unsync := by
    simp [currentIdx, newestHeader, h.ri.newest]
  refine .gets_bind ?_
  dsimp only
  rw [h.ri.slot, hidx, hnow, hsince]
  cases clock.sinceLastUnacked j with
  | none => exact .pure h
  | some since =>
    refine .bind (alike_setSlot h _) fun _ t t' _ ht => .ite (fun _ => ?_) fun _ => .pure ht
    exact .assert_bind ht fun _ => .pure ht

/-! ## What a round does -/

section Round

variable {i : Fin n} {D : Proc n → Prop}

/-- No more than the slot of `i` was changed, and its next index was kept. -/
def OnlySlot (i : Fin n) (s s' : Proc n) : Prop :=
  ∃ rfi : FollowerInfo, s' = { s with ri := s.ri.setFollowerInfo i rfi } ∧
    rfi.nextIdx = (s.ri.followerInfo i).nextIdx

theorem OnlySlot.refl (i : Fin n) (s : Proc n) : OnlySlot i s s :=
  ⟨_, by rw [setFollowerInfo_self], rfl⟩

theorem OnlySlot.trans {s t u : Proc n} (h : OnlySlot i s t) (h' : OnlySlot i t u) :
    OnlySlot i s u := by
  obtain ⟨rfi, rfl, hnext⟩ := h
  obtain ⟨rfi', rfl, hnext'⟩ := h'
  rw [followerInfo_set] at hnext'
  exact ⟨rfi', by simp, hnext'.trans hnext⟩

theorem wp_refreshPrev_range :
    (refreshPrev i).wp (fun rc s' => OnlySlot i s s' ∧
      (rc = .ok () → 0 ≤ (s.ri.followerInfo i).prevIdxTerm ∨
        s.ri.lowestIdx ≤ (s.ri.followerInfo i).nextIdx - 1) ∧
      (rc = .error .ERANGE → (s.ri.followerInfo i).prevIdxTerm < 0 ∧
        (s.ri.followerInfo i).nextIdx - 1 < s.ri.lowestIdx)) (fun _ => True) s := by
  simp only [refreshPrev, wp_bind, wp_getRi, wp_ite, wp_pure, wp_assert]
  refine ⟨fun hcached => ⟨.refl i s, fun _ => .inl hcached, fun h => (by cases h)⟩, fun hneg =>
    ⟨fun _ => ⟨fun _ => ?_, fun _ => trivial⟩, fun _ => trivial⟩⟩
  refine wp_entryHeaderReadByStore_validated trivial (fun rc hrc => ?_) fun re _ hlow _ _ => ?_
  · simp only [wp_bind, wp_modifyRi, wp_pure]
    refine ⟨⟨_, rfl, rfl⟩, fun h => (by cases h), fun h => ?_⟩
    cases h
    exact ⟨not_le.mp hneg, hrc.lt_lowest⟩
  · simp only [wp_bind, wp_fatalIf, wp_modifyRi, wp_pure]
    exact ⟨fun _ => trivial, fun _ => ⟨⟨_, rfl, rfl⟩, fun _ => .inr hlow, fun h => (by cases h)⟩⟩

theorem wp_refreshCurrent_range :
    (refreshCurrent i).wp (fun rc s' => OnlySlot i s s' ∧
      (rc = .ok () → s.ri.newestUnsync.index < (s.ri.followerInfo i).nextIdx ∨
        s.ri.lowestIdx ≤ (s.ri.followerInfo i).nextIdx) ∧
      (rc = .error .ERANGE → (s.ri.followerInfo i).nextIdx ≤ s.ri.newestUnsync.index ∧
        (s.ri.followerInfo i).nextIdx < s.ri.lowestIdx)) (fun _ => True) s := by
  refine wp_refreshCurrent trivial (fun hpast => ?_) (fun re hlow hle _ => ?_) fun rc hle hrc => ?_
  · exact ⟨.refl i s, fun _ => .inl hpast, fun h => (by cases h)⟩
  · exact ⟨⟨_, rfl, rfl⟩, fun _ => .inr hlow, fun h => (by cases h)⟩
  · refine ⟨⟨_, rfl, rfl⟩, fun h => (by cases h), fun h => ?_⟩
    cases h
    exact ⟨hle, hrc.lt_lowest⟩

/-- The refresh fails with `-ERANGE` when the peer is out of range. -/
theorem wp_refreshFollowerPrevLogTerm_range :
    (refreshFollowerPrevLogTerm i).wp (fun rc s' => OnlySlot i s s' ∧
      (rc = .ok () → ¬ s.ri.OutOfRange i) ∧ (rc = .error .ERANGE → s.ri.OutOfRange i))
      (fun _ => True) s := by
  have hnext : (FollowerInfo.beforeRefresh (s.ri.followerInfo i)).nextIdx =
      (s.ri.followerInfo i).nextIdx := by
    unfold FollowerInfo.beforeRefresh
    split <;> rfl
  have hprev : (s.ri.followerInfo i).nextIdx = 0 ∧
        (FollowerInfo.beforeRefresh (s.ri.followerInfo i)).prevIdxTerm = 0 ∨
      (s.ri.followerInfo i).nextIdx ≠ 0 ∧ (FollowerInfo.beforeRefresh
        (s.ri.followerInfo i)).prevIdxTerm = (s.ri.followerInfo i).prevIdxTerm := by
    unfold FollowerInfo.beforeRefresh
    split
    · exact .inl ⟨‹_›, rfl⟩
    · exact .inr ⟨‹_›, rfl⟩
  simp only [refreshFollowerPrevLogTerm, wp_bind, wp_getRi, wp_assert, wp_modifyRi]
  refine ⟨fun _ => ⟨fun _ => ?_, fun _ => trivial⟩, fun _ => trivial⟩
  set s₀ : Proc n := ⟨s.ri.setFollowerInfo i (FollowerInfo.beforeRefresh (s.ri.followerInfo i)),
    s.out, s.trace, s.fuse⟩ with hs₀
  have h₀ : OnlySlot i s s₀ := ⟨_, rfl, hnext⟩
  refine wp_mono wp_refreshPrev_range (fun rc s₁ h => ?_) fun _ h => h
  obtain ⟨h₁, hok, herr⟩ := h
  have hslot : s₀.ri.followerInfo i = FollowerInfo.beforeRefresh (s.ri.followerInfo i) :=
    followerInfo_set ..
  have hlow : s₀.ri.lowestIdx = s.ri.lowestIdx := rfl
  rw [hslot, hnext, hlow] at hok herr
  cases rc with
  | error rc =>
    refine ⟨h₀.trans h₁, fun h => (by cases h), fun h => .inl ?_⟩
    obtain ⟨hneg, hlt⟩ := herr (by cases h; rfl)
    omega
  | ok u =>
    have hread := hok rfl
    refine wp_mono wp_refreshCurrent_range (fun rc s₂ h => ?_) fun _ h => h
    obtain ⟨h₂, hok', herr'⟩ := h
    have hsame := h₁
    obtain ⟨rfi, rfl, hrfi⟩ := hsame
    simp only [followerInfo_set, hrfi, hslot, hnext] at hok' herr'
    refine ⟨(h₀.trans h₁).trans h₂, fun h => ?_, fun h => .inr (herr' h)⟩
    rintro (⟨h1, h2, h3⟩ | ⟨h1, h2⟩)
    · omega
    · have hcur := hok' h
      change s.ri.newestUnsync.index < _ ∨ s.ri.lowestIdx ≤ _ at hcur
      omega

theorem wp_leaderInitAppendEntryMsg_range {heartbeat : Bool} :
    (leaderInitAppendEntryMsg i heartbeat).wp (fun r s' => OnlySlot i s s' ∧
      r.2 = decide (s.ri.OutOfRange i) ∧ r.1.heartbeatMsg = (heartbeat || r.2) ∧
      r.1.prevLogIndex + 1 = (s.ri.followerInfo i).nextIdx) (fun _ => True) s := by
  rw [leaderInitAppendEntryMsg, wp_bind]
  refine wp_mono wp_refreshFollowerPrevLogTerm_range (fun rc s' h => ?_) fun _ h => h
  obtain ⟨hslot, hok, herr⟩ := h
  simp only [wp_bind, wp_assert, wp_getRi, wp_pure]
  refine ⟨fun hrc => ⟨fun _ => ⟨hslot, ?_, trivial, ?_⟩, fun _ => trivial⟩, fun _ => trivial⟩
  · rcases hrc with hrc | hrc
    · have hrange := hok (eq_ok_of_isOk hrc)
      simp [hrc, hrange]
    · have hrange := herr hrc
      simp [hrc, hrange, Except.isOk, Except.toBool]
  · obtain ⟨rfi, rfl, hnext⟩ := hslot
    rw [followerInfo_set]
    omega

/-- Waiting for a peer has nothing to do with its range. -/
theorem outOfRange_wait {ri : RaftInstance n} {wait : Nat} :
    (ri.setFollowerInfo i { ri.followerInfo i with aeSendsWaitUntil := wait }).OutOfRange i ↔
      ri.OutOfRange i := by
  unfold RaftInstance.OutOfRange
  rw [followerInfo_set]
  rfl

/-- The other peers do not depend on the slot of `i`. -/
theorem due_outOfRange_set {ri : RaftInstance n} {clock : SendClock n} {q : Fin n}
    (rfi : FollowerInfo) (h : q ≠ i) :
    ((ri.setFollowerInfo i rfi).Due clock q ∧ (ri.setFollowerInfo i rfi).OutOfRange q) ↔
      (ri.Due clock q ∧ ri.OutOfRange q) := by
  unfold RaftInstance.Due RaftInstance.OutOfRange
  rw [followerInfo_set_of_ne _ _ h]
  rfl

theorem wp_appendEntryShouldSendToFollower_due {clock : SendClock n} :
    (appendEntryShouldSendToFollower clock i).wp (fun send s' => send = decide (s.ri.Due clock i) ∧
      ∃ wait : Nat, s' = { s with
        ri := s.ri.setFollowerInfo i { s.ri.followerInfo i with aeSendsWaitUntil := wait } })
      (fun _ => True) s := by
  simp only [appendEntryShouldSendToFollower, wp_bind, wp_getRi]
  cases hsince : clock.sinceLastUnacked i with
  | none =>
    refine ⟨?_, (s.ri.followerInfo i).aeSendsWaitUntil, by rw [setFollowerInfo_self]⟩
    simp [RaftInstance.Due, hsince]
  | some since =>
    simp only [wp_bind, wp_modifyRi, wp_ite, wp_assert, wp_pure]
    refine ⟨fun hpast => ⟨fun _ => ⟨?_, _, rfl⟩, fun _ => trivial⟩, fun hin => ⟨?_, _, rfl⟩⟩
    · have hno : ¬ (s.ri.followerInfo i).nextIdx ≤ s.ri.newestUnsync.index := not_le.mpr hpast
      simp [RaftInstance.Due, hno]
    · have hle : (s.ri.followerInfo i).nextIdx ≤ s.ri.newestUnsync.index := not_lt.mp hin
      simp only [RaftInstance.Due, hsince, Option.any_some, hle, true_and, Bool.decide_eq_true,
        gt_iff_lt]

variable [Externals]

/-- A request is sent, as a heartbeat when the flag is on, the peer is out of range or there is no
entry for it. -/
theorem wp_appendEntrySendTo_range {my : Int} {heartbeat : Bool}
    (hmy : my = s.ri.newestUnsync.index) :
    (appendEntrySendTo my i heartbeat).wp (fun flag s' =>
      flag = (heartbeat || decide (s.ri.OutOfRange i)) ∧ ∃ rfi m,
        s' = { s with
          ri := s.ri.setFollowerInfo i rfi
          out := s.out ++ [(i, .appendEntriesRequest m)] } ∧
        m.heartbeatMsg = (heartbeat || decide (s.ri.OutOfRange i) ||
          decide (my < (s.ri.followerInfo i).nextIdx))) (fun _ => True) s := by
  rw [appendEntrySendTo, wp_bind]
  refine wp_mono wp_leaderInitAppendEntryMsg_range (fun r s' h => ?_) fun _ h => h
  obtain ⟨m, stale⟩ := r
  obtain ⟨⟨rfi, rfl, -⟩, hstale, hheartbeat, hidx⟩ := h
  simp only at hstale hheartbeat hidx
  subst hstale
  simp only [wp_bind, wp_assert, wp_fatalIf, wp_ite]
  refine ⟨fun _ => ⟨fun _ => trivial, fun _ => ⟨fun hcarry => ?_, fun hbeat => ?_⟩⟩, fun _ => trivial⟩
  · obtain ⟨hflag, hle⟩ := hcarry
    rw [hidx] at hle
    have hrange : ¬ s.ri.OutOfRange i := by
      intro h
      simp [h] at hflag
    refine wp_attachEntry trivial (fun hlow => ?_) fun re _ => ?_
    · refine absurd (.inr ⟨by omega, ?_⟩) hrange
      rw [hidx] at hlow
      exact hlow
    · simp only [wp_bind, wp_sendMsg_some, wp_pure]
      refine ⟨trivial, rfi, _, rfl, ?_⟩
      simp only [AppendEntriesRequestMsg.withEntry, hheartbeat]
      simp [not_lt.mpr hle]
  · simp only [wp_sendMsg_some, wp_pure]
    refine ⟨trivial, rfi, _, rfl, ?_⟩
    rw [hidx] at hbeat
    by_cases hflag : (heartbeat || decide (s.ri.OutOfRange i)) = false
    · have hlt : my < (s.ri.followerInfo i).nextIdx := not_le.mp fun hle => hbeat ⟨hflag, hle⟩
      simp [hlt]
    · simp [eq_true_of_ne_false hflag]

/-- The body of the loop of `raft_server_append_entry_sender`, for a peer. -/
def senderRound (clock : SendClock n) (my : Int) (peer : Fin n) (heartbeat : Bool) :
    Server n Bool := do
  let send ← appendEntryShouldSendToFollower clock peer
  if send = false ∧ heartbeat = false then pure heartbeat
  else appendEntrySendTo my peer heartbeat

theorem appendEntrySenderLoop_cons {clock : SendClock n} {my : Int} {peer : Fin n}
    {peers : List (Fin n)} {heartbeat : Bool} :
    appendEntrySenderLoop clock my (peer :: peers) heartbeat s =
      if peer = s.ri.self then appendEntrySenderLoop clock my peers heartbeat s
      else (senderRound clock my peer heartbeat >>= appendEntrySenderLoop clock my peers) s := by
  by_cases hself : peer = s.ri.self
  · rw [if_pos hself]
    change (if peer = s.ri.self then _ else _ : Server n Unit) s = _
    rw [if_pos hself]
  · rw [if_neg hself]
    change (if peer = s.ri.self then _ else _ : Server n Unit) s = _
    rw [if_neg hself]
    simp only [senderRound, bind, andThen]
    cases appendEntryShouldSendToFollower clock peer s with
    | abort d => rfl
    | ok send t =>
      dsimp only
      by_cases hskip : send = false ∧ heartbeat = false
      · rw [if_pos hskip, if_pos hskip]
        rfl
      · rw [if_neg hskip, if_neg hskip]
        rfl

/-- What a round sends to its peer. -/
structure RoundSends (ri : RaftInstance n) (clock : SendClock n) (i : Fin n) (heartbeat : Bool)
    (ms : List (Fin n × RpcMsg n)) : Prop where
  none : heartbeat = false → ¬ ri.Due clock i → ms = []
  one : heartbeat = true ∨ ri.Due clock i → ∃ m, ms = [(i, .appendEntriesRequest m)] ∧
    m.heartbeatMsg = (heartbeat || decide (ri.OutOfRange i))

omit [Externals] in
theorem RoundSends.peer {ri : RaftInstance n} {clock : SendClock n} {heartbeat : Bool}
    {ms : List (Fin n × RpcMsg n)} (h : RoundSends ri clock i heartbeat ms) : ∀ x ∈ ms, x.1 = i := by
  by_cases hsent : heartbeat = true ∨ ri.Due clock i
  · obtain ⟨m, rfl, -⟩ := h.one hsent
    simp
  · rw [h.none (eq_false_of_ne_true fun hb => hsent (.inl hb)) fun hd => hsent (.inr hd)]
    simp

/-- A round changes its slot, sends to its peer, and keeps the flag unless the peer is sent to and
out of range. -/
theorem wp_senderRound {clock : SendClock n} {my : Int} {heartbeat : Bool}
    (hmy : my = s.ri.newestUnsync.index) :
    (senderRound clock my i heartbeat).wp (fun flag s' =>
      flag = (heartbeat || decide (s.ri.Due clock i ∧ s.ri.OutOfRange i)) ∧ ∃ rfi ms,
        s' = { s with ri := s.ri.setFollowerInfo i rfi, out := s.out ++ ms } ∧
        RoundSends s.ri clock i heartbeat ms) (fun _ => True) s := by
  rw [senderRound, wp_bind]
  refine wp_mono wp_appendEntryShouldSendToFollower_due (fun send s₁ h => ?_) fun _ h => h
  obtain ⟨rfl, wait, rfl⟩ := h
  rw [wp_ite]
  refine ⟨fun hskip => ?_, fun hsend => ?_⟩
  · have hdue : ¬ s.ri.Due clock i := by simpa using hskip.1
    refine ⟨by simp [hdue], _, [], by rw [List.append_nil], fun _ _ => rfl, fun hor => ?_⟩
    exact (hor.elim (fun hb => by simp [hb] at hskip) hdue).elim
  · refine wp_mono (wp_appendEntrySendTo_range hmy) (fun flag s₂ h => ?_) fun _ h => h
    obtain ⟨hflag, rfi, m, rfl, hm⟩ := h
    simp only [outOfRange_wait] at hflag hm
    simp only [followerInfo_set] at hm
    -- a peer that is sent to without the flag is due
    have hdue : heartbeat = true ∨ s.ri.Due clock i := by
      cases heartbeat with
      | true => exact .inl rfl
      | false => exact .inr (by simpa using hsend)
    refine ⟨?_, rfi, _, by rw [setFollowerInfo_set], fun hb hd => (hdue.elim (by simp [hb]) hd).elim,
      fun _ => ⟨m, rfl, ?_⟩⟩
    · rw [hflag]
      rcases hdue with rfl | hd
      · rfl
      · simp [hd]
    · rw [hm]
      rcases hdue with rfl | hd
      · rfl
      · have hle : ¬ my < (s.ri.followerInfo i).nextIdx := by
          rw [hmy]
          exact not_lt.mpr hd.1
        simp [hle]

/-! ## The flag -/

omit [Externals] in
/-- The flag makes no difference to a peer that is out of range. -/
theorem alike_leaderInitAppendEntryMsg (h : AlikeFor i s s') {heartbeat heartbeat' : Bool}
    (hflag : heartbeat' = heartbeat ∨ s.ri.OutOfRange i) :
    Alike (AlikeFor i) (leaderInitAppendEntryMsg i heartbeat) (leaderInitAppendEntryMsg i heartbeat')
      s s' := by
  refine .bind (alike_refreshFollowerPrevLogTerm h) fun rc t t' hres ht => .assert_bind ht fun _ =>
    .gets_bind ?_
  obtain ⟨-, hok, -⟩ := wp_of_ok hres wp_refreshFollowerPrevLogTerm_range
  have hbeat : (heartbeat' || !rc.isOk) = (heartbeat || !rc.isOk) := by
    rcases hflag with rfl | hrange
    · rfl
    · cases rc with
      | ok u => exact absurd hrange (hok rfl)
      | error rc => simp [Except.isOk, Except.toBool]
  have hlead : t'.ri.isLeader = t.ri.isLeader := by simp [isLeader, ht.ri.state]
  dsimp only
  rw [hbeat, hlead, ht.ri.leaderTerm, ht.ri.term, ht.ri.slot, ht.ri.commit, ht.ri.lowest,
    ht.ri.checkpoint]
  exact .assert_bind ht fun _ => .pure ht

theorem alike_appendEntrySendTo (h : AlikeFor i s s') (my : Int) {heartbeat heartbeat' : Bool}
    (hflag : heartbeat' = heartbeat ∨ s.ri.OutOfRange i) :
    Alike (AlikeFor i) (appendEntrySendTo my i heartbeat) (appendEntrySendTo my i heartbeat') s s' := by
  refine .bind (alike_leaderInitAppendEntryMsg h hflag) fun built t t' hres ht => ?_
  obtain ⟨-, hstale, -⟩ := wp_of_ok hres wp_leaderInitAppendEntryMsg_range
  have hbeat : (heartbeat' || built.2) = (heartbeat || built.2) := by
    rcases hflag with rfl | hrange
    · rfl
    · rw [hstale]
      simp [hrange]
  dsimp only
  rw [hbeat]
  refine .assert_bind ht fun _ => .fatalIf_bind ht fun _ => .ite (fun _ => ?_) fun _ => ?_
  · refine .bind (alike_attachEntry ht _) fun msg u u' _ hu => ?_
    cases msg with
    | none => exact .pure hu
    | some msg => exact .bind (alike_sendMsg hu _) fun _ v v' _ hv => .pure hv
  · exact .bind (alike_sendMsg ht _) fun _ v v' _ hv => .pure hv

/-- What a peer is sent depends on its slot and the flag, and not on the flag if the peer is due and
out of range. -/
theorem alike_senderRound {clock clock' : SendClock n} (h : AlikeFor i s s')
    (hnow : clock'.nowMsec = clock.nowMsec)
    (hsince : clock'.sinceLastUnacked i = clock.sinceLastUnacked i) (my : Int)
    {heartbeat heartbeat' : Bool}
    (hflag : heartbeat' = heartbeat ∨ s.ri.Due clock i ∧ s.ri.OutOfRange i) :
    Alike (AlikeFor i) (senderRound clock my i heartbeat) (senderRound clock' my i heartbeat')
      s s' := by
  refine .bind (alike_appendEntryShouldSendToFollower h hnow hsince) fun send t t' hres ht => ?_
  obtain ⟨hsend, wait, rfl⟩ := wp_of_ok hres wp_appendEntryShouldSendToFollower_due
  rcases hflag with rfl | ⟨hdue, hrange⟩
  · exact .ite (fun _ => .pure ht) fun _ => alike_appendEntrySendTo ht my (.inl rfl)
  · have htrue : send = true := by rw [hsend]; simp [hdue]
    subst htrue
    refine alike_appendEntrySendTo ht my (.inr ?_)
    rw [outOfRange_wait]
    exact hrange

/-- Until it is the turn of `j`, the flag may be turned on, and nothing else that matters to `j`
changes. -/
theorem senderLoop_until {clock : SendClock n} {my : Int} {t : Proc n} {r : List (Fin n)}
    (l : List (Fin n)) {s : Proc n} {heartbeat : Bool} (hmy : my = s.ri.newestUnsync.index)
    (hj : j ∉ l) (hnodup : l.Nodup)
    (hres : appendEntrySenderLoop clock my (l ++ r) heartbeat s = .ok () t) :
    ∃ s₁ flag, AlikeFor j s s₁ ∧
      (flag = true ↔ heartbeat = true ∨
        ∃ i ∈ l, i ≠ s.ri.self ∧ s.ri.Due clock i ∧ s.ri.OutOfRange i) ∧
      appendEntrySenderLoop clock my r flag s₁ = .ok () t := by
  induction l generalizing s heartbeat with
  | nil => exact ⟨s, heartbeat, .refl j s, by simp, hres⟩
  | cons i l ih =>
    rw [List.cons_append, appendEntrySenderLoop_cons] at hres
    rw [List.nodup_cons] at hnodup
    rw [List.mem_cons, not_or] at hj
    split at hres
    · rename_i hself
      obtain ⟨s₁, flag, halike, hflag, hrest⟩ := ih hmy hj.2 hnodup.2 hres
      refine ⟨s₁, flag, halike, ?_, hrest⟩
      rw [hflag]
      simp [hself]
    · rename_i hself
      simp only [bind, andThen] at hres
      cases hround : senderRound clock my i heartbeat s with
      | abort d => simp [hround] at hres
      | ok b s' =>
        rw [hround] at hres
        obtain ⟨hb, rfi, ms, rfl, hms⟩ := wp_of_ok hround (wp_senderRound hmy)
        obtain ⟨s₁, flag, halike, hflag, hrest⟩ := ih (by exact hmy) hj.2 hnodup.2 hres
        have hstep : AlikeFor j s { s with ri := s.ri.setFollowerInfo i rfi, out := s.out ++ ms } := by
          refine ⟨⟨rfl, rfl, rfl, rfl, rfl, rfl, rfl, rfl, rfl, rfl, rfl, rfl, ?_⟩, ?_⟩
          · exact followerInfo_set_of_ne _ _ hj.1
          · have hnone : ms.filter (fun m => decide (m.1 = j)) = [] := by
              rw [List.filter_eq_nil_iff]
              intro x hx
              rw [hms.peer x hx]
              simpa using Ne.symm hj.1
            simp [messagesTo, hnone]
        refine ⟨s₁, flag, hstep.trans halike, ?_, hrest⟩
        have hothers : (∃ q ∈ l, q ≠ s.ri.self ∧ (s.ri.setFollowerInfo i rfi).Due clock q ∧
            (s.ri.setFollowerInfo i rfi).OutOfRange q) ↔
            ∃ q ∈ l, q ≠ s.ri.self ∧ s.ri.Due clock q ∧ s.ri.OutOfRange q := by
          refine exists_congr fun q => and_congr_right fun hq => and_congr_right fun _ => ?_
          exact due_outOfRange_set rfi fun heq => hnodup.1 (heq ▸ hq)
        rw [hflag, hb, Bool.or_eq_true, decide_eq_true_eq]
        refine Iff.trans (or_congr_right hothers) ?_
        simp only [List.mem_cons, exists_eq_or_imp, or_assoc]
        refine or_congr_right (or_congr_left ?_)
        exact ⟨fun h => ⟨hself, h⟩, fun h => h.2⟩

/-- The messages for `j` are those of its round, which is reached with the flag on if it was given or
a peer before `j` has turned it on. -/
theorem sender_round {ri : RaftInstance n} {clock : SendClock n} {heartbeat : Bool} {t : Proc n}
    (hj : j ≠ ri.self) (hlead : ri.state = .leader) (hidx : 0 ≤ ri.newestUnsync.index)
    (hres : appendEntrySender clock heartbeat ⟨ri, [], [], none⟩ = .ok () t) :
    ∃ s₁ flag flag' s₂, AlikeFor j ⟨ri, [], [], none⟩ s₁ ∧
      (flag = true ↔ heartbeat = true ∨ ri.FlagRaised clock j) ∧
      senderRound clock ri.newestUnsync.index j flag s₁ = .ok flag' s₂ ∧
      messagesTo j t.out = messagesTo j s₂.out := by
  obtain ⟨l, r, hpeers⟩ := List.append_of_mem (List.mem_finRange j)
  have hsorted := List.pairwise_lt_finRange n
  rw [hpeers, List.pairwise_append, List.pairwise_cons] at hsorted
  obtain ⟨hl, ⟨hafter, hr⟩, hbefore⟩ := hsorted
  have hlt : ∀ i, i ∈ l ↔ i < j := by
    intro i
    refine ⟨fun hi => hbefore i hi j List.mem_cons_self, fun hi => ?_⟩
    have hmem := List.mem_finRange i
    rw [hpeers, List.mem_append, List.mem_cons] at hmem
    rcases hmem with h | rfl | h
    · exact h
    · exact absurd hi (lt_irrefl _)
    · exact absurd (hafter i h) (lt_asymm hi)
  have hloop : appendEntrySenderLoop clock ri.newestUnsync.index (l ++ j :: r) heartbeat
      ⟨ri, [], [], none⟩ = .ok () t := by
    rw [← hpeers, ← hres]
    have hcond : ri.isLeader = true ∧ 0 ≤ ri.currentIdx .unsync := ⟨by simp [isLeader, hlead], hidx⟩
    change _ = whenever (ri.isLeader = true ∧ 0 ≤ ri.currentIdx .unsync) _ _
    rw [whenever, if_pos hcond]
    rfl
  obtain ⟨s₁, flag, halike, hflag, hrest⟩ := senderLoop_until (s := ⟨ri, [], [], none⟩) l rfl
    (fun h => absurd ((hlt j).mp h) (lt_irrefl _)) (hl.imp fun h => ne_of_lt h) hloop
  have hself : s₁.ri.self = ri.self := halike.ri.self
  rw [appendEntrySenderLoop_cons, if_neg (by rw [hself]; exact hj)] at hrest
  simp only [bind, andThen] at hrest
  cases hround : senderRound clock ri.newestUnsync.index j flag s₁ with
  | abort d => simp [hround] at hrest
  | ok flag' s₂ =>
    rw [hround] at hrest
    have hnew : ri.newestUnsync.index = s₁.ri.newestUnsync.index := by rw [halike.ri.newest]
    obtain ⟨-, rfi, ms, hs₂, -⟩ := wp_of_ok hround (wp_senderRound hnew)
    have hrest' : appendEntrySenderLoop clock ri.newestUnsync.index (r ++ []) flag' s₂ = .ok () t := by
      rw [List.append_nil]
      exact hrest
    obtain ⟨s₃, _, hlast, _, hend⟩ := senderLoop_until (j := j) r (by rw [hs₂]; exact hnew)
      (fun h => absurd (hafter j h) (lt_irrefl _)) (hr.imp fun h => ne_of_lt h) hrest'
    obtain rfl : s₃ = t := by
      cases hend
      rfl
    refine ⟨s₁, flag, flag', s₂, halike, ?_, hround, hlast.out⟩
    rw [hflag]
    refine or_congr_right ?_
    simp only [RaftInstance.FlagRaised, hlt]

end Round

end RaftServer

/-- The messages that a call of the sender has for a peer. -/
def sentTo [Externals] (j : Fin n) (ri : RaftInstance n) (clock : RaftServer.SendClock n)
    (heartbeat : Bool) : List (Fin n × RpcMsg n) :=
  messagesTo j (RaftServer.appendEntrySender clock heartbeat ⟨ri, [], [], none⟩).state.out

/-- The call of the sender returns. -/
def SenderReturns [Externals] (ri : RaftInstance n) (clock : RaftServer.SendClock n)
    (heartbeat : Bool) : Prop :=
  (RaftServer.appendEntrySender clock heartbeat ⟨ri, [], [], none⟩).isOk = true

/-- Both rounds of `j` send the same only if the flag is the same, or `j` is due and out of range. -/
theorem RaftServer.RoundSends.flag {ri : RaftInstance n} {clock : RaftServer.SendClock n} {j : Fin n}
    {ms : List (Fin n × RpcMsg n)} (h : RaftServer.RoundSends ri clock j true ms)
    (h' : RaftServer.RoundSends ri clock j false ms) : ri.Due clock j ∧ ri.OutOfRange j := by
  obtain ⟨m, rfl, hm⟩ := h.one (.inl rfl)
  by_cases hdue : ri.Due clock j
  · obtain ⟨m', heq, hm'⟩ := h'.one (.inr hdue)
    obtain rfl : m = m' := by simpa using heq
    rw [hm] at hm'
    exact ⟨hdue, by simpa using hm'⟩
  · exact absurd (h'.none rfl hdue) (by simp)

/-- A round of `j` on a leader that is alike for it. -/
theorem RaftServer.RoundSends.congr {ri ri' : RaftInstance n} {clock clock' : RaftServer.SendClock n}
    {j : Fin n} {heartbeat : Bool} {ms : List (Fin n × RpcMsg n)} (hsame : SameFor j ri ri')
    (hnow : clock'.nowMsec = clock.nowMsec)
    (hsince : clock'.sinceLastUnacked j = clock.sinceLastUnacked j)
    (h : RaftServer.RoundSends ri' clock' j heartbeat ms) :
    RaftServer.RoundSends ri clock j heartbeat ms := by
  obtain ⟨hnone, hone⟩ := h
  simp only [hsame.due hnow hsince, hsame.outOfRange] at hnone hone
  exact ⟨hnone, hone⟩

/-- The messages for `j` after its round, when there were none before. -/
theorem RaftServer.RoundSends.messagesTo {ri : RaftInstance n} {clock : RaftServer.SendClock n}
    {j : Fin n} {heartbeat : Bool} {out ms : List (Fin n × RpcMsg n)}
    (h : RaftServer.RoundSends ri clock j heartbeat ms) (hout : NiovaRaft.messagesTo j out = []) :
    NiovaRaft.messagesTo j (out ++ ms) = ms := by
  unfold NiovaRaft.messagesTo at hout ⊢
  rw [List.filter_append, hout, List.nil_append, List.filter_eq_self]
  intro x hx
  rw [h.peer x hx]
  simp

theorem sentTo_of_empty [Externals] {ri : RaftInstance n} {clock : RaftServer.SendClock n}
    {heartbeat : Bool} (j : Fin n) (h : ri.newestUnsync.index < 0) :
    sentTo j ri clock heartbeat = [] := by
  have hcond : ¬ (ri.isLeader = true ∧ 0 ≤ ri.currentIdx .unsync) := fun hc =>
    absurd hc.2 (not_le.mpr h)
  have hrun : RaftServer.appendEntrySender clock heartbeat ⟨ri, [], [], none⟩ =
      .ok () ⟨ri, [], [], none⟩ := by
    change whenever (ri.isLeader = true ∧ 0 ≤ ri.currentIdx .unsync) _ _ = _
    rw [whenever, if_neg hcond]
    rfl
  rw [sentTo, hrun]
  rfl

section Independence

variable [Externals] {ri ri' : RaftInstance n} {clock clock' : RaftServer.SendClock n}
  {heartbeat : Bool} {j : Fin n}

/-- What a call sends to a follower is determined by the call's argument, the leader's log and
indexes and the follower's own slot and times, exactly when the other followers leave the flag that
its round is reached with as it is, or the follower is itself due and out of range. -/
theorem requests_independent_iff (hj : j ≠ ri.self) (hlead : ri.state = .leader)
    (hsame : SameFor j ri ri') (hnow : clock'.nowMsec = clock.nowMsec)
    (hsince : clock'.sinceLastUnacked j = clock.sinceLastUnacked j)
    (hret : SenderReturns ri clock heartbeat) (hret' : SenderReturns ri' clock' heartbeat) :
    sentTo j ri' clock' heartbeat = sentTo j ri clock heartbeat ↔
      ri.newestUnsync.index < 0 ∨ heartbeat = true ∨
        (ri'.FlagRaised clock' j ↔ ri.FlagRaised clock j) ∨
        (ri.Due clock j ∧ ri.OutOfRange j) := by
  by_cases hempty : ri.newestUnsync.index < 0
  · rw [sentTo_of_empty j hempty, sentTo_of_empty j (by rw [hsame.newest]; exact hempty)]
    simp [hempty]
  have hidx : 0 ≤ ri.newestUnsync.index := not_lt.mp hempty
  obtain ⟨s₁, b, _, s₂, h₁, hb, hround, hout⟩ := RaftServer.sender_round hj hlead hidx
    (Outcome.eq_ok_state hret)
  obtain ⟨s₁', b', _, s₂', h₁', hb', hround', hout'⟩ := RaftServer.sender_round
    (by rw [hsame.self]; exact hj) (by rw [hsame.state]; exact hlead)
    (by rw [hsame.newest]; exact hidx) (Outcome.eq_ok_state hret')
  rw [hsame.newest] at hround'
  have hstart : AlikeFor j ⟨ri, [], [], none⟩ ⟨ri', [], [], none⟩ := ⟨hsame, rfl⟩
  have halike : AlikeFor j s₁ s₁' := h₁.symm.trans (hstart.trans h₁')
  have hdue : s₁.ri.Due clock j ∧ s₁.ri.OutOfRange j ↔ ri.Due clock j ∧ ri.OutOfRange j :=
    and_congr (h₁.ri.due rfl rfl) h₁.ri.outOfRange
  have hflags : b' = b ↔ heartbeat = true ∨ (ri'.FlagRaised clock' j ↔ ri.FlagRaised clock j) := by
    rw [Bool.eq_iff_iff, hb, hb']
    by_cases hbeat : heartbeat = true
    · simp [hbeat]
    · simp [hbeat]
  have hmsgs : sentTo j ri' clock' heartbeat = sentTo j ri clock heartbeat ↔
      b' = b ∨ ri.Due clock j ∧ ri.OutOfRange j := by
    unfold sentTo
    rw [hout, hout', ← hdue]
    refine ⟨fun heq => ?_, fun hflag => ?_⟩
    · obtain ⟨-, _, ms, rfl, hms⟩ := wp_of_ok hround (RaftServer.wp_senderRound (by rw [h₁.ri.newest]))
      obtain ⟨-, _, ms', rfl, hms'⟩ := wp_of_ok hround' (RaftServer.wp_senderRound
        (by rw [h₁'.ri.newest, hsame.newest]))
      rw [hms.messagesTo h₁.out, hms'.messagesTo h₁'.out] at heq
      subst heq
      have hms' := hms'.congr halike.ri hnow hsince
      cases b <;> cases b'
      · exact .inl rfl
      · exact .inr (hms'.flag hms)
      · exact .inr (hms.flag hms')
      · exact .inl rfl
    · exact ((RaftServer.alike_senderRound halike hnow hsince _ hflag).of_ok hround hround').2.out
  rw [hmsgs, hflags, or_assoc]
  simp [hempty]

end Independence

/-! ## A compacted follower -/

/-- An entry without data. -/
def emptyEntry (idx : Nat) : Entry := ⟨⟨0, 0, idx, 1, [0], 1, false, 1⟩, []⟩

/-- A slot with the next index `idx`. -/
def slotAt (idx prevIdxTerm : Int) : FollowerInfo :=
  { FollowerInfo.zero with nextIdx := idx, prevIdxTerm := prevIdxTerm }

/-- A leader with entries 501 to 504 and the last one left to be sent to server 2. -/
def compactedLeader (slot : FollowerInfo) : RaftInstance 3 :=
  { RaftServer.instanceInit 0 (appServers 0) RaftServer.freshDb with
    procState := .running
    state := .leader
    logHdr := ⟨1, some 0, 1⟩
    leader := ⟨-1, 1, fun i => if i = 1 then slot else slotAt 504 1⟩
    commitIdx := 504
    checkpointLastIdx := 504
    lowestIdx := 501
    newestSync := (emptyEntry 504).header
    newestUnsync := (emptyEntry 504).header
    store := ⟨{ RaftServer.freshDb with
      entries := (List.range 505).map emptyEntry, reaped := 501 }, []⟩ }

theorem sameFor_compactedLeader (slot slot' : FollowerInfo) :
    SameFor 2 (compactedLeader slot) (compactedLeader slot') :=
  ⟨rfl, rfl, rfl, rfl, rfl, rfl, rfl, rfl, rfl, rfl, rfl, rfl, rfl⟩

/-- Server 2 is sent its entry, whether server 1 has it or waits for it too. -/
theorem requests_independent_iff_compactedLeader :
    @sentTo 3 sampleExternals 2 (compactedLeader (slotAt 504 1)) Event.clock false =
      @sentTo 3 sampleExternals 2 (compactedLeader (slotAt 505 1)) Event.clock false := by
  have hiff := @requests_independent_iff 3 sampleExternals (compactedLeader (slotAt 505 1))
    (compactedLeader (slotAt 504 1)) Event.clock Event.clock false 2 (by decide) rfl
    (sameFor_compactedLeader _ _) rfl rfl (by unfold SenderReturns; decide +kernel)
    (by unfold SenderReturns; decide +kernel)
  refine hiff.mpr (.inr (.inr (.inl ?_)))
  unfold RaftInstance.FlagRaised
  decide +kernel

/-- When server 1 is far behind, server 2 is sent a heartbeat without its entry. -/
theorem compactedPeer_leaks :
    SameFor 2 (compactedLeader (slotAt 505 1)) (compactedLeader (slotAt 400 (-1))) ∧
      @SenderReturns 3 sampleExternals (compactedLeader (slotAt 505 1)) Event.clock false ∧
      @SenderReturns 3 sampleExternals (compactedLeader (slotAt 400 (-1))) Event.clock false ∧
      @sentTo 3 sampleExternals 2 (compactedLeader (slotAt 400 (-1))) Event.clock false ≠
        @sentTo 3 sampleExternals 2 (compactedLeader (slotAt 505 1)) Event.clock false := by
  refine ⟨sameFor_compactedLeader _ _, ?_, ?_, by decide +kernel⟩
  all_goals
    unfold SenderReturns
    decide +kernel

end NiovaRaft
