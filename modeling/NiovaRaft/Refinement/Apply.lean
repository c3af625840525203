import NiovaRaft.Refinement.Leader
import NiovaRaft.Spec.Apply

/-!
# Applying, syncing and compacting as steps

The rest of what a server does.  Applying an entry is a step of the world, since the entry is
committed.  Checkpoints and reaping change the backend only: an entry that is reaped was
applied, and the record of that survives with it.
-/

namespace NiovaRaft

namespace Refinement

open Base Base.Replication Base.Handler RaftServer

variable {n : Nat} {R : Rules} {w₀ w : ClusterWorld n} {p : Fin n} {cause : Option (RpcMsg n)}
  {s : Proc n}

/-! ## The last-applied record -/

theorem Stored.recordApplied {ri : RaftInstance n} {la : LastApplied} (batch : Option AppBatch)
    (h : Stored w p ri) (hge : ri.lastApplied.idx ≤ la.idx) (hlt : la.idx < (w.peer p).synced)
    (hsync : la.syncedIdx = ri.lastApplied.syncedIdx) : Stored w p (ri.recordApplied la batch) := by
  have happ := h.cons.applied
  by_cases hflat : ri.opts.storeType ≠ .posixFlatFile
  · have hstore : (ri.recordApplied la batch).store =
        ri.store.put (ri.store.db.apply la batch) false := if_pos hflat
    -- the record in the new contents
    have hrec : ri.opts.storeType = .rocksdbPersistentApp →
        appliedOf ri.opts (ri.store.db.apply la batch) = la := by
      intro hper
      rw [appliedOf, if_pos hper]
      rfl
    have hsame : ri.opts.storeType ≠ .rocksdbPersistentApp →
        appliedOf ri.opts (ri.store.db.apply la batch) =
          appliedOf ri.opts ri.store.db := by
      intro hper
      rw [appliedOf, if_neg hper, appliedOf, if_neg hper]
    have hk := h.store.kept_self
    have hnew : Kept ri.opts (ri.store.db.apply la batch) (w.peer p).synced
        (ri.store.db.apply la batch) := by
      refine ⟨rfl, rfl, List.prefix_refl _, hk.synced, ?_, ?_, ?_⟩
      all_goals by_cases hper : ri.opts.storeType = .rocksdbPersistentApp
      · rw [hrec hper]
        exact hlt
      · rw [hsame hper]
        exact hk.applied
      · rw [hrec hper]
        omega
      · rw [hsame hper]
        exact hk.appliedSynced
      · rw [hrec hper]
        have h1 := hk.reapedApplied
        rw [(h.persisted hper).1] at h1
        exact le_trans h1 (max_le_max (le_refl _) hge)
      · rw [hsame hper]
        exact hk.reapedApplied
    have hmem : ∀ d, d ∈ (ri.recordApplied la batch).store.recoverable →
        d ∈ ri.store.recoverable ∨ d = ri.store.db.apply la batch := by
      intro d hd
      rw [hstore] at hd
      simpa [Store.put] using hd
    refine ⟨h.self, h.running, ⟨?_, ?_, ?_, h.store.nonneg, ?_, ?_⟩, ⟨?_, ?_, ?_, ?_, ?_⟩, ?_, ?_,
      h.commit, hlt, ?_⟩
    · rw [hstore]
      exact h.store.log
    · rw [hstore]
      exact h.store.entries
    · rw [hstore]
      exact h.store.term
    · rw [hstore]
      simp [Store.put]
    · intro d hd
      rcases hmem d hd with hd | rfl
      · have hd := h.store.kept d hd
        rw [hstore]
        exact ⟨hd.hdr, hd.reaped, hd.entries, hd.synced, hd.applied, hd.appliedSynced,
          hd.reapedApplied⟩
      · rw [hstore]
        exact hnew
    · rw [hstore]
      exact h.cons.entries
    · rw [hstore]
      exact h.cons.unsync
    · rw [hstore]
      exact h.cons.sync
    · rw [hstore]
      exact h.cons.reaped
    · change la.syncedIdx ≤ la.idx
      omega
    · rw [hstore]
      exact h.sync
    · rw [hstore]
      exact h.hdr
    · intro hper
      refine ⟨?_, fun d hd => ?_⟩
      · rw [hstore]
        change (appliedOf ri.opts (ri.store.db.apply la batch)).idx = la.idx
        rw [hrec hper]
      · change la.syncedIdx ≤ (appliedOf ri.opts d).idx ∧ (appliedOf ri.opts d).idx ≤ la.idx
        rcases hmem d hd with hd | rfl
        · obtain ⟨h1, h2⟩ := (h.persisted hper).2 d hd
          exact ⟨by rw [hsync]; exact h1, le_trans h2 hge⟩
        · rw [hrec hper]
          omega
  · have hstore : (ri.recordApplied la batch).store = ri.store := if_neg hflat
    refine ⟨h.self, h.running, ?_, ⟨?_, ?_, ?_, ?_, ?_⟩, ?_, ?_, h.commit, hlt, ?_⟩
    · rw [hstore]
      exact h.store
    · rw [hstore]
      exact h.cons.entries
    · rw [hstore]
      exact h.cons.unsync
    · rw [hstore]
      exact h.cons.sync
    · rw [hstore]
      exact h.cons.reaped
    · change la.syncedIdx ≤ la.idx
      omega
    · rw [hstore]
      exact h.sync
    · rw [hstore]
      exact h.hdr
    · intro hper
      rw [not_not] at hflat
      change ri.opts.storeType = _ at hper
      rw [hflat] at hper
      cases hper

/-- The record of a committed entry. -/
theorem Ok.recordApplied {ri : RaftInstance n} {nai : LastApplied} (h : Ok R w p ri)
    (hge : ri.lastApplied.idx ≤ nai.idx) (hlt : nai.idx < (w.peer p).synced)
    (batch : Option AppBatch) :
    Ok R w p (ri.recordApplied (ri.lastApplied.moveTo nai) batch) where
  stored := by
    refine h.stored.recordApplied batch ?_ ?_ (LastApplied.moveTo_syncedIdx _ _)
    · rw [LastApplied.moveTo_idx]
      exact hge
    · rw [LastApplied.moveTo_idx]
      exact hlt
  role := h.role.mono (Extends.refl w) rfl rfl rfl (fun _ => List.prefix_refl _) rfl rfl rfl rfl
    (le_refl _)

/-! ## The state machine -/

section Apply

variable [Externals]

theorem sim_applySubEntries {cb : SmRequestCb} {reh : EntryHeader} {data : List UInt8}
    (sizes : List Nat) (i offset : Nat) (nai : LastApplied) {Q : Unit → Proc n → Prop}
    (hs : Sim R w₀ cause p w s.out s.trace) (ho : Ok R w p s.ri)
    (hlt : nai.idx < (w.peer p).synced)
    (hQ : ∀ s', Sim R w₀ cause p w s'.out s'.trace → Ok R w p s'.ri → Q () s') :
    (applySubEntries cb reh data sizes i offset nai).wp Q (Dead R w₀ cause p) s := by
  induction sizes generalizing i offset nai s with
  | nil => exact hQ s hs ho
  | cons size sizes ih =>
    rw [applySubEntries, wp_ite]
    refine ⟨fun _ => ih _ _ nai hs ho hlt, fun _ => ?_⟩
    rw [wp_bind]
    have hs' : ∀ rncr, Sim R w₀ cause p w s.out (s.trace ++ [.requests nai.idx i rncr]) :=
      fun _ => hs.observe trivial
    refine wp_applySubEntry rfl (fun _ => ⟨w, hs' _, ho.stored.self, ho.stored.store⟩)
      (fun _ => ⟨w, hs' _, ho.stored.self, ho.stored.store⟩) fun fuse _ hge _ => ?_
    refine ih _ _ _ (hs' _) (ho.recordApplied (by exact hge) (by exact hlt) _) ?_
    rw [LastApplied.nextSub_idx]
    exact hlt

omit [Externals] in
/-- An applied entry is committed. -/
theorem sim_observeApply {re : Entry} {i : Int} {data : List UInt8}
    {out : List (Fin n × RpcMsg n)} {trace : List (Obs n)} {ri : RaftInstance n}
    (hs : Sim R w₀ cause p w out trace) (ho : Ok R w p ri) (h0 : 0 ≤ i)
    (hle : i ≤ ri.commitIdx) (hre : ri.store.db.entries[i.toNat]? = some re)
    (hdata : data = re.data) :
    ∃ w', Sim R w₀ cause p w' out
        (trace ++ [.applies i re.header.term re.header.entrySz data]) ∧ Ok R w' p ri ∧
      w'.peer p = w.peer p := by
  have hcommit := ho.stored.commit
  have hstep : Step R p w { w with applied := insert (p, i.toNat, re.core) w.applied } :=
    .apply _ _ (by omega) (ho.stored.store.getElem hre)
  refine ⟨_, (hs.step hstep fun _ => id).observe ⟨h0, re.core, Set.mem_insert _ _, rfl, rfl, ?_⟩,
    ⟨ho.stored.congr rfl, ?_⟩, rfl⟩
  · exact hdata.symm
  · exact ho.role.mono hstep.extends rfl rfl rfl (fun _ => List.prefix_refl _) rfl rfl rfl rfl
      (le_refl _)

/-- `raft_server_state_machine_apply`. -/
theorem sim_stateMachineApply {cb : SmRequestCb} (hs : Sim R w₀ cause p w s.out s.trace)
    (ho : Ok R w p s.ri) :
    (stateMachineApply cb).wp (fun _ => Live R w₀ cause p) (Dead R w₀ cause p) s := by
  have hdead : Dead R w₀ cause p s := .intro hs ho
  have hcommit := ho.stored.commit
  have hcs := hs.basic.commit_le p
  refine wp_stateMachineApply_rule hdead (fun _ => .intro hs ho) (fun re hnext hidle => ?_)
    fun re hnext _ => ?_
  all_goals
    have hok := ho.stored.cons.entries.entry _ _ hnext.held
    have hle := nextApplyIdx_le hnext.needed
    have hlt : (startRecord s.ri.lastApplied re).idx < (w.peer p).synced := by
      change (nextApplyIdx s.ri.lastApplied).idx < _
      omega
  · have hdata : ([] : List UInt8) = re.data := by
      symm
      rw [← List.length_eq_zero_iff, hok.dataLength]
      exact hidle.elim hok.marker id
    rw [hnext.index]
    obtain ⟨w', hs', ho', hp⟩ := sim_observeApply hs ho hnext.nonneg hle hnext.held hdata
    refine wp_setLastApplied_record (fun _ => .intro hs' ho')
      (fun _ => ⟨w', hs', ho'.stored.self, ho'.stored.store⟩) fun fuse _ hge _ => ?_
    have ho'' := ho'.recordApplied hge (by rw [hp]; exact hlt) none
    exact wp_notifyIfNeedsApply ⟨w', hs', ho''.stored.self, ho''.stored.store⟩ ⟨w', hs', ho''⟩
  · rw [hnext.index, List.take_of_length_le (le_of_eq hok.dataLength)]
    obtain ⟨w', hs', ho', hp⟩ := sim_observeApply hs ho hnext.nonneg hle hnext.held rfl
    refine sim_applySubEntries (s := { s with trace := _ }) _ _ _ _ hs' ho' (by rw [hp]; exact hlt)
      fun s' hs'' ho'' => ?_
    exact ⟨fun _ => wp_notifyIfNeedsApply (.intro hs'' ho'') (.intro hs'' ho''), .intro hs'' ho''⟩

end Apply

/-! ## The other threads -/

theorem sim_syncThread (hs : Sim R w₀ cause p w s.out s.trace) (ho : Ok R w p s.ri) :
    syncThread.wp (fun _ => Live R w₀ cause p) (Dead R w₀ cause p) s := by
  have hlive : Live R w₀ cause p s := .intro hs ho
  simp only [syncThread, wp_bind, wp_getRi, wp_whenever]
  refine ⟨fun _ => ?_, fun _ => hlive⟩
  refine wp_hasUnsyncedEntries (.intro hs ho) ⟨fun _ => ?_, fun _ => hlive⟩
  refine sim_backendSyncPending hs ho fun w' s' hs' ho' _ _ _ => ?_
  obtain ⟨w'', hs'', ho'', -⟩ := sim_withSelf hs' ho'
  exact wp_leaderCanAdvanceCommitIdx (fun _ _ => Dead.intro (s := { s' with ri := _ }) hs'' ho'')
    (fun _ => .intro hs' ho') fun _ _ _ => .intro (s := { s' with ri := _ }) hs'' ho''

theorem sim_takeChkpt {Q : Unit → Proc n → Prop} (hs : Sim R w₀ cause p w s.out s.trace)
    (ho : Ok R w p s.ri)
    (hQ : ∀ s', Sim R w₀ cause p w s'.out s'.trace → Ok R w p s'.ri → s'.ri.opts = s.ri.opts →
      Q () s') :
    takeChkpt.wp Q (Dead R w₀ cause p) s := by
  simp only [takeChkpt, wp_bind, wp_getRi, wp_whenever]
  refine ⟨fun _ => ?_, fun _ => hQ s hs ho rfl⟩
  refine wp_durable (fun _ => .intro hs ho) fun fuse _ => ?_
  have hst := ho.stored.checkpointed s.ri.lastApplied.syncedIdx
  rw [wp_fatalIf, wp_modifyRi]
  refine ⟨fun _ => ⟨w, hs, hst.self, hst.store⟩, fun _ => ?_⟩
  refine hQ { s with ri := _, fuse := fuse } hs ⟨hst, ?_⟩ rfl
  exact ho.role.mono (Extends.refl w) rfl rfl rfl (fun _ => List.prefix_refl _) rfl rfl rfl rfl
    (le_refl _)

theorem sim_reapLog {keep : Int} (hper : s.ri.opts.storeType = .rocksdbPersistentApp)
    (hs : Sim R w₀ cause p w s.out s.trace) (ho : Ok R w p s.ri) :
    (reapLog keep).wp (fun _ => Live R w₀ cause p) (Dead R w₀ cause p) s := by
  have hlive : Live R w₀ cause p s := .intro hs ho
  have hdead : Dead R w₀ cause p s := .intro hs ho
  simp only [reapLog, wp_bind, wp_getRi, wp_whenever, wp_assert, wp_modifyRi]
  refine ⟨fun hkeep => ⟨fun _ => ⟨fun _ => ⟨fun hlow => ?_, fun _ => hdead⟩,
    fun _ => hlive⟩, fun _ => hdead⟩, fun _ => hlive⟩
  refine wp_durable (fun _ => hdead) fun fuse _ => ?_
  have hle : s.ri.lastApplied.syncedIdx - keep ≤ s.ri.lastApplied.syncedIdx := by omega
  refine ⟨w, hs, ho.stored.reaped hper (le_of_lt hlow) hle, ?_⟩
  exact ho.role.mono (Extends.refl w) rfl rfl rfl (fun _ => List.prefix_refl _) rfl rfl rfl rfl
    (le_of_lt hlow)

theorem sim_chkptThread {takesChkpt reaps : Bool} {keep : Int}
    (hs : Sim R w₀ cause p w s.out s.trace) (ho : Ok R w p s.ri) :
    (chkptThread takesChkpt reaps keep).wp (fun _ => Live R w₀ cause p) (Dead R w₀ cause p) s := by
  have hlive : Live R w₀ cause p s := .intro hs ho
  simp only [chkptThread, wp_bind, wp_getRi, wp_whenever, wp_fatalIf]
  refine ⟨fun _ => ⟨fun _ => .intro hs ho, fun _ => ⟨fun _ => ?_, fun _ => ?_⟩⟩, fun _ => hlive⟩
  · refine sim_takeChkpt hs ho fun s' hs' ho' hopts => ?_
    exact ⟨fun hreap => sim_reapLog (hopts ▸ hreap.2) hs' ho', fun _ => .intro hs' ho'⟩
  · exact ⟨fun hreap => sim_reapLog hreap.2 hs ho, fun _ => hlive⟩

/-! ## The event loop -/

/-- `raft_server_follower_send_sync_idx`: the synced index is acknowledged in the term of the
entry there, if that is the term of the server. -/
theorem sim_followerSendSyncIdx (hs : Sim R w₀ cause p w s.out s.trace) (ho : Ok R w p s.ri) :
    followerSendSyncIdx.wp (fun _ => Live R w₀ cause p) (Dead R w₀ cause p) s := by
  simp only [followerSendSyncIdx, wp_bind, wp_getRi, wp_whenever]
  refine ⟨fun hcond => ?_, fun _ => .intro hs ho⟩
  cases hcsn : s.ri.csnLeader with
  | none => exact .intro hs ho
  | some x =>
    have hne : p ≠ x := by
      rintro rfl
      exact hcond.2.2 (by rw [hcsn, ho.stored.self])
    rw [wp_sendMsg_some]
    have hsync := ho.stored.sync_index
    by_cases hterm : s.ri.newestSync.term = (w.peer p).cur ∧ 0 < (w.peer p).synced
    · have hlt : (w.peer p).synced - 1 < s.ri.store.db.entries.length := by
        have := ho.stored.store.synced_le
        omega
      have hget := List.getElem?_eq_getElem hlt
      have hlast := EntriesOk.lastHeader_take_succ hget
      rw [Nat.sub_add_cancel hterm.2, ← ho.stored.sync] at hlast
      have hstep : Step R p w (afterAck w p) := by
        refine .ack _ ⟨_, le_refl _, le_refl _, .inr ⟨_, hterm.2, ho.stored.store.getElem hget, ?_⟩⟩
        rw [← hterm.1, hlast]
        rfl
      refine .intro (s := { s with out := _ }) ((hs.step hstep fun _ => id).send hne ?_)
        (ho.afterAck hstep.extends)
      refine fun _ _ => .inl ⟨(w.peer p).synced, by simp only; omega, ?_⟩
      rw [hterm.1]
      exact Set.mem_insert _ _
    · refine .intro (s := { s with out := _ }) (hs.send hne fun _ h0 => ?_) ho
      simp only at h0
      right
      -- the entry is of an earlier term, and the receiver has at least the sender's
      have hpos : 0 < (w.peer p).synced := by omega
      have hlt : (w.peer p).synced - 1 < s.ri.store.db.entries.length := by
        have := ho.stored.store.synced_le
        omega
      have hget := List.getElem?_eq_getElem hlt
      have hlast := EntriesOk.lastHeader_take_succ hget
      rw [Nat.sub_add_cancel hpos, ← ho.stored.sync] at hlast
      have hmem := List.mem_of_getElem? (ho.stored.store.getElem hget)
      have hle := hs.basic.terms_le p _ hmem
      rw [term_entryCore, Entry.core_term, Entry.term, ← hlast] at hle
      have hcur := ho.role.csn x hcsn
      have hne' : s.ri.newestSync.term ≠ (w.peer p).cur := fun h => hterm ⟨h, hpos⟩
      simp only
      omega

section Loop

variable [Externals]

theorem sim_remoteSendEvpCb {clock : SendClock n} (hs : Sim R w₀ cause p w s.out s.trace)
    (ho : Ok R w p s.ri) (hfresh : R.acked → s.ri.state = .leader → TermsFresh s.ri) :
    (remoteSendEvpCb clock).wp (fun _ => Live R w₀ cause p) (Dead R w₀ cause p) s := by
  simp only [remoteSendEvpCb, wp_bind, wp_getRi, wp_ite, wp_whenever]
  exact ⟨fun _ => sim_appendEntrySender hs ho hfresh,
    fun _ => ⟨fun _ => sim_followerSendSyncIdx hs ho, fun _ => .intro hs ho⟩⟩

theorem sim_timerfdCb {quorumOk heartbeatDue : Bool} {clock : SendClock n}
    (hs : Sim R w₀ cause p w s.out s.trace) (ho : Ok R w p s.ri)
    (hfresh : R.acked → s.ri.state = .leader → TermsFresh s.ri) :
    (timerfdCb quorumOk heartbeatDue clock).wp (fun _ => Live R w₀ cause p)
      (Dead R w₀ cause p) s := by
  rw [timerfdCb, wp_bind, wp_getRi]
  have hprevote := sim_becomeCandidate_prevote hs ho
  cases hstate : s.ri.state with
  | follower => exact hprevote
  | candidatePrevote => exact hprevote
  | candidate => exact hprevote
  | leader =>
    simp only [timerfdLeaderCb, wp_ite, wp_whenever]
    exact ⟨fun _ => hprevote, fun _ => ⟨fun _ => sim_appendEntrySender hs ho hfresh,
      fun _ => .intro hs ho⟩⟩
  | none => exact .intro hs ho
  | client => exact .intro hs ho

omit [Externals] in
theorem sim_commitIdxAdvEvpCb (hs : Sim R w₀ cause p w s.out s.trace) (ho : Ok R w p s.ri) :
    commitIdxAdvEvpCb.wp (fun _ => Done R w₀ cause p) (Dead R w₀ cause p) s := by
  simp only [commitIdxAdvEvpCb, wp_bind, wp_getRi, wp_whenever]
  exact ⟨fun _ => sim_leaderTryAdvanceCommitIdx hs ho, fun _ => .inl (.intro hs ho)⟩

theorem sim_writeCoalescedEntries {requests : List (List UInt8)}
    (hs : Sim R w₀ cause p w s.out s.trace) (ho : Ok R w p s.ri) (hnum : requests.length ≤ 100) :
    (writeCoalescedEntries requests).wp (fun _ => Live R w₀ cause p) (Dead R w₀ cause p) s := by
  simp only [writeCoalescedEntries, wp_bind, wp_getRi, wp_whenever]
  refine ⟨fun _ => ?_, fun _ => .intro hs ho⟩
  refine sim_leaderWriteNewEntry hs ho ?_ ?_ (by simp) fun w' s' hs' ho' => .intro hs' ho'
  · rw [List.length_flatten]
  · rw [List.length_map]
    omega

/-- What a message must be for its receiver, beyond what its sender says. -/
def Verified (R : Rules) (ri : RaftInstance n) (pkt : Packet n) : Prop :=
  match pkt.msg with
  | .voteReply m => R.counted → m.votedGranted = true → ri.state = .candidate →
      ∀ m', pkt.cause = some (.voteRequest m') → m'.proposedTerm = ri.logHdr.term
  | .appendEntriesRequest m => R.covered → R.acked ∧ ShortcutVerified ri m
  | .appendEntriesReply m => R.acked → ReplyVerified ri pkt.src m
  | _ => True

/-- `raft_server_process_received_server_msg`: only an acknowledgement makes a leader commit. -/
theorem sim_processReceivedServerMsg {pkt : Packet n} (hcause : cause = some pkt.msg)
    (hs : Sim R w₀ cause p w s.out s.trace) (ho : Ok R w p s.ri) (hpkt : PacketOk R w pkt)
    (hdst : pkt.dst = p) (hver : Verified R s.ri pkt) :
    (processReceivedServerMsg pkt.src pkt.msg).wp
      (fun _ s' => Live R w₀ cause p s' ∨ (pkt.msg.acknowledges = true ∧ Done R w₀ cause p s'))
      (Dead R w₀ cause p) s := by
  obtain ⟨src, dst, msg, pcause⟩ := pkt
  obtain ⟨hother, hmsg⟩ := hpkt
  simp only at hcause hdst hother hmsg
  subst hdst
  have hlive : ∀ {m : Server n Unit}, m.wp (fun _ => Live R w₀ cause dst) (Dead R w₀ cause dst) s →
      m.wp (fun _ s' => Live R w₀ cause dst s' ∨
        (msg.acknowledges = true ∧ Done R w₀ cause dst s')) (Dead R w₀ cause dst) s := fun h =>
    wp_mono h (fun _ _ => .inl) fun _ => id
  cases msg with
  | preVoteRequest m =>
    exact hlive (sim_processVoteRequestCommon hs ho hother (by simp) (by simp))
  | voteRequest m =>
    exact hlive (sim_processVoteRequestCommon hs ho hother (fun _ => hmsg) fun _ => hcause)
  | preVoteReply m => exact hlive (sim_processVoteReplyCommon hs ho (by simp) (by simp))
  | voteReply m =>
    refine hlive (sim_processVoteReplyCommon hs ho (fun _ => hmsg.leader) ?_)
    intro hR _ hg hc
    obtain ⟨m', hm', l, hl⟩ := hmsg.granted hg
    refine ⟨l, ?_⟩
    have hterm : m'.proposedTerm = s.ri.logHdr.term := hver hR hg hc m' hm'
    rw [← ho.stored.term, ← hterm]
    exact hl
  | appendEntriesRequest m =>
    exact hlive (sim_processAppendEntriesRequest hs ho hother hmsg hver)
  | appendEntriesReply m =>
    exact wp_mono (sim_processAppendEntriesReply hs ho hmsg hver) (fun _ _ h => .inr ⟨rfl, h⟩)
      fun _ => id
  | syncIdxUpdate m =>
    exact wp_mono (sim_processSyncIdxUpdate hs ho hmsg) (fun _ _ h => .inr ⟨rfl, h⟩) fun _ => id

end Loop

end Refinement

end NiovaRaft
