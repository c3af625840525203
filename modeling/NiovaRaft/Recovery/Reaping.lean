import NiovaRaft.Model.Node
import NiovaRaft.Spec.Startup
import NiovaRaft.Spec.Writes
import NiovaRaft.Spec.Checksum

/-!
# Reaping and the advertised checkpoint

A leader tells a follower that is out of range from which checkpoint to recover.  After that the
follower continues with the leader's log, which must reach back to the checkpoint.  The checkpoint
thread reaps up to an index that it counts from the synced index, not from the checkpoint.  With
automatic checkpoints the two are close, since a checkpoint is taken whenever enough entries were
applied since the last one.  A reap on request, or one after a checkpoint that failed, leaves a gap.
-/

namespace NiovaRaft

open Base Base.Handler

variable {n : Nat}

/-- The checkpoint thread of the server reaps, and the index it reaps to. -/
def RaftInstance.reapIdx (ri : RaftInstance n) : Action n → Option Int
  | .chkptThread _ true keep =>
      if 500 ≤ keep ∧ max 0 ri.lowestIdx + keep < ri.lastApplied.syncedIdx - keep then
        some (ri.lastApplied.syncedIdx - keep)
      else none
  | _ => none

/-- The action takes a checkpoint before it does anything else. -/
def Action.takesCheckpoint : Action n → Bool
  | .chkptThread takesChkpt _ _ => takesChkpt
  | _ => false

/-- What is reaped is in the newest checkpoint: one is taken in the same iteration, or the last one
reaches the entry before the new lowest one.  No bulk recovery takes place. -/
def ReapCovered (x : Node n) : NodeEvent n → Prop
  | .handle _ e => ∀ idx ∈ x.ri.reapIdx e.action,
      e.action.takesCheckpoint = true ∨ idx ≤ x.ri.checkpointLastIdx + 1
  | .stage _ | .finish => False

instance (x : Node n) : (e : NodeEvent n) → Decidable (ReapCovered x e)
  | .handle _ e => inferInstanceAs (Decidable (∀ idx ∈ x.ri.reapIdx e.action, _))
  | .stage _ => .isFalse id
  | .finish => .isFalse id

/-! ## The invariant -/

/-- What a database that a crash may leave behind says about compaction, with `chkptIdx` the newest
checkpoint.  The flat-file backend has no checkpoints. -/
structure ReapingKept (type : StoreType) (chkptIdx : Int) (d : Db n) : Prop where
  reaped : (d.reaped : Int) ≤ d.chkptIdx + 1
  checkpoint : type ≠ .posixFlatFile → d.chkptIdx = chkptIdx

/-- The log reaches back to the newest checkpoint, in memory and on disk. -/
structure Reaching (ri : RaftInstance n) : Prop where
  lowest : ri.lowestIdx ≤ ri.checkpointLastIdx + 1
  kept : ri.store.Keeps (ReapingKept ri.opts.storeType ri.checkpointLastIdx)

namespace Reaching

variable {ri ri' : RaftInstance n}

/-- The backend is written to, but not compacted. -/
theorem put (h : Reaching ri) {db : Db n} (hreaped : db.reaped = ri.store.db.reaped)
    (hchkpt : db.chkptIdx = ri.store.db.chkptIdx) (flushed : Bool) :
    (ri.store.put db flushed).Keeps (ReapingKept ri.opts.storeType ri.checkpointLastIdx) := by
  obtain ⟨h1, h2⟩ := h.kept.db
  exact h.kept.put ⟨by rw [hreaped, hchkpt]; exact h1, fun ht => hchkpt.trans (h2 ht)⟩ flushed

theorem update [Externals] {cause : Option (Packet n)} (h : Reaching ri)
    (hup : Update cause ri ri') : Reaching ri' := by
  cases hup with
  | role | lead | slot | recovery | synced | appliedSynced | newest | commit => exact { h with }
  | header => exact ⟨h.lowest, h.put (by rfl) (by rfl) true⟩
  | flush => exact ⟨h.lowest, h.put (by rfl) (by rfl) true⟩
  | entry => exact ⟨h.lowest, h.put (by rfl) (by rfl) _⟩
  | truncate => exact ⟨h.lowest, h.put (by rfl) (by rfl) true⟩

theorem recordApplied (h : Reaching ri) (la : LastApplied) (batch : Option AppBatch) :
    Reaching (ri.recordApplied la batch) := by
  unfold RaftInstance.recordApplied
  split
  · exact ⟨h.lowest, h.put (by rfl) (by rfl) false⟩
  · exact { h with }

/-- A checkpoint is taken. -/
theorem withCheckpoint (h : Reaching ri) {idx : Int} (hge : ri.checkpointLastIdx ≤ idx)
    (htype : ri.opts.storeType ≠ .posixFlatFile) : Reaching (ri.withCheckpoint idx) := by
  have hlow := h.lowest
  obtain ⟨hreaped, hchkpt⟩ := h.kept.db
  have hsame := hchkpt htype
  refine ⟨?_, .of_flushed rfl ⟨?_, fun _ => rfl⟩⟩
  · change ri.lowestIdx ≤ idx + 1
    omega
  · change (ri.store.db.reaped : Int) ≤ idx + 1
    omega

/-- The log is reaped to an index that the checkpoint reaches. -/
theorem reapTo (h : Reaching ri) {idx : Int} (hle : idx ≤ ri.checkpointLastIdx + 1)
    (htype : ri.opts.storeType ≠ .posixFlatFile) : Reaching (ri.reapTo idx) := by
  obtain ⟨hreaped, hchkpt⟩ := h.kept.db
  have hsame := hchkpt htype
  refine ⟨hle, .of_flushed rfl ⟨?_, hchkpt⟩⟩
  change ((max ri.store.db.reaped idx.toNat : Nat) : Int) ≤ ri.store.db.chkptIdx + 1
  omega

/-- A start. -/
theorem instanceRun {p : Fin n} {o : Options} {d : Db n} {chkptIdx : Int}
    (h : ReapingKept o.storeType chkptIdx d) : Reaching (RaftServer.instanceRun p o d) := by
  have hl := RaftServer.instanceRun_loaded p o d
  have hdb : ReapingKept o.storeType (RaftServer.instanceInit p o d).checkpointLastIdx
      (RaftServer.instanceRun p o d).store.db := by
    rw [hl.db]
    exact ⟨h.reaped, fun ht => by simp [RaftServer.instanceInit, ht]⟩
  refine ⟨?_, ?_⟩
  · have hreaped := h.reaped
    rw [hl.lowest, hl.checkpoint]
    simp only [RaftServer.instanceInit]
    split <;> split <;> simp_all
    omega
  · rw [hl.opts, hl.checkpoint]
    exact .of_flushed hl.flushed hdb

/-- An iteration of the checkpoint thread that reaps no further than the checkpoint reaches. -/
theorem wp_chkptThread {takesChkpt reaps : Bool} {keep : Int} {s : Proc n} (h : Reaching s.ri)
    (hcovered : ∀ idx ∈ s.ri.reapIdx (.chkptThread takesChkpt reaps keep),
      takesChkpt = true ∨ idx ≤ s.ri.checkpointLastIdx + 1) :
    (RaftServer.chkptThread takesChkpt reaps keep).wp (fun _ s' => Reaching s'.ri)
      (fun d => ∃ ri, Reaching ri ∧ Survives ri d.ri) s := by
  -- the second part, after `ri` has its checkpoint
  have hreap : ∀ s' : Proc n, Reaching s'.ri → s'.ri.lastApplied = s.ri.lastApplied →
      s'.ri.lowestIdx = s.ri.lowestIdx → s'.ri.opts = s.ri.opts →
      (s'.ri.checkpointLastIdx = s.ri.lastApplied.syncedIdx ∨
        takesChkpt = false ∧ s'.ri.checkpointLastIdx = s.ri.checkpointLastIdx) →
      reaps = true → s.ri.opts.storeType = .rocksdbPersistentApp →
      (RaftServer.reapLog keep).wp (fun _ s' => Reaching s'.ri)
        (fun d => ∃ ri, Reaching ri ∧ Survives ri d.ri) s' := by
    intro s' hs' hla hlow hopts hchkpt hreaps htype
    refine RaftServer.wp_reapLog (fun _ _ => ⟨_, hs', .refl _⟩) (fun _ => ⟨_, hs', ⟨rfl, rfl, rfl⟩⟩)
      (fun _ => hs')
      fun fuse _ hkeep h0 hlt => hs'.reapTo ?_ ?_
    · rw [hla, hlow] at hlt
      rw [hla]
      rcases hchkpt with heq | ⟨hno, heq⟩
      · rw [heq]
        omega
      · have hidx := hcovered (s.ri.lastApplied.syncedIdx - keep) (by
          simp [RaftInstance.reapIdx, hreaps, hkeep, hlt])
        rw [heq]
        exact hidx.resolve_left (by simp [hno])
    · rw [hopts, htype]
      simp
  unfold RaftServer.chkptThread
  simp only [wp_bind, RaftServer.wp_getRi, wp_whenever, wp_fatalIf]
  refine ⟨fun h0 => ⟨fun _ => ⟨_, h, .refl _⟩, fun hge => ⟨fun htakes => ?_, fun hno => ?_⟩⟩,
    fun _ => h⟩
  · refine RaftServer.wp_takeChkpt (by omega) (fun _ => ⟨_, h, .refl _⟩) (fun hsame => ?_)
      fun fuse _ _ => ?_
    · refine ⟨fun hr => hreap s h rfl rfl rfl (.inl (hsame h0).symm) hr.1 hr.2, fun _ => h⟩
    · have hc : Reaching (s.ri.withCheckpoint s.ri.lastApplied.syncedIdx) :=
        h.withCheckpoint (by omega) htakes.2
      exact ⟨fun hr => hreap _ hc rfl rfl rfl (.inl rfl) hr.1 hr.2, fun _ => hc⟩
  · refine ⟨fun hr => hreap s h rfl rfl rfl (.inr ⟨?_, rfl⟩) hr.1 hr.2, fun _ => h⟩
    have htype : s.ri.opts.storeType ≠ .posixFlatFile := by
      rw [hr.2]
      simp
    exact eq_false_of_ne_true fun ht => hno ⟨ht, htype⟩

theorem keeps [Externals] {x : Node n} {mail : List (Packet n)} {e : Event n}
    (hcovered : ReapCovered x (.handle mail e)) : Cluster.Keeps (x.cluster mail) e Reaching where
  write := fun _ _ hri hup => hri.update hup
  refresh := fun _ _ _ _ hri _ _ => { hri with }
  apply := Cluster.keeps_apply fun _ la batch hri _ _ _ _ => hri.recordApplied la batch
  compact := fun takesChkpt reaps keep hact hri => by
    refine wp_chkptThread hri fun idx hidx => ?_
    have hc := hcovered idx
    rw [hact] at hc
    exact hc hidx

end Reaching

/-- In every run of a server whose reaps are all covered by a checkpoint, whatever its peers send,
its log reaches back to the checkpoint that it advertises. -/
theorem reaping_recoverable [Externals] {p : Fin n} {opts : Options} {x : Node n}
    (h : Node.Reach ReapCovered p opts x) : x.ri.lowestIdx ≤ x.ri.checkpointLastIdx + 1 := by
  suffices hr : Reaching x.ri from hr.lowest
  induction h with
  | init =>
    have hfresh : ReapingKept opts.storeType (-1) (RaftServer.freshDb : Db n) :=
      ⟨by simp [RaftServer.freshDb], fun _ => rfl⟩
    exact Reaching.instanceRun hfresh
  | @step x e _ he ih =>
    cases e with
    | stage db => exact he.elim
    | finish => exact he.elim
    | handle mail e =>
      unfold Node.step
      dsimp only
      split
      · refine (Reaching.keeps he).step (p := e.server) ih fun ri d _ _ hsurv hri _ => ?_
        have hkept := hri.kept.getD e.keep
        rw [← hsurv.store, ← hsurv.opts] at hkept
        exact Reaching.instanceRun hkept
      · exact ih


/-! ## A reap on request -/

/-- A leader with `length` entries that give the state machine nothing to do, the slot `rfi` for
server 1, and no checkpoint. -/
structure IdleLeader [Externals] (length : Nat) (commitIdx appliedIdx syncedIdx : Int)
    (rfi : FollowerInfo) (ri : RaftInstance 3) : Prop where
  self : ri.self = 0
  opts : ri.opts = appServers 0
  serves : Cluster.serves ri = true
  leads : ri.state = .leader
  term : ri.newestUnsync.term ≤ ri.logHdr.term
  positive : 0 ≤ ri.logHdr.term
  cons : Consistent ri
  length : ri.store.db.entries.length = length
  idle : ∀ re ∈ ri.store.db.entries, re.Idle ∧ re.header.numEntries = 1 ∧
    RaftServer.entryCalcCrc re = re.header.crc
  commit : ri.commitIdx = commitIdx
  applied : ri.lastApplied.idx = appliedIdx
  between : ri.lastApplied.subIdx = ri.lastApplied.subIdxMax
  synced : ri.lastApplied.syncedIdx = syncedIdx
  lowest : ri.lowestIdx = -1
  checkpoint : ri.checkpointLastIdx = -1
  initial : ri.leader.initialTermIdx = -1
  slot : ri.followerInfo 1 = rfi

namespace IdleLeader

variable [Externals] {length : Nat} {commitIdx appliedIdx syncedIdx : Int} {rfi : FollowerInfo}
  {ri : RaftInstance 3} {x : Node 3}

theorem doesSynchronousWrites (h : IdleLeader length commitIdx appliedIdx syncedIdx rfi ri) :
    ri.doesSynchronousWrites = false := by
  simp [RaftInstance.doesSynchronousWrites, h.opts, appServers]

theorem isLeader (h : IdleLeader length commitIdx appliedIdx syncedIdx rfi ri) :
    ri.isLeader = true := by
  simp [RaftInstance.isLeader, h.leads]

/-- A handler of the server that does not die leads to the next state of the server. -/
theorem step_handle {S : RaftInstance 3 → Prop} {mail : List (Packet 3)} {e : Event 3}
    (h : IdleLeader length commitIdx appliedIdx syncedIdx rfi x.ri) (hstaged : x.staged = none)
    (he : e.server = 0) (hmail : ∀ pkt ∈ mail, pkt.src ≠ 0)
    (hwp : ((x.cluster mail).handler e).wp (fun _ s => S s.ri) (fun _ => False)
      ⟨x.ri, [], [], e.fuse⟩) :
    (x.step (.handle mail e)).staged = none ∧ S (x.step (.handle mail e)).ri := by
  have hacc : x.accepts mail e = true := by
    simp only [Node.accepts, decide_eq_true_eq]
    exact ⟨hstaged, by rw [he, h.self], by rw [h.self]; exact hmail⟩
  have hen : (x.cluster mail).enabled e = true := by
    unfold Cluster.enabled
    rw [show ((x.cluster mail).servers e.server) = x.ri from rfl, h.serves]
    rfl
  have hs : S (((x.cluster mail).step e).servers e.server) :=
    Cluster.step_server hen (wp_mono hwp (fun _ _ hs => hs) fun _ hd => hd.elim)
  unfold Node.step
  dsimp only
  rw [if_pos hacc]
  exact ⟨hstaged, hs⟩

theorem withEntry (h : IdleLeader length commitIdx appliedIdx syncedIdx rfi ri) :
    IdleLeader (length + 1) commitIdx appliedIdx syncedIdx rfi (ri.withEntry
      (RaftServer.entryOf ri ri.store.db.entries.length ri.logHdr.term [] [0] false)) := by
  have hok : EntryOk ri.entryMaxDataSize ri.store.db.entries.length
      (RaftServer.entryOf ri ri.store.db.entries.length ri.logHdr.term [] [0] false) :=
    RaftServer.entryOf_ok h.positive (by simp) (by simp) (by simp) (by simp)
  refine { h with term := le_refl _, cons := h.cons.withEntry hok h.term, length := ?_, idle := ?_ }
  · change (ri.store.db.entries ++ [_]).length = length + 1
    rw [List.length_append, h.length]
    rfl
  · intro re hre
    rcases List.mem_append.mp hre with hre | hre
    · exact h.idle re hre
    · obtain rfl := List.mem_singleton.mp hre
      exact ⟨.inr rfl, rfl, entryCalcCrc_entryOf⟩

/-- The leader writes a request without data. -/
theorem write (h : IdleLeader length commitIdx appliedIdx syncedIdx rfi x.ri)
    (hstaged : x.staged = none) :
    (x.step (.handle [] (.write 0 []))).staged = none ∧
      IdleLeader (length + 1) commitIdx appliedIdx syncedIdx rfi
        (x.step (.handle [] (.write 0 []))).ri ∧
      (x.step (.handle [] (.write 0 []))).ri.newestSync = x.ri.newestSync := by
  refine h.step_handle (S := fun ri =>
    IdleLeader (length + 1) commitIdx appliedIdx syncedIdx rfi ri ∧ ri.newestSync = x.ri.newestSync)
    hstaged rfl (by simp) ?_
  change (whenever (Cluster.coalescedWriteFits x.ri [[]] = true)
    (RaftServer.writeCoalescedEntries [[]])).wp _ _ _
  simp only [RaftServer.writeCoalescedEntries, RaftServer.leaderWriteNewEntry, wp_bind, wp_whenever,
    RaftServer.wp_getRi, wp_assert]
  refine ⟨fun _ => ⟨fun _ => ⟨fun _ => ⟨fun _ => ?_, fun hno => absurd (by simp) hno⟩,
    fun hno => absurd h.isLeader hno⟩, fun hno => absurd ⟨h.isLeader, by simp⟩ hno⟩, fun hno => ?_⟩
  · refine RaftServer.wp_writeNextEntry h.cons (fun hdead => ?_) fun fuse _ _ _ _ => ⟨h.withEntry, ?_⟩
    · exact hdead h.term (by simp) (by simp) rfl
    · simp [RaftInstance.withEntry, h.doesSynchronousWrites]
  · exact absurd (by simp [Cluster.coalescedWriteFits]) hno

theorem flushed (h : IdleLeader length commitIdx appliedIdx syncedIdx rfi ri) :
    IdleLeader length commitIdx appliedIdx (max syncedIdx appliedIdx) rfi
      (RaftServer.withSelf ri.flushed) := by
  have hcons := h.cons.flushed
  have hsynced := h.synced
  have happlied := h.applied
  rw [RaftInstance.flushed_of_asynchronous h.doesSynchronousWrites] at hcons ⊢
  refine { h with cons := { hcons with }, synced := ?_, slot := ?_ }
  · change max ri.lastApplied.syncedIdx ri.lastApplied.idx = max syncedIdx appliedIdx
    rw [hsynced, happlied]
  · rw [← h.slot]
    simp [RaftServer.withSelf, RaftInstance.followerInfo, RaftInstance.setFollowerInfo, h.self]

/-- The sync thread syncs what was stored and applied. -/
theorem sync (h : IdleLeader length commitIdx appliedIdx syncedIdx rfi x.ri) (hstaged : x.staged = none)
    (hunsynced : x.ri.newestSync ≠ x.ri.newestUnsync) :
    (x.step (.handle [] (.sync 0))).staged = none ∧
      IdleLeader length commitIdx appliedIdx (max syncedIdx appliedIdx) rfi
        (x.step (.handle [] (.sync 0))).ri ∧
      (x.step (.handle [] (.sync 0))).ri.newestSync.index = length - 1 := by
  refine h.step_handle (S := fun ri =>
    IdleLeader length commitIdx appliedIdx (max syncedIdx appliedIdx) rfi ri ∧
      ri.newestSync.index = length - 1) hstaged rfl (by simp) ?_
  change (RaftServer.syncThread).wp _ _ _
  simp only [RaftServer.syncThread, wp_bind, wp_whenever, RaftServer.wp_getRi]
  refine ⟨fun _ => ?_, fun hno => absurd h.doesSynchronousWrites hno⟩
  refine RaftServer.wp_hasUnsyncedEntries_of_consistent h.cons ⟨fun _ => ?_, fun hno => ?_⟩
  · refine RaftServer.wp_backendSyncPending h.cons (fun hf => hf rfl) (fun heq => absurd heq hunsynced)
      fun fuse _ => RaftServer.wp_leaderCanAdvanceCommitIdx (fun hno => (by cases hno))
        (fun hno => absurd h.leads hno) fun _ _ _ => ⟨h.flushed, ?_⟩
    change x.ri.flushed.newestSync.index = length - 1
    rw [h.cons.flushed_newestSync, h.cons.unsync_index, h.length]
  · exact absurd (by simpa using hunsynced) hno

end IdleLeader

/-- A reply by which server 1 says that its log begins past the leader's oldest entry. -/
def aheadReply (sli : Int) : AppendEntriesReplyMsg :=
  { leaderTerm := 1, prevLogIndex := -1, syncedLogIndex := sli, heartbeatMsg := true,
    errStaleTerm := false, errNonMatchingPrevTerm := false, newlyInitializedPeer := false,
    updateSli := true }

/-- Its arrival. -/
def aheadReplyArrives (sli : Int) : NodeEvent 3 :=
  .handle [⟨1, 0, .appendEntriesReply (aheadReply sli), none⟩] (.deliver 0 0)

namespace IdleLeader

variable [Externals] {length : Nat} {commitIdx appliedIdx syncedIdx : Int} {rfi : FollowerInfo}
  {ri : RaftInstance 3} {x : Node 3}

/-- The slot of server 1 jumps to what it has synced. -/
theorem takesReply (h : IdleLeader length commitIdx appliedIdx syncedIdx rfi x.ri)
    (hstaged : x.staged = none) (hnext : rfi.nextIdx = 0) (sli : Int) :
    (x.step (aheadReplyArrives sli)).staged = none ∧
      IdleLeader length commitIdx appliedIdx syncedIdx
        (RaftServer.FollowerInfo.updateSli rfi sli) (x.step (aheadReplyArrives sli)).ri ∧
      (x.step (aheadReplyArrives sli)).ri.newestSync = x.ri.newestSync := by
  refine h.step_handle (S := fun ri => IdleLeader length commitIdx appliedIdx syncedIdx
    (RaftServer.FollowerInfo.updateSli rfi sli) ri ∧ ri.newestSync = x.ri.newestSync)
    hstaged rfl (by simp) ?_
  change (RaftServer.processAppendEntriesReply 1 (aheadReply sli)).wp _ _ _
  have hslot : IdleLeader length commitIdx appliedIdx syncedIdx
      (RaftServer.FollowerInfo.updateSli rfi sli)
      (x.ri.setFollowerInfo 1 (RaftServer.FollowerInfo.updateSli rfi sli)) := by
    refine { h with cons := { h.cons with }, slot := ?_ }
    simp [RaftInstance.followerInfo, RaftInstance.setFollowerInfo]
  simpa [RaftServer.processAppendEntriesReply, RaftServer.applyAppendEntriesReplyResult, aheadReply,
    h.isLeader, h.slot, hnext] using ⟨hslot, rfl⟩

/-- What two of the three slots reach is committed. -/
theorem committedIdx_eq (h : IdleLeader length commitIdx appliedIdx syncedIdx rfi ri)
    (hvote : RaftServer.FollowerInfo.commitVote rfi = ri.newestSync.index) :
    RaftServer.committedIdx ri = ri.newestSync.index := by
  have hself : RaftServer.FollowerInfo.commitVote ((RaftServer.withSelf ri).followerInfo 0) =
      ri.newestSync.index := by
    simp [RaftServer.withSelf, RaftInstance.followerInfo, RaftInstance.setFollowerInfo, h.self,
      RaftServer.selfFollowerInfo, RaftServer.FollowerInfo.commitVote]
  have hslot : RaftServer.FollowerInfo.commitVote ((RaftServer.withSelf ri).followerInfo 1) =
      ri.newestSync.index := by
    rw [← hvote, ← h.slot]
    simp [RaftServer.withSelf, RaftInstance.followerInfo, RaftInstance.setFollowerInfo, h.self]
  have hcount : ∀ v : Int, RaftServer.countReaching ri v =
      [ri.newestSync.index, ri.newestSync.index,
        RaftServer.FollowerInfo.commitVote ((RaftServer.withSelf ri).followerInfo 2)].countP
        (v ≤ ·) := by
    intro v
    have hpeers : List.finRange 3 = [0, 1, 2] := rfl
    rw [RaftServer.countReaching, hpeers]
    simp only [List.countP_cons, List.countP_nil, hself, hslot]
  refine le_antisymm ?_ ?_
  · by_contra hlt
    have hle : ri.newestSync.index + 1 ≤ RaftServer.committedIdx ri := by omega
    rw [RaftServer.le_committedIdx_iff, hcount] at hle
    have hno : ¬ ri.newestSync.index + 1 ≤ ri.newestSync.index := by omega
    simp only [List.countP_cons, List.countP_nil, decide_eq_true_eq, if_neg hno] at hle
    split at hle <;> omega
  · rw [RaftServer.le_committedIdx_iff, hcount]
    simp only [List.countP_cons, List.countP_nil]
    simp

/-- The leader commits everything that is synced. -/
theorem advance (h : IdleLeader length commitIdx appliedIdx syncedIdx rfi x.ri)
    (hstaged : x.staged = none) (hsync : x.ri.newestSync.index = length - 1)
    (hvote : RaftServer.FollowerInfo.commitVote rfi = length - 1) (hpos : 0 < length)
    (hlt : commitIdx < length - 1) :
    (x.step (.handle [] (.advance 0))).staged = none ∧
      IdleLeader length (length - 1) appliedIdx syncedIdx rfi (x.step (.handle [] (.advance 0))).ri ∧
      (x.step (.handle [] (.advance 0))).ri.newestSync = x.ri.newestSync := by
  refine h.step_handle (S := fun ri => IdleLeader length (length - 1) appliedIdx syncedIdx rfi ri ∧
    ri.newestSync = x.ri.newestSync) hstaged rfl (by simp) ?_
  have hidx := h.committedIdx_eq (hvote.trans hsync.symm)
  have hinit := h.initial
  have hcommit := h.commit
  have hadv : RaftServer.Advances x.ri := by
    refine ⟨?_, ?_, ?_⟩
    all_goals omega
  change (RaftServer.commitIdxAdvEvpCb).wp _ _ _
  simp only [RaftServer.commitIdxAdvEvpCb, wp_bind, RaftServer.wp_getRi, wp_whenever]
  refine ⟨fun _ => ?_, fun hno => absurd h.isLeader hno⟩
  refine RaftServer.wp_leaderTryAdvanceCommitIdx (fun hno => absurd h.leads hno)
    (fun hno => absurd hadv hno) (fun hstay => ?_) fun _ _ => ⟨?_, rfl⟩
  · exact absurd hadv (hstay.resolve_left (by simp only; omega))
  · refine { h with cons := { h.cons with }, commit := ?_, slot := ?_ }
    · exact hidx.trans hsync
    · rw [← h.slot]
      simp [RaftServer.withSelf, RaftInstance.followerInfo, RaftInstance.setFollowerInfo, h.self]

theorem recordApplied (h : IdleLeader length commitIdx appliedIdx syncedIdx rfi ri)
    {la : LastApplied} (hsub : la.subIdx = la.subIdxMax) (hidx : appliedIdx ≤ la.idx)
    (hsynced : la.syncedIdx = syncedIdx) :
    IdleLeader length commitIdx la.idx syncedIdx rfi (ri.recordApplied la none) := by
  have hrocks : ri.opts.storeType ≠ .posixFlatFile := by
    rw [h.opts]
    simp [appServers]
  have hle := h.cons.applied
  have happlied := h.applied
  have hold := h.synced
  rw [RaftInstance.recordApplied, if_pos hrocks]
  refine { h with cons := { h.cons with applied := ?_ }, applied := rfl, between := hsub, synced := hsynced }
  change la.syncedIdx ≤ la.idx
  omega

/-- The next entry is applied. -/
theorem apply (h : IdleLeader length commitIdx appliedIdx syncedIdx rfi x.ri)
    (hstaged : x.staged = none) (hlow : -1 ≤ appliedIdx) (hlt : appliedIdx < commitIdx)
    (hheld : commitIdx < length) :
    (x.step (.handle [] (.apply 0))).staged = none ∧
      IdleLeader length commitIdx (appliedIdx + 1) syncedIdx rfi (x.step (.handle [] (.apply 0))).ri ∧
      (x.step (.handle [] (.apply 0))).ri.newestSync = x.ri.newestSync := by
  refine h.step_handle (S := fun ri => IdleLeader length commitIdx (appliedIdx + 1) syncedIdx rfi ri ∧
    ri.newestSync = x.ri.newestSync) hstaged rfl (by simp) ?_
  have happlied := h.applied
  have hcommit := h.commit
  have hlength := h.length
  have hlowest := h.lowest
  have hnext : RaftServer.nextApplyIdx x.ri.lastApplied =
      { x.ri.lastApplied with subIdx := 0, subIdxMax := 0, idx := appliedIdx + 1 } := by
    rw [RaftServer.nextApplyIdx, if_pos h.between, happlied]
  obtain ⟨re, hre⟩ : ∃ re, x.ri.store.db.entries[(appliedIdx + 1).toNat]? = some re :=
    ⟨_, List.getElem?_eq_getElem (by omega)⟩
  obtain ⟨hidle, hnum, hcrc⟩ := h.idle re (List.mem_of_getElem? hre)
  have hindex := (h.cons.entries.entry _ re hre).index
  have htakes : RaftServer.TakesNext x.ri re := by
    refine ⟨by omega, .inl (by omega), h.between.le, ?_, ?_, ?_, ?_, .inl h.between⟩
    all_goals rw [hnext]
    · change 0 ≤ appliedIdx + 1
      omega
    · change x.ri.lowestIdx ≤ appliedIdx + 1
      omega
    · exact hre
    · change re.header.index = appliedIdx + 1
      omega
  change (RaftServer.stateMachineApply _).wp _ _ _
  refine RaftServer.wp_stateMachineApply_next h.cons htakes hcrc (fun _ => ?_)
    fun hno => absurd hidle hno
  have hstart : RaftServer.startRecord x.ri.lastApplied re =
      { x.ri.lastApplied with
        subIdx := 0, subIdxMax := 0, idx := appliedIdx + 1
        cumulativeCrc := x.ri.lastApplied.cumulativeCrc ^^^ re.header.crc } := by
    rw [RaftServer.startRecord, hnext, hnum]
  refine RaftServer.wp_setLastApplied_record (fun hno => ?_) (fun hf => hf rfl) fun fuse _ hidx hsub => ?_
  · refine hno ⟨?_, ?_⟩
    all_goals simp only [hstart]
    · omega
    · exact le_refl _
  · have hto : (x.ri.lastApplied.moveTo (RaftServer.startRecord x.ri.lastApplied re)).idx =
        appliedIdx + 1 := by simp [hstart]
    have hri : IdleLeader length commitIdx
        (x.ri.lastApplied.moveTo (RaftServer.startRecord x.ri.lastApplied re)).idx syncedIdx rfi
        (x.ri.recordApplied (x.ri.lastApplied.moveTo (RaftServer.startRecord x.ri.lastApplied re))
          none) :=
      h.recordApplied (by simp [hstart]) (by rw [hto]; omega) (by simp [h.synced])
    rw [hto] at hri
    simp only [RaftServer.notifyIfNeedsApply, RaftServer.needsApply, wp_bind, RaftServer.wp_getRi,
      wp_assert, wp_pure]
    refine ⟨fun _ => ⟨hri, rfl⟩, fun hno => hno ?_⟩
    rw [hri.applied, hri.commit]
    omega

/-- Any number of requests are written. -/
theorem writes (k : Nat) : ∀ {length : Nat} {x : Node 3},
    IdleLeader length commitIdx appliedIdx syncedIdx rfi x.ri → x.staged = none →
    (x.run (List.replicate k (.handle [] (.write 0 [])))).staged = none ∧
      IdleLeader (length + k) commitIdx appliedIdx syncedIdx rfi
        (x.run (List.replicate k (.handle [] (.write 0 [])))).ri ∧
      (x.run (List.replicate k (.handle [] (.write 0 [])))).ri.newestSync = x.ri.newestSync := by
  induction k with
  | zero => exact fun h hstaged => ⟨hstaged, h, rfl⟩
  | succ k ih =>
    intro length x h hstaged
    obtain ⟨hstaged', h', hsync⟩ := h.write hstaged
    have hk := ih h' hstaged'
    rw [hsync, Nat.add_right_comm, Nat.add_assoc] at hk
    exact hk

/-- Any number of committed entries are applied. -/
theorem applies (k : Nat) : ∀ {appliedIdx : Int} {x : Node 3},
    IdleLeader length commitIdx appliedIdx syncedIdx rfi x.ri → x.staged = none →
    -1 ≤ appliedIdx → appliedIdx + k ≤ commitIdx → commitIdx < length →
    (x.run (List.replicate k (.handle [] (.apply 0)))).staged = none ∧
      IdleLeader length commitIdx (appliedIdx + k) syncedIdx rfi
        (x.run (List.replicate k (.handle [] (.apply 0)))).ri := by
  induction k with
  | zero =>
    intro appliedIdx x h hstaged _ _ _
    rw [Int.natCast_zero, Int.add_zero]
    exact ⟨hstaged, h⟩
  | succ k ih =>
    intro appliedIdx x h hstaged hlow hle hheld
    obtain ⟨hstaged', h', _⟩ := h.apply hstaged hlow (by omega) hheld
    have hk := ih h' hstaged' (by omega) (by omega) hheld
    rw [Int.add_assoc, Int.add_comm 1] at hk
    exact hk

end IdleLeader

/-- A reap is requested, with a checkpoint or without. -/
def reapRequested (takesChkpt : Bool) : NodeEvent 3 :=
  .handle [] ⟨0, .chkptThread takesChkpt true 500, none, 0⟩

/-- Enough entries are applied and synced for a reap. -/
theorem IdleLeader.reaps [Externals] {length : Nat} {commitIdx appliedIdx syncedIdx : Int}
    {rfi : FollowerInfo} {x : Node 3}
    (h : IdleLeader length commitIdx appliedIdx syncedIdx rfi x.ri) (hstaged : x.staged = none)
    (hmany : 1000 < syncedIdx) (takesChkpt : Bool) :
    (x.step (reapRequested takesChkpt)).ri.lowestIdx = syncedIdx - 500 ∧
      (x.step (reapRequested takesChkpt)).ri.checkpointLastIdx =
        if takesChkpt then syncedIdx else -1 := by
  refine (h.step_handle (S := fun ri => ri.lowestIdx = syncedIdx - 500 ∧
    ri.checkpointLastIdx = if takesChkpt then syncedIdx else -1) hstaged rfl (by simp) ?_).2
  have hsynced := h.synced
  have hlowest := h.lowest
  have hchkpt := h.checkpoint
  have htype : x.ri.opts.storeType = .rocksdbPersistentApp := by
    rw [h.opts]
    rfl
  -- a reap after the checkpoint, if one was taken
  have hreap : ∀ s : Proc 3, s.fuse = none → s.ri.lastApplied = x.ri.lastApplied →
      s.ri.lowestIdx = x.ri.lowestIdx →
      s.ri.checkpointLastIdx = (if takesChkpt then syncedIdx else -1) →
      (RaftServer.reapLog 500).wp (fun _ s => s.ri.lowestIdx = syncedIdx - 500 ∧
        s.ri.checkpointLastIdx = if takesChkpt then syncedIdx else -1) (fun _ => False) s := by
    intro s hfuse hla hlow hc
    refine RaftServer.wp_reapLog (fun _ hlt => ?_) (fun hf => hf hfuse) (fun hno => ?_)
      fun _ _ _ _ _ => ⟨?_, hc⟩
    · rw [hla, hlow] at hlt
      omega
    · rw [hla, hlow] at hno
      omega
    · change s.ri.lastApplied.syncedIdx - 500 = syncedIdx - 500
      rw [hla, hsynced]
  change (RaftServer.chkptThread takesChkpt true 500).wp _ _ _
  simp only [RaftServer.chkptThread, wp_bind, RaftServer.wp_getRi, wp_whenever, wp_fatalIf, htype]
  refine ⟨fun _ => ⟨fun hneg => by omega, fun _ => ⟨fun htakes => ?_, fun hno => ?_⟩⟩,
    fun hno => absurd (by omega) hno⟩
  · refine RaftServer.wp_takeChkpt (by simp only; omega) (fun hf => hf rfl) (fun hsame => ?_)
      fun fuse hfuse _ => ⟨fun _ => ?_, fun hno => ?_⟩
    · have := hsame (by simp only; omega)
      simp only at this
      omega
    · refine hreap _ (hfuse rfl) rfl rfl ?_
      rw [if_pos htakes.1, ← hsynced]
      rfl
    · exact absurd ⟨trivial, trivial⟩ hno
  · refine ⟨fun _ => hreap _ rfl rfl rfl ?_, fun hno' => absurd (by simp) hno'⟩
    rw [if_neg fun ht => hno ⟨ht, by simp⟩]
    exact hchkpt

/-- The leader writes `k` requests, and with server 1 ahead commits and applies them. -/
def appliesMany (k : Nat) : List (NodeEvent 3) :=
  List.replicate k (.handle [] (.write 0 [])) ++
    ([.handle [] (.sync 0), aheadReplyArrives k, .handle [] (.advance 0)] ++
      (List.replicate (k + 1) (.handle [] (.apply 0)) ++
        [.handle [] (.write 0 []), .handle [] (.sync 0)]))

theorem IdleLeader.appliesMany [Externals] {rfi : FollowerInfo} {x : Node 3}
    (h : IdleLeader 1 (-1) (-1) (-1) rfi x.ri) (hstaged : x.staged = none) (hnext : rfi.nextIdx = 0)
    (hsync : x.ri.newestSync.index = -1) {k : Nat} (hk : 0 < k) :
    (x.run (appliesMany k)).staged = none ∧
      ∃ rfi, IdleLeader (k + 2) k k k rfi (x.run (appliesMany k)).ri := by
  unfold NiovaRaft.appliesMany
  rw [Node.run, List.foldl_append]
  obtain ⟨hs, h, hsame⟩ := h.writes k hstaged
  rw [Node.run] at hs h hsame
  generalize List.foldl Node.step x (List.replicate k _) = x₁ at hs h hsame ⊢
  -- everything is synced, and committed with the help of server 1
  rw [List.foldl_append]
  have hun := h.cons.unsync_index
  rw [h.length] at hun
  obtain ⟨hs, h, hidx⟩ := h.sync hs fun heq => by
    rw [hsame] at heq
    rw [← heq, hsync] at hun
    omega
  obtain ⟨hs, h, hsame⟩ := h.takesReply hs hnext k
  rw [← hsame] at hidx
  have hvote : RaftServer.FollowerInfo.commitVote (RaftServer.FollowerInfo.updateSli rfi k) =
      (1 + k : Nat) - 1 := by
    rw [RaftServer.FollowerInfo.updateSli, if_pos (by omega)]
    show min (k : Int) k = _
    omega
  obtain ⟨hs, h, -⟩ := h.advance hs hidx hvote (by omega) (by omega)
  simp only [List.foldl_cons, List.foldl_nil]
  generalize Node.step _ (.handle [] (.advance 0)) = x₂ at hs h ⊢
  -- and applied
  rw [List.foldl_append]
  obtain ⟨hs, h⟩ := h.applies (k + 1) hs (by omega) (by omega) (by omega)
  rw [Node.run] at hs h
  generalize List.foldl Node.step x₂ (List.replicate (k + 1) _) = x₃ at hs h ⊢
  have hle := h.cons.sync_index_le
  have hun := h.cons.unsync_index
  rw [h.length] at hun
  obtain ⟨hs, h, hsame⟩ := h.write hs
  have hun' := h.cons.unsync_index
  rw [h.length] at hun'
  obtain ⟨hs, h, -⟩ := h.sync hs fun heq => by
    rw [hsame] at heq
    rw [heq] at hle
    omega
  have hlength : 1 + k + 1 = k + 2 := by omega
  have hcommit : ((1 + k : Nat) : Int) - 1 = k := by omega
  have happlied : -1 + ((k + 1 : Nat) : Int) = k := by omega
  have hsynced : max (max (-1) (-1)) (k : Int) = k := by omega
  rw [hlength, hcommit, happlied, hsynced] at h
  exact ⟨hs, _, h⟩

/-- Server 0 is elected. -/
def electedAlone : List (NodeEvent 3) :=
  [.handle [] (.expire 0),
    .handle [⟨1, 0, .preVoteReply ⟨true, 0, none⟩, none⟩] (.deliver 0 0),
    .handle [⟨1, 0, .voteReply ⟨true, 0, none⟩, none⟩] (.deliver 0 0)]

/-- The elected server. -/
def electedLeader : Node 3 := @Node.run 3 sampleExternals (.initial 0 (appServers 0)) electedAlone

theorem idleLeader_electedLeader :
    @IdleLeader sampleExternals 1 (-1) (-1) (-1) (electedLeader.ri.followerInfo 1) electedLeader.ri := by
  have hentries : electedLeader.ri.store.db.entries = [⟨⟨7, 0, 0, 1, [0], 1, true, 1⟩, []⟩] := by
    decide +kernel
  have hunsync : electedLeader.ri.newestUnsync = ⟨7, 0, 0, 1, [0], 1, true, 1⟩ := by decide +kernel
  have hsync : electedLeader.ri.newestSync = EntryHeader.null := by decide +kernel
  refine @IdleLeader.mk sampleExternals _ _ _ _ _ _ (by decide +kernel) (by decide +kernel)
    (by decide +kernel) (by decide +kernel) (by decide +kernel) (by decide +kernel) ?_
    (by rw [hentries]; rfl) ?_ (by decide +kernel) (by decide +kernel) (by decide +kernel)
    (by decide +kernel) (by decide +kernel) (by decide +kernel) (by decide +kernel) rfl
  · refine ⟨?_, by rw [hunsync, hentries]; rfl, ⟨0, by simp, by rw [hsync]; rfl, ?_⟩,
      by decide +kernel, by decide +kernel⟩
    · rw [hentries]
      refine ⟨fun i re hre => ?_, List.pairwise_singleton _ _⟩
      cases i with
      | zero =>
        obtain rfl : _ = re := Option.some.inj hre
        exact ⟨rfl, rfl, rfl, rfl, by simp, fun _ => rfl, by simp, by simp⟩
      | succ i => simp at hre
    · have hasync : electedLeader.ri.doesSynchronousWrites = false := by decide +kernel
      simp [hasync]
  · rw [hentries]
    intro re hre
    obtain rfl := List.mem_singleton.mp hre
    exact ⟨.inl rfl, rfl, by decide +kernel⟩

/-- Server 0 is elected, applies 1002 entries and is asked to reap. -/
def reapsMany (takesChkpt : Bool) : List (NodeEvent 3) :=
  electedAlone ++ (appliesMany 1001 ++ [reapRequested takesChkpt])

/-- The server after that. -/
def afterReap (takesChkpt : Bool) : Node 3 :=
  @Node.run 3 sampleExternals (.initial 0 (appServers 0)) (reapsMany takesChkpt)

theorem afterReap_indexes (takesChkpt : Bool) : (afterReap takesChkpt).ri.lowestIdx = 501 ∧
    (afterReap takesChkpt).ri.checkpointLastIdx = if takesChkpt then 1001 else -1 := by
  have hnext : (electedLeader.ri.followerInfo 1).nextIdx = 0 := by decide +kernel
  have hsync : electedLeader.ri.newestSync.index = -1 := by decide +kernel
  obtain ⟨hstaged, rfi, h⟩ := @IdleLeader.appliesMany sampleExternals _ _ idleLeader_electedLeader
    (by decide +kernel) hnext hsync 1001 (by omega)
  have hrun : afterReap takesChkpt = @Node.step 3 sampleExternals
      (@Node.run 3 sampleExternals electedLeader (appliesMany 1001)) (reapRequested takesChkpt) := by
    unfold afterReap reapsMany electedLeader Node.run
    rw [List.foldl_append, List.foldl_append, List.foldl_cons, List.foldl_nil]
  rw [hrun]
  exact @IdleLeader.reaps sampleExternals _ _ _ _ _ _ h hstaged (by omega) takesChkpt

/-- A reap that is requested together with a checkpoint is covered. -/
theorem reapCovered_reapsMany (x : Node 3) : ∀ e ∈ reapsMany true, ReapCovered x e := by
  intro e he
  simp only [reapsMany, electedAlone, appliesMany, List.mem_append, List.mem_cons, List.not_mem_nil,
    or_false, List.mem_replicate] at he
  rcases he with (rfl | rfl | rfl) | (⟨-, rfl⟩ | (rfl | rfl | rfl) | ⟨-, rfl⟩ | rfl | rfl) | rfl
  case inr.inr => exact fun _ _ => .inl rfl
  all_goals
    intro idx hidx
    cases hidx

theorem reaping_recoverable_afterReap :
    (afterReap true).ri.lowestIdx = 501 ∧
      (afterReap true).ri.lowestIdx ≤ (afterReap true).ri.checkpointLastIdx + 1 :=
  ⟨(afterReap_indexes true).1, @reaping_recoverable 3 sampleExternals 0 (appServers 0) _
    (@Node.Reach.of_forall 3 sampleExternals _ _ _ _ (@Node.Reach.init 3 sampleExternals _ _ _)
      (reapsMany true) reapCovered_reapsMany)⟩

/-- After a reap without a checkpoint, the log begins 502 entries past the advertised checkpoint. -/
theorem uncoveredReap_gap :
    @Node.Reach 3 sampleExternals Node.anyEvent 0 (appServers 0) (afterReap false) ∧
      ¬ (afterReap false).ri.lowestIdx ≤ (afterReap false).ri.checkpointLastIdx + 1 := by
  refine ⟨@Node.Reach.of_forall 3 sampleExternals _ _ _ _ (@Node.Reach.init 3 sampleExternals _ _ _)
    (reapsMany false) fun _ _ _ => trivial, ?_⟩
  rw [(afterReap_indexes false).1, (afterReap_indexes false).2]
  decide

end NiovaRaft
