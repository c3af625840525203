import NiovaRaft.Refinement.Compaction
import NiovaRaft.Safety.LogMatching
import NiovaRaft.Spec.Checksum
import NiovaRaft.StateMachine.Resume

/-!
# Every sub-entry is applied once

Whatever a server of a persistent application goes through, its database holds the write
supplements of the sub-entries before the one that its last-applied record goes on with, in the
order of the committed log and each once.  An apply that is not cut short by a crash leaves less to
do, so that applies come to the end of what is committed.
-/

namespace NiovaRaft

open Base Base.Handler

variable {n : Nat}

/-- The event has the state machine apply an entry. -/
def Event.applies (e : Event n) : Bool :=
  match e.action with
  | .smApply _ => true
  | _ => false

/-- Whenever server `p` applies, the entries it has committed are those of `log`. -/
def AppliesLog (log : List Entry) (p : Fin n) (c : Cluster n) (e : Event n) : Prop :=
  e.server = p → e.applies = true → FollowsLog log (c.servers p)

instance (log : List Entry) (ri : RaftInstance n) : Decidable (FollowsLog log ri) :=
  decidable_of_iff (∀ i < (ri.commitIdx + 1).toNat, ri.store.db.entries[i]? = log[i]?) <| by
    constructor
    · intro h i hi
      exact h i (by omega)
    · intro h i hi
      exact h i (by omega)

instance (log : List Entry) (p : Fin n) (c : Cluster n) (e : Event n) :
    Decidable (AppliesLog log p c e) :=
  inferInstanceAs (Decidable (_ → _ → _))

variable [Externals] {sums : Prop} {log : List Entry} {opts : Fin n → Options} {c : Cluster n}
  {p : Fin n}

/-! ## Runs -/

/-- A process that is started on what a crash left behind goes on where its record says. -/
theorem Resumable.instanceRun {o : Options} {d : Db n}
    (happ : o.storeType = .rocksdbPersistentApp)
    (h : AppliedThrough sums log d.applied d.supplements) :
    Resumable sums log (RaftServer.instanceRun p o d) := by
  have hl := RaftServer.instanceRun_loaded p o d
  have hdb : AppliedThrough sums log (RaftServer.instanceRun p o d).store.db.applied
      (RaftServer.instanceRun p o d).store.db.supplements := by
    rw [hl.db]
    exact h
  have hla : (RaftServer.instanceRun p o d).lastApplied = d.applied := by
    rw [hl.applied, RaftServer.instanceInit, if_pos happ]
    rfl
  refine ⟨?_, .of_flushed hl.flushed hdb, ?_⟩
  · rw [hl.opts]
    exact happ
  · rw [hla, hl.db]
    exact h

/-- One event. -/
theorem Resumable.step {e : Event n} (h : Resumable sums log (c.servers p))
    (hlog : AppliesLog log p c e)
    (hclean : sums → e.server = p → e.applies = true → CleanResume (c.servers p)) :
    Resumable sums log ((c.step e).servers p) := by
  by_cases hp : e.server = p
  · subst hp
    have hkeeps : Cluster.Keeps c e (Resumable sums log) :=
      { write := fun _ _ hri hup => hri.update hup
        refresh := fun _ _ _ _ hri _ _ => { hri with }
        apply := fun cb hact hri => by
          have happlies : e.applies = true := by rw [Event.applies, hact]
          exact Resumable.wp_stateMachineApply hri (hlog rfl happlies)
            fun hs => hclean hs rfl happlies
        compact := Cluster.keeps_compact
          (fun _ hri _ _ => { hri with kept := hri.kept.put (by exact hri.kept.db) true })
          fun _ _ hri _ _ => { hri with kept := hri.kept.put (by exact hri.kept.db) true } }
    refine hkeeps.step h ?_
    intro ri d _ _ hsurv hri _
    have hkept := hri.kept.getD e.keep
    rw [← hsurv.store] at hkept
    refine Resumable.instanceRun ?_ hkept
    rw [hsurv.opts]
    exact hri.app
  · rw [Cluster.step_servers_of_ne (Ne.symm hp)]
    exact h

theorem Cluster.Reach.resumable {ok : Cluster n → Event n → Prop} (h : Cluster.Reach ok opts c)
    (happ : (opts p).storeType = .rocksdbPersistentApp) (hlog : ∀ c e, ok c e → AppliesLog log p c e)
    (hclean : sums → ∀ c e, ok c e → e.server = p → e.applies = true → CleanResume (c.servers p)) :
    Resumable sums log (c.servers p) := by
  induction h with
  | init => exact Resumable.instanceRun (d := RaftServer.freshDb) happ .initial
  | step e _ he ih => exact ih.step (hlog _ e he) fun hs => hclean hs _ e he

/-! ## An apply that is not cut short -/

/-- What is left to apply.  An entry has less than 256 sub-entries. -/
def RaftInstance.left (ri : RaftInstance n) : Int :=
  256 * (ri.commitIdx + 1 - (RaftServer.nextApplyIdx ri.lastApplied).idx) -
    (RaftServer.nextApplyIdx ri.lastApplied).subIdx

/-- The next entry is there. -/
theorem takesNext {ri : RaftInstance n} (h : Resumable sums log ri) (hlog : FollowsLog log ri)
    (hc : Consistent ri) (hlow : ri.lowestIdx ≤ max 0 ri.lastApplied.idx)
    (hstored : ri.commitIdx ≤ ri.newestUnsync.index) (hbelow : ri.lastApplied.idx ≤ ri.commitIdx)
    (hneed : ri.Unapplied) : ∃ re, RaftServer.TakesNext ri re := by
  have hnonneg := h.mem.nonneg
  have hge := RaftServer.le_nextApplyIdx ri.lastApplied
  have hle := RaftServer.nextApplyIdx_le hneed
  rw [hc.unsync_index] at hstored
  have hlt : (RaftServer.nextApplyIdx ri.lastApplied).idx.toNat < ri.store.db.entries.length := by
    omega
  obtain ⟨re, hre⟩ : ∃ re, ri.store.db.entries[
      (RaftServer.nextApplyIdx ri.lastApplied).idx.toNat]? = some re :=
    ⟨_, List.getElem?_eq_getElem hlt⟩
  refine ⟨re, hbelow, hneed, h.mem.sub_le, hnonneg, by omega, hre, ?_, ?_⟩
  · rw [(hc.entries.entry _ _ hre).index]
    omega
  · -- the rest of an entry is that of the entry that was begun
    by_cases hdone : ri.lastApplied.subIdx = ri.lastApplied.subIdxMax
    · exact .inl hdone
    · right
      obtain ⟨re', hget, hmax⟩ := h.mem.partway hdone
      have hidx : (RaftServer.nextApplyIdx ri.lastApplied).idx = ri.lastApplied.idx := by
        rw [RaftServer.nextApplyIdx, if_neg hdone]
      rw [hidx] at hre hnonneg
      rw [← hlog _ (by omega), hre] at hget
      obtain rfl := Option.some.inj hget
      have hsub := h.mem.sub_le
      omega

omit [Externals] in
/-- The sub-entry to go on with is one of the next entry. -/
theorem nextSub_lt {ri : RaftInstance n} {re : Entry} (hre : RaftServer.TakesNext ri re)
    (hsmall : re.header.numEntries < 256) :
    (RaftServer.nextApplyIdx ri.lastApplied).subIdx < 256 := by
  have hres := hre.resumed
  have hle := hre.subIdx
  unfold RaftServer.nextApplyIdx
  split
  · exact Nat.zero_lt_succ _
  · simp only
    omega

omit [Externals] in
/-- The next entry leaves less, whether it is done or only begun. -/
theorem left_lt {ri ri' : RaftInstance n} {re : Entry} (hre : RaftServer.TakesNext ri re)
    (hsmall : re.header.numEntries < 256) (hcommit : ri'.commitIdx = ri.commitIdx)
    (hidx : ri'.lastApplied.idx = (RaftServer.nextApplyIdx ri.lastApplied).idx)
    (hsub : ri'.lastApplied.subIdx = ri'.lastApplied.subIdxMax ∨
      ri'.lastApplied.subIdx = (RaftServer.nextApplyIdx ri.lastApplied).subIdx) :
    ri'.left < ri.left := by
  have hstart := nextSub_lt hre hsmall
  unfold RaftInstance.left
  rw [hcommit, RaftServer.nextApplyIdx]
  split
  · simp only
    omega
  · simp only
    omega

/-- An apply that is not killed takes the next entry. -/
theorem wp_stateMachineApply_left {cb : SmRequestCb} {s : Proc n} {re : Entry}
    (h : Resumable sums log s.ri) (hlog : FollowsLog log s.ri) (hclean : sums → CleanResume s.ri)
    (hfuse : s.fuse = none) (hc : Consistent s.ri) (hcrc : ChecksumsHold s.ri.store.db)
    (hre : RaftServer.TakesNext s.ri re) :
    (RaftServer.stateMachineApply cb).wp (fun _ s' => s'.ri.left < s.ri.left ∧
      s'.ri.lastApplied.idx ≤ s'.ri.commitIdx) (fun _ => False) s := by
  obtain ⟨idx, hnext⟩ := h.nextOf hlog hclean hre
  have hok := hc.entries.entry _ re hre.held
  have hle := RaftServer.nextApplyIdx_le hre.needed
  -- the wakeup at the end checks what was applied against what is committed
  have hdone : ∀ {s' : Proc n}, s'.ri.commitIdx = s.ri.commitIdx →
      s'.ri.lastApplied.idx = (RaftServer.nextApplyIdx s.ri.lastApplied).idx →
      (s'.ri.lastApplied.subIdx = s'.ri.lastApplied.subIdxMax ∨
        s'.ri.lastApplied.subIdx = (RaftServer.nextApplyIdx s.ri.lastApplied).subIdx) →
      RaftServer.notifyIfNeedsApply.wp (fun _ s' => s'.ri.left < s.ri.left ∧
        s'.ri.lastApplied.idx ≤ s'.ri.commitIdx) (fun _ => False) s' := by
    intro s' hcommit hidx hsub
    have hbelow : s'.ri.lastApplied.idx ≤ s'.ri.commitIdx := by omega
    simp only [RaftServer.notifyIfNeedsApply, RaftServer.needsApply, wp_bind, RaftServer.wp_getRi,
      wp_assert, wp_pure]
    exact ⟨fun _ => ⟨left_lt hre hok.narrow hcommit hidx hsub, hbelow⟩, fun h => h hbelow⟩
  refine RaftServer.wp_stateMachineApply_next hc hre (hcrc _ (List.mem_of_getElem? hre.held))
    (fun hidle => ?_) fun hidle => ?_
  · refine RaftServer.wp_setLastApplied_record (fun hdead => hdead ⟨?_, hnext.start⟩)
      (fun hkilled => hkilled hfuse) fun fuse _ _ _ => hdone rfl ?_ (.inr ?_)
    · exact RaftServer.le_nextApplyIdx _
    · exact LastApplied.moveTo_idx _ _
    · exact LastApplied.moveTo_subIdx _ _
  · have hloop := h.loop (s := { s with trace := s.trace ++ [.applies re.header.index
      re.header.term re.header.entrySz (re.data.take re.header.dataSize)] }) hnext
    have hlen : (RaftServer.subSizes re).length = re.header.numEntries := by
      have := hok.numEntries
      rw [RaftServer.subSizes, List.length_take]
      omega
    have hpos : 0 < re.header.numEntries := by
      have hsize := hok.dataSize
      have hnum := hok.numEntries
      refine Nat.pos_of_ne_zero fun hzero => hidle (.inr ?_)
      rw [hsize, List.length_eq_zero_iff.mp (hnum.symm.trans hzero), List.sum_nil]
    refine wp_mono (RaftServer.wp_applySubEntries_all
      (I := fun k nai s' => ResumeLoop sums log re
        (RaftServer.nextApplyIdx s.ri.lastApplied).subIdx k nai s' ∧ s'.fuse = none ∧
        s'.ri.commitIdx = s.ri.commitIdx) ⟨hloop, hfuse, rfl⟩
      (fun k nai s' hk hI => ⟨hI.1.skip hk, hI.2⟩) fun k size nai s' hsize hk hI => ?_) ?_
      fun _ => id
    · refine wp_mono (hI.1.step hidle hnext.index hnext.get hnext.start hsize hk
        fun hkilled => absurd hI.2.1 hkilled) (fun _ s'' h'' => ?_) fun _ => id
      exact ⟨h''.1, h''.2.1 hI.2.1, h''.2.2.trans hI.2.2⟩
    · rintro _ s' ⟨nai', hI, -, hcommit⟩
      obtain ⟨hidx, hsub⟩ := hI.complete (by omega) (by omega)
      exact ⟨hsub, hdone hcommit (hidx.trans hre.index) (.inl hsub)⟩

/-! ## To the end of what is committed -/

/-- An apply of server `p` that no crash cuts short. -/
def Event.applyAt (p : Fin n) (cb : SmRequestCb) : Event n := ⟨p, .smApply cb, none, 0⟩

/-- Server `p` serves and has applied nothing but committed entries of `log`. -/
structure AppliesOn (log : List Entry) (idx : Int) (ri : RaftInstance n) : Prop where
  serves : Cluster.serves ri = true
  follows : FollowsLog log ri
  commit : ri.commitIdx = idx
  below : ri.lastApplied.idx ≤ ri.commitIdx

/-- What such a server is to apply is there. -/
theorem AppliesOn.takesNext {idx : Int} (hreach : Cluster.Reach (AppliesLog log p) opts c)
    (hri : Resumable False log (c.servers p)) (h : AppliesOn log idx (c.servers p))
    (hneed : (c.servers p).Unapplied) :
    Consistent (c.servers p) ∧ ∃ re, RaftServer.TakesNext (c.servers p) re := by
  have hrun : (c.servers p).procState = .running := by
    have := h.serves
    simp only [Cluster.serves, decide_eq_true_eq] at this
    exact this.1
  obtain ⟨w, hw⟩ := hreach.coupled_noRules
  have hok := (hw.servers p).ok hrun
  have hc := hok.stored.cons
  have hstored : (c.servers p).commitIdx ≤ (c.servers p).newestUnsync.index := by
    have h1 := hok.stored.commit
    have h2 := hw.reach.basic.commit_le p
    have h3 := hok.stored.store.synced_le
    have h4 := hc.unsync_index
    omega
  exact ⟨hc, NiovaRaft.takesNext hri h.follows hc
    ((hreach.reapedToLowest p).le_applied hok hri.app) hstored h.below hneed⟩

/-- An apply goes on. -/
theorem AppliesOn.step {idx : Int} (cb : SmRequestCb)
    (hreach : Cluster.Reach (AppliesLog log p) opts c)
    (hri : Resumable False log (c.servers p)) (h : AppliesOn log idx (c.servers p))
    (hneed : (c.servers p).Unapplied) :
    AppliesOn log idx ((c.step (.applyAt p cb)).servers p) ∧
      ((c.step (.applyAt p cb)).servers p).left < (c.servers p).left := by
  obtain ⟨hc, re, hre⟩ := h.takesNext hreach hri hneed
  have hwp : (RaftServer.stateMachineApply cb).wp (fun _ s' => s'.ri.left < (c.servers p).left ∧
      s'.ri.lastApplied.idx ≤ s'.ri.commitIdx) (fun _ => False) (c.proc (.applyAt p cb)) :=
    wp_stateMachineApply_left hri h.follows (fun hs => hs.elim) rfl hc (hreach.checksumsHold p).db
      hre
  have happlies : Applies (RaftServer.stateMachineApply cb) (c.proc (.applyAt p cb)) :=
    RaftServer.applies_stateMachineApply
  have hframe := happlies.invariant (P := fun v : Visible n => Cluster.serves v.1 = true ∧
    FollowsLog log v.1 ∧ v.1.commitIdx = idx) ?_ ⟨h.serves, h.follows, h.commit⟩
  · have hen : c.enabled (.applyAt p cb) = true := by
      unfold Cluster.enabled
      rw [Bool.or_eq_true]
      exact .inl h.serves
    refine Cluster.step_server (S := fun ri => AppliesOn log idx ri ∧ ri.left < (c.servers p).left)
      hen (wp_intro (fun _ s hres => ?_) fun d hres => ?_)
    · obtain ⟨hleft, hbelow⟩ := wp_of_ok hres hwp
      obtain ⟨hserves, hlog, hcommit⟩ := wp_of_ok hres hframe
      exact ⟨⟨hserves, hlog, hcommit, hbelow⟩, hleft⟩
    · exact (wp_of_abort hres hwp).elim
  · rintro v v' hv hstep
    cases hstep with
    | record la batch =>
      have hdb : ∀ ri : RaftInstance n, (ri.recordApplied la batch).store.db.entries =
          ri.store.db.entries := by
        intro ri
        unfold RaftInstance.recordApplied
        split <;> rfl
      refine ⟨hv.1, fun i hi => ?_, hv.2.2⟩
      rw [hdb]
      exact hv.2.1 i hi

/-- Applies come to the end of what is committed. -/
theorem AppliesOn.finish {idx : Int} (cb : SmRequestCb)
    (happ : (opts p).storeType = .rocksdbPersistentApp) (m : Nat)
    (hreach : Cluster.Reach (AppliesLog log p) opts c) (h : AppliesOn log idx (c.servers p))
    (hm : (c.servers p).left ≤ m) :
    ∃ k, Cluster.Reach (AppliesLog log p) opts (c.run (List.replicate k (.applyAt p cb))) ∧
      AppliesOn log idx ((c.run (List.replicate k (.applyAt p cb))).servers p) ∧
      ¬ ((c.run (List.replicate k (.applyAt p cb))).servers p).Unapplied := by
  have hri : ∀ {c : Cluster n}, Cluster.Reach (AppliesLog log p) opts c →
      Resumable False log (c.servers p) :=
    fun hreach => hreach.resumable happ (fun _ _ => id) fun hs => hs.elim
  induction m generalizing c with
  | zero =>
    refine ⟨0, hreach, h, fun (hneed : (c.servers p).Unapplied) => ?_⟩
    obtain ⟨hc, re, hre⟩ := h.takesNext hreach (hri hreach) hneed
    have hlt := nextSub_lt hre (hc.entries.entry _ re hre.held).narrow
    have hle := RaftServer.nextApplyIdx_le hneed
    unfold RaftInstance.left at hm
    omega
  | succ m ih =>
    by_cases hneed : (c.servers p).Unapplied
    · have hreach' := hreach.step (.applyAt p cb) fun _ _ => h.follows
      obtain ⟨h', hleft⟩ := h.step cb hreach (hri hreach) hneed
      obtain ⟨k, hk⟩ := ih hreach' h' (by omega)
      exact ⟨k + 1, hk⟩
    · exact ⟨0, hreach, h, hneed⟩

/-- Whatever crashes a server of a persistent application goes through, any database that it holds
or finds after a crash has the write supplements of the sub-entries of the committed log before the
one that its record goes on with, in order and each once.  Once it serves and knows of no less than
it has applied, applies that are not cut short bring it to those of all committed entries. -/
theorem applied_exactly_once (happ : (opts p).storeType = .rocksdbPersistentApp)
    (hreach : Cluster.Reach (AppliesLog log p) opts c) :
    (∀ d ∈ (c.servers p).store.recoverable, d.supplements.map AppBatch.sub =
      subEntriesBefore log (RaftServer.nextApplyIdx d.applied).idx.toNat
        (RaftServer.nextApplyIdx d.applied).subIdx) ∧
    ∀ cb, Cluster.serves (c.servers p) = true → FollowsLog log (c.servers p) →
      (c.servers p).lastApplied.idx ≤ (c.servers p).commitIdx →
      ∃ k, ((c.run (List.replicate k (.applyAt p cb))).servers p).store.db.supplements.map
        AppBatch.sub = subEntriesOf (log.take ((c.servers p).commitIdx + 1).toNat) := by
  have hri : ∀ {c : Cluster n}, Cluster.Reach (AppliesLog log p) opts c →
      Resumable False log (c.servers p) :=
    fun hreach => hreach.resumable happ (fun _ _ => id) fun hs => hs.elim
  refine ⟨fun d hd => ((hri hreach).kept.all d hd).subs, fun cb hserves hlog hbelow => ?_⟩
  obtain ⟨k, hreach', h', hdone⟩ := AppliesOn.finish cb happ _ hreach ⟨hserves, hlog, rfl, hbelow⟩
    (Int.self_le_toNat _)
  refine ⟨k, ?_⟩
  have hmem := (hri hreach').mem
  generalize (c.run (List.replicate k (.applyAt p cb))).servers p = ri at h' hdone hmem ⊢
  -- nothing is left, so the record is that of the last committed entry
  have hsub : ri.lastApplied.subIdx = ri.lastApplied.subIdxMax ∧
      ri.lastApplied.idx = ri.commitIdx := by
    have h1 := hmem.sub_le
    have h2 := h'.below
    unfold RaftInstance.Unapplied at hdone
    omega
  rw [hmem.subs, RaftServer.nextApplyIdx, if_pos hsub.1]
  simp only [hsub.2, h'.commit, subEntriesBefore, List.take_zero, List.append_nil]

/-- Server 0 leads and writes an entry of two requests, which server 1 stores and learns to be
committed. -/
def coalescedServed : List (Event 3) :=
  [.expire 0, .deliver 1 0, .deliver 0 2, .deliver 1 3, .deliver 0 5,
    ⟨0, .write [[7], [8]], none, 0⟩, .send 0, .deliver 1 6, .deliver 0 8, .send 0, .deliver 1 9,
    .sync 0, .sync 1, .deliver 0 11, .send 1, .deliver 0 12, .heartbeat 0, .deliver 1 13]

/-- Server 1 applies the marker, crashes between the two requests and learns of the commit index
again. -/
def crashedBetween : List (Event 3) :=
  coalescedServed ++ [.apply 1, ⟨1, .smApply Event.storeBytes, some 1, 9⟩, .deliver 1 13]

/-- The log that server 1 has committed. -/
def coalescedLog : List Entry := ((afterAppRun coalescedServed).servers 1).store.db.entries

omit [Externals] in
theorem applied_exactly_once_crashedBetween :
    ((afterAppRun crashedBetween).servers 1).store.db.supplements.map AppBatch.sub =
        [⟨1, 0, [7]⟩] ∧
      ∃ k, ((@Cluster.run 3 sampleExternals (afterAppRun crashedBetween)
        (List.replicate k (.applyAt 1 Event.storeBytes))).servers 1).store.db.supplements.map
          AppBatch.sub = subEntriesOf (coalescedLog.take
            (((afterAppRun crashedBetween).servers 1).commitIdx + 1).toNat) := by
  have happ : (appServers 1).storeType = .rocksdbPersistentApp := rfl
  have hreach : @Cluster.Reach 3 sampleExternals (AppliesLog coalescedLog 1) appServers
      (afterAppRun crashedBetween) := reach_afterAppRun_of (by decide +kernel)
  have hserves : Cluster.serves ((afterAppRun crashedBetween).servers 1) = true := by
    decide +kernel
  have hlog : FollowsLog coalescedLog ((afterAppRun crashedBetween).servers 1) := by
    decide +kernel
  have hbelow : ((afterAppRun crashedBetween).servers 1).lastApplied.idx ≤
      ((afterAppRun crashedBetween).servers 1).commitIdx := by decide +kernel
  exact ⟨by decide +kernel, (@applied_exactly_once 3 sampleExternals _ _ _ _ happ hreach).2
    Event.storeBytes hserves hlog hbelow⟩

end NiovaRaft
