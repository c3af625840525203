import NiovaRaft.Spec.Writes
import NiovaRaft.Spec.Startup

/-!
# Checkpoints and reaps

The checkpoint thread compares three indexes that reach the disk on different ways.  The synced
index is part of the last-applied record, which is only written with the next entry that is
applied.  The checkpoint's index is in the name of its directory, and the lowest index is that of
the lowest key.  A process that dies between a checkpoint and the next apply restarts with a synced
index below that of its checkpoint.
-/

namespace NiovaRaft

open Base Base.Handler

variable {n : Nat}

/-- What the checkpoint thread relies on once something applied is synced. -/
def CompactionBounded (ri : RaftInstance n) : Prop :=
  0 ≤ ri.lastApplied.syncedIdx → ri.checkpointLastIdx ≤ ri.lastApplied.syncedIdx ∧
    ri.lowestIdx ≤ ri.lastApplied.syncedIdx

/-- The synced index of the last-applied record is not below the newest checkpoint and the lowest
key, unless it says that nothing is synced. -/
def Db.RecordCovers (d : Db n) : Prop :=
  0 ≤ d.applied.syncedIdx → d.chkptIdx ≤ d.applied.syncedIdx ∧
    (d.reaped : Int) ≤ d.applied.syncedIdx

/-- The database that the process of an event leaves behind if the event kills it. -/
def Cluster.leftBehind [Externals] (c : Cluster n) (e : Event n) : Option (Db n) :=
  match c.handler e (c.proc e) with
  | .ok _ _ => none
  | .abort s => some (s.ri.store.recoverable.getD e.keep s.ri.store.db)

/-- Where server `p` is killed, its last-applied record covers what was compacted. -/
def CrashCovered [Externals] (p : Fin n) (c : Cluster n) (e : Event n) : Prop :=
  e.server = p → ∀ d ∈ c.leftBehind e, d.RecordCovers

instance (d : Db n) : Decidable d.RecordCovers :=
  inferInstanceAs (Decidable (0 ≤ d.applied.syncedIdx → _ ∧ _))

instance [Externals] (p : Fin n) (c : Cluster n) (e : Event n) : Decidable (CrashCovered p c e) :=
  inferInstanceAs (Decidable (e.server = p → ∀ d ∈ c.leftBehind e, _))

/-! ## The invariant -/

/-- What a database that a crash may leave behind says about compaction, with `chkptIdx` the newest
checkpoint and `syncedIdx` the newest index known to be applied and synced. -/
structure CompactionKept (chkptIdx syncedIdx : Int) (d : Db n) : Prop where
  checkpoint : d.chkptIdx = chkptIdx
  checkpointApplied : chkptIdx ≤ d.applied.idx
  reapedApplied : (d.reaped : Int) ≤ max 0 d.applied.idx
  synced : syncedIdx ≤ d.applied.idx
  recordSynced : d.applied.syncedIdx ≤ d.applied.idx

theorem CompactionKept.congr {chkptIdx syncedIdx : Int} {d d' : Db n}
    (h : CompactionKept chkptIdx syncedIdx d) (hchkpt : d'.chkptIdx = d.chkptIdx)
    (hreaped : d'.reaped = d.reaped) (happlied : d'.lastApplied = d.lastApplied) :
    CompactionKept chkptIdx syncedIdx d' := by
  have hrec : d'.applied = d.applied := by rw [Db.applied, happlied, Db.applied]
  obtain ⟨h1, h2, h3, h4, h5⟩ := h
  exact ⟨hchkpt.trans h1, hrec ▸ h2, hreaped ▸ hrec ▸ h3, hrec ▸ h4, hrec ▸ h5⟩

/-- The indexes of a persistent application's server, in memory and on disk. -/
structure Compaction (ri : RaftInstance n) : Prop where
  app : ri.opts.storeType = .rocksdbPersistentApp
  applied : ri.store.db.applied.idx = ri.lastApplied.idx
  lowest : ri.lowestIdx ≤ max 0 ri.lastApplied.idx
  kept : ri.store.Keeps (CompactionKept ri.checkpointLastIdx ri.lastApplied.syncedIdx)
  bounded : CompactionBounded ri

namespace Compaction

variable [Externals] {ri ri' : RaftInstance n} {cause : Option (Packet n)}

theorem update (h : Compaction ri) (hup : Update cause ri ri') : Compaction ri' := by
  have hdb := h.kept.db
  have happ := h.applied
  have hlow := h.lowest
  have hsynced : ri.lastApplied.syncedIdx ≤ ri.lastApplied.idx := by
    rw [← happ]
    exact hdb.synced
  cases hup with
  | role | lead | slot | recovery | synced | newest | commit => exact { h with }
  | header =>
    refine { h with kept := h.kept.put ?_ true }
    exact hdb.congr rfl rfl rfl
  | flush => exact { h with kept := h.kept.put hdb true }
  | entry =>
    refine { h with kept := h.kept.put ?_ _ }
    exact hdb.congr rfl rfl rfl
  | truncate =>
    refine { h with kept := h.kept.put ?_ true }
    exact hdb.congr rfl rfl rfl
  | appliedSynced hrec =>
    refine { h with kept := .of_flushed hrec { hdb with synced := ?_ }, bounded := fun h0 => ?_ }
    · rw [happ]
      exact max_le hsynced (le_refl _)
    · have hck := hdb.checkpointApplied
      have hb := h.bounded
      unfold CompactionBounded at hb
      simp only at h0 ⊢
      omega

omit [Externals] in
theorem withCheckpoint (h : Compaction ri) (h0 : 0 ≤ ri.lastApplied.syncedIdx) :
    Compaction (ri.withCheckpoint ri.lastApplied.syncedIdx) := by
  have hdb := h.kept.db
  have hnew : CompactionKept ri.lastApplied.syncedIdx ri.lastApplied.syncedIdx
      { ri.store.db with chkptIdx := ri.lastApplied.syncedIdx } :=
    ⟨rfl, hdb.synced, hdb.reapedApplied, hdb.synced, hdb.recordSynced⟩
  exact ⟨h.app, h.applied, h.lowest, .of_flushed rfl hnew,
    fun _ => ⟨le_refl _, (h.bounded h0).2⟩⟩

omit [Externals] in
theorem reapTo (h : Compaction ri) {keep : Int} (hkeep : 500 ≤ keep) :
    Compaction (ri.reapTo (ri.lastApplied.syncedIdx - keep)) := by
  have hdb := h.kept.db
  have happ := h.applied
  have hsynced : ri.lastApplied.syncedIdx ≤ ri.lastApplied.idx := by
    rw [← happ]
    exact hdb.synced
  have hnew : CompactionKept ri.checkpointLastIdx ri.lastApplied.syncedIdx
      (ri.store.db.reap (ri.lastApplied.syncedIdx - keep).toNat) := by
    refine ⟨hdb.checkpoint, hdb.checkpointApplied, ?_, hdb.synced, hdb.recordSynced⟩
    have h1 := hdb.reapedApplied
    have h2 := hdb.synced
    change ((max ri.store.db.reaped (ri.lastApplied.syncedIdx - keep).toNat : Nat) : Int) ≤
      max 0 ri.store.db.applied.idx
    omega
  refine ⟨h.app, happ, ?_, .of_flushed rfl hnew, fun h0 => ⟨(h.bounded h0).1, ?_⟩⟩
  all_goals simp only [RaftInstance.reapTo] at *
  all_goals omega

omit [Externals] in
/-- A sub-entry is applied. -/
theorem recordApplied (h : Compaction ri) (la : LastApplied) (batch : Option AppBatch)
    (hidx : ri.lastApplied.idx ≤ la.idx) (hsy : la.syncedIdx = ri.lastApplied.syncedIdx) :
    Compaction (ri.recordApplied la batch) := by
  have hdb := h.kept.db
  have happ := h.applied
  have hlow := h.lowest
  have hsynced : ri.lastApplied.syncedIdx ≤ ri.lastApplied.idx := by
    rw [← happ]
    exact hdb.synced
  have hrocks : ri.opts.storeType ≠ .posixFlatFile := by rw [h.app]; simp
  -- the new record, which is not flushed
  have hnew : CompactionKept ri.checkpointLastIdx la.syncedIdx (ri.store.db.apply la batch) := by
    obtain ⟨h1, h2, h3, h4, h5⟩ := hdb
    refine ⟨h1, ?_, ?_, ?_, ?_⟩
    all_goals simp only [Db.applied, Db.apply, Option.getD_some]
    all_goals omega
  have hkept : ri.store.Keeps (CompactionKept ri.checkpointLastIdx la.syncedIdx) := by
    rw [hsy]
    exact h.kept
  have hbounded := h.bounded
  unfold CompactionBounded at hbounded
  rw [← hsy] at hbounded
  rw [RaftInstance.recordApplied, if_pos hrocks]
  refine ⟨h.app, rfl, ?_, hkept.put hnew false, hbounded⟩
  simp only
  omega

omit [Externals] in
/-- A process starts on a database whose record covers what was compacted. -/
theorem loaded {p : Fin n} {o : Options} {d : Db n} {chkptIdx syncedIdx : Int}
    (h : LoadedFrom p o d ri) (happ : o.storeType = .rocksdbPersistentApp)
    (hd : CompactionKept chkptIdx syncedIdx d) (hcovers : d.RecordCovers) : Compaction ri := by
  have hla : ri.lastApplied = d.applied := by
    rw [h.applied]
    simp [RaftServer.instanceInit, happ, Db.applied]
  have hck : ri.checkpointLastIdx = d.chkptIdx := by
    rw [h.checkpoint]
    simp [RaftServer.instanceInit, happ]
  have hlow : ri.lowestIdx ≤ d.reaped := by
    rw [h.lowest]
    simp only [RaftServer.instanceInit]
    split <;> omega
  have hdb : ri.store.db.applied = d.applied := by
    rw [h.db]
    rfl
  obtain ⟨h1, h2, h3, h4, h5⟩ := hd
  have hnew : CompactionKept ri.checkpointLastIdx ri.lastApplied.syncedIdx ri.store.db := by
    rw [hck, hla]
    refine CompactionKept.congr (d := d) ⟨rfl, h1 ▸ h2, h3, h5, h5⟩ ?_ ?_ ?_
    all_goals rw [h.db]
  refine ⟨by rw [h.opts]; exact happ, by rw [hdb, hla], ?_, .of_flushed h.flushed hnew, ?_⟩
  · rw [hla]
    omega
  · intro h0
    rw [hla] at h0 ⊢
    have hc := hcovers h0
    rw [hck]
    omega

omit [Externals] in
/-- The checkpoint thread does not fail. -/
theorem wp_chkptThread (h : Compaction ri) (takesChkpt reaps : Bool) (keep : Int)
    (out : List (Fin n × RpcMsg n)) (trace : List (Obs n)) :
    (RaftServer.chkptThread takesChkpt reaps keep).wp (fun _ _ => True) (fun _ => False)
      ⟨ri, out, trace, none⟩ := by
  have hreap : ∀ s : Proc n, s.fuse = none → s.ri.lastApplied = ri.lastApplied →
      s.ri.lowestIdx = ri.lowestIdx → 0 ≤ ri.lastApplied.syncedIdx →
      (RaftServer.reapLog keep).wp (fun _ _ => True) (fun _ => False) s := by
    intro s hfuse hla hlow h0
    have hb := (h.bounded h0).2
    refine RaftServer.wp_reapLog (fun _ hlt => ?_) (fun hf => hf hfuse) (fun _ => trivial)
      fun _ _ _ _ _ => trivial
    rw [hla, hlow] at hlt
    omega
  simp only [RaftServer.chkptThread, wp_bind, RaftServer.wp_getRi, wp_whenever, wp_fatalIf]
  refine ⟨fun h0 => ⟨fun hneg => ?_, fun hge => ⟨fun _ => ?_, fun _ => ⟨fun _ => ?_,
    fun _ => trivial⟩⟩⟩, fun _ => trivial⟩
  · have := (h.bounded h0).1
    omega
  · refine RaftServer.wp_takeChkpt (by simp only; omega) (fun hf => hf rfl)
      (fun _ => ⟨fun _ => ?_, fun _ => trivial⟩) fun fuse hfuse _ => ⟨fun _ => ?_, fun _ => trivial⟩
    · exact hreap _ rfl rfl rfl h0
    · exact hreap _ (hfuse rfl) rfl rfl h0
  · exact hreap _ rfl rfl rfl h0

/-- One event. -/
theorem step {c : Cluster n} {e : Event n} {p : Fin n} (h : Compaction (c.servers p))
    (hcovered : CrashCovered p c e) : Compaction ((c.step e).servers p) := by
  have hkeeps : Cluster.Keeps c e Compaction :=
    { write := fun _ _ hri hup => hri.update hup
      refresh := fun _ _ _ _ hri _ _ => { hri with }
      apply := Cluster.keeps_apply
        fun _ la batch hri hidx _ _ hsynced => hri.recordApplied la batch hidx hsynced
      compact := Cluster.keeps_compact (fun _ hri h0 _ => hri.withCheckpoint h0)
        fun _ _ hri hkeep _ => hri.reapTo hkeep }
  refine hkeeps.step h ?_
  intro ri d hp hres hsurv hcomp _
  have hcovers := hcovered hp
  rw [Cluster.leftBehind, hres] at hcovers
  have hkept := hcomp.kept.getD e.keep
  have happ := hcomp.app
  rw [← hsurv.store] at hkept
  rw [← hsurv.opts] at happ
  exact loaded (RaftServer.instanceRun_loaded _ _ _) happ hkept (hcovers _ rfl)

omit [Externals] in
/-- The server before its first start. -/
theorem fresh {opts : Fin n → Options} {p : Fin n}
    (hopts : (opts p).storeType = .rocksdbPersistentApp) :
    Compaction ((Cluster.initial opts).servers p) := by
  have hd : CompactionKept (-1) (-1) (RaftServer.freshDb : Db n) :=
    ⟨rfl, le_refl _, by simp [RaftServer.freshDb], le_refl _, le_refl _⟩
  refine loaded (RaftServer.instanceRun_loaded _ _ _) hopts hd fun h0 => ?_
  simp [RaftServer.freshDb, Db.applied, LastApplied.initial] at h0

end Compaction

/-- In every run in which a killed process leaves a record behind that covers what was compacted,
the checkpoint thread finds its bounds respected and does not fail. -/
theorem checkpoint_bounds [Externals] {opts : Fin n → Options} {p : Fin n}
    (hopts : (opts p).storeType = .rocksdbPersistentApp) {c : Cluster n}
    (h : Cluster.Reach (CrashCovered p) opts c) :
    CompactionBounded (c.servers p) ∧
      ∀ takesChkpt reaps keep out trace,
        (RaftServer.chkptThread takesChkpt reaps keep).wp (fun _ _ => True) (fun _ => False)
          ⟨c.servers p, out, trace, none⟩ := by
  have hcomp : Compaction (c.servers p) := by
    induction h with
    | init => exact .fresh hopts
    | step e _ he ih => exact ih.step he
  exact ⟨hcomp.bounded, fun takesChkpt reaps keep out trace =>
    hcomp.wp_chkptThread takesChkpt reaps keep out trace⟩

/-- Server 0 leads and has applied one entry of two.  Its next write has made that known to be
synced. -/
def syncedFirst : List (Event 3) :=
  [.expire 0, .deliver 1 0, .deliver 0 2, .deliver 1 3, .deliver 0 5, .write 0 [7, 8], .send 0,
    .deliver 1 6, .deliver 0 8, .send 0, .deliver 1 9, .sync 0, .sync 1, .deliver 0 11, .send 1,
    .deliver 0 12, .apply 0, .write 0 [9], .sync 0, .apply 0]

/-- The record of the second entry covers a checkpoint of the first. -/
def coveredCheckpoint : List (Event 3) := syncedFirst ++ [.checkpoint 0, .crash 0]

/-- The second entry is synced and a checkpoint of it taken before the record of a third one. -/
def uncoveredCheckpoint : List (Event 3) :=
  syncedFirst ++ [.write 0 [9], .sync 0, .checkpoint 0, .crash 0]

theorem checkpoint_bounds_coveredCheckpoint :
    (appServers 0).storeType = .rocksdbPersistentApp ∧
      ((afterAppRun coveredCheckpoint).servers 0).checkpointLastIdx = 0 ∧
      CompactionBounded ((afterAppRun coveredCheckpoint).servers 0) :=
  ⟨rfl, by decide +kernel, (@checkpoint_bounds 3 sampleExternals appServers 0 rfl _
    (reach_afterAppRun_of (by decide +kernel))).1⟩

/-- A checkpoint past the synced index kills the checkpoint thread. -/
theorem chkptThread_dies {ri : RaftInstance n} (h0 : 0 ≤ ri.lastApplied.syncedIdx)
    (hlt : ri.lastApplied.syncedIdx < ri.checkpointLastIdx) (takesChkpt reaps : Bool) (keep : Int) :
    ¬ (RaftServer.chkptThread takesChkpt reaps keep).wp (fun _ _ => True) (fun _ => False)
      ⟨ri, [], [], none⟩ := by
  intro h
  simp only [RaftServer.chkptThread, wp_bind, RaftServer.wp_getRi, wp_whenever, wp_fatalIf] at h
  exact (h.1 h0).1 (by omega)

/-- After the crash the checkpoint is past the synced index, and the checkpoint thread dies. -/
theorem uncoveredCheckpoint_dies :
    (appServers 0).storeType = .rocksdbPersistentApp ∧
      @Cluster.Reach 3 sampleExternals Cluster.anyEvent appServers
        (afterAppRun uncoveredCheckpoint) ∧
      ¬ CompactionBounded ((afterAppRun uncoveredCheckpoint).servers 0) ∧
      ¬ (RaftServer.chkptThread false false 0).wp (fun _ _ => True) (fun _ => False)
        ⟨(afterAppRun uncoveredCheckpoint).servers 0, [], [], none⟩ := by
  have hsynced : ((afterAppRun uncoveredCheckpoint).servers 0).lastApplied.syncedIdx = 0 := by
    decide +kernel
  have hchkpt : ((afterAppRun uncoveredCheckpoint).servers 0).checkpointLastIdx = 1 := by
    decide +kernel
  have hlt := hsynced.trans_lt (by decide : (0 : Int) < 1)
  rw [← hchkpt] at hlt
  refine ⟨rfl, reach_afterAppRun _, fun h => ?_, chkptThread_dies hsynced.ge hlt _ _ _⟩
  exact absurd (h hsynced.ge).1 (not_le.mpr hlt)

end NiovaRaft
