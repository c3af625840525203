import NiovaRaft.Refinement.Cluster
import NiovaRaft.Spec.Startup
import NiovaRaft.Spec.Writes

/-!
# How far a log is compacted

The lowest index of a server is where its backend was reaped to, and a backend is never reaped past
what was applied and synced.  So the entries that a persistent application has yet to apply are
there, also after a restart.
-/

namespace NiovaRaft

open Refinement

variable {n : Nat} [Externals]

/-- The lowest index is one that the backend was reaped to. -/
def ReapedToLowest (ri : RaftInstance n) : Prop := ri.lowestIdx ≤ ri.store.db.reaped

/-- One write. -/
theorem ReapedToLowest.update {cause : Option (Packet n)} {ri ri' : RaftInstance n}
    (h : ReapedToLowest ri) (hup : Update cause ri ri') : ReapedToLowest ri' := by
  unfold ReapedToLowest at *
  cases hup with
  | role | lead | slot | recovery | synced | appliedSynced | newest | commit => exact h
  | header | flush | entry | truncate => exact h

omit [Externals] in
/-- A start. -/
theorem ReapedToLowest.instanceRun (p : Fin n) (o : Options) (d : Db n) :
    ReapedToLowest (RaftServer.instanceRun p o d) := by
  have h := RaftServer.instanceRun_loaded p o d
  unfold ReapedToLowest
  rw [h.lowest, h.db]
  simp only [RaftServer.instanceInit]
  split <;> omega

theorem reapedToLowest_keeps {c : Cluster n} {e : Event n} :
    Cluster.Keeps c e ReapedToLowest where
  write := fun _ _ hri hup => hri.update hup
  refresh := fun _ _ _ _ hri _ _ => hri
  apply := Cluster.keeps_apply fun ri la batch hri _ _ _ _ => by
    unfold ReapedToLowest RaftInstance.recordApplied at *
    split <;> exact hri
  compact := Cluster.keeps_compact (fun _ hri _ _ => hri) fun ri keep hri _ _ => by
    unfold ReapedToLowest RaftInstance.reapTo at *
    simp only [Store.put, Db.reap]
    omega

theorem Cluster.Reach.reapedToLowest {ok : Cluster n → Event n → Prop} {opts : Fin n → Options}
    {c : Cluster n} (h : Cluster.Reach ok opts c) (p : Fin n) : ReapedToLowest (c.servers p) := by
  induction h with
  | init => exact .instanceRun _ _ _
  | step e _ _ ih => exact reapedToLowest_keeps.step ih fun _ _ _ _ _ _ _ => .instanceRun _ _ _

omit [Externals] in
/-- A persistent application holds everything that it has not applied. -/
theorem ReapedToLowest.le_applied {R : Base.Replication.Rules} {w : ClusterWorld n} {p : Fin n}
    {ri : RaftInstance n} (h : ReapedToLowest ri) (hok : Refinement.Ok R w p ri)
    (happ : ri.opts.storeType = .rocksdbPersistentApp) :
    ri.lowestIdx ≤ max 0 ri.lastApplied.idx := by
  have hst := hok.stored
  have hreaped := (hst.store.kept _ hst.store.mem).reapedApplied
  rw [(hst.persisted happ).1] at hreaped
  exact le_trans h hreaped

end NiovaRaft
