import NiovaRaft.Spec.Startup
import NiovaRaft.Spec.Writes

/-!
# The checksums of stored entries

Every entry of a backend was built by `raft_server_entry_init`, which ends with the checksum.  No
other write touches an entry, so that the checksum of a stored entry is that of its contents.
-/

namespace NiovaRaft

open RaftServer

variable {n : Nat} [Externals]

/-- The checksums of the entries are those of their contents. -/
def ChecksumsHold (d : Db n) : Prop := ∀ re ∈ d.entries, entryCalcCrc re = re.header.crc

theorem entryCalcCrc_entryOf {ri : RaftInstance n} {idx term : Int} {data : List UInt8}
    {sizes : List Nat} {marker : Bool} :
    entryCalcCrc (entryOf ri idx term data sizes marker) =
      (entryOf ri idx term data sizes marker).header.crc := rfl

namespace ChecksumsHold

variable {d d' : Db n}

/-- Entries that were there. -/
theorem mono (h : ChecksumsHold d) (hsub : d'.entries ⊆ d.entries) : ChecksumsHold d' :=
  fun re hre => h re (hsub hre)

theorem write (h : ChecksumsHold d) {re : Entry} (hre : entryCalcCrc re = re.header.crc) :
    ChecksumsHold (d.write re) := by
  intro re' hmem
  unfold Db.write at hmem
  dsimp only at hmem
  split at hmem
  · rcases List.mem_or_eq_of_mem_set hmem with hold | rfl
    · exact h re' hold
    · exact hre
  · rcases List.mem_append.mp hmem with hold | hnew
    · exact h re' hold
    · obtain rfl := List.mem_singleton.mp hnew
      exact hre

end ChecksumsHold

/-- One write. -/
theorem Update.checksumsHold {cause : Option (Packet n)} {ri ri' : RaftInstance n}
    (h : ri.store.Keeps ChecksumsHold) (hup : Update cause ri ri') :
    ri'.store.Keeps ChecksumsHold := by
  have hdb := h.db
  cases hup with
  | role | lead | slot | recovery | synced | appliedSynced | newest | commit => exact h
  | header => exact h.put (by exact hdb) true
  | flush => exact h.put hdb true
  | entry => exact h.put (hdb.write entryCalcCrc_entryOf) _
  | truncate => exact h.put (hdb.mono fun _ => List.mem_of_mem_take) true

/-- A sub-entry is applied. -/
theorem checksumsHold_recordApplied {ri : RaftInstance n} (h : ri.store.Keeps ChecksumsHold)
    (la : LastApplied) (batch : Option AppBatch) :
    (ri.recordApplied la batch).store.Keeps ChecksumsHold := by
  have hdb := h.db
  unfold RaftInstance.recordApplied
  split
  · exact h.put (by exact hdb) false
  · exact h

/-- A start. -/
theorem checksumsHold_instanceRun {p : Fin n} {o : Options} {d : Db n} (h : ChecksumsHold d) :
    (instanceRun p o d).store.Keeps ChecksumsHold :=
  .of_flushed (instanceRun_loaded p o d).flushed
    (h.mono (instanceRun_entries p o d).subset)

theorem checksumsHold_keeps {c : Cluster n} {e : Event n} :
    Cluster.Keeps c e fun ri => ri.store.Keeps ChecksumsHold where
  write := fun _ _ hri hup => hup.checksumsHold hri
  refresh := fun _ _ _ _ hri _ _ => hri
  apply := Cluster.keeps_apply (P := fun ri => ri.store.Keeps ChecksumsHold)
    fun _ la batch hri _ _ _ _ => checksumsHold_recordApplied hri la batch
  compact := Cluster.keeps_compact (P := fun ri => ri.store.Keeps ChecksumsHold)
    (fun _ hri _ _ => hri.put (by exact hri.db) true) fun _ _ hri _ _ => hri.put (by exact hri.db) true

/-- In every run the checksums of the entries a server holds, or may find after a crash, are those
of their contents. -/
theorem Cluster.Reach.checksumsHold {ok : Cluster n → Event n → Prop} {opts : Fin n → Options}
    {c : Cluster n} (h : Cluster.Reach ok opts c) (p : Fin n) :
    (c.servers p).store.Keeps ChecksumsHold := by
  induction h with
  | init => exact checksumsHold_instanceRun fun re hre => by cases hre
  | step e _ _ ih =>
    refine checksumsHold_keeps.step ih ?_
    intro ri d _ _ hsurv hri _
    have hkept := hri.getD e.keep
    rw [← hsurv.store] at hkept
    exact checksumsHold_instanceRun hkept

end NiovaRaft
