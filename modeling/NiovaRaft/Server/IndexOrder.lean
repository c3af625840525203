import NiovaRaft.Model.Node
import NiovaRaft.Refinement.Startup
import NiovaRaft.Spec.Startup
import NiovaRaft.Spec.Writes

/-!
# The order of the indexes

A server counts how far its log is compacted, applied and synced, applied, committed, synced and
stored.  Each index is raised by another handler, and the end of the log also moves back when the
log is pruned.  As long as the process is not restarted they stay in order, whatever commit indexes
its leaders send.  A restart sets the commit index back, but not what a persistent application has
applied.
-/

namespace NiovaRaft

open Base Base.Handler

variable {n : Nat}

/-- The indexes of a server are in order. -/
structure IndexOrder (ri : RaftInstance n) : Prop where
  lowest : ri.lowestIdx ≤ max 0 ri.lastApplied.syncedIdx
  synced : ri.lastApplied.syncedIdx ≤ ri.lastApplied.idx
  applied : ri.lastApplied.idx ≤ ri.commitIdx
  commit : ri.commitIdx ≤ ri.newestSync.index
  sync : ri.newestSync.index ≤ ri.newestUnsync.index

namespace IndexOrder

variable [Externals] {ri ri' : RaftInstance n} {cause : Option (Packet n)}

/-- One write. -/
theorem update (h : IndexOrder ri) (hup : Update cause ri ri') : IndexOrder ri' := by
  obtain ⟨h1, h2, h3, h4, h5⟩ := h
  cases hup with
  | role | lead | slot | recovery | header | flush | truncate =>
    exact ⟨h1, h2, h3, h4, h5⟩
  | synced =>
    refine ⟨h1, h2, h3, ?_, ?_⟩
    all_goals simp only [RaftServer.updateHdr]
    all_goals split <;> omega
  | appliedSynced =>
    refine ⟨?_, ?_, h3, h4, h5⟩
    all_goals simp only
    all_goals omega
  | entry term data sizes marker =>
    have hre : (ri.nextEntry term data sizes marker).header.index = ri.newestUnsync.index + 1 := rfl
    generalize ri.nextEntry term data sizes marker = re at hre ⊢
    refine ⟨h1, h2, h3, ?_, ?_⟩
    all_goals simp only [RaftInstance.storeEntry]
    all_goals split <;> omega
  | newest re hcommit => exact ⟨h1, h2, h3, hcommit, le_refl _⟩
  | commit idx hlt hsync => exact ⟨h1, h2, le_trans h3 hlt.le, hsync, h5⟩

theorem keeps {c : Cluster n} {e : Event n} : Cluster.Keeps c e IndexOrder where
  write := fun _ _ hri hup => hri.update hup
  refresh := fun _ _ _ _ hri _ _ => { hri with }
  apply := Cluster.keeps_apply fun ri la batch hri hidx hcommit _ hsynced => by
    have h1 := hri.lowest
    have h2 := hri.synced
    refine ⟨?_, ?_, hcommit, hri.commit, hri.sync⟩
    · change ri.lowestIdx ≤ max 0 la.syncedIdx
      rw [hsynced]
      exact h1
    · change la.syncedIdx ≤ la.idx
      omega
  compact := Cluster.keeps_compact (fun _ hri _ _ => { hri with }) fun ri keep hri hkeep _ => by
    refine { hri with lowest := ?_ }
    simp only [RaftInstance.reapTo]
    omega

end IndexOrder

/-- The event runs a handler of the server, and the process survives it. -/
def Node.survives [Externals] (x : Node n) : NodeEvent n → Bool
  | .handle mail e =>
      match (x.cluster mail).handler e ((x.cluster mail).proc e) with
      | .ok _ _ => true
      | .abort _ => false
  | .stage _ | .finish => false

/-- The process goes on. -/
def RunsOn [Externals] (x : Node n) (e : NodeEvent n) : Prop := x.survives e = true

instance [Externals] (x : Node n) (e : NodeEvent n) : Decidable (RunsOn x e) :=
  inferInstanceAs (Decidable (_ = true))

/-- A server that was started on an empty backend. -/
theorem IndexOrder.initial (p : Fin n) (o : Options) :
    IndexOrder (RaftServer.instanceRun p o (RaftServer.freshDb : Db n)) := by
  have hstart : RaftServer.instanceRun p o (RaftServer.freshDb : Db n) =
      Refinement.startedOn p o RaftServer.freshDb := rfl
  have happ : (RaftServer.instanceInit p o (RaftServer.freshDb : Db n)).lastApplied =
      LastApplied.initial := by
    simp [RaftServer.instanceInit, RaftServer.freshDb]
  rw [hstart]
  refine ⟨?_, ?_, ?_, ?_, ?_⟩
  all_goals simp only [Refinement.startedOn, happ]
  all_goals simp [RaftServer.instanceInit, RaftServer.freshDb, LastApplied.initial]

/-- In every run of a server that was started on an empty backend and is not restarted, whatever its
peers send, the indexes are in order. -/
theorem index_order [Externals] {p : Fin n} {opts : Options} {x : Node n}
    (h : Node.Reach RunsOn p opts x) : IndexOrder x.ri := by
  induction h with
  | init => exact .initial p opts
  | @step x e _ he ih =>
    cases e with
    | stage db => exact absurd he (by simp [RunsOn, Node.survives])
    | finish => exact absurd he (by simp [RunsOn, Node.survives])
    | handle mail e =>
      unfold Node.step
      dsimp only
      split
      · -- the handler does not die, so no restart takes place
        refine IndexOrder.keeps.step (p := e.server) ih fun ri d _ habort _ _ _ => ?_
        simp only [RunsOn, Node.survives, habort] at he
        exact absurd he (by simp)
      · exact ih

/-- A request that carries the marker of term 1, from a leader that claims to have committed
everything. -/
def boundlessCommit : AppendEntriesRequestMsg :=
  { leaderTerm := 1, logTerm := 1, commitIndex := 9223372036854775807, lowestIndex := -1,
    chkptIndex := -1, prevLogTerm := 0, prevLogIndex := -1, prevIdxCrc := 0, thisIdxCrc := 0,
    sizeArr := [0], entriesSz := 0, numEntries := 1, heartbeatMsg := false,
    leaderChangeMarker := true, entryOutOfRange := false, entries := [] }

/-- A heartbeat that names the marker as committed. -/
def markerCommitted : AppendEntriesRequestMsg :=
  { boundlessCommit with
    commitIndex := 0, prevLogTerm := 1, prevLogIndex := 0, sizeArr := [], numEntries := 0,
    heartbeatMsg := true, leaderChangeMarker := false }

/-- Server 2 stores, syncs, commits and applies the marker. -/
def appliesMarker : List (NodeEvent 3) :=
  [.handle [⟨0, 2, .appendEntriesRequest boundlessCommit, none⟩] (.deliver 2 0),
    .handle [] (.sync 2),
    .handle [⟨0, 2, .appendEntriesRequest markerCommitted, none⟩] (.deliver 2 0),
    .handle [] (.apply 2)]

theorem index_order_appliesMarker :
    (@Node.run 3 sampleExternals (.initial 2 (threeServers 2)) appliesMarker).ri.lastApplied.idx = 0 ∧
      IndexOrder (@Node.run 3 sampleExternals (.initial 2 (threeServers 2)) appliesMarker).ri := by
  have hall : @Node.AllEvents 3 sampleExternals (@RunsOn 3 sampleExternals)
      (.initial 2 (threeServers 2)) appliesMarker := by decide +kernel
  exact ⟨by decide +kernel, @index_order 3 sampleExternals 2 (threeServers 2) _
    (@Node.Reach.of_allEvents 3 sampleExternals _ _ _ _ (@Node.Reach.init 3 sampleExternals _ _ _)
      _ hall)⟩

end NiovaRaft
