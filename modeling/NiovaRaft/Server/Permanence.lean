import NiovaRaft.Server.IndexOrder

/-!
# What a running server never takes back

The log of a server is pruned and compacted, and its peers may send it anything.  As long as the
process is not restarted, none of its indexes but those of the newest entries goes back, and neither
does its term.  An entry that was committed is not replaced, and goes only where it is compacted.
-/

namespace NiovaRaft

open Base Base.Handler

variable {n : Nat}

/-- The indexes are in order, and the entries are there which they speak about. -/
structure Tracked (ri : RaftInstance n) : Prop extends IndexOrder ri where
  reaped : (ri.store.db.reaped : Int) ≤ max 0 ri.lowestIdx
  held : ri.newestUnsync.index < ri.store.db.entries.length

/-- A committed entry is there. -/
theorem Tracked.committed_lt {ri : RaftInstance n} (h : Tracked ri) {i : Nat}
    (hi : i ≤ ri.commitIdx) : i < ri.store.db.entries.length := by
  have hcommit := h.commit
  have hsync := h.sync
  have hheld := h.held
  omega

/-- What is not compacted can be read. -/
theorem Tracked.read_eq {ri : RaftInstance n} (h : Tracked ri) {i : Nat} (hi : ri.lowestIdx ≤ i) :
    ri.store.db.read i = ri.store.db.entries[i]? := by
  have hreaped := h.reaped
  rw [Db.read, if_pos (by omega)]

/-- From `ri` to `ri'` no index goes back, and no committed entry changes. -/
structure Progress (ri ri' : RaftInstance n) : Prop where
  lowest : ri.lowestIdx ≤ ri'.lowestIdx
  synced : ri.lastApplied.syncedIdx ≤ ri'.lastApplied.syncedIdx
  applied : ri.lastApplied.idx ≤ ri'.lastApplied.idx
  commit : ri.commitIdx ≤ ri'.commitIdx
  term : ri.logHdr.term ≤ ri'.logHdr.term
  entries : ∀ i : Nat, i ≤ ri.commitIdx → ri'.store.db.entries[i]? = ri.store.db.entries[i]?

namespace Progress

variable {ri ri' ri'' : RaftInstance n}

theorem refl (ri : RaftInstance n) : Progress ri ri :=
  ⟨le_refl _, le_refl _, le_refl _, le_refl _, le_refl _, fun _ _ => rfl⟩

theorem trans (h : Progress ri ri') (h' : Progress ri' ri'') : Progress ri ri'' where
  lowest := h.lowest.trans h'.lowest
  synced := h.synced.trans h'.synced
  applied := h.applied.trans h'.applied
  commit := h.commit.trans h'.commit
  term := h.term.trans h'.term
  entries := fun i hi => (h'.entries i (hi.trans h.commit)).trans (h.entries i hi)

/-- Entries past the committed ones do not matter. -/
theorem of_entries (h : Tracked ri) (hlow : ri.lowestIdx = ri'.lowestIdx)
    (hla : ri.lastApplied = ri'.lastApplied) (hcommit : ri.commitIdx = ri'.commitIdx)
    (hhdr : ri.logHdr = ri'.logHdr)
    (hentries : ∀ i : Nat, i ≤ ri.newestSync.index → i < ri.store.db.entries.length →
      ri'.store.db.entries[i]? = ri.store.db.entries[i]?) : Progress ri ri' where
  lowest := hlow.le
  synced := by rw [hla]
  applied := by rw [hla]
  commit := hcommit.le
  term := by rw [hhdr]
  entries := fun i hi => hentries i (hi.trans h.commit) (h.committed_lt hi)

end Progress

namespace Tracked

variable [Externals] {ri ri' : RaftInstance n} {cause : Option (Packet n)}

/-- One write. -/
theorem update (h : Tracked ri) (hup : Update cause ri ri') : Tracked ri' ∧ Progress ri ri' := by
  have horder := h.toIndexOrder.update hup
  have hcommit := h.commit
  have hsync := h.sync
  have hheld := h.held
  cases hup with
  | role | lead | slot | recovery | flush | synced =>
    exact ⟨⟨horder, h.reaped, h.held⟩, { Progress.refl ri with }⟩
  | header cand term hlt =>
    exact ⟨⟨horder, h.reaped, h.held⟩, { Progress.refl ri with term := hlt.le }⟩
  | appliedSynced =>
    exact ⟨⟨horder, h.reaped, h.held⟩, { Progress.refl ri with synced := le_max_left _ _ }⟩
  | entry term data sizes marker =>
    have hre : (ri.nextEntry term data sizes marker).header.index = ri.newestUnsync.index + 1 := rfl
    generalize ri.nextEntry term data sizes marker = re at hre horder ⊢
    refine ⟨⟨horder, h.reaped, ?_⟩, .of_entries h rfl rfl rfl rfl fun i hi hlt => ?_⟩
    · show re.header.index < (ri.store.db.write re).entries.length
      rw [Db.length_write]
      split <;> omega
    · show (ri.store.db.write re).entries[i]? = _
      rw [Db.getElem?_write (by omega), if_neg (by omega)]
  | newest re _ _ hread =>
    obtain ⟨hlt, -⟩ := List.getElem?_eq_some_iff.mp hread
    refine ⟨⟨horder, h.reaped, ?_⟩, { Progress.refl ri with }⟩
    show re.header.index < ri.store.db.entries.length
    omega
  | truncate hidx =>
    refine ⟨⟨horder, h.reaped, ?_⟩, .of_entries h rfl rfl rfl rfl fun i hi _ => ?_⟩
    · show ri.newestUnsync.index < (ri.store.db.entries.take (ri.newestSync.index + 1).toNat).length
      rw [List.length_take]
      omega
    · exact List.getElem?_take_of_lt (by omega)
  | commit idx hlt =>
    exact ⟨⟨horder, h.reaped, h.held⟩, { Progress.refl ri with commit := hlt.le }⟩

omit [Externals] in
/-- An apply does not touch the log. -/
theorem recordApplied_log (ri : RaftInstance n) (la : LastApplied) (batch : Option AppBatch) :
    (ri.recordApplied la batch).store.db.entries = ri.store.db.entries ∧
      (ri.recordApplied la batch).store.db.reaped = ri.store.db.reaped := by
  simp only [RaftInstance.recordApplied]
  split
  · exact ⟨rfl, rfl⟩
  · exact ⟨rfl, rfl⟩

omit [Externals] in
theorem recordApplied (h : Tracked ri) {la : LastApplied} (batch : Option AppBatch)
    (hidx : ri.lastApplied.idx ≤ la.idx) (hcommit : la.idx ≤ ri.commitIdx)
    (hsynced : la.syncedIdx = ri.lastApplied.syncedIdx) : Tracked (ri.recordApplied la batch) := by
  have hlow := h.lowest
  have hle := h.synced
  obtain ⟨hentries, hreaped⟩ := recordApplied_log ri la batch
  refine ⟨⟨?_, ?_, hcommit, h.commit, h.sync⟩, by rw [hreaped]; exact h.reaped,
    by rw [hentries]; exact h.held⟩
  · show ri.lowestIdx ≤ max 0 la.syncedIdx
    rw [hsynced]
    exact hlow
  · show la.syncedIdx ≤ la.idx
    omega

omit [Externals] in
theorem reapTo (h : Tracked ri) {keep : Int} (hkeep : 500 ≤ keep)
    (hlow : ri.lowestIdx < ri.lastApplied.syncedIdx - keep) :
    Tracked (ri.reapTo (ri.lastApplied.syncedIdx - keep)) := by
  have hreaped := h.reaped
  refine ⟨⟨?_, h.synced, h.applied, h.commit, h.sync⟩, ?_, h.held⟩
  · show ri.lastApplied.syncedIdx - keep ≤ max 0 ri.lastApplied.syncedIdx
    omega
  · show ((max ri.store.db.reaped (ri.lastApplied.syncedIdx - keep).toNat : Nat) : Int) ≤
      max 0 (ri.lastApplied.syncedIdx - keep)
    omega

end Tracked

/-- The server has made progress since it was `ri`. -/
structure TrackedSince (ri ri' : RaftInstance n) : Prop extends Tracked ri' where
  progress : Progress ri ri'

theorem TrackedSince.keeps [Externals] (ri : RaftInstance n) {c : Cluster n} {e : Event n} :
    Cluster.Keeps c e (TrackedSince ri) where
  write := by
    intro ri₁ ri₂ h hup
    obtain ⟨htracked, hprogress⟩ := h.toTracked.update hup
    exact ⟨htracked, h.progress.trans hprogress⟩
  refresh := fun _ _ _ _ h _ _ => ⟨{ h.toTracked with }, { h.progress with }⟩
  apply := Cluster.keeps_apply fun ri₁ la batch h hidx hcommit _ hsynced => by
    refine ⟨h.toTracked.recordApplied batch hidx hcommit hsynced, h.progress.trans ?_⟩
    have hentries := (Tracked.recordApplied_log ri₁ la batch).1
    exact ⟨le_refl _, ge_of_eq hsynced, hidx, le_refl _, le_refl _, fun i _ => by rw [hentries]⟩
  compact := by
    refine Cluster.keeps_compact (fun _ h _ _ => ⟨{ h.toTracked with }, { h.progress with }⟩)
      fun ri₁ keep h hkeep hlow => ⟨h.toTracked.reapTo hkeep hlow, h.progress.trans ?_⟩
    exact { Progress.refl ri₁ with lowest := hlow.le }

/-- An event that the process survives. -/
theorem TrackedSince.step [Externals] {ri : RaftInstance n} {x : Node n} {e : NodeEvent n}
    (h : TrackedSince ri x.ri) (he : RunsOn x e) : TrackedSince ri (x.step e).ri := by
  cases e with
  | stage db => exact absurd he (by simp [RunsOn, Node.survives])
  | finish => exact absurd he (by simp [RunsOn, Node.survives])
  | handle mail e =>
    unfold Node.step
    dsimp only
    split
    · refine (TrackedSince.keeps ri).step (p := e.server) h fun ri d _ habort _ _ _ => ?_
      simp only [RunsOn, Node.survives, habort] at he
      exact absurd he (by simp)
    · exact h

theorem TrackedSince.run [Externals] {ri : RaftInstance n} {x : Node n} {es : List (NodeEvent n)}
    (h : TrackedSince ri x.ri) (hes : Node.AllEvents RunsOn x es) :
    TrackedSince ri (x.run es).ri := by
  induction es generalizing x with
  | nil => exact h
  | cons e es ih => exact ih (h.step hes.1) hes.2

/-- A server that was started on an empty backend. -/
theorem Tracked.initial (p : Fin n) (o : Options) :
    Tracked (RaftServer.instanceRun p o (RaftServer.freshDb : Db n)) := by
  have hstart : RaftServer.instanceRun p o (RaftServer.freshDb : Db n) =
      Refinement.startedOn p o RaftServer.freshDb := rfl
  refine ⟨.initial p o, ?_, ?_⟩
  all_goals rw [hstart]
  all_goals simp [Refinement.startedOn, RaftServer.instanceInit, RaftServer.freshDb]

theorem Tracked.of_reach [Externals] {p : Fin n} {opts : Options} {x : Node n}
    (h : Node.Reach RunsOn p opts x) : Tracked x.ri := by
  induction h with
  | init => exact .initial p opts
  | @step x e _ he ih =>
    have hsince : TrackedSince x.ri x.ri := ⟨ih, .refl _⟩
    exact (hsince.step he).toTracked

/-- In every run of a server that is not restarted, whatever its peers send, the indexes and the
term only go up, and an entry that was committed and is not compacted reads as it did. -/
theorem committed_permanent [Externals] {p : Fin n} {opts : Options} {x : Node n}
    (h : Node.Reach RunsOn p opts x) {es : List (NodeEvent n)} (hes : Node.AllEvents RunsOn x es) :
    Progress x.ri (x.run es).ri ∧
      ∀ i : Nat, (x.run es).ri.lowestIdx ≤ i → i ≤ x.ri.commitIdx →
        ∃ re, x.ri.store.db.read i = some re ∧ (x.run es).ri.store.db.read i = some re := by
  have hx := Tracked.of_reach h
  have hstart : TrackedSince x.ri x.ri := ⟨hx, .refl _⟩
  have hsince := hstart.run hes
  refine ⟨hsince.progress, fun i hlow hcommit => ?_⟩
  have hlt := hx.committed_lt hcommit
  refine ⟨x.ri.store.db.entries[i], ?_, ?_⟩
  · rw [hx.read_eq (hsince.progress.lowest.trans hlow), List.getElem?_eq_getElem hlt]
  · rw [hsince.read_eq hlow, hsince.progress.entries i hcommit, List.getElem?_eq_getElem hlt]

/-- An entry of term 1 after the marker. -/
def secondOfTermOne : AppendEntriesRequestMsg :=
  { markerCommitted with
    logTerm := 1, sizeArr := [1], entriesSz := 1, numEntries := 1, heartbeatMsg := false
    entries := [7] }

/-- Another entry there, of term 2. -/
def secondOfTermTwo : AppendEntriesRequestMsg :=
  { secondOfTermOne with leaderTerm := 2, logTerm := 2, entries := [8] }

/-- Server 2 stores an entry after the marker and prunes it for another one. -/
def replacesSecond : List (NodeEvent 3) :=
  [.handle [⟨0, 2, .appendEntriesRequest secondOfTermOne, none⟩] (.deliver 2 0),
    .handle [⟨1, 2, .appendEntriesRequest secondOfTermTwo, none⟩] (.deliver 2 0)]

/-- Server 2 with the marker applied. -/
def markerApplied : Node 3 :=
  @Node.run 3 sampleExternals (.initial 2 (threeServers 2)) appliesMarker

theorem committed_permanent_replacesSecond :
    ((@Node.run 3 sampleExternals markerApplied replacesSecond).ri.store.db.entries.map
      fun re => (re.header.term, re.data)) = [(1, []), (2, [8])] ∧
    Progress markerApplied.ri (@Node.run 3 sampleExternals markerApplied replacesSecond).ri := by
  have hmarker : @Node.AllEvents 3 sampleExternals (@RunsOn 3 sampleExternals)
      (.initial 2 (threeServers 2)) appliesMarker := by decide +kernel
  have hsecond : @Node.AllEvents 3 sampleExternals (@RunsOn 3 sampleExternals) markerApplied
      replacesSecond := by decide +kernel
  have hreach := @Node.Reach.of_allEvents 3 sampleExternals _ _ _ _
    (@Node.Reach.init 3 sampleExternals _ 2 (threeServers 2)) _ hmarker
  exact ⟨by decide +kernel, (@committed_permanent 3 sampleExternals _ _ _ hreach _ hsecond).1⟩

end NiovaRaft
