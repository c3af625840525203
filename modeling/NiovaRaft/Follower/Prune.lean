import NiovaRaft.Follower.Acknowledgement

/-!
# Pruning

A follower whose log is longer than a request says, and holds another entry where the carried one
belongs, cuts its log down to the entry before it.  The cut is at the newest synced header, which
is first moved back to the entry before the carried one.  When there is no entry before it, the
header is not moved, and nothing is cut.
-/

namespace NiovaRaft

open Base Base.Handler RaftServer

variable {n : Nat}

/-- `raft_server_append_entry_check_already_stored` returns false. -/
def findsConflict (ri : RaftInstance n) (m : AppendEntriesRequestMsg) : Bool :=
  match appendEntryCheckAlreadyStored m ⟨ri, [], [], none⟩ with
  | .ok stored _ => !stored
  | .abort _ => false

/-- The request makes a follower prune, and nothing above the index it names is committed or
applied. -/
structure Prunes (ri : RaftInstance n) (m : AppendEntriesRequestMsg) : Prop where
  prev : -1 ≤ m.prevLogIndex
  bounds : appendEntryRequestBoundsCheck ri m = .ok ()
  ahead : m.prevLogIndex < ri.newestUnsync.index
  conflict : findsConflict ri m = true
  commit : ri.commitIdx ≤ m.prevLogIndex
  applied : ri.lastApplied.idx ≤ m.prevLogIndex

instance (ri : RaftInstance n) (m : AppendEntriesRequestMsg) : Decidable (Prunes ri m) :=
  decidable_of_iff
    (-1 ≤ m.prevLogIndex ∧ appendEntryRequestBoundsCheck ri m = .ok () ∧
      m.prevLogIndex < ri.newestUnsync.index ∧ findsConflict ri m = true ∧
      ri.commitIdx ≤ m.prevLogIndex ∧ ri.lastApplied.idx ≤ m.prevLogIndex)
    ⟨fun ⟨h1, h2, h3, h4, h5, h6⟩ => ⟨h1, h2, h3, h4, h5, h6⟩,
      fun ⟨h1, h2, h3, h4, h5, h6⟩ => ⟨h1, h2, h3, h4, h5, h6⟩⟩

/-- What is left of `ri` are its entries up to index `p`, and both newest headers are that of
entry `p`. -/
structure PrunedTo (ri ri' : RaftInstance n) (p : Int) : Prop where
  entries : ri'.store.db.entries = ri.store.db.entries.take (p + 1).toNat
  sync : ri'.newestSync = lastHeader (ri.store.db.entries.take (p + 1).toNat)
  unsync : ri'.newestUnsync = lastHeader (ri.store.db.entries.take (p + 1).toNat)

/-- Pruning returns unless the process is killed, it leaves the entries up to the index that the
request names, and the comparison after it is reached. -/
structure PruneLaw (ri : RaftInstance n) (m : AppendEntriesRequestMsg) : Prop where
  returns : ∃ s', appendEntryLogPruneIfNeeded m ⟨ri, [], [], none⟩ = .ok () s'
  pruned : ∀ out trace fuse s', appendEntryLogPruneIfNeeded m ⟨ri, out, trace, fuse⟩ = .ok () s' →
    PrunedTo ri s'.ri m.prevLogIndex
  compares : ∃ rc s', appendEntryLogPrepareAndCheck m ⟨ri, [], [], none⟩ = .ok rc s'

section

variable {ri : RaftInstance n} {m : AppendEntriesRequestMsg}

theorem Prunes.prunable (h : Prunes ri m) (hf : ri.state = .follower) : Prunable ri m := by
  obtain ⟨-, hlow, -⟩ := bounds_ok_iff.mp h.bounds
  exact ⟨hf, h.prev, h.commit, h.applied, fun _ => ⟨hlow, le_of_lt h.ahead⟩⟩

/-- The check that finds the conflict leaves the process as it was. -/
theorem Prunes.check_eq (h : Prunes ri m) :
    appendEntryCheckAlreadyStored m ⟨ri, [], [], none⟩ = .ok false ⟨ri, [], [], none⟩ := by
  have hsame : (appendEntryCheckAlreadyStored m).wp (fun _ s' => s' = ⟨ri, [], [], none⟩)
      (fun _ => True) ⟨ri, [], [], none⟩ :=
    wp_appendEntryCheckAlreadyStored trivial (fun _ => rfl) (fun _ _ => rfl) (fun _ _ => rfl)
  have hconf := h.conflict
  unfold findsConflict at hconf
  cases hres : appendEntryCheckAlreadyStored m ⟨ri, [], [], none⟩ with
  | ok stored s' =>
    have hs := wp_of_ok hres hsame
    rw [hres] at hconf
    have hstored : stored = false := by simpa using hconf
    rw [hs, hstored]
  | abort s' =>
    rw [hres] at hconf
    exact absurd hconf (by simp)

theorem cutDown_prunedTo (p : Int) : PrunedTo ri (ri.flushed.cutDown (p + 1).toNat) p := by
  refine ⟨?_, ?_, ?_⟩
  · change (ri.flushed.store.db.entries.take _) = _
    rw [flushed_entries]
  · change lastHeader (ri.flushed.store.db.entries.take _) = _
    rw [flushed_entries]
  · change lastHeader (ri.flushed.store.db.entries.take _) = _
    rw [flushed_entries]

/-- With an entry before the carried one, a process that is not killed cuts its log. -/
theorem Prunes.wp_prune (h : Prunes ri m) (hc : Consistent ri) (hf : ri.state = .follower)
    (h0 : 0 ≤ m.prevLogIndex) :
    (appendEntryLogPruneIfNeeded m).wp (fun _ s' => PrunedTo ri s'.ri m.prevLogIndex)
      (fun _ => False) ⟨ri, [], [], none⟩ :=
  wp_appendEntryLogPruneIfNeeded hc (fun hn => absurd ⟨h.prunable hf, rfl⟩ hn)
    (fun _ _ _ => cutDown_prunedTo _) (fun _ hneg _ => by omega)

/-- A log that was cut down is compared with the request. -/
theorem Prunes.wp_prepareAndCheck (h : Prunes ri m) (hc : Consistent ri)
    (hf : ri.state = .follower) (h0 : 0 ≤ m.prevLogIndex) :
    (appendEntryLogPrepareAndCheck m).wp (fun _ _ => True) (fun _ => False)
      ⟨ri, [], [], none⟩ := by
  rw [appendEntryLogPrepareAndCheck, wp_bind, wp_getRi]
  simp only [h.bounds]
  rw [if_pos h.ahead]
  simp only [followerIndexAheadOfLeader, wp_bind]
  refine wp_intro (fun stored s' hres => ?_) (fun s' hres => ?_)
  · rw [h.check_eq] at hres
    cases hres
    simp only [wp_ite, wp_bind]
    refine ⟨fun hb => absurd hb (by simp), fun _ => ?_⟩
    refine wp_mono (h.wp_prune hc hf h0) (fun _ s' hpr => ?_) (fun _ h => h)
    have hlen : (m.prevLogIndex + 1).toNat ≤ ri.store.db.entries.length := by
      have := hc.unsync_index
      have := h.ahead
      omega
    have hidx : s'.ri.newestSync.index ≤ m.prevLogIndex := by
      rw [hpr.sync, hc.entries.lastHeader_take_index hlen]
      omega
    have hsame : s'.ri.newestSync = s'.ri.newestUnsync := by rw [hpr.sync, hpr.unsync]
    simp only [hasUnsyncedEntries, wp_bind, wp_getRi, wp_fatalIf, wp_pure, wp_assert,
      compareWithLeader]
    refine ⟨fun hd => hd.1 hsame, fun _ =>
      ⟨fun _ => ⟨fun _ => trivial, fun hle => hle hidx⟩, fun hd => hd (by simp [hsame])⟩⟩
  · rw [h.check_eq] at hres
    cases hres

/-- With an entry before the carried one, the law holds. -/
theorem Prunes.law (h : Prunes ri m) (hc : Consistent ri) (hf : ri.state = .follower)
    (h0 : 0 ≤ m.prevLogIndex) : PruneLaw ri m := by
  refine ⟨?_, fun out trace fuse s' hres => ?_, ?_⟩
  · obtain ⟨_, s', hres, -⟩ := exists_ok_of_wp (h.wp_prune hc hf h0)
    exact ⟨s', hres⟩
  · have hwp : (appendEntryLogPruneIfNeeded m).wp
        (fun _ s' => PrunedTo ri s'.ri m.prevLogIndex) (fun _ => True) ⟨ri, out, trace, fuse⟩ :=
      wp_appendEntryLogPruneIfNeeded hc (fun _ => ⟨trivial, fun _ _ _ => trivial⟩)
        (fun _ _ _ => cutDown_prunedTo _) (fun _ hneg _ => by omega)
    have hpr := wp_of_ok hres hwp
    exact hpr
  · obtain ⟨rc, s', hres, -⟩ := exists_ok_of_wp (h.wp_prepareAndCheck hc hf h0)
    exact ⟨rc, s', hres⟩

/-- A conflict at the first index leaves the log as long as it was. -/
theorem Prunes.not_law (h : Prunes ri m) (hc : Consistent ri)
    (hneg : m.prevLogIndex = -1) : ¬ PruneLaw ri m := by
  intro hlaw
  obtain ⟨s', hres⟩ := hlaw.returns
  have hkept : (appendEntryLogPruneIfNeeded m).wp
      (fun _ s' => s'.ri.store.db.entries = ri.store.db.entries) (fun _ => True)
      ⟨ri, [], [], none⟩ :=
    wp_appendEntryLogPruneIfNeeded hc (fun _ => ⟨trivial, fun _ _ _ => trivial⟩)
      (fun _ h0 _ => by omega) (fun _ _ _ => flushed_entries ri)
  have hnil : ri.store.db.entries = [] := by
    have := (hlaw.pruned _ _ _ _ hres).entries
    rw [wp_of_ok hres hkept, hneg] at this
    simpa using this
  have hahead := h.ahead
  rw [hc.unsync_index, hnil, hneg] at hahead
  simp at hahead

end

/-- Pruning cuts the log down to the named index exactly when there is an entry at that index. -/
theorem prune_law {ri : RaftInstance n} (hc : Consistent ri) (hf : ri.state = .follower)
    {m : AppendEntriesRequestMsg} (h : Prunes ri m) : PruneLaw ri m ↔ 0 ≤ m.prevLogIndex := by
  constructor
  · intro hlaw
    by_contra hneg
    have := h.prev
    exact h.not_law hc (by omega) hlaw
  · exact h.law hc hf

/-- Server 0 writes a request and replicates it to server 2 only.  Server 1 is elected in term 2
and sends its marker for the same index. -/
def conflictAtSecond : List (Event 3) :=
  [.expire 0, .deliver 1 0, .deliver 0 2, .deliver 1 3, .deliver 0 5, .send 0, .deliver 1 6,
    .deliver 2 7, .deliver 0 8, .deliver 0 9, .write 0 [7], .send 0, .deliver 2 11, .crash 0,
    .sync 1, .expire 1, .deliver 0 13, .deliver 1 15, .deliver 0 16, .deliver 1 18, .send 1]

/-- The marker of term 2, for the second index. -/
def markerForSecond : AppendEntriesRequestMsg :=
  { secondMarker with prevLogIndex := 0, prevLogTerm := 1, prevIdxCrc := 7, thisIdxCrc := 45 }

/-- Server 2 cuts its log of two entries, none of them synced, down to the first. -/
theorem prune_law_conflictAtSecond :
    (⟨1, 2, .appendEntriesRequest markerForSecond, none⟩ : Packet 3) ∈
        (afterRun conflictAtSecond).net ∧
      Prunes ((afterRun conflictAtSecond).servers 2) markerForSecond ∧
      PruneLaw ((afterRun conflictAtSecond).servers 2) markerForSecond := by
  have hc := @Cluster.Reach.consistent 3 sampleExternals _ _ _ (reach_afterRun conflictAtSecond) 2
    (by decide +kernel)
  have hp : Prunes ((afterRun conflictAtSecond).servers 2) markerForSecond := by decide +kernel
  exact ⟨by decide +kernel, hp, (prune_law hc (by decide +kernel) hp).mpr (by decide)⟩

/-- Server 0 replicates its marker to server 2 only.  Server 1, whose log is empty, is elected in
term 2 and sends its marker for the first index. -/
def conflictAtFirst : List (Event 3) :=
  [.expire 0, .deliver 1 0, .deliver 0 2, .deliver 1 3, .deliver 0 5, .send 0, .deliver 2 7,
    .crash 0, .expire 1, .deliver 0 9, .deliver 1 11, .deliver 0 12, .deliver 1 14, .send 1]

/-- Server 2 prunes for the marker of term 2, which leaves its log as it was.  The assertion after
it kills the process. -/
theorem conflictAtFirst_not_pruned :
    @Cluster.Reach 3 sampleExternals Cluster.anyEvent threeServers (afterRun conflictAtFirst) ∧
      (⟨1, 2, .appendEntriesRequest secondMarker, none⟩ : Packet 3) ∈
        (afterRun conflictAtFirst).net ∧
      ((afterRun conflictAtFirst).servers 2).state = .follower ∧
      Prunes ((afterRun conflictAtFirst).servers 2) secondMarker ∧
      ¬ PruneLaw ((afterRun conflictAtFirst).servers 2) secondMarker := by
  have hc := @Cluster.Reach.consistent 3 sampleExternals _ _ _ (reach_afterRun conflictAtFirst) 2
    (by decide +kernel)
  have hp : Prunes ((afterRun conflictAtFirst).servers 2) secondMarker := by decide +kernel
  exact ⟨reach_afterRun _, by decide +kernel, by decide +kernel, hp, hp.not_law hc rfl⟩

end NiovaRaft
