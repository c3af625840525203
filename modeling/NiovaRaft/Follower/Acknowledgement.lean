import NiovaRaft.Follower.CommitBound

/-!
# What a reply without a mark says

The leader moves on to the next entry after a reply that is not marked as stale, as not matching
or as an update of the synced index.  So such a reply must mean that the follower holds the
carried entry.  A request that the bounds check turns down with `-EBADR` is answered without a
mark, whatever the follower holds.
-/

namespace NiovaRaft

open Base Base.Handler RaftServer

variable {n : Nat}

/-- The log holds an entry of term `t` at index `i`. -/
def HoldsAt (ri : RaftInstance n) (i t : Int) : Prop :=
  0 ≤ i ∧ (ri.store.db.read i.toNat).map Entry.term = some t

instance (ri : RaftInstance n) (i t : Int) : Decidable (HoldsAt ri i t) :=
  inferInstanceAs (Decidable (_ ∧ _))

/-- The follower holds what the request is about: the carried entry, or for a heartbeat the entry
before the next one.  What was applied counts as held. -/
def HoldsNamed (ri : RaftInstance n) (m : AppendEntriesRequestMsg) : Prop :=
  (m.heartbeatMsg = false →
    HoldsAt ri (m.prevLogIndex + 1) m.logTerm ∨ m.prevLogIndex + 1 ≤ ri.lastApplied.idx) ∧
  (m.heartbeatMsg = true → m.prevLogIndex = -1 ∨ HoldsAt ri m.prevLogIndex m.prevLogTerm ∨
    m.prevLogIndex ≤ ri.lastApplied.idx)

instance (ri : RaftInstance n) (m : AppendEntriesRequestMsg) : Decidable (HoldsNamed ri m) :=
  inferInstanceAs (Decidable ((_ → _ ∨ _) ∧ (_ → _ ∨ _ ∨ _)))

/-- A reply without a mark is sent only by a follower that holds what the request is about. -/
def HonestReply [Externals] (ri : RaftInstance n) (sender : Fin n)
    (m : AppendEntriesRequestMsg) : Prop :=
  ∀ trace fuse s' r, processAppendEntriesRequest sender m ⟨ri, [], trace, fuse⟩ = .ok () s' →
    (sender, .appendEntriesReply r) ∈ s'.out → Clean r → HoldsNamed s'.ri m

/-- The follower answers, and turns the request down for its bounds. -/
structure TurnedDown (ri : RaftInstance n) (m : AppendEntriesRequestMsg) : Prop where
  prev : -1 ≤ m.prevLogIndex
  fits : m.entriesSz ≤ ri.entryMaxDataSize
  range : m.entryOutOfRange = false
  stale : ri.logHdr.term ≤ m.leaderTerm
  bounds : appendEntryRequestBoundsCheck ri m ≠ .ok ()

instance (ri : RaftInstance n) (m : AppendEntriesRequestMsg) : Decidable (TurnedDown ri m) :=
  decidable_of_iff
    (-1 ≤ m.prevLogIndex ∧ m.entriesSz ≤ ri.entryMaxDataSize ∧ m.entryOutOfRange = false ∧
      ri.logHdr.term ≤ m.leaderTerm ∧ appendEntryRequestBoundsCheck ri m ≠ .ok ())
    ⟨fun ⟨h1, h2, h3, h4, h5⟩ => ⟨h1, h2, h3, h4, h5⟩,
      fun ⟨h1, h2, h3, h4, h5⟩ => ⟨h1, h2, h3, h4, h5⟩⟩

section

variable {ri ri' : RaftInstance n} {m : AppendEntriesRequestMsg}

/-- A newer term changes nothing about what is held. -/
theorem SameLog.holdsNamed {t : Int} (h : SameLog ri ri' t) :
    HoldsNamed ri' m ↔ HoldsNamed ri m := by
  unfold HoldsNamed HoldsAt Db.read
  rw [h.entries, h.reaped, h.applied]

/-- A request that is found stored is about entries that are held. -/
theorem TakesShortcut.holdsNamed (h : TakesShortcut ri m) (hc : Consistent ri)
    (hterm : m.heartbeatMsg = false → 0 < m.logTerm)
    (hentries : ri'.store.db.entries = ri.store.db.entries)
    (hreaped : ri'.store.db.reaped = ri.store.db.reaped) : HoldsNamed ri' m := by
  obtain ⟨-, hlow, -⟩ := bounds_ok_iff.mp h.bounds
  have hprev := h.stored.prev
  have hr := hc.reaped
  unfold HoldsNamed HoldsAt Db.read
  rw [hentries, hreaped]
  refine ⟨fun hheart => ?_, fun hheart => ?_⟩
  · obtain ⟨re, hre, ht, -⟩ := h.stored.next (hterm hheart)
    refine .inl ⟨by omega, ?_⟩
    rw [if_pos (by omega), hre, Option.map_some, ht]
  · rcases (by omega : m.prevLogIndex = -1 ∨ 0 ≤ m.prevLogIndex) with hneg | h0
    · exact .inl hneg
    · obtain ⟨re, hre, ht, -⟩ := h.stored.last h0
      refine .inr (.inl ⟨h0, ?_⟩)
      rw [if_pos (by omega), hre, Option.map_some, ht]

/-- A request that is turned down is answered without a mark. -/
theorem HonestReply.holdsNamed [Externals] {sender : Fin n} (h : HonestReply ri sender m)
    (hc : Consistent ri) (hf : ri.state = .follower) (hdown : TurnedDown ri m) :
    HoldsNamed ri m := by
  have hwp : (processAppendEntriesRequest sender m).wp _ _ ⟨ri, [], [], none⟩ :=
    wp_processAppendEntriesRequest_of_bounds hc hf rfl hdown.prev hdown.fits hdown.range hdown.stale hdown.bounds
  cases hres : processAppendEntriesRequest sender m ⟨ri, [], [], none⟩ with
  | ok u s' =>
    obtain ⟨⟨r, hr, hmem⟩, hsame⟩ := wp_of_ok hres hwp
    exact hsame.holdsNamed.mp (h [] none s' r hres hmem hr)
  | abort s' => exact (wp_of_abort hres hwp).elim

end

/-- Acknowledgements are honest exactly when no request is turned down whose entry the follower
lacks. -/
theorem acknowledgement_honest [Externals] {ri : RaftInstance n} (hc : Consistent ri)
    (hf : ri.state = .follower) (sender : Fin n) {m : AppendEntriesRequestMsg}
    (hterm : m.heartbeatMsg = false → 0 < m.logTerm) :
    HonestReply ri sender m ↔ (TurnedDown ri m → HoldsNamed ri m) := by
  constructor
  · exact fun h hdown => h.holdsNamed hc hf hdown
  · intro h trace fuse s' r hres hmem hclean
    obtain ⟨r', hout, hh⟩ := wp_of_ok hres
      (wp_processAppendEntriesRequest (s := ⟨ri, [], trace, fuse⟩) hc hf)
    rw [hout] at hmem
    cases hh with
    | ignored => simp at hmem
    | marked _ hmark =>
      simp only [Option.map_some, Option.toList_some, List.nil_append, List.mem_singleton,
        Prod.mk.injEq, RpcMsg.appendEntriesReply.injEq, true_and] at hmem
      subst hmem
      exact absurd hclean hmark
    | refused hprev hfits hrange hstale hb hsame =>
      exact hsame.holdsNamed.mpr (h ⟨hprev, hfits, hrange, hstale, by rw [hb]; simp⟩)
    | stored _ hst hentries hreaped => exact hst.holdsNamed hc hterm hentries hreaped
    | kept hheart hlast hprev =>
      refine ⟨fun h => absurd h (by simp [hheart]), fun _ => ?_⟩
      rcases (by omega : m.prevLogIndex = -1 ∨ 0 ≤ m.prevLogIndex) with hneg | h0
      · exact .inl hneg
      · exact .inr (.inl ⟨h0, hlast h0⟩)
    | appended hheart _ hnext hprev =>
      exact ⟨fun _ => .inl ⟨by omega, hnext⟩, fun h => absurd h (by simp [hheart])⟩

/-- Server 0 leads term 1, syncs its marker and starts again.  Server 1 is elected in term 2 and
sends its marker. -/
def restartedBehind : List (Event 3) :=
  [.expire 0, .deliver 1 0, .deliver 0 2, .deliver 1 3, .deliver 0 5, .sync 0, .crash 0,
    .expire 1, .deliver 2 7, .deliver 1 8, .deliver 2 10, .deliver 1 11, .send 1]

/-- The marker of term 2, for the first index. -/
def secondMarker : AppendEntriesRequestMsg :=
  { leaderTerm := 2, logTerm := 2, commitIndex := -1, lowestIndex := -1, chkptIndex := -1,
    prevLogTerm := 0, prevLogIndex := -1, prevIdxCrc := 0, thisIdxCrc := 14, sizeArr := [0],
    entriesSz := 0, numEntries := 1, heartbeatMsg := false, leaderChangeMarker := true,
    entryOutOfRange := false, entries := [] }

/-- Server 2, whose log is empty, stores the marker of term 2. -/
theorem acknowledgement_honest_restartedBehind :
    ¬ TurnedDown ((afterRun restartedBehind).servers 2) secondMarker ∧
      @HonestReply 3 sampleExternals ((afterRun restartedBehind).servers 2) 1 secondMarker := by
  have hc := @Cluster.Reach.consistent 3 sampleExternals _ _ _ (reach_afterRun restartedBehind) 2
    (by decide +kernel)
  have hdown : ¬ TurnedDown ((afterRun restartedBehind).servers 2) secondMarker := by
    decide +kernel
  exact ⟨hdown, (@acknowledgement_honest 3 sampleExternals _ hc (by decide +kernel) 1 _
    (by decide)).mpr fun h => absurd h hdown⟩

/-- The marker is on its way to server 0, a follower that holds the marker of term 1 in its place,
and replies without a mark. -/
theorem restartedBehind_dishonest :
    @Cluster.Reach 3 sampleExternals Cluster.anyEvent threeServers (afterRun restartedBehind) ∧
      (⟨1, 0, .appendEntriesRequest secondMarker, none⟩ : Packet 3) ∈
        (afterRun restartedBehind).net ∧
      ((afterRun restartedBehind).servers 0).state = .follower ∧
      ¬ @HonestReply 3 sampleExternals ((afterRun restartedBehind).servers 0) 1 secondMarker := by
  have hf : ((afterRun restartedBehind).servers 0).state = .follower := by decide +kernel
  have hc := @Cluster.Reach.consistent 3 sampleExternals _ _ _ (reach_afterRun restartedBehind) 0
    (by decide +kernel)
  refine ⟨reach_afterRun _, by decide +kernel, hf, fun h => ?_⟩
  exact absurd (@HonestReply.holdsNamed 3 _ _ sampleExternals _ h hc hf (by decide +kernel))
    (by decide +kernel)

end NiovaRaft
