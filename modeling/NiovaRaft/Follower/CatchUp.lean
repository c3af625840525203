import NiovaRaft.Base.LogRepair
import NiovaRaft.Follower.Replica

/-!
# A follower that catches up

A request for entry `k` of a leader's log `L`, at a follower that holds a log of its own.  The two
logs agree up to some length `a`, and nothing that the follower has committed, applied or compacted
lies behind it.  Such a follower never dies of the request.  It turns the entry down where the logs
differ before `k`, and it holds the entry afterwards where they do not.
-/

namespace NiovaRaft

open Base Base.Handler Base.LogRepair RaftServer

variable {n : Nat} {L F : List Entry} {k a : Nat}

/-! ## Two logs -/

/-- Entries of one term at one index agree up to there. -/
def TermsMatch (L F : List Entry) : Prop :=
  ∀ i < L.length, L[i]?.map Entry.term = F[i]?.map Entry.term → L.take (i + 1) = F.take (i + 1)

instance (L F : List Entry) : Decidable (TermsMatch L F) :=
  inferInstanceAs (Decidable (∀ i < L.length, _ → _))

namespace TermsMatch

theorem take_eq (h : TermsMatch L F) {i : Nat} {re re' : Entry} (hL : L[i]? = some re)
    (hF : F[i]? = some re') (hterm : re.term = re'.term) : L.take (i + 1) = F.take (i + 1) := by
  refine h i (List.getElem?_eq_some_iff.mp hL).1 ?_
  rw [hL, hF, Option.map_some, Option.map_some, hterm]

theorem take (h : TermsMatch L F) (k : Nat) : TermsMatch L (F.take k) := by
  intro i hi hterm
  rcases Nat.lt_or_ge i k with hlt | hge
  · rw [List.getElem?_take_of_lt hlt] at hterm
    rw [h i hi hterm, List.take_take, Nat.min_eq_left hlt]
  · rw [List.getElem?_take_eq_none hge, List.getElem?_eq_getElem hi] at hterm
    cases hterm

theorem of_initial (h : F <+: L) : TermsMatch L F := by
  intro i hi hterm
  rw [List.getElem?_eq_getElem hi, Option.map_some] at hterm
  have hlt : i < F.length := by
    by_contra hge
    rw [List.getElem?_eq_none (not_lt.mp hge)] at hterm
    cases hterm
  have htake : F.take (i + 1) <+: L := (List.take_prefix _ _).trans h
  have hlen : (F.take (i + 1)).length = i + 1 := by
    rw [List.length_take]
    omega
  rw [List.prefix_iff_eq_take, hlen] at htake
  exact htake.symm

/-- The logs agree past an index exactly when the entries there are of one term. -/
theorem agreeTo_succ_iff (h : TermsMatch L F) {re re' : Entry} (hL : L[k]? = some re)
    (hF : F[k]? = some re') : AgreeTo L F (k + 1) ↔ re'.term = re.term := by
  constructor
  · intro hagree
    have heq : F[k]? = some re := agreeTo_iff.mp hagree k (Nat.lt_succ_self k) re hL
    rw [Option.some.inj (hF.symm.trans heq)]
  · intro hterm
    rw [AgreeTo, h.take_eq hL hF hterm.symm]
    exact List.take_prefix _ _

end TermsMatch

/-! ## The request and the follower -/

/-- The request for entry `k` of a leader's log, before the leader has compacted it or the one
before. -/
structure RequestFor (L : List Entry) (k : Nat) (e : Entry) (m : AppendEntriesRequestMsg) :
    Prop where
  held : L[k]? = some e
  term : m.logTerm = e.header.term
  crc : m.thisIdxCrc = e.header.crc
  carries : CarriesEntry m e
  heartbeat : m.heartbeatMsg = false
  range : m.entryOutOfRange = false
  prevIndex : m.prevLogIndex = k - 1
  first : k = 0 → m.prevLogTerm = 0
  prev : ∀ re, 0 < k → L[k - 1]? = some re →
    m.prevLogTerm = re.header.term ∧ m.prevIdxCrc = re.header.crc
  lowest : 0 < k → m.lowestIndex ≤ k - 1

/-- An entry that a server with these options stores as it was. -/
structure Acceptable [Externals] (o : Options) (e : Entry) : Prop where
  term : 0 < e.term
  version : e.header.applyHandlerVersion = o.applyHandlerVersion
  crc : entryCalcCrc e = e.header.crc
  fits : e.header.dataSize ≤ o.storeType.entryMaxDataSize
  marker : e.header.leaderChangeMarker = true → e.header.numEntries = 1
  nonempty : e.header.leaderChangeMarker = true ∨ e.header.numEntries ≠ 0

instance [Externals] (o : Options) (e : Entry) : Decidable (Acceptable o e) :=
  decidable_of_iff
    (0 < e.term ∧ e.header.applyHandlerVersion = o.applyHandlerVersion ∧
      entryCalcCrc e = e.header.crc ∧ e.header.dataSize ≤ o.storeType.entryMaxDataSize ∧
      (e.header.leaderChangeMarker = true → e.header.numEntries = 1) ∧
      (e.header.leaderChangeMarker = true ∨ e.header.numEntries ≠ 0))
    ⟨fun ⟨h1, h2, h3, h4, h5, h6⟩ => ⟨h1, h2, h3, h4, h5, h6⟩,
      fun ⟨h1, h2, h3, h4, h5, h6⟩ => ⟨h1, h2, h3, h4, h5, h6⟩⟩

/-- A follower whose log has the first `a` entries of a leader's log.  What it has compacted is
among them, and so is what it has committed and applied, unless it has no entries but the
leader's. -/
structure Receptive (L : List Entry) (a : Nat) (ri : RaftInstance n) : Prop where
  cons : Consistent ri
  follower : ri.state = .follower
  terms : TermsMatch L ri.store.db.entries
  agree : AgreeTo L ri.store.db.entries a
  lowest : ri.lowestIdx < a
  first : ri.store.db.entries = [] ∨ 0 < a
  committed : ri.store.db.entries <+: L ∨ (ri.commitIdx < a ∧ ri.lastApplied.idx < a)

/-- What a request leaves as it is. -/
structure Stays (ri ri' : RaftInstance n) : Prop where
  self : ri'.self = ri.self
  opts : ri'.opts = ri.opts
  procState : ri'.procState = ri.procState
  bulk : ri'.needsBulkRecovery = ri.needsBulkRecovery
  state : ri'.state = ri.state
  lowest : ri'.lowestIdx = ri.lowestIdx
  applied : ri'.lastApplied.idx = ri.lastApplied.idx

namespace Stays

variable {ri ri' ri'' : RaftInstance n}

theorem refl (ri : RaftInstance n) : Stays ri ri := ⟨rfl, rfl, rfl, rfl, rfl, rfl, rfl⟩

theorem trans (h : Stays ri ri') (h' : Stays ri' ri'') : Stays ri ri'' :=
  ⟨h'.self.trans h.self, h'.opts.trans h.opts, h'.procState.trans h.procState,
    h'.bulk.trans h.bulk, h'.state.trans h.state, h'.lowest.trans h.lowest,
    h'.applied.trans h.applied⟩

theorem flushed (ri : RaftInstance n) : Stays ri ri.flushed := by
  refine ⟨rfl, rfl, rfl, rfl, rfl, rfl, ?_⟩
  unfold RaftInstance.flushed
  dsimp only
  split <;> rfl

theorem cutDown (ri : RaftInstance n) (k : Nat) : Stays ri (ri.flushed.cutDown k) :=
  (flushed ri).trans ⟨rfl, rfl, rfl, rfl, rfl, rfl, rfl⟩

end Stays

/-- The log after the comparison, and how far it is synced at least. -/
structure Compared (k : Nat) (ri ri' : RaftInstance n) : Prop where
  cons : Consistent ri'
  stays : Stays ri ri'
  commit : ri'.commitIdx = ri.commitIdx
  hdr : ri'.logHdr = ri.logHdr
  entries : ri'.store.db.entries = ri.store.db.entries ∨
    ri'.store.db.entries = ri.store.db.entries.take k
  sync : ri.newestSync.index ≤ ri'.newestSync.index ∨ (k : Int) - 1 ≤ ri'.newestSync.index

theorem Compared.refl {ri : RaftInstance n} (h : Consistent ri) (k : Nat) : Compared k ri ri :=
  ⟨h, .refl ri, rfl, rfl, .inl rfl, .inl (le_refl _)⟩

/-- The log is cut down to the entries before `k`. -/
theorem Compared.cutDown {ri : RaftInstance n} (h : Consistent ri)
    (hk : k ≤ ri.store.db.entries.length) : Compared k ri (ri.flushed.cutDown k) := by
  have hlen : k ≤ ri.flushed.store.db.entries.length := by rwa [flushed_entries]
  refine ⟨h.flushed.cutDown hlen, .cutDown ri k, rfl, rfl, .inr ?_, .inr ?_⟩
  · show ri.flushed.store.db.entries.take k = _
    rw [flushed_entries]
  · show (k : Int) - 1 ≤ (lastHeader (ri.flushed.store.db.entries.take k)).index
    rw [h.flushed.entries.lastHeader_take_index hlen]

/-- What becomes of the log, and how the reply says so. -/
inductive AppendOutcome (L : List Entry) (k : Nat) (ri ri' : RaftInstance n)
    (r : AppendEntriesReplyMsg) : Prop
  /-- The logs differ before the entry. -/
  | refused (hdiffers : ¬ AgreeTo L ri.store.db.entries k)
      (hentries : ri'.store.db.entries = ri.store.db.entries ∨
        ri'.store.db.entries = ri.store.db.entries.take k)
      (hmark : r.errNonMatchingPrevTerm = true) (hsli : r.syncedLogIndex = ri'.newestSync.index)
      (hnewly : r.newlyInitializedPeer = decide (ri'.newestSync.index = -1)) :
      AppendOutcome L k ri ri' r
  /-- The entry was there. -/
  | kept (hagree : AgreeTo L ri.store.db.entries (k + 1))
      (hentries : ri'.store.db.entries = ri.store.db.entries)
      (hmark : r.errNonMatchingPrevTerm = false) (hsli : r.syncedLogIndex = -1) :
      AppendOutcome L k ri ri' r
  /-- The entry is the last one now. -/
  | appended (hagree : AgreeTo L ri.store.db.entries k)
      (hnew : ¬ AgreeTo L ri.store.db.entries (k + 1))
      (hentries : ri'.store.db.entries = L.take (k + 1))
      (hmark : r.errNonMatchingPrevTerm = false) : AppendOutcome L k ri ri' r

/-- How a follower that catches up answers the request for entry `k`. -/
structure Answered (L : List Entry) (k : Nat) (m : AppendEntriesRequestMsg)
    (ri ri' : RaftInstance n) (r : AppendEntriesReplyMsg) : Prop where
  cons : Consistent ri'
  stays : Stays ri ri'
  term : ri'.logHdr.term = m.leaderTerm
  commit : ri'.commitIdx ≤ max ri.commitIdx m.commitIndex
  sync : ri.newestSync.index ≤ ri'.newestSync.index ∨ (k : Int) - 1 ≤ ri'.newestSync.index
  leaderTerm : r.leaderTerm = m.leaderTerm
  prevLogIndex : r.prevLogIndex = m.prevLogIndex
  heartbeat : r.heartbeatMsg = m.heartbeatMsg
  stale : r.errStaleTerm = false
  updateSli : r.updateSli = false
  outcome : AppendOutcome L k ri ri' r

/-- A follower has only taken the term of the request before it compares. -/
theorem Receptive.termTaken {ri ri' : RaftInstance n} {m : AppendEntriesRequestMsg}
    (h : Receptive L a ri) (ht : TermTaken ri ri' m) : Receptive L a ri' := by
  have hsame := ht.same
  refine ⟨ht.cons, ht.follower, ?_, ?_, ?_, ?_, ?_⟩
  · rw [hsame.entries]
    exact h.terms
  · rw [hsame.entries]
    exact h.agree
  · rw [hsame.lowest]
    exact h.lowest
  · rw [hsame.entries]
    exact h.first
  · rw [hsame.entries, hsame.commit, hsame.applied]
    exact h.committed

namespace RequestFor

variable {e : Entry} {m : AppendEntriesRequestMsg} {sz : Nat}

/-- A log that ends before the entry agrees with the leader's exactly when its last term is the one
that the request names. -/
theorem lastTerm_iff (hm : RequestFor L k e m) (h : TermsMatch L F) (hlen : F.length = k) :
    (lastHeader F).term = m.prevLogTerm ↔ AgreeTo L F k := by
  cases k with
  | zero =>
    rw [List.length_eq_zero_iff.mp hlen, lastHeader_nil, EntryHeader.null_term, hm.first rfl]
    exact ⟨fun _ => agreeTo_zero, fun _ => rfl⟩
  | succ k =>
    have hL : k < L.length := by
      have := (List.getElem?_eq_some_iff.mp hm.held).1
      omega
    have hlt : k < F.length := by omega
    have hF : F[k]? = some F[k] := List.getElem?_eq_getElem hlt
    have hprev := (hm.prev L[k] (Nat.succ_pos k) (List.getElem?_eq_getElem hL)).1
    have hlast := EntriesOk.lastHeader_take_succ hF
    rw [← hlen, List.take_length] at hlast
    rw [hlast, hprev, h.agreeTo_succ_iff (List.getElem?_eq_getElem hL) hF]
    rfl

/-- The request is already stored when the logs agree past its entry. -/
theorem alreadyStored (hm : RequestFor L k e m) {ri : RaftInstance n}
    (hc : Consistent ri) (hagree : AgreeTo L ri.store.db.entries (k + 1)) : AlreadyStored ri m := by
  have hprev := hm.prevIndex
  have hget : ri.store.db.entries[k]? = some e :=
    agreeTo_iff.mp hagree k (Nat.lt_succ_self k) e hm.held
  have hlt := (List.getElem?_eq_some_iff.mp hget).1
  refine ⟨by omega, ?_, fun _ => ⟨e, ?_, hm.term.symm, fun _ => hm.crc⟩, fun h0 => ?_⟩
  · rw [hc.unsync_index]
    omega
  · have hidx : (m.prevLogIndex + 1).toNat = k := by omega
    rw [hidx]
    exact hget
  · have hpos : 0 < k := by omega
    have hidx : m.prevLogIndex.toNat = k - 1 := by omega
    have hL : k - 1 < L.length := by
      have := (List.getElem?_eq_some_iff.mp hm.held).1
      omega
    obtain ⟨hterm, hcrc⟩ := hm.prev L[k - 1] hpos (List.getElem?_eq_getElem hL)
    refine ⟨L[k - 1], ?_, hterm.symm, hcrc⟩
    rw [hidx]
    exact agreeTo_iff.mp hagree (k - 1) (by omega) _ (List.getElem?_eq_getElem hL)

end RequestFor

/-! ## The comparison -/

namespace RaftServer

variable {s : Proc n} {D : Proc n → Prop} {e : Entry} {m : AppendEntriesRequestMsg}
  {sender : Fin n}

/-- An entry of another term is found where the carried one belongs. -/
theorem wp_appendEntryCheckAlreadyStored_of_conflict {Q : Bool → Proc n → Prop}
    (hc : Consistent s.ri) (hf : s.ri.state = .follower) (hrange : m.entryOutOfRange = false)
    (hprev : m.prevLogIndex = k - 1) (hlow : s.ri.lowestIdx ≤ k) (hterm : 0 < m.logTerm)
    {re : Entry} (hre : s.ri.store.db.entries[k]? = some re) (hne : re.term ≠ m.logTerm)
    (hQ : Q false s) : (appendEntryCheckAlreadyStored m).wp Q D s := by
  have hidx : m.prevLogIndex + 1 = k := by omega
  have hahead : s.ri.currentIdx .unsync ≥ m.prevLogIndex + 1 := by
    have hlt := (List.getElem?_eq_some_iff.mp hre).1
    show m.prevLogIndex + 1 ≤ s.ri.newestUnsync.index
    rw [hc.unsync_index]
    omega
  have hvalid : m.prevLogIndex ≥ -1 := by omega
  simp only [appendEntryCheckAlreadyStored, wp_bind, wp_getRi, wp_assert, wp_ite, wp_pure]
  refine ⟨fun _ => ⟨fun h => absurd h (by simp [hrange]), fun _ => ⟨fun _ => ⟨fun _ => ?_,
    fun h => absurd hahead h⟩, fun h => absurd hvalid h⟩⟩,
    fun h => absurd (by simp [RaftInstance.isFollower, hf]) h⟩
  refine ⟨fun _ => ?_, fun h => absurd hterm h⟩
  rw [hidx]
  refine wp_entryHeaderReadByStore_of_consistent hc hlow hre ?_
  have hne' : re.header.term ≠ m.logTerm := hne
  simp only [wp_ite, wp_pure, wp_bind]
  exact ⟨fun _ => ⟨fun _ => hQ, fun h => absurd trivial h⟩, fun h => absurd hne' h⟩

/-- A log that may be cut down is. -/
theorem wp_appendEntryLogPruneIfNeeded_of_prunable {Q : Unit → Proc n → Prop}
    (hc : Consistent s.ri) (hprun : Prunable s.ri m) (hfuse : s.fuse = none)
    (hprev : m.prevLogIndex = k - 1) (hk : 0 < k)
    (hQ : Q () { s with ri := s.ri.flushed.cutDown k, fuse := none }) :
    (appendEntryLogPruneIfNeeded m).wp Q D s := by
  obtain ⟨hlow, hle⟩ := hprun.held (by omega)
  have hcommit := hprun.commit
  have happlied := hprun.applied
  have hlt : k - 1 < s.ri.store.db.entries.length := by
    have := hc.unsync_index
    omega
  have hget : s.ri.flushed.store.db.entries[k - 1]? = some s.ri.store.db.entries[k - 1] := by
    rw [flushed_entries]
    exact List.getElem?_eq_getElem hlt
  set re := s.ri.store.db.entries[k - 1] with hre
  have hidx : re.header.index = k - 1 := by
    have := (hc.flushed.entries.entry _ _ hget).index
    omega
  have hlast : lastHeader (s.ri.flushed.store.db.entries.take k) = re.header := by
    rw [← Nat.sub_add_cancel hk]
    exact EntriesOk.lastHeader_take_succ hget
  have hcast : m.prevLogIndex = ((k - 1 : Nat) : Int) := by omega
  simp only [appendEntryLogPruneIfNeeded, wp_bind, wp_getRi, wp_assert]
  refine ⟨fun _ => ⟨fun _ => ?_, fun h => absurd hprun.prev h⟩,
    fun h => absurd (by simp [RaftInstance.isFollower, hprun.follower]) h⟩
  refine wp_backendSync hc (fun h => absurd hfuse h) fun fuse hfuse' => ?_
  have hnone := hfuse' hfuse
  subst hnone
  simp only [wp_fatalIf, wp_whenever, wp_bind]
  refine ⟨fun h => by omega, fun _ => ⟨fun _ => ?_, fun h => by omega⟩⟩
  rw [hcast]
  rw [hcast] at hlow
  refine wp_entryHeaderReadByStore_of_consistent hc.flushed hlow hget ?_
  refine wp_updateNewestEntryHdr_force (by omega) ?_
  refine wp_logTruncate (m := k) ?_ (fun h => absurd rfl h) fun fuse' hfuse'' => ?_
  · show re.header.index = _
    exact hidx
  · have hnone := hfuse'' rfl
    subst hnone
    rw [RaftInstance.cutDown, hlast] at hQ
    exact hQ

/-- The comparison of a log that ends at or before the entry that the request names. -/
theorem wp_compareWithLeader {reh : EntryHeader} {Q : Except Errno Unit → Proc n → Prop}
    (hle : reh.index ≤ m.prevLogIndex)
    (hQ : Q (if reh.index < m.prevLogIndex then .error .ERANGE
      else if reh.term ≠ m.prevLogTerm then .error .EEXIST else .ok ()) s) :
    (compareWithLeader reh m).wp Q D s := by
  rw [compareWithLeader, wp_bind, wp_assert]
  exact ⟨fun _ => hQ, fun h => absurd hle h⟩

/-- `raft_server_append_entry_log_prepare_and_check` at a follower that catches up.  It says that
the entry is there, or that the logs differ before it, or it makes room for the entry. -/
theorem wp_appendEntryLogPrepareAndCheck_of_receptive {Q : Except Errno Unit → Proc n → Prop}
    (hr : Receptive L a s.ri) (hm : RequestFor L k e m) (hterm : 0 < e.term)
    (hfuse : s.fuse = none)
    (hhas : ∀ rc, rc = .EBADR ∨ rc = .EALREADY → AgreeTo L s.ri.store.db.entries (k + 1) →
      Q (.error rc) s)
    (hrefuses : ∀ s' rc, rc ≠ .EBADR → rc ≠ .EALREADY → s'.out = s.out →
      Compared k s.ri s'.ri → ¬ AgreeTo L s.ri.store.db.entries k → Q (.error rc) s')
    (hready : ∀ s', s'.out = s.out → s'.fuse = none → Compared k s.ri s'.ri →
      s'.ri.store.db.entries = L.take k → ¬ AgreeTo L s.ri.store.db.entries (k + 1) →
      AgreeTo L s.ri.store.db.entries k → Q (.ok ()) s') :
    (appendEntryLogPrepareAndCheck m).wp Q D s := by
  have hc := hr.cons
  have hprev := hm.prevIndex
  have hlen := hc.unsync_index
  have hkL := (List.getElem?_eq_some_iff.mp hm.held).1
  rw [appendEntryLogPrepareAndCheck, wp_bind, wp_getRi]
  cases hb : appendEntryRequestBoundsCheck s.ri m with
  | error rc =>
    -- only an entry that the follower has compacted is out of bounds
    have hne := bounds_error (by rw [hb]; simp)
    rw [hb, Except.error.injEq] at hne
    subst hne
    refine hhas _ (.inl rfl) (hr.agree.mono ?_)
    have hlow : m.prevLogIndex < s.ri.lowestIdx := by
      by_contra hge
      have hok : appendEntryRequestBoundsCheck s.ri m = .ok () :=
        bounds_ok_iff.mpr ⟨?_, not_lt.mp hge, hm.range⟩
      · rw [hb] at hok
        cases hok
      · rcases Nat.eq_zero_or_pos k with rfl | hpos
        · exact .inl (by omega)
        · exact .inr (by have := hm.lowest hpos; omega)
    have := hr.lowest
    omega
  | ok u =>
    obtain ⟨-, hlow, -⟩ := bounds_ok_iff.mp hb
    simp only [wp_ite]
    refine ⟨fun hahead => ?_, fun hbehind => ?_⟩
    · -- the follower has an entry at the index of the carried one
      have hk : k < s.ri.store.db.entries.length := by
        rw [gt_iff_lt, hlen] at hahead
        omega
      have hget := List.getElem?_eq_getElem hk
      simp only [followerIndexAheadOfLeader, wp_bind]
      by_cases hagree : AgreeTo L s.ri.store.db.entries (k + 1)
      · refine wp_appendEntryCheckAlreadyStored_of_stored hc hr.follower hb
          (hm.alreadyStored hc hagree) ?_
        simp only [if_true, wp_bind, wp_getRi, wp_pure]
        exact hhas _ (.inr rfl) hagree
      · have hne : (s.ri.store.db.entries[k]).term ≠ m.logTerm := by
          rw [hm.term]
          exact fun h => hagree ((hr.terms.agreeTo_succ_iff hm.held hget).mpr h)
        refine wp_appendEntryCheckAlreadyStored_of_conflict hc hr.follower hm.range hprev (by omega)
          (by rw [hm.term]; exact hterm) hget hne ?_
        -- what is dropped was neither committed nor applied, and it is not all of the log
        have hak : a ≤ k := Nat.lt_succ_iff.mp (hr.agree.lt hagree)
        have hcommitted : s.ri.commitIdx < a ∧ s.ri.lastApplied.idx < a := by
          refine hr.committed.resolve_left fun hinit => hagree ?_
          refine (hr.terms.agreeTo_succ_iff hm.held hget).mpr ?_
          have hsame := List.prefix_iff_getElem?.mp hinit k hk
          rw [Option.some.inj (hsame.symm.trans hm.held)]
        have hpos : 0 < k := by
          rcases hr.first with hnil | ha
          · rw [hnil, List.length_nil] at hk
            omega
          · omega
        have hprun : Prunable s.ri m := ⟨hr.follower, by omega, by omega, by omega,
          fun _ => ⟨hlow, by omega⟩⟩
        simp only [wp_ite]
        refine ⟨fun h => absurd h (by simp), fun _ => ?_⟩
        simp only [wp_bind]
        refine wp_appendEntryLogPruneIfNeeded_of_prunable hc hprun hfuse hprev hpos ?_
        have hcmp := Compared.cutDown hc hk.le
        have hentries : (s.ri.flushed.cutDown k).store.db.entries =
            s.ri.store.db.entries.take k := by
          show s.ri.flushed.store.db.entries.take k = _
          rw [flushed_entries]
        have hcut : (s.ri.store.db.entries.take k).length = k := by
          rw [List.length_take]
          omega
        have hidx : (s.ri.flushed.cutDown k).newestSync.index = m.prevLogIndex := by
          show (lastHeader (s.ri.flushed.store.db.entries.take k)).index = _
          rw [flushed_entries, hc.entries.lastHeader_take_index hk.le, hprev]
        simp only [hasUnsyncedEntries, wp_bind, wp_getRi, wp_fatalIf, wp_pure, wp_assert]
        refine ⟨fun h => absurd rfl h.1, fun _ => ⟨fun _ => ?_,
          fun h => absurd (by simp [RaftInstance.cutDown]) h⟩⟩
        refine wp_compareWithLeader (le_of_eq hidx) ?_
        rw [if_neg (by rw [hidx]; omega)]
        have hiff := hm.lastTerm_iff (hr.terms.take k) hcut
        rw [agreeTo_take_iff] at hiff
        have hlast : (s.ri.flushed.cutDown k).newestSync.term =
            (lastHeader (s.ri.store.db.entries.take k)).term := by
          rw [← flushed_entries]
          rfl
        rw [hlast]
        by_cases hbefore : AgreeTo L s.ri.store.db.entries k
        · rw [if_neg (not_not.mpr (hiff.mpr hbefore))]
          refine hready _ rfl rfl hcmp ?_ hagree hbefore
          rw [hentries, hbefore.take_eq hkL.le]
        · rw [if_pos (fun h => hbefore (hiff.mp h))]
          exact hrefuses _ _ (by simp) (by simp) rfl hcmp hbefore
    · refine wp_compareWithLeader (not_lt.mp hbehind) ?_
      have hcmp : Compared k s.ri s.ri := .refl hc k
      have hnew : ¬ AgreeTo L s.ri.store.db.entries (k + 1) := by
        intro hagree
        have hget := agreeTo_iff.mp hagree k (Nat.lt_succ_self k) e hm.held
        have hlt := (List.getElem?_eq_some_iff.mp hget).1
        omega
      by_cases hshort : s.ri.newestUnsync.index < m.prevLogIndex
      · rw [if_pos hshort]
        refine hrefuses s _ (by simp) (by simp) rfl hcmp fun hbefore => ?_
        have hle := hbefore.length_le
        rw [List.length_take] at hle
        omega
      · rw [if_neg hshort, hc.unsync]
        have hend : s.ri.store.db.entries.length = k := by omega
        have hiff := hm.lastTerm_iff hr.terms hend
        by_cases hbefore : AgreeTo L s.ri.store.db.entries k
        · rw [if_neg (not_not.mpr (hiff.mpr hbefore))]
          refine hready s rfl hfuse hcmp ?_ hnew hbefore
          rw [← hbefore.take_eq hkL.le, ← hend, List.take_length]
        · rw [if_pos (fun h => hbefore (hiff.mp h))]
          exact hrefuses s _ (by simp) (by simp) rfl hcmp hbefore

/-! ## The request as a whole -/

/-- A follower that is not killed takes the term of a request that is not stale. -/
theorem wp_processAppendEntriesTermCheckOps_taken {Q : Except Errno Unit → Proc n → Prop}
    (hc : Consistent s.ri) (hf : s.ri.state = .follower) (hfuse : s.fuse = none)
    (hstale : s.ri.logHdr.term ≤ m.leaderTerm)
    (hQ : ∀ s', s'.out = s.out → s'.fuse = none → TermTaken s.ri s'.ri m → Stays s.ri s'.ri →
      s'.ri.logHdr.term = m.leaderTerm → Q (.ok ()) s') :
    (processAppendEntriesTermCheckOps sender m).wp Q D s := by
  simp only [processAppendEntriesTermCheckOps, setLeaderCsn, wp_bind, wp_getRi, wp_ite, wp_pure,
    wp_modifyRi, RaftInstance.isCandidate, RaftInstance.isCandidatePrevote, RaftInstance.isLeader,
    RaftInstance.isFollower, hf]
  refine ⟨fun h => absurd hstale (not_le.mpr h), fun _ => ⟨fun h => absurd h (by simp),
    fun _ => ⟨fun h => absurd h (by simp), fun _ => ⟨fun hlt => ?_, fun hge => ?_⟩⟩⟩⟩
  · simp only [tryUpdateLogHeaderNullVotedForPeer, updateLogHeader, wp_bind, wp_getRi, wp_whenever,
      wp_assert]
    refine ⟨fun _ => ⟨fun _ => ?_, fun h => absurd hlt.1 h⟩, fun h => absurd hlt.1 h⟩
    refine wp_logHeaderWrite hc hlt.1 (fun h => absurd hfuse h) (fun h => absurd hfuse h)
      fun fuse hfuse' => ?_
    set hdr := nextHeader s.ri none m.leaderTerm
    have hstays := Stays.flushed (s.ri.withHeader hdr)
    obtain ⟨h1, h2, h3, h4, h5⟩ := (hc.withHeader hdr).flushed
    obtain ⟨h6, h7, h8, h9, h10, h11, h12⟩ := SameLog.of_header (h := hdr) hc hlt.1
    exact hQ _ rfl (hfuse' hfuse)
      ⟨⟨h1, h2, h3, h4, h5⟩, hf, rfl, ⟨h6, h7, h8, h9, h10, h11, h12⟩⟩
      ⟨rfl, rfl, rfl, rfl, rfl, rfl, hstays.applied⟩ rfl
  · have heq : ¬ s.ri.logHdr.term < m.leaderTerm := fun h => hge ⟨h, by simp⟩
    refine hQ _ rfl hfuse ⟨?_, rfl, rfl, ?_⟩ ⟨rfl, rfl, rfl, rfl, hf.symm, rfl, rfl⟩ ?_
    · exact ⟨hc.entries, hc.unsync, hc.sync, hc.reaped, hc.applied⟩
    · exact ⟨rfl, rfl, rfl, by rw [if_neg heq], rfl, rfl, rfl⟩
    · exact le_antisymm hstale (not_lt.mp heq)

section Write

variable [Externals] {sz : Nat}

/-- The entry is stored as the leader has it, after the entries before it. -/
theorem wp_writeNewEntryFromLeader_of_request {Q : Unit → Proc n → Prop} (hc : Consistent s.ri)
    (hf : s.ri.state = .follower) (hfuse : s.fuse = none) (hL : EntriesOk sz L)
    (hm : RequestFor L k e m) (he : Acceptable s.ri.opts e)
    (hentries : s.ri.store.db.entries = L.take k)
    (hQ : Consistent (s.ri.withEntry e) →
      Q () { s with ri := s.ri.withEntry e, fuse := none }) :
    (writeNewEntryFromLeader m).wp Q D s := by
  have hkL := (List.getElem?_eq_some_iff.mp hm.held).1
  have hlen : s.ri.store.db.entries.length = k := by
    rw [hentries, List.length_take]
    omega
  have hok := hL.entry k e hm.held
  -- the request names the newest entry, whose term is not above that of the next one
  have hlast : s.ri.newestUnsync.term = m.prevLogTerm := by
    rw [hc.unsync]
    refine (hm.lastTerm_iff ?_ hlen).mpr ?_
    · rw [hentries]
      exact TermsMatch.of_initial (List.take_prefix _ _)
    · rw [hentries]
      exact List.prefix_refl _
  have hpos : 0 < e.header.term := he.term
  have hterm : m.prevLogTerm ≤ m.logTerm := by
    rw [hm.term]
    rcases Nat.eq_zero_or_pos k with rfl | hk
    · rw [hm.first rfl]
      exact hpos.le
    · have hlt : k - 1 < L.length := by omega
      rw [(hm.prev L[k - 1] hk (List.getElem?_eq_getElem hlt)).1]
      have hsorted := List.pairwise_iff_getElem.mp hL.sorted (k - 1) k hlt hkL (by omega)
      rwa [Option.some.inj ((List.getElem?_eq_getElem hkL).symm.trans hm.held)] at hsorted
  have hsizes : m.sizeArr.take (m.numEntries % 256) = e.header.entrySz := by
    rw [hm.carries.sizeArr, hm.carries.numEntries, Nat.mod_eq_of_lt hok.narrow, hok.numEntries,
      List.take_length]
  have hfits : m.entriesSz ≤ s.ri.entryMaxDataSize := by
    rw [hm.carries.entriesSz]
    exact he.fits
  have hnewest : s.ri.newestUnsync.index = m.prevLogIndex := by
    rw [hc.unsync_index, hm.prevIndex, hlen]
  have hmarker : m.leaderChangeMarker = false ∨ m.numEntries % 256 = 1 := by
    rw [hm.carries.marker, hm.carries.numEntries, Nat.mod_eq_of_lt hok.narrow]
    cases hmark : e.header.leaderChangeMarker with
    | false => exact .inl rfl
    | true => exact .inr (he.marker hmark)
  have hlogTerm : 0 < m.logTerm := by
    rw [hm.term]
    exact hpos
  have hnew : m.logTerm ≥ s.ri.newestUnsync.term := by
    rw [hlast]
    exact hterm
  simp only [writeNewEntryFromLeader, wp_bind, wp_getRi, wp_assert, wp_ite, wp_pure]
  refine ⟨fun _ => ⟨fun h => absurd h (by simp [hm.heartbeat]), fun _ => ?_⟩,
    fun h => absurd (by simp [RaftInstance.isFollower, hf]) h⟩
  refine ⟨fun _ => ⟨fun _ => ⟨fun _ => ⟨fun _ => ⟨fun _ => ⟨fun _ => ?_, fun h => absurd hmarker h⟩,
    fun h => absurd hnewest h⟩, fun h => absurd hfits h⟩, fun h => absurd hnew h⟩,
    fun h => absurd hterm h⟩, fun h => absurd hlogTerm h⟩
  have hstored : s.ri.entryFromLeader m = e := by
    rw [entryFromLeader_eq (by rw [hlen]; exact hok) hm.term hm.carries]
    exact (Entry.withVersion_eq_iff he.crc).mpr he.version
  have hsum : (m.sizeArr.take (m.numEntries % 256)).sum ≤ s.ri.entryMaxDataSize := by
    rw [hsizes, ← hok.dataSize]
    exact he.fits
  have hcount : m.leaderChangeMarker = true ∨ (m.sizeArr.take (m.numEntries % 256)).length ≠ 0 := by
    rw [hsizes, ← hok.numEntries, hm.carries.marker]
    exact he.nonempty
  refine wp_writeNextEntry hc (fun h => absurd hfuse (h hnew hsum hcount))
    fun fuse _ _ _ hnone => ?_
  have hnone := hnone hfuse
  subst hnone
  show Q () { s with ri := s.ri.withEntry (s.ri.entryFromLeader m), fuse := none }
  rw [hstored]
  refine hQ (hc.withEntry ?_ ?_)
  · rw [hlen]
    exact { hok with fits := he.fits }
  · rw [hm.term] at hnew
    exact hnew

omit [Externals] in
/-- Taking a term does not make the log less synced. -/
theorem syncIdx_le_of_termTaken {ri ri' : RaftInstance n} (hc : Consistent ri)
    (ht : TermTaken ri ri' m) : ri.newestSync.index ≤ ri'.newestSync.index := by
  rw [ht.same.sync]
  split
  · exact hc.sync_index_le
  · exact le_refl _

/-- `raft_server_process_append_entries_request` at a follower that catches up. -/
theorem wp_processAppendEntriesRequest_of_receptive (hr : Receptive L a s.ri)
    (hL : EntriesOk sz L) (hm : RequestFor L k e m) (he : Acceptable s.ri.opts e)
    (hfuse : s.fuse = none) (hstale : s.ri.logHdr.term ≤ m.leaderTerm) :
    (processAppendEntriesRequest sender m).wp (fun _ s' => ∃ r,
        s'.out = s.out ++ [(sender, .appendEntriesReply r)] ∧ Answered L k m s.ri s'.ri r)
      (fun _ => False) s := by
  have hprev := hm.prevIndex
  have hvalid : processAppendEntriesRequestValidityCheck s.ri m = .ok () := by
    refine validityCheck_ok_iff.mpr ⟨by omega, ?_⟩
    rw [hm.carries.entriesSz]
    exact he.fits
  rw [processAppendEntriesRequest, wp_bind, wp_getRi, hvalid]
  simp only [processBulkRecoveryCheck, wp_bind, wp_getRi, wp_ite, wp_pure]
  refine ⟨fun _ => ?_, fun h => absurd hm.range h⟩
  simp only [processValidAppendEntries, wp_bind]
  refine wp_processAppendEntriesTermCheckOps_taken hr.cons hr.follower hfuse hstale
    fun s₁ hout hfuse₁ ht hstays hterm => ?_
  simp only [wp_ite, wp_bind]
  refine ⟨fun h => absurd h (by simp), fun _ => ?_⟩
  have hsync := syncIdx_le_of_termTaken hr.cons ht
  have hsame : s₁.ri.store.db.entries = s.ri.store.db.entries := ht.same.entries
  -- what the comparison leaves, seen from the instance before the request
  have hsynced : ∀ ri', Compared k s₁.ri ri' →
      s.ri.newestSync.index ≤ ri'.newestSync.index ∨ (k : Int) - 1 ≤ ri'.newestSync.index :=
    fun ri' hcmp => hcmp.sync.imp_left hsync.trans
  refine wp_appendEntryLogPrepareAndCheck_of_receptive (hr.termTaken ht) hm he.term hfuse₁
    ?_ ?_ ?_
  · intro rc hrc hagree
    rw [hsame] at hagree
    rcases hrc with rfl | rfl
    · simp only [processAppendEntriesOutcome, appendEntryReplySend, wp_pure, wp_bind, wp_getRi,
        wp_sendMsg_some]
      refine ⟨_, by rw [hout], ht.cons, hstays, hterm, ?_, .inl hsync, hterm, rfl, rfl, rfl, rfl,
        .kept hagree hsame rfl rfl⟩
      rw [ht.same.commit]
      exact le_max_left _ _
    · simp only [processAppendEntriesOutcome, appendEntryReplySend, wp_pure, wp_bind, wp_getRi,
        wp_sendMsg_some]
      refine wp_advanceCommitIdx fun trace ci hci => ?_
      obtain ⟨h1, h2, h3, h4, h5, h6, h7⟩ := hstays
      refine ⟨_, by rw [← hout], ⟨ht.cons.entries, ht.cons.unsync, ht.cons.sync, ht.cons.reaped,
        ht.cons.applied⟩, ⟨h1, h2, h3, h4, h5, h6, h7⟩, hterm, ?_, .inl hsync, hterm, rfl, rfl, rfl,
        rfl, .kept hagree hsame rfl rfl⟩
      show ci ≤ _
      rw [hci, ht.same.commit]
      split <;> omega
  · intro s' rc h1 h2 hout' hcmp hdiffers
    rw [hsame] at hdiffers
    have hmark : processAppendEntriesOutcome (n := n) m (.error rc) = pure true := by
      cases rc
      case EBADR => exact absurd rfl h1
      case EALREADY => exact absurd rfl h2
      all_goals rfl
    have hcut := hcmp.entries
    rw [hsame] at hcut
    have hterm' : s'.ri.logHdr.term = m.leaderTerm := by
      rw [hcmp.hdr]
      exact hterm
    simp only [hmark, appendEntryReplySend, wp_pure, wp_bind, wp_getRi, wp_sendMsg_some]
    refine ⟨_, by rw [hout', hout], hcmp.cons, hstays.trans hcmp.stays, hterm', ?_, hsynced _ hcmp,
      hterm', rfl, rfl, rfl, rfl, .refused hdiffers hcut rfl ?_ rfl⟩
    · rw [hcmp.commit, ht.same.commit]
      exact le_max_left _ _
    · simp [processAppendEntriesRequestPrepReply]
      rfl
  · intro s' hout' hfuse' hcmp hentries hnew hagree
    rw [hsame] at hnew hagree
    have hopts : s'.ri.opts = s.ri.opts := hcmp.stays.opts.trans hstays.opts
    have hfol : s'.ri.state = .follower := (hcmp.stays.state.trans hstays.state).trans hr.follower
    simp only [processAppendEntriesOutcome, appendEntryReplySend, wp_whenever, wp_pure, wp_bind,
      wp_getRi, wp_sendMsg_some]
    refine ⟨fun _ => ?_, fun h => absurd hm.heartbeat h⟩
    refine wp_writeNewEntryFromLeader_of_request hcmp.cons hfol hfuse' hL hm (by rwa [hopts])
      hentries fun hcons => ?_
    refine wp_advanceCommitIdx fun trace ci hci => ?_
    obtain ⟨h1, h2, h3, h4, h5, h6, h7⟩ := hstays.trans hcmp.stays
    have hterm' : s'.ri.logHdr.term = m.leaderTerm := by
      rw [hcmp.hdr]
      exact hterm
    have hlong : (s'.ri.withEntry e).store.db.entries = L.take (k + 1) := by
      show s'.ri.store.db.entries ++ [e] = _
      rw [hentries, List.take_add_one, hm.held, Option.toList_some]
    have hsync' : s.ri.newestSync.index ≤ (s'.ri.withEntry e).newestSync.index ∨
        (k : Int) - 1 ≤ (s'.ri.withEntry e).newestSync.index := by
      have hidx := (hL.entry k e hm.held).index
      have hbefore := hsynced _ hcmp
      unfold RaftInstance.withEntry
      dsimp only
      split
      · exact .inr (by omega)
      · exact hbefore
    refine ⟨_, by rw [← hout, ← hout'], ⟨hcons.entries, hcons.unsync, hcons.sync, hcons.reaped,
      hcons.applied⟩, ⟨h1, h2, h3, h4, h5, h6, h7⟩, hterm', ?_, hsync', hterm', rfl, rfl, rfl, rfl,
      .appended hagree hnew hlong rfl⟩
    show ci ≤ _
    have hcommit : (s'.ri.withEntry e).commitIdx = s.ri.commitIdx := by
      rw [← ht.same.commit, ← hcmp.commit]
      rfl
    rw [hci, hcommit]
    split <;> omega

end Write

end RaftServer

end NiovaRaft
