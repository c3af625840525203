import NiovaRaft.Model.AppendEntries
import NiovaRaft.Spec.Log

/-!
# What AppendEntries does to the log

The functions that compare a follower's log with a request, one rule each.  The request is
either found in the log, or the log is cut down to the entry before the carried one, or the log
is left alone.
-/

namespace NiovaRaft

variable {n : Nat}

/-- A reply without any of its three marks. -/
def Clean (m : AppendEntriesReplyMsg) : Prop :=
  m.errStaleTerm = false ∧ m.errNonMatchingPrevTerm = false ∧ m.updateSli = false

instance (m : AppendEntriesReplyMsg) : Decidable (Clean m) :=
  inferInstanceAs (Decidable (_ ∧ _ ∧ _))

/-- The follower holds what the request names: the entry before the carried one, and the
carried one when its term is known. -/
structure AlreadyStored (ri : RaftInstance n) (m : AppendEntriesRequestMsg) : Prop where
  prev : -1 ≤ m.prevLogIndex
  ahead : m.prevLogIndex < ri.newestUnsync.index
  next : 0 < m.logTerm → ∃ re, ri.store.db.entries[(m.prevLogIndex + 1).toNat]? = some re ∧
    re.term = m.logTerm ∧ (m.heartbeatMsg = false → m.thisIdxCrc = re.header.crc)
  last : 0 ≤ m.prevLogIndex → ∃ re, ri.store.db.entries[m.prevLogIndex.toNat]? = some re ∧
    re.term = m.prevLogTerm ∧ m.prevIdxCrc = re.header.crc

/-- The follower holds an entry of another term where the carried one belongs. -/
structure Conflicting (ri : RaftInstance n) (m : AppendEntriesRequestMsg) : Prop where
  prev : -1 ≤ m.prevLogIndex
  term : 0 < m.logTerm
  next : ∃ re, ri.store.db.entries[(m.prevLogIndex + 1).toNat]? = some re ∧ re.term ≠ m.logTerm

/-- The log may be cut down to the entry before the carried one. -/
structure Prunable (ri : RaftInstance n) (m : AppendEntriesRequestMsg) : Prop where
  follower : ri.state = .follower
  prev : -1 ≤ m.prevLogIndex
  commit : ri.commitIdx ≤ m.prevLogIndex
  applied : ri.lastApplied.idx ≤ m.prevLogIndex
  held : 0 ≤ m.prevLogIndex →
    ri.lowestIdx ≤ m.prevLogIndex ∧ m.prevLogIndex ≤ ri.newestUnsync.index

instance (ri : RaftInstance n) (m : AppendEntriesRequestMsg) : Decidable (AlreadyStored ri m) :=
  decidable_of_iff
    (-1 ≤ m.prevLogIndex ∧ m.prevLogIndex < ri.newestUnsync.index ∧
      (0 < m.logTerm → (ri.store.db.entries[(m.prevLogIndex + 1).toNat]?.any fun re =>
        re.term = m.logTerm ∧ (m.heartbeatMsg = false → m.thisIdxCrc = re.header.crc)) = true) ∧
      (0 ≤ m.prevLogIndex → (ri.store.db.entries[m.prevLogIndex.toNat]?.any fun re =>
        re.term = m.prevLogTerm ∧ m.prevIdxCrc = re.header.crc) = true))
    (by
      simp only [Option.any_eq_true, decide_eq_true_eq]
      exact ⟨fun ⟨h1, h2, h3, h4⟩ => ⟨h1, h2, h3, h4⟩, fun ⟨h1, h2, h3, h4⟩ => ⟨h1, h2, h3, h4⟩⟩)

/-! ## The shortcut for stored requests -/

open RaftServer

/-- The index that a request found in the log verifies. -/
def verifiedIdx (m : AppendEntriesRequestMsg) : Int :=
  if 0 < m.logTerm then m.prevLogIndex + 1 else m.prevLogIndex

/-- The synced index of the follower once it has the term of the request. -/
def syncIdxFor (ri : RaftInstance n) (m : AppendEntriesRequestMsg) : Int :=
  if ri.logHdr.term < m.leaderTerm then ri.newestUnsync.index else ri.newestSync.index

/-- The follower takes the shortcut for a request that is already stored. -/
structure TakesShortcut (ri : RaftInstance n) (m : AppendEntriesRequestMsg) : Prop where
  stale : ri.logHdr.term ≤ m.leaderTerm
  bounds : appendEntryRequestBoundsCheck ri m = .ok ()
  stored : AlreadyStored ri m

/-- The shortcut raises the commit index no further than the request verified. -/
def ShortcutVerified (ri : RaftInstance n) (m : AppendEntriesRequestMsg) : Prop :=
  TakesShortcut ri m → min m.commitIndex (syncIdxFor ri m) ≤ max ri.commitIdx (verifiedIdx m)

instance (ri : RaftInstance n) (m : AppendEntriesRequestMsg) : Decidable (TakesShortcut ri m) :=
  decidable_of_iff
    (ri.logHdr.term ≤ m.leaderTerm ∧ appendEntryRequestBoundsCheck ri m = .ok () ∧
      AlreadyStored ri m)
    ⟨fun ⟨h1, h2, h3⟩ => ⟨h1, h2, h3⟩, fun ⟨h1, h2, h3⟩ => ⟨h1, h2, h3⟩⟩

instance (ri : RaftInstance n) (m : AppendEntriesRequestMsg) : Decidable (ShortcutVerified ri m) :=
  inferInstanceAs (Decidable (_ → _))

/-- What the bounds check lets through. -/
theorem bounds_ok_iff {ri : RaftInstance n} {m : AppendEntriesRequestMsg} :
    appendEntryRequestBoundsCheck ri m = .ok () ↔
      (m.prevLogIndex = -1 ∨ m.lowestIndex ≤ m.prevLogIndex) ∧ ri.lowestIdx ≤ m.prevLogIndex ∧
        m.entryOutOfRange = false := by
  unfold appendEntryRequestBoundsCheck
  split
  · simp
    omega
  · split
    · simp
      omega
    · split
      · simp_all
      · simp_all
        omega

/-- Otherwise it says `-EBADR`. -/
theorem bounds_error {ri : RaftInstance n} {m : AppendEntriesRequestMsg}
    (h : appendEntryRequestBoundsCheck ri m ≠ .ok ()) :
    appendEntryRequestBoundsCheck ri m = .error .EBADR := by
  unfold appendEntryRequestBoundsCheck at h ⊢
  split
  · rfl
  · split
    · rfl
    · split
      · rfl
      · simp_all

namespace SameLog

variable {ri ri' : RaftInstance n} {m : AppendEntriesRequestMsg}

/-- A newer term changes nothing about how the log compares with a request. -/
theorem bounds {t : Int} (h : SameLog ri ri' t) :
    appendEntryRequestBoundsCheck ri' m = appendEntryRequestBoundsCheck ri m := by
  unfold appendEntryRequestBoundsCheck
  rw [h.lowest]

theorem alreadyStored {t : Int} (h : SameLog ri ri' t) :
    AlreadyStored ri' m ↔ AlreadyStored ri m := by
  constructor
  · rintro ⟨h1, h2, h3, h4⟩
    rw [h.unsync] at h2
    rw [h.entries] at h3 h4
    exact ⟨h1, h2, h3, h4⟩
  · rintro ⟨h1, h2, h3, h4⟩
    rw [← h.unsync] at h2
    rw [← h.entries] at h3 h4
    exact ⟨h1, h2, h3, h4⟩

theorem syncIdx (h : SameLog ri ri' m.leaderTerm) :
    ri'.newestSync.index = syncIdxFor ri m := by
  rw [syncIdxFor, h.sync]
  split <;> rfl

end SameLog

/-! ## Pruned logs -/

/-- The instance with both cached headers replaced. -/
def RaftInstance.withNewest (ri : RaftInstance n) (sync unsync : EntryHeader) : RaftInstance n :=
  { ri with newestSync := sync, newestUnsync := unsync }

/-- The instance after its log was cut down to `k` entries, everything having been synced. -/
def RaftInstance.cutDown (ri : RaftInstance n) (k : Nat) : RaftInstance n :=
  { ri with
    store := ri.store.put (ri.store.db.truncate k) true
    newestSync := lastHeader (ri.store.db.entries.take k)
    newestUnsync := lastHeader (ri.store.db.entries.take k) }

theorem Consistent.cutDown {ri : RaftInstance n} (h : Consistent ri) {k : Nat}
    (hk : k ≤ ri.store.db.entries.length) : Consistent (ri.cutDown k) := by
  have hlen : (ri.store.db.entries.take k).length = k := by
    rw [List.length_take]
    omega
  refine ⟨h.entries.take k, rfl, ⟨k, le_of_eq hlen.symm, ?_, fun _ => hlen.symm⟩, h.reaped,
    h.applied⟩
  change _ = lastHeader ((ri.store.db.entries.take k).take k)
  rw [List.take_take, Nat.min_self]
  rfl

theorem flushed_entries (ri : RaftInstance n) :
    ri.flushed.store.db.entries = ri.store.db.entries := by
  unfold RaftInstance.flushed
  dsimp only
  split <;> rfl

namespace RaftServer

open Base Base.Handler

variable {s : Proc n} {D : Proc n → Prop} {m : AppendEntriesRequestMsg}

/-! ## The log against the request -/

theorem wp_appendEntryCheckAlreadyStored {Q : Bool → Proc n → Prop} (hD : D s)
    (hout : m.entryOutOfRange = true → Q false s)
    (hconf : s.ri.state = .follower → Conflicting s.ri m → Q false s)
    (hstored : s.ri.state = .follower → AlreadyStored s.ri m → Q true s) :
    (appendEntryCheckAlreadyStored m).wp Q D s := by
  simp only [appendEntryCheckAlreadyStored, wp_bind, wp_getRi, wp_assert, wp_ite, wp_pure]
  refine ⟨fun hf => ⟨hout, fun _ => ⟨fun hprev => ⟨fun hahead => ?_, fun _ => hD⟩, fun _ => hD⟩⟩,
    fun _ => hD⟩
  have hfol : s.ri.state = .follower := by simpa [RaftInstance.isFollower] using hf
  have hahead' : m.prevLogIndex < s.ri.newestUnsync.index := by
    have : s.ri.newestUnsync.index ≥ m.prevLogIndex + 1 := hahead
    omega
  -- the second half: the entry before the carried one
  have hlast : ∀ f : Except Errno EntryHeader → Server n Bool, (∀ rc, f (.error rc) = abort) →
      (∀ reh, f (.ok reh) = do
        fatalIf (reh.term ≠ m.prevLogTerm)
        fatalIf (m.prevIdxCrc ≠ reh.crc)
        pure true) →
      (0 < m.logTerm → ∃ re, s.ri.store.db.entries[(m.prevLogIndex + 1).toNat]? = some re ∧
        re.term = m.logTerm ∧ (m.heartbeatMsg = false → m.thisIdxCrc = re.header.crc)) →
      (m.prevLogIndex ≥ 0 →
        (entryHeaderReadByStore m.prevLogIndex).wp (fun reh s' => (f reh).wp Q D s') D s) ∧
      (¬ m.prevLogIndex ≥ 0 → Q true s) := by
    intro f herror hok hnext
    refine ⟨fun h0 => ?_, fun hneg => hstored hfol ⟨hprev, hahead', hnext, fun h => absurd h hneg⟩⟩
    refine wp_entryHeaderReadByStore hD (fun rc => by rw [herror]; exact hD) fun re _ _ hre => ?_
    simp only [hok, wp_bind, wp_fatalIf, wp_pure]
    refine ⟨fun _ => hD, fun hterm => ⟨fun _ => hD, fun hcrc => ?_⟩⟩
    exact hstored hfol ⟨hprev, hahead', hnext,
      fun _ => ⟨re, hre, not_not.mp hterm, not_not.mp hcrc⟩⟩
  refine ⟨fun hterm => ?_, fun hterm => ⟨fun h => absurd h (by simp), fun _ => ?_⟩⟩
  · refine wp_entryHeaderReadByStore hD (fun _ => hD) fun re _ _ hre => ?_
    simp only [wp_ite, wp_pure, wp_bind, wp_fatalIf]
    refine ⟨fun hne => ⟨fun _ => ?_, fun h => absurd trivial h⟩, fun heq => ⟨fun _ => hD, fun hcrc => ?_⟩⟩
    · exact hconf hfol ⟨hprev, hterm, re, hre, hne⟩
    · refine ⟨fun h => absurd h (by simp), fun _ =>
        hlast _ (fun _ => rfl) (fun _ => rfl) fun _ => ⟨re, hre, not_not.mp heq, ?_⟩⟩
      intro hb
      by_contra hne
      exact hcrc ⟨hne, hb⟩
  · exact hlast _ (fun _ => rfl) (fun _ => rfl) fun h => absurd h hterm

/-- A request that is already stored is found to be. -/
theorem wp_appendEntryCheckAlreadyStored_of_stored {Q : Bool → Proc n → Prop}
    (hc : Consistent s.ri) (hf : s.ri.state = .follower)
    (hb : appendEntryRequestBoundsCheck s.ri m = .ok ()) (hst : AlreadyStored s.ri m)
    (hQ : Q true s) : (appendEntryCheckAlreadyStored m).wp Q D s := by
  obtain ⟨-, hlow, hin⟩ := bounds_ok_iff.mp hb
  obtain ⟨hprev, hahead, hnext, hlast⟩ := hst
  have hread : ∀ {i : Int} {re : Entry} {Q : Except Errno EntryHeader → Proc n → Prop}, 0 ≤ i →
      s.ri.lowestIdx ≤ i → s.ri.store.db.entries[i.toNat]? = some re → Q (.ok re.header) s →
      (entryHeaderReadByStore i).wp Q D s := by
    intro i re Q h0 hi hre hQ
    obtain ⟨k, rfl⟩ := Int.eq_ofNat_of_zero_le h0
    exact wp_entryHeaderReadByStore_of_consistent hc hi hre hQ
  have hahead' : s.ri.currentIdx .unsync ≥ m.prevLogIndex + 1 := hahead
  simp only [appendEntryCheckAlreadyStored, wp_bind, wp_getRi, wp_assert, wp_ite, wp_pure]
  refine ⟨fun _ => ⟨fun h => absurd h (by simp [hin]), fun _ => ⟨fun _ => ⟨fun _ => ?_,
    fun h => absurd hahead' h⟩, fun h => absurd hprev h⟩⟩,
    fun h => absurd (by simp [RaftInstance.isFollower, hf]) h⟩
  refine ⟨fun hterm => ?_, fun hterm => ⟨fun h => absurd h (by simp), fun _ => ⟨fun h0 => ?_,
    fun _ => hQ⟩⟩⟩
  · obtain ⟨re, hre, hrt, hcrc⟩ := hnext hterm
    refine hread (by omega) (by omega) hre ?_
    have hrt' : re.header.term = m.logTerm := hrt
    simp only [wp_ite, wp_bind, wp_fatalIf, wp_pure]
    refine ⟨fun h => absurd hrt' h, fun _ => ⟨fun h => absurd (hcrc h.2) h.1, fun _ =>
      ⟨fun h => absurd h (by simp), fun _ => ⟨fun h0 => ?_, fun _ => hQ⟩⟩⟩⟩
    obtain ⟨re', hre', hrt', hcrc'⟩ := hlast h0
    refine hread h0 hlow hre' ?_
    simp only [wp_bind, wp_fatalIf, wp_pure]
    exact ⟨fun h => absurd hrt' h, fun _ => ⟨fun h => absurd hcrc' h, fun _ => hQ⟩⟩
  · obtain ⟨re', hre', hrt', hcrc'⟩ := hlast h0
    refine hread h0 hlow hre' ?_
    simp only [wp_bind, wp_fatalIf, wp_pure]
    exact ⟨fun h => absurd hrt' h, fun _ => ⟨fun h => absurd hcrc' h, fun _ => hQ⟩⟩

/-- A forced update sets both headers. -/
theorem wp_updateNewestEntryHdr_force {reh : EntryHeader} {Q : Unit → Proc n → Prop}
    (hidx : 0 ≤ reh.index)
    (hQ : Q () { s with ri := s.ri.withNewest reh reh }) :
    (updateNewestEntryHdr reh .all true).wp Q D s := by
  rw [updateNewestEntryHdr, if_neg (not_lt.mpr hidx)]
  simp only [wp_bind, wp_getRi, wp_whenever, wp_assert, wp_modifyRi, updateHdr, true_or, or_true,
    if_true]
  refine ⟨fun _ => ⟨fun _ => ⟨fun _ => ⟨fun _ => hQ, ?_⟩, ?_⟩, ?_⟩, ?_⟩ <;> simp

/-- The log is cut down to the entry before the carried one.  With nothing before it, nothing is
removed. -/
theorem wp_appendEntryLogPruneIfNeeded {Q : Unit → Proc n → Prop} (hc : Consistent s.ri)
    (hD : ¬ (Prunable s.ri m ∧ s.fuse = none) →
      D s ∧ ∀ fuse h h', D { s with ri := s.ri.flushed.withNewest h h', fuse := fuse })
    (hcut : ∀ fuse, 0 ≤ m.prevLogIndex → Prunable s.ri m → Q () { s with
      ri := s.ri.flushed.cutDown (m.prevLogIndex + 1).toNat, fuse := fuse })
    (hnone : ∀ fuse, m.prevLogIndex = -1 → Prunable s.ri m → Q () { s with
      ri := { s.ri.flushed with store := s.ri.flushed.store.flush }, fuse := fuse }) :
    (appendEntryLogPruneIfNeeded m).wp Q D s := by
  simp only [appendEntryLogPruneIfNeeded, wp_bind, wp_getRi, wp_assert]
  refine ⟨fun hf => ⟨fun hprev => ?_, fun h => (hD fun hp => h hp.1.prev).1⟩, fun h => (hD fun hp => h (by simp [RaftInstance.isFollower, hp.1.follower])).1⟩
  have hfol : s.ri.state = .follower := by simpa [RaftInstance.isFollower] using hf
  refine wp_backendSync hc (fun hfuse => (hD fun hp => hfuse hp.2).1) fun fuse hfuse => ?_
  simp only [wp_fatalIf, wp_whenever, wp_bind]
  refine ⟨fun h => (hD fun hp => ?_).2 fuse _ _, fun hlow => ⟨fun h0 => ?_, fun hneg => ?_⟩⟩
  · have := hp.1.commit
    have := hp.1.applied
    omega
  · -- the entry before the carried one becomes the newest
    by_cases hheld : s.ri.lowestIdx ≤ m.prevLogIndex ∧ m.prevLogIndex ≤ s.ri.newestUnsync.index
    · have hprun : Prunable s.ri m := ⟨hfol, hprev, by omega, by omega, fun _ => hheld⟩
      obtain ⟨k, hk⟩ := Int.eq_ofNat_of_zero_le h0
      have hlt : k < s.ri.store.db.entries.length := by
        have := hc.unsync_index
        omega
      have hget : s.ri.store.db.entries[k]? = some s.ri.store.db.entries[k] :=
        List.getElem?_eq_getElem hlt
      set re := s.ri.store.db.entries[k] with hre
      have hidx : re.header.index = k := (hc.entries.entry k _ hget).index
      have hlast : lastHeader (s.ri.flushed.store.db.entries.take (k + 1)) = re.header := by
        rw [flushed_entries]
        exact EntriesOk.lastHeader_take_succ hget
      rw [hk]
      refine wp_entryHeaderReadByStore_of_consistent hc.flushed (by rw [← hk]; exact hheld.1)
        (by rw [flushed_entries]; exact hget) ?_
      refine wp_updateNewestEntryHdr_force (by omega) ?_
      refine wp_logTruncate (m := k + 1) ?_ (fun hfuse' => (hD fun hp => ?_).2 fuse _ _) ?_
      · change re.header.index = _
        rw [hidx]
        omega
      · exact hfuse' (hfuse hp.2)
      · intro fuse' _
        have hfin := hcut fuse' h0 hprun
        have hk1 : (m.prevLogIndex + 1).toNat = k + 1 := by omega
        rw [hk1, RaftInstance.cutDown, hlast] at hfin
        exact hfin
    · refine wp_entryHeaderReadByStore ?_ (fun _ => ?_) fun re _ hlow' hre => absurd ⟨hlow', ?_⟩ hheld
      · exact (hD fun hp => hheld (hp.1.held h0)).2 fuse _ _
      · exact (hD fun hp => hheld (hp.1.held h0)).2 fuse _ _
      · rw [flushed_entries] at hre
        have := (List.getElem?_eq_some_iff.mp hre).1
        have := hc.unsync_index
        omega
  · -- nothing is cut: the synced header is still that of the newest entry
    have hprun : Prunable s.ri m := ⟨hfol, hprev, by omega, by omega, fun h => absurd h hneg⟩
    have hidx : s.ri.flushed.newestSync.index = s.ri.store.db.entries.length - 1 := by
      rw [hc.flushed_newestSync, hc.unsync_index]
    refine wp_logTruncate hidx (fun hfuse' => (hD fun hp => hfuse' (hfuse hp.2)).2 fuse _ _) ?_
    intro fuse' _
    have hfin := hnone fuse' (by omega) hprun
    have hsame : s.ri.flushed.store.db.truncate s.ri.store.db.entries.length =
        s.ri.flushed.store.db := by
      rw [Db.truncate, ← flushed_entries, List.take_length]
    rw [hsame]
    exact hfin

/-! ## The comparison -/

/-- `raft_server_append_entry_log_prepare_and_check`: the request is out of bounds, already
stored, or compared with a log that ends at or before the entry it names. -/
theorem wp_appendEntryLogPrepareAndCheck {Q : Except Errno Unit → Proc n → Prop}
    (hc : Consistent s.ri) (hD : D s)
    (hDcut : ∀ fuse h h', D { s with ri := s.ri.flushed.withNewest h h', fuse := fuse })
    (hDnone : ∀ fuse, D { s with
      ri := { s.ri.flushed with store := s.ri.flushed.store.flush }, fuse := fuse })
    (hbounds : ∀ rc, appendEntryRequestBoundsCheck s.ri m = .error rc → Q (.error rc) s)
    (hstored : appendEntryRequestBoundsCheck s.ri m = .ok () → s.ri.state = .follower →
      AlreadyStored s.ri m → Q (.error .EALREADY) s)
    (hcut : ∀ fuse, appendEntryRequestBoundsCheck s.ri m = .ok () → 0 ≤ m.prevLogIndex →
      Prunable s.ri m → Conflicting s.ri m →
      ∀ rc, rc = (if (lastHeader (s.ri.store.db.entries.take (m.prevLogIndex + 1).toNat)).term ≠
        m.prevLogTerm then .error .EEXIST else .ok ()) → Q rc { s with
        ri := s.ri.flushed.cutDown (m.prevLogIndex + 1).toNat, fuse := fuse })
    (hkeep : appendEntryRequestBoundsCheck s.ri m = .ok () →
      s.ri.newestUnsync.index ≤ m.prevLogIndex →
      ∀ rc, rc = (if s.ri.newestUnsync.index < m.prevLogIndex then .error .ERANGE
        else if s.ri.newestUnsync.term ≠ m.prevLogTerm then .error .EEXIST else .ok ()) → Q rc s) :
    (appendEntryLogPrepareAndCheck m).wp Q D s := by
  rw [appendEntryLogPrepareAndCheck, wp_bind, wp_getRi]
  cases hb : appendEntryRequestBoundsCheck s.ri m with
  | error rc => exact hbounds rc hb
  | ok u =>
    have hin : m.entryOutOfRange = false := (bounds_ok_iff.mp hb).2.2
    simp only [wp_ite]
    refine ⟨fun hahead => ?_, fun hbehind => ?_⟩
    · simp only [followerIndexAheadOfLeader, wp_bind]
      refine wp_appendEntryCheckAlreadyStored hD (fun h => absurd h (by simp [hin])) ?_ ?_
      · intro _ hconf
        simp only [wp_ite]
        refine ⟨fun h => absurd h (by simp), fun _ => ?_⟩
        simp only [wp_bind]
        refine wp_appendEntryLogPruneIfNeeded hc (fun _ => ⟨hD, hDcut⟩) ?_ ?_
        · intro fuse h0 hprun
          have hlen : (m.prevLogIndex + 1).toNat ≤ s.ri.flushed.store.db.entries.length := by
            have := hc.unsync_index
            rw [flushed_entries]
            omega
          have hidx : (lastHeader (s.ri.flushed.store.db.entries.take
              (m.prevLogIndex + 1).toNat)).index = m.prevLogIndex := by
            rw [hc.flushed.entries.lastHeader_take_index hlen]
            omega
          simp only [hasUnsyncedEntries, wp_bind, wp_getRi, wp_fatalIf, wp_pure, wp_assert,
            compareWithLeader]
          refine ⟨fun h => absurd rfl h.1, fun _ => ⟨fun _ => ⟨fun _ => ?_, fun h => ?_⟩, fun h => ?_⟩⟩
          · refine hcut fuse hb h0 hprun hconf _ ?_
            change (if (lastHeader _).index < m.prevLogIndex then _ else _) = _
            rw [if_neg (by rw [hidx]; omega)]
            rw [RaftInstance.cutDown, flushed_entries]
          · exact absurd (le_of_eq hidx) h
          · exact absurd (by simp [RaftInstance.cutDown]) h
        · intro fuse hneg _
          refine wp_hasUnsyncedEntries (hDnone fuse) ?_
          simp only [wp_assert, wp_bind, wp_getRi, wp_pure, compareWithLeader]
          refine ⟨fun _ => ⟨fun hle => ?_, fun _ => hDnone fuse⟩, fun _ => hDnone fuse⟩
          -- the log is not empty, so its newest entry is past the one the request names
          have : s.ri.flushed.newestSync.index ≤ m.prevLogIndex := hle
          rw [hc.flushed_newestSync] at this
          omega
      · intro hfol hst
        simp only [if_true, wp_bind, wp_getRi, wp_pure]
        exact hstored hb hfol hst
    · simp only [compareWithLeader, wp_bind, wp_assert, wp_pure]
      refine ⟨fun hle => hkeep hb hle _ rfl, fun h => absurd (not_lt.mp hbehind) h⟩

end RaftServer

end NiovaRaft
