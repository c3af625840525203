import NiovaRaft.Model.Node
import NiovaRaft.Spec.Sender
import NiovaRaft.Spec.Startup
import NiovaRaft.Spec.Writes

/-!
# What a request says about the leader's log

A request names the term and the checksum of two entries: of the one before the next index of the
peer, which the leader caches in the peer's slot, and of the one at the next index, which it reads
for each request.  The first is read when the slot does not have it.  A read that finds the entry
compacted leaves a zero, and as no term is negative it is not repeated.  As long as the entry at the
next index is compacted too, all requests are marked.  Where only the entry before it is, the next
request is built from the zero.  `LosesPrev` is a slot for which the sender would read such an
entry.
-/

namespace NiovaRaft

open Base Base.Handler Relation

variable {n : Nat}

/-- The entry of a server's log at an index, compacted or not.  The log ends at the newest entry. -/
def RaftInstance.logEntry (ri : RaftInstance n) (idx : Int) : Option Entry :=
  if 0 ≤ idx ∧ idx ≤ ri.newestUnsync.index then ri.store.db.entries[idx.toNat]? else none

/-- A request names entries of the leader's log.  There is none before the first. -/
structure FaithfulTo (ri : RaftInstance n) (m : AppendEntriesRequestMsg) : Prop where
  prev : 0 ≤ m.prevLogIndex → ∃ re, ri.logEntry m.prevLogIndex = some re ∧
    m.prevLogTerm = re.header.term ∧ m.prevIdxCrc = re.header.crc
  first : m.prevLogIndex = -1 → m.prevLogTerm = 0
  next : ∀ re, ri.logEntry (m.prevLogIndex + 1) = some re →
    m.logTerm = re.header.term ∧ m.thisIdxCrc = re.header.crc

/-- The request that a leader builds for a peer, before its entry goes into it. -/
def RaftServer.builtRequest (ri : RaftInstance n) (peer : Fin n) (heartbeat : Bool) :
    Option AppendEntriesRequestMsg :=
  match RaftServer.leaderInitAppendEntryMsg peer heartbeat ⟨ri, [], [], none⟩ with
  | .ok raerq _ => some raerq.1
  | .abort _ => none

/-- Every request that would be built for a peer is faithful or marked. -/
def BuildsFaithful (ri : RaftInstance n) : Prop :=
  ∀ q, q ≠ ri.self → ∀ heartbeat m, RaftServer.builtRequest ri q heartbeat = some m →
    m.entryOutOfRange = false → FaithfulTo ri m

/-- Every request that is sent in an event is faithful or marked. -/
def SendsFaithful [Externals] (x : Node n) (mail : List (Packet n)) (e : Event n) : Prop :=
  ∀ pkt ∈ ((x.cluster mail).step e).net.drop mail.length, ∀ m,
    pkt.msg = .appendEntriesRequest m → m.entryOutOfRange = false → FaithfulTo x.ri m

/-- The slot does not cache the entry before its next index, and that one is compacted, but no entry
at the next index is. -/
def RaftInstance.LosesPrev (ri : RaftInstance n) (rfi : FollowerInfo) : Prop :=
  0 < rfi.nextIdx ∧ rfi.prevIdxTerm < 0 ∧ rfi.nextIdx ≤ ri.lowestIdx ∧
    (rfi.nextIdx ≤ ri.newestUnsync.index → ri.lowestIdx ≤ rfi.nextIdx)

instance (ri : RaftInstance n) (rfi : FollowerInfo) : Decidable (ri.LosesPrev rfi) :=
  inferInstanceAs (Decidable (_ ∧ _))

/-- A sender that runs loses no entry. -/
def KeepsPrev (x : Node n) : NodeEvent n → Prop
  | .handle _ e => x.ri.state = .leader → e.sends = true →
      ∀ q, q ≠ x.ri.self → ¬ x.ri.LosesPrev (x.ri.followerInfo q)
  | .stage _ | .finish => True

instance decidableKeepsPrev (x : Node n) : ∀ e, Decidable (KeepsPrev x e)
  | .handle _ _ => inferInstanceAs (Decidable (_ → _))
  | .stage _ | .finish => .isTrue trivial

/-! ## What a leader keeps -/

theorem RaftInstance.logEntry_of_getElem {ri : RaftInstance n} {idx : Int} {re : Entry}
    (h0 : 0 ≤ idx) (hle : idx ≤ ri.newestUnsync.index) (hre : ri.store.db.entries[idx.toNat]? = some re) :
    ri.logEntry idx = some re := by
  rw [RaftInstance.logEntry, if_pos ⟨h0, hle⟩, hre]

theorem RaftInstance.le_of_logEntry {ri : RaftInstance n} {idx : Int} {re : Entry}
    (h : ri.logEntry idx = some re) : idx ≤ ri.newestUnsync.index := by
  rw [RaftInstance.logEntry] at h
  split at h
  · rename_i hrange
    exact hrange.2
  · cases h

/-- What a slot caches is the entry before its next index, or the entry at it is compacted. -/
def SlotCached (ri : RaftInstance n) (rfi : FollowerInfo) : Prop :=
  0 ≤ rfi.prevIdxTerm → 0 < rfi.nextIdx →
    (∃ re, ri.logEntry (rfi.nextIdx - 1) = some re ∧ re.header.term = rfi.prevIdxTerm ∧
      re.header.crc = rfi.prevIdxCrc) ∨
    (rfi.nextIdx < ri.lowestIdx ∧ rfi.nextIdx ≤ ri.newestUnsync.index)

/-- The newest entry and the slots are as they should be, also after a restart. -/
structure CachesKept (ri : RaftInstance n) : Prop where
  newest : ri.newestUnsync.HeldIn ri.store.db
  slots : ri.state = .leader → ∀ q, q ≠ ri.self → SlotCached ri (ri.followerInfo q)

/-- More may have been appended and compacted meanwhile. -/
theorem SlotCached.mono {ri ri' : RaftInstance n} {rfi : FollowerInfo} (h : SlotCached ri rfi)
    (hlog : ∀ idx re, ri.logEntry idx = some re → ri'.logEntry idx = some re)
    (hlow : ri.lowestIdx ≤ ri'.lowestIdx)
    (hnewest : ri.newestUnsync.index ≤ ri'.newestUnsync.index) : SlotCached ri' rfi := by
  intro hprev hpos
  rcases h hprev hpos with ⟨re, hre, hterm⟩ | ⟨hlt, hle⟩
  · exact .inl ⟨re, hlog _ re hre, hterm⟩
  · exact .inr ⟨hlt.trans_le hlow, hle.trans hnewest⟩

theorem slotCached_of_neg {ri : RaftInstance n} {rfi : FollowerInfo} (h : rfi.prevIdxTerm < 0) :
    SlotCached ri rfi := fun hge => absurd hge (not_le.mpr h)

namespace CachesKept

variable {ri ri' : RaftInstance n}

/-- A change that leaves the log, the role and the slots. -/
theorem congr (h : CachesKept ri) (hentries : ri'.store.db.entries = ri.store.db.entries)
    (hnewest : ri'.newestUnsync = ri.newestUnsync) (hself : ri'.self = ri.self)
    (hlead : ri'.state = .leader → ri.state = .leader ∧ ri'.leader = ri.leader)
    (hlow : ri.lowestIdx ≤ ri'.lowestIdx) : CachesKept ri' := by
  refine ⟨?_, fun hl q hq => ?_⟩
  · rw [EntryHeader.HeldIn, hnewest, hentries]
    exact h.newest
  · obtain ⟨hl, hleader⟩ := hlead hl
    rw [hself] at hq
    have hslot := h.slots hl q hq
    rw [RaftInstance.followerInfo, hleader]
    refine hslot.mono (fun idx re hre => ?_) hlow (by rw [hnewest])
    rw [RaftInstance.logEntry, hnewest, hentries]
    exact hre

/-- A slot is changed. -/
theorem setSlot (h : CachesKept ri) (q : Fin n) {rfi : FollowerInfo}
    (hslot : ri.state = .leader → q ≠ ri.self → SlotCached ri rfi) :
    CachesKept (ri.setFollowerInfo q rfi) := by
  refine ⟨h.newest, fun hl q' hq' => ?_⟩
  by_cases hq : q' = q
  · subst hq
    rw [RaftInstance.followerInfo_set]
    exact hslot hl hq'
  · rw [RaftInstance.followerInfo_set_of_ne _ _ hq]
    exact h.slots hl q' hq'

/-- The next entry is stored. -/
theorem storeEntry (h : CachesKept ri) {re : Entry} (hidx : 0 ≤ ri.newestUnsync.index + 1)
    (hre : re.header.index = ri.newestUnsync.index + 1) : CachesKept (ri.storeEntry re) := by
  have hget := h.newest.getElem_write hidx hre
  refine ⟨fun _ => ⟨re, ?_, rfl⟩, fun hl q hq => ?_⟩
  · show (ri.store.db.write re).entries[re.header.index.toNat]? = some re
    rw [hget, if_pos (by rw [hre])]
  · have hnewest : ri.newestUnsync.index ≤ re.header.index := by omega
    refine (h.slots hl q hq).mono (fun idx re' hre' => ?_) (le_refl _) hnewest
    rw [RaftInstance.logEntry] at hre' ⊢
    split at hre'
    · rename_i hrange
      have hlast : idx ≤ re.header.index := by omega
      show (if 0 ≤ idx ∧ idx ≤ re.header.index then (ri.store.db.write re).entries[idx.toNat]?
        else none) = some re'
      rw [if_pos ⟨hrange.1, hlast⟩, hget, if_neg (by omega)]
      exact hre'
    · cases hre'

variable [Externals]

/-- One write of a handler. -/
theorem update {cause : Option (Packet n)} (h : CachesKept ri) (hup : Update cause ri ri') :
    CachesKept ri' := by
  cases hup with
  | role state reason csn cand hstate =>
    refine h.congr rfl rfl rfl (fun hl => ⟨?_, rfl⟩) (le_refl _)
    rcases hstate with hne | heq
    · exact absurd hl hne
    · exact heq.symm.trans hl
  | lead hsync hcause =>
    refine ⟨h.newest, fun _ q _ => ?_⟩
    -- the slots start out behind the newest entry, which is synced
    rintro - hpos
    have h0 : 0 ≤ ri.newestUnsync.index := by
      rw [← hsync]
      exact Int.lt_add_one_iff.mp hpos
    obtain ⟨re, hre, hheader⟩ := h.newest h0
    refine .inl ⟨re, ?_, ?_, ?_⟩
    · show RaftInstance.logEntry _ (ri.newestSync.index + 1 - 1) = some re
      rw [Int.add_sub_cancel, hsync]
      exact RaftInstance.logEntry_of_getElem h0 (le_refl _) hre
    · show re.header.term = ri.newestSync.term
      rw [hsync, hheader]
    · show re.header.crc = ri.newestSync.crc
      rw [hsync, hheader]
  | slot q rfi hslot =>
    refine h.setSlot q fun hl hq => ?_
    have hold := h.slots hl q hq
    cases hslot with
    | self hself => exact absurd hself hq
    | accept sli => exact hold
    | updateSli m hreply hsli =>
      unfold RaftServer.FollowerInfo.updateSli
      split
      · exact slotCached_of_neg (by show (-1 : Int) < 0; omega)
      · exact hold
    | rewind m hreply =>
      unfold RaftServer.FollowerInfo.rewind
      split
      · exact slotCached_of_neg (by show (-1 : Int) < 0; omega)
      · exact hold
    | advance m hreply hsli hprev =>
      unfold RaftServer.FollowerInfo.advance
      split
      · exact hold
      · exact slotCached_of_neg (by show (-1 : Int) < 0; omega)
  | recovery | header | flush | synced | appliedSynced | commit =>
    exact h.congr rfl rfl rfl (fun hl => ⟨hl, rfl⟩) (le_refl _)
  | entry term data sizes marker hterm hidx hsizes hfits => exact h.storeEntry hidx rfl
  | newest re hcommit happlied hread hstate =>
    refine ⟨fun _ => ⟨re, hread, rfl⟩, fun hl => ?_⟩
    exact absurd (hstate.symm.trans hl) (by simp)
  | truncate hidx hcommit happlied hnewest hstate =>
    exact ⟨h.newest.truncate hnewest, fun hl => absurd (hstate.symm.trans hl) (by simp)⟩

/-- An event that runs no sender. -/
theorem keeps {c : Cluster n} {e : Event n} (hquiet : ¬ c.RunsSender e) :
    Cluster.Keeps c e CachesKept where
  write := fun _ _ hri hup => hri.update hup
  refresh := fun hruns => absurd hruns hquiet
  apply := Cluster.keeps_apply fun ri la batch hri _ _ _ _ => by
    refine hri.congr ?_ rfl rfl (fun hl => ⟨hl, rfl⟩) (le_refl _)
    unfold RaftInstance.recordApplied
    split <;> rfl
  compact := Cluster.keeps_compact
    (fun ri hri _ _ => hri.congr rfl rfl rfl (fun hl => ⟨hl, rfl⟩) (le_refl _))
    fun ri keep hri _ hlow => hri.congr rfl rfl rfl (fun hl => ⟨hl, rfl⟩) hlow.le

end CachesKept

/-- A started server leads nobody yet. -/
theorem CachesKept.started (p : Fin n) (o : Options) (d : Db n) :
    CachesKept (RaftServer.instanceRun p o d) := by
  have hloaded := RaftServer.instanceRun_loaded p o d
  exact ⟨(RaftServer.instanceRun_scanned p o d).1, fun hl => absurd hl hloaded.state⟩

/-! ## The refresh of a slot -/

/-- A request that is prepared from a slot that caches what it should. -/
theorem PreparedFrom.faithful {ri : RaftInstance n} {rfi : FollowerInfo}
    {m : AppendEntriesRequestMsg} (hm : PreparedFrom ri rfi m) (h : SlotCached ri rfi) (hin : m.entryOutOfRange = false) :
    FaithfulTo ri m := by
  obtain ⟨hprev, hfirst, hheld⟩ := hm.refreshed hin
  obtain ⟨hprevTerm, hprevCrc⟩ := hm.prev hin
  obtain ⟨hterm, hcrc⟩ := hm.next hin
  have hidx := hm.prevLogIndex
  refine ⟨fun h0 => ?_, fun hnone => ?_, fun re hre => ?_⟩
  · rw [hidx, hprevTerm, hprevCrc]
    rcases h hprev (by omega) with ⟨re, hre, hterm', hcrc'⟩ | ⟨hlt, hle⟩
    · exact ⟨re, hre, hterm'.symm, hcrc'.symm⟩
    · exact absurd (hheld hle).1 (not_le.mpr hlt)
  · rw [hprevTerm]
    exact hfirst (by omega)
  · have hnext : m.prevLogIndex + 1 = rfi.nextIdx := by omega
    rw [hnext] at hre
    obtain ⟨-, re', hre', hterm', hcrc'⟩ := hheld (RaftInstance.le_of_logEntry hre)
    rw [RaftInstance.logEntry] at hre
    split at hre
    · cases hre'.symm.trans hre
      exact ⟨hterm.trans hterm'.symm, hcrc.trans hcrc'.symm⟩
    · cases hre

/-- What a request names does not depend on the slots. -/
theorem FaithfulTo.of_sameButSlots {ri ri' : RaftInstance n} {m : AppendEntriesRequestMsg}
    (h : FaithfulTo ri' m) (hsame : SameButSlots ri ri') : FaithfulTo ri m := by
  obtain ⟨hprev, hfirst, hnext⟩ := h
  rw [hsame] at hprev hnext
  exact ⟨hprev, hfirst, hnext⟩

namespace RaftServer

open RaftInstance

variable {s : Proc n} {peer : Fin n}

/-- Only the slot of a peer has changed, and it caches what it should. -/
structure Refreshes (peer : Fin n) (s s' : Proc n) : Prop where
  out : s'.out = s.out
  slot : ∃ rfi, s'.ri = s.ri.setFollowerInfo peer rfi ∧ 0 ≤ rfi.prevIdxTerm ∧ SlotCached s.ri rfi

/-- The second read does not touch what is cached. -/
theorem wp_refreshCurrent_cached (h : SlotCached s.ri (s.ri.followerInfo peer))
    (hprev : 0 ≤ (s.ri.followerInfo peer).prevIdxTerm) :
    (refreshCurrent peer).wp (fun _ s' => Refreshes peer s s') (fun d => d.out = s.out) s := by
  refine wp_refreshCurrent rfl (fun _ => ?_) (fun re _ _ _ => ?_) fun rc _ _ => ?_
  · exact ⟨rfl, _, (setFollowerInfo_self _ _).symm, hprev, h⟩
  · exact ⟨rfl, _, rfl, hprev, h⟩
  · exact ⟨rfl, _, rfl, hprev, h⟩

/-- What the first part of a refresh writes is right, and no entry is lost by it. -/
theorem beforeRefresh_cached {ri : RaftInstance n} {rfi : FollowerInfo} (h : SlotCached ri rfi) :
    SlotCached ri (FollowerInfo.beforeRefresh rfi) ∧
      (¬ ri.LosesPrev rfi → ¬ ri.LosesPrev (FollowerInfo.beforeRefresh rfi)) := by
  unfold FollowerInfo.beforeRefresh
  split
  · rename_i hzero
    refine ⟨fun _ hpos => ?_, fun _ hlost => ?_⟩
    · exact absurd hzero (ne_of_gt hpos)
    · exact absurd hzero (ne_of_gt hlost.1)
  · exact ⟨h, id⟩

/-- A refresh leaves the slot as it should be, unless it fails.  It may fail because an entry is
compacted, or in a way that is fatal to the caller. -/
theorem wp_refreshFollowerPrevLogTerm_cached (h : SlotCached s.ri (s.ri.followerInfo peer)) :
    (refreshFollowerPrevLogTerm peer).wp (fun rc s' => s'.out = s.out ∧
        (rc = .ok () ∨ rc = .error .ERANGE ∧ ¬ s.ri.LosesPrev (s.ri.followerInfo peer) →
          Refreshes peer s s')) (fun d => d.out = s.out) s := by
  simp only [refreshFollowerPrevLogTerm, wp_bind, wp_getRi, wp_assert, wp_modifyRi]
  refine ⟨fun _ => ⟨fun _ => ?_, fun _ => trivial⟩, fun _ => trivial⟩
  obtain ⟨hcached, hkept⟩ := beforeRefresh_cached h
  generalize FollowerInfo.beforeRefresh (s.ri.followerInfo peer) = rfi at hcached hkept
  have hcurrent : ∀ rfi', 0 ≤ rfi'.prevIdxTerm → SlotCached s.ri rfi' →
      (refreshCurrent peer).wp (fun rc s' => s'.out = s.out ∧
          (rc = .ok () ∨ rc = .error .ERANGE ∧ ¬ s.ri.LosesPrev (s.ri.followerInfo peer) →
            Refreshes peer s s')) (fun d => d.out = s.out)
        { s with ri := s.ri.setFollowerInfo peer rfi' } := by
    intro rfi' hprev hslot
    have hwp := @wp_refreshCurrent_cached n { s with ri := s.ri.setFollowerInfo peer rfi' } peer
    simp only [followerInfo_set] at hwp
    refine wp_mono (hwp hslot hprev) (fun rc s' hs' => ?_) fun _ => id
    refine ⟨hs'.out, fun _ => ⟨hs'.out, ?_⟩⟩
    obtain ⟨rfi'', hri, hprev', hslot'⟩ := hs'.slot
    exact ⟨rfi'', by rw [hri, setFollowerInfo_set], hprev', hslot'⟩
  refine wp_refreshPrev (s := { s with ri := _ }) rfl ?_ ?_ ?_
  · simp only [followerInfo_set]
    intro hprev
    exact hcurrent rfi hprev hcached
  · simp only [followerInfo_set, setFollowerInfo_set]
    intro re _ hpos _ hle hre hterm
    refine hcurrent _ hterm fun _ _ => .inl ⟨re, ?_, rfl, rfl⟩
    exact logEntry_of_getElem (by omega) hle hre
  · simp only [followerInfo_set, setFollowerInfo_set, wp_pure]
    intro rc hneg hrc
    refine ⟨trivial, fun hrange => ?_⟩
    rcases hrange with hok | ⟨hrange, hlost⟩
    · cases hok
    · cases hrange
      have hcompacted := hrc.lt_lowest
      refine ⟨rfl, _, rfl, le_refl _, fun _ hpos => .inr ?_⟩
      have hpos : 0 < rfi.nextIdx := hpos
      have hcompacted : rfi.nextIdx - 1 < s.ri.lowestIdx := hcompacted
      show rfi.nextIdx < s.ri.lowestIdx ∧ rfi.nextIdx ≤ s.ri.newestUnsync.index
      by_contra hno
      refine hkept hlost ⟨hpos, hneg, by omega, fun hle => ?_⟩
      omega

/-- A request that is not marked is faithful, and the slot it is built from goes on as it was. -/
theorem wp_leaderInitAppendEntryMsg_cached {heartbeat : Bool}
    (h : SlotCached s.ri (s.ri.followerInfo peer)) :
    (leaderInitAppendEntryMsg peer heartbeat).wp (fun r s' => s'.out = s.out ∧
        (r.1.entryOutOfRange = false ∨ ¬ s.ri.LosesPrev (s.ri.followerInfo peer) →
          Refreshes peer s s')) (fun d => d.out = s.out) s := by
  rw [leaderInitAppendEntryMsg, wp_bind]
  refine wp_mono (wp_refreshFollowerPrevLogTerm_cached h) (fun rc s' hs' => ?_) fun _ => id
  obtain ⟨hout, hslot⟩ := hs'
  simp only [wp_bind, wp_assert, wp_getRi, wp_pure]
  refine ⟨fun hrc => ⟨fun _ => ⟨hout, fun hwhen => hslot ?_⟩, fun _ => hout⟩, fun _ => hout⟩
  rcases hrc with hok | hrange
  · exact .inl (eq_ok_of_isOk hok)
  · rcases hwhen with hin | hkept
    · exact absurd hin (by simp [hrange, Except.isOk, Except.toBool])
    · exact .inr ⟨hrange, hkept⟩

/-- What a leader builds is faithful, or marked. -/
theorem faithful_of_built {heartbeat stale : Bool} {m : AppendEntriesRequestMsg} {s' : Proc n}
    (h : SlotCached s.ri (s.ri.followerInfo peer))
    (hres : leaderInitAppendEntryMsg peer heartbeat s = .ok (m, stale) s')
    (hin : m.entryOutOfRange = false) : FaithfulTo s.ri m := by
  obtain ⟨-, hslot⟩ := wp_of_ok hres (wp_leaderInitAppendEntryMsg_cached h)
  obtain ⟨-, hprep, -, -⟩ := wp_of_ok hres wp_leaderInitAppendEntryMsg
  obtain ⟨rfi, hri, -, hcached⟩ := (hslot (.inl hin)).slot
  rw [hri, followerInfo_set] at hprep
  exact (hprep.faithful hcached hin).of_sameButSlots rfl

/-! ## A round of the sender -/

/-- All requests that are not marked are faithful. -/
def FaithfulRequests (ri : RaftInstance n) (out : List (Fin n × RpcMsg n)) : Prop :=
  ∀ x ∈ out, ∀ m, x.2 = .appendEntriesRequest m → m.entryOutOfRange = false → FaithfulTo ri m

/-- A sender that began on `ri` is on its way. -/
structure Round (ri : RaftInstance n) (s : Proc n) : Prop where
  same : SameButSlots ri s.ri
  slots : ∀ q, q ≠ ri.self →
    SlotCached ri (s.ri.followerInfo q) ∧ ¬ ri.LosesPrev (s.ri.followerInfo q)
  out : FaithfulRequests ri s.out

theorem FaithfulRequests.concat {ri : RaftInstance n} {out : List (Fin n × RpcMsg n)}
    (h : FaithfulRequests ri out) {q : Fin n} {m : AppendEntriesRequestMsg}
    (hm : m.entryOutOfRange = false → FaithfulTo ri m) :
    FaithfulRequests ri (out ++ [(q, .appendEntriesRequest m)]) := by
  intro x hx m' hm' hin
  rcases List.mem_append.mp hx with hx | hx
  · exact h x hx m' hm' hin
  · obtain rfl := List.mem_singleton.mp hx
    cases hm'
    exact hm hin

variable {ri : RaftInstance n}

/-- A slot is written. -/
theorem Round.setSlot (h : Round ri s) {q : Fin n} {rfi : FollowerInfo}
    (hslot : q ≠ ri.self → SlotCached ri rfi ∧ ¬ ri.LosesPrev rfi) {s' : Proc n}
    (hri : s'.ri = s.ri.setFollowerInfo q rfi) (hout : s'.out = s.out) : Round ri s' := by
  refine ⟨?_, fun q' hq' => ?_, by rw [hout]; exact h.out⟩
  · rw [hri]
    exact h.same.trans rfl
  · rw [hri]
    by_cases hq : q' = q
    · subst hq
      rw [followerInfo_set]
      exact hslot hq'
    · rw [followerInfo_set_of_ne _ _ hq]
      exact h.slots q' hq'

theorem Round.cached (h : Round ri s) (hne : peer ≠ ri.self) :
    SlotCached s.ri (s.ri.followerInfo peer) ∧ ¬ s.ri.LosesPrev (s.ri.followerInfo peer) := by
  have hslot := h.slots peer hne
  generalize s.ri.followerInfo peer = rfi at hslot ⊢
  rw [h.same]
  exact hslot

theorem wp_appendEntryShouldSendToFollower_round {clock : SendClock n} (h : Round ri s)
    (hne : peer ≠ ri.self) : (appendEntryShouldSendToFollower clock peer).wp
      (fun _ s' => Round ri s') (fun d => FaithfulRequests ri d.out) s := by
  rw [appendEntryShouldSendToFollower, wp_bind, wp_getRi]
  cases clock.sinceLastUnacked peer with
  | none => exact h
  | some since =>
    simp only [wp_bind, wp_modifyRi, wp_ite, wp_assert, wp_pure]
    have hround : ∀ until', Round ri { s with ri := s.ri.setFollowerInfo peer {
        s.ri.followerInfo peer with aeSendsWaitUntil := until' } } := by
      intro until'
      refine h.setSlot (fun _ => ?_) rfl rfl
      exact h.slots peer hne
    exact ⟨fun _ => ⟨fun _ => hround _, fun _ => h.out⟩, fun _ => hround _⟩

section

variable [Externals]

theorem wp_appendEntrySendTo_round {my : Int} {heartbeat : Bool} (h : Round ri s)
    (hne : peer ≠ ri.self) : (appendEntrySendTo my peer heartbeat).wp (fun _ s' => Round ri s')
      (fun d => FaithfulRequests ri d.out) s := by
  obtain ⟨hcached, hkept⟩ := h.cached hne
  rw [appendEntrySendTo, wp_bind]
  refine wp_intro (fun r s' hres => ?_) fun d hres => ?_
  swap
  · have hout := wp_of_abort hres (wp_leaderInitAppendEntryMsg_cached hcached)
    rw [hout]
    exact h.out
  obtain ⟨m, stale⟩ := r
  obtain ⟨hout, hslot⟩ := wp_of_ok hres (wp_leaderInitAppendEntryMsg_cached hcached)
  have hround : Round ri s' := by
    obtain ⟨rfi, hri, hprev, hcached'⟩ := (hslot (.inr hkept)).slot
    refine h.setSlot (fun _ => ⟨?_, fun hlost => absurd hlost.2.1 (not_lt.mpr hprev)⟩) hri hout
    rw [h.same] at hcached'
    exact hcached'
  have hm : m.entryOutOfRange = false → FaithfulTo ri m := fun hin =>
    (faithful_of_built hcached hres hin).of_sameButSlots h.same
  -- a request with an entry and one without say the same about the log
  have hsent : ∀ m' : AppendEntriesRequestMsg, m'.entryOutOfRange = m.entryOutOfRange →
      (FaithfulTo ri m → FaithfulTo ri m') →
      Round ri { s' with out := s'.out ++ [(peer, .appendEntriesRequest m')] } := by
    intro m' hrange hsame
    refine ⟨hround.same, hround.slots, hround.out.concat fun hin => ?_⟩
    exact hsame (hm (hrange ▸ hin))
  simp only [wp_bind, wp_assert, wp_fatalIf, wp_ite, wp_sendMsg_some, wp_pure]
  refine ⟨fun _ => ⟨fun _ => hround.out, fun _ => ⟨fun _ => ?_, fun _ => ?_⟩⟩, fun _ => hround.out⟩
  · refine wp_attachEntry hround.out (fun _ => hround) fun re hre => ?_
    simp only [wp_bind, wp_sendMsg_some, wp_pure]
    exact hsent _ rfl fun hf => ⟨hf.prev, hf.first, hf.next⟩
  · exact hsent _ rfl fun hf => ⟨hf.prev, hf.first, hf.next⟩

theorem wp_appendEntrySenderLoop_round {clock : SendClock n} {my : Int} (peers : List (Fin n))
    (heartbeat : Bool) (h : Round ri s) : (appendEntrySenderLoop clock my peers heartbeat).wp
      (fun _ s' => Round ri s') (fun d => FaithfulRequests ri d.out) s := by
  induction peers generalizing heartbeat s with
  | nil => exact h
  | cons peer peers ih =>
    simp only [appendEntrySenderLoop, wp_bind, wp_getRi, wp_ite]
    refine ⟨fun _ => ih _ h, fun hne => ?_⟩
    rw [h.same] at hne
    refine wp_mono (wp_appendEntryShouldSendToFollower_round h hne) (fun send s' hs' => ?_)
      fun _ => id
    refine ⟨fun _ => ih _ hs', fun _ => ?_⟩
    exact wp_mono (wp_appendEntrySendTo_round hs' hne) (fun _ _ hs'' => ih _ hs'') fun _ => id

theorem wp_appendEntrySender_round {clock : SendClock n} {heartbeat : Bool} (h : Round ri s) :
    (appendEntrySender clock heartbeat).wp (fun _ s' => Round ri s')
      (fun d => FaithfulRequests ri d.out) s := by
  simp only [appendEntrySender, wp_bind, wp_getRi, wp_whenever]
  exact ⟨fun _ => wp_appendEntrySenderLoop_round _ _ h, fun _ => h⟩

end

end RaftServer

/-! ## Runs -/

section

variable [Externals] {x : Node n} {mail : List (Packet n)} {e : Event n}

omit [Externals] in
theorem CachesKept.of_round {s : Proc n} (h : CachesKept x.ri) (hs : RaftServer.Round x.ri s) :
    CachesKept s.ri := by
  refine ⟨?_, fun _ q hq => ?_⟩
  · rw [hs.same]
    exact h.newest
  · rw [hs.same] at hq
    exact (hs.cached hq).1

/-- The handler of an event sends faithful requests, and the slots stay as they should be. -/
theorem wp_handler_faithful (h : CachesKept x.ri) (hok : KeepsPrev x (.handle mail e)) :
    ((x.cluster mail).handler e).wp
      (fun _ s => CachesKept s.ri ∧ RaftServer.FaithfulRequests x.ri s.out)
      (fun d => RaftServer.FaithfulRequests x.ri d.out) ((x.cluster mail).proc e) := by
  by_cases hruns : (x.cluster mail).RunsSender e
  · obtain ⟨hlead, hsends, clock, heartbeat, hrun⟩ := hruns
    have hround : RaftServer.Round x.ri ((x.cluster mail).proc e) :=
      ⟨.refl _, fun q hq => ⟨h.slots hlead q hq, hok hlead hsends q hq⟩, fun m hm => by cases hm⟩
    have hwp : (RaftServer.appendEntrySender clock heartbeat).wp (fun _ s => RaftServer.Round x.ri s)
        (fun d => RaftServer.FaithfulRequests x.ri d.out) ((x.cluster mail).proc e) :=
      RaftServer.wp_appendEntrySender_round hround
    unfold wp at hwp ⊢
    rw [hrun]
    split at hwp
    · exact ⟨h.of_round hwp, hwp.out⟩
    · exact hwp
  · have hfaithful : ∀ out : List (Fin n × RpcMsg n),
        (∀ m ∈ out, Cluster.Sent (x.cluster mail) e CachesKept m) →
          RaftServer.FaithfulRequests x.ri out := by
      intro out hsent y hy m hm hin
      cases hsent y hy with
      | message ri hri hmsg => cases hmsg <;> cases hm
      | request ri hri hsame hlead q m' hne hbuilt =>
        cases hm
        have hslot := hri.slots hlead q hne
        exact (hbuilt.faithful hslot hin).of_sameButSlots hsame
    exact wp_mono ((CachesKept.keeps hruns).wp_handler h) (fun _ s hs => ⟨hs.1, hfaithful _ hs.2⟩)
      fun d hd => hfaithful _ hd.2

/-- One event of the cluster: what the server becomes, and what it sent. -/
theorem CachesKept.handle (h : CachesKept x.ri) (hok : KeepsPrev x (.handle mail e)) :
    CachesKept (((x.cluster mail).step e).servers e.server) ∧ SendsFaithful x mail e := by
  have hwp := wp_handler_faithful h hok
  have hsent : ∀ (s : Proc n) (ri : RaftInstance n), RaftServer.FaithfulRequests x.ri s.out →
      ∀ pkt ∈ ((x.cluster mail).commit e s ri).net.drop mail.length, ∀ m,
        pkt.msg = .appendEntriesRequest m → m.entryOutOfRange = false → FaithfulTo x.ri m := by
    intro s ri hout pkt hpkt m hm hin
    have hdrop : ((x.cluster mail).commit e s ri).net.drop mail.length = s.out.map fun m =>
        ⟨e.server, m.1, m.2, ((x.cluster mail).delivered e).map (·.msg)⟩ := List.drop_left
    rw [hdrop] at hpkt
    obtain ⟨y, hy, rfl⟩ := List.mem_map.mp hpkt
    exact hout y hy m hm hin
  unfold SendsFaithful Cluster.step
  by_cases hen : (x.cluster mail).enabled e = true
  · rw [if_pos hen]
    cases hres : (x.cluster mail).handler e ((x.cluster mail).proc e) with
    | ok u s =>
      obtain ⟨hkept, hout⟩ := wp_of_ok hres hwp
      have hri : ((x.cluster mail).commit e s s.ri).servers e.server = s.ri :=
        Function.update_self _ _ _
      simp only [hri]
      exact ⟨hkept, hsent s _ hout⟩
    | abort d =>
      have hout := wp_of_abort hres hwp
      have hri : ((x.cluster mail).commit e d (Cluster.restart d.ri e.keep)).servers e.server =
          Cluster.restart d.ri e.keep := Function.update_self _ _ _
      simp only [hri]
      exact ⟨.started _ _ _, hsent d _ hout⟩
  · rw [if_neg hen]
    refine ⟨h, fun pkt hpkt => ?_⟩
    have hdrop : (x.cluster mail).net.drop mail.length = [] := List.drop_length
    rw [hdrop] at hpkt
    cases hpkt

theorem CachesKept.step (h : CachesKept x.ri) {e : NodeEvent n} (hok : KeepsPrev x e) :
    CachesKept (x.step e).ri := by
  cases e with
  | handle mail e =>
    rw [Node.step]
    split
    · exact (h.handle hok).1
    · exact h
  | stage db =>
    rw [Node.step]
    split
    · exact h
    · exact h
  | finish =>
    rw [Node.step]
    split
    · exact h
    · exact .started _ _ _

theorem CachesKept.of_reach {p : Fin n} {opts : Options} (h : Node.Reach KeepsPrev p opts x) :
    CachesKept x.ri := by
  induction h with
  | init => exact .started p opts RaftServer.freshDb
  | step e _ he ih => exact ih.step he

omit [Externals] in
theorem CachesKept.buildsFaithful {ri : RaftInstance n} (h : CachesKept ri) :
    BuildsFaithful ri := by
  intro q hq heartbeat m hm hin
  unfold RaftServer.builtRequest at hm
  split at hm
  · rename_i r s' hres
    obtain ⟨m', stale⟩ := r
    cases hm
    -- only a leader builds requests
    have hlead : ri.state = .leader := by
      obtain ⟨hlead, -⟩ := wp_of_ok hres RaftServer.wp_leaderInitAppendEntryMsg
      have hsends : Sends (RaftServer.leaderInitAppendEntryMsg q heartbeat)
          (⟨ri, [], [], none⟩ : Proc n) := RaftServer.sends_leaderInitAppendEntryMsg hq
      rw [RaftServer.frame_of_sends hsends hres] at hlead
      exact hlead
    have hslot := h.slots hlead q hq
    exact RaftServer.faithful_of_built (s := ⟨ri, [], [], none⟩) hslot hres hin
  · cases hm

/-- In every run in which no sender loses the entry before a peer's next index, what a leader builds
for a peer is faithful to its log, or marked, and so is what it sends. -/
theorem requests_faithful {p : Fin n} {opts : Options} (h : Node.Reach KeepsPrev p opts x) :
    BuildsFaithful x.ri ∧
      ∀ mail e, KeepsPrev x (.handle mail e) → SendsFaithful x mail e := by
  have hkept := CachesKept.of_reach h
  exact ⟨hkept.buildsFaithful, fun mail e hok => (hkept.handle hok).2⟩

end

/-! ## The zero that a failed read leaves -/

/-- An entry of term 2. -/
def peerEntry (i : Nat) : Entry := ⟨⟨31 * i + 21, 1, i, 2, [1], 1, false, 1⟩, [7]⟩

/-- A checkpoint of a peer that has compacted the first 501 of its 505 entries. -/
def compactedDb : Db 3 :=
  ⟨⟨2, some 1, 1⟩, (List.range 505).map peerEntry, 501, some ⟨504, 0, 0, 504, 50, 0⟩, [], 504⟩

/-- The leader of term 2 has compacted all that server 0 needs. -/
def compactedAway : AppendEntriesRequestMsg :=
  { leaderTerm := 2, logTerm := 0, commitIndex := 504, lowestIndex := 501, chkptIndex := 504,
    prevLogTerm := -1, prevLogIndex := -1, prevIdxCrc := 0, thisIdxCrc := 0, sizeArr := [],
    entriesSz := 0, numEntries := 0, heartbeatMsg := true, leaderChangeMarker := false,
    entryOutOfRange := true, entries := [] }

/-- Server 0 receives a message of server 1. -/
def fromPeer (msg : RpcMsg 3) : NodeEvent 3 := .handle [⟨1, 0, msg, none⟩] (.deliver 0 0)

/-- Server 0 recovers from that checkpoint and is elected.  Then its sender is woken, after server 1
has reported that its log ends at `synced` and does not match. -/
def leadsCompacted (synced : Int) : List (NodeEvent 3) :=
  [fromPeer (.appendEntriesRequest compactedAway), .stage compactedDb, .finish,
    .handle [] (.expire 0), fromPeer (.preVoteReply ⟨true, 2, none⟩),
    fromPeer (.voteReply ⟨true, 3, none⟩),
    fromPeer (.appendEntriesReply ⟨3, 504, synced, false, false, true, false, false⟩),
    .handle [] (.send 0)]

/-- Server 0 after that run. -/
def afterSend (synced : Int) : Node 3 :=
  @Node.run 3 sampleExternals (.initial 0 (appServers 0)) (leadsCompacted synced)

/-- The entry before that of index 502 is still there. -/
theorem requests_faithful_afterSend :
    BuildsFaithful (afterSend 502).ri ∧
      @SendsFaithful 3 sampleExternals (afterSend 502) [] (.send 0) := by
  have hall : @Node.AllEvents 3 sampleExternals KeepsPrev (.initial 0 (appServers 0))
      (leadsCompacted 502) := by decide +kernel
  have hfaithful := @requests_faithful 3 sampleExternals (afterSend 502) 0 (appServers 0)
    (@Node.Reach.of_allEvents 3 sampleExternals _ _ _ _ (@Node.Reach.init 3 sampleExternals _ _ _)
      _ hall)
  exact ⟨hfaithful.1, hfaithful.2 [] (.send 0) (by decide +kernel)⟩

/-- The entry before that of index 501 is not, and the request after the marked one says that it has
term 0. -/
theorem not_buildsFaithful_afterSend :
    @Node.Reach 3 sampleExternals Node.anyEvent 0 (appServers 0) (afterSend 501) ∧
      ¬ BuildsFaithful (afterSend 501).ri := by
  have hall : @Node.AllEvents 3 sampleExternals Node.anyEvent (.initial 0 (appServers 0))
      (leadsCompacted 501) := by decide +kernel
  refine ⟨@Node.Reach.of_allEvents 3 sampleExternals _ _ _ _
    (@Node.Reach.init 3 sampleExternals _ _ _) _ hall, fun h => ?_⟩
  have hbuilt : (RaftServer.builtRequest (afterSend 501).ri 1 false).map
      (fun m => (m.entryOutOfRange, m.prevLogIndex, m.prevLogTerm)) = some (false, 500, 0) := by
    decide +kernel
  have hentry : ((afterSend 501).ri.logEntry 500).map (·.header.term) = some 2 := by decide +kernel
  obtain ⟨m, hm, hfields⟩ := Option.map_eq_some_iff.mp hbuilt
  obtain ⟨hrange, hidx, hterm⟩ := by simpa only [Prod.mk.injEq] using hfields
  obtain ⟨re, hre, hterm', -⟩ := (h 1 (by decide +kernel) false m hm hrange).prev (by omega)
  rw [hidx] at hre
  rw [hre] at hentry
  have hterm'' : re.header.term = 2 := Option.some.inj hentry
  omega

end NiovaRaft
