import NiovaRaft.Refinement.Apply

/-!
# Restarts

A process that starts on what a crash left behind is the peer after the crash: it has the
persisted term, the entries that were kept and nothing committed.  The scan of the entries ends
at the last of them, since no reaping passes the newest entry.
-/

namespace NiovaRaft

namespace Refinement

open Base Base.Replication Base.Handler RaftServer

variable {n : Nat} {R : Rules} {w : ClusterWorld n} {p : Fin n} {s : Proc n}

/-! ## The scan -/

/-- A header past both cached ones replaces them. -/
theorem wp_updateNewestEntryHdr_newer {reh : EntryHeader} {Q : Unit → Proc n → Prop}
    {D : Proc n → Prop} (h0 : 0 ≤ reh.index) (h1 : s.ri.newestSync.index < reh.index)
    (h2 : s.ri.newestUnsync.index < reh.index)
    (hQ : Q () { s with ri := s.ri.withNewest reh reh }) :
    (updateNewestEntryHdr reh .all false).wp Q D s := by
  rw [updateNewestEntryHdr, if_neg (not_lt.mpr h0)]
  simp only [wp_bind, wp_getRi, wp_whenever, wp_assert, wp_modifyRi, updateHdr_of_gt h1,
    updateHdr_of_gt h2]
  refine ⟨fun _ => ⟨fun _ => ⟨fun _ => ⟨fun _ => hQ, ?_⟩, ?_⟩, ?_⟩, ?_⟩ <;> simp [h1, h2]

/-- `raft_server_entries_scan_internal` ends at the last entry it reads. -/
theorem wp_entriesScanInternal {start : Int} (count : Nat) (i : Int)
    {Q : Except Errno Unit → Proc n → Prop} {D : Proc n → Prop}
    (hidx : ∀ (k : Nat) (re : Entry), s.ri.store.db.entries[k]? = some re → re.header.index = k)
    (h1 : s.ri.newestSync.index < i) (h2 : s.ri.newestUnsync.index < i)
    (hD : ∀ h h', D { s with ri := s.ri.withNewest h h' })
    (herr : ∀ rc h h', Q (.error rc) { s with ri := s.ri.withNewest h h' })
    (hdone : count = 0 → Q (.ok ()) s)
    (hok : ∀ re, 0 < count → s.ri.store.db.entries[(i + count - 1).toNat]? = some re →
      Q (.ok ()) { s with ri := s.ri.withNewest re.header re.header }) :
    (entriesScanInternal start count i).wp Q D s := by
  induction count generalizing i s with
  | zero => exact hdone rfl
  | succ count ih =>
    rw [entriesScanInternal, wp_bind]
    refine wp_entryHeaderReadByStore (hD _ _) (fun rc => herr rc _ _) fun re h0 _ hre => ?_
    have hi : re.header.index = i := by
      rw [hidx _ re hre]
      omega
    -- the header is cached, and the scan goes on
    have hgo : (do
        updateNewestEntryHdr re.header .all false
        entriesScanInternal start count (i + 1) : Server n (Except Errno Unit)).wp Q D s := by
      rw [wp_bind]
      refine wp_updateNewestEntryHdr_newer (by omega) (by omega) (by omega) ?_
      have hlt : re.header.index < i + 1 := by omega
      refine ih (s := { s with ri := s.ri.withNewest re.header re.header }) (i + 1) hidx hlt hlt hD
        herr ?_ ?_
      · rintro rfl
        refine hok re (by omega) ?_
        have : (i + ((0 + 1 : Nat) : Int) - 1).toNat = i.toNat := by omega
        rw [this]
        exact hre
      · intro re' hpos hre'
        refine hok re' (by omega) ?_
        have : (i + ((count + 1 : Nat) : Int) - 1).toNat = (i + 1 + (count : Int) - 1).toNat := by
          omega
        rw [this]
        exact hre'
    rw [wp_bind] at hgo
    simp only [wp_bind, wp_ite, wp_pure]
    refine ⟨fun _ => ?_, fun _ => ⟨fun h => absurd h (by simp), fun _ => hgo⟩⟩
    simp only [entryNextEntryIsValid, wp_ite, wp_bind, wp_getRi, wp_fatalIf, wp_pure]
    exact ⟨fun _ => ⟨fun h => absurd h (by simp), fun _ => hgo⟩, fun _ => ⟨fun _ => hD _ _,
      fun _ => ⟨fun _ => herr _ _ _, fun _ => hgo⟩⟩⟩

/-- Where the scan starts there is an entry. -/
theorem scanStartingEntry_bounds {ri : RaftInstance n}
    (hlow : ri.lowestIdx < ri.store.db.entries.length) (hpos : 0 < ri.store.db.entries.length) :
    0 ≤ scanStartingEntry ri ri.store.db.entries.length ∧
      scanStartingEntry ri ri.store.db.entries.length < ri.store.db.entries.length := by
  unfold scanStartingEntry
  split <;> omega

/-- `raft_server_entries_scan` finds the newest entry. -/
theorem wp_entriesScan {Q : Except Errno Unit → Proc n → Prop} {D : Proc n → Prop}
    (hidx : ∀ (k : Nat) (re : Entry), s.ri.store.db.entries[k]? = some re → re.header.index = k)
    (hnull : s.ri.newestSync = EntryHeader.null ∧ s.ri.newestUnsync = EntryHeader.null)
    (hlow : s.ri.store.db.entries ≠ [] → s.ri.lowestIdx < s.ri.store.db.entries.length)
    (hD : ∀ h h', D { s with ri := s.ri.withNewest h h' })
    (herr : ∀ rc h h', Q (.error rc) { s with ri := s.ri.withNewest h h' })
    (hok : Q (.ok ()) { s with
      ri := s.ri.withNewest (lastHeader s.ri.store.db.entries) (lastHeader s.ri.store.db.entries) }) :
    entriesScan.wp Q D s := by
  have hself : s.ri.withNewest EntryHeader.null EntryHeader.null = s.ri := by
    rw [RaftInstance.withNewest, ← hnull.1]
    nth_rewrite 2 [hnull.1]
    rw [← hnull.2]
  rw [entriesScan, wp_bind, wp_getRi]
  simp only [wp_ite, wp_pure, wp_bind]
  refine ⟨fun hz => ?_, fun hnz => ?_⟩
  · have hnil : s.ri.store.db.entries = [] := by
      rw [← List.length_eq_zero_iff]
      exact_mod_cast hz
    rw [hnil, lastHeader_nil, hself] at hok
    exact hok
  have hne : s.ri.store.db.entries ≠ [] := by
    rintro h
    exact hnz (by rw [h]; rfl)
  have hpos : 0 < s.ri.store.db.entries.length := List.length_pos_iff.mpr hne
  have hlow' := hlow hne
  obtain ⟨hs0, hslt⟩ := scanStartingEntry_bounds hlow' hpos
  -- the scan of all entries from where it starts
  have hmain : (entriesScanInternal
      (scanStartingEntry s.ri s.ri.store.db.entries.length)
      (s.ri.store.db.entries.length - scanStartingEntry s.ri s.ri.store.db.entries.length).toNat
      (scanStartingEntry s.ri s.ri.store.db.entries.length)).wp Q D
      { s with ri := s.ri.withNewest EntryHeader.null EntryHeader.null } := by
    have hneg : EntryHeader.null.index < scanStartingEntry s.ri s.ri.store.db.entries.length := by
      rw [EntryHeader.null_index]
      omega
    refine wp_entriesScanInternal _ _ hidx hneg hneg hD herr (fun h => ?_) fun re _ hre => ?_
    · omega
    · have hlast : lastHeader s.ri.store.db.entries = re.header := by
        have hk : (scanStartingEntry s.ri s.ri.store.db.entries.length +
            ((s.ri.store.db.entries.length -
              scanStartingEntry s.ri s.ri.store.db.entries.length).toNat : Int) - 1).toNat =
            s.ri.store.db.entries.length - 1 := by omega
        rw [hk] at hre
        have := EntriesOk.lastHeader_take_succ (l := s.ri.store.db.entries) hre
        rwa [Nat.sub_add_cancel hpos, List.take_length] at this
      rw [hlast] at hok
      exact hok
  refine ⟨fun hgt => ?_, fun _ => ?_⟩
  · -- a first scan at the lowest index, whose result is dropped
    have hbefore : s.ri.newestSync.index < s.ri.lowestIdx ∨ s.ri.lowestIdx < 0 := by
      rw [hnull.1, EntryHeader.null_index]
      omega
    have herror : ∀ rc h h', (whenever (Except.isOk (.error rc : Except Errno Unit) = true)
        initializeNewestEntryHdr).wp
        (fun _ s' => (pure (.error rc) : Server n (Except Errno Unit)).wp Q D s') D
        { s with ri := s.ri.withNewest h h' } := by
      intro rc h h'
      rw [wp_whenever]
      exact ⟨fun h => absurd h (by simp [Except.isOk, Except.toBool]), fun _ => herr _ _ _⟩
    have hscan : ∀ h h', (whenever (Except.isOk (.ok () : Except Errno Unit) = true)
        initializeNewestEntryHdr).wp
        (fun _ s' => (entriesScanInternal
          (scanStartingEntry s.ri s.ri.store.db.entries.length)
          (s.ri.store.db.entries.length -
            scanStartingEntry s.ri s.ri.store.db.entries.length).toNat
          (scanStartingEntry s.ri s.ri.store.db.entries.length)).wp Q D s') D
        { s with ri := s.ri.withNewest h h' } := by
      intro h h'
      rw [wp_whenever]
      exact ⟨fun _ => hmain, fun h => absurd (by simp [Except.isOk, Except.toBool]) h⟩
    rcases hbefore with hlt | hneg
    · refine wp_entriesScanInternal _ _ hidx hlt ?_ hD (fun rc h h' => herror rc h h') (fun _ => ?_)
        fun re _ _ => hscan _ _
      · rw [hnull.2, ← hnull.1]
        exact hlt
      · have := hscan EntryHeader.null EntryHeader.null
        rw [hself] at this
        exact this
    · -- no entry has a negative index
      obtain ⟨count, hcount⟩ : ∃ count, (min (s.ri.lowestIdx + 1000)
          (s.ri.store.db.entries.length : Int) - s.ri.lowestIdx).toNat = count + 1 :=
        ⟨_, (Nat.sub_add_cancel (by omega : 1 ≤ _)).symm⟩
      rw [hcount, entriesScanInternal, wp_bind, entryHeaderReadByStore, if_pos hneg]
      exact herror .EINVAL _ _
  · have := hmain
    rw [hself] at this
    exact this

/-! ## The start of a process -/

/-- The instance of a process that came up on `d`. -/
def startedOn (p : Fin n) (opts : Options) (d : Db n) : RaftInstance n :=
  { instanceInit p opts d with
    procState := .running
    state := .follower
    followerReason := .leaderAlreadyPresent
    logHdr := d.hdr
    newestSync := lastHeader d.entries
    newestUnsync := lastHeader d.entries }

/-- A process comes up as the peer on its backend, or does not come up and leaves the backend
alone. -/
theorem instanceRun_cases (opts : Options) {d : Db n}
    (hidx : ∀ (k : Nat) (re : Entry), d.entries[k]? = some re → re.header.index = k)
    (hreap : d.entries ≠ [] → d.reaped < d.entries.length) :
    instanceRun p opts d = startedOn p opts d ∨
      ((instanceRun p opts d).procState ≠ .running ∧ (instanceRun p opts d).self = p ∧
        (instanceRun p opts d).opts = opts ∧ (instanceRun p opts d).store = ⟨d, [d]⟩) := by
  set s₀ : Proc n := ⟨instanceInit p opts d, [], [], none⟩ with hs₀
  have hlow : d.entries ≠ [] → (instanceInit p opts d).lowestIdx < d.entries.length := by
    intro hne
    have := hreap hne
    simp only [instanceInit]
    split <;> omega
  have hwp : instanceStartup.wp
      (fun rc s' => (rc = .ok () → s'.ri = startedOn p opts d) ∧
        s'.ri.self = p ∧ s'.ri.opts = opts ∧ s'.ri.store = ⟨d, [d]⟩)
      (fun s' => s'.ri.self = p ∧ s'.ri.opts = opts ∧ s'.ri.store = ⟨d, [d]⟩) s₀ := by
    simp only [instanceStartup, logLoad, headerLoad, wp_bind, wp_modifyRi, wp_whenever, wp_pure]
    refine wp_entriesScan hidx ⟨rfl, rfl⟩ hlow (fun _ _ => ⟨rfl, rfl, rfl⟩) ?_ ?_
    · intro rc h h'
      refine ⟨fun h => absurd h (by simp [Except.isOk, Except.toBool]), fun _ => ⟨fun h => absurd h
        (by simp [Except.isOk, Except.toBool]), fun _ => ⟨by simp, rfl, rfl, rfl⟩⟩⟩
    · refine ⟨fun _ => ?_, fun h => absurd (by simp [Except.isOk, Except.toBool]) h⟩
      have hlast : (lastHeader d.entries).index = d.entries.length - 1 := by
        unfold lastHeader
        rw [List.getLast?_eq_getElem?]
        cases hl : d.entries[d.entries.length - 1]? with
        | none =>
          have := List.getElem?_eq_none_iff.mp hl
          have : d.entries.length = 0 := by omega
          simp [this]
        | some re =>
          have := (List.getElem?_eq_some_iff.mp hl).1
          simp only [Option.map_some, Option.getD_some]
          rw [hidx _ re hl]
          omega
      refine wp_logTruncate (m := d.entries.length) hlast (by simp [hs₀]) fun fuse _ => ?_
      have hsame : d.truncate d.entries.length = d := by
        rw [Db.truncate, List.take_length]
      have hstore : (⟨d, [d]⟩ : Store n).put (d.truncate d.entries.length) true = ⟨d, [d]⟩ := by
        rw [hsame]
        rfl
      refine ⟨fun _ => ⟨fun _ => ?_, rfl, rfl, hstore⟩,
        fun h => absurd (by simp [Except.isOk, Except.toBool]) h⟩
      change RaftInstance.mk _ _ _ _ _ _ _ _ _ _ _ _ _ _ _ _ _
        ((⟨d, [d]⟩ : Store n).put (d.truncate d.entries.length) true) = _
      rw [hstore]
      rfl
  unfold instanceRun
  cases hrun : instanceStartup s₀ with
  | ok rc s' =>
    obtain ⟨h1, h2, h3, h4⟩ := wp_of_ok hrun hwp
    cases rc with
    | ok u => exact .inl (h1 rfl)
    | error rc => exact .inr ⟨by simp, h2, h3, h4⟩
  | abort s' =>
    obtain ⟨h2, h3, h4⟩ := wp_of_abort hrun hwp
    exact .inr ⟨by simp, h2, h3, h4⟩

/-- What is known of a process after a start. -/
structure Started (R : Rules) (w : ClusterWorld n) (p : Fin n) (ri : RaftInstance n) : Prop where
  self : ri.self = p
  store : StoreOk w p ri.opts ri.store
  ok : ri.procState = .running → Ok R w p ri

/-- A process that starts on a synced backend is a follower. -/
theorem started_of_storeOk {opts : Options} {d : Db n} (hst : StoreOk w p opts ⟨d, [d]⟩)
    (hp : w.peer p = ⟨(w.peer p).cur, (w.peer p).log, (w.peer p).log.length, false, false, 0⟩) :
    Started R w p (instanceRun p opts d) := by
  have hk : Kept opts d (w.peer p).synced d := hst.kept d (by simp)
  have hsynced : (w.peer p).synced = d.entries.length := by
    rw [hp]
    exact hst.length
  have hreap : d.entries ≠ [] → d.reaped < d.entries.length := by
    intro hne
    have hpos := List.length_pos_iff.mpr hne
    have h1 := hk.reapedApplied
    have h2 := hk.applied
    rw [hsynced] at h2
    omega
  rcases instanceRun_cases opts (p := p) (fun k re hre => (hst.entries.entry k re hre).index)
    hreap with heq | ⟨hdown, h1, h2, h3⟩
  · have hstore : StoreOk w p (instanceRun p opts d).opts (instanceRun p opts d).store := by
      rw [heq]
      exact hst
    refine ⟨by rw [heq]; rfl, hstore, fun _ => ?_⟩
    rw [heq]
    have htake : d.entries.take (w.peer p).synced = d.entries := by rw [hsynced, List.take_length]
    refine ⟨⟨rfl, rfl, hst, ⟨hst.entries, rfl, ⟨_, le_refl _, ?_, fun _ => rfl⟩, ?_, hk.appliedSynced⟩,
      ?_, rfl, ?_, hk.applied, fun hper => ⟨rfl, fun d' hd' => ?_⟩⟩, ?_⟩
    · change lastHeader d.entries = lastHeader (d.entries.take d.entries.length)
      rw [List.take_length]
    · have h1 := hk.reapedApplied
      have h2 := hk.applied
      rw [hsynced] at h2
      change (d.reaped : Int) ≤ max 0 (if opts.storeType = .posixFlatFile ∨ d.entries = [] then -1
        else (d.reaped : Int))
      split
      · rename_i hcond
        rcases hcond with hflat | hnil
        · have hini : appliedOf opts d = LastApplied.initial := if_neg (by rw [hflat]; simp)
          rw [hini] at h1
          simp only [LastApplied.initial] at h1
          omega
        · rw [hnil] at h2
          simp only [List.length_nil] at h2
          omega
      · omega
    · change lastHeader d.entries = lastHeader (d.entries.take (w.peer p).synced)
      rw [htake]
    · change (-1 : Int) = _
      rw [hp]
      rfl
    · obtain rfl : d' = d := by simpa [startedOn, instanceInit] using hd'
      exact ⟨hk.appliedSynced, le_refl _⟩
    · refine Role.passive (.inl rfl) ?_ ?_ ?_
      · rw [hp]
      · rw [hp]
      · intro x hx
        simp [startedOn, instanceInit] at hx
  · refine ⟨h1, ?_, fun h => absurd h hdown⟩
    rw [h2, h3]
    exact hst

/-- The world once `p` has crashed and kept `k` entries. -/
def afterCrash (w : ClusterWorld n) (p : Fin n) (k : Nat) : ClusterWorld n :=
  w.setPeer p ⟨(w.peer p).cur, (w.peer p).log.take k, k, false, false, 0⟩

@[simp] theorem afterCrash_peer {k : Nat} : (afterCrash w p k).peer p =
    ⟨(w.peer p).cur, (w.peer p).log.take k, k, false, false, 0⟩ :=
  setPeer_self

/-- A killed process starts again. -/
theorem restart_started {ri : RaftInstance n} (hself : ri.self = p)
    (hst : StoreOk w p ri.opts ri.store) (keep : Nat) :
    ∃ w', Step R p w w' ∧ (∀ q t, w'.led q t → w.led q t) ∧
      Started R w' p (Cluster.restart ri keep) := by
  set d := ri.store.recoverable.getD keep ri.store.db with hd
  have hmem : d ∈ ri.store.recoverable := by
    rw [hd, List.getD_eq_getElem?_getD]
    cases hget : ri.store.recoverable[keep]? with
    | none => exact hst.mem
    | some d' => exact List.mem_of_getElem? hget
  have hk := hst.kept d hmem
  have hlen : d.entries.length ≤ (w.peer p).log.length := by
    rw [hst.length]
    exact hk.entries.length_le
  have hlog : (w.peer p).log.take d.entries.length = d.entries.map Entry.core := by
    rw [hst.log, ← List.map_take, ← List.prefix_iff_eq_take.mp hk.entries]
  have hstep : Step R p w (afterCrash w p d.entries.length) := .crash _ hk.synced hlen
  refine ⟨_, hstep, fun _ _ => id, ?_⟩
  rw [Cluster.restart, hself]
  refine started_of_storeOk ⟨?_, ?_, ?_, ?_, by simp, ?_⟩ ?_
  · rw [afterCrash_peer]
    exact hlog
  · have := hst.entries.take d.entries.length
    rwa [← List.prefix_iff_eq_take.mp hk.entries] at this
  · rw [afterCrash_peer]
    change d.hdr.term = _
    rw [hk.hdr, hst.term]
  · rw [afterCrash_peer]
    exact hst.nonneg
  · intro d' hd'
    obtain rfl : d' = d := List.mem_singleton.mp hd'
    rw [afterCrash_peer]
    exact ⟨rfl, rfl, List.prefix_refl _, le_refl _,
      lt_of_lt_of_le hk.applied (by exact_mod_cast hk.synced), hk.appliedSynced, hk.reapedApplied⟩
  · rw [afterCrash_peer, List.length_take, Nat.min_eq_left hlen]

end Refinement

end NiovaRaft
