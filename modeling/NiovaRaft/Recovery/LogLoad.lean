import NiovaRaft.Model.StoredLog
import NiovaRaft.Spec.Log

/-!
# Loading a damaged log

`raft_server_log_load` is documented to truncate everything past the last valid entry.  It truncates
after a scan that found nothing wrong.  A scan that ends before the last entry the backend has
detected is an error, which ends the startup, and one that does not end there takes the last of them
for the newest.  So the log is recovered to an entry only if the backend detects none after it.
-/

namespace NiovaRaft

open Base Base.Handler Loader

namespace LoadProc

/-- The index of the first entry. -/
def firstIdx (p : LoadProc) : Int := max 0 p.log.lowestIdx

/-- The header of an entry, and that of an empty log before the first one. -/
def headerAt (p : LoadProc) (i : Int) : StoredHeader :=
  if i < 0 then .null else (p.log.headers i.toNat).getD .null

/-- The entry at `i` has a valid header for this peer. -/
def ValidAt (p : LoadProc) (i : Int) : Prop :=
  ∃ reh, p.log.headers i.toNat = some reh ∧ entryValidate p reh i = .ok reh

/-- Both newest headers are `h`. -/
def withNewest (p : LoadProc) (h : StoredHeader) : LoadProc :=
  { p with newestSync := h, newestUnsync := h }

end LoadProc

/-- A log with valid entries up to `k`, past which it is lost or torn. -/
structure DamagedLog (p : LoadProc) (k : Int) : Prop where
  header : p.headerLoad = .ok ()
  sync : p.newestSync = .null
  unsync : p.newestUnsync = .null
  /-- A log without a lowest index is empty or a flat file. -/
  lowest : 0 ≤ p.log.lowestIdx ∨ (p.log.lowestIdx = -1 ∧
    (p.opts.storeType = .posixFlatFile ∨ p.log.entriesDetected = 0))
  last : p.firstIdx ≤ k ∨ (k = -1 ∧ p.firstIdx = 0)
  counted : k + 1 ≤ p.log.entriesDetected
  valid : ∀ i, p.firstIdx ≤ i → i ≤ k → p.ValidAt i
  terms : ∀ i, p.firstIdx ≤ i → i < k → (p.headerAt i).reh.term ≤ (p.headerAt (i + 1)).reh.term
  tail : k + 1 < p.log.entriesDetected → ¬ p.ValidAt (k + 1) ∨
    (p.headerAt (k + 1)).reh.term < (p.headerAt k).reh.term

/-- The log is loaded and ends with entry `k`. -/
def RecoversTo (p : LoadProc) (k : Int) : Prop :=
  ∃ p', logLoad p = .ok (.ok ()) p' ∧ p'.newestSync = p.headerAt k ∧
    p'.newestUnsync = p.headerAt k ∧ p'.log.entriesDetected = (k + 1).toNat ∧
    ∀ i : Nat, p'.log.headers i = if (i : Int) ≤ k then p.log.headers i else none

section Scan

variable {p : LoadProc} {k : Int}

/-! ## Valid entries -/

theorem LoadProc.ValidAt.headerAt {i : Int} (h : p.ValidAt i) (hi : 0 ≤ i) :
    p.log.headers i.toNat = some (p.headerAt i) ∧
      entryValidate p (p.headerAt i) i = .ok (p.headerAt i) := by
  obtain ⟨reh, hreh, hvalid⟩ := h
  have heq : p.headerAt i = reh := by
    rw [LoadProc.headerAt, if_neg (not_lt.mpr hi), hreh]
    rfl
  rw [heq]
  exact ⟨hreh, hvalid⟩

theorem index_of_entryValidate {rh reh : StoredHeader} {i : Int}
    (h : entryValidate p rh i = .ok reh) : reh.reh.index = i := by
  unfold entryValidate at h
  split at h
  · cases h
  · split at h
    · cases h
    · split at h
      · cases h
      · cases h
        rename_i hidx _
        exact not_not.mp hidx

/-- A valid header is read as it is stored. -/
theorem wp_entryHeaderReadByStore_of_valid {i : Int}
    {Q : Except ScanErrno StoredHeader → LoadProc → Prop} {D : LoadProc → Prop}
    (h : p.ValidAt i) (hi : 0 ≤ i) (hlow : p.log.lowestIdx ≤ i)
    (hQ : Q (.ok (p.headerAt i)) p) : (entryHeaderReadByStore i).wp Q D p := by
  obtain ⟨hreh, hvalid⟩ := h.headerAt hi
  simp only [entryHeaderReadByStore, entryReadByStoreCommon, wp_ite, wp_bind, wp_get, hreh, wp_pure,
    Except.bind, hvalid]
  exact ⟨fun hneg => absurd hneg (not_lt.mpr hi), fun _ =>
    ⟨fun hlt => absurd hlt (not_lt.mpr hlow), fun _ => hQ⟩⟩

/-- The newer of two headers. -/
theorem updateHdr_of_lt {reh tgt : StoredHeader} (h : tgt.reh.index < reh.reh.index) :
    updateHdr reh tgt = reh := if_pos h

/-- A newer header becomes the newest. -/
theorem wp_updateNewestEntryHdr_of_lt {g reh : StoredHeader} {Q : Unit → LoadProc → Prop}
    {D : LoadProc → Prop} (hreh : 0 ≤ reh.reh.index) (hg : g.reh.index < reh.reh.index)
    (hQ : Q () (p.withNewest reh)) : (updateNewestEntryHdr reh).wp Q D (p.withNewest g) := by
  simp only [updateNewestEntryHdr, wp_ite, wp_bind, wp_get, wp_assert, wp_modify,
    LoadProc.withNewest, updateHdr_of_lt hg]
  exact ⟨fun hneg => absurd hneg (not_lt.mpr hreh), fun _ =>
    ⟨fun _ => hQ, fun hno => absurd (.inr ⟨hg, hg⟩) hno⟩⟩

/-- A header may follow the newest one, or begin the scan. -/
theorem wp_scannedEntryIsValid {start i : Int} {g reh : StoredHeader} {Q : Bool → LoadProc → Prop}
    {D : LoadProc → Prop} (hreh : 0 ≤ reh.reh.index)
    (hnext : start < i → g.reh.index + 1 = reh.reh.index ∧ g.reh.term ≤ reh.reh.term)
    (hQ : Q true (p.withNewest g)) : (scannedEntryIsValid start i reh).wp Q D (p.withNewest g) := by
  rw [scannedEntryIsValid, wp_ite, wp_pure]
  refine ⟨fun hcheck => ?_, fun _ => hQ⟩
  obtain ⟨hfollows, hterm⟩ := hnext hcheck.2
  have hvalid : decide (reh.reh.index = g.reh.index + 1 ∧ g.reh.term ≤ reh.reh.term) = true :=
    decide_eq_true ⟨hfollows.symm, hterm⟩
  simp only [entryNextEntryIsValid, wp_ite, wp_bind, wp_get, wp_fatalIf, wp_pure,
    LoadProc.withNewest, hvalid]
  exact ⟨fun hneg => absurd hneg (not_lt.mpr hreh), fun _ => ⟨fun hfatal => absurd rfl hfatal.2,
    fun _ => hQ⟩⟩

/-- A scan takes a valid entry that follows the newest one, or with which it begins. -/
theorem wp_entriesScanInternal_succ {start i : Int} {count : Nat} {g : StoredHeader}
    {Q : Except ScanErrno Unit → LoadProc → Prop} {D : LoadProc → Prop}
    (h : p.ValidAt i) (hi : 0 ≤ i) (hlow : p.log.lowestIdx ≤ i) (hg : g.reh.index < i)
    (hnext : start < i → g.reh.index + 1 = i ∧ g.reh.term ≤ (p.headerAt i).reh.term)
    (hrest : (entriesScanInternal start count (i + 1)).wp Q D (p.withNewest (p.headerAt i))) :
    (entriesScanInternal start (count + 1) i).wp Q D (p.withNewest g) := by
  have hidx : (p.headerAt i).reh.index = i := index_of_entryValidate (h.headerAt hi).2
  rw [entriesScanInternal, wp_bind]
  refine wp_entryHeaderReadByStore_of_valid (p := p.withNewest g) h hi hlow ?_
  have hsame : (p.withNewest g).headerAt i = p.headerAt i := rfl
  simp only [wp_bind, hsame]
  refine wp_scannedEntryIsValid (by rw [hidx]; exact hi) (by rw [hidx]; exact hnext) ?_
  simp only [Bool.true_eq_false, if_false, wp_bind]
  exact wp_updateNewestEntryHdr_of_lt (by rw [hidx]; exact hi) (by rw [hidx]; exact hg) hrest

/-- A scan over valid entries goes through to the last of them. -/
theorem wp_entriesScanInternal_of_valid {start i : Int} {count : Nat} {g : StoredHeader}
    {Q : Except ScanErrno Unit → LoadProc → Prop} {D : LoadProc → Prop} (hi : 0 ≤ i)
    (hlow : p.log.lowestIdx ≤ i) (hvalid : ∀ j, i ≤ j → j < i + count → p.ValidAt j)
    (hterms : ∀ j, i ≤ j → j + 1 < i + count →
      (p.headerAt j).reh.term ≤ (p.headerAt (j + 1)).reh.term)
    (hg : g.reh.index < i)
    (hnext : start < i → 0 < count → g.reh.index + 1 = i ∧ g.reh.term ≤ (p.headerAt i).reh.term)
    (hQ : Q (.ok ()) (p.withNewest (if count = 0 then g else p.headerAt (i + count - 1)))) :
    (entriesScanInternal start count i).wp Q D (p.withNewest g) := by
  induction count generalizing i g with
  | zero => exact hQ
  | succ count ih =>
    have hhere : p.ValidAt i := hvalid i (le_refl i) (by omega)
    have hidx : (p.headerAt i).reh.index = i := index_of_entryValidate (hhere.headerAt hi).2
    refine wp_entriesScanInternal_succ hhere hi hlow hg (fun hlt => hnext hlt (by omega)) ?_
    refine ih (by omega) (by omega) (fun j h₁ h₂ => hvalid j (by omega) (by omega))
      (fun j h₁ h₂ => hterms j (by omega) (by omega)) (by omega) (fun _ hpos => ?_) ?_
    · exact ⟨by omega, hterms i (le_refl i) (by omega)⟩
    · rw [if_neg (by omega)] at hQ
      by_cases hlast : count = 0
      · subst hlast
        rw [if_pos rfl]
        convert hQ using 3
        omega
      · rw [if_neg hlast]
        convert hQ using 3
        push_cast
        omega

/-! ## The end of a scan -/

/-- What is read is the header of the index asked for. -/
theorem wp_entryHeaderReadByStore_index {i : Int} :
    (entryHeaderReadByStore i).wp (fun r p' => p' = p ∧ ∀ reh, r = .ok reh →
      0 ≤ i ∧ reh.reh.index = i) (fun _ => True) p := by
  simp only [entryHeaderReadByStore, entryReadByStoreCommon, wp_ite, wp_bind, wp_get, wp_pure]
  refine ⟨fun _ => ⟨trivial, fun reh h => (by cases h)⟩, fun hi => ⟨fun _ => ⟨trivial, fun reh h =>
    (by cases h)⟩, fun _ => ?_⟩⟩
  cases p.log.headers i.toNat with
  | none => exact trivial
  | some rh => exact ⟨rfl, fun reh h => ⟨not_lt.mp hi, index_of_entryValidate h⟩⟩

theorem wp_scannedEntryIsValid_same {start i : Int} {reh : StoredHeader} :
    (scannedEntryIsValid start i reh).wp (fun _ p' => p' = p) (fun _ => True) p := by
  simp only [scannedEntryIsValid, entryNextEntryIsValid, wp_ite, wp_bind, wp_get, wp_fatalIf,
    wp_pure]
  exact ⟨fun _ => ⟨fun _ => trivial, fun _ => ⟨fun _ => trivial, fun _ => trivial⟩⟩,
    fun _ => trivial⟩

theorem wp_updateNewestEntryHdr_index {reh : StoredHeader} (hreh : 0 ≤ reh.reh.index)
    (hlt : p.newestSync.reh.index < reh.reh.index) :
    (updateNewestEntryHdr reh).wp (fun _ p' => p'.newestSync.reh.index = reh.reh.index)
      (fun _ => True) p := by
  simp only [updateNewestEntryHdr, wp_ite, wp_bind, wp_get, wp_assert, wp_modify,
    updateHdr_of_lt hlt]
  exact ⟨fun hneg => absurd hneg (not_lt.mpr hreh), fun _ => ⟨fun _ => trivial, fun _ => trivial⟩⟩

/-- A scan that finds nothing wrong ends with the last of its entries. -/
theorem wp_entriesScanInternal_index {start i : Int} {count : Nat}
    (hsync : p.newestSync.reh.index < i) :
    (entriesScanInternal start count i).wp (fun rc p' => rc = .ok () →
      p'.newestSync.reh.index = if count = 0 then p.newestSync.reh.index else i + count - 1)
      (fun _ => True) p := by
  induction count generalizing i p with
  | zero => exact fun _ => rfl
  | succ count ih =>
    rw [entriesScanInternal, wp_bind]
    refine wp_mono wp_entryHeaderReadByStore_index ?_ fun _ => id
    rintro r _ ⟨rfl, hindex⟩
    cases r with
    | error rc => exact fun h => (by cases h)
    | ok reh =>
      obtain ⟨hi, hreh⟩ := hindex reh rfl
      simp only [wp_bind]
      refine wp_mono wp_scannedEntryIsValid_same ?_ fun _ => id
      rintro valid _ rfl
      rw [wp_ite, wp_pure, wp_bind]
      refine ⟨fun _ h => (by cases h), fun _ => ?_⟩
      refine wp_mono (wp_updateNewestEntryHdr_index (by omega) (by omega)) ?_ fun _ => id
      intro _ p₁ hp₁
      refine wp_mono (ih (p := p₁) (i := i + 1) (by omega)) ?_ fun _ => id
      intro rc p' hp' hrc
      rw [hp' hrc, if_neg (Nat.succ_ne_zero count)]
      split
      · omega
      · push_cast
        omega

/-! ## The start of the main scan -/

/-- The main scan begins at an entry. -/
theorem DamagedLog.start_bounds (h : DamagedLog p k) (hsome : p.log.entriesDetected = k + 1)
    (hk : 0 ≤ k) : p.firstIdx ≤ scanStartingEntry p ∧ scanStartingEntry p ≤ k := by
  have hlast := h.last
  unfold LoadProc.firstIdx at hlast ⊢
  unfold scanStartingEntry
  split <;> omega

/-- Only a log with a lowest index is scanned from further on. -/
theorem DamagedLog.lowest_of_start (h : DamagedLog p k) (hpos : 0 < scanStartingEntry p)
    (hsome : p.log.entriesDetected ≠ 0) : 0 ≤ p.log.lowestIdx := by
  rcases h.lowest with hlow | ⟨hlow, hposix | hzero⟩
  · exact hlow
  · rw [scanStartingEntry, if_neg (fun hc => by rw [hposix] at hc; cases hc.1), hlow] at hpos
    omega
  · exact absurd hzero hsome

/-! ## Loading -/

/-- The part of the log up to `k` is scanned whole, from any entry on. -/
theorem DamagedLog.wp_scan (h : DamagedLog p k) (start : Int) (count : Nat)
    {Q : Except ScanErrno Unit → LoadProc → Prop} {D : LoadProc → Prop}
    (hstart : p.firstIdx ≤ start) (hcount : start + count ≤ k + 1)
    (hQ : Q (.ok ()) (p.withNewest (if count = 0 then .null else p.headerAt (start + count - 1)))) :
    (entriesScanInternal start count start).wp Q D (p.withNewest .null) := by
  have hfirst : 0 ≤ p.firstIdx := le_max_left ..
  have hlow : p.log.lowestIdx ≤ p.firstIdx := le_max_right ..
  refine wp_entriesScanInternal_of_valid (by omega) (by omega)
    (fun j h₁ h₂ => h.valid j (by omega) (by omega)) (fun j h₁ h₂ => h.terms j (by omega) (by omega))
    ?_ (fun hlt => absurd hlt (lt_irrefl _)) hQ
  rw [StoredHeader.null_index]
  omega

theorem DamagedLog.withNewest_null (h : DamagedLog p k) : p.withNewest .null = p := by
  have hsync := h.sync
  have hunsync := h.unsync
  cases p
  simp only at hsync hunsync
  rw [hsync, hunsync]
  rfl

/-- The scan of the start of an intact log leaves nothing behind. -/
theorem DamagedLog.wp_initialScan (h : DamagedLog p k) (hall : p.log.entriesDetected = k + 1)
    (hk : 0 ≤ k) {Q : Except ScanErrno Unit → LoadProc → Prop} {D : LoadProc → Prop}
    (hQ : Q (.ok ()) p) : (initialScan (scanStartingEntry p)).wp Q D p := by
  rw [initialScan, wp_bind, wp_get, wp_ite, wp_pure, wp_bind]
  refine ⟨fun hpos => ?_, fun _ => hQ⟩
  have hlow := h.lowest_of_start hpos (by omega)
  have hfirst : p.firstIdx = p.log.lowestIdx := max_eq_right hlow
  have hlast := h.last
  rw [hfirst] at hlast
  have hscan := h.wp_scan p.log.lowestIdx
    (min (p.log.lowestIdx + logInitialScanSz) p.log.entriesDetected - p.log.lowestIdx).toNat
    (Q := fun a s' =>
      (do
        whenever (a.isOk = true) initializeNewestEntryHdr
        pure a : Loader (Except ScanErrno Unit)).wp Q D s') (D := D) (by rw [hfirst]) (by omega) ?_
  · rwa [h.withNewest_null] at hscan
  · rw [← h.withNewest_null] at hQ
    rw [wp_bind, wp_whenever, wp_pure]
    exact ⟨fun _ => hQ, fun hno => absurd rfl hno⟩

/-- A log of which nothing is lost is scanned to its last entry. -/
theorem DamagedLog.wp_entriesScan (h : DamagedLog p k) (hall : p.log.entriesDetected = k + 1)
    {Q : Except ScanErrno Unit → LoadProc → Prop} {D : LoadProc → Prop}
    (hQ : Q (.ok ()) (p.withNewest (p.headerAt k))) : entriesScan.wp Q D p := by
  rw [entriesScan, wp_bind, wp_get, wp_ite, wp_pure, wp_bind]
  refine ⟨fun hzero => ?_, fun hsome => ?_⟩
  · have hk : k = -1 := by omega
    have hempty : p.headerAt k = .null := by rw [hk]; rfl
    rwa [hempty, h.withNewest_null] at hQ
  · have hk : 0 ≤ k := by omega
    obtain ⟨hfirst, hlast⟩ := h.start_bounds hall hk
    refine h.wp_initialScan hall hk ?_
    have hscan := h.wp_scan (scanStartingEntry p)
      (p.log.entriesDetected - scanStartingEntry p).toNat (Q := Q) (D := D) hfirst (by omega) ?_
    · rwa [h.withNewest_null] at hscan
    · have hend : scanStartingEntry p + (p.log.entriesDetected - scanStartingEntry p).toNat - 1 = k := by
        omega
      rwa [if_neg (by omega), hend]

/-- Whatever the scan of the start finds, the main scan begins with an empty log. -/
theorem wp_initialScan_sync {start : Int} (hsync : p.newestSync = .null) :
    (initialScan start).wp (fun rc p' => rc = .ok () → p'.newestSync = .null) (fun _ => True) p := by
  rw [initialScan, wp_bind, wp_get, wp_ite, wp_pure, wp_bind]
  refine ⟨fun _ => wp_intro (fun rc p₁ _ => ?_) fun _ _ => trivial, fun _ _ => hsync⟩
  rw [wp_bind, wp_whenever, wp_pure]
  refine ⟨fun _ _ => rfl, fun hno hok => absurd ?_ hno⟩
  rw [hok]
  rfl

theorem wp_entriesScan_index (hsync : p.newestSync = .null)
    (hstart : p.log.entriesDetected ≠ 0 → scanStartingEntry p < p.log.entriesDetected) :
    entriesScan.wp (fun rc p' => rc = .ok () →
      p'.newestSync.reh.index + 1 = p.log.entriesDetected) (fun _ => True) p := by
  rw [entriesScan, wp_bind, wp_get, wp_ite, wp_pure, wp_bind]
  refine ⟨fun hzero _ => ?_, fun hsome => ?_⟩
  · rw [hsync, hzero]
    rfl
  · have hnonneg : 0 ≤ scanStartingEntry p := by
      unfold scanStartingEntry
      split <;> omega
    have hlt := hstart hsome
    refine wp_mono (wp_initialScan_sync hsync) (fun rc p₁ hp₁ => ?_) fun _ => id
    cases rc with
    | error rc => exact fun h => (by cases h)
    | ok u =>
      have hnull : p₁.newestSync.reh.index = -1 := by rw [hp₁ rfl]; rfl
      refine wp_mono (wp_entriesScanInternal_index (by omega)) (fun rc p' hp' hrc => ?_) fun _ => id
      rw [hp' hrc, if_neg (by omega)]
      omega

/-- A log that loads ends with the last entry that was detected. -/
theorem wp_logLoad_index (hsync : p.newestSync = .null)
    (hstart : p.log.entriesDetected ≠ 0 → scanStartingEntry p < p.log.entriesDetected) :
    logLoad.wp (fun rc p' => rc = .ok () →
      p'.newestSync.reh.index + 1 = p.log.entriesDetected) (fun _ => True) p := by
  rw [logLoad, wp_bind, wp_get]
  cases p.headerLoad with
  | error rc => exact fun h => (by cases h)
  | ok u =>
    simp only [wp_bind]
    refine wp_mono (wp_entriesScan_index hsync hstart) (fun rc p₁ hp₁ => ?_) fun _ => id
    simp only [wp_whenever, logTruncate, wp_bind, wp_get, wp_assert, wp_modify, wp_pure]
    exact ⟨fun _ => ⟨fun _ => hp₁, fun _ => trivial⟩, fun _ => hp₁⟩

/-- The header of the last valid entry has its index. -/
theorem DamagedLog.headerAt_index (h : DamagedLog p k) : (p.headerAt k).reh.index = k := by
  rcases h.last with hfirst | ⟨rfl, -⟩
  · have hk : 0 ≤ k := le_trans (le_max_left ..) hfirst
    exact index_of_entryValidate ((h.valid k hfirst (le_refl k)).headerAt hk).2
  · rfl

/-- An intact log loads. -/
theorem DamagedLog.wp_logLoad (h : DamagedLog p k) (hall : p.log.entriesDetected = k + 1) :
    logLoad.wp (fun rc p' => rc = .ok () ∧ p' = { p.withNewest (p.headerAt k) with
      log := p.log.truncate (k + 1) }) (fun _ => False) p := by
  rw [logLoad, wp_bind, wp_get, h.header]
  simp only [wp_bind]
  refine h.wp_entriesScan hall ?_
  have hidx : (p.withNewest (p.headerAt k)).newestSync.reh.index = k := h.headerAt_index
  simp only [wp_whenever, logTruncate, wp_bind, wp_get, wp_assert, wp_modify, wp_pure, hidx]
  refine ⟨fun _ => ⟨fun _ => ⟨trivial, rfl⟩, fun hno => absurd ?_ hno⟩, fun hno => absurd rfl hno⟩
  omega

end Scan

/-- A log that is valid up to `k` is recovered to `k` exactly when the backend has detected no entry
after it. -/
theorem log_load_recovers {p : LoadProc} {k : Int} (h : DamagedLog p k) :
    RecoversTo p k ↔ (p.log.entriesDetected : Int) = k + 1 := by
  constructor
  · rintro ⟨p', hres, hsync, -, -, -⟩
    have hstart : p.log.entriesDetected ≠ 0 → scanStartingEntry p < p.log.entriesDetected := by
      intro hsome
      have hlast := h.last
      have hcounted := h.counted
      unfold LoadProc.firstIdx at hlast
      unfold scanStartingEntry
      split <;> omega
    have hend := wp_of_ok hres (wp_logLoad_index h.sync hstart) rfl
    rw [hsync, h.headerAt_index] at hend
    exact hend.symm
  · intro hall
    obtain ⟨rc, p', hres, rfl, rfl⟩ := exists_ok_of_wp (h.wp_logLoad hall)
    refine ⟨_, hres, rfl, rfl, ?_, fun i => ?_⟩
    · simp only [StoredLog.truncate]
      omega
    · simp only [StoredLog.truncate, Int.lt_add_one_iff]

/-- The header of an entry of term 1 without data. -/
def sampleHeader (magic i : Nat) : StoredHeader :=
  ⟨magic, 7, 9, ⟨0, 0, i, 1, [0], 0, false, 1⟩⟩

/-- A process of peer 7 in raft 9 that starts on a log of `entriesDetected` entries from `lowestIdx`
on, of which those up to `last` are intact. -/
def startsOn (storeType : StoreType) (lowestIdx : Int) (last entriesDetected : Nat) : LoadProc where
  opts := ⟨storeType, false, 1, 2⟩
  selfUuid := 7
  raftUuid := 9
  headerLoad := .ok ()
  log :=
    { headers := fun i => if i < entriesDetected then
        some (sampleHeader (if i ≤ last then entryMagic else 0) i) else none
      entriesDetected := entriesDetected
      lowestIdx := lowestIdx }
  newestSync := .null
  newestUnsync := .null

theorem damagedLog_startsOn {storeType : StoreType} {lowestIdx : Int} {last entriesDetected : Nat}
    (hlow : 0 ≤ lowestIdx ∨ (lowestIdx = -1 ∧ storeType = .posixFlatFile))
    (hlast : lowestIdx ≤ last) (hcount : last < entriesDetected) :
    DamagedLog (startsOn storeType lowestIdx last entriesDetected) last := by
  have hheader : ∀ i : Int, 0 ≤ i → i < entriesDetected →
      (startsOn storeType lowestIdx last entriesDetected).log.headers i.toNat =
        some (sampleHeader (if i.toNat ≤ last then entryMagic else 0) i.toNat) :=
    fun i h₁ h₂ => if_pos (by omega)
  have hterm : ∀ i : Int, 0 ≤ i → i < entriesDetected →
      ((startsOn storeType lowestIdx last entriesDetected).headerAt i).reh.term = 1 := by
    intro i h₁ h₂
    rw [LoadProc.headerAt, if_neg (not_lt.mpr h₁), hheader i h₁ h₂]
    rfl
  have hfirst : 0 ≤ (startsOn storeType lowestIdx last entriesDetected).firstIdx := le_max_left ..
  refine ⟨rfl, rfl, rfl, ?_, .inl ?_, ?_, fun i h₁ h₂ => ?_, fun i h₁ h₂ => ?_, fun hmore => ?_⟩
  · exact hlow.imp id fun h => ⟨h.1, .inl h.2⟩
  · exact max_le (by omega) hlast
  · exact_mod_cast hcount
  · refine ⟨_, hheader i (by omega) (by omega), ?_⟩
    rw [if_pos (by omega)]
    have hidx : ((i.toNat : Nat) : Int) = i := Int.toNat_of_nonneg (by omega)
    simp [entryValidate, sampleHeader, startsOn, hidx]
  · rw [hterm i (by omega) (by omega), hterm (i + 1) (by omega) (by omega)]
  · refine .inl ?_
    rintro ⟨reh, hreh, hvalid⟩
    rw [hheader _ (by omega) hmore, if_neg (by omega)] at hreh
    cases hreh
    simp [entryValidate, sampleHeader, entryMagic] at hvalid

/-- A log of three entries from index 5 on, scanned from index 6, is loaded whole. -/
theorem log_load_recovers_startsOn :
    DamagedLog (startsOn .rocksdbPersistentApp 5 7 8) 7 ∧
      RecoversTo (startsOn .rocksdbPersistentApp 5 7 8) 7 := by
  have h : DamagedLog (startsOn .rocksdbPersistentApp 5 7 8) 7 :=
    damagedLog_startsOn (.inl (by decide)) (by decide) (by decide)
  exact ⟨h, (log_load_recovers h).mpr rfl⟩

/-- The second block of a file was torn.  The load fails and truncates nothing. -/
theorem torn_tail_not_recovered :
    DamagedLog (startsOn .posixFlatFile (-1) 0 2) 0 ∧
      logLoad (startsOn .posixFlatFile (-1) 0 2) = .ok (.error .EINVAL)
        ((startsOn .posixFlatFile (-1) 0 2).withNewest (sampleHeader entryMagic 0)) ∧
      ¬ RecoversTo (startsOn .posixFlatFile (-1) 0 2) 0 := by
  refine ⟨damagedLog_startsOn (.inr ⟨rfl, rfl⟩) (by decide) (by decide), rfl, ?_⟩
  rintro ⟨p', hres, -⟩
  cases hres

end NiovaRaft
