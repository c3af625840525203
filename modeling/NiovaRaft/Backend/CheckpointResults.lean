import NiovaRaft.Backend.CheckpointRetention

/-!
# What a checkpoint's result says

`rsbr_checkpoint` returns an index or a negative error.  Where a path cannot be built it turns the
sign of the error, and its caller takes it for an index.  A checkpoint that is not among the highest
is removed again before its index is returned.  Apart from these two, results are honest, and the last
index names a checkpoint that is there.
-/

namespace NiovaRaft.RocksDirs

open Base

variable [UuidText]

/-! ## The paths -/

/-- Both uuids are known, and the longer path fits. -/
structure PathFits (ri : ChkptInstance) : Prop where
  thisPeerUuid_ne : ri.thisPeerUuid ≠ Uuid.null
  dbUuid_ne : ri.dbUuid ≠ Uuid.null
  length_le : ri.log.length + 119 ≤ pathMax

/-- The temporary path, with thirteen bytes more. -/
theorem checkpointPathBuild_tmp {base : List UInt8} {peer db : Uuid} {idx : EntryIdx} {len : Nat}
    (h : ¬(peer = Uuid.null ∨ db = Uuid.null ∨ len = 0 ∨ idx.1 < 0)) :
    (checkpointPathBuild base peer db idx true true len).2 =
      if base.length + 119 > len then -ENAMETOOLONG else 0 := by
  have hlt : idx.unsigned < 10 ^ 20 := Nat.lt_trans idx.unsigned_lt (by decide)
  have hlen : (base ++ slash :: subdirChkptSelf ++ slash :: ascii ".in-progress_".toList ++
      chkptName db peer idx.unsigned).length = base.length + 119 := by
    rw [List.length_append, List.length_append, List.length_append, chkptName_eq hlt,
      length_nameWith, length_decimal]
    rfl
  rw [checkpointPathBuild, if_neg h, ← hlen]
  rfl

omit [UuidText] in
theorem PathFits.args {ri : ChkptInstance} (h : PathFits ri) {idx : EntryIdx} (hidx : ¬idx.1 < 0) :
    ¬(ri.thisPeerUuid = Uuid.null ∨ ri.dbUuid = Uuid.null ∨ pathMax = 0 ∨ idx.1 < 0) := by
  rintro (hpeer | hdb | hlen | hneg)
  · exact h.thisPeerUuid_ne hpeer
  · exact h.dbUuid_ne hdb
  · exact absurd hlen (by decide)
  · exact hidx hneg

theorem tmp_of_fits {ri : ChkptInstance} (h : PathFits ri) {idx : EntryIdx} (hidx : ¬idx.1 < 0) :
    (checkpointPathBuild ri.log ri.thisPeerUuid ri.dbUuid idx true true pathMax).2 = 0 := by
  rw [checkpointPathBuild_tmp (h.args hidx), if_neg (Nat.not_lt.mpr h.length_le)]

/-- If the path does not fit, the error is one of two. -/
theorem tmp_of_not_fits {ri : ChkptInstance} (h : ¬PathFits ri) (idx : EntryIdx) :
    (checkpointPathBuild ri.log ri.thisPeerUuid ri.dbUuid idx true true pathMax).2 = -EINVAL ∨
      (checkpointPathBuild ri.log ri.thisPeerUuid ri.dbUuid idx true true pathMax).2 =
        -ENAMETOOLONG := by
  by_cases hargs : ri.thisPeerUuid = Uuid.null ∨ ri.dbUuid = Uuid.null ∨ pathMax = 0 ∨ idx.1 < 0
  · rw [checkpointPathBuild, if_pos hargs]
    exact .inl rfl
  · have hlong : ri.log.length + 119 > pathMax := Nat.not_le.mp fun hle =>
      h ⟨fun hpeer => hargs (.inl hpeer), fun hdb => hargs (.inr (.inl hdb)), hle⟩
    rw [checkpointPathBuild_tmp hargs, if_pos hlong]
    exact .inr rfl

/-- The name of a checkpoint of the server. -/
def selfName (ri : ChkptInstance) (idx : EntryIdx) : List UInt8 :=
  chkptName ri.dbUuid ri.thisPeerUuid idx.unsigned

theorem path_of_fits {ri : ChkptInstance} (h : PathFits ri) {idx : EntryIdx} (hidx : ¬idx.1 < 0) :
    (checkpointPathBuild ri.log ri.thisPeerUuid ri.dbUuid idx true false pathMax).2 = 0 ∧
      lastComponent
        (checkpointPathBuild ri.log ri.thisPeerUuid ri.dbUuid idx true false pathMax).1 =
          selfName ri idx := by
  have hle := h.length_le
  have hrc : (checkpointPathBuild ri.log ri.thisPeerUuid ri.dbUuid idx true false pathMax).2 = 0 := by
    rw [checkpointPathBuild_self_eq (h.args hidx)]
    exact if_neg (by omega)
  refine ⟨hrc, ?_⟩
  obtain ⟨-, hname⟩ | ⟨hfills, -⟩ := lastComponent_checkpointPathBuild hrc
  · rw [hname, selfName, chkptName_eq (Nat.lt_trans idx.unsigned_lt (by decide))]
  · rw [Fills] at hfills
    omega

/-! ## What a call comes to -/

omit [UuidText] in
/-- An index that is not negative is the number in the name. -/
theorem EntryIdx.unsigned_eq_toNat {idx : EntryIdx} (hidx : 0 ≤ idx.1) :
    idx.unsigned = idx.1.toNat := by
  have hlt := idx.2.2
  rw [EntryIdx.unsigned]
  omega

/-- The entry that a finished checkpoint of the server gets is its own. -/
theorem own_newEntry {ri : ChkptInstance} {env : CheckpointEnv} {idx : EntryIdx} (hidx : 0 ≤ idx.1) :
    Own ri (env.newEntry (selfName ri idx)) idx.1.toNat :=
  ⟨rfl, EntryIdx.unsigned_eq_toNat hidx ▸ idx.unsigned_lt,
    by rw [← EntryIdx.unsigned_eq_toNat hidx]; rfl⟩

/-- No entry has the name of the server's checkpoint at this index. -/
def Free (ri : ChkptInstance) (entries : List Dirent) (idx : EntryIdx) : Prop :=
  ∀ e ∈ entries, e.dName ≠ selfName ri idx

instance (ri : ChkptInstance) (entries : List Dirent) (idx : EntryIdx) :
    Decidable (Free ri entries idx) :=
  inferInstanceAs (Decidable (∀ e ∈ entries, e.dName ≠ selfName ri idx))

variable [DecimalText] [ChkptRegex]

/-- The entries before retention, when the checkpoint was moved to its place. -/
def withNew (ri : ChkptInstance) (env : CheckpointEnv) (st : ChkptState) : ChkptState :=
  { st with entries := st.entries ++ [env.newEntry (selfName ri env.chkptIdx)] }

/-- What a call of `rsbr_checkpoint` comes to. -/
inductive Outcome (ri : ChkptInstance) (env : CheckpointEnv) (st : ChkptState) :
    ChkptState × Int × Bool → Prop where
  | refused {rc : Int} (hrc : rc < 0) : Outcome ri env st (st, rc, false)
  | pathFailed {rc : Int} (hidx : 0 ≤ env.chkptIdx.1) (hlast : env.chkptIdx.1 ≠ st.checkpointLastIdx)
      (hfits : ¬PathFits ri) : Outcome ri env st (st, rc, false)
  | renameFailed {rc : Int} (hrc : rc < 0) :
      Outcome ri env st (checkpointCleanup ri env st, rc, false)
  | taken (hidx : 0 ≤ env.chkptIdx.1) (hlast : env.chkptIdx.1 ≠ st.checkpointLastIdx)
      (hfits : PathFits ri) (hfree : Free ri st.entries env.chkptIdx) :
      Outcome ri env st (checkpointCleanup ri env (withNew ri env st), env.chkptIdx.1, true)

omit [DecimalText] [ChkptRegex] in
theorem any_dName_iff {ri : ChkptInstance} {entries : List Dirent} {idx : EntryIdx} :
    (entries.any fun e => decide (e.dName = selfName ri idx)) = true ↔ ¬Free ri entries idx := by
  simp [Free, List.any_eq_true]

theorem checkpointCreate_outcome {ri : ChkptInstance} {env : CheckpointEnv} {st : ChkptState}
    {path : List UInt8} (hname : lastComponent path = selfName ri env.chkptIdx)
    (hidx : 0 ≤ env.chkptIdx.1) (hlast : env.chkptIdx.1 ≠ st.checkpointLastIdx)
    (hfits : PathFits ri) : Outcome ri env st (checkpointCreate ri env path st) := by
  rw [checkpointCreate]
  split
  · exact .refused (by decide)
  split
  · exact .refused (by decide)
  · rw [hname]
    by_cases hfree : Free ri st.entries env.chkptIdx
    · have hany : (st.entries.any fun e => decide (e.dName = selfName ri env.chkptIdx)) = false :=
        Bool.eq_false_iff.mpr fun h => any_dName_iff.mp h hfree
      cases hrename : env.renameErr with
      | none =>
        simp only [hany]
        exact .taken hidx hlast hfits hfree
      | some errno =>
        simp only [hany]
        exact .renameFailed (Int.neg_neg_of_pos errno.2)
    · have hany := any_dName_iff.mpr hfree
      cases hrename : env.renameErr with
      | none =>
        simp only [hany]
        exact .renameFailed (by decide)
      | some errno =>
        simp only [hany]
        exact .renameFailed (Int.neg_neg_of_pos errno.2)

/-- The sign of a path's error is turned. -/
theorem checkpoint_of_tmp {ri : ChkptInstance} {env : CheckpointEnv} {st : ChkptState} {errno : Int}
    (hidx : 0 ≤ env.chkptIdx.1) (hlast : env.chkptIdx.1 ≠ st.checkpointLastIdx)
    (hrc : (checkpointPathBuild ri.log ri.thisPeerUuid ri.dbUuid env.chkptIdx true true pathMax).2 =
      -errno) (hne : -errno ≠ 0) : checkpoint ri env st = (st, errno, false) := by
  rw [checkpoint, if_neg (Int.not_lt.mpr hidx), if_neg hlast]
  simp only [hrc, if_pos hne, Int.neg_neg]

/-- The failure of the path is returned as a positive number. -/
theorem checkpoint_pathFailed {ri : ChkptInstance} {env : CheckpointEnv} {st : ChkptState}
    (hidx : 0 ≤ env.chkptIdx.1) (hlast : env.chkptIdx.1 ≠ st.checkpointLastIdx)
    (hfits : ¬PathFits ri) :
    checkpoint ri env st = (st, EINVAL, false) ∨ checkpoint ri env st = (st, ENAMETOOLONG, false) := by
  rcases tmp_of_not_fits hfits env.chkptIdx with hrc | hrc
  · exact .inl (checkpoint_of_tmp hidx hlast hrc (by decide))
  · exact .inr (checkpoint_of_tmp hidx hlast hrc (by decide))

/-- Every exit of a call. -/
theorem checkpoint_outcome (ri : ChkptInstance) (env : CheckpointEnv) (st : ChkptState) :
    Outcome ri env st (checkpoint ri env st) := by
  rw [checkpoint]
  by_cases hneg : env.chkptIdx.1 < 0
  · rw [if_pos hneg]
    exact .refused (by decide)
  rw [if_neg hneg]
  by_cases hlast : env.chkptIdx.1 = st.checkpointLastIdx
  · rw [if_pos hlast]
    exact .refused (by decide)
  rw [if_neg hlast]
  by_cases hfits : PathFits ri
  · obtain ⟨hrc, hname⟩ := path_of_fits hfits hneg
    simp only [tmp_of_fits hfits hneg, hrc, ne_eq, not_true_eq_false, if_false]
    cases (if env.staleTmp then env.trashTmp else none) with
    | some errno => exact .refused (Int.neg_neg_of_pos errno.2)
    | none =>
      dsimp only
      split
      · exact .refused (by decide)
      · exact checkpointCreate_outcome hname (Int.not_lt.mp hneg) hlast hfits
  · have hfailed := checkpoint_pathFailed (Int.not_lt.mp hneg) hlast hfits
    rw [checkpoint, if_neg hneg, if_neg hlast] at hfailed
    rcases hfailed with hrc | hrc <;> rw [hrc] <;>
      exact .pathFailed (Int.not_lt.mp hneg) hlast hfits

/-! ## Retention within a call -/

section Cleanup

variable {ri : ChkptInstance} {env : CheckpointEnv} {st : ChkptState}

theorem checkpointCleanup_last :
    (checkpointCleanup ri env st).checkpointLastIdx = st.checkpointLastIdx := by
  rw [checkpointCleanup]
  cases env.scandirErr with
  | some errno => rfl
  | none => exact last_selfChkptScan_running

theorem mem_checkpointCleanup (h : NamesUnique st.entries) {e : Dirent} :
    e ∈ (checkpointCleanup ri env st).entries ↔ e ∈ st.entries ∧
      ¬(env.scandirErr = none ∧ (startupSelfChkptScanCb e = true ∧ env.trashFails e = false) ∧
        ∀ n, Own ri e n → max 1 ri.numCheckpoints ≤ higher ri st.entries n) := by
  rw [checkpointCleanup]
  cases env.scandirErr with
  | some errno => simp
  | none => simpa using mem_selfChkptScan h

/-- One of the highest stays, whatever the outcome. -/
theorem mem_checkpointCleanup_of_few (h : NamesUnique st.entries) {e : Dirent} {n : Nat}
    (he : e ∈ st.entries) (hn : Own ri e n)
    (hfew : higher ri st.entries n < max 1 ri.numCheckpoints) :
    e ∈ (checkpointCleanup ri env st).entries := by
  refine (mem_checkpointCleanup h).mpr ⟨he, ?_⟩
  rintro ⟨-, -, hall⟩
  exact absurd hfew (Nat.not_lt.mpr (hall n hn))

theorem names_checkpointCleanup (h : NamesUnique st.entries) :
    NamesUnique (checkpointCleanup ri env st).entries := by
  rw [checkpointCleanup]
  cases env.scandirErr with
  | some errno => exact h
  | none =>
    show NamesUnique (selfChkptScanLoop ri false env.trashFails 0 (scanned st.entries) st).entries
    rw [(selfChkptScanLoop_entries 0 (scanned st.entries) st).1]
    exact h.sublist (List.filter_sublist.map Dirent.dName)

end Cleanup

section New

variable {ri : ChkptInstance} {env : CheckpointEnv} {st : ChkptState}

omit [DecimalText] [ChkptRegex] in
theorem mem_withNew {e : Dirent} : e ∈ (withNew ri env st).entries ↔
    e ∈ st.entries ∨ e = env.newEntry (selfName ri env.chkptIdx) := by
  simp [withNew]

omit [DecimalText] [ChkptRegex] in
theorem names_withNew (h : NamesUnique st.entries) (hfree : Free ri st.entries env.chkptIdx) :
    NamesUnique (withNew ri env st).entries := by
  show ((st.entries ++ [env.newEntry (selfName ri env.chkptIdx)]).map Dirent.dName).Nodup
  rw [List.map_append, List.nodup_append]
  refine ⟨h, List.nodup_singleton _, ?_⟩
  intro name hmem name' hmem' heq
  obtain ⟨e, he, rfl⟩ := List.mem_map.mp hmem
  rw [List.map_singleton, List.mem_singleton] at hmem'
  exact hfree e he (heq.trans hmem')

omit [DecimalText] [ChkptRegex] in
/-- A new checkpoint is not higher than itself, nor than a higher one. -/
theorem higher_withNew (hidx : 0 ≤ env.chkptIdx.1) {n : Nat} (hn : env.chkptIdx.1.toNat ≤ n) :
    higher ri (withNew ri env st).entries n = higher ri st.entries n := by
  have hnot : ¬∃ m, n < m ∧ Own ri (env.newEntry (selfName ri env.chkptIdx)) m := by
    rintro ⟨m, hlt, hm⟩
    rw [hm.unique (own_newEntry hidx)] at hlt
    omega
  rw [higher, higher, withNew, List.countP_append, List.countP_singleton, if_neg (by simpa using hnot),
    Nat.add_zero]

end New

/-! ## Honest results -/

/-- A result that is not negative is the index of a checkpoint that is there, and the result is
negative if no checkpoint was moved to its place. -/
structure Honest (ri : ChkptInstance) (result : ChkptState × Int × Bool) : Prop where
  exists_own : 0 ≤ result.2.1 → ∃ e ∈ result.1.entries, Own ri e result.2.1.toNat
  negative : result.2.2 = false → result.2.1 < 0

/-- When results are honest: there is nothing to do, or the path fits, and the checkpoint is there
already or will be among the highest. -/
def Sound (ri : ChkptInstance) (idx : EntryIdx) (st : ChkptState) : Prop :=
  idx.1 < 0 ∨ idx.1 = st.checkpointLastIdx ∨
    (PathFits ri ∧ (¬Free ri st.entries idx ∨
      higher ri st.entries idx.1.toNat < max 1 ri.numCheckpoints))

omit [DecimalText] [ChkptRegex] in
theorem honest_of_negative {ri : ChkptInstance} {st : ChkptState} {rc : Int} (hrc : rc < 0)
    (renamed : Bool) : Honest ri (st, rc, renamed) :=
  ⟨fun hle => absurd hrc (Int.not_lt.mpr hle), fun _ => hrc⟩

theorem honest_of_sound {ri : ChkptInstance} {env : CheckpointEnv} {st : ChkptState}
    (h : NamesUnique st.entries) (hsound : Sound ri env.chkptIdx st) :
    Honest ri (checkpoint ri env st) := by
  have houtcome := checkpoint_outcome ri env st
  generalize checkpoint ri env st = result at houtcome ⊢
  cases houtcome with
  | refused hrc => exact honest_of_negative hrc false
  | renameFailed hrc => exact honest_of_negative hrc false
  | pathFailed hidx hlast hfits =>
    rcases hsound with hneg | hsame | ⟨hfits', -⟩
    · exact absurd hneg (Int.not_lt.mpr hidx)
    · exact absurd hsame hlast
    · exact absurd hfits' hfits
  | taken hidx hlast hfits hfree =>
    have hfew : higher ri st.entries env.chkptIdx.1.toNat < max 1 ri.numCheckpoints := by
      rcases hsound with hneg | hsame | ⟨-, htaken | hfew⟩
      · exact absurd hneg (Int.not_lt.mpr hidx)
      · exact absurd hsame hlast
      · exact absurd hfree htaken
      · exact hfew
    have hown : Own ri (env.newEntry (selfName ri env.chkptIdx)) env.chkptIdx.1.toNat :=
      own_newEntry hidx
    refine ⟨fun _ => ⟨_, ?_, hown⟩, fun hnot => Bool.noConfusion hnot⟩
    refine mem_checkpointCleanup_of_few (names_withNew h hfree) (mem_withNew.mpr (.inr rfl)) hown ?_
    rw [higher_withNew hidx (le_refl _)]
    exact hfew

/-- Every step succeeds. -/
def CheckpointEnv.allWell (idx : EntryIdx) : CheckpointEnv :=
  ⟨idx, false, none, false, false, false, none, 0, [], none, fun _ => false, fun _ => false⟩

/-- Then a new checkpoint is made. -/
theorem checkpoint_allWell {ri : ChkptInstance} {idx : EntryIdx} {st : ChkptState}
    (hidx : 0 ≤ idx.1) (hlast : idx.1 ≠ st.checkpointLastIdx) (hfits : PathFits ri)
    (hfree : Free ri st.entries idx) :
    checkpoint ri (.allWell idx) st =
      (checkpointCleanup ri (.allWell idx) (withNew ri (.allWell idx) st), idx.1, true) := by
  obtain ⟨hrc, hname⟩ := path_of_fits hfits (Int.not_lt.mpr hidx)
  have htmp := tmp_of_fits hfits (Int.not_lt.mpr hidx)
  have hany : (st.entries.any fun e => decide (e.dName = selfName ri idx)) = false :=
    Bool.eq_false_iff.mpr fun h => any_dName_iff.mp h hfree
  have hneg : ¬idx.1 < 0 := Int.not_lt.mpr hidx
  simp only [checkpoint, checkpointCreate, CheckpointEnv.allWell, if_neg hneg, if_neg hlast, htmp,
    hrc, hname, hany]
  rfl

/-- Without these, some outcome of the steps gives a result that is not honest. -/
theorem sound_of_honest {ri : ChkptInstance} {idx : EntryIdx} {st : ChkptState}
    (h : NamesUnique st.entries) (hhonest : Honest ri (checkpoint ri (.allWell idx) st)) :
    Sound ri idx st := by
  by_cases hneg : idx.1 < 0
  · exact .inl hneg
  by_cases hlast : idx.1 = st.checkpointLastIdx
  · exact .inr (.inl hlast)
  have hidx : 0 ≤ idx.1 := Int.not_lt.mp hneg
  have hfits : PathFits ri := by
    by_contra hfits
    have hfailed : checkpoint ri (.allWell idx) st = (st, EINVAL, false) ∨
        checkpoint ri (.allWell idx) st = (st, ENAMETOOLONG, false) :=
      checkpoint_pathFailed hidx hlast hfits
    rcases hfailed with hrc | hrc
    · rw [hrc] at hhonest
      exact absurd (hhonest.negative rfl) (show ¬EINVAL < 0 by decide)
    · rw [hrc] at hhonest
      exact absurd (hhonest.negative rfl) (show ¬ENAMETOOLONG < 0 by decide)
  refine .inr (.inr ⟨hfits, ?_⟩)
  by_cases hfree : Free ri st.entries idx
  · right
    rw [checkpoint_allWell hidx hlast hfits hfree] at hhonest
    obtain ⟨e, he, hown⟩ := hhonest.exists_own hidx
    obtain ⟨hmem, hkept⟩ := (mem_checkpointCleanup (names_withNew h hfree)).mp he
    refine Nat.not_le.mp fun hmany => hkept ⟨rfl, ⟨hown.accepted, rfl⟩, fun n hn => ?_⟩
    have hsame : higher ri (withNew ri (.allWell idx) st).entries idx.1.toNat =
        higher ri st.entries idx.1.toNat := higher_withNew hidx (le_refl _)
    rw [hn.unique hown]
    exact hsame.symm ▸ hmany
  · exact .inl hfree

/-! ## Runs -/

/-- The last index is that of a checkpoint that is there. -/
def Named (ri : ChkptInstance) (st : ChkptState) : Prop :=
  st.checkpointLastIdx = -1 ∨
    (0 ≤ st.checkpointLastIdx ∧ ∃ e ∈ st.entries, Own ri e st.checkpointLastIdx.toNat)

omit [DecimalText] [ChkptRegex] in
theorem Named.congr {ri : ChkptInstance} {st st' : ChkptState} (hentries : st'.entries = st.entries)
    (hlast : st'.checkpointLastIdx = st.checkpointLastIdx) : Named ri st' ↔ Named ri st := by
  rw [Named, Named, hentries, hlast]

/-- The checkpoint of the last index is among those that are kept. -/
def LastKept (ri : ChkptInstance) (st : ChkptState) : Prop :=
  0 ≤ st.checkpointLastIdx →
    higher ri st.entries st.checkpointLastIdx.toNat < max 1 ri.numCheckpoints

/-- What `raft_server_take_chkpt` leaves, if there is no fatal error. -/
theorem takeChkpt_cases {ri : ChkptInstance} {maxIdx : EntryIdx} {env : CheckpointEnv}
    {st st' : ChkptState} (h : takeChkpt ri maxIdx env st = some st') :
    (st'.entries = st.entries ∧ st'.checkpointLastIdx = st.checkpointLastIdx) ∨
      ∃ mid rc renamed, checkpoint ri env st = (mid, rc, renamed) ∧ st'.entries = mid.entries ∧
        ((rc < 0 ∧ st'.checkpointLastIdx = mid.checkpointLastIdx) ∨
          (0 ≤ rc ∧ mid.checkpointLastIdx ≤ rc ∧ st'.checkpointLastIdx = rc)) := by
  rw [takeChkpt] at h
  by_cases hmax : maxIdx.1 < 0
  · rw [if_pos hmax] at h
    cases h
    exact .inl ⟨rfl, rfl⟩
  rw [if_neg hmax] at h
  rcases hresult : checkpoint ri env st with ⟨mid, rc, renamed⟩
  rw [hresult] at h
  dsimp only at h
  by_cases hfatal : rc ≥ 0 ∧ rc < mid.checkpointLastIdx
  · rw [if_pos hfatal] at h
    cases h
  rw [if_neg hfatal] at h
  cases h
  refine .inr ⟨mid, rc, renamed, rfl, ?_, ?_⟩
  · split <;> split <;> rfl
  · by_cases hrc : rc ≥ 0
    · refine .inr ⟨hrc, by omega, ?_⟩
      rw [if_pos hrc]
      split <;> rfl
    · refine .inl ⟨by omega, ?_⟩
      rw [if_neg hrc]
      split <;> rfl

/-- An index that is not lower than the last one is that of a checkpoint. -/
theorem own_of_outcome {ri : ChkptInstance} {env : CheckpointEnv} {st mid : ChkptState} {rc : Int}
    {renamed : Bool} (hnames : NamesUnique st.entries)
    (hsound : Sound ri env.chkptIdx st ∨ PathFits ri ∧ env.chkptIdx.1 < st.checkpointLastIdx)
    (hresult : checkpoint ri env st = (mid, rc, renamed)) (hrc : 0 ≤ rc)
    (hle : mid.checkpointLastIdx ≤ rc) : ∃ e ∈ mid.entries, Own ri e rc.toNat := by
  rcases hsound with hsound | ⟨hfits, hlower⟩
  · have hhonest := honest_of_sound hnames hsound
    rw [hresult] at hhonest
    exact hhonest.exists_own hrc
  · have houtcome := checkpoint_outcome ri env st
    rw [hresult] at houtcome
    cases houtcome with
    | refused hneg => exact absurd hneg (Int.not_lt.mpr hrc)
    | pathFailed hidx hlast hfits' => exact absurd hfits hfits'
    | renameFailed hneg => exact absurd hneg (Int.not_lt.mpr hrc)
    | taken hidx hlast hfits hfree =>
      rw [checkpointCleanup_last] at hle
      exact absurd hlower (Int.not_lt.mpr hle)

/-- An index that is not lower becomes the last one. -/
theorem takeChkpt_of_le {ri : ChkptInstance} {maxIdx : EntryIdx} {env : CheckpointEnv}
    {st mid : ChkptState} {rc : Int} {renamed : Bool} (hmax : 0 ≤ maxIdx.1)
    (hresult : checkpoint ri env st = (mid, rc, renamed)) (hrc : 0 ≤ rc)
    (hle : mid.checkpointLastIdx ≤ rc) :
    ∃ st', takeChkpt ri maxIdx env st = some st' ∧ st'.entries = mid.entries ∧
      st'.checkpointLastIdx = rc := by
  rw [takeChkpt, if_neg (Int.not_lt.mpr hmax), hresult]
  dsimp only
  rw [if_neg (fun h => absurd h.2 (Int.not_lt.mpr hle)), if_pos hrc]
  refine ⟨_, rfl, ?_, ?_⟩
  · split <;> rfl
  · split <;> rfl

/-- The names stay different, and the last index stays that of a checkpoint. -/
theorem named_takeChkpt {ri : ChkptInstance} {maxIdx : EntryIdx} {env : CheckpointEnv}
    {st st' : ChkptState} (hnames : NamesUnique st.entries) (hnamed : Named ri st)
    (hsound : Sound ri env.chkptIdx st ∨ PathFits ri ∧ env.chkptIdx.1 < st.checkpointLastIdx)
    (hkept : LastKept ri st)
    (h : takeChkpt ri maxIdx env st = some st') : NamesUnique st'.entries ∧ Named ri st' := by
  obtain ⟨hentries, hlast⟩ | ⟨mid, rc, renamed, hresult, hentries, hlast⟩ := takeChkpt_cases h
  · exact ⟨hentries ▸ hnames, (Named.congr hentries hlast).mpr hnamed⟩
  have houtcome := checkpoint_outcome ri env st
  rw [hresult] at houtcome
  refine ⟨?_, ?_⟩
  · rw [hentries]
    cases houtcome with
    | refused hrc => exact hnames
    | pathFailed hidx hlast hfits => exact hnames
    | renameFailed hrc => exact names_checkpointCleanup hnames
    | taken hidx hlast hfits hfree => exact names_checkpointCleanup (names_withNew hnames hfree)
  · obtain ⟨hrc, hlast⟩ | ⟨hrc, hle, hlast⟩ := hlast
    · -- the last index stays, and so does its checkpoint
      cases houtcome with
      | refused => exact (Named.congr hentries hlast).mpr hnamed
      | pathFailed => exact (Named.congr hentries hlast).mpr hnamed
      | renameFailed =>
        rw [checkpointCleanup_last] at hlast
        rw [Named, hentries, hlast]
        rcases hnamed with hnone | ⟨hle, e, he, hown⟩
        · exact .inl hnone
        · exact .inr ⟨hle, e, mem_checkpointCleanup_of_few hnames he hown (hkept hle), hown⟩
      | taken hidx => exact absurd hrc (Int.not_lt.mpr hidx)
    · right
      rw [hentries, hlast]
      exact ⟨hrc, own_of_outcome hnames hsound hresult hrc hle⟩

/-- Calls of `raft_server_take_chkpt` one after the other, each in a state that meets the
condition. -/
inductive Takes (ri : ChkptInstance) (ok : EntryIdx → ChkptState → Prop) (st : ChkptState) :
    ChkptState → Prop where
  | refl : Takes ri ok st st
  | call {mid st' : ChkptState} {maxIdx : EntryIdx} {env : CheckpointEnv} (hbefore : Takes ri ok st mid)
      (hok : ok env.chkptIdx mid) (hcall : takeChkpt ri maxIdx env mid = some st') : Takes ri ok st st'

/-- Results are honest, whatever the outcomes of the steps, exactly if there is nothing to do, or the
path fits and the checkpoint is there already or will be among the highest.  In a run whose calls are
all like that, and in which the checkpoint of the last index is among those to be kept, the last index
is always that of a checkpoint. -/
theorem honest_iff_sound {ri : ChkptInstance} {st : ChkptState} (hnames : NamesUnique st.entries) :
    (∀ idx : EntryIdx,
      (∀ env : CheckpointEnv, env.chkptIdx = idx → Honest ri (checkpoint ri env st)) ↔
        Sound ri idx st) ∧
    (Named ri st → ∀ st',
      Takes ri (fun idx mid => Sound ri idx mid ∧ LastKept ri mid) st st' → Named ri st') := by
  constructor
  · intro idx
    constructor
    · intro hall
      exact sound_of_honest hnames (hall _ rfl)
    · rintro hsound env rfl
      exact honest_of_sound hnames hsound
  · intro hnamed st' hrun
    have hboth : NamesUnique st'.entries ∧ Named ri st' := by
      induction hrun with
      | refl => exact ⟨hnames, hnamed⟩
      | call hbefore hok hcall ih => exact named_takeChkpt ih.1 ih.2 (.inl hok.1) hok.2 hcall
    exact hboth.2

/-! ### A log directory with a long name -/

/-- A server whose log directory has a name of four thousand bytes. -/
def longLog : ChkptInstance := ⟨List.replicate 4000 97, onesUuid, twosUuid, 1⟩

/-- A server without a checkpoint. -/
def noCheckpoint : ChkptState := ⟨[], [], -1, 0⟩

def hundred : EntryIdx := ⟨100, by decide⟩

omit [UuidText] [DecimalText] [ChkptRegex] in
/-- The path of the checkpoint is too long, and the last index becomes thirty-six. -/
theorem error_as_checkpoint_index :
    ¬@Honest .lower longLog (@checkpoint .lower .usual (.exact .lower) longLog (.allWell hundred)
        noCheckpoint) ∧
      @Named .lower longLog noCheckpoint ∧
      ∃ st', @takeChkpt .lower .usual (.exact .lower) longLog hundred (.allWell hundred)
        noCheckpoint = some st' ∧ st'.checkpointLastIdx = 36 ∧ ¬@Named .lower longLog st' := by
  have htmp : (@checkpointPathBuild .lower longLog.log longLog.thisPeerUuid longLog.dbUuid hundred
      true true pathMax).2 = -36 := by
    rw [@checkpointPathBuild_tmp .lower _ _ _ hundred pathMax (by decide), if_pos]
    · rfl
    · rw [longLog, List.length_replicate]
      decide
  have hresult := @checkpoint_of_tmp .lower .usual (.exact .lower) longLog (.allWell hundred)
    noCheckpoint 36 (by decide) (by decide) htmp (by decide)
  refine ⟨?_, .inl rfl, ?_⟩
  · rw [hresult]
    intro hhonest
    exact absurd (@Honest.negative .lower _ _ hhonest rfl) (by decide)
  · obtain ⟨st', hcall, hentries, hlast⟩ := @takeChkpt_of_le .lower .usual (.exact .lower) longLog
      hundred _ _ _ _ _ (by decide) hresult (by decide) (by decide)
    refine ⟨st', hcall, hlast, ?_⟩
    rintro (hnone | ⟨-, e, he, -⟩)
    · rw [hlast] at hnone
      exact absurd hnone (by decide)
    · rw [hentries] at he
      cases he

omit [UuidText] [DecimalText] [ChkptRegex] in
theorem oneKept_fits : PathFits oneKept := ⟨by decide, by decide, by decide⟩

omit [UuidText] [DecimalText] [ChkptRegex] in
theorem noCheckpoint_sound : @Sound .lower oneKept hundred noCheckpoint := by
  refine .inr (.inr ⟨oneKept_fits, .inr ?_⟩)
  exact lt_of_eq_of_lt List.countP_nil (by decide)

omit [UuidText] [DecimalText] [ChkptRegex] in
/-- In a short directory a run of one call. -/
theorem honest_iff_sound_hundred :
    @Honest .lower oneKept (@checkpoint .lower .usual (.exact .lower) oneKept (.allWell hundred)
        noCheckpoint) ∧
      ∃ st', @takeChkpt .lower .usual (.exact .lower) oneKept hundred (.allWell hundred)
        noCheckpoint = some st' ∧ st'.checkpointLastIdx = 100 ∧ @Named .lower oneKept st' := by
  let text : UuidText := .lower
  let decimals : DecimalText := .usual
  let regex : ChkptRegex := .exact .lower
  have hspec := @honest_iff_sound .lower .usual (.exact .lower) oneKept noCheckpoint List.nodup_nil
  have hresult := @checkpoint_allWell .lower .usual (.exact .lower) oneKept hundred noCheckpoint
    (by decide) (by decide) oneKept_fits (fun e he => by cases he)
  refine ⟨(hspec.1 hundred).mpr noCheckpoint_sound (.allWell hundred) rfl, ?_⟩
  obtain ⟨st', hcall, -, hlast⟩ := @takeChkpt_of_le .lower .usual (.exact .lower) oneKept hundred
    _ _ _ _ _ (by decide) hresult (by decide) (by
      rw [@checkpointCleanup_last .lower .usual (.exact .lower)]
      decide)
  exact ⟨st', hcall, hlast, hspec.2 (.inl rfl) st'
    (.call .refl ⟨noCheckpoint_sound, fun hle => absurd hle (by decide)⟩ hcall)⟩

/-! ### After a boot -/

/-- The last index is that of the highest checkpoint, as the scan at boot leaves it. -/
def Highest (ri : ChkptInstance) (st : ChkptState) : Prop :=
  Named ri st ∧ ∀ e ∈ st.entries, ∀ n, Own ri e n → (n : Int) ≤ st.checkpointLastIdx

omit [UuidText] [DecimalText] [ChkptRegex] in
theorem zero_lt_kept (ri : ChkptInstance) : 0 < max 1 ri.numCheckpoints :=
  Nat.lt_of_lt_of_le Nat.zero_lt_one (Nat.le_max_left _ _)

/-- Unless there is none, one of the own checkpoints is the highest. -/
theorem exists_highest {ri : ChkptInstance} {entries : List Dirent} (h : NamesUnique entries) :
    (∀ e ∈ entries, ∀ n, ¬Own ri e n) ∨
      ∃ e ∈ entries, ∃ n, Own ri e n ∧ ∀ d ∈ entries, ∀ m, Own ri d m → m ≤ n := by
  cases hl : ownScanned ri entries with
  | nil => exact .inl (ownScanned_nil.mp hl)
  | cons d ds =>
    obtain ⟨hd, hown, hhighest⟩ := ownScanned_head h hl
    exact .inr ⟨d, hd, ownKey ri d, hown, hhighest⟩

/-- The scan at boot leaves it so, if no name has a number that an index cannot have. -/
theorem highest_selfChkptScan {ri : ChkptInstance} {trashFails : Dirent → Bool} {st : ChkptState}
    (h : NamesUnique st.entries) (hlast : st.checkpointLastIdx = -1)
    (hsmall : ∀ e ∈ st.entries, ∀ n, Own ri e n → n < 2 ^ 63) :
    Highest ri (selfChkptScan ri true trashFails st) := by
  have hmem : ∀ e ∈ (selfChkptScan ri true trashFails st).entries, e ∈ st.entries :=
    fun e he => ((mem_selfChkptScan h).mp he).1
  rcases @exists_highest _ _ _ ri _ h with hnone | ⟨e, he, n, hn, hmax⟩
  · refine ⟨.inl ((last_selfChkptScan_none hnone).trans hlast), fun d hd m hm => ?_⟩
    exact absurd hm (hnone d (hmem d hd) m)
  · have hscan : (selfChkptScan ri true trashFails st).checkpointLastIdx = n :=
      (last_selfChkptScan_booting h he hn hmax).trans (EntryIdx.ofUnsigned_val (hsmall e he n hn))
    refine ⟨.inr ⟨by omega, e, ?_, ?_⟩, fun d hd m hm => ?_⟩
    · refine (mem_selfChkptScan h).mpr ⟨he, fun hgone => ?_⟩
      have hmany := hgone.2 n hn
      rw [higher_eq_zero hmax] at hmany
      exact absurd (zero_lt_kept ri) (Nat.not_lt.mpr hmany)
    · rw [hscan]
      exact hn
    · rw [hscan]
      exact_mod_cast hmax d (hmem d hd) m hm

omit [DecimalText] [ChkptRegex] in
theorem Highest.higher_eq {ri : ChkptInstance} {st : ChkptState} (h : Highest ri st) {n : Nat}
    (hn : st.checkpointLastIdx ≤ n) : higher ri st.entries n = 0 := by
  refine higher_eq_zero fun e he m hm => ?_
  have hle := h.2 e he m hm
  omega

omit [DecimalText] [ChkptRegex] in
theorem Highest.lastKept {ri : ChkptInstance} {st : ChkptState} (h : Highest ri st) :
    LastKept ri st := by
  intro hle
  rw [h.higher_eq (by omega)]
  omega

/-- If the path fits, calls keep the last index the highest. -/
theorem highest_takeChkpt {ri : ChkptInstance} {maxIdx : EntryIdx} {env : CheckpointEnv}
    {st st' : ChkptState} (hfits : PathFits ri) (hnames : NamesUnique st.entries)
    (hhighest : Highest ri st) (h : takeChkpt ri maxIdx env st = some st') :
    NamesUnique st'.entries ∧ Highest ri st' := by
  have hsound : Sound ri env.chkptIdx st ∨
      PathFits ri ∧ env.chkptIdx.1 < st.checkpointLastIdx := by
    by_cases hlower : env.chkptIdx.1 < st.checkpointLastIdx
    · exact .inr ⟨hfits, hlower⟩
    · refine .inl (.inr (.inr ⟨hfits, .inr ?_⟩))
      rw [hhighest.higher_eq (by omega)]
      exact zero_lt_kept ri
  have hnamed := named_takeChkpt hnames hhighest.1 hsound hhighest.lastKept h
  refine ⟨hnamed.1, hnamed.2, ?_⟩
  intro e he n hn
  obtain ⟨hentries, hlast⟩ | ⟨mid, rc, renamed, hresult, hentries, hlast⟩ := takeChkpt_cases h
  · rw [hlast]
    exact hhighest.2 e (hentries ▸ he) n hn
  have houtcome := checkpoint_outcome ri env st
  rw [hresult] at houtcome
  rw [hentries] at he
  -- the checkpoints from before are not above the last index of before
  have hbefore : e ∈ st.entries → mid.checkpointLastIdx = st.checkpointLastIdx →
      (n : Int) ≤ st'.checkpointLastIdx := by
    intro hmem hmid
    have hle := hhighest.2 e hmem n hn
    obtain ⟨-, hlast⟩ | ⟨-, hle', hlast⟩ := hlast
    · omega
    · omega
  cases houtcome with
  | refused => exact hbefore he rfl
  | pathFailed => exact hbefore he rfl
  | renameFailed =>
    exact hbefore ((mem_checkpointCleanup hnames).mp he).1 checkpointCleanup_last
  | taken hidx hne hfits hfree =>
    rcases mem_withNew.mp ((mem_checkpointCleanup (names_withNew hnames hfree)).mp he).1 with hmem | rfl
    · exact hbefore hmem checkpointCleanup_last
    · rw [hn.unique (own_newEntry hidx)]
      obtain ⟨hneg, -⟩ | ⟨-, -, hlast⟩ := hlast
      · omega
      · omega

/-- After a boot, it is enough that the path fits. -/
theorem highest_takes {ri : ChkptInstance} {st st' : ChkptState} (hfits : PathFits ri)
    (hnames : NamesUnique st.entries) (hhighest : Highest ri st)
    (hrun : Takes ri (fun _ _ => True) st st') : Highest ri st' := by
  have hboth : NamesUnique st'.entries ∧ Highest ri st' := by
    induction hrun with
    | refl => exact ⟨hnames, hhighest⟩
    | call hbefore hok hcall ih => exact highest_takeChkpt hfits ih.1 ih.2 hcall
  exact hboth.2

end NiovaRaft.RocksDirs
