import NiovaRaft.Backend.CheckpointNames
import NiovaRaft.Base.Retention

/-!
# Which checkpoints are kept

The names of the server's own checkpoints of its database differ in their digits only, so the last
one by name has the highest index.  The scan starts there, keeps as many as it should, at least one,
and moves everything else it was shown to the trash.
-/

namespace NiovaRaft.RocksDirs

open Base

variable [UuidText]

/-! ## The server's own checkpoints -/

/-- A checkpoint of the database, made by the server itself, and the number in its name. -/
structure Own (ri : ChkptInstance) (e : Dirent) (n : Nat) : Prop where
  isDir : e.dType = .dir
  lt : n < 2 ^ 64
  dName_eq : e.dName = chkptName ri.dbUuid ri.thisPeerUuid n

theorem Own.nameWith_eq {ri : ChkptInstance} {e : Dirent} {n : Nat} (h : Own ri e n) :
    e.dName = nameWith ri.dbUuid ri.thisPeerUuid (decimal 20 n) :=
  h.dName_eq.trans (chkptName_eq (Nat.lt_trans h.lt (by decide)) _ _)

theorem Own.unique {ri : ChkptInstance} {e : Dirent} {m n : Nat} (hm : Own ri e m)
    (hn : Own ri e n) : m = n := by
  have hdigits := (nameWith_inj (hm.nameWith_eq.symm.trans hn.nameWith_eq)).2.2
  exact decimal_inj (Nat.lt_trans hm.lt (by decide)) (Nat.lt_trans hn.lt (by decide)) hdigits

/-- Names are in the order of the indexes. -/
theorem Own.lt_iff {ri : ChkptInstance} {d e : Dirent} {m n : Nat} (hd : Own ri d m)
    (he : Own ri e n) : d.dName < e.dName ↔ m < n := by
  rw [hd.nameWith_eq, he.nameWith_eq, nameWith, nameWith, append_lt_append_iff,
    List.cons_lt_cons_iff, decimal_lt_decimal, Nat.mod_eq_of_lt (Nat.lt_trans hd.lt (by decide)),
    Nat.mod_eq_of_lt (Nat.lt_trans he.lt (by decide))]
  simp

omit [UuidText] in
theorem EntryIdx.unsigned_ofUnsigned (v : UInt64) : (EntryIdx.ofUnsigned v).unsigned = v.toNat := by
  have hlt := v.toNat_lt
  rw [EntryIdx.unsigned, EntryIdx.ofUnsigned]
  split
  · show ((v.toNat : Int) % 2 ^ 64).toNat = v.toNat
    omega
  · show (((v.toNat : Int) - 2 ^ 64) % 2 ^ 64).toNat = v.toNat
    omega

variable [DecimalText]

/-- The number that the scan finds in an own checkpoint. -/
def ownIdx (ri : ChkptInstance) (e : Dirent) : Option Nat :=
  match chkptScanParseEntry e with
  | .error _ => none
  | .ok (dbUuid, peerUuid, chkptIdx) =>
      if ri.thisPeerUuid ≠ peerUuid ∨ ri.dbUuid ≠ dbUuid then none else some chkptIdx.unsigned

theorem Own.parse {ri : ChkptInstance} {e : Dirent} {n : Nat} (h : Own ri e n) :
    chkptScanParseEntry e =
      .ok (ri.dbUuid, ri.thisPeerUuid, EntryIdx.ofUnsigned (UInt64.ofNat n)) :=
  chkptScanParseEntry_decimal h.isDir (dReclen_of_nameWith h.nameWith_eq) (by decide) (le_refl 20)
    (Nat.lt_trans h.lt (by decide)) h.lt h.nameWith_eq

theorem Own.ownIdx_eq {ri : ChkptInstance} {e : Dirent} {n : Nat} (h : Own ri e n) :
    ownIdx ri e = some n := by
  have hn : (UInt64.ofNat n).toNat = n := by
    rw [UInt64.toNat_ofNat']
    exact Nat.mod_eq_of_lt h.lt
  simp [ownIdx, h.parse, EntryIdx.unsigned_ofUnsigned, hn]

/-! ## The loop -/

/-- The scan takes the entry for an own checkpoint. -/
def isOwn (ri : ChkptInstance) (e : Dirent) : Bool := (ownIdx ri e).isSome

/-- The index that the scan reads. -/
def parsedIdx (e : Dirent) : Int :=
  match chkptScanParseEntry e with
  | .ok (_, _, chkptIdx) => chkptIdx.1
  | .error _ => 0

/-- What the loop moves to the trash. -/
def removed (ri : ChkptInstance) (trashFails : Dirent → Bool) (found : Nat) (dents : List Dirent) :
    List Dirent :=
  (dropped (isOwn ri) ri.numCheckpoints found dents).filter fun e => !trashFails e

section Loop

variable {ri : ChkptInstance} {booting : Bool} {trashFails : Dirent → Bool}

theorem selfChkptScanLoop_cons (found : Nat) (dent : Dirent) (dents : List Dirent)
    (st : ChkptState) :
    selfChkptScanLoop ri booting trashFails found (dent :: dents) st =
      if isOwn ri dent = false then
        selfChkptScanLoop ri booting trashFails found dents (moveItemToTrash trashFails dent st)
      else if found + 1 = 1 then
        selfChkptScanLoop ri booting trashFails (found + 1) dents
          (if booting then { st with checkpointLastIdx := parsedIdx dent } else st)
      else if found + 1 > ri.numCheckpoints then
        selfChkptScanLoop ri booting trashFails (found + 1) dents
          (moveItemToTrash trashFails dent st)
      else selfChkptScanLoop ri booting trashFails (found + 1) dents st := by
  rw [selfChkptScanLoop, isOwn, ownIdx, parsedIdx]
  cases hparse : chkptScanParseEntry dent with
  | error rc => rfl
  | ok result =>
    obtain ⟨db, peer, idx⟩ := result
    by_cases hforeign : ri.thisPeerUuid ≠ peer ∨ ri.dbUuid ≠ db
    · simp only [if_pos hforeign]
      rfl
    · simp only [if_neg hforeign]
      rfl

omit [UuidText] [DecimalText] in
theorem moveItemToTrash_of_fails {dent : Dirent} (h : trashFails dent = true) (st : ChkptState) :
    moveItemToTrash trashFails dent st = st := if_pos h

omit [UuidText] [DecimalText] in
theorem moveItemToTrash_of_not_fails {dent : Dirent} (h : trashFails dent = false)
    (st : ChkptState) :
    moveItemToTrash trashFails dent st =
      { st with
        entries := st.entries.filter fun e => decide (e.dName ≠ dent.dName)
        trash := st.trash ++ [dent] } := by
  rw [moveItemToTrash, if_neg (by simp [h])]

/-- The entries whose names are not among the removed ones. -/
def without (entries gone : List Dirent) : List Dirent :=
  entries.filter fun e => decide (e.dName ∉ gone.map Dirent.dName)

omit [UuidText] [DecimalText] in
theorem without_nil (entries : List Dirent) : without entries [] = entries := by
  rw [without, List.filter_eq_self]
  intro e he
  exact decide_eq_true List.not_mem_nil

omit [UuidText] [DecimalText] in
theorem without_cons (entries gone : List Dirent) (dent : Dirent) :
    without (entries.filter fun e => decide (e.dName ≠ dent.dName)) gone =
      without entries (dent :: gone) := by
  rw [without, without, List.filter_filter]
  refine List.filter_congr fun e _ => ?_
  simp only [List.map_cons, List.mem_cons, not_or, decide_not, Bool.decide_and, Bool.and_comm]

/-- The loop moves these entries, and nothing else. -/
theorem selfChkptScanLoop_entries (found : Nat) (dents : List Dirent) (st : ChkptState) :
    (selfChkptScanLoop ri booting trashFails found dents st).entries =
        without st.entries (removed ri trashFails found dents) ∧
      (selfChkptScanLoop ri booting trashFails found dents st).trash =
        st.trash ++ removed ri trashFails found dents := by
  induction dents generalizing found st with
  | nil => exact ⟨(without_nil _).symm, (List.append_nil _).symm⟩
  | cons dent dents ih =>
    -- an entry that is to be moved, and the rest
    have hmove : ∀ (found' : Nat),
        dropped (isOwn ri) ri.numCheckpoints found (dent :: dents) =
          dent :: dropped (isOwn ri) ri.numCheckpoints found' dents →
        (selfChkptScanLoop ri booting trashFails found' dents
            (moveItemToTrash trashFails dent st)).entries =
          without st.entries (removed ri trashFails found (dent :: dents)) ∧
        (selfChkptScanLoop ri booting trashFails found' dents
            (moveItemToTrash trashFails dent st)).trash =
          st.trash ++ removed ri trashFails found (dent :: dents) := by
      intro found' hdropped
      obtain ⟨hentries, htrash⟩ := ih found' (moveItemToTrash trashFails dent st)
      rw [hentries, htrash, removed, removed, hdropped]
      cases hfails : trashFails dent with
      | true =>
        rw [moveItemToTrash_of_fails hfails, List.filter_cons_of_neg (by simp [hfails])]
        exact ⟨rfl, rfl⟩
      | false =>
        rw [moveItemToTrash_of_not_fails hfails, List.filter_cons_of_pos (by simp [hfails])]
        exact ⟨without_cons _ _ _, by simp⟩
    have hkeep : ∀ (st' : ChkptState), st'.entries = st.entries → st'.trash = st.trash →
        dropped (isOwn ri) ri.numCheckpoints found (dent :: dents) =
          dropped (isOwn ri) ri.numCheckpoints (found + 1) dents →
        (selfChkptScanLoop ri booting trashFails (found + 1) dents st').entries =
          without st.entries (removed ri trashFails found (dent :: dents)) ∧
        (selfChkptScanLoop ri booting trashFails (found + 1) dents st').trash =
          st.trash ++ removed ri trashFails found (dent :: dents) := by
      intro st' hentries htrash hdropped
      obtain ⟨hentries', htrash'⟩ := ih (found + 1) st'
      rw [hentries', htrash', hentries, htrash, removed, removed, hdropped]
      exact ⟨rfl, rfl⟩
    rw [selfChkptScanLoop_cons]
    by_cases hown : isOwn ri dent = false
    · rw [if_pos hown]
      exact hmove found (by rw [dropped, if_pos hown])
    rw [if_neg hown]
    by_cases hfirst : found + 1 = 1
    · rw [if_pos hfirst]
      refine hkeep _ ?_ ?_ (by rw [dropped, if_neg hown, if_pos hfirst])
      · split <;> rfl
      · split <;> rfl
    rw [if_neg hfirst]
    by_cases hmany : found + 1 > ri.numCheckpoints
    · rw [if_pos hmany]
      exact hmove (found + 1) (by rw [dropped, if_neg hown, if_neg hfirst, if_pos hmany])
    · rw [if_neg hmany]
      exact hkeep st rfl rfl (by rw [dropped, if_neg hown, if_neg hfirst, if_neg hmany])

omit [UuidText] [DecimalText] in
theorem moveItemToTrash_last (dent : Dirent) (st : ChkptState) :
    (moveItemToTrash trashFails dent st).checkpointLastIdx = st.checkpointLastIdx := by
  rw [moveItemToTrash]
  split <;> rfl

/-- After the first own checkpoint, and while the server runs, the last index stays. -/
theorem selfChkptScanLoop_last_of {found : Nat} (h : booting = false ∨ 0 < found)
    (dents : List Dirent) (st : ChkptState) :
    (selfChkptScanLoop ri booting trashFails found dents st).checkpointLastIdx =
      st.checkpointLastIdx := by
  induction dents generalizing found st with
  | nil => rfl
  | cons dent dents ih =>
    have hnext : booting = false ∨ 0 < found + 1 := .inr (Nat.succ_pos _)
    rw [selfChkptScanLoop_cons]
    split
    · rw [ih h, moveItemToTrash_last]
    split
    · rename_i hfirst
      rw [ih hnext, if_neg (by
        rcases h with hrun | hpos
        · simp [hrun]
        · omega)]
    split
    · rw [ih hnext, moveItemToTrash_last]
    · exact ih hnext _

/-- At boot it becomes that of the first own checkpoint, if there is one. -/
theorem selfChkptScanLoop_last_booting (dents : List Dirent) (st : ChkptState) :
    (selfChkptScanLoop ri true trashFails 0 dents st).checkpointLastIdx =
      ((dents.filter (isOwn ri)).head?.map parsedIdx).getD st.checkpointLastIdx := by
  induction dents generalizing st with
  | nil => rfl
  | cons dent dents ih =>
    rw [selfChkptScanLoop_cons]
    by_cases hown : isOwn ri dent = false
    · rw [if_pos hown, ih, moveItemToTrash_last, List.filter_cons_of_neg (by simp [hown])]
    · rw [if_neg hown, if_pos rfl, selfChkptScanLoop_last_of (.inr Nat.zero_lt_one),
        List.filter_cons_of_pos (by simpa using hown)]
      rfl

end Loop

variable [ChkptRegex]

omit [DecimalText] in
theorem Own.accepted {ri : ChkptInstance} {e : Dirent} {n : Nat} (h : Own ri e n) :
    startupSelfChkptScanCb e = true :=
  (ChkptRegex.regexec_iff _).mpr ⟨_, _, n, Nat.lt_trans h.lt (by decide), h.dName_eq⟩

/-- Of the names the filter lets through, the scan recognizes the own checkpoints. -/
theorem own_of_ownIdx {ri : ChkptInstance} {e : Dirent} (hcb : startupSelfChkptScanCb e = true)
    {n : Nat} (h : ownIdx ri e = some n) : Own ri e n := by
  obtain ⟨db, peer, k, hk, hname⟩ := (ChkptRegex.regexec_iff _).mp hcb
  rw [ownIdx] at h
  by_cases hdir : e.dType = .dir
  · have hname' := hname.trans (chkptName_eq hk db peer)
    rw [chkptScanParseEntry_nameWith hdir hname' (by simp) (dReclen_of_nameWith hname')
        (zero_not_mem_decimal 20 k),
      DecimalText.toUnsignedLongLong_decimal 20 k (by decide) hk] at h
    by_cases hlt : k < 2 ^ 64
    · simp only [if_pos hlt] at h
      by_cases hforeign : ri.thisPeerUuid ≠ peer ∨ ri.dbUuid ≠ db
      · rw [if_pos hforeign] at h
        cases h
      · rw [if_neg hforeign, EntryIdx.unsigned_ofUnsigned, UInt64.toNat_ofNat'] at h
        simp only [not_or, not_not, ne_eq] at hforeign
        have hkn : k = n := by
          rw [← Option.some.inj h]
          exact (Nat.mod_eq_of_lt hlt).symm
        exact ⟨hdir, hkn ▸ hlt, by rw [hname, hforeign.1, hforeign.2, hkn]⟩
    · simp only [if_neg hlt] at h
      cases h
  · obtain ⟨rc, hrc⟩ := chkptScanParseEntry_other hdir
    rw [hrc] at h
    cases h

/-! ## The scan -/

/-- The entries in the order they are looked at. -/
def scanned (entries : List Dirent) : List Dirent :=
  (scandirat startupSelfChkptScanCb entries).reverse

omit [DecimalText] in
theorem scanned_perm (entries : List Dirent) :
    (scanned entries).Perm (entries.filter startupSelfChkptScanCb) :=
  (List.reverse_perm _).trans (List.mergeSort_perm _ _)

omit [DecimalText] in
theorem mem_scanned {entries : List Dirent} {e : Dirent} :
    e ∈ scanned entries ↔ e ∈ entries ∧ startupSelfChkptScanCb e = true :=
  (scanned_perm entries).mem_iff.trans List.mem_filter

omit [DecimalText] in
theorem scanned_sorted (entries : List Dirent) :
    (scanned entries).Pairwise fun d e => e.dName ≤ d.dName := by
  rw [scanned, List.pairwise_reverse]
  have hsorted := @List.pairwise_mergeSort _ (fun a b : Dirent => decide (a.dName ≤ b.dName))
    (fun a b c hab hbc => decide_eq_true (le_trans (of_decide_eq_true hab) (of_decide_eq_true hbc)))
    (fun a b => by simpa using le_total a.dName b.dName)
    (entries.filter startupSelfChkptScanCb)
  exact hsorted.imp fun h => of_decide_eq_true h

/-- No two entries have one name. -/
def NamesUnique (entries : List Dirent) : Prop := (entries.map Dirent.dName).Nodup

omit [UuidText] [DecimalText] [ChkptRegex] in
theorem NamesUnique.eq {entries : List Dirent} (h : NamesUnique entries) {d e : Dirent}
    (hd : d ∈ entries) (he : e ∈ entries) (hname : d.dName = e.dName) : d = e :=
  List.inj_on_of_nodup_map h hd he hname

omit [DecimalText] in
theorem scanned_names_nodup {entries : List Dirent} (h : NamesUnique entries) :
    ((scanned entries).map Dirent.dName).Nodup :=
  (((scanned_perm entries).map Dirent.dName).nodup_iff).mpr
    (h.sublist (List.filter_sublist.map Dirent.dName))

/-- The index that an own checkpoint is sorted by. -/
def ownKey (ri : ChkptInstance) (e : Dirent) : Nat := (ownIdx ri e).getD 0

theorem isOwn_iff {ri : ChkptInstance} {e : Dirent} :
    (startupSelfChkptScanCb e = true ∧ isOwn ri e = true) ↔ Own ri e (ownKey ri e) := by
  constructor
  · rintro ⟨hcb, hown⟩
    obtain ⟨n, hn⟩ := Option.isSome_iff_exists.mp hown
    rw [ownKey, hn]
    exact own_of_ownIdx hcb hn
  · intro h
    exact ⟨h.accepted, by rw [isOwn, h.ownIdx_eq]; rfl⟩

omit [ChkptRegex] in
theorem Own.key_eq {ri : ChkptInstance} {e : Dirent} {n : Nat} (h : Own ri e n) :
    ownKey ri e = n := by
  rw [ownKey, h.ownIdx_eq]
  rfl

/-- The own checkpoints, the highest index first. -/
def ownScanned (ri : ChkptInstance) (entries : List Dirent) : List Dirent :=
  (scanned entries).filter (isOwn ri)

theorem mem_ownScanned {ri : ChkptInstance} {entries : List Dirent} {e : Dirent} :
    e ∈ ownScanned ri entries ↔ e ∈ entries ∧ Own ri e (ownKey ri e) := by
  rw [ownScanned, List.mem_filter, mem_scanned, and_assoc, isOwn_iff]

theorem ownScanned_sorted {ri : ChkptInstance} {entries : List Dirent} (h : NamesUnique entries) :
    (ownScanned ri entries).Pairwise fun d e => ownKey ri e < ownKey ri d := by
  have hsorted := (scanned_sorted entries).and (List.pairwise_map.mp (scanned_names_nodup h))
  refine (List.Pairwise.and_mem.mp (hsorted.sublist List.filter_sublist)).imp ?_
  rintro d e ⟨hd, he, hle, hne⟩
  exact ((mem_ownScanned.mp he).2.lt_iff (mem_ownScanned.mp hd).2).mp (lt_of_le_of_ne hle hne.symm)

/-- The first one is the highest. -/
theorem ownScanned_head {ri : ChkptInstance} {entries : List Dirent} (h : NamesUnique entries)
    {d : Dirent} {ds : List Dirent} (hl : ownScanned ri entries = d :: ds) :
    d ∈ entries ∧ Own ri d (ownKey ri d) ∧ ∀ e ∈ entries, ∀ m, Own ri e m → m ≤ ownKey ri d := by
  have hsorted := @ownScanned_sorted _ _ _ ri _ h
  rw [hl] at hsorted
  obtain ⟨hd, hown⟩ := mem_ownScanned.mp (hl ▸ List.mem_cons_self : d ∈ ownScanned ri entries)
  refine ⟨hd, hown, fun e he m hm => ?_⟩
  have hmem : e ∈ d :: ds := hl ▸ mem_ownScanned.mpr ⟨he, hm.key_eq.symm ▸ hm⟩
  rcases List.mem_cons.mp hmem with rfl | htail
  · exact (hm.unique hown).le
  · have hlt := (List.pairwise_cons.mp hsorted).1 e htail
    rw [hm.key_eq] at hlt
    exact hlt.le

/-- If there is none, no entry is an own checkpoint. -/
theorem ownScanned_nil {ri : ChkptInstance} {entries : List Dirent} :
    ownScanned ri entries = [] ↔ ∀ e ∈ entries, ∀ n, ¬Own ri e n := by
  rw [List.eq_nil_iff_forall_not_mem]
  constructor
  · exact fun h e he n hn => h e (mem_ownScanned.mpr ⟨he, hn.key_eq.symm ▸ hn⟩)
  · intro h e he
    obtain ⟨hmem, hown⟩ := mem_ownScanned.mp he
    exact h e hmem _ hown

open Classical in
/-- How many own checkpoints have a higher index. -/
noncomputable def higher (ri : ChkptInstance) (entries : List Dirent) (n : Nat) : Nat :=
  entries.countP fun e => decide (∃ m, n < m ∧ Own ri e m)

omit [DecimalText] [ChkptRegex] in
theorem higher_eq_zero {ri : ChkptInstance} {entries : List Dirent} {n : Nat}
    (h : ∀ e ∈ entries, ∀ m, Own ri e m → m ≤ n) : higher ri entries n = 0 := by
  rw [higher, List.countP_eq_zero]
  intro e he
  have hnot : ¬∃ m, n < m ∧ Own ri e m := by
    rintro ⟨m, hlt, hm⟩
    exact absurd (h e he m hm) (Nat.not_le.mpr hlt)
  simpa using hnot

theorem above_ownScanned (ri : ChkptInstance) (entries : List Dirent) (n : Nat) :
    above (ownKey ri) (ownScanned ri entries) n = higher ri entries n := by
  classical
  have hperm : (ownScanned ri entries).Perm
      ((entries.filter startupSelfChkptScanCb).filter (isOwn ri)) := (scanned_perm entries).filter _
  rw [above_perm _ hperm, above, List.filter_filter, List.filter_filter, ← List.countP_eq_length_filter,
    higher]
  refine List.countP_congr fun e _ => ?_
  simp only [Bool.and_eq_true, decide_eq_true_eq]
  constructor
  · rintro ⟨⟨hlt, hown⟩, hcb⟩
    exact ⟨_, hlt, isOwn_iff.mp ⟨hcb, hown⟩⟩
  · rintro ⟨m, hlt, hm⟩
    have hcb := isOwn_iff.mpr (hm.key_eq.symm ▸ hm)
    exact ⟨⟨hm.key_eq.symm ▸ hlt, hcb.2⟩, hcb.1⟩

/-- An entry that was looked at stays if few own checkpoints have a higher index, and goes
otherwise. -/
theorem mem_dropped_scanned {ri : ChkptInstance} {entries : List Dirent} (h : NamesUnique entries)
    {e : Dirent} : e ∈ dropped (isOwn ri) ri.numCheckpoints 0 (scanned entries) ↔
      (e ∈ entries ∧ startupSelfChkptScanCb e = true) ∧
        ∀ n, Own ri e n → max 1 ri.numCheckpoints ≤ higher ri entries n := by
  rw [mem_dropped_iff (scanned_names_nodup h).of_map, mem_scanned, Nat.sub_zero]
  refine and_congr_right fun hmem => ?_
  show e ∉ (ownScanned ri entries).take _ ↔ _
  rw [mem_take_iff (ownKey ri) (ownScanned_sorted h), above_ownScanned, mem_ownScanned]
  constructor
  · intro hnot n hn
    refine Nat.not_lt.mp fun hlt => hnot ⟨⟨hmem.1, hn.key_eq.symm ▸ hn⟩, hn.key_eq.symm ▸ hlt⟩
  · rintro hall ⟨⟨-, hown⟩, hlt⟩
    exact absurd hlt (Nat.not_lt.mpr (hall _ hown))

section Scan

variable {ri : ChkptInstance} {booting : Bool} {trashFails : Dirent → Bool} {st : ChkptState}

/-- An entry goes if it was shown to the scan, is not among the highest, and can be moved. -/
theorem mem_selfChkptScan (h : NamesUnique st.entries) {e : Dirent} :
    e ∈ (selfChkptScan ri booting trashFails st).entries ↔ e ∈ st.entries ∧
      ¬((startupSelfChkptScanCb e = true ∧ trashFails e = false) ∧
        ∀ n, Own ri e n → max 1 ri.numCheckpoints ≤ higher ri st.entries n) := by
  have hgone : ∀ d, d ∈ removed ri trashFails 0 (scanned st.entries) ↔
      ((d ∈ st.entries ∧ startupSelfChkptScanCb d = true) ∧
        ∀ n, Own ri d n → max 1 ri.numCheckpoints ≤ higher ri st.entries n) ∧
          trashFails d = false := by
    intro d
    rw [removed, List.mem_filter, mem_dropped_scanned h, Bool.not_eq_true']
  show e ∈ (selfChkptScanLoop ri booting trashFails 0 (scanned st.entries) st).entries ↔ _
  rw [(selfChkptScanLoop_entries 0 (scanned st.entries) st).1, without, List.mem_filter,
    decide_eq_true_eq]
  refine and_congr_right fun he => not_congr ?_
  constructor
  · intro hname
    obtain ⟨d, hd, hde⟩ := List.mem_map.mp hname
    obtain ⟨⟨⟨hmem, hcb⟩, hall⟩, hfails⟩ := (hgone d).mp hd
    cases h.eq hmem he hde
    exact ⟨⟨hcb, hfails⟩, hall⟩
  · rintro ⟨⟨hcb, hfails⟩, hall⟩
    exact List.mem_map_of_mem ((hgone e).mpr ⟨⟨⟨he, hcb⟩, hall⟩, hfails⟩)

theorem mem_trash_selfChkptScan (h : NamesUnique st.entries) {e : Dirent} (he : e ∈ st.entries)
    (hnot : e ∉ (selfChkptScan ri booting trashFails st).entries) :
    e ∈ (selfChkptScan ri booting trashFails st).trash := by
  rw [mem_selfChkptScan h, not_and, not_not] at hnot
  obtain ⟨⟨hcb, hfails⟩, hall⟩ := hnot he
  show e ∈ (selfChkptScanLoop ri booting trashFails 0 (scanned st.entries) st).trash
  rw [(selfChkptScanLoop_entries 0 (scanned st.entries) st).2, removed, List.mem_append,
    List.mem_filter, mem_dropped_scanned h]
  exact .inr ⟨⟨⟨he, hcb⟩, hall⟩, by simp [hfails]⟩

theorem last_selfChkptScan_running :
    (selfChkptScan ri false trashFails st).checkpointLastIdx = st.checkpointLastIdx :=
  selfChkptScanLoop_last_of (.inl rfl) _ st

omit [ChkptRegex] in
theorem parsedIdx_own {e : Dirent} {n : Nat} (h : Own ri e n) :
    parsedIdx e = (EntryIdx.ofUnsigned (UInt64.ofNat n)).1 := by
  rw [parsedIdx, h.parse]

theorem last_selfChkptScan_eq :
    (selfChkptScan ri true trashFails st).checkpointLastIdx =
      ((ownScanned ri st.entries).head?.map parsedIdx).getD st.checkpointLastIdx :=
  selfChkptScanLoop_last_booting (scanned st.entries) st

/-- At boot the last index becomes the highest. -/
theorem last_selfChkptScan_booting (h : NamesUnique st.entries) {e : Dirent} {n : Nat}
    (he : e ∈ st.entries) (hn : Own ri e n)
    (hmax : ∀ d ∈ st.entries, ∀ m, Own ri d m → m ≤ n) :
    (selfChkptScan ri true trashFails st).checkpointLastIdx =
      (EntryIdx.ofUnsigned (UInt64.ofNat n)).1 := by
  rw [last_selfChkptScan_eq]
  cases hl : ownScanned ri st.entries with
  | nil => exact absurd hn (ownScanned_nil.mp hl e he n)
  | cons d ds =>
    obtain ⟨hd, hown, hhighest⟩ := ownScanned_head h hl
    have hkey : ownKey ri d = n :=
      Nat.le_antisymm (hmax d hd _ hown) (hhighest e he n hn)
    rw [hkey] at hown
    exact parsedIdx_own hown

theorem last_selfChkptScan_none (h : ∀ e ∈ st.entries, ∀ n, ¬Own ri e n) :
    (selfChkptScan ri true trashFails st).checkpointLastIdx = st.checkpointLastIdx := by
  rw [last_selfChkptScan_eq, ownScanned_nil.mpr h]
  rfl

end Scan

/-- After a scan in which everything can be moved: the highest own checkpoints are left, as many as
are to be kept and at least one; everything else that passed the filter is in the trash; and at boot
the last index is the highest that was found. -/
theorem checkpoints_retained {ri : ChkptInstance} {st : ChkptState} (h : NamesUnique st.entries)
    (booting : Bool) :
    (∀ e n, Own ri e n → (e ∈ (selfChkptScan ri booting (fun _ => false) st).entries ↔
      e ∈ st.entries ∧ higher ri st.entries n < max 1 ri.numCheckpoints)) ∧
    (∀ e ∈ st.entries, startupSelfChkptScanCb e = true → (∀ n, ¬Own ri e n) →
      e ∉ (selfChkptScan ri booting (fun _ => false) st).entries) ∧
    (∀ e ∈ st.entries, e ∉ (selfChkptScan ri booting (fun _ => false) st).entries →
      e ∈ (selfChkptScan ri booting (fun _ => false) st).trash) ∧
    (∀ e ∈ st.entries, startupSelfChkptScanCb e = false →
      e ∈ (selfChkptScan ri booting (fun _ => false) st).entries) ∧
    (booting = true →
      (∀ e ∈ st.entries, ∀ n, Own ri e n → (∀ d ∈ st.entries, ∀ m, Own ri d m → m ≤ n) →
        (selfChkptScan ri booting (fun _ => false) st).checkpointLastIdx =
          (EntryIdx.ofUnsigned (UInt64.ofNat n)).1) ∧
      ((∀ e ∈ st.entries, ∀ n, ¬Own ri e n) →
        (selfChkptScan ri booting (fun _ => false) st).checkpointLastIdx =
          st.checkpointLastIdx)) := by
  refine ⟨fun e n hn => ?_, fun e he hcb hnone hmem => ?_, fun e he hnot => ?_, fun e he hcb => ?_,
    fun hboot => ?_⟩
  · rw [mem_selfChkptScan h]
    refine and_congr_right fun he => ?_
    constructor
    · intro hnot
      refine Nat.not_le.mp fun hle => hnot ⟨⟨hn.accepted, rfl⟩, fun m hm => ?_⟩
      rw [hm.unique hn]
      exact hle
    · rintro hlt ⟨-, hall⟩
      exact absurd hlt (Nat.not_lt.mpr (hall n hn))
  · exact ((mem_selfChkptScan h).mp hmem).2 ⟨⟨hcb, rfl⟩, fun n hn => absurd hn (hnone n)⟩
  · exact mem_trash_selfChkptScan h he hnot
  · refine (mem_selfChkptScan h).mpr ⟨he, ?_⟩
    rintro ⟨⟨hcb', -⟩, -⟩
    rw [hcb] at hcb'
    cases hcb'
  · cases hboot
    exact ⟨fun e he n hn hmax => last_selfChkptScan_booting h he hn hmax,
      last_selfChkptScan_none⟩

/-! ### Two checkpoints -/

omit [UuidText] [DecimalText] [ChkptRegex] in
open Classical in
/-- The expression as it is meant. -/
@[reducible] noncomputable def ChkptRegex.exact (text : UuidText) : ChkptRegex :=
  ⟨fun t => decide (∃ db peer n, n < 10 ^ 20 ∧ t = chkptName db peer n), fun _ => decide_eq_true_iff⟩

/-- A server in `/raft` that keeps one checkpoint. -/
def oneKept : ChkptInstance := ⟨ascii "/raft".toList, onesUuid, twosUuid, 1⟩

/-- A checkpoint of its database. -/
def chkptDent (n : Nat) : Dirent :=
  ⟨@chkptName .lower twosUuid onesUuid n, .dir,
    19 + (@chkptName .lower twosUuid onesUuid n).length + 1, [], le_refl _⟩

/-- It has two of them. -/
def sevenEight : ChkptState := ⟨[chkptDent 7, chkptDent 8], [], -1, 0⟩

omit [UuidText] [DecimalText] [ChkptRegex] in
theorem chkptDent_own {n : Nat} (h : n < 2 ^ 64) : @Own .lower oneKept (chkptDent n) n :=
  @Own.mk .lower oneKept (chkptDent n) n rfl h rfl

omit [UuidText] [DecimalText] [ChkptRegex] in
theorem sevenEight_names : NamesUnique sevenEight.entries := by
  have hne : (chkptDent 7).dName ≠ (chkptDent 8).dName := fun h => by
    have hlt := (@Own.lt_iff .lower oneKept _ _ 7 8 (chkptDent_own (by decide))
      (chkptDent_own (by decide))).mpr (by decide)
    exact absurd (h ▸ hlt) (lt_irrefl _)
  simp [NamesUnique, sevenEight, hne]

omit [UuidText] [DecimalText] [ChkptRegex] in
theorem checkpoints_retained_eight :
    (@selfChkptScan .lower .usual (.exact .lower) oneKept true (fun _ => false)
      sevenEight).checkpointLastIdx = 8 := by
  refine ((@checkpoints_retained .lower .usual (.exact .lower) oneKept sevenEight sevenEight_names
    true).2.2.2.2 rfl).1 (chkptDent 8) (by simp [sevenEight]) 8 (chkptDent_own (by decide)) ?_
  intro d hd m hm
  have hcases : d = chkptDent 7 ∨ d = chkptDent 8 := by simpa [sevenEight] using hd
  rcases hcases with rfl | rfl
  · rw [@Own.unique .lower oneKept _ m 7 hm (chkptDent_own (by decide))]
    decide
  · rw [@Own.unique .lower oneKept _ m 8 hm (chkptDent_own (by decide))]

end NiovaRaft.RocksDirs
