import NiovaRaft.Model.RocksDirs

/-!
# The recovery marker is not read back

The marker's name has a full stop between `RECOVERY_MARKER_NAME` and the uuids, and the scan looks for
the first uuid at `RECOVERY_MARKER_NAME_LEN`, where the full stop is.  No text that begins with one is
a uuid, so no marker is ever recognized.
-/

namespace NiovaRaft.RocksDirs

open Base

variable [UuidText]

/-! ## Scanning -/

omit [UuidText] in
theorem scandirat_singleton {filter : Dirent → Bool} {entries : List Dirent} {dent : Dirent}
    (h : entries.filter filter = [dent]) : scandirat filter entries = [dent] := by
  rw [scandirat, h, List.mergeSort_singleton]

theorem not_mem_slash_unparse (u : Uuid) : slash ∉ UuidText.unparse u :=
  (UuidText.unparse_form u).not_mem (by decide) (by decide)

theorem not_mem_slash_chkptRestoreName (db peer : Uuid) : slash ∉ chkptRestoreName db peer := by
  rw [chkptRestoreName, List.mem_append, List.mem_cons]
  rintro (hdb | hsep | hpeer)
  · exact not_mem_slash_unparse db hdb
  · exact absurd hsep (by decide)
  · exact not_mem_slash_unparse peer hpeer

/-! ## The name -/

/-- The name of a marker. -/
def markerName (db peer : Uuid) : List UInt8 :=
  recoveryMarkerName ++ fullStop :: chkptRestoreName db peer

theorem recoveryInprogressPathBuild_eq {base : List UInt8} {peer db : Uuid} {len : Nat}
    (h : ¬(len = 0 ∨ peer = Uuid.null ∨ db = Uuid.null)) :
    recoveryInprogressPathBuild base peer db len =
      ((base ++ slash :: markerName db peer).take (len - 1),
        if (base ++ slash :: markerName db peer).length ≥ len then -ENAMETOOLONG else 0) := by
  rw [recoveryInprogressPathBuild, if_neg h]
  rfl

theorem not_mem_slash_markerName (db peer : Uuid) : slash ∉ markerName db peer := by
  rw [markerName, List.mem_append, List.mem_cons]
  rintro (hname | hstop | hrest)
  · exact absurd hname (by decide)
  · exact absurd hstop (by decide)
  · exact not_mem_slash_chkptRestoreName db peer hrest

/-- A path that fits ends with the name. -/
theorem lastComponent_recoveryInprogressPathBuild {base : List UInt8} {peer db : Uuid} {len : Nat}
    (h : (recoveryInprogressPathBuild base peer db len).2 = 0) :
    lastComponent (recoveryInprogressPathBuild base peer db len).1 = markerName db peer := by
  by_cases hargs : len = 0 ∨ peer = Uuid.null ∨ db = Uuid.null
  · rw [recoveryInprogressPathBuild, if_pos hargs] at h
    exact absurd h (by decide)
  rw [recoveryInprogressPathBuild_eq hargs] at h ⊢
  by_cases hlong : (base ++ slash :: markerName db peer).length ≥ len
  · rw [if_pos hlong] at h
    have hrc : -ENAMETOOLONG = 0 := h
    exact absurd hrc (by decide)
  · rw [List.take_of_length_le (Nat.le_sub_one_of_lt (Nat.not_le.mp hlong))]
    exact lastComponent_append (not_mem_slash_markerName db peer) base

/-- What is taken for the first uuid begins with the full stop. -/
theorem parse_markerName (db peer : Uuid) :
    UuidText.parse (((markerName db peer).drop recoveryMarkerNameLen).take (uuidStrLen - 1)) =
      none := by
  have hdrop : (markerName db peer).drop recoveryMarkerNameLen =
      fullStop :: chkptRestoreName db peer := by
    rw [markerName, show recoveryMarkerNameLen = recoveryMarkerName.length from rfl, List.drop_left]
  rw [hdrop]
  cases hparse : UuidText.parse ((fullStop :: chkptRestoreName db peer).take (uuidStrLen - 1)) with
  | none => rfl
  | some u =>
    obtain ⟨b, rest, heq, hb⟩ := (UuidText.parse_form _ u hparse).head
    have hstop : fullStop = b := (List.cons.inj heq).1
    rw [← hstop] at hb
    exact absurd hb (by decide)

theorem initRecoveryHandleFromMarker_none {ri : MarkerInstance} {dbUuidStr : List UInt8}
    (h : UuidText.parse dbUuidStr = none) (peerUuidStr : List UInt8) :
    initRecoveryHandleFromMarker ri dbUuidStr peerUuidStr = (ri, -EINVAL) := by
  rw [initRecoveryHandleFromMarker, h]
  cases UuidText.parse peerUuidStr <;> rfl

/-- A marker makes the scan fail. -/
theorem recoveryMarkerScan_marker {regexec : List UInt8 → Bool} {ri : MarkerInstance}
    (hfd : 0 ≤ ri.logFd) {entries : List Dirent} {dent : Dirent} {db peer : Uuid}
    (hname : dent.dName = markerName db peer)
    (honly : entries.filter (scandirRecoveryMarkerCb regexec) = [dent]) :
    recoveryMarkerScan regexec ri (.ok entries) =
      ({ ri with incompleteRecovery := false }, -EINVAL) := by
  rw [recoveryMarkerScan, if_neg (Int.not_lt.mpr hfd)]
  simp only [scandirat_singleton honly, hname,
    initRecoveryHandleFromMarker_none (parse_markerName db peer)]
  rfl

/-! ## The round trip -/

/-- The scan recognizes the marker. -/
def MarkerRecognized (regexec : List UInt8 → Bool) (ri : MarkerInstance) (entries : List Dirent)
    (peer db : Uuid) : Prop :=
  ∃ ri', recoveryMarkerScan regexec ri (.ok entries) = (ri', 0) ∧
    ri'.recoveryHandle.peerDbUuid = db ∧ ri'.recoveryHandle.peerUuid = peer ∧
      ri'.incompleteRecovery = true

/-- No marker is. -/
theorem marker_not_recognized {base : List UInt8} {peer db : Uuid} {len : Nat}
    (hbuild : (recoveryInprogressPathBuild base peer db len).2 = 0) {regexec : List UInt8 → Bool}
    {entries : List Dirent} {dent : Dirent}
    (hname : dent.dName = lastComponent (recoveryInprogressPathBuild base peer db len).1)
    (honly : entries.filter (scandirRecoveryMarkerCb regexec) = [dent]) (ri : MarkerInstance) :
    ¬MarkerRecognized regexec ri entries peer db := by
  rw [lastComponent_recoveryInprogressPathBuild hbuild] at hname
  rintro ⟨ri', hscan, -⟩
  by_cases hfd : 0 ≤ ri.logFd
  · rw [recoveryMarkerScan_marker hfd hname honly] at hscan
    have hrc : -EINVAL = 0 := congrArg Prod.snd hscan
    exact absurd hrc (by decide)
  · rw [recoveryMarkerScan, if_pos (Int.not_le.mp hfd)] at hscan
    have hrc : -EBADF = 0 := congrArg Prod.snd hscan
    exact absurd hrc (by decide)

/-! ### A marker -/

/-- Two uuids. -/
def onesUuid : Uuid := ⟨List.replicate 16 1, rfl⟩
def twosUuid : Uuid := ⟨List.replicate 16 2, rfl⟩

/-- The log directory `/raft` with a marker of theirs in it. -/
def markerDent : Dirent :=
  ⟨@markerName .lower twosUuid onesUuid, .dir, 120, [], by decide⟩

/-- An instance that has opened it. -/
def markerReader : MarkerInstance := ⟨3, false, ⟨Uuid.null, Uuid.null, -1, -1, -1, false⟩⟩

omit [UuidText] in
theorem marker_not_recognized_in_raft :
    ¬@MarkerRecognized .lower (fun _ => true) markerReader [markerDent] onesUuid twosUuid :=
  @marker_not_recognized .lower (ascii "/raft".toList) onesUuid twosUuid 4096 (by decide)
    (fun _ => true) [markerDent] markerDent (by decide) rfl markerReader

omit [UuidText] in
/-- The path was built, the directory is the only marker, and it is not recognized. -/
theorem marker_lost :
    (@recoveryInprogressPathBuild .lower (ascii "/raft".toList) onesUuid twosUuid 4096).2 = 0 ∧
      markerDent.dName = lastComponent
        (@recoveryInprogressPathBuild .lower (ascii "/raft".toList) onesUuid twosUuid 4096).1 ∧
      [markerDent].filter (scandirRecoveryMarkerCb fun _ => true) = [markerDent] ∧
      ¬@MarkerRecognized .lower (fun _ => true) markerReader [markerDent] onesUuid twosUuid := by
  refine ⟨by decide, by decide, rfl, ?_⟩
  rintro ⟨ri', hscan, -⟩
  rw [@recoveryMarkerScan_marker .lower (fun _ => true) markerReader (by decide) [markerDent]
    markerDent twosUuid onesUuid rfl rfl] at hscan
  have hrc : -EINVAL = 0 := congrArg Prod.snd hscan
  exact absurd hrc (by decide)

end NiovaRaft.RocksDirs
