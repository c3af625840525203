import Mathlib.Data.List.Sort
import NiovaRaft.Base.Bytes
import NiovaRaft.Base.CString
import NiovaRaft.Base.Decimal
import NiovaRaft.Model.Uuid

/-!
# The directories of the RocksDB backend

`raft_server_backend_rocksdb.c` keeps checkpoints of the database in `chkpt/self`, one directory each,
and leaves a marker in the log directory while it replaces the database.  Both carry uuids in their
names and are found again by scanning for names.

Strings are given without their terminator.  What a failed call reports, and which directories cannot
be moved, are inputs.  The regular expression for checkpoints and the reading of decimals are those
of another library.  `alphasort` compares the bytes of the names, as it does in the C locale.
-/

namespace NiovaRaft

namespace RocksDirs

open Base

/-! ## Numbers -/

/-- `raft_entry_idx_t`. -/
abbrev EntryIdx := { i : Int // -2 ^ 63 ≤ i ∧ i < 2 ^ 63 }

/-- A conversion to `unsigned long`. -/
def EntryIdx.unsigned (i : EntryIdx) : Nat := (i.1 % 2 ^ 64).toNat

/-- A conversion from `unsigned long long`. -/
def EntryIdx.ofUnsigned (n : UInt64) : EntryIdx :=
  if h : n.toNat < 2 ^ 63 then ⟨n.toNat, by omega⟩
  else ⟨n.toNat - 2 ^ 64, by have := n.toNat_lt; omega⟩

def EINVAL : Int := 22
def ENOMEM : Int := 12
def ENOTDIR : Int := 20
def E2BIG : Int := 7
def EBADF : Int := 9
def ERANGE : Int := 34
def ENAMETOOLONG : Int := 36
def ENOTEMPTY : Int := 39
def ENODATA : Int := 61
def EBADMSG : Int := 74
def EALREADY : Int := 114

/-- A value of `errno` after a failure. -/
abbrev ErrnoVal := { e : Int // 0 < e }

/-- `niova_string_to_unsigned_long_long`: a decimal with leading zeros, if it fits. -/
class DecimalText where
  toUnsignedLongLong : List UInt8 → Option UInt64
  toUnsignedLongLong_decimal : ∀ w n, 0 < w → n < 10 ^ w →
    toUnsignedLongLong (decimal w n) = if n < 2 ^ 64 then some (UInt64.ofNat n) else none

/-! ## Names -/

/-- `PATH_MAX`. -/
def pathMax : Nat := 4096

/-- `UUID_STR_LEN`. -/
def uuidStrLen : Nat := 37

/-- `RECOVERY_MARKER_NAME`. -/
def recoveryMarkerName : List UInt8 := ascii "inprogress-recovery-db".toList

/-- `RECOVERY_MARKER_NAME_LEN`. -/
def recoveryMarkerNameLen : Nat := 22

/-- `ribSubDirs[RIR_SUBDIR_CHKPT_SELF]` and `ribSubDirs[RIR_SUBDIR_CHKPT_PEERS]`. -/
def subdirChkptSelf : List UInt8 := ascii "chkpt/self".toList
def subdirChkptPeers : List UInt8 := ascii "chkpt/peers".toList

/-- The underscore and the full stop. -/
def underscore : UInt8 := 95
def fullStop : UInt8 := 46

section Names

variable [UuidText]

/-- `CHKPT_RESTORE_PATH_FMT`. -/
def chkptRestoreName (db peer : Uuid) : List UInt8 :=
  UuidText.unparse db ++ underscore :: UuidText.unparse peer

/-- `CHKPT_PATH_FMT`. -/
def chkptName (db peer : Uuid) (idx : Nat) : List UInt8 :=
  chkptRestoreName db peer ++ underscore :: zeroPadded 20 idx

/-- `rsbr_recovery_inprogress_path_build`: the buffer, and what is returned. -/
def recoveryInprogressPathBuild (base : List UInt8) (peerUuid peerDbUuid : Uuid) (len : Nat) :
    List UInt8 × Int :=
  if len = 0 ∨ peerUuid = Uuid.null ∨ peerDbUuid = Uuid.null then ([], -EINVAL)
  else
    let (dest, rc) := snprintf len
      (base ++ slash :: (recoveryMarkerName ++ fullStop :: chkptRestoreName peerDbUuid peerUuid))
    (dest, if rc ≥ len then -ENAMETOOLONG else 0)

/-- `rsbr_checkpoint_path_build`: the buffer, and what is returned. -/
def checkpointPathBuild (base : List UInt8) (peerId dbId : Uuid) (syncIdx : EntryIdx)
    (isLocal initial : Bool) (len : Nat) : List UInt8 × Int :=
  if peerId = Uuid.null ∨ dbId = Uuid.null ∨ len = 0 ∨ syncIdx.1 < 0 then ([], -EINVAL)
  else
    let (chkptPath, rc) := snprintf len
      (base ++ slash :: (if isLocal then subdirChkptSelf else subdirChkptPeers) ++
        slash :: (if initial then ascii ".in-progress_".toList else []) ++
          chkptName dbId peerId syncIdx.unsigned)
    (chkptPath, if rc > len then -ENAMETOOLONG else 0)

end Names

/-! ## Directory entries -/

/-- `d_type`. -/
inductive DType where
  | dir | other
deriving DecidableEq, Repr

/-- `struct dirent`. -/
structure Dirent where
  dName : List UInt8
  dType : DType
  /-- The size of the whole entry. -/
  dReclen : Nat
  /-- What lies behind the name and its terminator. -/
  rest : List UInt8
  /-- The other fields take nineteen bytes. -/
  dReclen_ge : 19 + dName.length + 1 ≤ dReclen

/-- The bytes at `d_name`. -/
def Dirent.dNameBytes (dent : Dirent) : List UInt8 := dent.dName ++ 0 :: dent.rest

/-! ## The recovery marker -/

/-- What of `struct raft_recovery_handle` a marker decides. -/
structure MarkerHandle where
  peerUuid : Uuid
  peerDbUuid : Uuid
  peerChkptIdx : Int
  chkptSize : Int
  remaining : Int
  fromRecoveryMarker : Bool

/-- What of `struct raft_instance` a scan for markers reads and writes. -/
structure MarkerInstance where
  logFd : Int
  incompleteRecovery : Bool
  recoveryHandle : MarkerHandle

section Marker

variable [UuidText]

/-- `raft_server_init_recovery_handle_from_marker`. -/
def initRecoveryHandleFromMarker (ri : MarkerInstance) (dbUuidStr peerUuidStr : List UInt8) :
    MarkerInstance × Int :=
  match UuidText.parse peerUuidStr, UuidText.parse dbUuidStr with
  | some peerUuid, some dbUuid =>
      if peerUuid = Uuid.null ∨ dbUuid = Uuid.null then (ri, -EINVAL)
      else ({ ri with recoveryHandle := ⟨peerUuid, dbUuid, -1, -1, -1, true⟩ }, 0)
  | _, _ => (ri, -EINVAL)

/-- `rsbr_scandir_recovery_marker_cb`. -/
def scandirRecoveryMarkerCb (regexec : List UInt8 → Bool) (dent : Dirent) : Bool :=
  decide (dent.dType = .dir) && regexec dent.dName

/-- `scandirat`, if it succeeds: the entries that the filter lets through, in the order of their
names. -/
def scandirat (filter : Dirent → Bool) (entries : List Dirent) : List Dirent :=
  (entries.filter filter).mergeSort fun a b => decide (a.dName ≤ b.dName)

/-- `rsbr_recovery_marker_scan` of the log directory, which is given by what it holds or by the
failure to read it. -/
def recoveryMarkerScan (regexec : List UInt8 → Bool) (ri : MarkerInstance)
    (logDir : Except ErrnoVal (List Dirent)) : MarkerInstance × Int :=
  if ri.logFd < 0 then (ri, -EBADF)
  else
    let ri := { ri with incompleteRecovery := false }
    match logDir with
    | .error errno => (ri, -errno.1)
    | .ok entries =>
        match scandirat (scandirRecoveryMarkerCb regexec) entries with
        | [] => (ri, 0)
        | [dent] =>
            let dbUuidStr := (dent.dName.drop recoveryMarkerNameLen).take (uuidStrLen - 1)
            let peerUuidStr :=
              (dent.dName.drop (recoveryMarkerNameLen + uuidStrLen)).take (uuidStrLen - 1)
            let (ri, rc) := initRecoveryHandleFromMarker ri dbUuidStr peerUuidStr
            if rc ≠ 0 then (ri, rc) else ({ ri with incompleteRecovery := true }, 0)
        | _ :: _ :: _ => (ri, -E2BIG)

end Marker

/-! ## Checkpoints -/

/-- `CHKPT_FILENAME_LEN`. -/
def chkptFilenameLen : Nat := uuidStrLen * 2 + 20

/-- `regexec` with `RAFT_CHECKPOINT_DIRNAME`: names of checkpoints, with any twenty digits. -/
class ChkptRegex [UuidText] where
  regexec : List UInt8 → Bool
  regexec_iff : ∀ t, regexec t = true ↔ ∃ db peer n, n < 10 ^ 20 ∧ t = chkptName db peer n

/-- What of `struct raft_instance` the checkpoints depend on. -/
structure ChkptInstance where
  log : List UInt8
  thisPeerUuid : Uuid
  dbUuid : Uuid
  numCheckpoints : Nat

/-- The entries of `chkpt/self` other than those that are being written, the trash, and what the
instance knows of its checkpoints. -/
structure ChkptState where
  entries : List Dirent
  trash : List Dirent
  checkpointLastIdx : Int
  lastChkptErr : Int

section Checkpoints

variable [UuidText] [DecimalText]

/-- `rsbr_chkpt_scan_parse_entry`: the uuids of the database and the peer, and the index. -/
def chkptScanParseEntry (dent : Dirent) : Except Int (Uuid × Uuid × EntryIdx) :=
  if dent.dReclen < chkptFilenameLen then .error (-ERANGE)
  else if dent.dType ≠ .dir then .error (-ENOTDIR)
  else
    let dname := resize dent.dNameBytes chkptFilenameLen ++ [0]
    let dname := (dname.set (uuidStrLen - 1) 0).set (uuidStrLen * 2 - 1) 0
    match UuidText.parse (cstr dname), UuidText.parse (cstr (dname.drop uuidStrLen)),
        DecimalText.toUnsignedLongLong (cstr (dname.drop (uuidStrLen * 2))) with
    | some db, some peer, some idx => .ok (db, peer, EntryIdx.ofUnsigned idx)
    | _, _, _ => .error (-EBADMSG)

/-- `rsbr_move_item_to_trash` of an entry of `chkpt/self`. -/
def moveItemToTrash (trashFails : Dirent → Bool) (dent : Dirent) (st : ChkptState) : ChkptState :=
  if trashFails dent then st
  else { st with
    entries := st.entries.filter fun e => decide (e.dName ≠ dent.dName)
    trash := st.trash ++ [dent] }

/-- The loop of `rsbr_self_chkpt_scan`. -/
def selfChkptScanLoop (ri : ChkptInstance) (booting : Bool) (trashFails : Dirent → Bool) :
    Nat → List Dirent → ChkptState → ChkptState
  | _, [], st => st
  | found, dent :: dents, st =>
      match chkptScanParseEntry dent with
      | .error _ =>
          selfChkptScanLoop ri booting trashFails found dents (moveItemToTrash trashFails dent st)
      | .ok (dbUuid, peerUuid, chkptIdx) =>
          if ri.thisPeerUuid ≠ peerUuid ∨ ri.dbUuid ≠ dbUuid then
            selfChkptScanLoop ri booting trashFails found dents
              (moveItemToTrash trashFails dent st)
          else if found + 1 = 1 then
            selfChkptScanLoop ri booting trashFails (found + 1) dents
              (if booting then { st with checkpointLastIdx := chkptIdx.1 } else st)
          else if found + 1 > ri.numCheckpoints then
            selfChkptScanLoop ri booting trashFails (found + 1) dents
              (moveItemToTrash trashFails dent st)
          else selfChkptScanLoop ri booting trashFails (found + 1) dents st

variable [ChkptRegex]

/-- `rsbr_startup_self_chkpt_scan_cb`. -/
def startupSelfChkptScanCb (dent : Dirent) : Bool := ChkptRegex.regexec dent.dName

/-- `rsbr_self_chkpt_scan`, when the directory can be read.  The names are read from the last one
on. -/
def selfChkptScan (ri : ChkptInstance) (booting : Bool) (trashFails : Dirent → Bool)
    (st : ChkptState) : ChkptState :=
  selfChkptScanLoop ri booting trashFails 0 (scandirat startupSelfChkptScanCb st.entries).reverse st

/-! ### Taking a checkpoint -/

/-- What the steps of `rsbr_checkpoint` come to. -/
structure CheckpointEnv where
  /-- `raft_server_instance_chkpt_compact_max_idx`. -/
  chkptIdx : EntryIdx
  /-- There is a temporary directory of that name. -/
  staleTmp : Bool
  trashTmp : Option ErrnoVal
  /-- `stat` fails although the checkpoint is there. -/
  statFails : Bool
  objectCreateErr : Bool
  createErr : Bool
  renameErr : Option ErrnoVal
  /-- The record length of the new entry, more than the least, and what lies behind its name. -/
  extraReclen : Nat
  rest : List UInt8
  scandirErr : Option ErrnoVal
  trashFails : Dirent → Bool
  /-- What `rsbr_remove_trash` cannot remove. -/
  undeletable : Dirent → Bool

/-- The entry of a new checkpoint. -/
def CheckpointEnv.newEntry (env : CheckpointEnv) (name : List UInt8) : Dirent :=
  ⟨name, .dir, 19 + name.length + 1 + env.extraReclen, env.rest, Nat.le_add_right _ _⟩

/-- `rsbr_checkpoint_cleanup`. -/
def checkpointCleanup (ri : ChkptInstance) (env : CheckpointEnv) (st : ChkptState) : ChkptState :=
  let st :=
    match env.scandirErr with
    | some _ => st
    | none => selfChkptScan ri false env.trashFails st
  { st with trash := st.trash.filter env.undeletable }

/-- The part of `rsbr_checkpoint` from the creation on.  For the record, it also says whether the
checkpoint was moved to its place. -/
def checkpointCreate (ri : ChkptInstance) (env : CheckpointEnv) (chkptPath : List UInt8)
    (st : ChkptState) : ChkptState × Int × Bool :=
  if env.objectCreateErr then (st, -ENOMEM, false)
  else if env.createErr then (st, -ENOMEM, false)
  else
    let name := lastComponent chkptPath
    let renameErr :=
      -- a directory with something in it is not replaced
      if st.entries.any fun e => decide (e.dName = name) then some (env.renameErr.elim ENOTEMPTY (·.1))
      else env.renameErr.map (·.1)
    match renameErr with
    | some errno => (checkpointCleanup ri env st, -errno, false)
    | none =>
        (checkpointCleanup ri env { st with entries := st.entries ++ [env.newEntry name] },
          env.chkptIdx.1, true)

/-- `rsbr_checkpoint`. -/
def checkpoint (ri : ChkptInstance) (env : CheckpointEnv) (st : ChkptState) :
    ChkptState × Int × Bool :=
  if env.chkptIdx.1 < 0 then (st, -ENODATA, false)
  else if env.chkptIdx.1 = st.checkpointLastIdx then (st, -EALREADY, false)
  else
    let (_, rc) :=
      checkpointPathBuild ri.log ri.thisPeerUuid ri.dbUuid env.chkptIdx true true pathMax
    if rc ≠ 0 then (st, -rc, false)
    else
      let (chkptPath, rc) :=
        checkpointPathBuild ri.log ri.thisPeerUuid ri.dbUuid env.chkptIdx true false pathMax
      if rc ≠ 0 then (st, -rc, false)
      else
        match (if env.staleTmp then env.trashTmp else none) with
        | some errno => (st, -errno.1, false)
        | none =>
            if (st.entries.any fun e => decide (e.dName = lastComponent chkptPath)) &&
                !env.statFails then (st, -EALREADY, false)
            else checkpointCreate ri env chkptPath st

/-- `raft_server_take_chkpt`, with the index that is read first.  `none` is a fatal error. -/
def takeChkpt (ri : ChkptInstance) (maxIdx : EntryIdx) (env : CheckpointEnv) (st : ChkptState) :
    Option ChkptState :=
  if maxIdx.1 < 0 then some { st with lastChkptErr := -ENODATA }
  else
    let (st, rc, _) := checkpoint ri env st
    -- `raft_server_set_checkpoint_last_idx`
    if rc ≥ 0 ∧ rc < st.checkpointLastIdx then none
    else
      let st := if rc ≥ 0 then { st with checkpointLastIdx := rc } else st
      some (if rc ≤ 0 then { st with lastChkptErr := rc } else st)

end Checkpoints

end RocksDirs

end NiovaRaft
