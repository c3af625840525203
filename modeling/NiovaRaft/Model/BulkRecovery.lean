import NiovaRaft.Model.RocksLog
import NiovaRaft.Base.Durable
import NiovaRaft.Model.Uuid

/-!
# Bulk recovery

A server that is too far behind takes over a checkpoint of a peer's database.  The peer's database is
copied beside the server's own, and `rsbr_bulk_recover` then puts it in the place of `db/`: it is
renamed to the recovery marker, `db/` is removed, the peer's records are replaced with the server's
own, and the marker is renamed to `db/`.

The directories are the durable state.  A rename and a batch of the database are atomic, and a crash
leaves the directories and a prefix of the batches.  A server that finds a marker when it starts runs
the recovery again from there, with its memory cleared.

The copy itself is made by `rsync` and is taken to be there.
-/

namespace NiovaRaft

open Base

/-- `reh_magic` of a header in memory. -/
def rehMagic (header : List UInt8) : Nat := ofLeBytes (slice header 0 8)

namespace Rocks

/-- How a recovery ends early. -/
inductive RecoveryErr where
  | errno (e : RocksErrno)
  | EINVAL | ENODEV | ENOENT | ENOTCONN | ENOTEMPTY
  /-- An assertion failed. -/
  | fatal
deriving DecidableEq, Repr

/-- `struct raft_recovery_handle`, and who the server is.  Uuids are given with their texts where
these are part of a key. -/
structure RecoveryHandle where
  raftUuidStr : List UInt8
  thisPeerUuid : Uuid
  thisPeerUuidStr : List UInt8
  peerUuid : Uuid
  peerUuidStr : List UInt8
  peerDbUuid : Uuid

/-! ## Opening -/

/-- What `rsbr_prep_raft_instance_from_db` finds. -/
structure OpenedDb where
  dbUuid : Uuid
  dbRecoveryUuid : Uuid
  lowestIdx : Int
  entriesDetected : Int

/-- A uuid that the database holds. -/
def getUuid (db : RocksDb) (key : Key) : Except RocksErrno Uuid :=
  match getExactValSize db key 16 with
  | .error e => .error e
  | .ok value => if h : value.length = 16 then .ok ⟨value, h⟩ else .error .EINVAL

/-- `rsb_sm_get_instance_uuid`, for `ri_db_recovery_uuid`: it stays as it was when the database has
none. -/
def recoveryUuid (db : RocksDb) (dbRecoveryUuid : Uuid) : Uuid :=
  match getUuid db preRecoveryKey with
  | .ok uuid => uuid
  | .error _ => dbRecoveryUuid

/-- The lowest index, if there are entries. -/
def lowestIdx (db : RocksDb) (entriesDetected : Int) : Except RocksErrno Int :=
  if 0 < entriesDetected then lowestEntryGet db else .ok (-1)

/-- `rsbr_db_open` of a server that is recovering, with `rsbr_prep_raft_instance_from_db`. -/
def dbOpen (dbRecoveryUuid : Uuid) (db : RocksDb) : Except RecoveryErr OpenedDb :=
  match getUuid db uuidKey, numEntriesCalc db with
  | .ok dbUuid, .ok entriesDetected =>
    match lowestIdx db entriesDetected with
    | .ok lowest => .ok ⟨dbUuid, recoveryUuid db dbRecoveryUuid, lowest, entriesDetected⟩
    | .error _ => .error .fatal
  | _, _ => .error .fatal

/-! ## Scrubbing -/

/-- `rsbr_header_load`. -/
def headerLoad (db : RocksDb) (raftUuidStr peerUuidStr : List UInt8) :
    Except RecoveryErr RaftLogHeader :=
  match getExactValSize db (logHeaderKey raftUuidStr peerUuidStr) 48 with
  | .error e => .error (.errno e)
  | .ok value =>
      if (RaftLogHeader.ofBytes value).magic ≠ headerMagic then .error (.errno .EBADMSG)
      else .ok (.ofBytes value)

/-- An entry header with another `reh_self_uuid`. -/
def scrubHeader (selfUuid : Uuid) (reh : List UInt8) : List UInt8 := overwrite reh 8 selfUuid.bytes

/-- `rsbr_bulk_recovery_db_scrub_entry_headers`, from `i` on.  A header that is not the one of its
entry ends the loop, and `rc` is 0 there. -/
def dbScrubEntryHeaders (selfUuid : Uuid) : Nat → Nat → Durable RocksDb RecoveryErr Unit
  | _, 0 => pure ()
  | i, n + 1 => do
    let db ← Durable.read
    match entryHeaderRead db i with
    | .error e => Durable.fail (.errno e)
    | .ok reh =>
      if rehMagic reh ≠ entryMagic ∨ rehIndex reh ≠ i then pure ()
      else do
        Durable.write fun db => db.put (entryHeaderKey i) (scrubHeader selfUuid reh)
        dbScrubEntryHeaders selfUuid (i + 1) n

/-- `rsbr_bulk_recovery_db_scrub`.  `instanceUuid` is the uuid that `rsbr_init_header` generates. -/
def dbScrub (rrh : RecoveryHandle) (instanceUuid : Uuid) (o : OpenedDb) :
    Durable RocksDb RecoveryErr Unit := do
  Durable.require (o.dbUuid = rrh.peerDbUuid ∨ o.dbRecoveryUuid = rrh.peerDbUuid) .ENODEV
  let db ← Durable.read
  let logHdr ← Durable.ofExcept (headerLoad db rrh.raftUuidStr rrh.peerUuidStr)
  Durable.require (rrh.thisPeerUuidStr ≠ rrh.peerUuidStr) .fatal
  Durable.require (0 ≤ o.lowestIdx ∧ 0 ≤ o.entriesDetected ∧ o.lowestIdx ≤ o.entriesDetected) .fatal
  dbScrubEntryHeaders rrh.thisPeerUuid o.lowestIdx.toNat (o.entriesDetected - o.lowestIdx).toNat
  Durable.write fun db =>
    initHeaderBatch db rrh.raftUuidStr rrh.thisPeerUuidStr logHdr instanceUuid.bytes
      (if rrh.peerDbUuid ≠ o.dbRecoveryUuid then some rrh.peerDbUuid.bytes else none)
  Durable.write fun db => headerWrite db rrh.raftUuidStr rrh.thisPeerUuidStr logHdr

/-- What of `struct raft_instance` a scrub changes.  The string is that of the server's own uuid, other
than in a scrub. -/
structure ScrubInstance where
  db : RocksDb
  thisPeerUuidStr : List UInt8

/-- A change of the database. -/
def onDb (m : Durable RocksDb RecoveryErr Unit) : Durable ScrubInstance RecoveryErr Unit :=
  Durable.zoom ScrubInstance.db (fun ri db => { ri with db := db }) m

/-- `rsbr_bulk_recovery_db_scrub` of an instance.  `dbScrub` is what becomes of the database. -/
def bulkRecoveryDbScrub (rrh : RecoveryHandle) (instanceUuid : Uuid) (o : OpenedDb) :
    Durable ScrubInstance RecoveryErr Unit := do
  Durable.require (o.dbUuid = rrh.peerDbUuid ∨ o.dbRecoveryUuid = rrh.peerDbUuid) .ENODEV
  let stashed ← Durable.read
  Durable.write fun ri => { ri with thisPeerUuidStr := rrh.peerUuidStr }
  let ri ← Durable.read
  let logHdr ← Durable.ofExcept (headerLoad ri.db rrh.raftUuidStr ri.thisPeerUuidStr)
  Durable.require (rrh.thisPeerUuidStr ≠ rrh.peerUuidStr) .fatal
  Durable.require (0 ≤ o.lowestIdx ∧ 0 ≤ o.entriesDetected ∧ o.lowestIdx ≤ o.entriesDetected) .fatal
  onDb (dbScrubEntryHeaders rrh.thisPeerUuid o.lowestIdx.toNat
    (o.entriesDetected - o.lowestIdx).toNat)
  Durable.write fun ri => { ri with thisPeerUuidStr := stashed.thisPeerUuidStr }
  let ri ← Durable.read
  onDb do
    Durable.write fun db =>
      initHeaderBatch db rrh.raftUuidStr ri.thisPeerUuidStr logHdr instanceUuid.bytes
        (if rrh.peerDbUuid ≠ o.dbRecoveryUuid then some rrh.peerDbUuid.bytes else none)
    Durable.write fun db => headerWrite db rrh.raftUuidStr ri.thisPeerUuidStr logHdr

/-- What is done to the database of the peer. -/
def dbRecover (rrh : RecoveryHandle) (dbRecoveryUuid instanceUuid : Uuid) :
    Durable RocksDb RecoveryErr Unit := do
  let db ← Durable.read
  let o ← Durable.ofExcept (dbOpen dbRecoveryUuid db)
  dbScrub rrh instanceUuid o

/-! ## The directories -/

/-- `db/`: a directory that was just made, or one with a database. -/
inductive DbDir where
  | emptyDir
  | rocks (db : RocksDb)

/-- The directories of a recovery. -/
structure RecoveryDirs where
  db : Option DbDir
  /-- The recovery marker. -/
  marker : Option RocksDb
  /-- The copy of the peer's database under `chkpt/peers/`. -/
  rsync : Option RocksDb

/-- `rsbr_bulk_recovery_stage_remote_db`. -/
def stageRemoteDb : Durable RecoveryDirs RecoveryErr Unit := do
  let dirs ← Durable.read
  match dirs.rsync, dirs.marker with
  | none, _ => Durable.fail .ENOENT
  | some _, some _ => Durable.fail .ENOTEMPTY
  | some db, none => Durable.write fun dirs => { dirs with marker := some db, rsync := none }

/-- `rsbr_bulk_recovery_remove_current_db_contents`.  The trash is left out. -/
def removeCurrentDbContents : Durable RecoveryDirs RecoveryErr Unit :=
  Durable.write fun dirs => { dirs with db := none }

/-- `rsbr_bulk_recovery_promote_scrubbed_db`. -/
def promoteScrubbedDb : Durable RecoveryDirs RecoveryErr Unit := do
  let dirs ← Durable.read
  match dirs.marker, dirs.db with
  | none, _ => Durable.fail .ENOENT
  | some _, some (.rocks _) => Durable.fail .ENOTEMPTY
  | some db, _ => Durable.write fun dirs => { dirs with marker := none, db := some (.rocks db) }

/-- A program over the database in the recovery marker. -/
def atMarker (m : Durable RocksDb RecoveryErr Unit) : Durable RecoveryDirs RecoveryErr Unit := do
  let dirs ← Durable.read
  match dirs.marker with
  | none => Durable.fail .ENOTCONN
  | some db =>
      Durable.zoom (fun _ => db) (fun (dirs : RecoveryDirs) db => { dirs with marker := some db }) m

/-- The copy is staged once. -/
def stageUnlessMarked (fromRecoveryMarker : Bool) : Durable RecoveryDirs RecoveryErr Unit :=
  if fromRecoveryMarker then pure () else stageRemoteDb

/-- `rsbr_bulk_recover`, after the copy was made. -/
def bulkRecover (rrh : RecoveryHandle) (fromRecoveryMarker : Bool)
    (dbRecoveryUuid instanceUuid : Uuid) : Durable RecoveryDirs RecoveryErr Unit := do
  Durable.require (rrh.peerUuid ≠ .null ∧ rrh.peerDbUuid ≠ .null) .EINVAL
  stageUnlessMarked fromRecoveryMarker
  removeCurrentDbContents
  atMarker (dbRecover rrh dbRecoveryUuid instanceUuid)
  promoteScrubbedDb

/-- `rsbr_setup_create_subdirs`, when the server starts. -/
def RecoveryDirs.createSubdirs (dirs : RecoveryDirs) : RecoveryDirs :=
  { dirs with db := some (dirs.db.getD .emptyDir) }

end Rocks

end NiovaRaft
