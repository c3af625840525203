import NiovaRaft.Model.PosixLog
import NiovaRaft.Base.Decimal
import NiovaRaft.Base.OrderedStore

/-!
# The log in the RocksDB backend

The keys that `raft_server_backend_rocksdb.c` keeps the log under, and the operations on them.  Each
entry has two keys that differ in their last byte: `e0.<index>e` for its data and `e0.<index>h` for
its header.  The database's own records are below them, at `a1_hdr.`, and the end of the log is
marked by a record at `z0_last.`.

The database is `Base.OrderedStore` over byte strings.
-/

namespace NiovaRaft

open Base

/-- A key of the database. -/
abbrev Key := List UInt8

/-- The database. -/
abbrev RocksDb := OrderedStore Key (List UInt8)

/-- The errors of the backend. -/
inductive RocksErrno where
  | EINVAL | ENOENT | ENOSPC | EMSGSIZE | ENOKEY | EBADMSG
deriving DecidableEq, Repr

namespace Rocks

/-! ## Keys -/

/-- `RAFT_LOG_HEADER_ROCKSDB_END`. -/
def headerEnd : Key := ascii ['a', '1', '_', 'h', 'd', 'r', '.']

/-- `RAFT_LOG_HEADER_LAST_APPLIED_ROCKSDB`. -/
def lastAppliedKey : Key :=
  headerEnd ++ ascii ['l', 'a', 's', 't', '_', 'a', 'p', 'p', 'l', 'i', 'e', 'd']

/-- `RAFT_LOG_HEADER_UUID`. -/
def uuidKey : Key := headerEnd ++ ascii ['U', 'U', 'I', 'D']

/-- `RAFT_LOG_HEADER_UUID_PRE_RECOVERY`. -/
def preRecoveryKey : Key :=
  uuidKey ++ ascii ['.', 'p', 'r', 'e', '-', 'r', 'e', 'c', 'o', 'v', 'e', 'r', 'y']

/-- `RAFT_LOG_LASTENTRY_ROCKSDB`. -/
def lastEntry : Key := ascii ['z', '0', '_', 'l', 'a', 's', 't', '.']

/-- `RAFT_LOG_LASTENTRY_FMT`. -/
def lastEntryKey (raftUuidStr peerUuidStr : List UInt8) : Key :=
  lastEntry ++ raftUuidStr ++ ascii ['_', '_'] ++ peerUuidStr

/-- `RAFT_LOG_HEADER_FMT`. -/
def logHeaderKey (raftUuidStr peerUuidStr : List UInt8) : Key :=
  ascii ['a', '0', '_', 'h', 'd', 'r', '.'] ++ raftUuidStr ++ ascii ['_', '_'] ++ peerUuidStr

/-- `RAFT_ENTRY_KEY_PREFIX_ROCKSDB`. -/
def entryKeyPrefix : Key := ascii ['e', '0', '.']

/-- The keys of an entry, by their last byte. -/
def entryKeyWith (suffix : UInt8) (entryIdx : Nat) : Key :=
  entryKeyPrefix ++ (zeroPadded 16 entryIdx ++ [suffix])

/-- `RAFT_ENTRY_KEY_PRINTF`. -/
def entryKey : Nat → Key := entryKeyWith 101

/-- `RAFT_ENTRY_HEADER_KEY_PRINTF`. -/
def entryHeaderKey : Nat → Key := entryKeyWith 104

/-! ## Reading -/

/-- `rsbr_get_exact_val_size`, with `rsbr_get`. -/
def getExactValSize (db : RocksDb) (key : Key) (expectedLen : Nat) :
    Except RocksErrno (List UInt8) :=
  if expectedLen = 0 then .error .EINVAL
  else
    match db.get key with
    | none => .error .ENOENT
    | some value =>
        if value.length = expectedLen then .ok value
        else .error (if expectedLen < value.length then .ENOSPC else .EMSGSIZE)

/-- `rsbr_entry_header_read`. -/
def entryHeaderRead (db : RocksDb) (idx : Int) : Except RocksErrno (List UInt8) :=
  if idx < 0 then .error .EINVAL
  else getExactValSize db (entryHeaderKey idx.toNat) entryHeaderSize

/-- `rsbr_entry_read`.  The index and the size are those of the header that was just read. -/
def entryRead (db : RocksDb) (idx : Int) : Except RocksErrno (List UInt8 × List UInt8) := do
  let header ← entryHeaderRead db idx
  let data ← getExactValSize db (entryKey (rehIndex header % 2 ^ 64).toNat) (rehDataSize header)
  return (header, data)

/-! ## Writing -/

/-- `struct raft_entry` in memory, for a log in the database. -/
structure RocksEntry where
  header : List UInt8
  data : List UInt8
  length_header : header.length = entryHeaderSize
  dataSize_eq : rehDataSize header = data.length
  index_nonneg : 0 ≤ rehIndex header

/-- `struct raft_net_wr_supp` for the default column family. -/
inductive WrSupp where
  | write (key : Key) (value : List UInt8)
  | delete (key : Key)

/-- The key of a supplement. -/
def WrSupp.key : WrSupp → Key
  | .write key _ => key
  | .delete key => key

/-- `rsbr_write_supplements_put`. -/
def writeSupplementsPut (db : RocksDb) (ws : List WrSupp) : RocksDb :=
  ws.foldl (fun db w =>
    match w with
    | .write key value => db.put key value
    | .delete key => db.delete key) db

/-- The value an entry's data is stored as: an entry is stored for every header. -/
def storedData (re : RocksEntry) : List UInt8 := if re.data.length = 0 then [0] else re.data

/-- `rsbr_entry_write`. -/
def entryWrite (db : RocksDb) (re : RocksEntry) (ws : List WrSupp) : RocksDb :=
  let entryIdx := (rehIndex re.header).toNat
  writeSupplementsPut
    ((db.put (entryHeaderKey entryIdx) re.header).put (entryKey entryIdx) (storedData re)) ws

/-- `rsbr_sm_apply_opt`. -/
def smApplyOpt (db : RocksDb) (lastApplied : List UInt8) (ws : List WrSupp) : RocksDb :=
  writeSupplementsPut (db.put lastAppliedKey lastApplied) ws

/-- `rsbr_log_truncate`. -/
def logTruncate (db : RocksDb) (entryIdx : Nat) : RocksDb :=
  db.deleteRange (entryKey entryIdx) lastEntry

/-- `rsbr_log_reap`. -/
def logReap (db : RocksDb) (entryIdx : Nat) : RocksDb :=
  db.deleteRange (entryKey 0) (entryKey entryIdx)

/-! ## The records of the database -/

/-- `rsbr_header_write`. -/
def headerWrite (db : RocksDb) (raftUuidStr thisPeerUuidStr : List UInt8) (rlh : RaftLogHeader) :
    RocksDb :=
  db.put (logHeaderKey raftUuidStr thisPeerUuidStr) rlh.bytes

/-- The first batch of `rsbr_init_header`.  A server that recovers may add the uuid of the database
it recovers from. -/
def initHeaderBatch (db : RocksDb) (raftUuidStr thisPeerUuidStr : List UInt8) (rlh : RaftLogHeader)
    (instanceUuid : List UInt8) (preRecovery : Option (List UInt8)) : RocksDb :=
  let db := (db.put (lastEntryKey raftUuidStr thisPeerUuidStr) rlh.bytes).put uuidKey instanceUuid
  match preRecovery with
  | none => db
  | some peerDbUuid => db.put preRecoveryKey peerDbUuid

/-- `rsbr_init_header`. -/
def initHeader (db : RocksDb) (raftUuidStr thisPeerUuidStr : List UInt8) (rlh : RaftLogHeader)
    (instanceUuid : List UInt8) (preRecovery : Option (List UInt8)) : RocksDb :=
  headerWrite (initHeaderBatch db raftUuidStr thisPeerUuidStr rlh instanceUuid preRecovery)
    raftUuidStr thisPeerUuidStr rlh

/-! ## The ends of the log -/

/-- The keys an iterator meets from `seek` on. -/
def iterSeek (db : RocksDb) (seekStr : Key) : List Key := db.keysWhere (seekStr ≤ ·)

/-- The index that an entry's key names. -/
def indexOfKey (key : Key) : Nat := readDecimal 0 (key.drop entryKeyPrefix.length)

/-- `rsbr_num_entries_calc`. -/
def numEntriesCalc (db : RocksDb) : Except RocksErrno Int :=
  match iterSeek db lastEntry with
  | [] => .error .ENOENT
  | lastKey :: _ =>
    match (db.keysWhere (· < lastKey)).getLast? with
    | none => .error .ENOENT
    | some key =>
      if headerEnd.isPrefixOf key then .ok 0
      else if ¬entryKeyPrefix.isPrefixOf key then .error .ENOKEY
      else if key.length ≤ entryKeyPrefix.length then .error .EBADMSG
      else .ok (indexOfKey key + 1)

/-- The loop of `rsbr_lowest_entry_get`, over the keys that are left. -/
def lowestEntryScan : List Key → Except RocksErrno Int
  | [] => .error .ENOENT
  | key :: keys =>
    if lastEntry.isPrefixOf key then .ok (-1)
    else if entryKeyPrefix.isPrefixOf key then .ok (indexOfKey key)
    else lowestEntryScan keys

/-- `rsbr_lowest_entry_get`.  The key that the iterator is placed on is not looked at. -/
def lowestEntryGet (db : RocksDb) : Except RocksErrno Int :=
  match iterSeek db headerEnd with
  | [] => .error .ENOENT
  | _ :: keys => lowestEntryScan keys

end Rocks

end NiovaRaft
