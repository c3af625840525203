import NiovaRaft.Model.Log
import NiovaRaft.Backend.PosixFile
import NiovaRaft.Model.BulkRecovery

/-!
# The calls of the backend

A server reaches its backend through the functions of `struct raft_instance_backend`.  Each call
that writes is given twice here: what it does to the contents as the server's model has them, and
what the RocksDB backend does for it to the keys of its database.

Every write to the database is a batch, and a batch is synced or not.  Synced batches take all
earlier ones with them.  Supplements for a column family of the application go to other keys than
these.
-/

namespace NiovaRaft

open Base

variable {n : Nat}

/-! ## In memory -/

/-- What a server's records in the database are made of besides their contents. -/
structure RocksNames (n : Nat) where
  raftUuidStr : List UInt8
  thisPeerUuidStr : List UInt8
  selfUuid : Nat
  raftUuid : Nat
  peerUuid : Fin n → Nat

/-- What an entry is given when it is stored: `reh_store_time`, and the bytes that follow its data
in the buffer they are copied from. -/
structure EntryMemory where
  storeTime : List UInt8
  rest : List UInt8

/-- `struct raft_last_applied` in memory. -/
def LastApplied.bytes (la : LastApplied) : List UInt8 :=
  [int64Bytes la.idx, leBytes 4 la.subIdx, leBytes 4 la.subIdxMax, int64Bytes la.syncedIdx,
    leBytes 4 la.cumulativeCrc, leBytes 4 la.kvCumulativeCrc].flatten

/-- `sizeof(struct raft_last_applied)`. -/
theorem LastApplied.length_bytes (la : LastApplied) : la.bytes.length = 32 := by
  simp [bytes]

namespace RocksNames

variable (names : RocksNames n)

/-- `struct raft_log_header` as it lies in `ri_log_hdr`. -/
def logHeader (hdr : LogHeader n) : RaftLogHeader :=
  ⟨0, headerMagic, hdr.term, hdr.seqno, hdr.votedFor.elim 0 names.peerUuid⟩

/-- `struct raft_entry_header` in memory. -/
def headerBytes (mem : EntryMemory) (reh : EntryHeader) : List UInt8 :=
  entryHeaderBytes ⟨names.selfUuid, names.raftUuid, mem.storeTime, reh.applyHandlerVersion,
    reh.leaderChangeMarker, reh.entrySz⟩ reh.crc reh.dataSize reh.index reh.term

/-- `struct raft_entry` in memory.  An index is a 64-bit number, and a size one of 32 bits. -/
def inMemory (mem : EntryMemory) (re : Entry) : Option Rocks.RocksEntry :=
  if h : 0 ≤ re.header.index ∧ re.header.index < 2 ^ 63 ∧ re.header.dataSize < 2 ^ 32 then
    some {
      header := names.headerBytes mem re.header
      data := (re.data ++ mem.rest).takeD re.header.dataSize 0
      length_header := length_entryHeaderBytes ..
      dataSize_eq := by
        rw [List.takeD_length, headerBytes, rehDataSize_entryHeaderBytes h.2.2]
      index_nonneg := by
        rw [headerBytes, rehIndex_entryHeaderBytes (by omega) h.2.1]
        exact h.1 }
  else none

/-- The key of the log header. -/
def logHeaderKey : Key := Rocks.logHeaderKey names.raftUuidStr names.thisPeerUuidStr

/-- The marker of the log's end. -/
def lastEntryKey : Key := Rocks.lastEntryKey names.raftUuidStr names.thisPeerUuidStr

end RocksNames

/-- The supplements for the keys of the default column family. -/
def defaultFamily (ws : List WrSupp) : List Rocks.WrSupp :=
  (ws.filter (·.handle = none)).map fun w =>
    match w.op with
    | .write => .write w.key w.value
    | .delete => .delete w.key

/-- `rsb_sm_get_last_applied_kv_idx`: the bytes of the record. -/
def Rocks.getLastAppliedKvIdx (db : RocksDb) : Except RocksErrno (List UInt8) :=
  getExactValSize db lastAppliedKey 32

/-- `RAFT_LOG_HEADER_ROCKSDB_LAST_SYNC`. -/
def Rocks.lastSyncKey : Key :=
  headerEnd ++ ascii ['l', 'a', 's', 't', '_', 's', 'y', 'n', 'c']

/-- `rsbr_sync`: a record of the time, written to have everything before it synced. -/
def Rocks.sync (db : RocksDb) (ts : List UInt8) : RocksDb := db.put lastSyncKey ts

/-! ## Calls -/

/-- The calls that write. -/
inductive DbCall (n : Nat) where
  | entryWrite (sync : Bool) (re : Entry) (mem : EntryMemory) (ws : List WrSupp)
  | logTruncate (entryIdx : Nat)
  | logReap (entryIdx : Nat)
  | headerWrite (hdr : LogHeader n)
  | smApplyOpt (la : LastApplied) (batch : Option AppBatch)
  | checkpoint (idx : Int)
  | backendSync (ts : List UInt8)

namespace DbCall

/-- What a call does to the contents of the backend. -/
def onDb (db : Db n) : DbCall n → Db n
  | entryWrite _ re _ _ => db.write re
  | logTruncate entryIdx => db.truncate entryIdx
  | logReap entryIdx => db.reap entryIdx
  | headerWrite hdr => { db with hdr := hdr }
  | smApplyOpt la batch => db.apply la batch
  | checkpoint idx => { db with chkptIdx := idx }
  | backendSync _ => db

/-- The supplements that are in the batch of a call. -/
def ws : DbCall n → List Rocks.WrSupp
  | entryWrite _ _ _ ws => defaultFamily ws
  | smApplyOpt _ batch => defaultFamily (batch.elim [] (·.ws))
  | _ => []

/-- What a call does to the keys of the database.  A checkpoint is a copy of the database and
changes none of them. -/
def onKeys (names : RocksNames n) (keys : RocksDb) : DbCall n → RocksDb
  | entryWrite _ re mem ws =>
      (names.inMemory mem re).elim keys fun raw => Rocks.entryWrite keys raw (defaultFamily ws)
  | logTruncate entryIdx => Rocks.logTruncate keys entryIdx
  | logReap entryIdx => Rocks.logReap keys entryIdx
  | headerWrite hdr =>
      Rocks.headerWrite keys names.raftUuidStr names.thisPeerUuidStr (names.logHeader hdr)
  | smApplyOpt la batch =>
      Rocks.smApplyOpt keys la.bytes (defaultFamily (batch.elim [] (·.ws)))
  | checkpoint _ => keys
  | backendSync ts => Rocks.sync keys ts

/-- Whether a call leaves nothing that a crash could lose. -/
def synced : DbCall n → Bool
  | entryWrite sync _ _ _ => sync
  | smApplyOpt _ _ => false
  | _ => true

end DbCall

/-- The keys of the database after some calls, from those that a new server writes. -/
def keysAfter (names : RocksNames n) (instanceUuid : List UInt8) (calls : List (DbCall n)) :
    RocksDb :=
  calls.foldl (DbCall.onKeys names)
    (Rocks.initHeader .empty names.raftUuidStr names.thisPeerUuidStr (Posix.initialHeader 0)
      instanceUuid none)

/-- What the application has written with some calls. -/
def appAfter (calls : List (DbCall n)) : RocksDb :=
  calls.foldl (fun db c => Rocks.writeSupplementsPut db c.ws) .empty

end NiovaRaft
