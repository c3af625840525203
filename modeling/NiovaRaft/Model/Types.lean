import NiovaRaft.Base.Handler
import Mathlib.Data.Fintype.Basic
import Mathlib.Logic.Function.Basic

/-!
# The data model of a raft server

The structures of `raft.h` that the server's protocol code reads and writes.  Peers are
named by their position in `ri_csn_raft_peers`, so a configured uuid is an element of
`Fin n` and the null uuid is `none`.  Terms, indexes and the sentinels `-1` that stand for
"none" are integers, as in the source.

Left out of `raft_entry_header` are the magic number, the two uuids, the store time and the
padding: they are the same for every entry a server writes into its own log and no protocol
decision depends on them.  `reh_entry_sz` is the list of its first `reh_num_entries` slots;
the slots beyond are zero (`raft_server_entry_init` clears the array).

`niova_crc` comes from outside the repository.  It is a parameter: an arbitrary function of the
part of an entry it covers, or of bytes and a seed.
-/

namespace NiovaRaft

/-- The clusters of the examples have three servers. -/
instance three_neZero : NeZero 3 := ⟨by decide⟩

/-! ## Code outside the repository -/

/-- The error codes the modelled functions return, `rc = -code`. -/
inductive Errno where
  | EINVAL | ERANGE | EBADSLT | EBADR | EALREADY | EEXIST | ESTALE | EAGAIN | EPERM | ENOSPC
  | EBADMSG | EINPROGRESS | ENOENT | ENOSYS | EBUSY | E2BIG
deriving DecidableEq, Repr

/-- The part of an entry that `raft_server_entry_calc_crc` covers: everything from
`reh_data_size` on. -/
structure CrcInput where
  dataSize : Nat
  index : Int
  term : Int
  entrySz : List Nat
  applyHandlerVersion : Nat
  leaderChangeMarker : Bool
  numEntries : Nat
  data : List UInt8
deriving DecidableEq, Repr

/-- Functions of code that is not in the repository. -/
class Externals where
  /-- `niova_crc` over an entry, with seed zero. -/
  niovaCrc : CrcInput → Nat
  /-- `niova_crc` over bytes, with a seed. -/
  niovaCrcSeeded : List UInt8 → Nat → Nat

/-! ## Entries and the log header -/

/-- `struct raft_entry_header`. -/
structure EntryHeader where
  crc : Nat
  dataSize : Nat
  index : Int
  term : Int
  entrySz : List Nat
  applyHandlerVersion : Nat
  leaderChangeMarker : Bool
  numEntries : Nat
deriving DecidableEq, Repr

/-- The header of an empty log: all zero, with index `-1`. -/
def EntryHeader.null : EntryHeader := ⟨0, 0, -1, 0, [], 0, false, 0⟩

@[simp] theorem EntryHeader.null_index : EntryHeader.null.index = -1 := rfl
@[simp] theorem EntryHeader.null_term : EntryHeader.null.term = 0 := rfl

/-- `struct raft_entry`. -/
structure Entry where
  header : EntryHeader
  data : List UInt8
deriving DecidableEq, Repr

/-- The term an entry was written in. -/
def Entry.term (e : Entry) : Int := e.header.term

/-- What two servers must agree on when they hold the same entry: its term, the number and
sizes of its sub-entries, whether it is a leader change marker, and its data.  The checksum
and the apply handler version are local to the server that stored it. -/
structure EntryCore where
  term : Int
  numEntries : Nat
  entrySz : List Nat
  leaderChangeMarker : Bool
  data : List UInt8
deriving DecidableEq, Repr

/-- The shared part of a stored entry. -/
def Entry.core (e : Entry) : EntryCore :=
  ⟨e.header.term, e.header.numEntries, e.header.entrySz, e.header.leaderChangeMarker, e.data⟩

@[simp] theorem Entry.core_term (e : Entry) : e.core.term = e.term := rfl

/-- `struct raft_log_header`: the term, the vote cast in it and the block sequence number. -/
structure LogHeader (n : Nat) where
  term : Int
  votedFor : Option (Fin n)
  seqno : Nat
deriving DecidableEq, Repr

/-- `struct raft_last_applied`. -/
structure LastApplied where
  idx : Int
  subIdx : Nat
  subIdxMax : Nat
  syncedIdx : Int
  cumulativeCrc : Nat
  kvCumulativeCrc : Nat
deriving DecidableEq, Repr

/-- The value `raft_server_instance_init` gives to `ri_last_applied`. -/
def LastApplied.initial : LastApplied := ⟨-1, 0, 0, -1, 0, 0⟩

/-! ## Messages -/

/-- `struct raft_vote_request_msg`. -/
structure VoteRequestMsg where
  proposedTerm : Int
  lastLogTerm : Int
  lastLogIndex : Int
deriving DecidableEq, Repr

/-- `struct raft_vote_reply_msg`. -/
structure VoteReplyMsg (n : Nat) where
  votedGranted : Bool
  term : Int
  currentLeader : Option (Fin n)
deriving DecidableEq, Repr

/-- `struct raft_append_entries_request_msg`. -/
structure AppendEntriesRequestMsg where
  leaderTerm : Int
  logTerm : Int
  commitIndex : Int
  lowestIndex : Int
  chkptIndex : Int
  prevLogTerm : Int
  prevLogIndex : Int
  prevIdxCrc : Nat
  thisIdxCrc : Nat
  sizeArr : List Nat
  entriesSz : Nat
  numEntries : Nat
  heartbeatMsg : Bool
  leaderChangeMarker : Bool
  entryOutOfRange : Bool
  entries : List UInt8
deriving DecidableEq, Repr

/-- `struct raft_append_entries_reply_msg`. -/
structure AppendEntriesReplyMsg where
  leaderTerm : Int
  prevLogIndex : Int
  syncedLogIndex : Int
  heartbeatMsg : Bool
  errStaleTerm : Bool
  errNonMatchingPrevTerm : Bool
  newlyInitializedPeer : Bool
  updateSli : Bool
deriving DecidableEq, Repr

/-- `struct raft_sync_idx_update_msg`. -/
structure SyncIdxUpdateMsg where
  syncedLogIndex : Int
  term : Int
deriving DecidableEq, Repr

/-- `struct raft_rpc_msg`: the union with its `rrm_type`.  The sender travels with the
packet. -/
inductive RpcMsg (n : Nat) where
  | preVoteRequest (m : VoteRequestMsg)
  | preVoteReply (m : VoteReplyMsg n)
  | voteRequest (m : VoteRequestMsg)
  | voteReply (m : VoteReplyMsg n)
  | appendEntriesRequest (m : AppendEntriesRequestMsg)
  | appendEntriesReply (m : AppendEntriesReplyMsg)
  | syncIdxUpdate (m : SyncIdxUpdateMsg)
deriving DecidableEq, Repr

/-- The message may raise the slot that a leader keeps for its sender. -/
def RpcMsg.acknowledges {n : Nat} : RpcMsg n → Bool
  | .appendEntriesReply _ => true
  | .syncIdxUpdate _ => true
  | _ => false

/-! ## Requests to the state machine -/

/-- `enum raft_net_wr_supp_op`. -/
inductive WrSuppOp where
  | write | delete
deriving DecidableEq, Repr

/-- `struct raft_net_wr_supp`: a write or a removal of a key.  The handle is a column family, here
its name; without one it is the default family. -/
structure WrSupp where
  op : WrSuppOp
  handle : Option String
  key : List UInt8
  value : List UInt8
deriving DecidableEq, Repr

/-- `struct raft_net_sm_write_supplements`. -/
structure SmWriteSupplements where
  ws : List WrSupp
  kvCrc : Nat
  kvCrcEnabled : Bool
deriving DecidableEq, Repr

/-- `enum raft_net_client_request_type`. -/
inductive ClientRequestType where
  | none | read | write | commit | any
deriving DecidableEq, Repr

/-- `struct raft_client_rpc_msg`: what of a client's message goes into a request handle.  The null
uuid is `0`. -/
structure ClientRpcMsg where
  data : List UInt8
  dataSize : Nat
  senderId : Nat
  msgId : Nat
deriving DecidableEq, Repr

/-- `struct raft_net_client_request_handle`, without the reply buffer and the pointers that only
the client code follows. -/
structure ClientRequestHandle where
  type : ClientRequestType
  writeRaftEntry : Bool
  isLeader : Bool
  isDirectReq : Bool
  entryTerm : Int
  currentTerm : Int
  applyHandlerVersion : Nat
  requestOrCommitData : List UInt8
  requestOrCommitDataSize : Nat
  msgId : Nat
  smWriteSupp : SmWriteSupplements
  clientUuid : Nat
deriving DecidableEq, Repr

/-- `ri_server_sm_request_cb` is the application's.  What it does with sub-entry `i`, whose handle
it is given, is to hand back supplements, one `raft_net_sm_write_supplement_add` each. -/
abbrev SmRequestCb : Type := Nat → ClientRequestHandle → List WrSupp

/-- A sub-entry of the log: where it is, and its bytes. -/
structure SubEntry where
  idx : Int
  subIdx : Nat
  data : List UInt8
deriving DecidableEq, Repr

/-- The write supplements of one batch, with the sub-entry they were returned for. -/
structure AppBatch where
  sub : SubEntry
  ws : List WrSupp
deriving DecidableEq, Repr

/-! ## The instance -/

/-- `enum raft_state`. -/
inductive RaftState where
  | none | leader | follower | candidatePrevote | candidate | client
deriving DecidableEq, Repr

/-- `enum raft_follower_reasons`. -/
inductive FollowerReason where
  | none | votedForPeer | staleTermWhileCandidate | staleTermWhileLeader | leaderAlreadyPresent
deriving DecidableEq, Repr

/-- `enum raft_process_state`. -/
inductive ProcessState where
  | booting | running | recovering | shutdown
deriving DecidableEq, Repr

/-- `enum raft_vote_result`. -/
inductive VoteResult where
  | unknown | preVoteYes | preVoteNo | voteYes | voteNo
deriving DecidableEq, Repr

/-- `enum raft_instance_store_type`. -/
inductive StoreType where
  | posixFlatFile | rocksdb | rocksdbPersistentApp
deriving DecidableEq, Repr

/-- `enum raft_instance_newest_entry_hdr_types`. -/
inductive NehdrType where
  | sync | unsync | all
deriving DecidableEq, Repr

/-- `struct raft_candidate_state`. -/
structure CandidateState (n : Nat) where
  term : Int
  prevote : Bool
  results : Fin n → VoteResult

/-- `struct raft_follower_info`.  `rfi_last_ack` only feeds the quorum check, whose verdict
is an input of the timer event. -/
structure FollowerInfo where
  nextIdx : Int
  ackdIdx : Int
  syncedIdx : Int
  currentIdxTerm : Int
  currentIdxCrc : Nat
  prevIdxTerm : Int
  prevIdxCrc : Nat
  aeSendsWaitUntil : Nat
deriving DecidableEq, Repr

/-- A slot cleared by `memset`. -/
def FollowerInfo.zero : FollowerInfo := ⟨0, 0, 0, 0, 0, 0, 0, 0⟩

/-- `struct raft_leader_state`, without its clocks. -/
structure LeaderState (n : Nat) where
  initialTermIdx : Int
  leaderTerm : Int
  rfi : Fin n → FollowerInfo

/-- `struct raft_recovery_handle`, without the transfer statistics. -/
structure RecoveryHandle (n : Nat) where
  peer : Option (Fin n)
  peerChkptIdx : Int
  fromRecoveryMarker : Bool
deriving DecidableEq, Repr

/-- What the backend holds: the log header, the entries (entry `i` at position `i`), how many
of the oldest entries were reaped, the last-applied record, what the application wrote and the
index of the newest checkpoint.  Reaped entries stay in the list so that positions are indexes; no
read returns them.  What the application wrote is the list of its batches, the oldest first; no
function of the server reads it. -/
structure Db (n : Nat) where
  hdr : LogHeader n
  entries : List Entry
  reaped : Nat
  lastApplied : Option LastApplied
  supplements : List AppBatch
  chkptIdx : Int
deriving DecidableEq, Repr

/-- The entry stored at an index. -/
def Db.read {n : Nat} (db : Db n) (idx : Nat) : Option Entry :=
  if db.reaped ≤ idx then db.entries[idx]? else none

/-- The backend of a running process.  Writes that were not synced may be lost in a crash,
newest first: `recoverable` lists the contents a crash may leave behind. -/
structure Store (n : Nat) where
  db : Db n
  recoverable : List (Db n)

/-- The options a server was started with. -/
structure Options where
  storeType : StoreType
  synchronousWrites : Bool
  applyHandlerVersion : Nat
  maxScanEntries : Int
deriving DecidableEq, Repr

/-- `struct raft_instance`: the fields the server protocol uses. -/
structure RaftInstance (n : Nat) where
  self : Fin n
  opts : Options
  procState : ProcessState
  state : RaftState
  followerReason : FollowerReason
  csnLeader : Option (Fin n)
  logHdr : LogHeader n
  candidate : CandidateState n
  leader : LeaderState n
  commitIdx : Int
  lastApplied : LastApplied
  checkpointLastIdx : Int
  lowestIdx : Int
  newestSync : EntryHeader
  newestUnsync : EntryHeader
  needsBulkRecovery : Bool
  recoveryHandle : RecoveryHandle n
  store : Store n

/-- The log a server holds, as the shared parts of its entries. -/
def RaftInstance.log {n : Nat} (ri : RaftInstance n) : List EntryCore :=
  ri.store.db.entries.map Entry.core

/-- `RAFT_ENTRY_MAX_DATA_SIZE(ri)`: the backend's entry size less the header reserve. -/
def StoreType.entryMaxDataSize : StoreType → Nat
  | .posixFlatFile => 65536 - 496
  | .rocksdb => 4 * 1024 * 1024 - 496
  | .rocksdbPersistentApp => 4 * 1024 * 1024 - 496

/-! ## Processes -/

/-- The points of a run that its properties speak about.  Each is recorded with the part of
the instance it concerns, as it stood at that point. -/
inductive Obs (n : Nat) where
  /-- `raft_server_leader_init_state` ran in `term`, with `log` synced. -/
  | leads (term : Int) (log : List EntryCore)
  /-- `ri_commit_idx` was raised to `idx` in `state`, with `log` stored. -/
  | commits (state : RaftState) (term : Int) (idx : Int) (log : List EntryCore)
  /-- `raft_server_state_machine_apply` took entry `idx`: its header, and the bytes handed
  to the state machine. -/
  | applies (idx : Int) (term : Int) (entrySz : List Nat) (data : List UInt8)
  /-- `ri_server_sm_request_cb` was called with sub-entry `subIdx` of entry `idx`. -/
  | requests (idx : Int) (subIdx : Nat) (rncr : ClientRequestHandle)
deriving DecidableEq, Repr

/-- A process while it runs one handler: the instance, the messages handed to
`raft_server_send_msg`, what was observed, and how many more writes to the store the process
survives (`none` when it does not crash). -/
structure Proc (n : Nat) where
  ri : RaftInstance n
  out : List (Fin n × RpcMsg n)
  trace : List (Obs n)
  fuse : Option Nat

/-- A handler of the server. -/
abbrev Server (n : Nat) : Type → Type := Base.Handler (Proc n)

end NiovaRaft
