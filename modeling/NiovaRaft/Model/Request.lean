import NiovaRaft.Model.Log

/-!
# Requests to the state machine

The handle that the state machine's callback is given, and the write supplements it hands back:
keys that are written or removed in the same batch as the last-applied record.  A running checksum
goes through the supplements of the user's column family.
-/

namespace NiovaRaft

variable {n : Nat}

/-- Whether a column family is the user's.  The comparison is over the length of its name, so any
start of the user's name passes. -/
def WrSupp.isUserCf (name : String) : Bool :=
  decide (name.toList ≠ []) && name.toList.isPrefixOf "PMDBTS_CF".toList

/-- Whether `raft_net_sm_write_supplement_crc_update` covers a supplement. -/
def WrSupp.hashed (ws : WrSupp) : Bool := decide (ws.op = .write) && ws.handle.all isUserCf

/-- A handle cleared by `memset`. -/
def ClientRequestHandle.zero : ClientRequestHandle :=
  ⟨.none, false, false, false, 0, 0, 0, [], 0, 0, ⟨[], 0, false⟩, 0⟩

/-- `raft_net_client_request_handle_has_reply_info`, with a reply buffer that has room. -/
def ClientRequestHandle.hasReplyInfo (rncr : ClientRequestHandle) : Bool :=
  decide (rncr.clientUuid ≠ 0 ∧ rncr.msgId ≠ 2 ^ 64 - 1 ∧ rncr.msgId ≠ 0)

namespace RaftServer

open Base Base.Handler

/-! ## Write supplements -/

/-- `RAFT_NET_WR_SUPP_MAX`. -/
def netWrSuppMax : Nat := 1024 * 1024 + 1024

/-- `niova_crc` over a part that may be empty. -/
def crcPart [Externals] (bytes : List UInt8) (crc : Nat) : Nat :=
  if bytes = [] then crc else Externals.niovaCrcSeeded bytes crc

/-- `raft_net_sm_write_supplement_crc_update`. -/
def netSmWriteSupplementCrcUpdate [Externals] (rnsws : SmWriteSupplements) (ws : WrSupp) :
    SmWriteSupplements :=
  if rnsws.kvCrcEnabled = false ∨ ws.hashed = false then rnsws
  else { rnsws with kvCrc := crcPart ws.value (crcPart ws.key rnsws.kvCrc) }

/-- `raft_net_sm_write_supplement_add`.  Without a key, or when there are too many, nothing is
added. -/
def netSmWriteSupplementAdd [Externals] (rnsws : SmWriteSupplements) (ws : WrSupp) :
    SmWriteSupplements :=
  if ws.key = [] ∨ rnsws.ws.length ≥ netWrSuppMax then rnsws
  else netSmWriteSupplementCrcUpdate { rnsws with ws := rnsws.ws ++ [ws] } ws

/-- `raft_net_sm_write_supplement_enable_kv_crc`. -/
def netSmWriteSupplementEnableKvCrc (rnsws : SmWriteSupplements) (seed : Nat) :
    SmWriteSupplements :=
  { rnsws with kvCrc := seed, kvCrcEnabled := true }

/-- `raft_net_sm_write_supplement_get_kv_crc`. -/
def netSmWriteSupplementGetKvCrc (rnsws : SmWriteSupplements) : Nat :=
  if rnsws.kvCrcEnabled = false then 0 else rnsws.kvCrc

/-! ## Request handles -/

/-- `raft_server_net_client_request_init`.  Both terms are the server's. -/
def netClientRequestInit (type : ClientRequestType) (rpcRequest : Option ClientRpcMsg)
    (commitData : Option (List UInt8)) (commitDataSize : Nat) (isDirectReq : Bool) :
    Server n ClientRequestHandle := do
  let ri ← getRi
  match type with
  | .none => fatalIf (rpcRequest = none ∨ commitData ≠ none)
  | .commit => fatalIf (rpcRequest ≠ none ∨ commitData = none)
  | .read | .write | .any => abort
  let rncr : ClientRequestHandle :=
    { ClientRequestHandle.zero with
      type := type, isLeader := ri.isLeader, entryTerm := ri.logHdr.term,
      currentTerm := ri.logHdr.term, isDirectReq := isDirectReq }
  match rpcRequest with
  | some rpc => do
      let rncr : ClientRequestHandle :=
        { rncr with
          requestOrCommitData := rpc.data, requestOrCommitDataSize := rpc.dataSize,
          clientUuid := rpc.senderId, msgId := rpc.msgId }
      assert (isDirectReq = true ∨ rncr.hasReplyInfo = true)
      pure rncr
  | none => do
      let rncr : ClientRequestHandle :=
        { rncr with
          requestOrCommitData := commitData.getD [], requestOrCommitDataSize := commitDataSize }
      assert (rncr.hasReplyInfo = false)
      pure rncr

/-- `raft_server_net_client_request_init_sm_apply`. -/
def netClientRequestInitSmApply (commitData : List UInt8) (commitDataSize : Nat) :
    Server n ClientRequestHandle :=
  netClientRequestInit .commit none (some commitData) commitDataSize false

end RaftServer

end NiovaRaft
