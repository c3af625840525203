import NiovaRaft.Model.ClientRequest

/-!
# The reply buffer

The application gets parts of the reply buffer for its data.  The handle of the request counts what it
got in a `size_t`, and the message in the buffer counts it in 32 bits.  Both are compared with the room
there is behind the header of the message.

A pointer into the data is given by its offset from `rcrm_data`.
-/

namespace NiovaRaft

namespace ReplyData

/-- The message at the start of the reply buffer. -/
structure ClientRpcMsg where
  rcrmDataSize : UInt32
deriving DecidableEq

/-- `rncr_reply` of `struct raft_net_client_request_handle`. -/
structure RequestHandle where
  rncrReplyPtr : Option ClientRpcMsg
  rncrReplyDataMaxSize : UInt64
  rncrReplyDataSize : UInt64
deriving DecidableEq

/-- What `raft_server_net_client_request_init` makes of `rncr_reply`; `none` is the assertion. -/
def netClientRequestInit (replyBuf : Bool) (replyBufSize : UInt64) (isDirectReq : Bool) :
    Option RequestHandle :=
  let sizeofMsg := UInt64.ofNat clientRpcMsgSize
  if isDirectReq = false ∧ (replyBuf = false ∨ replyBufSize < sizeofMsg) then none
  else
    -- both the handle and the buffer are cleared
    let rncr : RequestHandle := ⟨none, 0, 0⟩
    let rncr := if replyBuf then { rncr with rncrReplyPtr := some ⟨0⟩ } else rncr
    some { rncr with rncrReplyDataMaxSize := replyBufSize - sizeofMsg }

/-- `raft_net_client_request_handle_reply_data_map`, with the offset of what it returns; the outer
`none` is the assertion. -/
def replyDataMap (rncr : RequestHandle) (size : UInt64) : Option (RequestHandle × Option UInt64) :=
  match rncr.rncrReplyPtr with
  | none => some (rncr, none)
  | some reply =>
      if size = 0 then some (rncr, none)
      else if ¬ reply.rcrmDataSize.toUInt64 ≤ rncr.rncrReplyDataMaxSize then none
      else if reply.rcrmDataSize.toUInt64 + size > rncr.rncrReplyDataMaxSize ∨
          rncr.rncrReplyDataSize + size > rncr.rncrReplyDataMaxSize then
        some (rncr, none)
      else
        let buf := rncr.rncrReplyDataSize
        let reply := { reply with
          rcrmDataSize := (reply.rcrmDataSize.toUInt64 + size).toUInt32 }
        some ({ rncr with
          rncrReplyPtr := some reply
          rncrReplyDataSize := rncr.rncrReplyDataSize + size }, some buf)

end ReplyData

end NiovaRaft
