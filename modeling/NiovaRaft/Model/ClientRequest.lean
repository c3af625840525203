import NiovaRaft.Model.Clients
import NiovaRaft.Base.Bytes

/-!
# Handling a client's message

A client's `PING`, `READ` or `WRITE` from its arrival to the point where the server is done with it.
`raft_server_client_rncr_prepare` takes a reference on the client's node and a buffer for the reply,
and denies the request where the server may not accept it.  The application is asked, and
`raft_server_client_rncr_complete` denies the request, queues it to the log or replies.

The buffer is the reply, and it is also where the application puts data of its own for the log.  It
is a list of bytes here, and the fields of a reply are ranges of it.  The destination of a reply and
the leader that a redirect names are one field.

The nodes and the buffers come from a library.  Whether the sender has a node that may send, whether
a buffer is left, how fresh the leadership is, what the application does and what happens to the
instance meanwhile are inputs.  Each step that takes, uses or releases one of the two, and each
reply, is recorded.
-/

namespace NiovaRaft

open Base

variable {n : Nat}

/-! ## Messages -/

/-- `enum raft_client_rpc_msg_type`. -/
inductive ClientRpcMsgType where
  | invalid | read | write | reply | redirect | ping | pingReply | any
deriving DecidableEq, Repr

/-- The value of a message type. -/
def ClientRpcMsgType.toNat : ClientRpcMsgType → Nat
  | invalid => 0
  | read => 1
  | write => 2
  | reply => 3
  | redirect => 4
  | ping => 5
  | pingReply => 6
  | any => 7

/-- `struct raft_client_rpc_msg` as it arrives, with its data. -/
structure ClientRequest where
  type : ClientRpcMsgType
  msgId : Nat
  raftId : Nat
  senderId : Nat
  data : List UInt8
deriving DecidableEq, Repr

/-- A field of `struct raft_client_rpc_msg`: where it is and how long. -/
structure RpcField where
  off : Nat
  len : Nat
deriving DecidableEq, Repr

namespace RpcField

def type : RpcField := ⟨0, 4⟩

def dataSize : RpcField := ⟨12, 4⟩

def msgId : RpcField := ⟨16, 8⟩

def raftId : RpcField := ⟨24, 16⟩

def senderId : RpcField := ⟨40, 16⟩

/-- `rcrm_dest_id`, and `rcrm_redirect_id` too. -/
def destId : RpcField := ⟨56, 16⟩

def sysError : RpcField := ⟨74, 2⟩

/-- The bytes of a field. -/
def get (f : RpcField) (buf : List UInt8) : List UInt8 := slice buf f.off f.len

/-- A field is given a value. -/
def set (f : RpcField) (v : Nat) (buf : List UInt8) : List UInt8 :=
  overwrite buf f.off (leBytes f.len v)

end RpcField

/-- `sizeof(struct raft_client_rpc_msg)`. -/
def clientRpcMsgSize : Nat := 88

/-! ## Error codes -/

/-- The number of an error. -/
def Errno.toNat : Errno → Nat
  | .EPERM => 1
  | .ENOENT => 2
  | .E2BIG => 7
  | .EAGAIN => 11
  | .EBUSY => 16
  | .EEXIST => 17
  | .EINVAL => 22
  | .ENOSPC => 28
  | .ERANGE => 34
  | .ENOSYS => 38
  | .EBADR => 53
  | .EBADSLT => 57
  | .EBADMSG => 74
  | .EALREADY => 114
  | .EINPROGRESS => 115
  | .ESTALE => 116

/-- The return code of a function: zero, or the error with its sign changed. -/
def rcOf : Except Errno Unit → Int
  | .ok () => 0
  | .error e => -(e.toNat : Int)

/-- `-EXDEV`. -/
def exdev : Int := -18

/-- A return code in the sixteen bits of `rcrm_sys_error`. -/
def sysErrorOf (rc : Int) : Nat := (rc % 2 ^ 16).toNat

/-! ## Requests in hand -/

/-- The request's own part of `struct raft_net_client_request_handle`.  `rncr_reply` and
`rncr_app_data` are one: the buffer, its room and the size of what is in it. -/
structure Rncr where
  writeRaftEntry : Bool
  replyPtr : Bool
  replyDataMaxSize : Nat
  appDataSize : Nat
  msgId : Nat
  clientUuid : Nat
  supp : List WrSupp
  bi : Bool
  csn : Bool
deriving DecidableEq, Repr

/-- A handle cleared by `memset`. -/
def Rncr.zero : Rncr := ⟨false, false, 0, 0, 0, 0, [], false, false⟩

/-- `raft_net_client_request_handle_has_reply_info`. -/
def Rncr.hasReplyInfo (rncr : Rncr) : Bool :=
  decide (rncr.clientUuid ≠ 0 ∧ rncr.msgId ≠ 2 ^ 64 - 1 ∧ rncr.msgId ≠ 0 ∧
    rncr.replyDataMaxSize ≠ 0) && rncr.replyPtr

/-- What the application leaves behind: the bytes of the buffer, and what it sets in the handle. -/
structure SmResult where
  rc : Int
  buf : List UInt8
  writeRaftEntry : Bool
  appDataSize : Nat
  msgId : Nat
  clientUuid : Nat
  supp : List WrSupp
deriving DecidableEq, Repr

/-- The handle after the application was asked. -/
def SmResult.apply (r : SmResult) (rncr : Rncr) : Rncr :=
  { rncr with
    writeRaftEntry := r.writeRaftEntry, appDataSize := r.appDataSize, msgId := r.msgId,
    clientUuid := r.clientUuid, supp := r.supp }

/-- What is known of the sender's node. -/
structure CsnInfo where
  isClient : Bool
  canRecv : Bool
deriving DecidableEq, Repr

/-- What a request meets. -/
structure RequestEnv (n : Nat) where
  raftUuid : Nat
  peers : Fin n → Nat
  /-- `ctl_svc_node_lookup`, or else `ctl_svc_node_add`. -/
  csn : Option CsnInfo
  /-- The size of the item that `buffer_set_allocate_item` returns. -/
  item : Option Nat
  freshPrepare : Bool
  freshComplete : Bool
  coalescedWrites : Bool
  /-- `ri_server_sm_request_cb`. -/
  smRequestCb : Rncr → List UInt8 → SmResult
  /-- What happens to the instance while the application is asked. -/
  meanwhile : RaftInstance n → RaftInstance n

/-- What may be done with a reference or a buffer. -/
inductive Use where
  | take | use | release
deriving DecidableEq, Repr

/-- The steps that are recorded. -/
inductive RncrEvent where
  | csn (u : Use)
  | item (u : Use)
  | reply (dest : Nat) (msg : List UInt8)
deriving DecidableEq, Repr

/-- A process with a request in hand. -/
structure RequestProc (n : Nat) where
  client : ClientProc n
  rncr : Rncr
  buf : List UInt8
  trace : List RncrEvent

/-- A handler of a client's message. -/
abbrev RequestHandler (n : Nat) : Type → Type := Base.Handler (RequestProc n)

namespace ClientRecv

open Base.Handler

/-- A part that does not touch the request. -/
def onClient {α : Type} (m : ClientHandler n α) : RequestHandler n α := fun s =>
  match m s.client with
  | .ok a c => .ok a { s with client := c }
  | .abort c => .abort { s with client := c }

def note (e : RncrEvent) : RequestHandler n Unit :=
  modify fun s => { s with trace := s.trace ++ [e] }

def modifyRncr (f : Rncr → Rncr) : RequestHandler n Unit :=
  modify fun s => { s with rncr := f s.rncr }

/-- A write to the reply buffer. -/
def writeBuf (f : List UInt8 → List UInt8) : RequestHandler n Unit := do
  note (.item .use)
  modify fun s => { s with buf := f s.buf }

/-- The instance. -/
def getInstance : RequestHandler n (RaftInstance n) := gets (·.client.proc.ri)

/-- `raft_server_may_accept_client_request`, as a return code. -/
def mayAccept (fresh : Bool) : RequestHandler n Int := do
  let rc ← onClient (Coalesce.lift (RaftServer.mayAcceptClientRequest fresh))
  pure (rcOf rc)

/-! ## Replies -/

/-- `raft_server_send_msg_to_client`. -/
def sendMsgToClient (rcm : ClientRequest) : RequestHandler n Unit := do
  note (.item .use)
  let s ← get
  let msg := s.buf.take (clientRpcMsgSize + ofLeBytes (RpcField.dataSize.get s.buf))
  if s.rncr.csn = true then do
    note (.csn .use)
    note (.reply rcm.senderId msg)
  else note (.reply s.rncr.clientUuid msg)

/-- `raft_server_reply_to_client`. -/
def replyToClient (rcm : ClientRequest) : RequestHandler n Unit := do
  let s ← get
  whenever (s.rncr.hasReplyInfo = true) (sendMsgToClient rcm)

/-- `raft_server_deny_client_request`. -/
def denyClientRequest (env : RequestEnv n) (rcm : ClientRequest) (rc : Int) :
    RequestHandler n Unit := do
  let s ← get
  assert (s.rncr.replyPtr = true)
  writeBuf (RpcField.sysError.set (sysErrorOf rc))
  let ri ← getInstance
  match ri.csnLeader with
  | some leader =>
      whenever (rc = rcOf (.error .ENOSYS)) do
        writeBuf (RpcField.type.set ClientRpcMsgType.redirect.toNat)
        writeBuf (RpcField.destId.set (env.peers leader))
  | none => pure ()
  replyToClient rcm

/-- `raft_server_client_reply_init`. -/
def clientReplyInit (env : RequestEnv n) (type : ClientRpcMsgType) : RequestHandler n Unit := do
  let s ← get
  assert (s.rncr.replyPtr = true ∧ (type = .pingReply ∨ type = .reply) ∧
    s.rncr.hasReplyInfo = true ∧ s.rncr.appDataSize < s.rncr.replyDataMaxSize)
  let ri ← getInstance
  writeBuf fun buf =>
    RpcField.dataSize.set s.rncr.appDataSize (RpcField.msgId.set s.rncr.msgId
      (RpcField.type.set type.toNat (RpcField.destId.set s.rncr.clientUuid
        (RpcField.senderId.set (env.peers ri.self) (RpcField.raftId.set env.raftUuid
          (overwrite buf 0 (List.replicate clientRpcMsgSize 0)))))))

/-! ## Preparation -/

/-- `raft_server_client_recv_ignore_request`.  The reference is handed out only when the request
is not ignored. -/
def clientRecvIgnoreRequest (env : RequestEnv n) (rcm : ClientRequest) : RequestHandler n Bool :=
  -- `raft_net_verify_sender_client_msg`
  if rcm.raftId = 0 ∨ rcm.raftId ≠ env.raftUuid then pure true
  else
    match env.csn with
    | none => pure true
    | some csn => do
        note (.csn .take)
        note (.csn .use)
        if csn.isClient = true ∧ csn.canRecv = true then pure false
        else do
          note (.csn .release)
          pure true

/-- `raft_server_net_client_request_init_client_rpc`, with
`raft_server_net_client_request_init`. -/
def netClientRequestInitClientRpc (env : RequestEnv n) (rcm : ClientRequest) (size : Nat) :
    RequestHandler n Unit := do
  assert (clientRpcMsgSize ≤ size)
  writeBuf fun _ => List.replicate size 0
  modifyRncr fun _ =>
    { Rncr.zero with
      replyPtr := true, replyDataMaxSize := size - clientRpcMsgSize, msgId := rcm.msgId,
      clientUuid := rcm.senderId }
  let s ← get
  assert (s.rncr.hasReplyInfo = true)
  clientReplyInit env (if rcm.type = .ping then .pingReply else .reply)

/-- `raft_server_client_rncr_prepare`. -/
def clientRncrPrepare (env : RequestEnv n) (rcm : ClientRequest) : RequestHandler n Int := do
  let ignore ← clientRecvIgnoreRequest env rcm
  if ignore = true then pure exdev
  else
    match env.item with
    | none => abort
    | some size => do
        note (.item .take)
        netClientRequestInitClientRpc env rcm size
        modifyRncr fun rncr => { rncr with bi := true, csn := true }
        let rc ← mayAccept env.freshPrepare
        if rc ≠ 0 then do
          denyClientRequest env rcm rc
          let s ← get
          whenever (s.rncr.csn = true) do
            note (.csn .release)
            modifyRncr fun rncr => { rncr with csn := false }
          whenever (s.rncr.bi = true) do
            note (.item .release)
            modifyRncr fun rncr => { rncr with bi := false }
          pure rc
        else pure rc

/-! ## Completion -/

/-- `raft_server_client_rncr_write_raft_entry`.  The data of the application is what stands at the
start of the buffer. -/
def clientRncrWriteRaftEntry [Externals] (env : RequestEnv n) (rcm : ClientRequest) :
    RequestHandler n Unit := do
  let s ← get
  assert (s.rncr.writeRaftEntry = true)
  note (.item .use)
  onClient (Coalesce.clientRncrWriteRaftEntry env.coalescedWrites
    ⟨rcm.data, s.buf.take s.rncr.appDataSize, s.rncr.supp⟩)

/-- What `raft_server_client_rncr_complete` does with the request, by the code of the second check
and that of the application. -/
def clientRncrAnswer [Externals] (env : RequestEnv n) (rcm : ClientRequest) (rc smCbRc : Int) :
    RequestHandler n Unit := do
  let s ← get
  if rc ≠ 0 ∨ smCbRc ≠ 0 then denyClientRequest env rcm (if rc ≠ 0 then rc else smCbRc)
  else if s.rncr.writeRaftEntry = true then clientRncrWriteRaftEntry env rcm
  else replyToClient rcm

/-- `raft_server_client_rncr_complete`. -/
def clientRncrComplete [Externals] (env : RequestEnv n) (rcm : ClientRequest) (smCbRc : Int) :
    RequestHandler n Unit := do
  let rc ← mayAccept env.freshComplete
  clientRncrAnswer env rcm rc smCbRc
  let s ← get
  whenever (s.rncr.csn = true) (note (.csn .release))
  whenever (s.rncr.bi = true) (note (.item .release))

/-- The application is asked. -/
def serverSmRequestCb (env : RequestEnv n) : RequestHandler n Int := do
  let s ← get
  let r := env.smRequestCb s.rncr s.buf
  writeBuf fun _ => r.buf
  modifyRncr r.apply
  modify fun s => { s with client := { s.client with proc :=
    { s.client.proc with ri := env.meanwhile s.client.proc.ri } } }
  pure r.rc

/-! ## The handlers -/

/-- `raft_server_client_recv_handler_ping`.  Of the errors of the preparation, one ends it. -/
def clientRecvHandlerPing [Externals] (env : RequestEnv n) (rcm : ClientRequest) :
    RequestHandler n Unit := do
  let rc ← clientRncrPrepare env rcm
  whenever (rc ≠ exdev) (clientRncrComplete env rcm rc)

/-- `raft_server_client_recv_handler_read`. -/
def clientRecvHandlerRead [Externals] (env : RequestEnv n) (rcm : ClientRequest) :
    RequestHandler n Unit := do
  let rc ← clientRncrPrepare env rcm
  whenever (rc = 0) do
    let rc ← serverSmRequestCb env
    clientRncrComplete env rcm rc

/-- `raft_server_do_client_write`. -/
def doClientWrite [Externals] (env : RequestEnv n) (rcm : ClientRequest) :
    RequestHandler n Unit := do
  let s ← get
  assert (s.rncr.bi = true)
  let rc ← serverSmRequestCb env
  clientRncrComplete env rcm rc

/-- `raft_server_client_recv_handler_write`. -/
def clientRecvHandlerWrite [Externals] (env : RequestEnv n) (rcm : ClientRequest) :
    RequestHandler n Unit := do
  let rc ← clientRncrPrepare env rcm
  whenever (rc = 0) (doClientWrite env rcm)

/-- `raft_server_client_recv_handler`, for a message that is long enough. -/
def clientRecvHandler [Externals] (env : RequestEnv n) (rcm : ClientRequest) :
    RequestHandler n Unit :=
  match rcm.type with
  | .read => clientRecvHandlerRead env rcm
  | .write => clientRecvHandlerWrite env rcm
  | .ping => clientRecvHandlerPing env rcm
  | .invalid | .reply | .redirect | .pingReply | .any => pure ()

end ClientRecv

/-! ## What became of the request -/

/-- Whether a reference or a buffer was taken, and whether it was released. -/
inductive Ownership where
  | untaken | held | released
deriving DecidableEq, Repr

/-- Nothing may be used or released that is not held, and nothing is taken twice. -/
def Ownership.step : Ownership → Use → Option Ownership
  | .untaken, .take => some .held
  | .held, .use => some .held
  | .held, .release => some .released
  | _, _ => none

/-- The state of both, and the replies with their destinations. -/
structure Account where
  csn : Ownership
  item : Ownership
  replies : List (Nat × List UInt8)
deriving DecidableEq, Repr

/-- One more step. -/
def Account.step (a : Account) : RncrEvent → Option Account
  | .csn u => (a.csn.step u).map fun o => { a with csn := o }
  | .item u => (a.item.step u).map fun o => { a with item := o }
  | .reply dest msg => some { a with replies := a.replies ++ [(dest, msg)] }

/-- The account of a trace.  There is none once a step was not allowed. -/
def account (trace : List RncrEvent) : Option Account :=
  trace.foldlM Account.step ⟨.untaken, .untaken, []⟩

end NiovaRaft
