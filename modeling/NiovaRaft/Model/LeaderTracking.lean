import NiovaRaft.Model.RaftNet

/-!
# The client's leader

A client sends to the server it takes for the leader, and it takes a server for the leader until it
is told otherwise or the server falls silent.  A timer pings that server.  A server that does not
lead answers with the one that does, and one that leads answers without an error; after a few of
these the client calls the leader viable and its requests are queued.

`ri_csn_leader` is whom messages go to, and `rci_leader_csn` whom the answers are counted for.  The
two differ at times.

Peers are named by their place in the configuration.  The clock, `random_get` and whether the
network takes a message are inputs.  The clock is read once by each handler, in milliseconds.  The
counter of answers does not wrap.
-/

namespace NiovaRaft

namespace LeaderTracking

open Base RaftNet

/-! ## Peers -/

/-- What of a peer's `struct ctl_svc_node` is used. -/
structure CtlSvcNode where
  uuid : Uuid
  ipaddr : List UInt8
  port : UInt16
  clientPort : UInt16
deriving DecidableEq

/-- The configuration of a raft. -/
structure RaftConf (n : Nat) where
  raftUuid : Uuid
  peers : Fin n → CtlSvcNode
  numMembers_pos : 0 < n
  /-- `IPV4_STRLEN`. -/
  ipv4Strlen : Nat
  /-- What `raft_net_max_rpc_size` gives for the store type. -/
  maxRpcSize : Nat

/-- `struct sockaddr_in`, with the text of its address.  A TCP sender has port zero. -/
structure Sockaddr where
  ipaddr : List UInt8
  port : UInt16

variable {n : Nat}

/-- `raft_peer_2_idx`.  `none` is `RAFT_PEER_ANY`. -/
def peer2Idx (conf : RaftConf n) (peerUuid : Uuid) : Option (Fin n) :=
  (List.finRange n).find? fun i => (conf.peers i).uuid = peerUuid

/-- `raft_net_verify_sender_server_msg`.  The control interface may have disabled what a peer sends
(`canRecv`). -/
def verifySenderServerMsg (conf : RaftConf n) (isClient : Bool) (senderUuid senderRaftUuid : Uuid)
    (senderAddr : Sockaddr) (canRecv : Fin n → Bool) : Option (Fin n) :=
  if senderUuid = Uuid.null then none
  else
    match peer2Idx conf senderUuid with
    | none => none
    | some idx =>
      if conf.raftUuid ≠ senderRaftUuid then none
      else
        let csn := conf.peers idx
        let expectedPort := if isClient then csn.clientPort else csn.port
        let portsMatch := senderAddr.port = 0 ∨ senderAddr.port = expectedPort
        let ipaddrsMatch := strncmp csn.ipaddr senderAddr.ipaddr conf.ipv4Strlen = 0
        if ¬portsMatch ∨ ¬ipaddrsMatch then none
        else if canRecv idx = false then none
        else some idx

/-! ## Constants -/

/-- `raftClientNpingsUntilViable`. -/
def npingsUntilViable : Nat := 4

/-- `raftClientStaleServerTimeMS`. -/
def staleServerTimeMs : Nat := 1000

/-- `raftClientIdlePingServerTimeMS`. -/
def idlePingServerTimeMs : Nat := 100

/-- `sizeof(struct raft_client_rpc_msg)`. -/
def clientRpcMsgSize : Nat := 88

def ENOENT : Int := -2
def EAGAIN : Int := -11
def EBUSY : Int := -16
def ENOSYS : Int := -38
def EINPROGRESS : Int := -115

/-- `enum raft_client_rpc_msg_type`, as a client receives it. -/
inductive RpcMsgType where
  | pingReply | redirect | reply | other
deriving DecidableEq, Repr

/-- What of `struct raft_client_rpc_msg` is looked at before a request is. -/
structure ClientRpcMsg where
  type : RpcMsgType
  raftId : Uuid
  senderId : Uuid
  redirectId : Uuid
  sysError : Int

/-! ## The instance -/

/-- What of `struct raft_instance` and `struct raft_client_instance` the leader is tracked with. -/
structure Instance (n : Nat) where
  /-- `ri_csn_leader`. -/
  csnLeader : Option (Fin n)
  lastSend : Nat → Nat
  lastRecv : Nat → Nat
  /-- `rci_leader_csn`. -/
  leaderCsn : Option (Fin n)
  leaderRedirect : Bool
  leaderAliveCnt : Nat
  lastMsgRecvd : Nat
  lastRequestAckd : Nat

/-- A client that has just started. -/
def Instance.initial : Instance n :=
  ⟨none, fun _ => 0, fun _ => 0, none, false, 0, 0, 0⟩

/-- The times that messages were sent and received at. -/
def Instance.commTimes (conf : RaftConf n) (rci : Instance n) : CommTimes Nat :=
  ⟨n, rci.lastSend, rci.lastRecv, conf.numMembers_pos⟩

/-- `raft_net_comm_recency`. -/
def Instance.recency (conf : RaftConf n) (rci : Instance n) (idx : Fin n) (type : CommRecencyType)
    (clock : Nat) : Except Errno Nat :=
  commRecency id (rci.commTimes conf) idx type clock

/-- `raft_net_update_last_comm_time` for a message that is received. -/
def updateLastRecv (rci : Instance n) (idx : Fin n) (clock : Nat) : Instance n :=
  { rci with lastRecv := Function.update rci.lastRecv idx clock }

/-- `raft_net_update_last_comm_time` for a message that is sent. -/
def updateLastSend (rci : Instance n) (idx : Fin n) (clock : Nat) : Instance n :=
  { rci with lastSend := Function.update rci.lastSend idx clock }

/-! ## The ping target -/

/-- `raft_client_server_target_needs_ping`. -/
def serverTargetNeedsPing (conf : RaftConf n) (rci : Instance n) (idx : Fin n) (clock : Nat) :
    Bool :=
  match rci.recency conf idx .recv clock with
  | .error _ => true
  | .ok recencyMs => decide (recencyMs > idlePingServerTimeMs)

/-- `raft_client_server_target_is_stale`. -/
def serverTargetIsStale (conf : RaftConf n) (rci : Instance n) (idx : Fin n) (clock : Nat) : Bool :=
  match rci.recency conf idx .unackedSend clock with
  | .error _ => true
  | .ok recencyMs => decide (recencyMs > staleServerTimeMs)

/-- `raft_client_leader_is_viable`. -/
def leaderIsViable (conf : RaftConf n) (rci : Instance n) (clock : Nat) : Bool :=
  decide (rci.leaderAliveCnt > npingsUntilViable) &&
    match rci.leaderCsn with
    | none => false
    | some csn => decide (rci.csnLeader = some csn) && !serverTargetIsStale conf rci csn clock

/-- `raft_client_set_ping_target`.  `none` is a failed assertion. -/
def setPingTarget (conf : RaftConf n) (rci : Instance n) (clock random : Nat) :
    Option (Instance n) :=
  let choose : Option (Instance n) := do
    let tgt ← getMostRecentlyResponsiveServer id (rci.commTimes conf) clock random
    if h : tgt < n then some { rci with csnLeader := some ⟨tgt, h⟩ } else none
  match rci.csnLeader with
  | none => choose
  | some csn =>
    if rci.leaderRedirect = true then some { rci with leaderRedirect := false }
    else if serverTargetIsStale conf rci csn clock = true then choose
    else some rci

/-- `raft_client_ping_raft_service`, with the server that is pinged. -/
def pingRaftService (rci : Instance n) (clock : Nat) (sent : Bool) : Instance n × Option (Fin n) :=
  match rci.csnLeader with
  | none => (rci, none)
  | some csn => if sent then (updateLastSend rci csn clock, some csn) else (rci, none)

/-- `raft_client_timerfd_cb` up to `raft_client_check_pending_requests`, with the server that is
pinged. -/
def timerfdCb (conf : RaftConf n) (rci : Instance n) (clock random : Nat) (sent : Bool) :
    Option (Instance n × Option (Fin n)) :=
  if leaderIsViable conf rci clock = true then
    match rci.csnLeader with
    | none => none
    | some csn =>
      if serverTargetNeedsPing conf rci csn clock = true then
        some (pingRaftService rci clock sent)
      else some (rci, none)
  else do
    let rci ← setPingTarget conf rci clock random
    some (pingRaftService rci clock sent)

/-- `raft_client_rpc_launch`: a request is sent to the server that is taken for the leader. -/
def rpcLaunch (rci : Instance n) (clock : Nat) (sent : Bool) : Instance n :=
  (pingRaftService rci clock sent).1

/-! ## Answers -/

/-- `raft_client_instance_reset_leader_info`. -/
def instanceResetLeaderInfo (rci : Instance n) (nullifyLeaderCsn : Bool) : Instance n :=
  { rci with
    leaderCsn := if nullifyLeaderCsn then none else rci.leaderCsn
    leaderAliveCnt := 0 }

/-- `raft_client_instance_progress_leader_info`. -/
def instanceProgressLeaderInfo (rci : Instance n) (senderCsn : Fin n) : Instance n :=
  if rci.leaderCsn.any (· ≠ senderCsn) then rci
  else { rci with leaderAliveCnt := rci.leaderAliveCnt + 1, leaderCsn := some senderCsn }

/-- The errors of a server that may lead later on. -/
def isNotReady (sysError : Int) : Bool :=
  decide (sysError = EINPROGRESS ∨ sysError = EAGAIN ∨ sysError = EBUSY)

/-- The errors of a server that does not lead. -/
def isNotLeader (sysError : Int) : Bool := decide (sysError = ENOENT ∨ sysError = ENOSYS)

/-- `raft_client_process_ping_reply`. -/
def processPingReply (rci : Instance n) (sysError : Int) (senderCsn : Fin n) : Instance n :=
  let rci :=
    if rci.leaderCsn ≠ some senderCsn then instanceResetLeaderInfo rci true else rci
  if sysError = 0 then instanceProgressLeaderInfo rci senderCsn
  else if isNotReady sysError = true then instanceResetLeaderInfo rci false
  else if isNotLeader sysError = true then instanceResetLeaderInfo rci true
  else rci

/-- `raft_net_server_target_check_by_idx`: whether it returns `-ETIMEDOUT`. -/
def serverTargetTimedOut (conf : RaftConf n) (rci : Instance n) (idx : Fin n)
    (clock staleTimeoutMs : Nat) : Bool :=
  match rci.recency conf idx .unackedSend clock with
  | .error _ => false
  | .ok recencyMs => decide (recencyMs > staleTimeoutMs)

/-- `raft_net_apply_leader_redirect`. -/
def applyLeaderRedirect (conf : RaftConf n) (rci : Instance n) (redirectTarget : Uuid)
    (clock staleTimeoutMs : Nat) : Except Errno (Instance n) :=
  if redirectTarget = Uuid.null then .error .EINVAL
  else
    match peer2Idx conf redirectTarget with
    | none => .error .ENOENT
    | some leaderIdx =>
      let rci := { rci with csnLeader := some leaderIdx }
      -- the leader is given a new chance
      if serverTargetTimedOut conf rci leaderIdx clock staleTimeoutMs = true then
        .ok { rci with lastSend := Function.update rci.lastSend leaderIdx 0 }
      else .ok rci

/-- `raft_client_update_leader_from_redirect`. -/
def updateLeaderFromRedirect (conf : RaftConf n) (rci : Instance n) (redirectId : Uuid)
    (clock : Nat) : Instance n :=
  let rci := instanceResetLeaderInfo rci true
  match applyLeaderRedirect conf rci redirectId clock staleServerTimeMs with
  | .error _ => rci
  | .ok rci => { rci with leaderRedirect := true, leaderCsn := rci.csnLeader }

/-- The times that `raft_client_recv_handler` takes. -/
def noteRecv (rci : Instance n) (senderCsn : Fin n) (clock : Nat) : Instance n :=
  { updateLastRecv rci senderCsn clock with lastMsgRecvd := clock }

/-- What a message turned out to be. -/
inductive Heard (n : Nat) where
  | pingReply (sender : Fin n) (sysError : Int)
  | redirect (sender : Fin n) (target : Option (Fin n))
  /-- A reply that `raft_client_reply_try_complete` is called with. -/
  | completes (sender : Fin n)
  | ignored
deriving DecidableEq, Repr

/-- `raft_client_recv_handler`, with `raft_client_recv_handler_process_reply`. -/
def recvHandler (conf : RaftConf n) (rci : Instance n) (clock recvBytes : Nat) (fromAddr : Sockaddr)
    (canRecv : Fin n → Bool) (rcrm : ClientRpcMsg) : Instance n × Heard n :=
  if rci.csnLeader = none ∨ recvBytes = 0 then (rci, .ignored)
  else if recvBytes < clientRpcMsgSize ∨ conf.maxRpcSize < recvBytes then (rci, .ignored)
  else
    match verifySenderServerMsg conf true rcrm.senderId rcrm.raftId fromAddr canRecv with
    | none => (rci, .ignored)
    | some senderCsn =>
      let rci := noteRecv rci senderCsn clock
      match rcrm.type with
      | .pingReply =>
          (processPingReply rci rcrm.sysError senderCsn, .pingReply senderCsn rcrm.sysError)
      | .redirect =>
          (updateLeaderFromRedirect conf rci rcrm.redirectId clock,
            .redirect senderCsn
              (if rcrm.redirectId = Uuid.null then none else peer2Idx conf rcrm.redirectId))
      | .reply =>
          if rcrm.sysError ≠ 0 ∨ rci.csnLeader ≠ some senderCsn then (rci, .ignored)
          else ({ rci with lastRequestAckd := clock }, .completes senderCsn)
      | .other => (rci, .ignored)

/-! ## Runs -/

/-- What happens to a client. -/
inductive Event (n : Nat) where
  | timerfd (clock random : Nat) (sent : Bool)
  | recv (clock recvBytes : Nat) (fromAddr : Sockaddr) (canRecv : Fin n → Bool)
      (rcrm : ClientRpcMsg)
  | launch (clock : Nat) (sent : Bool)

/-- A client, with all that it has heard. -/
structure Client (n : Nat) where
  rci : Instance n
  heard : List (Heard n)

/-- One event.  `none` is a failed assertion. -/
def Client.step (conf : RaftConf n) (c : Client n) : Event n → Option (Client n)
  | .timerfd clock random sent => do
      let (rci, _) ← timerfdCb conf c.rci clock random sent
      some { c with rci := rci }
  | .recv clock recvBytes fromAddr canRecv rcrm =>
      let (rci, heard) := recvHandler conf c.rci clock recvBytes fromAddr canRecv rcrm
      some ⟨rci, c.heard ++ [heard]⟩
  | .launch clock sent => some { c with rci := rpcLaunch c.rci clock sent }

/-- A run. -/
def Client.run (conf : RaftConf n) (c : Client n) : List (Event n) → Option (Client n)
  | [] => some c
  | e :: es => do
      let c ← c.step conf e
      c.run conf es

end LeaderTracking

end NiovaRaft
