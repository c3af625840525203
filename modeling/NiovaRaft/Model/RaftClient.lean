import NiovaRaft.Base.Threads

/-!
# The client

`raft_client.c`: requests are submitted by application threads, sent from a queue, completed by
replies and expired by a timer.  Four kinds of threads work on them, and `RCI_LOCK` is held for a few
steps at a time.

The functions are cut where the lock is released.  What they read or write of a request without the
lock is a section of its own, except where the request is not yet known to other threads.  A
request that was freed stays where it is; that somebody looks at it is put on record.

The reference tree is kept as a list, in the order of its additions.  `RT_PUT` calls the destructor
of an element that has lost its last reference, without the lock.

Times, the leader's viability and what the network says are inputs.  The checks of a submission's
arguments, which come before the request is made, are left out, and so are the histories of requests
that are kept for display.
-/

namespace NiovaRaft

open Base Base.Handler

namespace RaftClient

/-! ## Requests -/

/-- The threads: those of applications, the timer, the sender, and those that replies arrive in. -/
inductive Thread where
  | app (k : Nat)
  | timer
  | sender
  | reply (k : Nat)
deriving DecidableEq, Repr

/-- What a reference on a request is held for. -/
inductive Ref where
  | constructor
  | sendq
  /-- The one of the send queue, after the request was taken off it. -/
  | sending
  | expired
  | lookup (i : Thread)
  /-- The one of a lookup, after a reply was found to be for the request. -/
  | matched (i : Thread)
deriving DecidableEq, Repr

/-- `struct raft_client_sub_app`, with its request handle. -/
structure SubApp where
  rncui : Nat := 0
  msgId : Nat := 0
  refCnt : Nat := 0
  ready : Bool := false
  completing : Bool := false
  initializing : Bool := false
  blocking : Bool := false
  sendq : Bool := false
  sendFailed : Bool := false
  cancel : Bool := false
  cbExec : Bool := false
  leaderNotViableDelay : Bool := false
  error : Int := 0
  numSends : Nat := 0
  /-- There is a `rcrh_async_cb`. -/
  asyncCb : Bool := false
  /-- The thread that submitted it, whose notifier and condition variable the request points to. -/
  owner : Thread := .timer
  /-- For the record, as all that follows: the references that are held. -/
  held : List Ref := []
  /-- How many more are held that nobody will put. -/
  leaked : Nat := 0
  /-- The thread that took it on itself to end the request. -/
  ender : Option Thread := none
  /-- That thread has called `raft_client_sub_app_done`. -/
  enderDone : Bool := false
  /-- The thread that put the last reference. -/
  destroyer : Option Thread := none
  /-- A flag was set when it was last taken off the send queue. -/
  flagged : Bool := false
  dones : Nat := 0
  callbacks : Nat := 0
  wakeups : Nat := 0
deriving DecidableEq, Repr

/-- `struct raft_client_instance`. -/
structure Rci where
  sub : Nat → SubApp
  /-- The requests that were ever made are those below. -/
  next : Nat
  /-- `rci_sub_apps`. -/
  tree : List Nat
  sendq : List Nat
  /-- `expiredq` of `raft_client_check_pending_requests`, which uses the same links. -/
  expiredq : List Nat
  msgIdCounter : Nat
  intervalRpcCnt : Nat
  requestsThrottled : Bool
  /-- `tls_completion_notifier` of the application threads. -/
  notifier : Nat → Int
  /-- For the record: the request that an application thread is blocked for. -/
  waiting : Nat → Option Nat
  /-- For the record: a request was looked at that had been freed. -/
  useAfterFree : Bool
  /-- For the record: a request was launched that was flagged when it was taken off the queue. -/
  launchedFlagged : Bool

/-- A client without requests. -/
def Rci.initial : Rci where
  sub := fun _ => {}
  next := 0
  tree := []
  sendq := []
  expiredq := []
  msgIdCounter := 0
  intervalRpcCnt := 0
  requestsThrottled := false
  notifier := fun _ => 0
  waiting := fun _ => none
  useAfterFree := false
  launchedFlagged := false

def EAGAIN : Int := -11
def ENOENT : Int := -2
def EINPROGRESS : Int := -115
def ESTALE : Int := -116
def ECANCELED : Int := -125
def ETIMEDOUT : Int := -110

/-- What the timer sees of the clock and of the leader. -/
structure ScanInput where
  /-- The request waits for longer than its timeout. -/
  expired : Nat → Bool
  /-- `raft_client_leader_is_viable`. -/
  leaderViable : Bool
  /-- The request waits for longer than `raftClientRetryTimeoutMS`. -/
  retry : Nat → Bool

/-- The critical sections. -/
inductive Section where
  | getAdd | handleInit | enqueue | wait
  | lookup | checkReply | tryComplete (sa : Nat)
  | cancelLookup (rncui : Nat) | cancelCheck (sa : Nat) | cancel | done | put | destruct
  | scan (input : ScanInput) | expiredRemove
  | interval | dequeue | launch (rc : Int) | sendFailed | removeDone | countRpc | reschedule

/-- A program of the client. -/
abbrev ClientProg (α : Type) : Type 1 := Prog Section Rci α

namespace Rci

/-- Another state of a request. -/
def set (s : Rci) (sa : Nat) (a : SubApp) : Rci := { s with sub := Function.update s.sub sa a }

/-- Another tree. -/
def withTree (s : Rci) (tree : List Nat) : Rci := { s with tree := tree }

/-- Another send queue. -/
def withSendq (s : Rci) (sendq : List Nat) : Rci := { s with sendq := sendq }

/-- Another list of expired requests. -/
def withExpiredq (s : Rci) (expiredq : List Nat) : Rci := { s with expiredq := expiredq }

/-- What an application thread waits for, and its notifier. -/
def withWaiter (s : Rci) (k : Nat) (waiting : Option Nat) (notifier : Int) : Rci :=
  { s with
    waiting := Function.update s.waiting k waiting
    notifier := Function.update s.notifier k notifier }

end Rci

/-- Change a request. -/
def modifySub (sa : Nat) (f : SubApp → SubApp) : Handler Rci Unit :=
  modify fun s => s.set sa (f (s.sub sa))

/-- Look at a request. -/
def touch (sa : Nat) : Handler Rci SubApp := do
  modify fun s => { s with useAfterFree := s.useAfterFree || (s.sub sa).cbExec }
  gets (·.sub sa)

/-! ## References -/

namespace SubApp

/-- `REF_TREE_REF_GET_ELEM_LOCKED`. -/
def get (a : SubApp) (r : Ref) : SubApp := { a with refCnt := a.refCnt + 1, held := r :: a.held }

/-- One reference less. -/
def drop (a : SubApp) (r : Ref) : SubApp := { a with refCnt := a.refCnt - 1, held := a.held.erase r }

/-- The last reference was put. -/
def setDestroyer (a : SubApp) (i : Thread) : SubApp := { a with destroyer := some i }

/-- A reference that is put under another name, for the record. -/
def rename (a : SubApp) (r r' : Ref) : SubApp := { a with held := r' :: a.held.erase r }

/-- A reference that will not be put, for the record. -/
def leak (a : SubApp) (r : Ref) : SubApp := { a with held := a.held.erase r, leaked := a.leaked + 1 }

end SubApp

/-- The request of a user. -/
def Rci.find (s : Rci) (rncui : Nat) : Option Nat := s.tree.find? fun sa => (s.sub sa).rncui = rncui

/-- `raft_client_sub_app_lookup`. -/
def subAppLookup (i : Thread) (rncui : Nat) : Handler Rci (Option Nat) := do
  let found ← gets (·.find rncui)
  match found with
  | none => pure none
  | some sa => do
    modifySub sa (·.get (.lookup i))
    pure (some sa)

/-- `raft_client_sub_app_construct`. -/
def subAppConstruct (i : Thread) (rncui : Nat) : SubApp :=
  { rncui := rncui, refCnt := 1, initializing := true, owner := i, held := [.constructor] }

/-- The request that was just made is added. -/
def Rci.withNew (s : Rci) : Rci := { s with next := s.next + 1, tree := s.tree ++ [s.next] }

/-- `RT_GET_ADD`, and whether the request was there. -/
def getAdd (i : Thread) (rncui : Nat) : Handler Rci (Nat × Bool) := do
  let found ← subAppLookup i rncui
  match found with
  | some sa => pure (sa, true)
  | none => do
    let sa ← gets (·.next)
    modify fun s => (s.set sa (subAppConstruct i rncui)).withNew
    pure (sa, false)

/-- `RT_PUT`, less the destructor, which is called if this says so. -/
def putRef (i : Thread) (sa : Nat) (r : Ref) : Handler Rci Bool := do
  let a ← touch sa
  assert (0 < a.refCnt)
  modifySub sa (·.drop r)
  if a.refCnt = 1 then do
    modifySub sa (·.setDestroyer i)
    modify fun s => s.withTree (s.tree.erase sa)
    pure true
  else pure false

/-- The request is freed, after the callback and the wakeup. -/
def SubApp.setDestructed (a : SubApp) : SubApp :=
  { a with
    cbExec := true
    callbacks := a.callbacks + a.asyncCb.toNat
    wakeups := a.wakeups + a.blocking.toNat }

/-- The thread that a request wakes up. -/
def wake (owner : Thread) (err : Int) : Handler Rci Unit :=
  match owner with
  | .app k => do
    let notifier ← gets (·.notifier k)
    assert (notifier = 1 ∧ err ≠ 1)
    modify fun s => { s with notifier := Function.update s.notifier k err }
  | _ => abort

/-- `raft_client_sub_app_destruct`. -/
def subAppDestruct (sa : Nat) : Handler Rci Unit := do
  let a ← touch sa
  assert (a.cbExec = false)
  whenever (a.blocking = true) (wake a.owner (-a.error.natAbs))
  modifySub sa (·.setDestructed)

/-- `raft_client_sub_app_put`. -/
def subAppPut (i : Thread) (sa : Nat) (r : Ref) : ClientProg Unit := do
  let last ← .critical .put (putRef i sa r)
  .whenever (last = true) (.critical .destruct (subAppDestruct sa))

/-! ## The end of a request -/

/-- The request is done: ready, or canceled before. -/
def SubApp.setDone (a : SubApp) (i : Thread) (error : Int) : SubApp :=
  { a with
    error := error
    completing := false
    ready := !a.cancel
    dones := a.dones + 1
    enderDone := a.enderDone || decide (a.ender = some i) }

/-- The section of `raft_client_sub_app_done`. -/
def markDone (i : Thread) (sa : Nat) (error : Int) : Handler Rci Unit := do
  let a ← touch sa
  assert (a.cbExec = false ∧ a.ready = false)
  assert (a.completing = !a.cancel)
  modifySub sa (·.setDone i error)

/-- `raft_client_sub_app_done`.  It puts a reference of its caller. -/
def subAppDone (i : Thread) (sa : Nat) (error : Int) (r : Ref) : ClientProg Unit := do
  .critical .done (markDone i sa error)
  subAppPut i sa r

/-- The request is canceled. -/
def SubApp.setCancel (a : SubApp) (i : Thread) : SubApp := { a with cancel := true, ender := some i }

/-- The section of `raft_client_sub_app_cancel_pending_req`. -/
def markCancel (i : Thread) (sa : Nat) : Handler Rci Bool := do
  let a ← touch sa
  if a.completing = false ∧ a.ready = false then do
    modifySub sa (·.setCancel i)
    pure true
  else pure false

/-- `raft_client_sub_app_cancel_pending_req`. -/
def subAppCancelPendingReq (i : Thread) (sa : Nat) (error : Int) : ClientProg Unit := do
  let canceled ← .critical .cancel (markCancel i sa)
  .whenever (canceled = true) (subAppDone i sa error .constructor)

/-! ## The send queue -/

/-- The request is linked. -/
def SubApp.setQueued (a : SubApp) : SubApp := { a.get .sendq with sendq := true }

/-- The request is taken off, with its reference. -/
def SubApp.setDequeued (a : SubApp) (stale : Bool) : SubApp :=
  { a.rename .sendq .sending with sendq := false, flagged := stale }

/-- `raft_client_request_send_queue_add_locked`. -/
def sendQueueAddLocked (sa : Nat) : Handler Rci Unit := do
  let a ← touch sa
  assert (a.sendq = false ∧ a.initializing = false)
  modifySub sa (·.setQueued)
  modify fun s => s.withSendq (s.sendq ++ [sa])

/-- `raft_client_request_send_queue_remove_prep_locked`, and whether it returns `-ESTALE`. -/
def sendQueueRemovePrepLocked (sa : Nat) : Handler Rci Bool := do
  let a ← touch sa
  assert (a.sendq = true)
  let stale := a.cancel || a.ready || a.completing
  modifySub sa (·.setDequeued stale)
  modify fun s => s.withSendq (s.sendq.erase sa)
  pure stale

/-- `raft_client_request_send_queue_remove_done`. -/
def sendQueueRemoveDone (sa : Nat) : ClientProg Unit := do
  .critical .removeDone do
    let a ← touch sa
    assert (a.sendq = false)
  subAppPut .sender sa .sending

/-! ## Submitting and canceling -/

/-- A request as it is submitted. -/
structure Request where
  rncui : Nat
  blocking : Bool
  asyncCb : Bool
  /-- What `raft_client_request_handle_init` fails with. -/
  initError : Option Int
  /-- `raft_client_leader_is_viable`. -/
  leaderViable : Bool

/-- The request is filled in. -/
def SubApp.setInit (a : SubApp) (msgId : Nat) (req : Request) : SubApp :=
  { a with msgId := msgId, blocking := req.blocking, asyncCb := req.asyncCb }

/-- The initialization is complete. -/
def SubApp.setInitialized (a : SubApp) : SubApp := { a with initializing := false }

/-- The request waits for a viable leader, or no longer does. -/
def SubApp.setDelay (a : SubApp) (delay : Bool) : SubApp := { a with leaderNotViableDelay := delay }

/-- `raft_client_request_handle_init`, where it succeeds. -/
def handleInit (sa : Nat) (req : Request) : Handler Rci Unit := do
  let _ ← touch sa
  modify fun s => { s with msgIdCounter := s.msgIdCounter + 1 }
  let msgId ← gets (·.msgIdCounter)
  modifySub sa (·.setInit msgId req)

/-- The request is queued, or it is left to the timer. -/
def queueOrDelay (sa : Nat) (leaderViable : Bool) : Handler Rci Unit :=
  if leaderViable = true then sendQueueAddLocked sa
  else modifySub sa (·.setDelay true)

/-- The section of `raft_client_request_submit_enqueue`, with what comes before it, and whether the
thread is to block. -/
def submitEnqueue (k sa : Nat) (leaderViable : Bool) : Handler Rci Bool := do
  let a ← touch sa
  modify fun s => s.withWaiter k (if a.blocking = true then some sa else none)
    (if a.blocking = true then 1 else 0)
  assert (a.initializing = true)
  modifySub sa (·.setInitialized)
  queueOrDelay sa leaderViable
  pure a.blocking

/-- `raft_client_request_submit_enqueue`, with `raft_client_request_handle_init`. -/
def submitAdded (k sa : Nat) (req : Request) : ClientProg Unit :=
  match req.initError with
  | some _ => subAppPut (.app k) sa .constructor
  | none => do
    .critical .handleInit (handleInit sa req)
    let block ← .critical .enqueue (submitEnqueue k sa req.leaderViable)
    .whenever (block = true)
      (.await .wait (fun s => decide (s.notifier k ≤ 0))
        (modify fun s => s.withWaiter k none (s.notifier k)))

/-- `raft_client_request_submit`, with `raft_client_sub_app_add`. -/
def requestSubmit (k : Nat) (req : Request) : ClientProg Unit := do
  let added ← .critical .getAdd (getAdd (.app k) req.rncui)
  match added with
  | (sa, true) => subAppPut (.app k) sa (.lookup (.app k))
  | (sa, false) => submitAdded k sa req

/-- The check of `raft_client_request_cancel`.  The reference of the lookup is not put where the
request is initialized. -/
def cancelCheck (i : Thread) (sa : Nat) : Handler Rci Bool := do
  let a ← touch sa
  whenever (a.initializing = false)
    (modifySub sa (·.leak (.lookup i)))
  pure a.initializing

/-- `raft_client_request_cancel`, for a request that was found. -/
def cancelFound (k sa : Nat) : ClientProg Int := do
  let initializing ← .critical (.cancelCheck sa) (cancelCheck (.app k) sa)
  if initializing = true then do
    subAppCancelPendingReq (.app k) sa ECANCELED
    subAppPut (.app k) sa (.lookup (.app k))
    pure 0
  else pure EINPROGRESS

/-- `raft_client_request_cancel`. -/
def requestCancel (k rncui : Nat) : ClientProg Int := do
  let found ← .critical (.cancelLookup rncui) (subAppLookup (.app k) rncui)
  match found with
  | none => pure ENOENT
  | some sa => cancelFound k sa

/-! ## The timer -/

/-- The timer passes a request over. -/
def SubApp.Bypassed (a : SubApp) : Prop := a.cancel = true ∨ a.sendq = true ∨ a.initializing = true

instance (a : SubApp) : Decidable a.Bypassed := inferInstanceAs (Decidable (_ ∨ _))

/-- The timer sends a request again. -/
def Resends (input : ScanInput) (sa : Nat) (a : SubApp) : Prop :=
  ¬a.Bypassed ∧ input.expired sa = false ∧ input.leaderViable = true ∧
    (a.leaderNotViableDelay = true ∨ a.numSends = 0 ∨ input.retry sa = true)

instance (input : ScanInput) (sa : Nat) (a : SubApp) : Decidable (Resends input sa a) :=
  inferInstanceAs (Decidable (_ ∧ _))

/-- The body of the loop over the tree. -/
def scanRequest (input : ScanInput) (sa : Nat) : Handler Rci Unit := do
  let a ← touch sa
  if a.Bypassed then pure ()
  else if input.expired sa = true then do
    modifySub sa (·.get .expired)
    modify fun s => s.withExpiredq (sa :: s.expiredq)
  else whenever (Resends input sa a) do
    modifySub sa (·.setDelay false)
    sendQueueAddLocked sa

/-- The loop over the tree. -/
def scanRequests (input : ScanInput) : List Nat → Handler Rci Unit
  | [] => pure ()
  | sa :: rest => do
    scanRequest input sa
    scanRequests input rest

/-- The section of `raft_client_check_pending_requests`. -/
def scan (input : ScanInput) : Handler Rci (List Nat) := do
  modify (·.withExpiredq [])
  let tree ← gets (·.tree)
  scanRequests input tree
  gets (·.expiredq)

/-- The loop over the expired requests. -/
def cleanupExpiredq : List Nat → ClientProg Unit
  | [] => pure ()
  | sa :: rest => do
    .critical .expiredRemove (modify fun s => s.withExpiredq s.expiredq.tail)
    subAppCancelPendingReq .timer sa ETIMEDOUT
    subAppPut .timer sa .expired
    cleanupExpiredq rest

/-- `raft_client_check_pending_requests`. -/
def checkPendingRequests (input : ScanInput) : ClientProg Unit := do
  let expired ← .critical (.scan input) (scan input)
  cleanupExpiredq expired

/-! ## Replies -/

/-- What `raft_client_reply_try_complete` checks without the lock: the reply is for another
request. -/
def checkReply (i : Thread) (sa msgId : Nat) : Handler Rci Bool := do
  let a ← touch sa
  let other := a.initializing || decide (msgId ≠ a.msgId)
  whenever (other = false)
    (modifySub sa (·.rename (.lookup i) (.matched i)))
  pure other

/-- The request is being completed. -/
def SubApp.setCompleting (a : SubApp) (i : Thread) : SubApp :=
  { a with completing := true, ender := some i }

/-- The section of `raft_client_reply_try_complete`, and whether the request is to be completed. -/
def markCompleting (i : Thread) (sa : Nat) : Handler Rci Bool := do
  let a ← touch sa
  if a.ready = true then pure false
  else do
    assert (a.completing = false)
    if a.cancel = true then pure false
    else do
      modifySub sa (·.setCompleting i)
      pure true

/-- The rest of `raft_client_reply_try_complete`, for a reply to this request. -/
def replyComplete (i : Thread) (sa : Nat) (error : Int) : ClientProg Unit := do
  let completing ← .critical (.tryComplete sa) (markCompleting i sa)
  .whenever (completing = true) (subAppDone i sa error .constructor)

/-- `raft_client_reply_try_complete`. -/
def replyTryComplete (i : Thread) (rncui msgId : Nat) (error : Int) : ClientProg Unit := do
  let found ← .critical .lookup (subAppLookup i rncui)
  match found with
  | none => pure ()
  | some sa => do
    let other ← .critical .checkReply (checkReply i sa msgId)
    .whenever (other = false) (replyComplete i sa error)
    subAppPut i sa (if other = true then .lookup i else .matched i)

/-! ## The sender -/

/-- The request was sent. -/
def SubApp.setSent (a : SubApp) : SubApp := { a with numSends := a.numSends + 1 }

/-- The request could not be sent. -/
def SubApp.setSendFailed (a : SubApp) : SubApp := { a with cancel := true, sendFailed := true }

/-- `raft_client_rpc_launch`, where the network returns `rc`. -/
def rpcLaunch (sa : Nat) (rc : Int) : Handler Rci Unit := do
  let a ← touch sa
  assert (a.sendq = false)
  modify fun s => { s with launchedFlagged := s.launchedFlagged || (s.sub sa).flagged }
  whenever (rc = 0) (modifySub sa (·.setSent))

/-- The first request of the queue is taken off it. -/
def dequeueHead : Handler Rci (Option (Nat × Bool)) := do
  let sendq ← gets (·.sendq)
  match sendq with
  | [] => pure none
  | sa :: _ => do
    let stale ← sendQueueRemovePrepLocked sa
    pure (some (sa, stale))

/-- The send failed for good. -/
def markSendFailed (sa : Nat) : Handler Rci Unit := do
  let _ ← touch sa
  modifySub sa (·.setSendFailed)

/-- What follows a launch. -/
def afterLaunch (sa : Nat) (rc : Int) : ClientProg Unit :=
  if rc ≠ 0 ∧ rc ≠ EAGAIN then do
    .critical .sendFailed (markSendFailed sa)
    subAppDone .sender sa rc .sending
  else sendQueueRemoveDone sa

/-- `raft_client_rpc_sendq_dequeue_head_and_send`, where a launch returns `rc`. -/
def dequeueHeadAndSend (rc : Int) : ClientProg Int := do
  let head ← .critical .dequeue dequeueHead
  match head with
  | none => pure ENOENT
  | some (sa, true) => do
    sendQueueRemoveDone sa
    pure ESTALE
  | some (sa, false) => do
    .critical (.launch rc) (rpcLaunch sa rc)
    afterLaunch sa rc
    pure rc

/-- The loop of `raft_client_rpc_sender`, for at most `fuel` rounds, and whether it has ended.  The
launch of a round returns what `results` says. -/
def senderLoop (results : Nat → Int) : Nat → Nat → ClientProg Bool
  | _, 0 => pure true
  | 0, _ + 1 => pure false
  | fuel + 1, remainingSends + 1 => do
    let rc ← dequeueHeadAndSend (results fuel)
    if rc = 0 then do
      .critical .countRpc (modify fun s => { s with intervalRpcCnt := s.intervalRpcCnt + 1 })
      senderLoop results fuel remainingSends
    else if rc = ENOENT then pure true
    else senderLoop results fuel (remainingSends + 1)

/-- `RAFT_CLIENT_RPC_SENDER_MAX`. -/
def rpcSenderMax : Nat := 8

/-- The requests in an interval, `RAFT_CLIENT_RATE_QUANTUM_MSEC` long. -/
def ratePerQuantum : Nat := 10000 / (1000 / 2)

/-- The requests that may be sent now.  A new interval may have begun. -/
def remainingRpcs (newInterval : Bool) : Handler Rci Nat := do
  whenever (newInterval = true) (modify fun s => { s with intervalRpcCnt := 0 })
  let cnt ← gets (·.intervalRpcCnt)
  whenever (ratePerQuantum ≤ cnt) (modify fun s => { s with requestsThrottled := true })
  pure (ratePerQuantum - cnt)

/-- `raft_client_rpc_sender`. -/
def rpcSender (newInterval : Bool) (fuel : Nat) (results : Nat → Int) : ClientProg Bool := do
  let remaining ← .critical .interval (remainingRpcs newInterval)
  let ended ← senderLoop results fuel (min rpcSenderMax remaining)
  .critical .reschedule do
    whenever (remaining ≠ 0)
      (modify fun s => { s with requestsThrottled := s.requestsThrottled || !s.sendq.isEmpty })
  pure ended

/-! ## The threads -/

/-- What a thread may be made to do. -/
inductive Op where
  | submit (req : Request)
  | cancel (rncui : Nat)
  | checkPending (input : ScanInput)
  | reply (rncui msgId : Nat) (error : Int)
  | send (newInterval : Bool) (fuel : Nat) (results : Nat → Int)

/-- The programs of the threads. -/
def program : Thread → Op → ClientProg Unit
  | .app k, .submit req => requestSubmit k req
  | .app k, .cancel rncui => do
    let _ ← requestCancel k rncui
    pure ()
  | .timer, .checkPending input => checkPendingRequests input
  | .sender, .send newInterval fuel results => do
    let _ ← rpcSender newInterval fuel results
    pure ()
  | .reply k, .reply rncui msgId error => replyTryComplete (.reply k) rncui msgId error
  | _, _ => pure ()

end RaftClient

end NiovaRaft
