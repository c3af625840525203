import NiovaRaft.Model.Startup

/-!
# The cluster

`n` servers and the messages between them.  A message that was sent stays in the network: it
may be delivered late, more than once, out of order or never.  An event is one handler of one
server: the arrival of a message, a timer, a wakeup of the event loop, a round of the sync or
the checkpoint thread, a write of collected client requests, or a crash.  Handlers do not
interleave with each other.  The process may be killed before any write of the handler
(`fuse`), and a failed assertion kills it too.  A killed process starts again on what its
backend kept (`keep`), which is at least what was flushed.

The servers never run a bulk recovery.  A server that needs one leaves its event loop.

A packet records the message whose handling sent it, and the cluster records what was observed.
No handler reads either.
-/

namespace NiovaRaft

variable {n : Nat}

/-- A message on its way.  `cause` is the message whose handling sent it, if it was one. -/
structure Packet (n : Nat) where
  src : Fin n
  dst : Fin n
  msg : RpcMsg n
  cause : Option (RpcMsg n)
deriving DecidableEq, Repr

/-- The servers, all messages ever sent, and what was observed so far. -/
structure Cluster (n : Nat) where
  servers : Fin n → RaftInstance n
  net : List (Packet n)
  history : List (Fin n × Obs n)

/-- What a server is made to do. -/
inductive Action (n : Nat) where
  | deliver (k : Nat)
  | timer (quorumOk heartbeatDue : Bool) (clock : RaftServer.SendClock n)
  | remoteSend (clock : RaftServer.SendClock n)
  | commitIdxAdv
  | smApply (cb : SmRequestCb)
  | syncThread
  | write (requests : List (List UInt8))
  | chkptThread (takesChkpt reaps : Bool) (numKeepEntries : Int)
  | crash

/-- An action of one server, with the writes it survives and what a crash leaves behind. -/
structure Event (n : Nat) where
  server : Fin n
  action : Action n
  fuse : Option Nat
  keep : Nat

/-- The event wakes the sender of a leader: its heartbeat is due, or there is something to send. -/
def Event.sends (e : Event n) : Bool :=
  match e.action with
  | .timer quorumOk heartbeatDue _ => quorumOk && heartbeatDue
  | .remoteSend _ => true
  | _ => false

namespace Cluster

/-- All servers freshly started on an empty backend. -/
def initial (opts : Fin n → Options) : Cluster n where
  servers := fun i => RaftServer.instanceRun i (opts i) RaftServer.freshDb
  net := []
  history := []

/-- The packet an event delivers. -/
def delivered (c : Cluster n) (e : Event n) : Option (Packet n) :=
  match e.action with
  | .deliver k => c.net[k]?.filter (·.dst = e.server)
  | _ => none

/-- What the packet of an event is. -/
theorem delivered_mem {c : Cluster n} {e : Event n} {pkt : Packet n}
    (h : c.delivered e = some pkt) : pkt ∈ c.net ∧ pkt.dst = e.server := by
  unfold delivered at h
  split at h
  · rw [Option.filter_eq_some_iff] at h
    exact ⟨List.mem_of_getElem? h.1, by simpa using h.2⟩
  · cases h

/-- The requests a coalesced write may hold: at most `RAFT_ENTRY_NUM_ENTRIES`, and no more data
than fits into an entry. -/
def coalescedWriteFits (ri : RaftInstance n) (requests : List (List UInt8)) : Bool :=
  decide (requests.length ≤ 100 ∧ (requests.map List.length).sum ≤ ri.entryMaxDataSize)

/-- The handler an event runs. -/
def handler [Externals] (c : Cluster n) (e : Event n) : Server n Unit :=
  match e.action with
  | .deliver _ =>
      match c.delivered e with
      | none => pure ()
      | some pkt => RaftServer.processReceivedServerMsg pkt.src pkt.msg
  | .timer quorumOk heartbeatDue clock => RaftServer.timerfdCb quorumOk heartbeatDue clock
  | .remoteSend clock => RaftServer.remoteSendEvpCb clock
  | .commitIdxAdv => RaftServer.commitIdxAdvEvpCb
  | .smApply cb => RaftServer.stateMachineApply cb
  | .syncThread => RaftServer.syncThread
  | .write requests =>
      Base.Handler.whenever (coalescedWriteFits (c.servers e.server) requests = true)
        (RaftServer.writeCoalescedEntries requests)
  | .chkptThread takesChkpt reaps numKeepEntries =>
      RaftServer.chkptThread takesChkpt reaps numKeepEntries
  | .crash => Base.Handler.abort

/-- The instance that takes over from a killed process. -/
def restart (ri : RaftInstance n) (keep : Nat) : RaftInstance n :=
  RaftServer.instanceRun ri.self ri.opts (ri.store.recoverable.getD keep ri.store.db)

/-- Whether a server runs its event loop. -/
def serves (ri : RaftInstance n) : Bool :=
  decide (ri.procState = .running ∧ ri.needsBulkRecovery = false)

/-- The cluster once the server of an event is done: with its new instance, what it sent and
what was observed. -/
def commit (c : Cluster n) (e : Event n) (s : Proc n) (ri : RaftInstance n) : Cluster n where
  servers := Function.update c.servers e.server ri
  net := c.net ++ s.out.map fun m => ⟨e.server, m.1, m.2, (c.delivered e).map (·.msg)⟩
  history := c.history ++ s.trace.map fun o => (e.server, o)

/-- The process that runs the handler of an event. -/
def proc (c : Cluster n) (e : Event n) : Proc n := ⟨c.servers e.server, [], [], e.fuse⟩

/-- Whether an event takes place: a server outside its event loop can only be restarted. -/
def enabled (c : Cluster n) (e : Event n) : Bool :=
  serves (c.servers e.server) || (match e.action with | .crash => true | _ => false)

theorem handler_of_delivered [Externals] {c : Cluster n} {e : Event n} {pkt : Packet n}
    (h : c.delivered e = some pkt) :
    c.handler e = RaftServer.processReceivedServerMsg pkt.src pkt.msg := by
  unfold handler
  rw [h]
  unfold delivered at h
  split at h
  · rename_i hact
    rw [hact]
  · cases h

/-- A server that is down can only be restarted. -/
theorem handler_of_not_running [Externals] {c : Cluster n} {e : Event n} (hen : c.enabled e = true)
    (hrun : (c.servers e.server).procState ≠ .running) : c.handler e = Base.Handler.abort := by
  have hcrash : e.action = .crash := by
    unfold enabled serves at hen
    cases hact : e.action <;> simp [hact, hrun] at hen ⊢
  unfold handler
  rw [hcrash]

/-- One event. -/
def step [Externals] (c : Cluster n) (e : Event n) : Cluster n :=
  if c.enabled e then
    match c.handler e (c.proc e) with
    | .ok () s => c.commit e s s.ri
    | .abort s => c.commit e s (restart s.ri e.keep)
  else c

/-- A run. -/
def run [Externals] (c : Cluster n) (es : List (Event n)) : Cluster n := es.foldl step c

/-- The clusters that runs reach whose every event satisfies `ok` where it takes place. -/
inductive Reach [Externals] (ok : Cluster n → Event n → Prop) (opts : Fin n → Options) :
    Cluster n → Prop
  | init : Reach ok opts (initial opts)
  | step {c : Cluster n} (e : Event n) : Reach ok opts c → ok c e → Reach ok opts (c.step e)

/-- Any event. -/
def anyEvent (_ : Cluster n) (_ : Event n) : Prop := True

theorem Reach.mono [Externals] {ok ok' : Cluster n → Event n → Prop} {opts : Fin n → Options}
    {c : Cluster n} (h : Reach ok opts c) (hok : ∀ c e, ok c e → ok' c e) :
    Reach ok' opts c := by
  induction h with
  | init => exact .init
  | step e _ he ih => exact ih.step e (hok _ e he)

theorem Reach.run [Externals] {opts : Fin n → Options} {c : Cluster n}
    (h : Reach anyEvent opts c) (es : List (Event n)) : Reach anyEvent opts (c.run es) := by
  induction es generalizing c with
  | nil => exact h
  | cons e es ih => exact ih (h.step e trivial)

/-- Every event of a run satisfies `ok` where it takes place. -/
def AllEvents [Externals] (ok : Cluster n → Event n → Prop) : Cluster n → List (Event n) → Prop
  | _, [] => True
  | c, e :: es => ok c e ∧ AllEvents ok (c.step e) es

instance decidableAllEvents [Externals] {ok : Cluster n → Event n → Prop}
    [∀ c e, Decidable (ok c e)] :
    ∀ (c : Cluster n) (es : List (Event n)), Decidable (AllEvents ok c es)
  | _, [] => .isTrue trivial
  | c, e :: es => @instDecidableAnd _ _ _ (decidableAllEvents (c.step e) es)

theorem Reach.of_allEvents [Externals] {ok : Cluster n → Event n → Prop} {opts : Fin n → Options}
    {c : Cluster n} (h : Reach ok opts c) (es : List (Event n)) (hes : AllEvents ok c es) :
    Reach ok opts (c.run es) := by
  induction es generalizing c with
  | nil => exact h
  | cons e es ih => exact ih (h.step e hes.1) hes.2

/-- The event has a leader look at its commit index: an acknowledgement arrives, or its own sync
thread has woken it. -/
def notifies (c : Cluster n) (e : Event n) : Bool :=
  match e.action with
  | .deliver _ => (c.delivered e).any (·.msg.acknowledges)
  | .commitIdxAdv => true
  | _ => false

/-- What was observed in an event. -/
def observed [Externals] (c : Cluster n) (e : Event n) : List (Fin n × Obs n) :=
  (c.step e).history.drop c.history.length

/-- What a leader commits is an entry of its term. -/
def commitsOwn : Obs n → Bool
  | .commits .leader t idx log => log[idx.toNat]?.any (·.term = t)
  | _ => true

/-- A leader that is notified commits only entries of its own term. -/
def OwnAdvance [Externals] (c : Cluster n) (e : Event n) : Prop :=
  c.notifies e = true → ∀ x ∈ c.observed e, commitsOwn x.2 = true

instance [Externals] : ∀ (c : Cluster n) (e : Event n), Decidable (OwnAdvance c e) :=
  fun c e => inferInstanceAs (Decidable (c.notifies e = true → ∀ x ∈ c.observed e, _))

/-- No two servers led the same term. -/
def UniqueLeaders (c : Cluster n) : Prop :=
  ∀ p q t l l', (p, Obs.leads t l) ∈ c.history → (q, Obs.leads t l') ∈ c.history → p = q

/-- Two observations are of leaders of one term. -/
def sameLedTerm : Obs n → Obs n → Bool
  | .leads t _, .leads t' _ => t = t'
  | _, _ => false

instance (c : Cluster n) : Decidable c.UniqueLeaders :=
  decidable_of_iff
    (∀ x ∈ c.history, ∀ y ∈ c.history, sameLedTerm x.2 y.2 = true → x.1 = y.1) <| by
    constructor
    · intro h p q t l l' hp hq
      exact h _ hp _ hq (by simp [sameLedTerm])
    · rintro h ⟨p, o⟩ hp ⟨q, o'⟩ hq hsame
      cases o <;> cases o' <;> simp [sameLedTerm] at hsame
      subst hsame
      exact h p q _ _ _ hp hq

end Cluster

/-! ## Three servers

The smallest cluster that goes on without one of its servers, and the events of runs that are
written out. -/

/-- A checksum that tells entries apart by their index, term and bytes. -/
@[reducible]
def sampleExternals : Externals where
  niovaCrc := fun i => i.index.toNat * 31 + i.term.toNat * 7 + (i.data.map UInt8.toNat).sum
  niovaCrcSeeded := fun data crc => 2 * crc + (data.map UInt8.toNat).sum

/-- Three servers with a RocksDB backend and asynchronous writes. -/
def threeServers : Fin 3 → Options := fun _ => ⟨.rocksdb, false, 1, 0⟩

namespace Event

/-- No peer is waited for. -/
def clock : RaftServer.SendClock 3 := ⟨fun _ => some 0, 0⟩

/-- The election timer of a server expires, or its quorum check fails. -/
def expire (p : Fin 3) : Event 3 := ⟨p, .timer false false clock, none, 0⟩

/-- A heartbeat of a leader is due. -/
def heartbeat (p : Fin 3) : Event 3 := ⟨p, .timer true true clock, none, 0⟩

/-- Message `k` arrives. -/
def deliver (p : Fin 3) (k : Nat) : Event 3 := ⟨p, .deliver k, none, 0⟩

/-- The sender of a server is woken. -/
def send (p : Fin 3) : Event 3 := ⟨p, .remoteSend clock, none, 0⟩

/-- The sync thread of a server runs. -/
def sync (p : Fin 3) : Event 3 := ⟨p, .syncThread, none, 0⟩

/-- A leader that was told of synced entries looks at its commit index. -/
def advance (p : Fin 3) : Event 3 := ⟨p, .commitIdxAdv, none, 0⟩

/-- An application that stores the bytes of every sub-entry under one key. -/
def storeBytes : SmRequestCb := fun _ rncr => [⟨.write, none, [1], rncr.requestOrCommitData⟩]

/-- A server applies an entry. -/
def apply (p : Fin 3) : Event 3 := ⟨p, .smApply storeBytes, none, 0⟩

/-- A leader writes a client's request. -/
def write (p : Fin 3) (request : List UInt8) : Event 3 := ⟨p, .write [request], none, 0⟩

/-- The checkpoint thread of a server takes a checkpoint. -/
def checkpoint (p : Fin 3) : Event 3 := ⟨p, .chkptThread true false 500, none, 0⟩

/-- A server crashes and keeps what was flushed. -/
def crash (p : Fin 3) : Event 3 := ⟨p, .crash, none, 0⟩

end Event

/-- The three servers after a run. -/
def afterRun (es : List (Event 3)) : Cluster 3 :=
  @Cluster.run 3 sampleExternals (.initial threeServers) es

theorem reach_afterRun (es : List (Event 3)) :
    @Cluster.Reach 3 sampleExternals Cluster.anyEvent threeServers (afterRun es) :=
  @Cluster.Reach.run 3 sampleExternals _ _ (@Cluster.Reach.init 3 sampleExternals _ _) es

theorem reach_afterRun_of {ok : Cluster 3 → Event 3 → Prop} {es : List (Event 3)}
    (h : @Cluster.AllEvents 3 sampleExternals ok (.initial threeServers) es) :
    @Cluster.Reach 3 sampleExternals ok threeServers (afterRun es) :=
  @Cluster.Reach.of_allEvents 3 sampleExternals _ _ _ (@Cluster.Reach.init 3 sampleExternals _ _)
    es h

/-- Three servers of a persistent application. -/
def appServers : Fin 3 → Options := fun _ => ⟨.rocksdbPersistentApp, false, 1, 0⟩

/-- The three servers of a persistent application after a run. -/
def afterAppRun (es : List (Event 3)) : Cluster 3 :=
  @Cluster.run 3 sampleExternals (.initial appServers) es

theorem reach_afterAppRun (es : List (Event 3)) :
    @Cluster.Reach 3 sampleExternals Cluster.anyEvent appServers (afterAppRun es) :=
  @Cluster.Reach.run 3 sampleExternals _ _ (@Cluster.Reach.init 3 sampleExternals _ _) es

theorem reach_afterAppRun_of {ok : Cluster 3 → Event 3 → Prop} {es : List (Event 3)}
    (h : @Cluster.AllEvents 3 sampleExternals ok (.initial appServers) es) :
    @Cluster.Reach 3 sampleExternals ok appServers (afterAppRun es) :=
  @Cluster.Reach.of_allEvents 3 sampleExternals _ _ _ (@Cluster.Reach.init 3 sampleExternals _ _)
    es h

/-- Server 0 is elected, writes a request and replicates it to server 1.  Both apply it. -/
def servedRequest : List (Event 3) :=
  [.expire 0, .deliver 1 0, .deliver 0 2, .deliver 1 3, .deliver 0 5, .write 0 [7, 8], .send 0,
    .deliver 1 6, .deliver 0 8, .send 0, .deliver 1 9, .sync 0, .sync 1, .deliver 0 11, .send 1,
    .deliver 0 12, .apply 0, .apply 0, .heartbeat 0, .deliver 1 13, .apply 1, .apply 1]

end NiovaRaft
