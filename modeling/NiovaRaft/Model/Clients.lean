import NiovaRaft.Model.Cluster

/-!
# Clients

The writes of clients on their way into the log.  A leader that may accept a write appends it to
its coalescing buffer.  What the buffer holds becomes one entry, one sub-entry for each write: when
the next write does not fit, when the buffer is full, when coalescing is off, or when a timer
expires.  With the entry go the write supplements that the application has returned for its writes.

The buffer belongs to the process and not to the leadership.  `raft_server_becomes_follower`
destroys the supplements in it, and nothing else is cleared when a leader steps down.

The application is outside the repository.  A write is what its callback asks to be written: the
client's data, the application's own data and the supplements.  Whether the leader heard of a
majority lately (`raft_leader_instance_is_fresh`) is an input.

What was accepted, and in which term, is recorded, and so are the entries that reached the backend
with the supplements handed to it.  Nothing reads the records.
-/

namespace NiovaRaft

variable {n : Nat}

/-- `RAFT_ENTRY_NUM_ENTRIES`. -/
def entryNumEntries : Nat := 100

/-- A write of a client. -/
structure ClientWrite where
  data : List UInt8
  appData : List UInt8
  supp : List WrSupp
deriving DecidableEq, Repr

/-- The bytes of the sub-entry that a write becomes. -/
def ClientWrite.bytes (w : ClientWrite) : List UInt8 := w.data ++ w.appData

/-- `struct raft_instance_co_wr`.  Of the sizes and the buffer only the part in use is kept. -/
structure CoWr where
  nentries : Nat
  entrySizes : List Nat
  totalSize : Nat
  ws : SmWriteSupplements
  buffer : List UInt8
deriving DecidableEq, Repr

/-- A buffer cleared by `memset`. -/
def CoWr.zero : CoWr := ⟨0, [], 0, ⟨[], 0, false⟩, []⟩

/-- An entry as the backend was given it. -/
structure CoalescedEntry where
  entry : Entry
  supplements : List WrSupp
deriving DecidableEq, Repr

/-- A process while it handles a client's request: the server with its buffer, the writes it has
accepted, with the term, and the entries it has stored. -/
structure ClientProc (n : Nat) where
  proc : Proc n
  coWr : CoWr
  accepted : List (Int × ClientWrite)
  written : List CoalescedEntry

/-- The process after a part of the server ran that stored entries together with `ws`. -/
def ClientProc.stored (s : ClientProc n) (p : Proc n) (ws : List WrSupp) : ClientProc n :=
  { s with
    proc := p
    written := s.written ++
      (p.ri.store.db.entries.drop s.proc.ri.store.db.entries.length).map (⟨·, ws⟩) }

/-- A handler of a client's request. -/
abbrev ClientHandler (n : Nat) : Type → Type := Base.Handler (ClientProc n)

namespace RaftServer

open Base Base.Handler

/-! ## Accepting -/

/-- `raft_leader_has_applied_txn_in_my_term`. -/
def leaderHasAppliedTxnInMyTerm : Server n Bool := do
  let ri ← getRi
  if ri.isLeader = true then do
    fatalIf (ri.leader.leaderTerm ≠ ri.logHdr.term)
    pure (decide (ri.lastApplied.idx > ri.leader.initialTermIdx))
  else pure false

/-- `raft_server_may_accept_client_request`. -/
def mayAcceptClientRequest (fresh : Bool) : Server n (Except Errno Unit) := do
  let ri ← getRi
  if ri.procState = .booting then pure (.error .EINPROGRESS)
  else if ri.isCandidate = true ∨ ri.isCandidatePrevote = true then pure (.error .ENOENT)
  else if ri.isLeader = false then pure (.error .ENOSYS)
  else if fresh = false then pure (.error .EAGAIN)
  else do
    let applied ← leaderHasAppliedTxnInMyTerm
    pure (if applied then .ok () else .error .EBUSY)

/-! ## Write supplements -/

/-- `raft_net_sm_write_supplements_merge`. -/
def netSmWriteSupplementsMerge (dest : SmWriteSupplements) (src : List WrSupp) :
    Except Errno SmWriteSupplements :=
  if src = [] then .ok dest
  else if dest.ws.length + src.length > netWrSuppMax then .error .E2BIG
  else .ok ⟨dest.ws ++ src, 0, false⟩

/-- `raft_net_sm_write_supplement_destroy`. -/
def netSmWriteSupplementDestroy (rnsws : SmWriteSupplements) : SmWriteSupplements :=
  if rnsws.ws = [] then rnsws else ⟨[], 0, false⟩

end RaftServer

/-- The buffer after supplements were merged into it.  A merge that fails is not noticed. -/
def CoWr.merge (co : CoWr) (supp : List WrSupp) : CoWr :=
  match RaftServer.netSmWriteSupplementsMerge co.ws supp with
  | .ok ws => { co with ws := ws }
  | .error _ => co

/-- The buffer with one more write. -/
def CoWr.push (co : CoWr) (data appData : List UInt8) : CoWr :=
  { co with
    nentries := co.nentries + 1
    entrySizes := co.entrySizes ++ [data.length + appData.length]
    totalSize := co.totalSize + data.length + appData.length
    buffer := co.buffer ++ data ++ appData }

/-- What `raft_server_becomes_follower` does to the buffer. -/
def CoWr.destroySupplements (co : CoWr) : CoWr :=
  { co with ws := RaftServer.netSmWriteSupplementDestroy co.ws }

namespace Coalesce

open Base Base.Handler

/-! ## Coalescing -/

/-- A part of the server that stores nothing. -/
def lift {α : Type} (m : Server n α) : ClientHandler n α := fun s =>
  match m s.proc with
  | .ok a p => .ok a { s with proc := p }
  | .abort p => .abort { s with proc := p }

/-- A part of the server that stores entries together with `ws`. -/
def storing (ws : List WrSupp) (m : Server n Unit) : ClientHandler n Unit := fun s =>
  match m s.proc with
  | .ok () p => .ok () (s.stored p ws)
  | .abort p => .abort (s.stored p ws)

/-- Update the buffer. -/
def modifyCoWr (f : CoWr → CoWr) : ClientHandler n Unit :=
  modify fun s => { s with coWr := f s.coWr }

/-- `raft_server_write_coalesced_entries`. -/
def writeCoalescedEntries [Externals] : ClientHandler n Unit := do
  let co ← gets (·.coWr)
  whenever (co.nentries ≠ 0) do
    storing co.ws.ws (RaftServer.leaderWriteNewEntry co.buffer co.entrySizes false)
    modifyCoWr fun _ => .zero

/-- `raft_server_write_coalesce_entry`. -/
def writeCoalesceEntry [Externals] (coalescedWrites : Bool) (data appData : List UInt8) :
    ClientHandler n Unit := do
  let s ← get
  assert (s.coWr.nentries < entryNumEntries ∧ s.coWr.totalSize < s.proc.ri.entryMaxDataSize)
  fatalIf (data.length + appData.length + s.coWr.totalSize > s.proc.ri.entryMaxDataSize)
  modifyCoWr (·.push data appData)
  let co ← gets (·.coWr)
  whenever (coalescedWrites = false ∨ co.nentries = entryNumEntries ∨
    co.totalSize = s.proc.ri.entryMaxDataSize) writeCoalescedEntries

/-- The write is recorded as accepted. -/
def recordAccepted (w : ClientWrite) : ClientHandler n Unit :=
  modify fun s => { s with accepted := s.accepted ++ [(s.proc.ri.logHdr.term, w)] }

/-- `raft_server_client_rncr_write_raft_entry`. -/
def clientRncrWriteRaftEntry [Externals] (coalescedWrites : Bool) (w : ClientWrite) :
    ClientHandler n Unit := do
  let s ← get
  whenever (w.data.length + w.appData.length + s.coWr.totalSize > s.proc.ri.entryMaxDataSize)
    writeCoalescedEntries
  recordAccepted w
  modifyCoWr (·.merge w.supp)
  writeCoalesceEntry coalescedWrites w.data w.appData

/-- `raft_server_client_rncr_complete`, for a request that the application wants written. -/
def clientRncrComplete [Externals] (coalescedWrites fresh : Bool) (w : ClientWrite) :
    ClientHandler n Unit := do
  let rc ← lift (RaftServer.mayAcceptClientRequest fresh)
  whenever (rc.isOk = true) (clientRncrWriteRaftEntry coalescedWrites w)

/-- `raft_server_leader_co_wr_timer_expired`. -/
def leaderCoWrTimerExpired [Externals] (fresh : Bool) : ClientHandler n Unit := do
  let rc ← lift (RaftServer.mayAcceptClientRequest fresh)
  whenever (rc.isOk = true) writeCoalescedEntries

end Coalesce

/-! ## The cluster and its clients -/

/-- The servers with their buffers, and what was accepted and stored. -/
structure Clients (n : Nat) where
  cluster : Cluster n
  coWr : Fin n → CoWr
  accepted : List (Fin n × Int × ClientWrite)
  written : List (Fin n × CoalescedEntry)

/-- What happens to a server. -/
inductive ClientEvent (n : Nat) where
  /-- An event of the cluster.  Client requests are not written other than through the buffer. -/
  | peer (e : Event n)
  /-- A client's request. -/
  | request (p : Fin n) (coalescedWrites fresh : Bool) (w : ClientWrite) (fuse : Option Nat)
      (keep : Nat)
  /-- The timer of the buffer. -/
  | coWrTimer (p : Fin n) (fresh : Bool) (fuse : Option Nat) (keep : Nat)

/-- The event writes client requests. -/
def Event.isWrite (e : Event n) : Bool :=
  match e.action with
  | .write _ => true
  | _ => false

namespace Clients

/-- All servers freshly started. -/
def initial (opts : Fin n → Options) : Clients n := ⟨.initial opts, fun _ => .zero, [], []⟩

/-- The buffer of a server after an event of the cluster.  A killed process takes it along.  Every
way to become a follower destroys the supplements, and a follower accepts none. -/
def coWrAfter [Externals] (c : Clients n) (e : Event n) : CoWr :=
  match c.cluster.handler e (c.cluster.proc e) with
  | .ok _ s => if s.ri.isFollower then (c.coWr e.server).destroySupplements else c.coWr e.server
  | .abort _ => .zero

/-- The process that handles a request. -/
def clientProc (c : Clients n) (p : Fin n) (fuse : Option Nat) : ClientProc n :=
  ⟨⟨c.cluster.servers p, [], [], fuse⟩, c.coWr p, [], []⟩

/-- The cluster once a server is done with a request. -/
def commit (c : Clients n) (p : Fin n) (s : ClientProc n) (ri : RaftInstance n) (co : CoWr) :
    Clients n where
  cluster := { c.cluster with servers := Function.update c.cluster.servers p ri }
  coWr := Function.update c.coWr p co
  accepted := c.accepted ++ s.accepted.map (p, ·)
  written := c.written ++ s.written.map (p, ·)

/-- A server handles a request. -/
def serve (c : Clients n) (p : Fin n) (fuse : Option Nat) (keep : Nat) (m : ClientHandler n Unit) :
    Clients n :=
  if Cluster.serves (c.cluster.servers p) then
    match m (c.clientProc p fuse) with
    | .ok () s => c.commit p s s.proc.ri s.coWr
    | .abort s => c.commit p s (Cluster.restart s.proc.ri keep) .zero
  else c

/-- One event. -/
def step [Externals] (c : Clients n) : ClientEvent n → Clients n
  | .peer e =>
      if e.isWrite = true ∨ c.cluster.enabled e = false then c
      else
        { c with
          cluster := c.cluster.step e
          coWr := Function.update c.coWr e.server (c.coWrAfter e) }
  | .request p coalescedWrites fresh w fuse keep =>
      c.serve p fuse keep (Coalesce.clientRncrComplete coalescedWrites fresh w)
  | .coWrTimer p fresh fuse keep => c.serve p fuse keep (Coalesce.leaderCoWrTimerExpired fresh)

/-- A run. -/
def run [Externals] (c : Clients n) (es : List (ClientEvent n)) : Clients n := es.foldl step c

/-- The clusters that runs reach whose every event satisfies `ok` where it takes place. -/
inductive Reach [Externals] (ok : Clients n → ClientEvent n → Prop) (opts : Fin n → Options) :
    Clients n → Prop
  | init : Reach ok opts (initial opts)
  | step {c : Clients n} (e : ClientEvent n) : Reach ok opts c → ok c e → Reach ok opts (c.step e)

/-- Any event. -/
def anyEvent (_ : Clients n) (_ : ClientEvent n) : Prop := True

/-- Every event of a run satisfies `ok` where it takes place. -/
def AllEvents [Externals] (ok : Clients n → ClientEvent n → Prop) :
    Clients n → List (ClientEvent n) → Prop
  | _, [] => True
  | c, e :: es => ok c e ∧ AllEvents ok (c.step e) es

instance decidableAllEvents [Externals] {ok : Clients n → ClientEvent n → Prop}
    [∀ c e, Decidable (ok c e)] :
    ∀ (c : Clients n) (es : List (ClientEvent n)), Decidable (AllEvents ok c es)
  | _, [] => .isTrue trivial
  | c, e :: es => @instDecidableAnd _ _ _ (decidableAllEvents (c.step e) es)

theorem Reach.of_allEvents [Externals] {ok : Clients n → ClientEvent n → Prop}
    {opts : Fin n → Options} {c : Clients n} (h : Reach ok opts c) (es : List (ClientEvent n))
    (hes : AllEvents ok c es) : Reach ok opts (c.run es) := by
  induction es generalizing c with
  | nil => exact h
  | cons e es ih => exact ih (h.step e hes.1) hes.2

end Clients

/-- The three servers and their clients after a run. -/
def afterClientRun (es : List (ClientEvent 3)) : Clients 3 :=
  @Clients.run 3 sampleExternals (.initial threeServers) es

theorem reach_afterClientRun_of {ok : Clients 3 → ClientEvent 3 → Prop} {es : List (ClientEvent 3)}
    (h : @Clients.AllEvents 3 sampleExternals ok (.initial threeServers) es) :
    @Clients.Reach 3 sampleExternals ok threeServers (afterClientRun es) :=
  @Clients.Reach.of_allEvents 3 sampleExternals _ _ _ (@Clients.Reach.init 3 sampleExternals _ _)
    es h

theorem reach_afterClientRun (es : List (ClientEvent 3)) :
    @Clients.Reach 3 sampleExternals Clients.anyEvent threeServers (afterClientRun es) := by
  refine reach_afterClientRun_of ?_
  generalize Clients.initial threeServers = c
  induction es generalizing c with
  | nil => trivial
  | cons e es ih => exact ⟨trivial, ih _⟩

/-- Server 0 is elected and applies the marker of its term. -/
def marksTerm : List (Event 3) :=
  [.expire 0, .deliver 1 0, .deliver 0 2, .deliver 1 3, .deliver 0 5, .send 0, .deliver 1 6,
    .sync 0, .sync 1, .deliver 0 8, .send 1, .deliver 0 9, .apply 0]

end NiovaRaft
