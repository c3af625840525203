import NiovaRaft.Model.Cluster

/-!
# One server

A server by itself, among peers that may send it anything.  It takes part in the events of the
cluster, and a server that needs a bulk recovery can run one.  A bulk recovery has two parts.  Once
the checkpoint of a peer is transferred and renamed to a recovery marker, the server's own database
is as good as gone: from there on every start of the process resumes the recovery.  It then scrubs
the foreign database and puts it in the place of its own.

The transfer itself is outside the model: any database may arrive.  The uuids that scrubbing
replaces in the entries are not modelled.

The votes a server casts are recorded with the term they are cast in.  Nothing reads the record.
-/

namespace NiovaRaft

variable {n : Nat}

namespace RaftServer

open Base Base.Handler

/-- `rsbr_init_header`.  A recovering instance keeps the header it has loaded. -/
def initHeader : Server n Unit := do
  let ri ← getRi
  whenever (ri.procState ≠ .recovering) (modifyRi fun ri => { ri with logHdr := ⟨0, none, 0⟩ })
  headerWrite

/-- `rsbr_bulk_recovery_db_scrub`: the header is loaded under the key of the peer that the
database is from, and written under this server's key. -/
def bulkRecoveryDbScrub : Server n Unit := do
  headerLoad
  let ri ← getRi
  assert (0 ≤ ri.lowestIdx ∧ ri.lowestIdx ≤ ri.store.db.entries.length)
  initHeader

/-- `rsbr_bulk_recovery_import_remote_db` and the conditions for it to be called. -/
def canStageRemoteDb (ri : RaftInstance n) : Bool :=
  decide (ri.needsBulkRecovery = true ∧ ri.opts.storeType ≠ .posixFlatFile ∧
    0 ≤ ri.recoveryHandle.peerChkptIdx) && ri.recoveryHandle.peer.any (· ≠ ri.self)

/-- `rsbr_bulk_recover` from the recovery marker on: the database that takes the place of the
server's own, unless the scrub fails.  The server's checkpoints are kept. -/
def bulkRecover (ri : RaftInstance n) (staged : Db n) : Option (Db n) :=
  let opened : RaftInstance n :=
    { ri with
      procState := .recovering
      lowestIdx := if staged.entries = [] then -1 else staged.reaped
      store := ⟨staged, [staged]⟩ }
  match bulkRecoveryDbScrub ⟨opened, [], [], none⟩ with
  | .ok () s => some { s.ri.store.db with chkptIdx := ri.store.db.chkptIdx }
  | .abort _ => none

end RaftServer

/-- A server, the database under its recovery marker, and the votes it has cast. -/
structure Node (n : Nat) where
  ri : RaftInstance n
  staged : Option (Db n)
  votes : List (Int × Fin n)

/-- What happens to a server. -/
inductive NodeEvent (n : Nat) where
  /-- An event of the cluster, with `mail` to be delivered. -/
  | handle (mail : List (Packet n)) (e : Event n)
  /-- A peer's checkpoint has arrived and becomes the recovery marker. -/
  | stage (db : Db n)
  /-- The recovery is completed, by this process or by a later one. -/
  | finish

namespace Node

/-- A server that never ran. -/
def initial (p : Fin n) (opts : Options) : Node n :=
  ⟨RaftServer.instanceRun p opts RaftServer.freshDb, none, []⟩

/-- The server in the surroundings of an event. -/
def cluster (x : Node n) (mail : List (Packet n)) : Cluster n := ⟨fun _ => x.ri, mail, []⟩

/-- The event is one of this server, and the mail from others. -/
def accepts (x : Node n) (mail : List (Packet n)) (e : Event n) : Bool :=
  decide (x.staged = none ∧ e.server = x.ri.self ∧ ∀ pkt ∈ mail, pkt.src ≠ x.ri.self)

/-- The vote that is granted with a message. -/
def grantOf (pkt : Packet n) : Option (Int × Fin n) :=
  match pkt.msg, pkt.cause with
  | .voteReply reply, some (.voteRequest vreq) =>
      if reply.votedGranted then some (vreq.proposedTerm, pkt.dst) else none
  | _, _ => none

/-- The vote for itself that a server has persisted, if it has persisted one. -/
def selfVote (ri ri' : RaftInstance n) : List (Int × Fin n) :=
  if ri'.store.db.hdr ≠ ri.store.db.hdr ∧ ri'.store.db.hdr.votedFor = some ri.self then
    [(ri'.store.db.hdr.term, ri.self)]
  else []

/-- One event. -/
def step [Externals] (x : Node n) : NodeEvent n → Node n
  | .handle mail e =>
      if x.accepts mail e then
        let c := (x.cluster mail).step e
        { x with
          ri := c.servers e.server
          votes := x.votes ++ (selfVote x.ri (c.servers e.server) ++
            (c.net.drop mail.length).filterMap grantOf) }
      else x
  | .stage db =>
      if x.staged = none ∧ RaftServer.canStageRemoteDb x.ri then { x with staged := some db } else x
  | .finish =>
      match x.staged.bind (RaftServer.bulkRecover x.ri) with
      | none => x
      | some db => { x with ri := RaftServer.instanceRun x.ri.self x.ri.opts db, staged := none }

/-- The persisted term. -/
def term (x : Node n) : Int := x.ri.store.db.hdr.term

/-- The servers that runs reach whose every event satisfies `ok` where it takes place. -/
inductive Reach [Externals] (ok : Node n → NodeEvent n → Prop) (p : Fin n) (opts : Options) :
    Node n → Prop
  | init : Reach ok p opts (initial p opts)
  | step {x : Node n} (e : NodeEvent n) : Reach ok p opts x → ok x e → Reach ok p opts (x.step e)

/-- Any event. -/
def anyEvent (_ : Node n) (_ : NodeEvent n) : Prop := True

instance (x : Node n) (e : NodeEvent n) : Decidable (anyEvent x e) := .isTrue trivial

/-- A run. -/
def run [Externals] (x : Node n) (es : List (NodeEvent n)) : Node n := es.foldl step x

/-- Every event of a run satisfies `ok` where it takes place. -/
def AllEvents [Externals] (ok : Node n → NodeEvent n → Prop) : Node n → List (NodeEvent n) → Prop
  | _, [] => True
  | x, e :: es => ok x e ∧ AllEvents ok (x.step e) es

instance decidableAllEvents [Externals] {ok : Node n → NodeEvent n → Prop}
    [∀ x e, Decidable (ok x e)] :
    ∀ (x : Node n) (es : List (NodeEvent n)), Decidable (AllEvents ok x es)
  | _, [] => .isTrue trivial
  | x, e :: es => @instDecidableAnd _ _ _ (decidableAllEvents (x.step e) es)

theorem Reach.of_allEvents [Externals] {ok : Node n → NodeEvent n → Prop} {p : Fin n}
    {opts : Options} {x : Node n} (h : Reach ok p opts x) (es : List (NodeEvent n))
    (hes : AllEvents ok x es) : Reach ok p opts (x.run es) := by
  induction es generalizing x with
  | nil => exact h
  | cons e es ih => exact ih (h.step e hes.1) hes.2

theorem Reach.of_forall [Externals] {ok : Node n → NodeEvent n → Prop} {p : Fin n} {opts : Options}
    {x : Node n} (h : Reach ok p opts x) (es : List (NodeEvent n)) (hes : ∀ x, ∀ e ∈ es, ok x e) :
    Reach ok p opts (x.run es) := by
  induction es generalizing x with
  | nil => exact h
  | cons e es ih =>
    exact ih (h.step e (hes x e List.mem_cons_self)) fun x e he => hes x e (List.mem_cons_of_mem _ he)

end Node

end NiovaRaft
