import NiovaRaft.Leader.CatchUp
import NiovaRaft.Spec.Writes

/-!
# A leader repairs the log of a follower

An exchange of a leader and a follower: the sender is woken and sends the next request, the request
arrives, and so does the reply.  What the other servers do in between is arbitrary.  Every exchange
is a round of the repair of a log, so that the follower has the log of the leader after a bounded
number of them, none of which kills one of the two.

The follower must not have committed or applied an entry that the leader does not have, and must
share the first entry with it.  The leader must not commit an entry in which the two differ before
the follower has it: a request that the follower finds in its log makes it commit as much of its own
log as the leader has.  What the leader has compacted the follower must have synced, and one entry
more.
-/

namespace NiovaRaft

open Base Base.Handler Base.LogRepair RaftServer

variable {n : Nat} [Externals] {l f : Fin n} {k a : Nat}

/-- The follower `fo` catches up with the leader `ld`, whose slot for it stands at entry `k`.  The
two logs share their first `a` entries at least. -/
structure Repairing (f : Fin n) (a k : Nat) (ld fo : RaftInstance n) : Prop where
  leading : Leading f k ld
  receptive : Receptive ld.store.db.entries a fo
  ne : f ≠ ld.self
  leaderServes : Cluster.serves ld = true
  followerServes : Cluster.serves fo = true
  acceptable : ∀ e ∈ ld.store.db.entries, Acceptable fo.opts e
  stale : fo.logHdr.term ≤ ld.logHdr.term
  bound : fo.store.db.entries <+: ld.store.db.entries ∨ (ld.commitIdx < a ∧ mayCommit ld f < a)
  compacted : ld.lowestIdx ≤ 0 ∨ (ld.lowestIdx < a ∧
    (AgreeTo ld.store.db.entries fo.store.db.entries k ∨ ld.lowestIdx < fo.newestSync.index))
  finished : k = ld.store.db.entries.length → AgreeTo ld.store.db.entries fo.store.db.entries k

/-! ## An exchange -/

namespace Repairing

variable {ld ld₁ ld' fo fo' : RaftInstance n} {e : Entry} {m : AppendEntriesRequestMsg}
  {r : AppendEntriesReplyMsg}

/-- The sender has prepared the slot. -/
theorem sent (h : Repairing f a k ld fo) {rfi : FollowerInfo}
    (hready : SlotReady ld.store.db.entries k (ld.followerInfo f) rfi) :
    Repairing f a k (ld.setFollowerInfo f rfi) fo := by
  have ht := Tallied.setFollowerInfo ld f rfi
  have hmay : mayCommit (ld.setFollowerInfo f rfi) f = mayCommit ld f := by
    refine ht.mayCommit_eq ?_
    rw [RaftInstance.followerInfo_set]
    exact hready.syncedIdx
  refine ⟨h.leading.ready hready, h.receptive, h.ne, h.leaderServes, h.followerServes, h.acceptable,
    h.stale, ?_, h.compacted, h.finished⟩
  rw [hmay]
  exact h.bound

/-- The two go on from another position. -/
theorem next (h : Repairing f a k ld fo) (ht : Tallied f ld ld')
    (ha : Answered ld.store.db.entries k m fo fo' r) (hterm : m.leaderTerm = ld.logHdr.term)
    {a' k' : Nat} (hleading : Leading f k' ld') (hreceptive : Receptive ld.store.db.entries a' fo')
    (hbound : fo'.store.db.entries <+: ld.store.db.entries ∨
      (ld'.commitIdx < a' ∧ mayCommit ld' f < a'))
    (hcompacted : ld.lowestIdx ≤ 0 ∨ (ld.lowestIdx < a' ∧
      (AgreeTo ld.store.db.entries fo'.store.db.entries k' ∨ ld.lowestIdx < fo'.newestSync.index)))
    (hfinished : k' = ld.store.db.entries.length →
      AgreeTo ld.store.db.entries fo'.store.db.entries k') : Repairing f a' k' ld' fo' := by
  have hlowest : ld'.lowestIdx = ld.lowestIdx := by rw [ht.same]
  have hhdr : ld'.logHdr = ld.logHdr := by rw [ht.same]
  have hlog := congrArg (fun st : Store n => st.db.entries) ht.store
  refine ⟨hleading, ?_, ?_, ?_, ?_, ?_, ?_, ?_, ?_, ?_⟩
  · rwa [hlog]
  · rw [ht.self]
    exact h.ne
  · rw [ht.same]
    exact h.leaderServes
  · unfold Cluster.serves
    rw [ha.stays.procState, ha.stays.bulk]
    exact h.followerServes
  · rw [hlog, ha.stays.opts]
    exact h.acceptable
  · rw [ha.term, hhdr, hterm]
  · rwa [hlog]
  · rwa [hlog, hlowest]
  · rwa [hlog]

end Repairing

/-! ## Exchanges in a cluster -/

/-- An exchange: when the sender of the leader is woken, and what the other servers do after the
request was sent, after the reply was sent, and after it has arrived. -/
structure Exchange (n : Nat) where
  clock : SendClock n
  afterRequest : List (Event n)
  afterReply : List (Event n)
  afterAck : List (Event n)

namespace Exchange

/-- Neither of the two is made to do anything else. -/
def Spares (x : Exchange n) (l f : Fin n) : Prop :=
  ∀ e ∈ x.afterRequest ++ x.afterReply ++ x.afterAck, e.server ≠ l ∧ e.server ≠ f

/-- The sender is woken, and what it sends, and what is sent back, arrives. -/
def run (x : Exchange n) (l f : Fin n) (c : Cluster n) : Cluster n :=
  let request := c.net.length
  let c := (c.step ⟨l, .remoteSend x.clock, none, 0⟩).run x.afterRequest
  let reply := c.net.length
  let c := (c.step ⟨f, .deliver request, none, 0⟩).run x.afterReply
  (c.step ⟨l, .deliver reply, none, 0⟩).run x.afterAck

/-- One exchange after the other. -/
def runs (xs : Nat → Exchange n) (l f : Fin n) (c : Cluster n) : Nat → Cluster n
  | 0 => c
  | i + 1 => (xs i).run l f (runs xs l f c i)

end Exchange

namespace Repairing

variable {c : Cluster n}

/-- The request arrives. -/
theorem step_request (h : Repairing f a k (c.servers l) (c.servers f)) {e : Entry}
    {m : AppendEntriesRequestMsg} (hm : RequestFor (c.servers l).store.db.entries k e m)
    (hterm : m.leaderTerm = (c.servers l).logHdr.term) {i : Nat} {cause : Option (RpcMsg n)}
    (hnet : c.net[i]? = some ⟨l, f, .appendEntriesRequest m, cause⟩) :
    ∃ r cause', Answered (c.servers l).store.db.entries k m (c.servers f)
        ((c.step ⟨f, .deliver i, none, 0⟩).servers f) r ∧
      (c.step ⟨f, .deliver i, none, 0⟩).net =
        c.net ++ [⟨f, l, .appendEntriesReply r, cause'⟩] := by
  have hdel := Cluster.delivered_of_getElem? hnet rfl
  have he := h.acceptable e (List.mem_of_getElem? hm.held)
  have hstale : (c.servers f).logHdr.term ≤ m.leaderTerm := by
    rw [hterm]
    exact h.stale
  have hwp : (c.handler ⟨f, .deliver i, none, 0⟩).wp (fun _ s => ∃ r,
      s.out = [(l, .appendEntriesReply r)] ∧
        Answered (c.servers l).store.db.entries k m (c.servers f) s.ri r)
      (fun _ => False) (c.proc ⟨f, .deliver i, none, 0⟩) := by
    rw [Cluster.handler_of_delivered hdel]
    exact wp_processAppendEntriesRequest_of_receptive (s := c.proc _) h.receptive
      h.leading.cons.entries hm he rfl hstale
  obtain ⟨s, ⟨r, hout, ha⟩, hstep⟩ := Cluster.step_of_wp h.followerServes hwp
  refine ⟨r, (c.delivered ⟨f, .deliver i, none, 0⟩).map (·.msg), ?_, ?_⟩
  · rw [hstep, Cluster.commit]
    show Answered _ k m _ (Function.update c.servers f s.ri f) r
    rw [Function.update_self]
    exact ha
  · rw [hstep, Cluster.commit, hout]
    rfl

end Repairing

/-! ## Catching up -/

/-- The follower has the leader's log, and the leader, which is still the leader of its term,
knows. -/
structure CaughtUp (l f : Fin n) (c c' : Cluster n) : Prop where
  leads : (c'.servers l).state = .leader
  follows : (c'.servers f).state = .follower
  term : (c'.servers l).logHdr.term = (c.servers l).logHdr.term
  log : (c'.servers l).store.db.entries = (c.servers l).store.db.entries
  caught : (c.servers l).store.db.entries <+: (c'.servers f).store.db.entries
  nextIdx : ((c'.servers l).followerInfo f).nextIdx = (c.servers l).store.db.entries.length

end NiovaRaft
