import NiovaRaft.Base.Footprint
import NiovaRaft.Model.Cluster
import NiovaRaft.Spec.Apply
import NiovaRaft.Spec.Leader

/-!
# What the handlers write and send

Every handler of a server changes its instance by writes of a few kinds, listed in `Update` with
what the code has checked when it makes them, and sends messages of a few kinds, listed in
`Message` and `BuiltFrom` with what they have to do with the instance.  An invariant of the
instance is one of all handlers when these writes keep it.  What is observed of a server is not
part of the instance.

Three functions have steps of their own.  The requests of a leader come from
`raft_server_append_entry_sender` alone, which writes to nothing but the slots of the peers
(`Sending`), `raft_server_state_machine_apply` alone moves the last-applied record (`Applying`),
and `raft_server_chkpt_thread` alone takes checkpoints and removes the oldest entries
(`Compacting`).  `Act` lists the steps of all other functions.

A killed process leaves its backend and the messages it sent behind, and nothing else.
-/

namespace NiovaRaft

open Base Base.Handler Relation

variable {n : Nat}

/-- The entry that would be stored next. -/
def RaftInstance.nextEntry [Externals] (ri : RaftInstance n) (term : Int) (data : List UInt8)
    (sizes : List Nat) (marker : Bool) : Entry :=
  RaftServer.entryOf ri (ri.newestUnsync.index + 1) term data sizes marker

/-- The instance after an entry was written, and its header cached. -/
def RaftInstance.storeEntry (ri : RaftInstance n) (re : Entry) : RaftInstance n :=
  { ri with
    store := ri.store.put (ri.store.db.write re) ri.doesSynchronousWrites
    newestSync := if ri.doesSynchronousWrites then re.header else ri.newestSync
    newestUnsync := re.header }

/-- The instance after a checkpoint named `idx` was taken. -/
def RaftInstance.withCheckpoint (ri : RaftInstance n) (idx : Int) : RaftInstance n :=
  { ri with
    checkpointLastIdx := idx
    store := ri.store.put { ri.store.db with chkptIdx := idx } true }

/-- The instance after the entries below `idx` were removed. -/
def RaftInstance.reapTo (ri : RaftInstance n) (idx : Int) : RaftInstance n :=
  { ri with lowestIdx := idx, store := ri.store.put (ri.store.db.reap idx.toNat) true }

/-! ## Slots -/

/-- One write to the slot of a peer that is sent to. -/
inductive SlotRefresh (ri : RaftInstance n) (rfi : FollowerInfo) : FollowerInfo → Prop
  /-- The time until which the peer is waited for. -/
  | wait (until' : Nat) : SlotRefresh ri rfi { rfi with aeSendsWaitUntil := until' }
  /-- Nothing comes before the first entry. -/
  | first (h : rfi.nextIdx = 0) :
      SlotRefresh ri rfi { rfi with prevIdxTerm := 0, currentIdxTerm := -1 }
  /-- The entry before the next index was read. -/
  | prevRead (re : Entry) (hpos : 0 < rfi.nextIdx) (hprev : rfi.prevIdxTerm < 0)
      (hlow : ri.lowestIdx ≤ rfi.nextIdx - 1) (hle : rfi.nextIdx - 1 ≤ ri.newestUnsync.index)
      (hre : ri.store.db.entries[(rfi.nextIdx - 1).toNat]? = some re) :
      SlotRefresh ri rfi { rfi with prevIdxTerm := re.header.term, prevIdxCrc := re.header.crc }
  /-- The entry before the next index could not be read. -/
  | prevFailed (rc : Errno) (hprev : rfi.prevIdxTerm < 0)
      (herr : RaftServer.ReadFails ri (rfi.nextIdx - 1) rc) :
      SlotRefresh ri rfi { rfi with prevIdxTerm := 0, prevIdxCrc := 0 }
  /-- The entry at the next index was read. -/
  | currentRead (re : Entry) (hlow : ri.lowestIdx ≤ rfi.nextIdx)
      (hle : rfi.nextIdx ≤ ri.newestUnsync.index)
      (hre : ri.store.db.entries[rfi.nextIdx.toNat]? = some re) :
      SlotRefresh ri rfi
        { rfi with currentIdxTerm := re.header.term, currentIdxCrc := re.header.crc }
  /-- The entry at the next index could not be read. -/
  | currentFailed (hle : rfi.nextIdx ≤ ri.newestUnsync.index) :
      SlotRefresh ri rfi { rfi with currentIdxTerm := -1, currentIdxCrc := 0 }

/-- A reply of `q` that a leader takes as one to its last request: it is not stale, and the index
matches. -/
structure RepliesTo (cause : Option (Packet n)) (ri : RaftInstance n) (q : Fin n)
    (m : AppendEntriesReplyMsg) : Prop where
  cause : ∃ pkt, cause = some pkt ∧ pkt.src = q ∧ pkt.msg = .appendEntriesReply m
  stale : m.errStaleTerm = false
  prev : m.prevLogIndex + 1 = (ri.followerInfo q).nextIdx

/-- One write to the slot of `q`. -/
inductive SlotUpdate (cause : Option (Packet n)) (ri : RaftInstance n) (q : Fin n) :
    FollowerInfo → Prop
  /-- A leader's own slot follows what it has synced. -/
  | self (h : q = ri.self) :
      SlotUpdate cause ri q (RaftServer.selfFollowerInfo ri.newestSync (ri.followerInfo q))
  /-- A synced index of the peer is accepted. -/
  | accept (sli : Int) :
      SlotUpdate cause ri q (RaftServer.FollowerInfo.accept (ri.followerInfo q) sli)
  /-- The peer's log begins past the leader's oldest entry. -/
  | updateSli (m : AppendEntriesReplyMsg) (h : RepliesTo cause ri q m) (hsli : m.updateSli = true) :
      SlotUpdate cause ri q
        (RaftServer.FollowerInfo.updateSli (ri.followerInfo q) m.syncedLogIndex)
  /-- The peer does not hold the entry before the next index. -/
  | rewind (m : AppendEntriesReplyMsg) (h : RepliesTo cause ri q m) :
      SlotUpdate cause ri q (RaftServer.FollowerInfo.rewind (ri.followerInfo q) m)
  /-- The peer took the request. -/
  | advance (m : AppendEntriesReplyMsg) (h : RepliesTo cause ri q m) (hsli : m.updateSli = false)
      (hprev : m.errNonMatchingPrevTerm = false) :
      SlotUpdate cause ri q (RaftServer.FollowerInfo.advance (ri.followerInfo q) m)

/-! ## The instance -/

/-- Where a new commit index comes from: a leader's own count, from the index on at which its
term began, or the request of a leader. -/
inductive CommitSource (cause : Option (Packet n)) (ri : RaftInstance n) (idx : Int) : Prop
  | leader (hlead : ri.state = .leader) (hinit : ri.leader.initialTermIdx ≤ idx)
      (hmaj : idx = RaftServer.committedIdx ri)
  | request (pkt : Packet n) (m : AppendEntriesRequestMsg) (hcause : cause = some pkt)
      (hmsg : pkt.msg = .appendEntriesRequest m)
      (hidx : idx = m.commitIndex ∨ idx = min m.commitIndex ri.newestSync.index)
      (hlead : pkt.src ≠ ri.self → ri.state = .leader → ri.logHdr.term = m.leaderTerm)

/-- One write of a handler that handles `cause`. -/
inductive Update [Externals] (cause : Option (Packet n)) (ri : RaftInstance n) :
    RaftInstance n → Prop
  /-- The role changes, but not to that of a leader. -/
  | role (state : RaftState) (reason : FollowerReason) (csn : Option (Fin n))
      (cand : CandidateState n) (h : state ≠ .leader ∨ state = ri.state) :
      Update cause ri { ri with
        state := state, followerReason := reason, csnLeader := csn, candidate := cand }
  /-- `raft_server_leader_init_state`. -/
  | lead (h : ri.newestSync = ri.newestUnsync)
      (hcause : ∃ pkt m, cause = some pkt ∧ pkt.msg = .voteReply m) :
      Update cause ri { ri with
        state := .leader
        leader := ⟨ri.newestSync.index, ri.logHdr.term,
          fun _ => RaftServer.followerInfoInit ri.newestSync⟩ }
  /-- A slot changes. -/
  | slot (q : Fin n) (rfi : FollowerInfo) (h : SlotUpdate cause ri q rfi) :
      Update cause ri (ri.setFollowerInfo q rfi)
  /-- A bulk recovery is needed. -/
  | recovery (handle : RecoveryHandle n) :
      Update cause ri { ri with needsBulkRecovery := true, recoveryHandle := handle }
  /-- A newer term is persisted. -/
  | header (cand : Option (Fin n)) (term : Int) (h : ri.logHdr.term < term)
      (hstate : ri.state ≠ .leader) :
      Update cause ri (ri.withHeader ⟨term, cand, ri.logHdr.seqno + 1⟩)
  /-- The backend is synced. -/
  | flush : Update cause ri { ri with store := ri.store.flush }
  /-- The newest entry is known to be synced. -/
  | synced (h : ri.store.recoverable = [ri.store.db]) :
      Update cause ri { ri with
        newestSync := RaftServer.updateHdr false ri.newestUnsync ri.newestSync }
  /-- What was applied is known to be synced. -/
  | appliedSynced (h : ri.store.recoverable = [ri.store.db]) :
      Update cause ri { ri with lastApplied :=
        { ri.lastApplied with syncedIdx := max ri.lastApplied.syncedIdx ri.lastApplied.idx } }
  /-- The next entry is stored. -/
  | entry (term : Int) (data : List UInt8) (sizes : List Nat) (marker : Bool)
      (hterm : ri.newestUnsync.term ≤ term) (hidx : 0 ≤ ri.newestUnsync.index + 1)
      (hsizes : marker = true ∨ sizes.length ≠ 0) (hfits : sizes.sum ≤ ri.entryMaxDataSize) :
      Update cause ri (ri.storeEntry (ri.nextEntry term data sizes marker))
  /-- A stored entry becomes the newest one, to be pruned to. -/
  | newest (re : Entry) (hcommit : ri.commitIdx ≤ re.header.index)
      (happlied : ri.lastApplied.idx ≤ re.header.index)
      (hread : ri.store.db.entries[re.header.index.toNat]? = some re)
      (hstate : ri.state = .follower) :
      Update cause ri { ri with newestSync := re.header, newestUnsync := re.header }
  /-- What is past the newest synced entry is removed. -/
  | truncate (hidx : -1 ≤ ri.newestSync.index) (hcommit : ri.commitIdx ≤ ri.newestSync.index)
      (happlied : ri.lastApplied.idx ≤ ri.newestSync.index)
      (hnewest : ri.newestUnsync.index ≤ ri.newestSync.index) (hstate : ri.state = .follower) :
      Update cause ri { ri with
        store := ri.store.put (ri.store.db.truncate (ri.newestSync.index + 1).toNat) true }
  /-- The commit index is raised. -/
  | commit (idx : Int) (hlt : ri.commitIdx < idx) (hsync : idx ≤ ri.newestSync.index)
      (hsrc : CommitSource cause ri idx) : Update cause ri { ri with commitIdx := idx }

/-! ## Messages -/

/-- The entry that a request carries. -/
structure CarriesEntry (m : AppendEntriesRequestMsg) (re : Entry) : Prop where
  entriesSz : m.entriesSz = re.header.dataSize
  marker : m.leaderChangeMarker = re.header.leaderChangeMarker
  numEntries : m.numEntries = re.header.numEntries
  sizeArr : m.sizeArr = re.header.entrySz
  entries : m.entries = if re.header.dataSize = 0 then [] else re.data.take re.header.dataSize

/-- A slot that was refreshed: the term before the next index is known, and the header at the next
index is that of the leader's entry. -/
structure Refreshed (ri : RaftInstance n) (rfi : FollowerInfo) : Prop where
  prev : 0 ≤ rfi.prevIdxTerm
  first : rfi.nextIdx = 0 → rfi.prevIdxTerm = 0
  held : rfi.nextIdx ≤ ri.newestUnsync.index →
    ri.lowestIdx ≤ rfi.nextIdx ∧ ∃ re, ri.store.db.entries[rfi.nextIdx.toNat]? = some re ∧
      re.header.term = rfi.currentIdxTerm ∧ re.header.crc = rfi.currentIdxCrc

/-- A request that a leader prepared from the slot `rfi`. -/
structure PreparedFrom (ri : RaftInstance n) (rfi : FollowerInfo) (m : AppendEntriesRequestMsg) :
    Prop where
  leaderTerm : m.leaderTerm = ri.logHdr.term
  commitIndex : m.commitIndex = ri.commitIdx
  lowestIndex : m.lowestIndex = ri.lowestIdx
  prevLogIndex : m.prevLogIndex = rfi.nextIdx - 1
  nonneg : 0 ≤ rfi.nextIdx
  refreshed : m.entryOutOfRange = false → Refreshed ri rfi
  prev : m.entryOutOfRange = false →
    m.prevLogTerm = rfi.prevIdxTerm ∧ m.prevIdxCrc = rfi.prevIdxCrc
  next : m.entryOutOfRange = false →
    m.logTerm = rfi.currentIdxTerm ∧ m.thisIdxCrc = rfi.currentIdxCrc

/-- A request as it is sent: with the leader's entry, or as a heartbeat. -/
structure BuiltFrom (ri : RaftInstance n) (rfi : FollowerInfo) (m : AppendEntriesRequestMsg) :
    Prop extends PreparedFrom ri rfi m where
  within : rfi.nextIdx - 1 ≤ ri.newestUnsync.index
  carried : m.heartbeatMsg = false → m.entryOutOfRange = false ∧
    rfi.nextIdx ≤ ri.newestUnsync.index ∧
    ∃ re, ri.store.db.entries[rfi.nextIdx.toNat]? = some re ∧ CarriesEntry m re

/-- A pre-vote, asked for or answered. -/
def RpcMsg.isPreVote : RpcMsg n → Bool
  | .preVoteRequest _ => true
  | .preVoteReply _ => true
  | _ => false

/-- A message that is no request of a leader. -/
inductive Message (cause : Option (Packet n)) (ri : RaftInstance n) : Fin n × RpcMsg n → Prop
  | preVoteRequest (dst : Fin n) (m : VoteRequestMsg) : Message cause ri (dst, .preVoteRequest m)
  | preVoteReply (dst : Fin n) (m : VoteReplyMsg n) : Message cause ri (dst, .preVoteReply m)
  | voteRequest (dst : Fin n) (m : VoteRequestMsg) : Message cause ri (dst, .voteRequest m)
  | voteReply (dst : Fin n) (m : VoteReplyMsg n) : Message cause ri (dst, .voteReply m)
  /-- The answer to a request. -/
  | reply (pkt : Packet n) (m : AppendEntriesRequestMsg) (hcause : cause = some pkt)
      (hmsg : pkt.msg = .appendEntriesRequest m) (staleTerm nonMatching updateSli : Bool)
      (rc : Except Errno Unit)
      (hterm : pkt.src ≠ ri.self → staleTerm = false → ri.logHdr.term ≤ m.leaderTerm) :
      Message cause ri (pkt.src, .appendEntriesReply
        (RaftServer.processAppendEntriesRequestPrepReply ri m staleTerm nonMatching updateSli rc))
  | syncIdxUpdate (dst : Fin n) :
      Message cause ri (dst, .syncIdxUpdate ⟨ri.newestSync.index, ri.newestSync.term⟩)

/-! ## Handlers -/

/-- What of a process may change: its instance and the messages it sent. -/
abbrev Visible (n : Nat) : Type := RaftInstance n × List (Fin n × RpcMsg n)

/-- What is visible of a process. -/
def Proc.visible (s : Proc n) : Visible n := (s.ri, s.out)

/-- One write, or messages that are sent. -/
inductive Act [Externals] (cause : Option (Packet n)) : Visible n → Visible n → Prop
  | write {ri ri' : RaftInstance n} {out : List (Fin n × RpcMsg n)} (h : Update cause ri ri') :
      Act cause (ri, out) (ri', out)
  | send {ri : RaftInstance n} {out : List (Fin n × RpcMsg n)} (ms : List (Fin n × RpcMsg n))
      (h : ∀ m ∈ ms, Message cause ri m) : Act cause (ri, out) (ri, out ++ ms)

/-- One step of a leader that sends requests. -/
inductive Sending : Visible n → Visible n → Prop
  | slot {ri : RaftInstance n} {out : List (Fin n × RpcMsg n)} (q : Fin n) (rfi : FollowerInfo)
      (hne : q ≠ ri.self) (h : SlotRefresh ri (ri.followerInfo q) rfi) :
      Sending (ri, out) (ri.setFollowerInfo q rfi, out)
  | request {ri : RaftInstance n} {out : List (Fin n × RpcMsg n)} (q : Fin n)
      (m : AppendEntriesRequestMsg) (hlead : ri.state = .leader) (hne : q ≠ ri.self)
      (h : BuiltFrom ri (ri.followerInfo q) m) :
      Sending (ri, out) (ri, out ++ [(q, .appendEntriesRequest m)])

/-- One step of an apply: a sub-entry of a committed entry is applied, and the record of it
written. -/
inductive Applying : Visible n → Visible n → Prop
  | record {ri : RaftInstance n} {out : List (Fin n × RpcMsg n)} (la : LastApplied)
      (batch : Option AppBatch) (hidx : ri.lastApplied.idx ≤ la.idx)
      (hcommit : la.idx ≤ ri.commitIdx) (hsub : la.subIdx ≤ la.subIdxMax)
      (hsynced : la.syncedIdx = ri.lastApplied.syncedIdx) :
      Applying (ri, out) (ri.recordApplied la batch, out)

/-- One step of the checkpoint thread. -/
inductive Compacting : Visible n → Visible n → Prop
  /-- A checkpoint is taken. -/
  | checkpoint {ri : RaftInstance n} {out : List (Fin n × RpcMsg n)}
      (h : 0 ≤ ri.lastApplied.syncedIdx)
      (hge : ri.checkpointLastIdx ≤ ri.lastApplied.syncedIdx) :
      Compacting (ri, out) (ri.withCheckpoint ri.lastApplied.syncedIdx, out)
  /-- The oldest entries are removed. -/
  | reap {ri : RaftInstance n} {out : List (Fin n × RpcMsg n)} (keep : Int) (hkeep : 500 ≤ keep)
      (hlow : ri.lowestIdx < ri.lastApplied.syncedIdx - keep) :
      Compacting (ri, out) (ri.reapTo (ri.lastApplied.syncedIdx - keep), out)

/-- What a process that dies in `d` leaves behind is that of `ri`. -/
structure Survives (ri d : RaftInstance n) : Prop where
  self : d.self = ri.self
  opts : d.opts = ri.opts
  store : d.store = ri.store

theorem Survives.refl (ri : RaftInstance n) : Survives ri ri := ⟨rfl, rfl, rfl⟩

/-- The same, with the messages it sent. -/
structure LeftBehind (v d : Visible n) : Prop where
  ri : Survives v.1 d.1
  out : d.2 = v.2

theorem LeftBehind.refl (v : Visible n) : LeftBehind v v := ⟨.refl _, rfl⟩

/-- Started in `s`, the function takes the steps of `Act` and no others. -/
abbrev Writes [Externals] {α : Type} (cause : Option (Packet n)) (m : Server n α) (s : Proc n) :
    Prop :=
  m.Within Proc.visible (Act cause) LeftBehind s

/-- Started in `s`, the function takes the steps of `Applying` and no others. -/
abbrev Applies {α : Type} (m : Server n α) (s : Proc n) : Prop :=
  m.Within Proc.visible Applying LeftBehind s

/-- Started in `s`, the function takes the steps of `Compacting` and no others. -/
abbrev Compacts {α : Type} (m : Server n α) (s : Proc n) : Prop :=
  m.Within Proc.visible Compacting LeftBehind s

/-- Started in `s`, the function takes the steps of `Sending` and no others. -/
abbrev Sends {α : Type} (m : Server n α) (s : Proc n) : Prop :=
  m.Within Proc.visible Sending LeftBehind s

end NiovaRaft
