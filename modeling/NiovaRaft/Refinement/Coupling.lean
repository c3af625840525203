import NiovaRaft.Base.LeaderCompleteness
import NiovaRaft.Model.Cluster
import NiovaRaft.Spec.AppendEntries

/-!
# The servers as peers of a replicated log

How an instance of a server, a message and an observation relate to a world of
`Base.Replication`.  Three groups of facts tie an instance to its peer:

* `StoreOk` is about the backend alone.  It holds at every point of a handler, so it is what a
  killed process leaves behind.
* `Stored` adds the copies in memory: the log header, the cached headers, the commit index and
  the last-applied record.
* `Role` is about the state of the server and what it keeps as a candidate or as a leader.

A running server has the last two between its handlers.  Messages and observations only speak
about the history of the world, which grows, so that they hold from then on.

The facts that depend on a rule of the world are stated under that rule.
-/

namespace NiovaRaft

open Base.Replication

instance : Termed EntryCore := ⟨EntryCore.term⟩

@[simp] theorem term_entryCore (e : EntryCore) : term e = e.term := rfl

/-- The worlds of a cluster: peers are servers, and entries what servers agree on. -/
abbrev ClusterWorld (n : Nat) := World (Fin n) EntryCore

namespace Refinement

variable {n : Nat}

/-! ## The backend -/

/-- The last-applied record a process starts with on `d`. -/
def appliedOf (opts : Options) (d : Db n) : LastApplied :=
  if opts.storeType = .rocksdbPersistentApp then d.lastApplied.getD LastApplied.initial
  else LastApplied.initial

/-- A crash may leave `d` behind of the contents `db`, of which `m` entries are synced. -/
structure Kept (opts : Options) (db : Db n) (m : Nat) (d : Db n) : Prop where
  hdr : d.hdr = db.hdr
  reaped : d.reaped = db.reaped
  entries : d.entries <+: db.entries
  synced : m ≤ d.entries.length
  applied : (appliedOf opts d).idx < m
  appliedSynced : (appliedOf opts d).syncedIdx ≤ (appliedOf opts d).idx
  reapedApplied : (d.reaped : Int) ≤ max 0 (appliedOf opts d).idx

/-- The backend holds the log and the term of the peer. -/
structure StoreOk (w : ClusterWorld n) (p : Fin n) (opts : Options) (st : Store n) : Prop where
  log : (w.peer p).log = st.db.entries.map Entry.core
  entries : EntriesOk opts.storeType.entryMaxDataSize st.db.entries
  term : st.db.hdr.term = (w.peer p).cur
  nonneg : 0 ≤ (w.peer p).cur
  mem : st.db ∈ st.recoverable
  kept : ∀ d ∈ st.recoverable, Kept opts st.db (w.peer p).synced d

namespace StoreOk

variable {w : ClusterWorld n} {p : Fin n} {opts : Options} {st : Store n}

theorem length (h : StoreOk w p opts st) : (w.peer p).log.length = st.db.entries.length := by
  rw [h.log, List.length_map]

theorem synced_le (h : StoreOk w p opts st) : (w.peer p).synced ≤ st.db.entries.length :=
  (h.kept _ h.mem).synced

/-- An entry of the store is one of the log. -/
theorem getElem (h : StoreOk w p opts st) {i : Nat} {re : Entry}
    (hre : st.db.entries[i]? = some re) : (w.peer p).log[i]? = some re.core := by
  rw [h.log, List.getElem?_map, hre, Option.map_some]

end StoreOk

/-! ## The instance -/

/-- The memory of a running server agrees with its backend and with its peer. -/
structure Stored (w : ClusterWorld n) (p : Fin n) (ri : RaftInstance n) : Prop where
  self : ri.self = p
  running : ri.procState = .running
  store : StoreOk w p ri.opts ri.store
  cons : Consistent ri
  sync : ri.newestSync = lastHeader (ri.store.db.entries.take (w.peer p).synced)
  hdr : ri.logHdr = ri.store.db.hdr
  commit : ri.commitIdx = (w.peer p).commit - 1
  applied : ri.lastApplied.idx < (w.peer p).synced
  persisted : ri.opts.storeType = .rocksdbPersistentApp →
    (appliedOf ri.opts ri.store.db).idx = ri.lastApplied.idx ∧
      ∀ d ∈ ri.store.recoverable, ri.lastApplied.syncedIdx ≤ (appliedOf ri.opts d).idx ∧
        (appliedOf ri.opts d).idx ≤ ri.lastApplied.idx

/-- The term of the last entry, at both levels. -/
theorem lastHeader_term (l : List Entry) : (lastHeader l).term = lastTerm (l.map Entry.core) := by
  unfold lastHeader lastTerm
  rw [List.getLast?_map]
  cases l.getLast? <;> rfl

namespace Stored

variable {w : ClusterWorld n} {p : Fin n} {ri : RaftInstance n}

theorem term (h : Stored w p ri) : ri.logHdr.term = (w.peer p).cur := by
  rw [h.hdr, h.store.term]

theorem sync_index (h : Stored w p ri) : ri.newestSync.index = (w.peer p).synced - 1 := by
  rw [h.sync, h.cons.entries.lastHeader_take_index h.store.synced_le]

theorem unsync_index (h : Stored w p ri) : ri.newestUnsync.index = (w.peer p).log.length - 1 := by
  rw [h.cons.unsync_index, h.store.length]

theorem unsync_term (h : Stored w p ri) : ri.newestUnsync.term = lastTerm (w.peer p).log := by
  rw [h.cons.unsync, lastHeader_term, h.store.log]

/-- A synced index is one of the log. -/
theorem lt_log_length (h : Stored w p ri) {idx : Int} (hi : idx ≤ ri.newestSync.index) :
    idx < ri.log.length := by
  have hlen : ri.log.length = ri.store.db.entries.length := List.length_map _
  have hle := h.store.synced_le
  have hs := h.sync_index
  omega

/-- When the two headers are the same, everything is synced. -/
theorem synced_eq (h : Stored w p ri) (heq : ri.newestSync = ri.newestUnsync) :
    (w.peer p).synced = (w.peer p).log.length := by
  have h1 := h.sync_index
  have h2 := h.unsync_index
  rw [heq] at h1
  omega

/-- The fields that play no part. -/
theorem reroll (h : Stored w p ri) {state : RaftState} {reason : FollowerReason}
    {csn : Option (Fin n)} {cand : CandidateState n} {ls : LeaderState n} {chkpt : Int}
    {needs : Bool} {handle : RecoveryHandle n} :
    Stored w p { ri with
      state := state, followerReason := reason, csnLeader := csn, candidate := cand, leader := ls,
      checkpointLastIdx := chkpt, needsBulkRecovery := needs, recoveryHandle := handle } where
  self := h.self
  running := h.running
  store := h.store
  cons := ⟨h.cons.entries, h.cons.unsync, h.cons.sync, h.cons.reaped, h.cons.applied⟩
  sync := h.sync
  hdr := h.hdr
  commit := h.commit
  applied := h.applied
  persisted := h.persisted

end Stored

theorem StoreOk.reflag {w w' : ClusterWorld n} {p : Fin n} {opts : Options} {st : Store n}
    {standing leading : Bool} (h : StoreOk w p opts st)
    (hp : w'.peer p = { w.peer p with standing := standing, leading := leading }) :
    StoreOk w' p opts st where
  log := by rw [hp]; exact h.log
  entries := h.entries
  term := by rw [hp]; exact h.term
  nonneg := by rw [hp]; exact h.nonneg
  mem := h.mem
  kept := by rw [hp]; exact h.kept

/-- The role of the peer plays no part. -/
theorem Stored.reflag {w w' : ClusterWorld n} {p : Fin n} {ri : RaftInstance n}
    {standing leading : Bool} (h : Stored w p ri)
    (hp : w'.peer p = { w.peer p with standing := standing, leading := leading }) :
    Stored w' p ri where
  self := h.self
  running := h.running
  store := h.store.reflag hp
  cons := h.cons
  sync := by rw [hp]; exact h.sync
  hdr := h.hdr
  commit := by rw [hp]; exact h.commit
  applied := by rw [hp]; exact h.applied
  persisted := h.persisted

/-- Only the peer itself matters. -/
theorem StoreOk.congr {w w' : ClusterWorld n} {p : Fin n} {opts : Options} {st : Store n}
    (h : StoreOk w p opts st) (hp : w'.peer p = w.peer p) : StoreOk w' p opts st :=
  h.reflag hp

theorem Stored.congr {w w' : ClusterWorld n} {p : Fin n} {ri : RaftInstance n}
    (h : Stored w p ri) (hp : w'.peer p = w.peer p) : Stored w' p ri :=
  h.reflag hp

/-- A slot caches the term before the next index of an entry that is not compacted, and the
synced index was acknowledged. -/
structure SlotOk (R : Rules) (w : ClusterWorld n) (p q : Fin n) (lowestIdx : Int)
    (rfi : FollowerInfo) : Prop where
  prev : 0 ≤ rfi.prevIdxTerm → 0 < rfi.nextIdx → lowestIdx ≤ rfi.nextIdx - 1 →
    ∃ e, (w.peer p).log[(rfi.nextIdx - 1).toNat]? = some e ∧ e.term = rfi.prevIdxTerm
  synced : R.acked → 0 ≤ rfi.syncedIdx →
    ∃ m : Nat, rfi.syncedIdx + 1 ≤ m ∧ (q, (w.peer p).cur, m) ∈ w.acks

/-- What a leader keeps. -/
structure LeaderOk (R : Rules) (w : ClusterWorld n) (p : Fin n) (lowestIdx : Int)
    (ls : LeaderState n) : Prop where
  init : ∃ l, w.stood p (w.peer p).cur = some l ∧ ls.initialTermIdx = l.length - 1
  slots : ∀ q, SlotOk R w p q lowestIdx (ls.rfi q)

/-- What a candidate keeps: the votes it counts were cast in its term. -/
structure CandidateOk (R : Rules) (w : ClusterWorld n) (p : Fin n) (cs : CandidateState n) :
    Prop where
  term : cs.term = (w.peer p).cur
  votes : R.counted → ∀ q, cs.results q = .voteYes →
    ∃ l, ⟨q, (w.peer p).cur, p, l⟩ ∈ w.ballots

/-- The state of a server, and what goes with it. -/
structure Role (R : Rules) (w : ClusterWorld n) (p : Fin n) (ri : RaftInstance n) : Prop where
  state : ri.state ≠ .none ∧ ri.state ≠ .client
  leads : ri.state = .leader ↔ (w.peer p).leading = true
  stands : ri.state = .candidate ↔ (w.peer p).standing = true
  csn : ∀ x, ri.csnLeader = some x → (w.peer p).cur ≤ (w.peer x).cur
  candidate : ri.state = .candidate → CandidateOk R w p ri.candidate
  leader : ri.state = .leader → LeaderOk R w p ri.lowestIdx ri.leader

/-- A running server between its handlers. -/
structure Ok (R : Rules) (w : ClusterWorld n) (p : Fin n) (ri : RaftInstance n) : Prop where
  stored : Stored w p ri
  role : Role R w p ri

section Mono

variable {R : Rules} {w w' : ClusterWorld n} {p q : Fin n}

/-- A log that grew still has its entries. -/
theorem getElem_of_isPrefix {l l' : List EntryCore} (h : l <+: l') {i : Nat} {e : EntryCore}
    (he : l[i]? = some e) : l'[i]? = some e := by
  obtain ⟨s, rfl⟩ := h
  rw [List.getElem?_append_left (List.getElem?_eq_some_iff.mp he).1, he]

theorem SlotOk.mono {low low' : Int} {rfi : FollowerInfo} (h : SlotOk R w p q low rfi)
    (hx : Extends w w') (hcur : (w'.peer p).cur = (w.peer p).cur)
    (hlog : (w.peer p).log <+: (w'.peer p).log) (hlow : low ≤ low') :
    SlotOk R w' p q low' rfi where
  prev := by
    intro h1 h2 h3
    obtain ⟨e, he, ht⟩ := h.prev h1 h2 (le_trans hlow h3)
    exact ⟨e, getElem_of_isPrefix hlog he, ht⟩
  synced := by
    intro hR h0
    obtain ⟨m, hm, ha⟩ := h.synced hR h0
    exact ⟨m, hm, by rw [hcur]; exact hx.acks ha⟩

theorem LeaderOk.mono {low low' : Int} {ls : LeaderState n} (h : LeaderOk R w p low ls)
    (hx : Extends w w') (hcur : (w'.peer p).cur = (w.peer p).cur)
    (hlog : (w.peer p).log <+: (w'.peer p).log) (hlow : low ≤ low') :
    LeaderOk R w' p low' ls where
  init := by
    obtain ⟨l, hl, hi⟩ := h.init
    exact ⟨l, by rw [hcur]; exact hx.stood hl, hi⟩
  slots := fun q => (h.slots q).mono hx hcur hlog hlow

theorem CandidateOk.mono {cs : CandidateState n} (h : CandidateOk R w p cs) (hx : Extends w w')
    (hcur : (w'.peer p).cur = (w.peer p).cur) : CandidateOk R w' p cs where
  term := by rw [hcur, h.term]
  votes := by
    intro hR q hq
    obtain ⟨l, hl⟩ := h.votes hR q hq
    exact ⟨l, by rw [hcur]; exact hx.ballots hl⟩

/-- The role survives what does not change the peer's term and standing, as long as a leader
only appends to its log. -/
theorem Role.mono {ri ri' : RaftInstance n} (h : Role R w p ri) (hx : Extends w w')
    (hcur : (w'.peer p).cur = (w.peer p).cur)
    (hlead : (w'.peer p).leading = (w.peer p).leading)
    (hstand : (w'.peer p).standing = (w.peer p).standing)
    (hlog : (w.peer p).leading = true → (w.peer p).log <+: (w'.peer p).log)
    (hstate : ri'.state = ri.state) (hcsn : ri'.csnLeader = ri.csnLeader)
    (hcand : ri'.candidate = ri.candidate) (hls : ri'.leader = ri.leader)
    (hlow : ri.lowestIdx ≤ ri'.lowestIdx) : Role R w' p ri' where
  state := by rw [hstate]; exact h.state
  leads := by rw [hstate, hlead]; exact h.leads
  stands := by rw [hstate, hstand]; exact h.stands
  csn := by
    intro x hcx
    rw [hcsn] at hcx
    rw [hcur]
    exact le_trans (h.csn x hcx) (hx.cur x)
  candidate := by
    intro hs
    rw [hstate] at hs
    rw [hcand]
    exact (h.candidate hs).mono hx hcur
  leader := by
    intro hs
    rw [hstate] at hs
    rw [hls]
    exact (h.leader hs).mono hx hcur (hlog (h.leads.mp hs)) hlow

/-- A server that neither leads nor stands keeps nothing. -/
theorem Role.passive {ri : RaftInstance n}
    (hstate : ri.state = .follower ∨ ri.state = .candidatePrevote)
    (hlead : (w.peer p).leading = false) (hstand : (w.peer p).standing = false)
    (hcsn : ∀ x, ri.csnLeader = some x → (w.peer p).cur ≤ (w.peer x).cur) : Role R w p ri := by
  constructor
  · rcases hstate with h | h <;> simp [h]
  · rcases hstate with h | h <;> simp [h, hlead]
  · rcases hstate with h | h <;> simp [h, hstand]
  · exact hcsn
  · rcases hstate with h | h <;> simp [h]
  · rcases hstate with h | h <;> simp [h]

/-- Steps of another peer leave a server as it is. -/
theorem Ok.frame {ri : RaftInstance n} (h : Ok R w q ri) (hs : Steps R p w w') (hq : q ≠ p) :
    Ok R w' q ri := by
  have hp := hs.peer_ne hq
  refine ⟨h.stored.congr hp, h.role.mono hs.extends ?_ ?_ ?_ ?_ rfl rfl rfl rfl (le_refl _)⟩
  · rw [hp]
  · rw [hp]
  · rw [hp]
  · rw [hp]
    exact fun _ => List.prefix_refl _

end Mono

/-! ## Messages -/

/-- A request for votes names the log its sender stood with. -/
def VoteRequestOk (w : ClusterWorld n) (src : Fin n) (m : VoteRequestMsg) : Prop :=
  ∃ l, w.stood src m.proposedTerm = some l ∧ lastTerm l = m.lastLogTerm ∧
    (l.length : Int) = m.lastLogIndex + 1

/-- A granted vote is a ballot in the term of the request it answers.  A leader that is named
has at least the term of the reply. -/
structure VoteReplyOk (w : ClusterWorld n) (src dst : Fin n) (cause : Option (RpcMsg n))
    (m : VoteReplyMsg n) : Prop where
  granted : m.votedGranted = true → ∃ m', cause = some (.voteRequest m') ∧
    ∃ l, ⟨src, m'.proposedTerm, dst, l⟩ ∈ w.ballots
  leader : ∀ x, m.currentLeader = some x → m.term ≤ (w.peer x).cur

/-- The message holds the entry `e`. -/
structure Carries (m : AppendEntriesRequestMsg) (e : EntryCore) : Prop where
  term : e.term = m.logTerm
  entrySz : e.entrySz = m.sizeArr
  numEntries : e.numEntries = m.numEntries
  count : m.numEntries = m.sizeArr.length
  narrow : m.numEntries < 256
  marker : e.leaderChangeMarker = m.leaderChangeMarker
  empty : m.leaderChangeMarker = true → m.sizeArr.sum = 0
  data : e.data = m.entries
  length : m.entries.length = m.sizeArr.sum

/-- What a request to append says about its sender's log. -/
structure AeRequestOk (R : Rules) (w : ClusterWorld n) (src : Fin n)
    (m : AppendEntriesRequestMsg) : Prop where
  led : w.led src m.leaderTerm
  prev : m.entryOutOfRange = false → m.lowestIndex ≤ m.prevLogIndex → 0 ≤ m.prevLogIndex →
    ∃ e, (w.llog src m.leaderTerm)[m.prevLogIndex.toNat]? = some e ∧ e.term = m.prevLogTerm
  carried : m.heartbeatMsg = false →
    ∃ e, (w.llog src m.leaderTerm)[(m.prevLogIndex + 1).toNat]? = some e ∧ Carries m e
  next : R.acked → 0 < m.logTerm →
    (∃ e, (w.llog src m.leaderTerm)[(m.prevLogIndex + 1).toNat]? = some e ∧ e.term = m.logTerm) ∨
      (m.logTerm = m.leaderTerm ∧ m.commitIndex ≤ m.prevLogIndex ∧
        ∃ l, w.stood src m.leaderTerm = some l ∧ (l.length : Int) ≤ m.prevLogIndex + 1)
  commit : R.covered → 0 ≤ m.commitIndex →
    ∃ q t, ∃ k : Nat, (q, t, k) ∈ w.commits ∧ t ≤ m.leaderTerm ∧ m.commitIndex + 1 ≤ k

/-- A clean reply acknowledges the synced index it names. -/
structure AeReplyOk (R : Rules) (w : ClusterWorld n) (src : Fin n) (m : AppendEntriesReplyMsg) :
    Prop where
  term : m.leaderTerm ≤ (w.peer src).cur
  acked : R.acked → Clean m → 0 ≤ m.syncedLogIndex →
    ∃ k : Nat, m.syncedLogIndex + 1 ≤ k ∧ (src, m.leaderTerm, k) ∈ w.acks

/-- A synced index is acknowledged in the term of the entry there, or that term is over at the
receiver. -/
def SyncIdxUpdateOk (R : Rules) (w : ClusterWorld n) (src dst : Fin n) (m : SyncIdxUpdateMsg) :
    Prop :=
  R.acked → 0 ≤ m.syncedLogIndex →
    (∃ k : Nat, m.syncedLogIndex + 1 ≤ k ∧ (src, m.term, k) ∈ w.acks) ∨
      m.term < (w.peer dst).cur

/-- A message in the network, by its kind. -/
def MsgOk (R : Rules) (w : ClusterWorld n) (src dst : Fin n) (cause : Option (RpcMsg n)) :
    RpcMsg n → Prop
  | .preVoteRequest _ => True
  | .preVoteReply _ => True
  | .voteRequest m => VoteRequestOk w src m
  | .voteReply m => VoteReplyOk w src dst cause m
  | .appendEntriesRequest m => AeRequestOk R w src m
  | .appendEntriesReply m => AeReplyOk R w src m
  | .syncIdxUpdate m => SyncIdxUpdateOk R w src dst m

/-- A packet goes to another server, with a message that is right. -/
structure PacketOk (R : Rules) (w : ClusterWorld n) (pkt : Packet n) : Prop where
  other : pkt.src ≠ pkt.dst
  msg : MsgOk R w pkt.src pkt.dst pkt.cause pkt.msg

/-! ## Observations -/

/-- What an observation says about the history of the world. -/
def ObsOk (w : ClusterWorld n) (p : Fin n) : Obs n → Prop
  | .leads t l => w.led p t ∧ w.stood p t = some l
  | .commits .leader t idx log => w.led p t ∧ log <+: w.llog p t ∧ idx < log.length ∧
      ((p, t, (idx + 1).toNat) ∈ w.commits ∨ ∃ q, q ≠ p ∧ w.led q t)
  | .commits _ _ _ _ => True
  | .applies idx t entrySz data =>
      0 ≤ idx ∧ ∃ e, (p, idx.toNat, e) ∈ w.applied ∧ e.term = t ∧ e.entrySz = entrySz ∧
        e.data = data
  | .requests _ _ _ => True

section History

variable {R : Rules} {w w' : ClusterWorld n} {p src dst : Fin n} {cause : Option (RpcMsg n)}

theorem AeRequestOk.mono {m : AppendEntriesRequestMsg} (h : AeRequestOk R w src m)
    (hx : Extends w w') : AeRequestOk R w' src m where
  led := hx.led h.led
  prev := by
    intro h1 h2 h3
    obtain ⟨e, he, ht⟩ := h.prev h1 h2 h3
    exact ⟨e, getElem_of_isPrefix (hx.llog h.led) he, ht⟩
  carried := by
    intro h1
    obtain ⟨e, he, hc⟩ := h.carried h1
    exact ⟨e, getElem_of_isPrefix (hx.llog h.led) he, hc⟩
  next := by
    intro hR h1
    rcases h.next hR h1 with ⟨e, he, ht⟩ | ⟨h2, h3, l, hl, hlen⟩
    · exact .inl ⟨e, getElem_of_isPrefix (hx.llog h.led) he, ht⟩
    · exact .inr ⟨h2, h3, l, hx.stood hl, hlen⟩
  commit := by
    intro hR h1
    obtain ⟨q, t, k, hc, h2⟩ := h.commit hR h1
    exact ⟨q, t, k, hx.commits hc, h2⟩

/-- What a message says stays true. -/
theorem MsgOk.mono {msg : RpcMsg n} (h : MsgOk R w src dst cause msg) (hx : Extends w w') :
    MsgOk R w' src dst cause msg := by
  cases msg with
  | preVoteRequest m => trivial
  | preVoteReply m => trivial
  | voteRequest m =>
    obtain ⟨l, hl, h⟩ := h
    exact ⟨l, hx.stood hl, h⟩
  | voteReply m =>
    refine ⟨fun hg => ?_, fun x hc => le_trans (h.leader x hc) (hx.cur x)⟩
    obtain ⟨m', hm, l, hl⟩ := h.granted hg
    exact ⟨m', hm, l, hx.ballots hl⟩
  | appendEntriesRequest m => exact AeRequestOk.mono h hx
  | appendEntriesReply m =>
    refine ⟨le_trans h.term (hx.cur src), fun hR hc h0 => ?_⟩
    obtain ⟨k, hk, ha⟩ := h.acked hR hc h0
    exact ⟨k, hk, hx.acks ha⟩
  | syncIdxUpdate m =>
    intro hR h0
    rcases h hR h0 with ⟨k, hk, ha⟩ | hlt
    · exact .inl ⟨k, hk, hx.acks ha⟩
    · exact .inr (lt_of_lt_of_le hlt (hx.cur dst))

theorem PacketOk.mono {pkt : Packet n} (h : PacketOk R w pkt) (hx : Extends w w') :
    PacketOk R w' pkt :=
  ⟨h.other, h.msg.mono hx⟩

/-- What was observed stays true. -/
theorem ObsOk.mono {o : Obs n} (h : ObsOk w p o) (hx : Extends w w') : ObsOk w' p o := by
  cases o with
  | leads t l => exact ⟨hx.led h.1, hx.stood h.2⟩
  | commits state t idx log =>
    cases state with
    | leader =>
      obtain ⟨hl, hlog, hlen, h⟩ := h
      refine ⟨hx.led hl, hlog.trans (hx.llog hl), hlen, ?_⟩
      rcases h with hc | ⟨q, hq, hlq⟩
      · exact .inl (hx.commits hc)
      · exact .inr ⟨q, hq, hx.led hlq⟩
    | _ => trivial
  | applies idx t entrySz data =>
    obtain ⟨h0, e, he, h⟩ := h
    exact ⟨h0, e, hx.applied he, h⟩
  | requests idx subIdx rncr => trivial

end History

/-! ## Handlers -/

/-- A handler of `p` that began in `w₀` has come to `w`, with what it sent and what was
observed so far. -/
structure Sim (R : Rules) (w₀ : ClusterWorld n) (cause : Option (RpcMsg n)) (p : Fin n)
    (w : ClusterWorld n) (out : List (Fin n × RpcMsg n)) (trace : List (Obs n)) : Prop where
  reach : Reachable R w
  steps : Steps R p w₀ w
  sent : ∀ m ∈ out, PacketOk R w ⟨p, m.1, m.2, cause⟩
  observed : ∀ o ∈ trace, ObsOk w p o
  led : ∀ t, w.led p t → w₀.led p t ∨ ∃ l, Obs.leads t l ∈ trace

/-- The handler may return here. -/
def Live (R : Rules) (w₀ : ClusterWorld n) (cause : Option (RpcMsg n)) (p : Fin n) (s : Proc n) :
    Prop :=
  ∃ w, Sim R w₀ cause p w s.out s.trace ∧ Ok R w p s.ri

/-- The process may die here. -/
def Dead (R : Rules) (w₀ : ClusterWorld n) (cause : Option (RpcMsg n)) (p : Fin n) (s : Proc n) :
    Prop :=
  ∃ w, Sim R w₀ cause p w s.out s.trace ∧ s.ri.self = p ∧ StoreOk w p s.ri.opts s.ri.store

section Handlers

variable {R : Rules} {w₀ w w' : ClusterWorld n} {p : Fin n} {cause : Option (RpcMsg n)}
  {out : List (Fin n × RpcMsg n)} {trace : List (Obs n)} {s : Proc n}

theorem Sim.basic (h : Sim R w₀ cause p w out trace) : Basic R w := h.reach.basic

/-- Before its first step. -/
theorem Sim.start (h : Reachable R w) : Sim R w cause p w [] [] where
  reach := h
  steps := .refl
  sent := by simp
  observed := by simp
  led := fun _ => .inl

/-- A step that starts no leadership. -/
theorem Sim.step (h : Sim R w₀ cause p w out trace) (hs : Step R p w w')
    (hled : ∀ t, w'.led p t → w.led p t) : Sim R w₀ cause p w' out trace where
  reach := h.reach.step p hs
  steps := h.steps.tail hs
  sent := fun m hm => (h.sent m hm).mono hs.extends
  observed := fun o ho => (h.observed o ho).mono hs.extends
  led := fun t ht => h.led t (hled t ht)

theorem Sim.send (h : Sim R w₀ cause p w out trace) {dst : Fin n} {msg : RpcMsg n}
    (hne : p ≠ dst) (hm : MsgOk R w p dst cause msg) :
    Sim R w₀ cause p w (out ++ [(dst, msg)]) trace where
  reach := h.reach
  steps := h.steps
  sent := by
    intro m hmem
    rcases List.mem_append.mp hmem with hmem | hmem
    · exact h.sent m hmem
    · obtain rfl := List.mem_singleton.mp hmem
      exact ⟨hne, hm⟩
  observed := h.observed
  led := h.led

theorem Sim.observe (h : Sim R w₀ cause p w out trace) {o : Obs n} (ho : ObsOk w p o) :
    Sim R w₀ cause p w out (trace ++ [o]) where
  reach := h.reach
  steps := h.steps
  sent := h.sent
  observed := by
    intro o' hmem
    rcases List.mem_append.mp hmem with hmem | hmem
    · exact h.observed o' hmem
    · obtain rfl := List.mem_singleton.mp hmem
      exact ho
  led := by
    intro t ht
    rcases h.led t ht with hl | ⟨l, hl⟩
    · exact .inl hl
    · exact .inr ⟨l, List.mem_append_left _ hl⟩

/-- The step that starts a leadership is observed. -/
theorem Sim.lead (h : Sim R w₀ cause p w out trace) (hs : Step R p w w') {t : Int}
    {l : List EntryCore} (hled : ∀ t', w'.led p t' → w.led p t' ∨ t' = t)
    (ho : ObsOk w' p (.leads t l)) :
    Sim R w₀ cause p w' out (trace ++ [.leads t l]) where
  reach := h.reach.step p hs
  steps := h.steps.tail hs
  sent := fun m hm => (h.sent m hm).mono hs.extends
  observed := by
    intro o' hmem
    rcases List.mem_append.mp hmem with hmem | hmem
    · exact (h.observed o' hmem).mono hs.extends
    · obtain rfl := List.mem_singleton.mp hmem
      exact ho
  led := by
    intro t' ht
    rcases hled t' ht with hl | rfl
    · rcases h.led t' hl with hl | ⟨l', hl⟩
      · exact .inl hl
      · exact .inr ⟨l', List.mem_append_left _ hl⟩
    · exact .inr ⟨l, by simp⟩

theorem Live.intro (hs : Sim R w₀ cause p w s.out s.trace) (ho : Ok R w p s.ri) :
    Live R w₀ cause p s :=
  ⟨w, hs, ho⟩

theorem Dead.intro (hs : Sim R w₀ cause p w s.out s.trace) (ho : Ok R w p s.ri) :
    Dead R w₀ cause p s :=
  ⟨w, hs, ho.stored.self, ho.stored.store⟩

end Handlers

end Refinement

end NiovaRaft
