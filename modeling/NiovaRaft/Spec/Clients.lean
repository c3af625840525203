import NiovaRaft.Base.Slices
import NiovaRaft.Model.Clients
import NiovaRaft.Safety.LogMatching
import NiovaRaft.Spec.Startup
import NiovaRaft.Spec.Writes

/-!
# The handlers of client requests

What is in a coalescing buffer, what a write of it stores, and rules for the two handlers that
write it.  From the cluster's point of view each of them writes collected requests, once or twice,
or is killed: a run with clients is a run of the cluster (`Clients.Reach.sound`).
-/

namespace NiovaRaft

open Base Base.Handler

variable {n : Nat}

/-! ## The buffer -/

/-- The buffer holds the writes `ws`, in this order, and has room for more. -/
structure CoWr.Holds (co : CoWr) (maxDataSize : Nat) (ws : List ClientWrite) : Prop where
  nentries : co.nentries = ws.length
  sizes : co.entrySizes = (ws.map ClientWrite.bytes).map List.length
  total : co.totalSize = ((ws.map ClientWrite.bytes).map List.length).sum
  buffer : co.buffer = (ws.map ClientWrite.bytes).flatten
  count : co.nentries < entryNumEntries
  room : co.totalSize < maxDataSize

/-- The buffer holds the writes `ws` and may be full. -/
structure CoWr.Fills (co : CoWr) (maxDataSize : Nat) (ws : List ClientWrite) : Prop where
  nentries : co.nentries = ws.length
  sizes : co.entrySizes = (ws.map ClientWrite.bytes).map List.length
  total : co.totalSize = ((ws.map ClientWrite.bytes).map List.length).sum
  buffer : co.buffer = (ws.map ClientWrite.bytes).flatten
  count : co.nentries ≤ entryNumEntries
  room : co.totalSize ≤ maxDataSize

namespace CoWr

variable {co : CoWr} {sz : Nat} {ws : List ClientWrite} {w : ClientWrite}

theorem Holds.fills (h : co.Holds sz ws) : co.Fills sz ws :=
  { h with count := h.count.le, room := h.room.le }

theorem holds_zero (h : 0 < sz) : CoWr.zero.Holds sz [] :=
  ⟨rfl, rfl, rfl, rfl, by simp [CoWr.zero, entryNumEntries], h⟩

/-- A buffer that is not full has room. -/
theorem Fills.holds (h : co.Fills sz ws) (hcount : co.nentries ≠ entryNumEntries)
    (hroom : co.totalSize ≠ sz) : co.Holds sz ws :=
  { h with count := lt_of_le_of_ne h.count hcount, room := lt_of_le_of_ne h.room hroom }

@[simp] theorem merge_nentries (supp : List WrSupp) : (co.merge supp).nentries = co.nentries := by
  unfold merge
  split <;> rfl

@[simp] theorem merge_totalSize (supp : List WrSupp) : (co.merge supp).totalSize = co.totalSize := by
  unfold merge
  split <;> rfl

theorem Holds.merge (h : co.Holds sz ws) (supp : List WrSupp) : (co.merge supp).Holds sz ws := by
  unfold CoWr.merge
  split
  · exact { h with }
  · exact h

theorem Holds.destroySupplements (h : co.Holds sz ws) : co.destroySupplements.Holds sz ws :=
  { h with }

/-- The buffer with one more write that fits. -/
theorem Holds.push (h : co.Holds sz ws)
    (hfits : w.data.length + w.appData.length + co.totalSize ≤ sz) :
    (co.push w.data w.appData).Fills sz (ws ++ [w]) := by
  refine ⟨?_, ?_, ?_, ?_, ?_, ?_⟩
  · simp [CoWr.push, h.nentries]
  · simp [CoWr.push, h.sizes, ClientWrite.bytes]
  · simp [CoWr.push, h.total, ClientWrite.bytes]
    omega
  · simp [CoWr.push, h.buffer, ClientWrite.bytes]
  · have := h.count
    simp only [CoWr.push]
    omega
  · simp only [CoWr.push]
    omega

/-- What the sizes cut the buffer into. -/
theorem Fills.slices (h : co.Fills sz ws) :
    slices co.entrySizes co.buffer = ws.map ClientWrite.bytes := by
  rw [h.sizes, h.buffer, slices_flatten]

theorem Fills.sum_sizes (h : co.Fills sz ws) : co.entrySizes.sum = co.totalSize := by
  rw [h.sizes, h.total]

theorem Fills.length_sizes (h : co.Fills sz ws) : co.entrySizes.length = ws.length := by
  rw [h.sizes, List.length_map, List.length_map]

theorem Fills.length_buffer (h : co.Fills sz ws) : co.buffer.length = co.totalSize := by
  rw [h.buffer, h.total, List.length_flatten]

end CoWr

/-- The backends take entries. -/
theorem RaftInstance.entryMaxDataSize_pos (ri : RaftInstance n) : 0 < ri.entryMaxDataSize := by
  unfold RaftInstance.entryMaxDataSize
  cases ri.opts.storeType <;> decide

/-- The options of a server never change. -/
theorem Cluster.step_opts [Externals] {c : Cluster n} {e : Event n} {p : Fin n} :
    ((c.step e).servers p).opts = (c.servers p).opts := by
  have hkeeps : Cluster.Keeps c e fun ri => ri.opts = (c.servers p).opts := by
    refine ⟨fun ri ri' h hup => ?_, fun _ _ _ _ h _ _ => h,
      keeps_apply (P := fun ri => ri.opts = _) fun _ _ _ h _ _ _ _ => h,
      keeps_compact (P := fun ri => ri.opts = _) (fun _ h _ _ => h) fun _ _ h _ _ => h⟩
    cases hup <;> exact h
  refine hkeeps.step rfl fun ri d _ _ hsurv hri _ => ?_
  rw [Cluster.restart, (RaftServer.instanceRun_loaded _ _ _).opts, hsurv.opts]
  exact hri

/-! ## Rules -/

namespace RaftServer

/-- What a leader must be to accept a request. -/
structure Accepts (ri : RaftInstance n) : Prop where
  leads : ri.isLeader = true
  term : ri.leader.leaderTerm = ri.logHdr.term
  applied : ri.leader.initialTermIdx < ri.lastApplied.idx

/-- A request is accepted by a leader of the current term that has applied an entry of it, and by no
other server. -/
theorem wp_mayAcceptClientRequest {fresh : Bool} {s : Proc n} {Q : Except Errno Unit → Proc n → Prop}
    {D : Proc n → Prop}
    (hD : s.ri.isLeader = true → s.ri.leader.leaderTerm ≠ s.ri.logHdr.term → D s)
    (hdeny : ∀ rc, (s.ri.procState ≠ .booting → fresh = true → ¬ Accepts s.ri) → Q (.error rc) s)
    (hok : Accepts s.ri → Q (.ok ()) s) : (mayAcceptClientRequest fresh).wp Q D s := by
  simp only [mayAcceptClientRequest, leaderHasAppliedTxnInMyTerm, wp_bind, wp_getRi, wp_ite,
    wp_pure, wp_fatalIf]
  refine ⟨fun hboot => hdeny _ fun h => absurd hboot h, fun _ => ⟨fun hcand => hdeny _ ?_, fun _ =>
    ⟨fun hlead => hdeny _ fun _ _ h => absurd h.leads (by simp [hlead]), fun hlead =>
    ⟨fun hfresh => hdeny _ fun _ h => absurd h (by simp [hfresh]), fun _ => ⟨fun hleads =>
    ⟨fun hterm => hD hleads hterm, fun hterm => ?_⟩, fun h => ?_⟩⟩⟩⟩⟩
  · intro _ _ hacc
    have hstate : s.ri.state = .leader := by simpa [RaftInstance.isLeader] using hacc.leads
    simp [RaftInstance.isCandidate, RaftInstance.isCandidatePrevote, hstate] at hcand
  · by_cases happ : s.ri.leader.initialTermIdx < s.ri.lastApplied.idx
    · simpa [happ] using hok ⟨eq_true_of_ne_false hlead, not_not.mp hterm, happ⟩
    · simpa [happ] using hdeny .EBUSY fun _ _ hacc => happ hacc.applied
  · exact absurd (eq_true_of_ne_false hlead) h

end RaftServer

namespace Coalesce

variable {s : ClientProc n} {α : Type} {D : ClientProc n → Prop}

theorem wp_lift {m : Server n α} {Q : α → ClientProc n → Prop} :
    (lift m).wp Q D s ↔
      m.wp (fun a p => Q a { s with proc := p }) (fun p => D { s with proc := p }) s.proc := by
  simp only [wp, lift]
  cases m s.proc <;> rfl

theorem wp_storing {ws : List WrSupp} {m : Server n Unit} {Q : Unit → ClientProc n → Prop} :
    (storing ws m).wp Q D s ↔
      m.wp (fun _ p => Q () (s.stored p ws)) (fun p => D (s.stored p ws)) s.proc := by
  simp only [wp, storing]
  cases m s.proc <;> rfl

theorem wp_modifyCoWr {f : CoWr → CoWr} {Q : Unit → ClientProc n → Prop} :
    (modifyCoWr f).wp Q D s ↔ Q () { s with coWr := f s.coWr } :=
  Iff.rfl

theorem wp_recordAccepted {w : ClientWrite} {Q : Unit → ClientProc n → Prop} :
    (recordAccepted w).wp Q D s ↔
      Q () { s with accepted := s.accepted ++ [(s.proc.ri.logHdr.term, w)] } :=
  Iff.rfl

variable [Externals]

/-- The entry that the contents of the buffer become. -/
def coalescedEntry (s : ClientProc n) : Entry :=
  RaftServer.entryOf s.proc.ri s.proc.ri.store.db.entries.length s.proc.ri.logHdr.term s.coWr.buffer
    s.coWr.entrySizes false

/-- The process after its buffer was written. -/
def flushed (s : ClientProc n) (fuse : Option Nat) : ClientProc n :=
  { s with
    proc := { s.proc with ri := s.proc.ri.withEntry (coalescedEntry s), fuse := fuse }
    coWr := .zero
    written := s.written ++ [⟨coalescedEntry s, s.coWr.ws.ws⟩] }

/-- What the buffer holds becomes one entry, unless the process dies with nothing written. -/
theorem wp_writeCoalescedEntries {Q : Unit → ClientProc n → Prop} (hc : Consistent s.proc.ri)
    (hD : (s.proc.ri.isLeader = true → s.proc.ri.newestUnsync.term ≤ s.proc.ri.logHdr.term →
      s.coWr.entrySizes.sum ≤ s.proc.ri.entryMaxDataSize → s.coWr.entrySizes.length ≠ 0 →
      s.proc.fuse ≠ none) → D s)
    (hnone : s.coWr.nentries = 0 → Q () s)
    (hQ : ∀ fuse, s.coWr.nentries ≠ 0 → s.proc.ri.isLeader = true →
      s.proc.ri.newestUnsync.term ≤ s.proc.ri.logHdr.term → Q () (flushed s fuse)) :
    writeCoalescedEntries.wp Q D s := by
  have hsame : ∀ ws, s.stored s.proc ws = s := by
    intro ws
    simp [ClientProc.stored]
  simp only [writeCoalescedEntries, wp_bind, wp_gets, wp_whenever, wp_storing, wp_modifyCoWr]
  refine ⟨fun hne => ?_, fun h => hnone (not_not.mp h)⟩
  simp only [RaftServer.leaderWriteNewEntry, wp_bind, RaftServer.wp_getRi, wp_assert, true_or,
    forall_const, not_true_eq_false, IsEmpty.forall_iff, and_true]
  refine ⟨fun hlead => ?_, fun hlead => by rw [hsame]; exact hD fun h => absurd h hlead⟩
  refine RaftServer.wp_writeNextEntry hc (fun hdie => ?_) fun fuse hterm _ _ _ => ?_
  · rw [hsame]
    exact hD fun _ hterm hsum hlen => hdie hterm hsum (.inr hlen)
  · have hflushed := hQ fuse hne hlead hterm
    simpa [flushed, ClientProc.stored, RaftInstance.withEntry, Store.put, coalescedEntry]
      using hflushed

/-- The process after a write went into its buffer. -/
def taken (s : ClientProc n) (w : ClientWrite) : ClientProc n :=
  { s with
    coWr := (s.coWr.merge w.supp).push w.data w.appData
    accepted := s.accepted ++ [(s.proc.ri.logHdr.term, w)] }

/-- The write does not fit beside what the buffer holds. -/
def overflows (s : ClientProc n) (w : ClientWrite) : Prop :=
  w.data.length + w.appData.length + s.coWr.totalSize > s.proc.ri.entryMaxDataSize

/-- The buffer is written at once. -/
def fullAfter (s : ClientProc n) (coalescedWrites : Bool) : Prop :=
  coalescedWrites = false ∨ s.coWr.nentries = entryNumEntries ∨
    s.coWr.totalSize = s.proc.ri.entryMaxDataSize

/-- The process when a write is about to go into its buffer. -/
def accepting (s : ClientProc n) (w : ClientWrite) : ClientProc n :=
  { s with
    coWr := s.coWr.merge w.supp
    accepted := s.accepted ++ [(s.proc.ri.logHdr.term, w)] }

/-- A client's write: the buffer is written first if the write does not fit, takes the write, and is
written again if it is full.  `J` holds when the write is taken, `K` once it is in the buffer. -/
theorem wp_clientRncrComplete {coalescedWrites fresh : Bool} {w : ClientWrite}
    {Q : Unit → ClientProc n → Prop} {J K : ClientProc n → Prop}
    (hD : s.proc.ri.leader.leaderTerm ≠ s.proc.ri.logHdr.term → D s)
    (hdeny : (s.proc.ri.procState ≠ .booting → fresh = true → ¬ RaftServer.Accepts s.proc.ri) →
      Q () s)
    (hkeep : RaftServer.Accepts s.proc.ri → ¬ overflows s w → J s)
    (hmake : RaftServer.Accepts s.proc.ri → overflows s w →
      writeCoalescedEntries.wp (fun _ s' => J s') D s)
    (htake : ∀ s', J s' → ¬ overflows s' w → K (taken s' w))
    (hdies : ∀ s', J s' → (s'.coWr.nentries < entryNumEntries →
      s'.coWr.totalSize < s'.proc.ri.entryMaxDataSize → overflows s' w) → D (accepting s' w))
    (hrest : ∀ s', K s' → ¬ fullAfter s' coalescedWrites → Q () s')
    (hfull : ∀ s', K s' → fullAfter s' coalescedWrites →
      writeCoalescedEntries.wp (fun _ s'' => Q () s'') D s') :
    (clientRncrComplete coalescedWrites fresh w).wp Q D s := by
  have hafter : ∀ s', J s' → (do
      recordAccepted w
      modifyCoWr (·.merge w.supp)
      writeCoalesceEntry coalescedWrites w.data w.appData : ClientHandler n Unit).wp Q D s' := by
    intro s' hJ
    have hdead := hdies s' hJ
    simp only [writeCoalesceEntry, wp_bind, wp_recordAccepted, wp_modifyCoWr, wp_get, wp_assert,
      wp_fatalIf, wp_gets, wp_whenever, CoWr.merge_nentries, CoWr.merge_totalSize]
    refine ⟨fun _ => ⟨fun hover => hdead fun _ _ => hover, fun hfits => ?_⟩,
      fun hroom => hdead fun hcount hsize => absurd ⟨hcount, hsize⟩ hroom⟩
    have hK := htake s' hJ hfits
    exact ⟨fun h => hfull _ hK h, fun h => hrest _ hK h⟩
  rw [clientRncrComplete, wp_bind, wp_lift]
  refine RaftServer.wp_mayAcceptClientRequest (fun _ => hD) (fun rc hdenied => ?_) fun hacc => ?_
  · rw [wp_whenever]
    exact ⟨fun h => absurd h (by simp [Except.isOk, Except.toBool]), fun _ => hdeny hdenied⟩
  · rw [wp_whenever]
    refine ⟨fun _ => ?_, fun h => absurd rfl h⟩
    rw [clientRncrWriteRaftEntry, wp_bind, wp_get, wp_bind, wp_whenever]
    exact ⟨fun hover => wp_mono (hmake hacc hover) (fun _ s' hJ => hafter s' hJ) fun _ => id,
      fun hfits => hafter s (hkeep hacc hfits)⟩

/-- The timer of the buffer. -/
theorem wp_leaderCoWrTimerExpired {fresh : Bool} {Q : Unit → ClientProc n → Prop}
    (hD : s.proc.ri.leader.leaderTerm ≠ s.proc.ri.logHdr.term → D s)
    (hdeny : (s.proc.ri.procState ≠ .booting → fresh = true → ¬ RaftServer.Accepts s.proc.ri) →
      Q () s)
    (hflush : RaftServer.Accepts s.proc.ri → writeCoalescedEntries.wp Q D s) :
    (leaderCoWrTimerExpired fresh).wp Q D s := by
  rw [leaderCoWrTimerExpired, wp_bind, wp_lift]
  refine RaftServer.wp_mayAcceptClientRequest (fun _ => hD) (fun rc hdenied => ?_) fun hacc => ?_
  · rw [wp_whenever]
    exact ⟨fun h => absurd h (by simp [Except.isOk, Except.toBool]), fun _ => hdeny hdenied⟩
  · rw [wp_whenever]
    exact ⟨fun _ => hflush hacc, fun h => absurd rfl h⟩

end Coalesce

namespace Clients

variable [Externals] {opts : Fin n → Options} {c : Clients n} {p : Fin n}

/-- The cluster with another instance for a server. -/
def withServer (c : Clients n) (p : Fin n) (ri : RaftInstance n) : Cluster n :=
  { c.cluster with servers := Function.update c.cluster.servers p ri }

/-- The server of a request where the cluster may have brought it, with a buffer that is not
overfull. -/
structure Serving (opts : Fin n → Options) (c : Clients n) (p : Fin n) (s : ClientProc n) : Prop where
  reach : Cluster.Reach Cluster.anyEvent opts (c.withServer p s.proc.ri)
  serves : Cluster.serves s.proc.ri = true
  out : s.proc.out = []
  trace : s.proc.trace = []
  maxDataSize : s.proc.ri.entryMaxDataSize = (c.cluster.servers p).entryMaxDataSize
  fills : ∃ ws, s.coWr.Fills s.proc.ri.entryMaxDataSize ws

theorem Serving.consistent {s : ClientProc n} (h : Serving opts c p s) : Consistent s.proc.ri := by
  have hserver : (c.withServer p s.proc.ri).servers p = s.proc.ri := by simp [withServer]
  have hrun : s.proc.ri.procState = .running := by
    have := h.serves
    simp only [Cluster.serves, decide_eq_true_eq] at this
    exact this.1
  rw [← hserver] at hrun ⊢
  exact h.reach.consistent hrun

/-- A write of the buffer is an event of the cluster. -/
theorem Serving.flushed {s : ClientProc n} (h : Serving opts c p s)
    (hlead : s.proc.ri.isLeader = true) (hne : s.coWr.nentries ≠ 0)
    (hterm : s.proc.ri.newestUnsync.term ≤ s.proc.ri.logHdr.term) {fuse : Option Nat} :
    Serving opts c p (Coalesce.flushed s fuse) := by
  obtain ⟨ws, hws⟩ := h.fills
  set requests := ws.map ClientWrite.bytes with hrequests
  have hnonempty : requests ≠ [] := by
    intro hnil
    have hlen := hws.nentries
    have hws' : ws = [] := List.map_eq_nil_iff.mp hnil
    rw [hws'] at hlen
    exact hne hlen
  have hfits : Cluster.coalescedWriteFits s.proc.ri requests = true := by
    have hcount := hws.count
    have hroom := hws.room
    rw [hws.nentries] at hcount
    rw [hws.total] at hroom
    simp only [Cluster.coalescedWriteFits, decide_eq_true_eq]
    exact ⟨by rw [hrequests, List.length_map]; exact hcount, hroom⟩
  set e : Event n := ⟨p, .write requests, none, 0⟩
  have hserver : (c.withServer p s.proc.ri).servers e.server = s.proc.ri := by simp [withServer, e]
  have hrun : ((c.withServer p s.proc.ri).handler e).wp
      (fun _ s' => s'.ri = (Coalesce.flushed s fuse).proc.ri ∧ s'.out = [] ∧ s'.trace = [])
      (fun _ => False) ((c.withServer p s.proc.ri).proc e) := by
    rw [show (c.withServer p s.proc.ri).proc e = ⟨s.proc.ri, [], [], none⟩ by
      simp [Cluster.proc, hserver, e]]
    unfold Cluster.handler
    simp only [e, hserver, wp_whenever, RaftServer.writeCoalescedEntries, wp_bind,
      RaftServer.wp_getRi, RaftServer.leaderWriteNewEntry, wp_assert, hlead]
    refine ⟨fun _ => ⟨fun _ => ⟨fun _ => ⟨fun _ => ?_, fun h => absurd (.inl trivial) h⟩,
      fun h => absurd trivial h⟩, fun h => absurd ⟨trivial, hnonempty⟩ h⟩, fun h => absurd hfits h⟩
    refine RaftServer.wp_writeNextEntry h.consistent (fun hdie => ?_) fun _ _ _ _ _ => ?_
    · refine hdie hterm ?_ (.inr ?_) rfl
      · rw [← hws.total]
        exact hws.room
      · simpa using hnonempty
    · refine ⟨?_, rfl, rfl⟩
      simp [Coalesce.flushed, Coalesce.coalescedEntry, hws.buffer, hws.sizes, hrequests]
  have hen : (c.withServer p s.proc.ri).enabled e = true := by
    simp [Cluster.enabled, hserver, h.serves]
  obtain ⟨_, s', hok, hri, hout, htrace⟩ := exists_ok_of_wp hrun
  have hstep : (c.withServer p s.proc.ri).step e =
      c.withServer p (Coalesce.flushed s fuse).proc.ri := by
    unfold Cluster.step
    rw [if_pos hen, hok]
    simp [Cluster.commit, hout, htrace, hri, withServer, e]
  exact
    { reach := hstep ▸ h.reach.step e trivial
      serves := h.serves
      out := h.out
      trace := h.trace
      maxDataSize := h.maxDataSize
      fills := ⟨[], (CoWr.holds_zero (RaftInstance.entryMaxDataSize_pos _)).fills⟩ }

/-- A process may be killed at any point. -/
theorem Serving.killed {s : ClientProc n} (h : Serving opts c p s) (keep : Nat) :
    Cluster.Reach Cluster.anyEvent opts (c.withServer p (Cluster.restart s.proc.ri keep)) := by
  set e : Event n := ⟨p, .crash, none, keep⟩
  have hserver : (c.withServer p s.proc.ri).servers e.server = s.proc.ri := by simp [withServer, e]
  have hstep : (c.withServer p s.proc.ri).step e =
      c.withServer p (Cluster.restart s.proc.ri keep) := by
    unfold Cluster.step
    rw [if_pos (by simp [Cluster.enabled, e])]
    simp [Cluster.handler, Cluster.commit, Cluster.proc, Base.Handler.abort, withServer, e]
  exact hstep ▸ h.reach.step e trivial

/-- A write that fits is taken. -/
theorem Serving.taken {s : ClientProc n} {w : ClientWrite} (h : Serving opts c p s)
    {ws : List ClientWrite} (hws : s.coWr.Holds s.proc.ri.entryMaxDataSize ws)
    (hfits : ¬ Coalesce.overflows s w) : Serving opts c p (Coalesce.taken s w) where
  reach := h.reach
  serves := h.serves
  out := h.out
  trace := h.trace
  maxDataSize := h.maxDataSize
  fills := ⟨ws ++ [w], (hws.merge w.supp).push (by
    rw [CoWr.merge_totalSize]
    exact not_lt.mp hfits)⟩

/-- The buffers hold writes and have room for more, and the servers are those of a run of the
cluster. -/
structure Sound (opts : Fin n → Options) (c : Clients n) : Prop where
  reach : Cluster.Reach Cluster.anyEvent opts c.cluster
  holds : ∀ p, ∃ ws, (c.coWr p).Holds (c.cluster.servers p).entryMaxDataSize ws

theorem Sound.serving (h : Sound opts c) (hserves : Cluster.serves (c.cluster.servers p) = true)
    (fuse : Option Nat) : Serving opts c p (c.clientProc p fuse) := by
  obtain ⟨ws, hws⟩ := h.holds p
  have hsame : c.withServer p (c.cluster.servers p) = c.cluster := by
    simp [withServer]
  exact ⟨hsame ▸ h.reach, hserves, rfl, rfl, rfl, ws, hws.fills⟩

/-- A serving process whose buffer has room. -/
def Ready (opts : Fin n → Options) (c : Clients n) (p : Fin n) (s : ClientProc n) : Prop :=
  Serving opts c p s ∧ ∃ ws, s.coWr.Holds s.proc.ri.entryMaxDataSize ws

theorem Serving.wp_flush {s : ClientProc n} {Q : Unit → ClientProc n → Prop}
    (h : Serving opts c p s) (hnone : s.coWr.nentries = 0 → Q () s)
    (hQ : ∀ fuse, s.coWr.nentries ≠ 0 → s.proc.ri.isLeader = true →
      Ready opts c p (Coalesce.flushed s fuse) → Q () (Coalesce.flushed s fuse)) :
    Coalesce.writeCoalescedEntries.wp Q (Serving opts c p) s :=
  Coalesce.wp_writeCoalescedEntries h.consistent (fun _ => h) hnone fun fuse hne hlead hterm =>
    hQ fuse hne hlead ⟨h.flushed hlead hne hterm, [],
      CoWr.holds_zero (RaftInstance.entryMaxDataSize_pos _)⟩

theorem Ready.wp_request {s : ClientProc n} (h : Ready opts c p s) {coalescedWrites fresh : Bool}
    {w : ClientWrite} : (Coalesce.clientRncrComplete coalescedWrites fresh w).wp
      (fun _ s' => Ready opts c p s') (Serving opts c p) s := by
  refine Coalesce.wp_clientRncrComplete (J := Ready opts c p)
    (K := fun s' => Serving opts c p s' ∧ s'.coWr.nentries ≠ 0) (fun _ => h.1) (fun _ => h)
    (fun _ _ => h) (fun _ _ => h.1.wp_flush (fun _ => h) fun _ _ _ hr => hr) ?_ ?_ ?_ ?_
  · rintro s' ⟨hs', ws, hws⟩ hfits
    exact ⟨hs'.taken hws hfits, by simp [Coalesce.taken, CoWr.push]⟩
  · rintro s' ⟨hs', ws, hws⟩ _
    exact { hs' with fills := ⟨ws, (hws.merge w.supp).fills⟩ }
  · rintro s' ⟨hs', _⟩ hfull
    obtain ⟨ws, hws⟩ := hs'.fills
    simp only [Coalesce.fullAfter, not_or] at hfull
    exact ⟨hs', ws, hws.holds hfull.2.1 hfull.2.2⟩
  · rintro s' ⟨hs', hne⟩ _
    exact hs'.wp_flush (fun h => absurd h hne) fun _ _ _ hr => hr

theorem Ready.wp_timer {s : ClientProc n} (h : Ready opts c p s) {fresh : Bool} :
    (Coalesce.leaderCoWrTimerExpired fresh).wp (fun _ s' => Ready opts c p s')
      (Serving opts c p) s :=
  Coalesce.wp_leaderCoWrTimerExpired (fun _ => h.1) (fun _ => h) fun _ =>
    h.1.wp_flush (fun _ => h) fun _ _ _ hr => hr

/-- A server is done with a request. -/
theorem Sound.serve (h : Sound opts c) {fuse : Option Nat} {keep : Nat} {m : ClientHandler n Unit}
    (hm : ∀ s, Ready opts c p s → m.wp (fun _ s' => Ready opts c p s') (Serving opts c p) s) :
    Sound opts (c.serve p fuse keep m) := by
  unfold Clients.serve
  split
  · rename_i hserves
    have hwp := hm _ ⟨h.serving hserves fuse, h.holds p⟩
    cases hres : m (c.clientProc p fuse) with
    | ok u s =>
      obtain ⟨hs, hholds⟩ := wp_of_ok hres hwp
      refine ⟨hs.reach, fun q => ?_⟩
      by_cases hq : q = p
      · subst hq
        simpa [commit] using hholds
      · simpa [commit, Function.update_of_ne hq] using h.holds q
    | abort s =>
      have hs := wp_of_abort hres hwp
      refine ⟨hs.killed keep, fun q => ?_⟩
      by_cases hq : q = p
      · subst hq
        exact ⟨[], by simpa [commit] using CoWr.holds_zero (RaftInstance.entryMaxDataSize_pos _)⟩
      · simpa [commit, Function.update_of_ne hq] using h.holds q
  · exact h

/-- One event. -/
theorem Sound.step (h : Sound opts c) (e : ClientEvent n) : Sound opts (c.step e) := by
  cases e with
  | request q coalescedWrites fresh w fuse keep => exact h.serve fun s hs => hs.wp_request
  | coWrTimer q fresh fuse keep => exact h.serve fun s hs => hs.wp_timer
  | peer e =>
    unfold Clients.step
    dsimp only
    split
    · exact h
    · refine ⟨h.reach.step e trivial, fun q => ?_⟩
      have hsize : ((c.cluster.step e).servers q).entryMaxDataSize =
          (c.cluster.servers q).entryMaxDataSize := by
        unfold RaftInstance.entryMaxDataSize
        rw [Cluster.step_opts]
      rw [hsize]
      dsimp only
      by_cases hq : q = e.server
      · subst hq
        obtain ⟨ws, hws⟩ := h.holds e.server
        rw [Function.update_self]
        unfold coWrAfter
        split
        · split
          · exact ⟨ws, hws.destroySupplements⟩
          · exact ⟨ws, hws⟩
        · exact ⟨[], CoWr.holds_zero (RaftInstance.entryMaxDataSize_pos _)⟩
      · rw [Function.update_of_ne hq]
        exact h.holds q

/-- A run with clients is a run of the cluster. -/
theorem Reach.sound {ok : Clients n → ClientEvent n → Prop} (h : Reach ok opts c) :
    Sound opts c := by
  induction h with
  | init => exact ⟨.init, fun p => ⟨[], CoWr.holds_zero (RaftInstance.entryMaxDataSize_pos _)⟩⟩
  | step e _ _ ih => exact ih.step e

end Clients

end NiovaRaft
