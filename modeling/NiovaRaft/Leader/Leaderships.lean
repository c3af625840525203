import NiovaRaft.Leader.Coalescing

/-!
# Writes and leaderships

A write that a leader has accepted belongs to its term.  The coalescing buffer does not know of
terms: what it holds when a leader steps down is still there when the server is elected again, and
becomes an entry of the new term, without the supplements if the server has followed another leader
in between.  Where every election finds the buffer empty, no write crosses from one leadership into
the next.
-/

namespace NiovaRaft

open Base Base.Handler

variable {n : Nat}

/-! ## Elections won -/

/-- The vote makes the candidate a leader. -/
def RaftServer.winsWith (ri : RaftInstance n) (voter : Fin n) (vreply : VoteReplyMsg n) : Bool :=
  ri.isCandidate && vreply.votedGranted && candidateCanBecomeLeader
    { ri with candidate :=
      { ri.candidate with results := Function.update ri.candidate.results voter .voteYes } }

/-- The event delivers the vote that makes its server a leader. -/
def Cluster.winsElection (c : Cluster n) (e : Event n) : Bool :=
  match c.delivered e with
  | some pkt =>
      match pkt.msg with
      | .voteReply vreply => RaftServer.winsWith (c.servers e.server) pkt.src vreply
      | _ => false
  | none => false

/-- A leader stays one, of the same term, and any other server does not become one. -/
def SameLeadership (ri ri' : RaftInstance n) : Prop :=
  ri'.state = .leader → ri.state = .leader ∧ ri'.leader.leaderTerm = ri.leader.leaderTerm

namespace SameLeadership

variable {ri ri' : RaftInstance n}

theorem refl (ri : RaftInstance n) : SameLeadership ri ri := fun h => ⟨h, rfl⟩

theorem trans {ri'' : RaftInstance n} (h : SameLeadership ri ri') (h' : SameLeadership ri' ri'') :
    SameLeadership ri ri'' := by
  intro hlead
  obtain ⟨hlead', hterm'⟩ := h' hlead
  obtain ⟨hlead, hterm⟩ := h hlead'
  exact ⟨hlead, hterm'.trans hterm⟩

variable [Externals]

/-- No write but one makes a leader, and that one answers a vote. -/
theorem update {cause : Option (Packet n)}
    (hcause : ∀ pkt m, cause = some pkt → pkt.msg ≠ .voteReply m) (hup : Update cause ri ri') :
    SameLeadership ri ri' := by
  cases hup with
  | role state reason csn cand h =>
    rintro rfl
    exact ⟨(h.resolve_left (fun h => h rfl)).symm, rfl⟩
  | lead _ hvote =>
    obtain ⟨pkt, m, hpkt, hmsg⟩ := hvote
    exact absurd hmsg (hcause pkt m hpkt)
  | slot | recovery | header | flush | synced | appliedSynced | entry | newest | truncate | commit =>
    exact fun h => ⟨h, rfl⟩

/-- What takes no part in an election makes no leader. -/
theorem of_writes {α : Type} {m : Server n α} {s : Proc n} (h : Writes none m s) :
    m.wp (fun _ s' => SameLeadership s.ri s'.ri) (fun _ => True) s := by
  refine wp_mono (h.invariant (P := fun v : Visible n => SameLeadership s.ri v.1) ?_ (refl _))
    (fun _ _ => id) fun _ _ => trivial
  intro v v' hv hact
  cases hact with
  | write hup => exact hv.trans (update (fun _ _ h => by cases h) hup)
  | send => exact hv

end SameLeadership

section

variable [Externals]

/-- Of the vote replies only the deciding vote makes a leader. -/
theorem RaftServer.wp_processVoteReplyCommon_leads {sender : Fin n} {vreply : VoteReplyMsg n}
    {s : Proc n} (hwins : winsWith s.ri sender vreply = false) :
    (processVoteReplyCommon sender false vreply).wp (fun _ s' => SameLeadership s.ri s'.ri)
      (fun _ => True) s := by
  simp only [processVoteReplyCommon, wp_bind, wp_getRi, wp_ite, wp_pure]
  refine ⟨fun _ => .refl _, fun _ => ?_⟩
  refine Refinement.wp_candidateRegVoteResult trivial (fun rc => ?_) fun hcand => ?_
  · rw [wp_whenever]
    exact ⟨fun h => absurd h (by simp [Except.isOk, Except.toBool]), fun _ => .refl _⟩
  · rw [wp_whenever]
    refine ⟨fun _ => ?_, fun h => absurd rfl h⟩
    cases hgrant : vreply.votedGranted with
    | true =>
      simp only [voteResultOf, actOnVoteResult, hgrant, wp_bind, wp_getRi, wp_whenever, if_true,
        Bool.false_eq_true, if_false] at hcand ⊢
      refine ⟨fun hcan => ?_, fun _ h => ⟨h, rfl⟩⟩
      have hstate : s.ri.isCandidate = true := by
        simp [RaftInstance.isCandidate, hcand]
      rw [winsWith, hstate, hgrant, hcan] at hwins
      simp at hwins
    | false =>
      simp only [voteResultOf, actOnVoteResult, wp_bind, wp_getRi, wp_whenever,
        Bool.false_eq_true, if_false]
      refine ⟨fun _ => ?_, fun _ h => ⟨h, rfl⟩⟩
      exact wp_mono (SameLeadership.of_writes writes_becomesFollower) (fun _ _ h => h) fun _ => id

/-- A server leads because it did before, or has won an election. -/
theorem Cluster.sameLeadership_step {c : Cluster n} {e : Event n}
    (hwins : c.winsElection e = false) (p : Fin n) :
    SameLeadership (c.servers p) ((c.step e).servers p) := by
  have hrestart : ∀ ri : RaftInstance n, SameLeadership (c.servers e.server)
      (Cluster.restart ri e.keep) := by
    intro ri hlead
    have hnot := Clients.restart_not_leader ri e.keep
    simp [RaftInstance.isLeader, hlead] at hnot
  by_cases hp : p = e.server
  · subst hp
    by_cases hvote : ∃ pkt m, c.delivered e = some pkt ∧ pkt.msg = .voteReply m
    · obtain ⟨pkt, vreply, hdel, hmsg⟩ := hvote
      by_cases hen : c.enabled e = true
      · refine step_server hen ?_
        rw [handler_of_delivered hdel, hmsg]
        unfold winsElection at hwins
        rw [hdel] at hwins
        simp only [hmsg] at hwins
        exact wp_mono (RaftServer.wp_processVoteReplyCommon_leads (s := c.proc e) hwins)
          (fun _ _ h => h) fun d _ => hrestart d.ri
      · rw [Cluster.step, if_neg hen]
        exact .refl _
    · have hkeeps : Keeps c e (SameLeadership (c.servers e.server)) := by
        refine ⟨fun ri ri' h hup => h.trans (.update (fun pkt m hpkt hmsg =>
          hvote ⟨pkt, m, hpkt, hmsg⟩) hup), fun _ _ _ _ h _ _ => h, ?_, ?_⟩
        · exact keeps_apply (P := SameLeadership _) fun _ _ _ h _ _ _ _ => h
        · exact keeps_compact (P := SameLeadership _) (fun _ h _ _ => h) fun _ _ h _ _ => h
      exact hkeeps.step (.refl _) fun _ d _ _ _ _ _ => hrestart d.ri
  · rw [step_servers_of_ne hp]
    exact .refl _

end

/-! ## Writes and their terms -/

/-- The entry is made of writes that were accepted in its term, one after the other, and has all
their supplements. -/
def OwnWrites (acc : List (Int × ClientWrite)) (x : CoalescedEntry) : Prop :=
  ∃ ws : List ClientWrite, ws.map (x.entry.header.term, ·) <:+: acc ∧
    slices x.entry.header.entrySz x.entry.data = ws.map ClientWrite.bytes ∧
    x.supplements = ws.flatMap ClientWrite.supp

theorem OwnWrites.append {acc acc' : List (Int × ClientWrite)} {x : CoalescedEntry}
    (h : OwnWrites acc x) : OwnWrites (acc ++ acc') x := by
  obtain ⟨ws, hin, hrest⟩ := h
  exact ⟨ws, hin.trans (List.prefix_append acc acc').isInfix, hrest⟩

/-- The writes `pending` are in the buffer.  A leader has accepted them in its term, and holds all
their supplements. -/
structure InBuffer (acc : List (Int × ClientWrite)) (ri : RaftInstance n) (co : CoWr)
    (pending : List (Int × ClientWrite)) : Prop where
  accepted : pending <:+ acc
  fills : co.Fills ri.entryMaxDataSize (pending.map Prod.snd)
  kept : co.ws.ws = [] ∨ co.ws.ws = pending.flatMap (·.2.supp)
  term : ri.state = .leader → ∀ x ∈ pending, x.1 = ri.leader.leaderTerm
  supp : ri.state = .leader → co.ws.ws = pending.flatMap (·.2.supp)

namespace InBuffer

variable {acc pending : List (Int × ClientWrite)} {ri : RaftInstance n} {co : CoWr}

/-- An empty buffer. -/
theorem zero (acc : List (Int × ClientWrite)) (ri : RaftInstance n) :
    InBuffer acc ri .zero [] where
  accepted := List.nil_suffix
  fills := (CoWr.holds_zero ri.entryMaxDataSize_pos).fills
  kept := .inl rfl
  term := fun _ _ h => by cases h
  supp := fun _ => rfl

/-- A buffer without writes holds no supplements either. -/
theorem eq_nil (h : InBuffer acc ri co pending) (hnone : co.nentries = 0) :
    pending = [] ∧ co.ws.ws = [] := by
  have hlen := h.fills.nentries
  rw [hnone, List.length_map] at hlen
  have hpending : pending = [] := List.length_eq_zero_iff.mp hlen.symm
  have hkept := h.kept
  rw [hpending] at hkept
  exact ⟨hpending, hkept.elim id id⟩

end InBuffer

/-- Sizes that add up to nothing are all zero. -/
theorem replicate_zero_of_sum {sizes : List Nat} (h : sizes.sum = 0) :
    List.replicate sizes.length 0 = sizes :=
  (List.eq_replicate_iff.mpr ⟨rfl, List.sum_eq_zero_iff_forall_eq_nat.mp h⟩).symm

section

variable [Externals] {s : ClientProc n} {acc pending : List (Int × ClientWrite)}

/-- The entry that a leader makes of its buffer. -/
theorem ownWrites_coalescedEntry (hacc : RaftServer.Accepts s.proc.ri)
    (h : InBuffer acc s.proc.ri s.coWr pending) :
    OwnWrites acc ⟨Coalesce.coalescedEntry s, s.coWr.ws.ws⟩ := by
  have hlead : s.proc.ri.state = .leader := by simpa [RaftInstance.isLeader] using hacc.leads
  have hsum := h.fills.sum_sizes
  have hdata : s.coWr.buffer.take s.coWr.entrySizes.sum = s.coWr.buffer := by
    rw [hsum, ← h.fills.length_buffer, List.take_length]
  have hsizes : (if s.coWr.entrySizes.sum = 0 then List.replicate s.coWr.entrySizes.length 0
      else s.coWr.entrySizes) = s.coWr.entrySizes := by
    split
    · exact replicate_zero_of_sum ‹_›
    · rfl
  refine ⟨pending.map Prod.snd, ?_, ?_, ?_⟩
  · have hterm : (Coalesce.coalescedEntry s).header.term = s.proc.ri.leader.leaderTerm := hacc.term.symm
    have hsame : (pending.map Prod.snd).map ((Coalesce.coalescedEntry s).header.term, ·) = pending := by
      rw [List.map_map]
      refine (List.map_congr_left fun x hx => ?_).trans (List.map_id pending)
      rw [hterm, ← h.term hlead x hx]
      rfl
    rw [hsame]
    exact h.accepted.isInfix
  · rw [← h.fills.slices]
    simp only [Coalesce.coalescedEntry, RaftServer.entryOf, hsizes, hdata]
  · rw [h.supp hlead, List.flatMap_map]

/-- The entries `wr` and those of the request in hand are made of writes of their terms. -/
def AllOwn (acc : List (Int × ClientWrite)) (wr : List CoalescedEntry) (s : ClientProc n) : Prop :=
  ∀ x ∈ wr ++ s.written, OwnWrites (acc ++ s.accepted) x

/-- The same, and the buffer holds writes of the leader's term. -/
structure Owns (acc : List (Int × ClientWrite)) (wr : List CoalescedEntry) (s : ClientProc n) :
    Prop where
  written : AllOwn acc wr s
  buffer : ∃ pending, InBuffer (acc ++ s.accepted) s.proc.ri s.coWr pending

variable {wr : List CoalescedEntry}

/-- A leader that accepts requests writes its buffer. -/
theorem Owns.flushed (h : Owns acc wr s) (hacc : RaftServer.Accepts s.proc.ri) {fuse : Option Nat} :
    Owns acc wr (Coalesce.flushed s fuse) := by
  obtain ⟨pending, hpending⟩ := h.buffer
  refine ⟨fun x hx => ?_, [], InBuffer.zero _ _⟩
  rw [Coalesce.flushed, ← List.append_assoc, List.mem_append] at hx
  rcases hx with hx | hx
  · exact h.written x hx
  · obtain rfl := List.mem_singleton.mp hx
    exact ownWrites_coalescedEntry hacc hpending

omit [Externals] in
/-- A write that the leader accepts goes into its buffer, and so do its supplements. -/
theorem Owns.taken {w : ClientWrite} (h : Owns acc wr s) (hacc : RaftServer.Accepts s.proc.ri)
    (hroom : ∃ ws, s.coWr.Holds s.proc.ri.entryMaxDataSize ws) (hfits : ¬ Coalesce.overflows s w)
    (hsupp : w.supp = [] ∨ s.coWr.ws.ws.length + w.supp.length ≤ RaftServer.netWrSuppMax) :
    Owns acc wr (Coalesce.taken s w) := by
  obtain ⟨pending, hpending⟩ := h.buffer
  obtain ⟨_, hroom⟩ := hroom
  have hlead : s.proc.ri.state = .leader := by simpa [RaftInstance.isLeader] using hacc.leads
  have hholds := hpending.fills.holds hroom.count.ne hroom.room.ne
  have hws : (s.coWr.merge w.supp).ws.ws =
      (pending ++ [(s.proc.ri.logHdr.term, w)]).flatMap (·.2.supp) := by
    rw [CoWr.merge_ws hsupp, hpending.supp hlead]
    simp
  refine ⟨fun x hx => ?_, pending ++ [(s.proc.ri.logHdr.term, w)], ?_, ?_, .inr hws, ?_, fun _ => hws⟩
  · rw [Coalesce.taken, ← List.append_assoc]
    exact (h.written x hx).append
  · obtain ⟨front, hfront⟩ := hpending.accepted
    exact ⟨front, by rw [Coalesce.taken, ← List.append_assoc, hfront, List.append_assoc]⟩
  · rw [List.map_append]
    refine (hholds.merge w.supp).push ?_
    rw [CoWr.merge_totalSize]
    exact not_lt.mp hfits
  · intro _ x hx
    rcases List.mem_append.mp hx with hx | hx
    · exact hpending.term hlead x hx
    · obtain rfl := List.mem_singleton.mp hx
      exact hacc.term.symm

/-- The supplements fit into the buffer. -/
def SuppFits (co : CoWr) (w : ClientWrite) : Prop :=
  w.supp = [] ∨ co.ws.ws.length + w.supp.length ≤ RaftServer.netWrSuppMax

variable {opts : Fin n → Options} {c : Clients n} {p : Fin n}

/-- The buffer is written. -/
theorem Owns.wp_flush {Q : Unit → ClientProc n → Prop} (h : Owns acc wr s)
    (hs : Clients.Serving opts c p s) (hacc : RaftServer.Accepts s.proc.ri)
    (hnone : s.coWr.nentries = 0 → Q () s)
    (hQ : ∀ fuse, Clients.Ready opts c p (Coalesce.flushed s fuse) →
      Owns acc wr (Coalesce.flushed s fuse) → Q () (Coalesce.flushed s fuse)) :
    Coalesce.writeCoalescedEntries.wp Q (AllOwn acc wr) s :=
  Coalesce.wp_writeCoalescedEntries hs.consistent (fun _ => h.written) hnone
    fun fuse hne hlead hterm => hQ fuse ⟨hs.flushed hlead hne hterm, [],
      CoWr.holds_zero (RaftInstance.entryMaxDataSize_pos _)⟩ (h.flushed hacc)

/-- A request. -/
theorem Owns.wp_request {coalescedWrites fresh : Bool} {w : ClientWrite} (h : Owns acc wr s)
    (hr : Clients.Ready opts c p s) (hco : s.coWr = c.coWr p)
    (hsupp : SuppFits (c.receiving p w) w) :
    (Coalesce.clientRncrComplete coalescedWrites fresh w).wp
      (fun _ s' => Clients.Ready opts c p s' ∧ Owns acc wr s') (AllOwn acc wr) s := by
  refine Coalesce.wp_clientRncrComplete
    (J := fun s' => Clients.Ready opts c p s' ∧ RaftServer.Accepts s'.proc.ri ∧ Owns acc wr s' ∧
      SuppFits s'.coWr w)
    (K := fun s' => Clients.Serving opts c p s' ∧ RaftServer.Accepts s'.proc.ri ∧ Owns acc wr s' ∧
      s'.coWr.nentries ≠ 0)
    (fun _ => h.written) (fun _ => ⟨hr, h⟩) (fun hacc hover => ⟨hr, hacc, h, ?_⟩)
    (fun hacc hover => ?_) ?_ ?_ ?_ ?_
  · rw [Coalesce.overflows, hr.1.maxDataSize, hco] at hover
    rw [Clients.receiving, if_neg hover] at hsupp
    rw [hco]
    exact hsupp
  · rw [Coalesce.overflows, hr.1.maxDataSize, hco] at hover
    rw [Clients.receiving, if_pos hover] at hsupp
    refine h.wp_flush hr.1 hacc (fun hnone => ⟨hr, hacc, h, ?_⟩) fun fuse hready howns =>
      ⟨hready, ⟨hacc.leads, hacc.term, hacc.applied⟩, howns, hsupp⟩
    -- a buffer without writes holds no supplements either
    obtain ⟨pending, hpending⟩ := h.buffer
    have hws := (hpending.eq_nil hnone).2
    rw [SuppFits, hws]
    exact hsupp
  · rintro s' ⟨⟨hs', hholds⟩, hacc, howns, hsupp'⟩ hfits
    obtain ⟨ws, hws⟩ := hholds
    exact ⟨hs'.taken hws hfits, hacc, howns.taken hacc ⟨ws, hws⟩ hfits hsupp',
      by simp [Coalesce.taken, CoWr.push]⟩
  · rintro s' ⟨_, _, howns, _⟩ _ x hx
    rw [Coalesce.accepting, ← List.append_assoc]
    exact (howns.written x hx).append
  · rintro s' ⟨hs', _, howns, _⟩ hfull
    obtain ⟨ws, hws⟩ := hs'.fills
    simp only [Coalesce.fullAfter, not_or] at hfull
    exact ⟨⟨hs', ws, hws.holds hfull.2.1 hfull.2.2⟩, howns⟩
  · rintro s' ⟨hs', hacc, howns, hne⟩ _
    exact howns.wp_flush hs' hacc (fun hnone => absurd hnone hne)
      fun fuse hready howns' => ⟨hready, howns'⟩

end

/-! ## Runs -/

namespace Clients

/-- The writes a server has accepted, each with the term it led. -/
def acceptances (c : Clients n) (p : Fin n) : List (Int × ClientWrite) :=
  (c.accepted.filter (·.1 = p)).map (·.2)

/-- An election that is won finds the buffer empty, and the supplements of a write fit into the
buffer it goes into. -/
def BufferHandled (c : Clients n) : ClientEvent n → Prop
  | .peer e => c.cluster.winsElection e = true → (c.coWr e.server).nentries = 0
  | .request p _ _ w _ _ => SuppFits (c.receiving p w) w
  | .coWrTimer .. => True

instance (co : CoWr) (w : ClientWrite) : Decidable (SuppFits co w) :=
  inferInstanceAs (Decidable (_ ∨ _))

instance (c : Clients n) : ∀ e : ClientEvent n, Decidable (BufferHandled c e)
  | .peer _ => inferInstanceAs (Decidable (_ → _))
  | .request .. => inferInstanceAs (Decidable (SuppFits _ _))
  | .coWrTimer .. => .isTrue trivial

/-- The entries of `p` are made of writes of their terms, and its buffer holds writes of the term it
leads. -/
structure Own (c : Clients n) (p : Fin n) : Prop where
  written : ∀ x ∈ c.writtenBy p, OwnWrites (c.acceptances p) x
  buffer : ∃ pending, InBuffer (c.acceptances p) (c.cluster.servers p) (c.coWr p) pending

section

variable [Externals] {opts : Fin n → Options} {c : Clients n} {p : Fin n}

omit [Externals] in
theorem Own.initial (opts : Fin n → Options) (p : Fin n) : (Clients.initial opts).Own p :=
  ⟨fun x hx => by simp [writtenBy, Clients.initial] at hx, [], InBuffer.zero _ _⟩

/-- A request to `p`. -/
theorem Own.serve (h : c.Own p) (hsound : Sound opts c) {fuse : Option Nat} {keep : Nat}
    {m : ClientHandler n Unit}
    (hm : Owns (c.acceptances p) (c.writtenBy p) (c.clientProc p fuse) →
      Ready opts c p (c.clientProc p fuse) →
      m.wp (fun _ s' => Ready opts c p s' ∧ Owns (c.acceptances p) (c.writtenBy p) s')
        (AllOwn (c.acceptances p) (c.writtenBy p)) (c.clientProc p fuse)) :
    (c.serve p fuse keep m).Own p := by
  unfold Clients.serve
  split
  · rename_i hserves
    obtain ⟨pending, hpending⟩ := h.buffer
    have hstart : Owns (c.acceptances p) (c.writtenBy p) (c.clientProc p fuse) :=
      ⟨fun x hx => by simpa [clientProc] using h.written x (by simpa [clientProc] using hx),
        pending, by simpa [clientProc] using hpending⟩
    have hwp := hm hstart ⟨hsound.serving hserves fuse, hsound.holds p⟩
    have hacc : ∀ (s : ClientProc n) (ri : RaftInstance n) (co : CoWr),
        (c.commit p s ri co).acceptances p = c.acceptances p ++ s.accepted := by
      intro s ri co
      simp [acceptances, commit, List.filter_map, Function.comp_def]
    have hwr : ∀ (s : ClientProc n) (ri : RaftInstance n) (co : CoWr),
        (c.commit p s ri co).writtenBy p = c.writtenBy p ++ s.written := by
      intro s ri co
      simp [writtenBy, commit, List.filter_map, Function.comp_def]
    cases hres : m (c.clientProc p fuse) with
    | ok u s =>
      obtain ⟨-, hwritten, hbuffer⟩ := wp_of_ok hres hwp
      refine ⟨?_, ?_⟩
      · rw [hacc, hwr]
        exact hwritten
      · rw [hacc]
        simpa [commit] using hbuffer
    | abort s =>
      have hwritten := wp_of_abort hres hwp
      refine ⟨?_, [], ?_⟩
      · rw [hacc, hwr]
        exact hwritten
      · simpa [commit] using InBuffer.zero _ _
  · exact h

omit [Externals] in
/-- A request to another server. -/
theorem Own.serve_ne (h : c.Own p) {q : Fin n} (hq : p ≠ q) {fuse : Option Nat} {keep : Nat}
    {m : ClientHandler n Unit} : (c.serve q fuse keep m).Own p := by
  have hcommit : ∀ (s : ClientProc n) (ri : RaftInstance n) (co : CoWr),
      (c.commit q s ri co).Own p := by
    intro s ri co
    have hacc : (c.commit q s ri co).acceptances p = c.acceptances p := by
      simp [acceptances, commit, List.filter_map, Function.comp_def, hq.symm]
    have hwr : (c.commit q s ri co).writtenBy p = c.writtenBy p := by
      simp [writtenBy, commit, List.filter_map, Function.comp_def, hq.symm]
    refine ⟨?_, ?_⟩
    · rw [hacc, hwr]
      exact h.written
    · rw [hacc]
      simpa [commit, Function.update_of_ne hq] using h.buffer
  unfold Clients.serve
  split
  · split
    · exact hcommit _ _ _
    · exact hcommit _ _ _
  · exact h

/-- An event of the cluster that the buffer of its server is ready for. -/
theorem InBuffer.coWrAfter {e : Event n} {pending : List (Int × ClientWrite)}
    (h : InBuffer (c.acceptances e.server) (c.cluster.servers e.server) (c.coWr e.server) pending)
    (hen : c.cluster.enabled e = true) (hready : BufferHandled c (.peer e)) :
    ∃ pending', InBuffer (c.acceptances e.server) ((c.cluster.step e).servers e.server)
      (c.coWrAfter e) pending' := by
  have hsame := fun hwins => Cluster.sameLeadership_step (c := c.cluster) (e := e) hwins e.server
  have hsize : ((c.cluster.step e).servers e.server).entryMaxDataSize =
      (c.cluster.servers e.server).entryMaxDataSize := by
    unfold RaftInstance.entryMaxDataSize
    rw [Cluster.step_opts]
  have hserver : ∀ u s, c.cluster.handler e (c.cluster.proc e) = .ok u s →
      (c.cluster.step e).servers e.server = s.ri := by
    intro u s hres
    simp [Cluster.step, hen, hres, Cluster.commit]
  unfold Clients.coWrAfter
  cases hres : c.cluster.handler e (c.cluster.proc e) with
  | abort s => exact ⟨[], InBuffer.zero _ _⟩
  | ok u s =>
    dsimp only
    refine ⟨pending, h.accepted, ?_, ?_, ?_, ?_⟩
    · rw [hsize]
      split
      · exact { h.fills with }
      · exact h.fills
    · split
      · refine .inl ?_
        unfold CoWr.destroySupplements RaftServer.netSmWriteSupplementDestroy
        dsimp only
        split
        · assumption
        · rfl
      · exact h.kept
    · intro hlead x hx
      cases hwins : c.cluster.winsElection e with
      | true =>
        rw [(h.eq_nil (hready hwins)).1] at hx
        cases hx
      | false =>
        obtain ⟨hlead₀, hterm⟩ := hsame hwins hlead
        rw [hterm]
        exact h.term hlead₀ x hx
    · intro hlead
      rw [hserver u s hres] at hlead
      rw [if_neg (by simp [RaftInstance.isFollower, hlead])]
      cases hwins : c.cluster.winsElection e with
      | true =>
        obtain ⟨hnil, hws⟩ := h.eq_nil (hready hwins)
        rw [hnil]
        exact hws
      | false =>
        rw [← hserver u s hres] at hlead
        exact h.supp (hsame hwins hlead).1

/-- One event. -/
theorem Own.step (h : c.Own p) (hsound : Sound opts c) {e : ClientEvent n}
    (he : BufferHandled c e) : (c.step e).Own p := by
  cases e with
  | request q coalescedWrites fresh w fuse keep =>
    by_cases hq : q = p
    · subst hq
      exact h.serve hsound fun howns hready => howns.wp_request hready rfl he
    · exact h.serve_ne (Ne.symm hq)
  | coWrTimer q fresh fuse keep =>
    by_cases hq : q = p
    · subst hq
      refine h.serve hsound fun howns hready => ?_
      exact Coalesce.wp_leaderCoWrTimerExpired (fun _ => howns.written) (fun _ => ⟨hready, howns⟩)
        fun hacc => howns.wp_flush hready.1 hacc (fun _ => ⟨hready, howns⟩)
          fun fuse hr ho => ⟨hr, ho⟩
    · exact h.serve_ne (Ne.symm hq)
  | peer e =>
    unfold Clients.step
    dsimp only
    split
    · exact h
    · rename_i hidle
      have hen : c.cluster.enabled e = true := by simpa using (not_or.mp hidle).2
      refine ⟨h.written, ?_⟩
      change ∃ pending, InBuffer (c.acceptances p) ((c.cluster.step e).servers p)
        (Function.update c.coWr e.server (c.coWrAfter e) p) pending
      by_cases hp : p = e.server
      · subst hp
        obtain ⟨pending, hpending⟩ := h.buffer
        obtain ⟨pending', hpending'⟩ := InBuffer.coWrAfter hpending hen he
        exact ⟨pending', by rwa [Function.update_self]⟩
      · rw [Function.update_of_ne hp, Cluster.step_servers_of_ne hp]
        exact h.buffer

end

end Clients

/-- In every run in which each election that is won finds the buffer of its winner empty, and the
supplements of each write fit into the buffer it goes into: every entry that a server has made of
its buffer holds writes that this server has accepted as the leader of the entry's term, and all
their supplements. -/
theorem writes_within_leadership [Externals] {opts : Fin n → Options} {c : Clients n}
    (h : Clients.Reach Clients.BufferHandled opts c) {p : Fin n} {x : CoalescedEntry}
    (hx : (p, x) ∈ c.written) : OwnWrites (c.acceptances p) x := by
  have hown : c.Own p := by
    clear hx
    induction h with
    | init => exact .initial opts p
    | step e hreach he ih => exact ih.step hreach.sound he
  exact hown.written x (List.mem_map.mpr ⟨(p, x), List.mem_filter.mpr ⟨hx, by simp⟩, rfl⟩)

/-- A write with one supplement. -/
def suppliedWrite : ClientWrite := ⟨[1, 2], [3], [⟨.write, none, [1], [2]⟩]⟩

/-- The entry that the write becomes in `term`, at `idx`. -/
def suppliedEntry (crc : Nat) (idx term : Int) : CoalescedEntry :=
  ⟨⟨⟨crc, 3, idx, term, [3], 1, false, 1⟩, [1, 2, 3]⟩, [⟨.write, none, [1], [2]⟩]⟩

/-- A leader takes the write and writes its buffer. -/
def writesInTerm : List (ClientEvent 3) :=
  marksTerm.map .peer ++ [.request 0 true true suppliedWrite none 0, .coWrTimer 0 true none 0]

theorem writes_within_leadership_writesInTerm :
    (0, suppliedEntry 44 1 1) ∈ (afterClientRun writesInTerm).written ∧
      OwnWrites ((afterClientRun writesInTerm).acceptances 0) (suppliedEntry 44 1 1) := by
  have hall : @Clients.AllEvents 3 sampleExternals Clients.BufferHandled (.initial threeServers)
      writesInTerm := by decide +kernel
  have hmem : (0, suppliedEntry 44 1 1) ∈ (afterClientRun writesInTerm).written := by decide +kernel
  exact ⟨hmem, @writes_within_leadership 3 sampleExternals threeServers _
    (reach_afterClientRun_of hall) 0 _ hmem⟩

/-- The leader of term 1 takes the write, loses its quorum, is elected again in term 2 and then
writes its buffer. -/
def crossesTerms : List (ClientEvent 3) :=
  marksTerm.map .peer ++ [.request 0 true true suppliedWrite none 0] ++
    ([.expire 0, .deliver 2 11, .deliver 0 12, .deliver 2 14, .deliver 0 15, .send 0, .deliver 1 16,
      .sync 0, .sync 1, .deliver 0 18, .send 1, .deliver 0 19, .apply 0] : List (Event 3)).map .peer ++
    [.coWrTimer 0 true none 0]

/-- The write was accepted in term 1 and is in an entry of term 2. -/
theorem crossesTerms_not_own :
    @Clients.Reach 3 sampleExternals Clients.anyEvent threeServers (afterClientRun crossesTerms) ∧
      (0, suppliedEntry 82 2 2) ∈ (afterClientRun crossesTerms).written ∧
      ¬ OwnWrites ((afterClientRun crossesTerms).acceptances 0) (suppliedEntry 82 2 2) := by
  refine ⟨reach_afterClientRun _, by decide +kernel, ?_⟩
  have hacc : (afterClientRun crossesTerms).acceptances 0 = [(1, suppliedWrite)] := by decide +kernel
  rw [hacc]
  rintro ⟨ws, hin, hparts, -⟩
  cases ws with
  | nil => exact absurd hparts (by decide)
  | cons w ws =>
    have hmem := hin.subset (List.mem_cons_self)
    simp [suppliedEntry] at hmem

end NiovaRaft
