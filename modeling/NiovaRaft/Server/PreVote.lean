import NiovaRaft.Recovery.Votes
import NiovaRaft.Server.Roles
import NiovaRaft.Spec.Rounds

/-!
# Pre-votes

A server asks for pre-votes so that it does not disturb a leader that the others hear from: it
persists a new term only after a majority would vote for it in that term.  A reply to a pre-vote
says nothing of the request it answers, and the tally is cleared where a round begins.  So a reply
to a request of an earlier round, in an earlier term or not, counts in the round it arrives in.

`Rounds` adds to a run which message each message answers, and where each server entered its last
round.  As long as every granted reply that is counted answers a request of the round, a server
that stands has been granted its term by a majority.
-/

namespace NiovaRaft

open Base Base.Handler RaftServer

variable {n : Nat}

/-! ## Rounds of a run -/

/-- The event is a timer that expires. -/
def Event.isTimer (e : Event n) : Bool :=
  match e.action with
  | .timer _ _ _ => true
  | _ => false

/-- The position of the message that the event delivers. -/
def Event.deliveredAt (e : Event n) : Option Nat :=
  match e.action with
  | .deliver k => some k
  | _ => none

/-- A pre-vote that `q` grants to `p`. -/
def Packet.grantsPreVote (pkt : Packet n) (p q : Fin n) : Bool :=
  match pkt.msg with
  | .preVoteReply m => decide (pkt.src = q ∧ pkt.dst = p ∧ m.votedGranted = true)
  | _ => false

/-- A pre-vote that `p` asks `q` for, with the proposed term `t`. -/
def Packet.asksPreVote (pkt : Packet n) (p q : Fin n) (t : Int) : Bool :=
  match pkt.msg with
  | .preVoteRequest m => decide (pkt.src = p ∧ pkt.dst = q ∧ m.proposedTerm = t)
  | _ => false

/-- A cluster, with the position of the message that each message answers, and the number of
messages that had been sent when each server last entered `RAFT_STATE_CANDIDATE_PREVOTE`. -/
structure Rounds (n : Nat) where
  cluster : Cluster n
  answers : List (Option Nat)
  entered : Fin n → Nat

/-- The event has its server enter `RAFT_STATE_CANDIDATE_PREVOTE`. -/
def Cluster.entersPrevote [Externals] (c : Cluster n) (e : Event n) : Bool :=
  decide (c.enabled e = true ∧ e.isTimer = true ∧
    ((c.step e).servers e.server).state = .candidatePrevote)

namespace Rounds

def initial (opts : Fin n → Options) : Rounds n := ⟨.initial opts, [], fun _ => 0⟩

/-- One event. -/
def step [Externals] (r : Rounds n) (e : Event n) : Rounds n where
  cluster := r.cluster.step e
  answers := r.answers ++
    List.replicate ((r.cluster.step e).net.length - r.cluster.net.length) e.deliveredAt
  entered := if r.cluster.entersPrevote e = true
    then Function.update r.entered e.server r.cluster.net.length else r.entered

/-- The runs whose every event satisfies `ok` where it takes place. -/
inductive Reach [Externals] (ok : Rounds n → Event n → Prop) (opts : Fin n → Options) :
    Rounds n → Prop
  | init : Reach ok opts (initial opts)
  | step {r : Rounds n} (e : Event n) : Reach ok opts r → ok r e → Reach ok opts (r.step e)

/-- `q` has granted a request for the term `t` that `p` sent in its last round. -/
def Granted (r : Rounds n) (p q : Fin n) (t : Int) : Prop :=
  ∃ k < r.cluster.net.length, ∃ j < r.cluster.net.length, r.answers[k]? = some (some j) ∧
    r.entered p ≤ j ∧ (r.cluster.net[k]?).any (·.grantsPreVote p q) = true ∧
    (r.cluster.net[j]?).any (·.asksPreVote p q t) = true

instance (r : Rounds n) (p q : Fin n) (t : Int) : Decidable (r.Granted p q t) :=
  inferInstanceAs (Decidable (∃ k < r.cluster.net.length, ∃ j < r.cluster.net.length, _))

/-- A majority, the server itself included, has granted it the term `t` in its last round. -/
def MajorityGrants (r : Rounds n) (p : Fin n) (t : Int) : Prop :=
  Majority (Finset.univ.filter fun q => q = p ∨ r.Granted p q t)

/-- A granted pre-vote that is counted answers a request of the round. -/
def CountsRound (r : Rounds n) (e : Event n) : Prop :=
  (r.cluster.servers e.server).state = .candidatePrevote →
    ∀ pkt ∈ r.cluster.delivered e, pkt.grantsPreVote e.server pkt.src = true →
      ∀ k ∈ e.deliveredAt, (r.answers[k]?).join.any (r.entered e.server ≤ ·) = true

instance (r : Rounds n) (p : Fin n) (t : Int) : Decidable (r.MajorityGrants p t) :=
  inferInstanceAs (Decidable (_ < _))

instance (r : Rounds n) (e : Event n) : Decidable (r.CountsRound e) :=
  inferInstanceAs (Decidable (_ → ∀ pkt ∈ r.cluster.delivered e, _ → ∀ k ∈ e.deliveredAt, _))

/-- A run. -/
def run [Externals] (r : Rounds n) (es : List (Event n)) : Rounds n := es.foldl step r

/-- Every event of a run satisfies `ok` where it takes place. -/
def AllEvents [Externals] (ok : Rounds n → Event n → Prop) : Rounds n → List (Event n) → Prop
  | _, [] => True
  | r, e :: es => ok r e ∧ AllEvents ok (r.step e) es

instance decidableAllEvents [Externals] {ok : Rounds n → Event n → Prop}
    [∀ r e, Decidable (ok r e)] :
    ∀ (r : Rounds n) (es : List (Event n)), Decidable (AllEvents ok r es)
  | _, [] => .isTrue trivial
  | r, e :: es => @instDecidableAnd _ _ _ (decidableAllEvents (r.step e) es)

theorem Reach.of_allEvents [Externals] {ok : Rounds n → Event n → Prop} {opts : Fin n → Options}
    {r : Rounds n} (h : Reach ok opts r) (es : List (Event n)) (hes : AllEvents ok r es) :
    Reach ok opts (r.run es) := by
  induction es generalizing r with
  | nil => exact h
  | cons e es ih => exact ih (h.step e hes.1) hes.2

end Rounds

/-- The event makes `p` a full candidate, or has it persist a vote for itself. -/
def Cluster.Stands [Externals] (c : Cluster n) (e : Event n) (p : Fin n) : Prop :=
  ((c.servers p).state ≠ .candidate ∧ ((c.step e).servers p).state = .candidate) ∨
    ((c.servers p).logHdr.term < ((c.step e).servers p).logHdr.term ∧
      ((c.step e).servers p).logHdr.votedFor = some p)

instance [Externals] (c : Cluster n) (e : Event n) (p : Fin n) : Decidable (c.Stands e p) :=
  inferInstanceAs (Decidable (_ ∨ _))

/-! ## One event -/

namespace Cluster

/-- The event delivers a pre-vote that `q` has granted. -/
def GrantArrives (c : Cluster n) (e : Event n) (q : Fin n) : Prop :=
  ∃ pkt m, c.delivered e = some pkt ∧ pkt.src = q ∧ pkt.msg = .preVoteReply m ∧
    m.votedGranted = true

theorem deliveredAt_of_delivered {c : Cluster n} {e : Event n} {pkt : Packet n}
    (h : c.delivered e = some pkt) :
    ∃ k, e.deliveredAt = some k ∧ c.net[k]? = some pkt ∧ pkt.dst = e.server := by
  unfold delivered at h
  split at h
  · rename_i k hact
    rw [Option.filter_eq_some_iff] at h
    exact ⟨k, by simp [Event.deliveredAt, hact], h.1, by simpa using h.2⟩
  · cases h

/-- The pre-votes that an event sends: a timer asks for the next term, and a request is answered. -/
structure AsksAndAnswers (c : Cluster n) (e : Event n) (out : List (Fin n × RpcMsg n)) : Prop where
  request : ∀ dst m, (dst, .preVoteRequest m) ∈ out →
    e.isTimer = true ∧ m.proposedTerm = (c.servers e.server).logHdr.term + 1
  reply : ∀ dst m, (dst, .preVoteReply m) ∈ out →
    ∃ pkt vreq, c.delivered e = some pkt ∧ pkt.src = dst ∧ pkt.msg = .preVoteRequest vreq

section Step

variable {c : Cluster n} {e : Event n}

theorem AsksAndAnswers.of_reply {out : List (Fin n × RpcMsg n)} {pkt : Packet n}
    {vreq : VoteRequestMsg} {reply : VoteReplyMsg n} (hdel : c.delivered e = some pkt)
    (hmsg : pkt.msg = .preVoteRequest vreq) (h : preVotes out = [(pkt.src, .preVoteReply reply)]) :
    AsksAndAnswers c e out where
  request := by
    intro dst m hm
    have hmem : (dst, RpcMsg.preVoteRequest m) ∈ preVotes out := List.mem_filter.mpr ⟨hm, rfl⟩
    rw [h, List.mem_singleton] at hmem
    cases hmem
  reply := by
    intro dst m hm
    have hmem : (dst, RpcMsg.preVoteReply m) ∈ preVotes out := List.mem_filter.mpr ⟨hm, rfl⟩
    rw [h, List.mem_singleton] at hmem
    cases hmem
    exact ⟨pkt, vreq, hdel, rfl, hmsg⟩

theorem AsksAndAnswers.of_none {out : List (Fin n × RpcMsg n)} (h : preVotes out = []) :
    AsksAndAnswers c e out where
  request := by
    intro dst m hm
    have hmem : (dst, RpcMsg.preVoteRequest m) ∈ preVotes out := List.mem_filter.mpr ⟨hm, rfl⟩
    rw [h] at hmem
    cases hmem
  reply := by
    intro dst m hm
    have hmem : (dst, RpcMsg.preVoteReply m) ∈ preVotes out := List.mem_filter.mpr ⟨hm, rfl⟩
    rw [h] at hmem
    cases hmem

/-- Run by the server of the event, `m` moves its round on as the event allows, and sends no other
pre-votes. -/
def Rounded (c : Cluster n) (e : Event n) (m : Server n Unit) : Prop :=
  m.wp
    (fun _ s => RoundStep e.isTimer (c.GrantArrives e) (c.servers e.server) s.ri ∧
      AsksAndAnswers c e s.out)
    (fun d => OwnVoteWon (c.GrantArrives e) (c.servers e.server) d.ri.store.db.hdr ∧
      AsksAndAnswers c e d.out) (c.proc e)

variable {m : Server n Unit}

/-- No timer starts it, and it sends no pre-vote. -/
theorem Rounded.of_kept {granted : Fin n → Prop} (htimer : e.isTimer = false)
    (hgranted : ∀ q, granted q → c.GrantArrives e q)
    (hm : m.wp (fun _ s => RoundKept granted (c.proc e) s) (RoundLeft granted (c.proc e))
      (c.proc e)) : Rounded c e m := by
  unfold Rounded
  rw [htimer]
  exact wp_mono hm (fun _ s h => ⟨h.step.mono hgranted, .of_none h.sent⟩)
    fun d h => ⟨h.vote.mono hgranted, .of_none h.sent⟩

/-- It leaves the role as it is, outside a round or where no timer starts it. -/
theorem Rounded.of_role (hmem : (c.proc e).ri.store.db.hdr = (c.proc e).ri.logHdr)
    (htimer : e.isTimer = true → (c.proc e).ri.state ≠ .candidatePrevote)
    (hm : m.wp (fun _ s => roleView s = roleView (c.proc e))
      (fun d => (roleView d).2 = (roleView (c.proc e)).2) (c.proc e)) : Rounded c e m := by
  refine wp_mono (wp_keepsRole_round (.refl hmem) hm) (fun _ s h => ⟨?_, .of_none h.sent⟩)
    fun d h => ⟨h.vote, .of_none h.sent⟩
  obtain ⟨hhdr, -, hcounts, hstands, hvote⟩ := h.step
  exact ⟨hhdr, fun hs he => absurd (hcounts hs rfl).1 (htimer he), fun hs _ => hcounts hs rfl,
    hstands, hvote⟩

theorem Rounded.begins (htimer : e.isTimer = true) : Rounded c e (becomeCandidate true) := by
  unfold Rounded
  rw [htimer]
  refine wp_mono wp_becomeCandidate_begins (fun _ s h => ⟨h.1, ⟨?_, ?_⟩⟩) fun _ h => h.elim
  · intro dst m hm
    rcases h.2.2 _ hm with hold | ⟨vreq, hm', hterm⟩
    · cases hold
    · cases hm'
      exact ⟨htimer, hterm⟩
  · intro dst m hm
    rcases h.2.2 _ hm with hold | ⟨vreq, hm', -⟩
    · cases hold
    · cases hm'

variable [Externals]

/-- The handler of a message. -/
theorem Rounded.deliver {pkt : Packet n} (hdel : c.delivered e = some pkt)
    (hmem : (c.proc e).ri.store.db.hdr = (c.proc e).ri.logHdr) (htimer : e.isTimer = false) :
    Rounded c e (processReceivedServerMsg pkt.src pkt.msg) := by
  cases hmsg : pkt.msg with
  | preVoteRequest m =>
    have hanswer := @wp_processVoteRequestCommon_preVote n (c.proc e) (c.GrantArrives e) pkt.src m
      hmem
    unfold Rounded
    rw [htimer]
    refine wp_mono hanswer (fun _ s h => ⟨h.1, ?_⟩) fun d h => ⟨h.vote, .of_none h.sent⟩
    obtain ⟨-, reply, hout⟩ := h
    exact .of_reply hdel hmsg hout
  | voteRequest m => exact .of_kept htimer (fun _ => id) (wp_processVoteRequestCommon_round hmem)
  | preVoteReply m =>
    refine .of_kept htimer ?_ (wp_processVoteReplyCommon_round hmem)
    rintro q ⟨rfl, -, hgranted⟩
    exact ⟨pkt, m, hdel, rfl, hmsg, hgranted⟩
  | voteReply m =>
    refine .of_kept htimer ?_ (wp_processVoteReplyCommon_round hmem)
    rintro q ⟨-, hpre, -⟩
    cases hpre
  | appendEntriesRequest m =>
    exact .of_kept htimer (fun _ => id) (wp_processAppendEntriesRequest_round hmem)
  | appendEntriesReply m =>
    exact .of_kept htimer (fun _ => id) (wp_processAppendEntriesReply_round hmem)
  | syncIdxUpdate m =>
    exact .of_role hmem (fun h => absurd h (by simp [htimer]))
      (wp_of_keepsRole keepsRole_processSyncIdxUpdate)

theorem rounded_handler (hmem : (c.proc e).ri.store.db.hdr = (c.proc e).ri.logHdr) :
    Rounded c e (c.handler e) := by
  -- a handler without a timer that leaves the role as it is
  have hrole : ∀ {m : Server n Unit}, e.isTimer = false →
      m.wp (fun _ s => roleView s = roleView (c.proc e))
        (fun d => (roleView d).2 = (roleView (c.proc e)).2) (c.proc e) → Rounded c e m :=
    fun htimer hm => .of_role hmem (fun h => absurd h (by simp [htimer])) hm
  unfold handler
  cases hact : e.action with
  | deliver k =>
    have htimer : e.isTimer = false := by simp [Event.isTimer, hact]
    simp only
    cases hdel : c.delivered e with
    | none => exact hrole htimer rfl
    | some pkt => exact .deliver hdel hmem htimer
  | timer quorumOk heartbeatDue clock =>
    have hbegins := Rounded.begins (c := c) (show e.isTimer = true by simp [Event.isTimer, hact])
    -- a timer outside a round that leaves the role as it is
    have hidle : ∀ {m : Server n Unit}, (c.proc e).ri.state ≠ .candidatePrevote →
        m.wp (fun _ s => roleView s = roleView (c.proc e))
          (fun d => (roleView d).2 = (roleView (c.proc e)).2) (c.proc e) → Rounded c e m :=
      fun hstate hm => .of_role hmem (fun _ => hstate) hm
    unfold Rounded
    simp only [timerfdCb, wp_bind, wp_getRi]
    cases hstate : (c.proc e).ri.state with
    | none => exact hidle (m := pure ()) (hstate ▸ fun h => (by cases h)) rfl
    | client => exact hidle (m := pure ()) (hstate ▸ fun h => (by cases h)) rfl
    | follower => exact hbegins
    | candidatePrevote => exact hbegins
    | candidate => exact hbegins
    | leader =>
      have hlead : (c.proc e).ri.state ≠ .candidatePrevote := hstate ▸ fun h => (by cases h)
      simp only [timerfdLeaderCb, wp_ite, wp_whenever]
      exact ⟨fun _ => hbegins, fun _ => ⟨fun _ => hidle hlead wp_appendEntrySender_role,
        fun _ => hidle (m := pure ()) hlead rfl⟩⟩
  | remoteSend clock =>
    have htimer : e.isTimer = false := by simp [Event.isTimer, hact]
    unfold Rounded
    simp only [remoteSendEvpCb, wp_bind, wp_getRi, wp_ite, wp_whenever]
    refine ⟨fun _ => hrole htimer wp_appendEntrySender_role, fun _ => ⟨fun _ => ?_,
      fun _ => hrole (m := pure ()) htimer rfl⟩⟩
    exact hrole htimer (wp_of_keepsRole (.bind .gets fun _ _ _ => .whenever fun _ =>
      keepsRole_sendMsg rfl))
  | commitIdxAdv =>
    exact hrole (by simp [Event.isTimer, hact]) (wp_of_keepsRole keepsRole_commitIdxAdvEvpCb)
  | smApply cb => exact hrole (by simp [Event.isTimer, hact]) wp_stateMachineApply_role
  | syncThread =>
    exact hrole (by simp [Event.isTimer, hact]) (wp_of_keepsRole keepsRole_syncThread)
  | write requests =>
    exact hrole (by simp [Event.isTimer, hact])
      (wp_of_keepsRole (.whenever fun _ => keepsRole_writeCoalescedEntries))
  | chkptThread takesChkpt reaps keep =>
    exact hrole (by simp [Event.isTimer, hact]) wp_chkptThread_role
  | crash => exact ⟨(RoundKept.refl hmem).left.vote, .of_none rfl⟩

/-- An event that takes place: where its server is then, and what was sent. -/
theorem step_rounds (hkept : HeaderKept e.server (c.servers e.server)) (hen : c.enabled e = true) :
    ∃ (ri : RaftInstance n) (out : List (Fin n × RpcMsg n)),
      (c.step e).servers = Function.update c.servers e.server ri ∧
      (c.step e).net = c.net ++
        out.map (fun m => ⟨e.server, m.1, m.2, (c.delivered e).map (·.msg)⟩) ∧
      RoundStep e.isTimer (c.GrantArrives e) (c.servers e.server) ri ∧ AsksAndAnswers c e out := by
  have hround : Rounded c e (c.handler e) := rounded_handler hkept.mem.symm
  have htracks : HeaderTracks e.server (c.servers e.server) (c.servers e.server) := ⟨hkept, .inl rfl⟩
  rw [step, if_pos hen]
  cases hres : c.handler e (c.proc e) with
  | ok u s =>
    obtain ⟨hstep, hsent⟩ := wp_of_ok hres hround
    exact ⟨s.ri, s.out, rfl, rfl, hstep, hsent⟩
  | abort d =>
    obtain ⟨hvote, hsent⟩ := wp_of_abort hres hround
    obtain ⟨⟨ri, hri, hsurv⟩, -⟩ := wp_of_abort hres (HeaderTracks.keeps.wp_handler htracks)
    obtain ⟨hmem, hhdr⟩ := hri.toHeaderKept.restart hsurv e.keep
    have hpassive : Passive (restart d.ri e.keep) := instanceRun_passive _ _ _
    refine ⟨_, d.out, rfl, rfl, .of_state hpassive.prevote
      (fun hs => absurd hs hpassive.candidate) ?_, hsent⟩
    rw [hmem.mem, hhdr, ← hsurv.store]
    exact hvote

theorem Reach.headerKept {ok : Cluster n → Event n → Prop} {opts : Fin n → Options}
    (h : Reach ok opts c) (p : Fin n) : HeaderKept p (c.servers p) := by
  induction h with
  | init => exact (instanceRun_loaded p (opts p) freshDb).headerKept.1
  | @step c e _ _ ih =>
    have htracks : HeaderTracks p (c.servers p) (c.servers p) := ⟨ih, .inl rfl⟩
    refine (HeaderTracks.keeps.step (p := p) htracks ?_).toHeaderKept
    intro ri d _ _ hsurv hri _
    exact hri.restart hsurv e.keep

end Step

end Cluster

/-! ## Runs -/

namespace Rounds

variable [Externals]

/-- What holds of the messages and the tallies of a run. -/
structure Tallied (r : Rounds n) : Prop where
  answered : r.answers.length = r.cluster.net.length
  /-- A reply to a pre-vote answers a request of the server it is for. -/
  reply : ∀ (k : Nat) (pkt : Packet n) m, r.cluster.net[k]? = some pkt → pkt.msg = .preVoteReply m →
    ∃ j req, r.answers[k]? = some (some j) ∧ r.cluster.net[j]? = some req ∧
      req.src = pkt.dst ∧ req.dst = pkt.src ∧ ∃ vreq, req.msg = .preVoteRequest vreq
  /-- The requests of a round are for the next term. -/
  request : ∀ (j : Nat) (req : Packet n) vreq, r.cluster.net[j]? = some req →
    req.msg = .preVoteRequest vreq →
    (r.cluster.servers req.src).state = .candidatePrevote → r.entered req.src ≤ j →
    vreq.proposedTerm = (r.cluster.servers req.src).logHdr.term + 1
  /-- What a server has counted was granted in its round. -/
  counted : ∀ p q, (r.cluster.servers p).state = .candidatePrevote →
    (r.cluster.servers p).candidate.results q = .preVoteYes →
    q = p ∨ r.Granted p q ((r.cluster.servers p).logHdr.term + 1)

variable {r : Rounds n} {e : Event n}

omit [Externals] in
/-- A granted pre-vote that may be counted is one of the round. -/
theorem Tallied.granted_of_arrives (h : r.Tallied) (hok : r.CountsRound e)
    (hpre : (r.cluster.servers e.server).state = .candidatePrevote) {q : Fin n}
    (hq : r.cluster.GrantArrives e q) :
    r.Granted e.server q ((r.cluster.servers e.server).logHdr.term + 1) := by
  obtain ⟨pkt, m, hdel, rfl, hmsg, hgranted⟩ := hq
  obtain ⟨k, hk, hpkt, hdst⟩ := Cluster.deliveredAt_of_delivered hdel
  have hgrants : pkt.grantsPreVote e.server pkt.src = true := by
    simp [Packet.grantsPreVote, hmsg, hdst, hgranted]
  obtain ⟨j, req, hans, hreq, hsrc, hdst', vreq, hvreq⟩ := h.reply k pkt m hpkt hmsg
  have hle := hok hpre pkt hdel hgrants k hk
  rw [hans] at hle
  simp only [Option.join_some, Option.any_some, decide_eq_true_eq] at hle
  rw [hdst] at hsrc
  have hterm := h.request j req vreq hreq hvreq (by rw [hsrc]; exact hpre) (by rw [hsrc]; exact hle)
  refine ⟨k, (List.getElem?_eq_some_iff.mp hpkt).1, j, (List.getElem?_eq_some_iff.mp hreq).1, hans,
    hle, ?_, ?_⟩
  · rw [hpkt]
    exact hgrants
  · rw [hreq]
    simp [Packet.asksPreVote, hvreq, hsrc, hdst', hterm]

/-- What happens where a server is down. -/
theorem step_of_disabled (hen : ¬ r.cluster.enabled e = true) : r.step e = r := by
  have hstep : r.cluster.step e = r.cluster := by rw [Cluster.step, if_neg hen]
  have henters : ¬ r.cluster.entersPrevote e = true := by
    simp only [Cluster.entersPrevote, decide_eq_true_eq]
    exact fun h => hen h.1
  rw [step, hstep, if_neg henters]
  simp

theorem entered_of_ne {p : Fin n} (hp : p ≠ e.server) : (r.step e).entered p = r.entered p := by
  unfold step
  simp only
  split
  · rw [Function.update_of_ne hp]
  · rfl

theorem entered_of_not_timer (htimer : e.isTimer = false) : (r.step e).entered = r.entered := by
  have hnot : ¬ r.cluster.entersPrevote e = true := by simp [Cluster.entersPrevote, htimer]
  unfold step
  rw [if_neg hnot]

/-- A timer after which a server is in a round has begun it. -/
theorem entered_of_timer (hen : r.cluster.enabled e = true) (htimer : e.isTimer = true)
    (hpre : ((r.step e).cluster.servers e.server).state = .candidatePrevote) :
    (r.step e).entered e.server = r.cluster.net.length := by
  have henters : r.cluster.entersPrevote e = true := by
    simp only [Cluster.entersPrevote, decide_eq_true_eq]
    exact ⟨hen, htimer, hpre⟩
  unfold step
  simp only [if_pos henters, Function.update_self]

/-- What was granted in a round stays granted while the round lasts. -/
theorem Granted.step {p q : Fin n} {t : Int} (h : r.Granted p q t) (hlen : r.Tallied)
    {ms : List (Packet n)} (hnet : (r.cluster.step e).net = r.cluster.net ++ ms)
    (hentered : (r.step e).entered p = r.entered p) : (r.step e).Granted p q t := by
  obtain ⟨k, hk, j, hj, hans, hle, hgrant, hask⟩ := h
  have hlen' : r.cluster.net.length ≤ (r.step e).cluster.net.length := by
    change _ ≤ (r.cluster.step e).net.length
    rw [hnet, List.length_append]
    exact Nat.le_add_right _ _
  have hold : ∀ i, i < r.cluster.net.length →
      (r.step e).cluster.net[i]? = r.cluster.net[i]? := by
    intro i hi
    change (r.cluster.step e).net[i]? = _
    rw [hnet, List.getElem?_append_left hi]
  refine ⟨k, lt_of_lt_of_le hk hlen', j, lt_of_lt_of_le hj hlen', ?_, ?_, ?_, ?_⟩
  · change (r.answers ++ _)[k]? = _
    rw [List.getElem?_append_left (by rw [hlen.answered]; exact hk)]
    exact hans
  · rw [hentered]
    exact hle
  · rw [hold k hk]
    exact hgrant
  · rw [hold j hj]
    exact hask

/-- A message of the network after an event was there before, or was just sent. -/
theorem net_cases {c : Cluster n} {out : List (Fin n × RpcMsg n)}
    (hnet : (c.step e).net = c.net ++
      out.map (fun m => ⟨e.server, m.1, m.2, (c.delivered e).map (·.msg)⟩))
    {k : Nat} {pkt : Packet n} (hpkt : (c.step e).net[k]? = some pkt) :
    (k < c.net.length ∧ c.net[k]? = some pkt) ∨
      (c.net.length ≤ k ∧ k < (c.step e).net.length ∧ pkt.src = e.server ∧
        (pkt.dst, pkt.msg) ∈ out) := by
  have hlt := (List.getElem?_eq_some_iff.mp hpkt).1
  by_cases hk : k < c.net.length
  · rw [hnet, List.getElem?_append_left hk] at hpkt
    exact .inl ⟨hk, hpkt⟩
  · rw [hnet, List.getElem?_append_right (not_lt.mp hk), List.getElem?_map,
      Option.map_eq_some_iff] at hpkt
    obtain ⟨m, hm, rfl⟩ := hpkt
    exact .inr ⟨not_lt.mp hk, hlt, rfl, List.mem_of_getElem? hm⟩

/-- What is known of the messages that were there stays. -/
theorem Tallied.reply_step (h : r.Tallied) {ms : List (Packet n)}
    (hnet : (r.cluster.step e).net = r.cluster.net ++ ms) {k : Nat} {pkt : Packet n}
    {m : VoteReplyMsg n} (hpkt : r.cluster.net[k]? = some pkt) (hmsg : pkt.msg = .preVoteReply m) :
    ∃ j req, (r.step e).answers[k]? = some (some j) ∧ (r.step e).cluster.net[j]? = some req ∧
      req.src = pkt.dst ∧ req.dst = pkt.src ∧ ∃ vreq, req.msg = .preVoteRequest vreq := by
  obtain ⟨j, req, hans, hreq, hrest⟩ := h.reply k pkt m hpkt hmsg
  refine ⟨j, req, ?_, ?_, hrest⟩
  · change (r.answers ++ _)[k]? = _
    rw [List.getElem?_append_left (List.getElem?_eq_some_iff.mp hans).1]
    exact hans
  · change (r.cluster.step e).net[j]? = _
    rw [hnet, List.getElem?_append_left (List.getElem?_eq_some_iff.mp hreq).1]
    exact hreq

theorem Tallied.step (h : r.Tallied) (hok : r.CountsRound e)
    (hkept : HeaderKept e.server (r.cluster.servers e.server)) : (r.step e).Tallied := by
  by_cases hen : r.cluster.enabled e = true
  · obtain ⟨ri, out, hservers, hnet, hround, hsent⟩ := Cluster.step_rounds hkept hen
    have hself : (r.step e).cluster.servers e.server = ri := by
      change (r.cluster.step e).servers e.server = ri
      rw [hservers, Function.update_self]
    have hother : ∀ p, p ≠ e.server → (r.step e).cluster.servers p = r.cluster.servers p := by
      intro p hp
      change (r.cluster.step e).servers p = _
      rw [hservers, Function.update_of_ne hp]
    have hgrown : r.cluster.net.length ≤ (r.cluster.step e).net.length := by
      rw [hnet, List.length_append]
      exact Nat.le_add_right _ _
    refine ⟨?_, ?_, ?_, ?_⟩
    · change (r.answers ++ _).length = (r.cluster.step e).net.length
      rw [List.length_append, List.length_replicate, h.answered]
      omega
    · intro k pkt m hpkt hmsg
      rcases net_cases hnet hpkt with ⟨-, hold⟩ | ⟨hge, hlt, hsrc, hout⟩
      · exact h.reply_step hnet hold hmsg
      · -- a reply that was just sent answers what was delivered
        rw [hmsg] at hout
        obtain ⟨req, vreq, hdel, hreq, hvreq⟩ := hsent.reply _ m hout
        obtain ⟨j, hj, hnetj, hdst⟩ := Cluster.deliveredAt_of_delivered hdel
        refine ⟨j, req, ?_, ?_, hreq, hdst.trans hsrc.symm, vreq, hvreq⟩
        · change (r.answers ++ _)[k]? = _
          rw [List.getElem?_append_right (by rw [h.answered]; exact hge), List.getElem?_replicate,
            if_pos (by rw [h.answered]; omega), hj]
        · change (r.cluster.step e).net[j]? = _
          rw [hnet, List.getElem?_append_left (List.getElem?_eq_some_iff.mp hnetj).1]
          exact hnetj
    · intro j req vreq hreq hmsg hpre hle
      rcases net_cases hnet hreq with ⟨hlt, hold⟩ | ⟨-, -, hsrc, hout⟩
      · by_cases hp : req.src = e.server
        · cases htimer : e.isTimer with
          | true =>
            -- the round began with this event
            rw [hp] at hpre hle
            rw [entered_of_timer hen htimer hpre] at hle
            omega
          | false =>
            rw [hp, hself] at hpre
            have hcounts := (hround.counts hpre htimer).1
            rw [hp, hself, hround.hdr hpre, ← hp]
            rw [entered_of_not_timer htimer] at hle
            exact h.request j req vreq hold hmsg (by rw [hp]; exact hcounts) hle
        · rw [hother _ hp] at hpre ⊢
          rw [entered_of_ne hp] at hle
          exact h.request j req vreq hold hmsg hpre hle
      · rw [hmsg] at hout
        rw [hsrc, hself] at hpre ⊢
        rw [hround.hdr hpre]
        exact (hsent.request _ vreq hout).2
    · intro p q hpre hyes
      by_cases hp : p = e.server
      · subst hp
        rw [hself] at hpre hyes ⊢
        cases htimer : e.isTimer with
        | true => exact .inl ((hround.begins hpre htimer q hyes).trans hkept.self)
        | false =>
          obtain ⟨hstate, hcounts⟩ := hround.counts hpre htimer
          have hentered : (r.step e).entered e.server = r.entered e.server := by
            rw [entered_of_not_timer htimer]
          rw [hround.hdr hpre]
          rcases hcounts q hyes with hold | hnew
          · exact (h.counted _ q hstate hold).imp_right fun hg => hg.step h hnet hentered
          · exact .inr ((h.granted_of_arrives hok hstate hnew).step h hnet hentered)
      · rw [hother p hp] at hpre hyes ⊢
        exact (h.counted p q hpre hyes).imp_right fun hg => hg.step h hnet (entered_of_ne hp)
  · rw [step_of_disabled hen]
    exact h

theorem Reach.cluster {ok : Rounds n → Event n → Prop} {opts : Fin n → Options}
    (h : Reach ok opts r) : Cluster.Reach Cluster.anyEvent opts r.cluster := by
  induction h with
  | init => exact .init
  | step e _ _ ih => exact ih.step e trivial

theorem Reach.tallied {opts : Fin n → Options} (h : Reach CountsRound opts r) : r.Tallied := by
  induction h with
  | init =>
    refine ⟨rfl, fun k pkt m hpkt => (by cases hpkt), fun j req vreq hreq => (by cases hreq),
      fun p q hpre => absurd hpre ?_⟩
    exact (instanceRun_passive p (opts p) freshDb).prevote
  | step e hreach hok ih => exact ih.step hok (hreach.cluster.headerKept e.server)

end Rounds

/-! ## The result -/

section Result

variable [Externals] {opts : Fin n → Options} {r : Rounds n} {e : Event n} {p : Fin n}

omit [Externals] in
/-- A round that is won has a majority. -/
theorem Rounds.Tallied.majorityGrants (h : r.Tallied) (hok : r.CountsRound e) {hdr : LogHeader n}
    (hwon : RoundWon (r.cluster.GrantArrives e) (r.cluster.servers e.server) hdr) :
    r.MajorityGrants e.server ((r.cluster.servers e.server).logHdr.term + 1) := by
  obtain ⟨hpre, -, voters, hmaj, hvoters⟩ := hwon
  refine hmaj.mono fun q hq => ?_
  rw [Finset.mem_filter]
  refine ⟨Finset.mem_univ q, ?_⟩
  rcases hvoters q hq with hold | hnew
  · exact h.counted e.server q hpre hold
  · exact .inr (h.granted_of_arrives hok hpre hnew)

/-- Whoever stands does not stay as it was. -/
theorem Cluster.Stands.ne {c : Cluster n} (h : c.Stands e p) :
    (c.step e).servers p ≠ c.servers p := by
  intro heq
  rcases h with ⟨hnot, hcand⟩ | ⟨hlt, -⟩
  · rw [heq] at hcand
    exact hnot hcand
  · rw [heq] at hlt
    exact lt_irrefl _ hlt

/-- Whoever stands was granted its term by a majority, in its last round. -/
theorem pre_vote_soundness (h : Rounds.Reach Rounds.CountsRound opts r) (hok : r.CountsRound e)
    (hstands : r.cluster.Stands e p) :
    ((r.cluster.step e).servers p).logHdr.term = (r.cluster.servers p).logHdr.term + 1 ∧
      r.MajorityGrants p ((r.cluster.servers p).logHdr.term + 1) := by
  have hkept := h.cluster.headerKept e.server
  have hp : p = e.server := by
    by_contra hne
    exact hstands.ne (Cluster.step_servers_of_ne hne)
  have hen : r.cluster.enabled e = true := by
    by_contra hno
    exact hstands.ne (by rw [Cluster.step, if_neg hno])
  subst hp
  obtain ⟨ri, out, hservers, -, hround, -⟩ := Cluster.step_rounds hkept hen
  have hself : (r.cluster.step e).servers e.server = ri := by rw [hservers, Function.update_self]
  have hwon : RoundWon (r.cluster.GrantArrives e) (r.cluster.servers e.server) ri.logHdr := by
    rw [Cluster.Stands, hself] at hstands
    rcases hstands with ⟨hnot, hcand⟩ | ⟨hlt, hvoted⟩
    · exact (hround.stands hcand).resolve_left hnot
    · rcases hround.vote with hsame | hother | hwon
      · rw [hsame] at hlt
        exact absurd hlt (lt_irrefl _)
      · rw [hkept.self] at hother
        exact absurd hvoted hother
      · exact hwon
  rw [hself]
  exact ⟨hwon.term, h.tallied.majorityGrants hok hwon⟩

end Result

/-- The three servers after a run, with its rounds. -/
def afterRounds (es : List (Event 3)) : Rounds 3 :=
  @Rounds.run 3 sampleExternals (.initial threeServers) es

/-- Server 1 grants a pre-vote of the round that server 0 is in. -/
theorem pre_vote_soundness_firstElection :
    ((afterRounds [.expire 0, .deliver 1 0]).cluster.servers 0).state = .candidatePrevote ∧
      (afterRounds [.expire 0, .deliver 1 0]).MajorityGrants 0 1 := by
  have hreach : @Rounds.Reach 3 sampleExternals Rounds.CountsRound threeServers
      (afterRounds [.expire 0, .deliver 1 0]) :=
    @Rounds.Reach.of_allEvents 3 sampleExternals _ _ _ (@Rounds.Reach.init 3 sampleExternals _ _) _
      (by decide +kernel)
  have hok : (afterRounds [.expire 0, .deliver 1 0]).CountsRound (.deliver 0 2) := by decide +kernel
  have hstands : @Cluster.Stands 3 sampleExternals (afterRounds [.expire 0, .deliver 1 0]).cluster
      (.deliver 0 2) 0 := by decide +kernel
  obtain ⟨-, hgrants⟩ := @pre_vote_soundness 3 sampleExternals _ _ _ 0 hreach hok hstands
  have hterm : ((afterRounds [.expire 0, .deliver 1 0]).cluster.servers 0).logHdr.term = 0 := by
    decide +kernel
  rw [hterm] at hgrants
  exact ⟨by decide +kernel, hgrants⟩

/-- Server 1 grants a pre-vote for term 1 to server 0, but server 2 is elected in that term.  Both
others hear from it when the timer of server 0 expires again. -/
def grantedBefore : List (Event 3) :=
  [.expire 0, .deliver 1 0, .expire 2, .deliver 1 4, .deliver 2 5, .deliver 1 7, .deliver 2 8,
    .heartbeat 2, .deliver 0 9, .deliver 1 10, .expire 0]

/-- The late reply makes server 0 persist term 2, which nobody else has granted. -/
theorem late_preVoteReply_counts :
    @Rounds.Reach 3 sampleExternals (fun _ _ => True) threeServers (afterRounds grantedBefore) ∧
      @Cluster.Stands 3 sampleExternals (afterRounds grantedBefore).cluster (.deliver 0 2) 0 ∧
      ((@Cluster.step 3 sampleExternals (afterRounds grantedBefore).cluster
        (.deliver 0 2)).servers 0).logHdr.term = 2 ∧
      ((afterRounds grantedBefore).cluster.servers 0).logHdr.term = 1 ∧
      ¬ (afterRounds grantedBefore).MajorityGrants 0 2 := by
  refine ⟨?_, by decide +kernel⟩
  exact @Rounds.Reach.of_allEvents 3 sampleExternals _ _ _ (@Rounds.Reach.init 3 sampleExternals _ _)
    _ (by decide +kernel)

end NiovaRaft
