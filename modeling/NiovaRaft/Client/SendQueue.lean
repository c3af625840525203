import NiovaRaft.Client.Programs

/-!
# The send queue

In every run in which no request is canceled while it is initialized, the flag of a request says
whether it is linked on the send queue, what is linked there is alive and on no other list, and what
was flagged when it was taken off is not launched.

The sender's loop counts only the requests that were sent.  It ends all the same, because every other
round takes a request off the queue.
-/

namespace NiovaRaft

open Base Base.Handler Base.Prog

namespace RaftClient

variable {strict : Prop} {s s' : Rci} {sa : Nat} {i : Thread} {r : Ref}

/-! ## The beginning -/

theorem inv_initial (strict : Prop) : Rci.initial.Inv strict where
  ok _ := {
    fresh := fun _ => rfl
    nodup := List.nodup_nil
    refCnt := rfl
    inTree := iff_of_false List.not_mem_nil (Nat.lt_irrefl 0)
    destroyer := iff_of_true rfl fun hmade => (Nat.not_lt_zero _ hmade).elim
    cbExec := fun hc => by cases hc
    callbacks := rfl
    wakeups := rfl
    linked := iff_of_false List.not_mem_nil Bool.false_ne_true
    sendqRef := iff_of_false List.not_mem_nil Bool.false_ne_true
    expiring := fun he => by cases he
    initializing := fun hi => by cases hi
    unborn := fun hi => by cases hi
    constructor := fun hmade => (Nat.not_lt_zero _ hmade).elim
    ender := fun _ hj => by cases hj
    enderDone := fun _ => rfl
    awaited := fun hmade => (Nat.not_lt_zero _ hmade).elim
    strict := fun _ => {
      leaked := rfl
      sending := fun _ => rfl
      cancel := fun hc => by cases hc
      canceled := fun he => by cases he
      replied := fun _ he => by cases he
      pending := fun _ => ⟨rfl, rfl⟩
      dones := rfl } }
  tree := List.nodup_nil
  sendq := List.nodup_nil
  expiredq := List.nodup_nil
  useAfterFree := rfl
  launchedFlagged := rfl

theorem idle_initial (i : Thread) : (Rci.initial.part i).Idle where
  views sa := by
    have hview : (Rci.initial.part i).views sa = View.none := view_empty i
    rw [hview]
    exact settled_none
  expiredq := ite_self _
  waiting := by cases i <;> rfl

/-- Whatever the threads do, they keep to the discipline. -/
theorem keeps_of_reach {ok : Threads Thread Section Rci → ThreadEvent Thread Op → Prop}
    {c : Threads Thread Section Rci}
    (hok : ∀ c i label, ok c (.run i) → (c.progs i).next = some label → MayRun strict label c.shared)
    (h : Threads.Reach program ok Rci.initial c) : (discipline strict).Keeps c := by
  refine (discipline_sound strict).keeps ?_ (inv_initial strict) idle_initial h
  rintro c e he i label rfl hnext
  exact hok c i label he hnext

/-! ## A round of the sender -/

/-- A section that leaves the send queue as it is. -/
def LeavesSendq {α : Type} (m : Handler Rci α) : Prop :=
  ∀ s, m.wp (fun _ s' => s'.sendq = s.sendq) (fun _ => True) s

theorem leavesSendq_putRef (i : Thread) (sa : Nat) (r : Ref) : LeavesSendq (putRef i sa r) := by
  intro s
  simp [putRef, touch, modifySub, Rci.set, Rci.withTree]

theorem leavesSendq_subAppDestruct (sa : Nat) : LeavesSendq (subAppDestruct sa) := by
  intro s
  simp only [subAppDestruct, touch, modifySub, wp_bind, wp_modify, wp_gets, wp_assert, wp_whenever]
  refine ⟨fun _ => ⟨fun _ => ?_, fun _ => rfl⟩, fun _ => trivial⟩
  cases (s.sub sa).owner with
  | app k => simp [wake, Rci.set]
  | timer => trivial
  | sender => trivial
  | reply k => trivial

/-- A reference is put, with nobody else around. -/
theorem alone_subAppPut (h : s.Inv strict) {v : View} (hview : (s.part i).views sa = v)
    (hv : v.Holds i r) :
    (subAppPut i sa r).alone.wp (fun _ s' => Moved strict i s
      (· = (s.part i).set sa (v.drop r)) s' ∧ s'.sendq = s.sendq) (fun _ => False) s := by
  subst hview
  simp only [subAppPut, wp_alone_bind, wp_alone_critical, wp_alone_whenever]
  have hput := wp_putRef (D := fun _ => False) h hv.has hv.not_destroying
  refine wp_mono (wp_and hput (leavesSendq_putRef i sa r s)) ?_ fun _ hd => hd.1
  rintro last s' ⟨hmoved, hsendq⟩
  have hnone := View.drop_not_destroying (r := r) hv.not_destroying
  refine ⟨fun hlast => ?_, fun hlast => ?_⟩
  · have hdest : ((s'.part i).views sa).destroying := by
      rw [hmoved.own, Part.views_set]
      exact hlast
    have hdestruct := wp_subAppDestruct (D := fun _ => False) hmoved.inv hdest
    refine wp_mono (wp_and hdestruct (leavesSendq_subAppDestruct sa s')) ?_ fun _ hd => hd.1
    rintro _ s'' ⟨hmoved', hsendq'⟩
    refine ⟨(hmoved.trans hmoved').mono ?_, hsendq'.trans hsendq⟩
    rintro q rfl
    simp only [hmoved.own, Part.views_set, Part.set_set, hnone]
  · refine ⟨hmoved.mono ?_, hsendq⟩
    rintro q rfl
    rw [eq_false hlast, hnone]

/-- The sender is through with a request, and the queue is as it was. -/
def Through (s s' : Rci) : Prop :=
  s'.Inv False ∧ (s'.part .sender).Idle ∧ s'.sendq = s.sendq

/-- The sender puts its reference. -/
theorem alone_put_sending {p : Part} {v : View} (h : s.Inv False) (hpart : s.part .sender = p.set sa v)
    (hp : p.Idle) (hv : v.Holds .sender .sending) :
    (subAppPut .sender sa .sending).alone.wp (fun _ => Through s) (fun _ => False) s := by
  refine wp_mono (alone_subAppPut h (views_of_part hpart) hv) ?_ fun _ hd => hd
  rintro _ s' ⟨hmoved, hsendq⟩
  refine ⟨hmoved.inv, ?_, hsendq⟩
  rw [hmoved.own, hpart, Part.set_set]
  exact hp.set hv.settled

theorem alone_sendQueueRemoveDone {p : Part} {v : View} (h : s.Inv False)
    (hpart : s.part .sender = p.set sa v) (hp : p.Idle) (hv : v.Holds .sender .sending)
    (hsendq : (s.sub sa).sendq = false) :
    (sendQueueRemoveDone sa).alone.wp (fun _ => Through s) (fun _ => False) s := by
  have hr : ((s.part .sender).views sa).sending := views_of_part hpart ▸ hv.has
  have hcb := (h.ok sa).cbExec_of_pos ((h.ok sa).pos_of_mem hr.2)
  simp only [sendQueueRemoveDone, wp_alone_bind, wp_alone_critical, wp_bind, wp_touch hcb, wp_assert]
  exact ⟨fun _ => alone_put_sending h hpart hp hv, fun hn => (hn hsendq).elim⟩

/-- A send fails for good, of a request that nobody ends. -/
theorem alone_sendFailed {p : Part} {v : View} (h : s.Inv False) (hpart : s.part .sender = p.set sa v)
    (hp : p.Idle) (hv : v.Holds .sender .sending) (hready : (s.sub sa).ready = false)
    (hcompleting : (s.sub sa).completing = false) (rc : Int) :
    (do
      .critical .sendFailed (markSendFailed sa)
      subAppDone .sender sa rc .sending : ClientProg Unit).alone.wp (fun _ => Through s)
        (fun _ => False) s := by
  have hr : ((s.part .sender).views sa).sending := views_of_part hpart ▸ hv.has
  have hok := h.ok sa
  have hpos := hok.pos_of_mem hr.2
  have hcb := hok.cbExec_of_pos hpos
  have hinit := hok.not_initializing hr.2 (.inl rfl)
  have hfirst := h.moved_set (i := .sender) (hok.markSendFailed id hpos hinit) rfl fun _ _ => rfl
  have hok' := hfirst.inv.ok sa
  have hsecond := hfirst.inv.moved_set (i := .sender) (hok'.markDone (i := .sender) rc
    (by rwa [Rci.sub_set]) (by rwa [Rci.sub_set]) (by simpa [SubApp.setSendFailed] using hcompleting)
    (.inr id)) rfl fun j hj => view_setDone_of_ne _ rc hj
  rw [Rci.sub_set, Rci.set_set] at hsecond
  have hpart' : (s.set sa ((s.sub sa).setSendFailed.setDone .sender rc)).part .sender =
      p.set sa { v with called := v.ends } := by
    rw [hsecond.own, view_setDone, hfirst.own, hpart, Part.set_set, Part.set_set]
    have hview : (s.sub sa).setSendFailed.view .sender = v := views_of_part hpart
    rw [hview]
  simp only [subAppDone, wp_alone_bind, wp_alone_critical, markSendFailed, markDone, wp_bind,
    wp_touch hcb, wp_modifySub]
  rw [wp_touch (by rwa [Rci.sub_set])]
  simp only [wp_assert, Rci.sub_set, Rci.set_set]
  refine ⟨fun _ => ⟨fun _ => ?_, fun hn => (hn ?_).elim⟩, fun hn => (hn ⟨hcb, hready⟩).elim⟩
  · exact alone_put_sending hsecond.inv hpart' hp hv.done
  · simpa [SubApp.setSendFailed] using hcompleting

/-- A launch changes nothing that the sender looks at. -/
theorem wp_rpcLaunch_frame (rc : Int) :
    (rpcLaunch sa rc).wp (fun _ s' => s'.sendq = s.sendq ∧ (s'.sub sa).sendq = (s.sub sa).sendq ∧
      (s'.sub sa).ready = (s.sub sa).ready ∧ (s'.sub sa).completing = (s.sub sa).completing)
      (fun _ => True) s := by
  simp [rpcLaunch, touch, modifySub, Rci.set, SubApp.setSent]

theorem alone_afterLaunch {p : Part} {v : View} (h : s.Inv False)
    (hpart : s.part .sender = p.set sa v) (hp : p.Idle) (hv : v.Holds .sender .sending)
    (hsendq : (s.sub sa).sendq = false) (hready : (s.sub sa).ready = false)
    (hcompleting : (s.sub sa).completing = false) (rc : Int) :
    (afterLaunch sa rc).alone.wp (fun _ => Through s) (fun _ => False) s := by
  simp only [afterLaunch]
  split
  · exact alone_sendFailed h hpart hp hv hready hcompleting rc
  · exact alone_sendQueueRemoveDone h hpart hp hv hsendq

/-- What is left of a round, after a request was taken off the queue. -/
theorem alone_launch {p : Part} (h : s.Inv False) (hp : p.Idle)
    (hpart : s.part .sender = p.set sa ((p.views sa).dequeued false))
    (hsendq : (s.sub sa).sendq = false) (hready : (s.sub sa).ready = false)
    (hcompleting : (s.sub sa).completing = false) (rc : Int) :
    (do
      .critical (.launch rc) (rpcLaunch sa rc)
      afterLaunch sa rc : ClientProg Unit).alone.wp (fun _ => Through s) (fun _ => False) s := by
  have hv := (hp.views sa).holds_sending false
  have hview := views_of_part hpart
  have hflagged : ¬((s.part .sender).views sa).flagged := by
    rw [hview]
    exact Bool.false_ne_true
  have hlaunch := wp_rpcLaunch (D := fun _ => False) h rc (hview ▸ hv.has) hflagged
    fun hq => absurd (hsendq.symm.trans hq) Bool.false_ne_true
  simp only [wp_alone_bind, wp_alone_critical]
  refine wp_mono (wp_and hlaunch (wp_rpcLaunch_frame rc)) ?_ fun _ hd => hd.1
  rintro _ s' ⟨hmoved, hqueue, hsendq', hready', hcompleting'⟩
  have hafter := alone_afterLaunch hmoved.inv (hmoved.own.trans hpart) hp hv (hsendq'.trans hsendq)
    (hready'.trans hready) (hcompleting'.trans hcompleting) rc
  refine wp_mono hafter ?_ fun _ hd => hd
  rintro _ s'' ⟨hinv, hidle, hqueue'⟩
  exact ⟨hinv, hidle, hqueue'.trans hqueue⟩

/-- A round takes a request off the queue, unless there is none. -/
theorem alone_dequeueHeadAndSend (h : s.Inv False) (hidle : (s.part .sender).Idle) (rc : Int) :
    (dequeueHeadAndSend rc).alone.wp (fun res s' => s'.Inv False ∧ (s'.part .sender).Idle ∧
      (res = ENOENT ∨ s'.sendq.length < s.sendq.length)) (fun _ => False) s := by
  simp only [dequeueHeadAndSend, wp_alone_bind, wp_alone_critical]
  cases hqueue : s.sendq with
  | nil =>
    simp only [dequeueHead, wp_bind, wp_gets, hqueue]
    exact ⟨h, hidle, .inl rfl⟩
  | cons sa rest =>
    rw [wp_dequeueHead_cons h hqueue]
    have hmoved := h.moved_dequeue (hqueue ▸ List.mem_cons_self) (hidle.views sa).sending
      (s.sub sa).stale
    have hshorter : ∀ s', Through ((s.set sa ((s.sub sa).setDequeued (s.sub sa).stale)).withSendq
        (s.sendq.erase sa)) s' → s'.sendq.length < (sa :: rest).length := by
      rintro s' ⟨-, -, hsendq⟩
      rw [hsendq, hqueue]
      show ((sa :: rest).erase sa).length < _
      rw [List.erase_cons_head]
      exact Nat.lt_succ_self _
    have hsub : (((s.set sa ((s.sub sa).setDequeued (s.sub sa).stale)).withSendq
        (s.sendq.erase sa)).sub sa) = (s.sub sa).setDequeued (s.sub sa).stale := Rci.sub_set ..
    cases hstale : (s.sub sa).stale with
    | true =>
      rw [hstale] at hmoved hshorter hsub
      simp only [wp_alone_bind, wp_alone_pure]
      refine wp_mono (alone_sendQueueRemoveDone hmoved.inv hmoved.own hidle
        ((hidle.views sa).holds_sending true) (by rw [hsub]; rfl)) ?_ fun _ hd => hd
      rintro _ s' hthrough
      exact ⟨hthrough.1, hthrough.2.1, .inr (hshorter s' hthrough)⟩
    | false =>
      rw [hstale] at hmoved hshorter hsub
      simp only [SubApp.stale, Bool.or_eq_false_iff] at hstale
      have hlaunch := alone_launch hmoved.inv hidle hmoved.own (by rw [hsub]; rfl)
        (by rw [hsub]; exact hstale.1.2) (by rw [hsub]; exact hstale.2) rc
      simp only [wp_alone_bind, wp_alone_critical] at hlaunch
      simp only [wp_alone_bind, wp_alone_critical, wp_alone_pure]
      refine wp_mono hlaunch (fun _ s' hrest => wp_mono hrest ?_ fun _ hd => hd) fun _ hd => hd
      rintro _ s'' hthrough
      exact ⟨hthrough.1, hthrough.2.1, .inr (hshorter s'' hthrough)⟩

/-! ## The loop -/

/-- By induction on the rounds that are allowed, which are more than there are requests. -/
theorem alone_senderLoop (results : Nat → Int) {fuel : Nat} (remaining : Nat) (h : s.Inv False)
    (hidle : (s.part .sender).Idle) (hfuel : s.sendq.length < fuel) :
    (senderLoop results fuel remaining).alone.wp (fun ended _ => ended = true) (fun _ => False) s := by
  induction fuel generalizing s remaining with
  | zero => exact (Nat.not_lt_zero _ hfuel).elim
  | succ fuel ih =>
    cases remaining with
    | zero => rfl
    | succ remaining =>
      simp only [senderLoop, wp_alone_bind]
      refine wp_mono (alone_dequeueHeadAndSend h hidle _) ?_ fun _ hd => hd
      rintro rc s' ⟨hinv, hidle', hshorter⟩
      by_cases hnone : rc = ENOENT
      · rw [if_neg (by rw [hnone]; decide), if_pos hnone]
        rfl
      · have hless : s'.sendq.length < fuel := by
          have := hshorter.resolve_left hnone
          omega
        by_cases hsent : rc = 0
        · rw [if_pos hsent]
          simp only [wp_alone_bind, wp_alone_critical, wp_modify]
          have hcounted := hinv.moved_counters (i := .sender) (s'.intervalRpcCnt + 1)
            s'.requestsThrottled
          exact ih remaining hcounted.inv (hcounted.own ▸ hidle') hless
        · rw [if_neg hsent, if_neg hnone]
          exact ih (remaining + 1) hinv hidle' hless

/-- Run by itself, the sender returns, whatever the network says. -/
theorem alone_rpcSender (newInterval : Bool) (results : Nat → Int) {fuel : Nat} (h : s.Inv False)
    (hidle : (s.part .sender).Idle) (hfuel : s.sendq.length < fuel) :
    (rpcSender newInterval fuel results).alone.wp (fun ended _ => ended = true) (fun _ => False) s := by
  have hrpcs : (remainingRpcs newInterval).wp (fun _ s' => s'.sendq = s.sendq) (fun _ => False) s := by
    simp [remainingRpcs]
  simp only [rpcSender, wp_alone_bind, wp_alone_critical, wp_alone_pure, wp_whenever, wp_modify]
  refine wp_mono (wp_and (wp_remainingRpcs (i := .sender) (D := fun _ => False) h newInterval) hrpcs) ?_
    fun _ hd => hd.1
  rintro remaining s' ⟨hmoved, hsendq⟩
  refine wp_mono (alone_senderLoop results _ hmoved.inv (hmoved.own ▸ hidle) (hsendq ▸ hfuel)) ?_
    fun _ hd => hd
  rintro ended s'' hended
  exact ⟨fun _ => hended, fun _ => hended⟩

/-! ## Every run -/

/-- The send queue is as it should be. -/
structure SendQueueOk (c : Threads Thread Section Rci) : Prop where
  flag : ∀ sa, (c.shared.sub sa).sendq = true ↔ sa ∈ c.shared.sendq
  nodup : c.shared.sendq.Nodup
  initialized : ∀ sa ∈ c.shared.sendq, (c.shared.sub sa).initializing = false
  /-- A reference is held for the queue, so that the request is not freed. -/
  referenced : ∀ sa ∈ c.shared.sendq, .sendq ∈ (c.shared.sub sa).held ∧
    0 < (c.shared.sub sa).refCnt ∧ (c.shared.sub sa).cbExec = false
  unlisted : ∀ sa ∈ c.shared.sendq, sa ∉ c.shared.expiredq
  unlaunched : c.shared.launchedFlagged = false
  /-- The sender returns wherever it is called, after no more rounds than there are requests, and the
  one that finds the queue empty. -/
  ends : c.died = none → (c.progs .sender).next = none →
    ∀ newInterval results fuel, c.shared.sendq.length < fuel →
      ∃ s', (rpcSender newInterval fuel results).alone c.shared = .ok true s'

theorem sendQueueOk_of_keeps {c : Threads Thread Section Rci} (h : (discipline False).Keeps c) :
    SendQueueOk c where
  flag sa := (h.inv.ok sa).linked.symm
  nodup := h.inv.sendq
  initialized sa hsa := by
    have hok := h.inv.ok sa
    by_contra hn
    exact (hok.initializing (Bool.not_eq_false _ ▸ hn)).1 (hok.sendqRef.mpr (hok.linked.mp hsa))
  referenced sa hsa := by
    have hok := h.inv.ok sa
    have hr := hok.sendqRef.mpr (hok.linked.mp hsa)
    exact ⟨hr, hok.pos_of_mem hr, hok.cbExec_of_pos (hok.pos_of_mem hr)⟩
  unlisted sa hsa hexp := by
    have hok := h.inv.ok sa
    exact absurd ((hok.expiring hexp).2.2.symm.trans (hok.linked.mp hsa)) Bool.false_ne_true
  unlaunched := h.inv.launchedFlagged
  ends hdied hnext newInterval results fuel hfuel := by
    have hidle : (c.shared.part .sender).Idle := h.idle hdied hnext
    obtain ⟨ended, s', hres, rfl⟩ :=
      exists_ok_of_wp (alone_rpcSender newInterval results h.inv hidle hfuel)
    exact ⟨s', hres⟩

/-- Where `raft_client_request_cancel` looks at the request it has found, that one is initialized. -/
def CancelsInitialized (c : Threads Thread Section Rci) (e : ThreadEvent Thread Op) : Prop :=
  ∀ i sa, e = .run i → (c.progs i).next = some (.cancelCheck sa) →
    (c.shared.sub sa).initializing = false

/-- In every run in which no request is canceled while it is initialized, the send queue is as it
should be. -/
theorem sendq_consistent {c : Threads Thread Section Rci}
    (h : Threads.Reach program CancelsInitialized Rci.initial c) : SendQueueOk c := by
  refine sendQueueOk_of_keeps (keeps_of_reach ?_ h)
  intro c i label hok hnext
  cases label with
  | cancelCheck sa => exact fun _ => hok i sa rfl hnext
  | cancelLookup | launch | tryComplete | scan => exact False.elim
  | _ => trivial

/-- A request that nobody waits for. -/
def plainRequest : Request where
  rncui := 7
  blocking := false
  asyncCb := true
  initError := none
  leaderViable := true

/-- The client after these events. -/
def after (es : List (ThreadEvent Thread Op)) : Threads Thread Section Rci :=
  (Threads.start Rci.initial).runs program es

/-- A request is submitted. -/
def submitRun : List (ThreadEvent Thread Op) :=
  [.begin (.app 0) (.submit plainRequest), .run (.app 0), .run (.app 0), .run (.app 0)]

theorem sendq_consistent_submitRun :
    (after submitRun).shared.sendq = [0] ∧ SendQueueOk (after submitRun) := by
  refine ⟨rfl, sendq_consistent (Threads.Reach.start.runs ?_)⟩
  refine ⟨?_, ?_, ?_, ?_, trivial⟩ <;> rintro i sa ⟨⟩ hnext <;> cases hnext

/-- A request is canceled before it is initialized: its last reference is put, and then it is
queued. -/
def cancelRun : List (ThreadEvent Thread Op) :=
  [.begin (.app 0) (.submit plainRequest), .run (.app 0), .run (.app 0),
    .begin (.app 1) (.cancel 7), .run (.app 1), .run (.app 1), .run (.app 1), .run (.app 1),
    .run (.app 1), .run (.app 1), .run (.app 1), .run (.app 0)]

theorem sendq_not_consistent :
    ∃ c, Threads.Reach program (fun _ _ => True) Rci.initial c ∧ ¬SendQueueOk c := by
  refine ⟨after cancelRun, Threads.Reach.start.runs ?_, fun h => ?_⟩
  · simp [Threads.AllOk, cancelRun]
  · have hlinked : 0 ∈ (after cancelRun).shared.sendq := List.mem_singleton_self 0
    have hfreed : ((after cancelRun).shared.sub 0).cbExec = true := rfl
    exact Bool.false_ne_true ((h.referenced 0 hlinked).2.2.symm.trans hfreed)

end RaftClient

end NiovaRaft
