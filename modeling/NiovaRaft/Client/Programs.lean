import NiovaRaft.Client.Scan

/-!
# The programs of the client

Each program starts where its thread is idle, and ends there.  In between it has to do with one request,
and its part of that one goes through the sections.
-/

namespace NiovaRaft

open Base Base.Handler Discipline

namespace RaftClient

variable {strict : Prop} {s : Rci} {sa : Nat} {i : Thread} {p : Part} {v : View} {r : Ref}

theorem views_of_part (hp : s.part i = p.set sa v) : (s.part i).views sa = v := by
  rw [hp, Part.views_set]

/-! ## References -/

theorem does_subAppPut (hhas : v.Has i r) (hdest : ¬v.destroying) :
    Does strict i (· = p.set sa v) (subAppPut i sa r) fun _ => (· = p.set sa (v.drop r)) := by
  refine .bind (Q := fun last => (· = p.set sa { v.drop r with destroying := last = true })) ?_ ?_
  · refine .critical (fun _ _ => trivial) fun s hs hp _ => ?_
    have hv := views_of_part hp
    have hwp := wp_putRef (D := fun d => d.Inv strict ∧ ¬strict) hs (hv ▸ hhas) (hv ▸ hdest)
    simpa only [hp, Part.views_set, Part.set_set] using hwp
  · intro last
    have hnone := View.drop_not_destroying (r := r) hdest
    refine .whenever (fun hlast => ?_) fun hlast q hq => ?_
    · refine .critical (fun _ _ => trivial) fun s hs hp _ => ?_
      have hv := views_of_part hp
      have hdest' : ((s.part i).views sa).destroying := by
        rw [hv]
        exact hlast
      have hwp := wp_subAppDestruct (D := fun d => d.Inv strict ∧ ¬strict) hs hdest'
      simpa only [hp, Part.views_set, Part.set_set, hnone] using hwp
    · rw [eq_false hlast, hnone] at hq
      exact hq

theorem does_subAppDone (error : Int) (hhas : v.Has i r) (hdest : ¬v.destroying)
    (hrole : v.ends ∧ ¬v.called ∨ ¬strict) :
    Does strict i (· = p.set sa v) (subAppDone i sa error r) fun _ =>
      (· = p.set sa ({ v with called := v.ends }.drop r)) := by
  refine .bind (Q := fun _ => (· = p.set sa { v with called := v.ends })) ?_ fun _ => ?_
  · refine .critical (fun _ _ => trivial) fun s hs hp _ => ?_
    have hv := views_of_part hp
    have hmem : r ∈ (s.sub sa).held := View.Has.mem (hv ▸ hhas)
    have hwp := wp_markDone hs error hmem (hv ▸ hrole)
    simpa only [hp, Part.views_set, Part.set_set] using hwp
  · refine does_subAppPut ?_ hdest
    cases r <;> exact hhas

/-! ## Ends -/

/-- A thread has to do with a request because it holds this reference, and for nothing else. -/
structure View.Holds (v : View) (i : Thread) (r : Ref) : Prop where
  has : v.Has i r
  settled : (v.drop r).Settled

theorem View.Holds.not_destroying (h : v.Holds i r) : ¬v.destroying := by
  cases r <;> exact h.settled.destroying

/-- What is left of a request that the thread has ended. -/
def View.ended (v : View) : View :=
  { v with ends := True, called := True, owes := False, owning := False }

theorem View.Holds.ended (h : v.Holds i r) (hr : r ≠ .constructor) : v.ended.Holds i r := by
  have hends : True → True ∧ ¬False := fun _ => ⟨trivial, id⟩
  cases r with
  | constructor => exact (hr rfl).elim
  | sendq => exact h.has.elim
  | sending => exact ⟨h.has, { h.settled with owning := id, ends := hends }⟩
  | expired => exact ⟨h.has, { h.settled with owning := id, ends := hends }⟩
  | lookup j => exact ⟨h.has, { h.settled with owning := id, ends := hends }⟩
  | matched j => exact ⟨h.has, { h.settled with owning := id, ends := hends }⟩

/-- A thread ends a request, or finds that another one does. -/
theorem does_end_whenever (error : Int) (ends : Bool) (hv : v.Holds i r) (hr : r ≠ .constructor) :
    Does strict i (· = p.set sa (if ends = true then v.ending else v))
      (.whenever (ends = true) (subAppDone i sa error .constructor)) fun _ (q : Part) =>
        ∃ v' : View, v'.Holds i r ∧ q = p.set sa v' := by
  refine .whenever (fun htrue => ?_) fun hfalse q hq => ?_
  · rw [if_pos htrue]
    have howes : v.ending.Has i .constructor := .inl trivial
    refine (does_subAppDone error howes hv.not_destroying (.inl ⟨trivial, id⟩)).mono (fun _ hq => hq) ?_
    rintro _ q rfl
    exact ⟨v.ended, hv.ended hr, rfl⟩
  · rw [if_neg hfalse] at hq
    exact ⟨v, hv, hq⟩

theorem Part.Idle.set (h : p.Idle) (hv : v.Settled) : (p.set sa v).Idle where
  views x := by
    by_cases hx : x = sa
    · subst hx
      rw [Part.views_set]
      exact hv
    · rw [Part.views_set_of_ne _ _ hx]
      exact h.views x
  expiredq := h.expiredq
  waiting := h.waiting

/-- A thread puts the last thing it has of a request. -/
theorem does_put_idle (h : p.Idle) (hv : v.Holds i r) :
    Does strict i (· = p.set sa v) (subAppPut i sa r) fun _ => Part.Idle := by
  refine (does_subAppPut hv.has hv.not_destroying).mono (fun _ hq => hq) ?_
  rintro _ q rfl
  exact h.set hv.settled

/-! ## The timer -/

theorem View.Expiring.holds (h : v.Expiring) : v.Holds .timer .expired := ⟨h.expired, h.settled⟩

theorem does_cancel_expired (error : Int) (hv : v.Expiring) :
    Does strict .timer (· = p.set sa v) (subAppCancelPendingReq .timer sa error) fun _ (q : Part) =>
      ∃ v' : View, v'.Holds .timer .expired ∧ q = p.set sa v' := by
  refine .bind ?_ fun canceled => does_end_whenever error canceled hv.holds (fun h => by cases h)
  refine .critical (fun _ _ => trivial) fun s hs hp _ => ?_
  have heq := views_of_part hp
  have hwp := wp_markCancel (D := fun d => d.Inv strict ∧ ¬strict) hs (heq ▸ hv.expired)
    (heq ▸ hv.ends)
  simpa only [hp, Part.views_set, Part.set_set] using hwp

theorem Part.Expiring.tail {rest : List Nat} (h : p.Expiring) (hl : p.expiredq = sa :: rest)
    (hv : v.Settled) : ({ p with expiredq := rest }.set sa v).Expiring where
  waiting := h.waiting
  nodup := (List.nodup_cons.mp (hl ▸ h.nodup)).2
  expired x hx := by
    have hne : x ≠ sa := by
      rintro rfl
      exact (List.nodup_cons.mp (hl ▸ h.nodup)).1 hx
    rw [Part.views_set_of_ne _ _ hne]
    exact h.expired x (hl ▸ List.mem_cons_of_mem _ hx)
  settled x hx := by
    by_cases heq : x = sa
    · subst heq
      rw [Part.views_set]
      exact hv
    · rw [Part.views_set_of_ne _ _ heq]
      refine h.settled x fun hmem => ?_
      rw [hl] at hmem
      exact hx ((List.mem_cons.mp hmem).resolve_left heq)

/-- By induction on the list. -/
theorem does_cleanupExpiredq (l : List Nat) :
    Does strict .timer (fun q : Part => q.expiredq = l ∧ q.Expiring) (cleanupExpiredq l) fun _ =>
      Part.Idle := by
  induction l with
  | nil => exact .ret fun q hq => hq.2.idle hq.1
  | cons sa rest ih =>
    refine .exists fun p ⟨hl, hp⟩ => ?_
    have hv : (p.views sa).Expiring := hp.expired sa (hl ▸ List.mem_cons_self)
    refine .bind (Q := fun _ => (· = { p with expiredq := rest }.set sa (p.views sa))) ?_ fun _ => ?_
    · refine .critical (fun _ _ => trivial) fun s hs heq _ => ?_
      subst heq
      have hl : s.expiredq = sa :: rest := hl
      rw [show rest = s.expiredq.tail by rw [hl, List.tail_cons]]
      refine (hs.moved_expiredq (hs.expiredq.sublist (List.tail_sublist _)) fun x hx =>
        hs.expiring (List.mem_of_mem_tail hx)).mono ?_
      rintro q rfl
      exact (Part.set_self ..).symm
    refine .bind (does_cancel_expired ETIMEDOUT hv) fun _ => ?_
    refine .bind (Q := fun _ (q : Part) => q.expiredq = rest ∧ q.Expiring) ?_ fun _ => ih
    refine .exists fun q ⟨v, hholds, hq⟩ => ?_
    subst hq
    refine (does_subAppPut hholds.has hholds.not_destroying).mono (fun _ h => h) ?_
    rintro _ q rfl
    exact ⟨rfl, hp.tail hl hholds.settled⟩

theorem does_checkPendingRequests (input : ScanInput) :
    Does strict .timer Part.Idle (checkPendingRequests input) fun _ => Part.Idle := by
  refine .bind (Q := fun l (q : Part) => q.expiredq = l ∧ q.Expiring) ?_ does_cleanupExpiredq
  refine .critical (fun _ _ => trivial) fun s hs hidle hrun => ?_
  exact wp_scan hs hidle hrun

/-! ## Replies -/

theorem does_replyComplete {k : Nat} (error : Int) (hv : v.Holds (.reply k) (.matched (.reply k))) :
    Does strict (.reply k) (· = p.set sa v) (replyComplete (.reply k) sa error) fun _ (q : Part) =>
      ∃ v' : View, v'.Holds (.reply k) (.matched (.reply k)) ∧ q = p.set sa v' := by
  refine .bind ?_ fun completing => does_end_whenever error completing hv (fun h => by cases h)
  refine .critical (fun _ _ => trivial) fun s hs hp hrun => ?_
  have hwp := wp_markCompleting hs k (views_of_part hp ▸ hv.has.2) hrun
  simpa only [hp, Part.views_set, Part.set_set] using hwp

theorem does_checkReply (msgId : Nat) (hlookup : v.lookup) (hmatched : ¬v.matched) :
    Does strict i (· = p.set sa v) (.critical .checkReply (checkReply i sa msgId)) fun other =>
      (· = p.set sa (if other = true then v else v.withMatch)) := by
  refine .critical (fun _ _ => trivial) fun s hs hp _ => ?_
  have hv := views_of_part hp
  have hwp := wp_checkReply (D := fun d => d.Inv strict ∧ ¬strict) hs msgId (hv ▸ hlookup)
    (hv ▸ hmatched)
  simpa only [hp, Part.views_set, Part.set_set] using hwp

theorem View.Settled.holds_lookup (h : v.Settled) : { v with lookup := True }.Holds i (.lookup i) :=
  ⟨⟨rfl, trivial⟩, { h with lookup := id }⟩

theorem View.Settled.holds_matched (h : v.Settled) :
    { v with lookup := True }.withMatch.Holds i (.matched i) :=
  ⟨⟨rfl, trivial⟩, { h with lookup := id, matched := id }⟩

theorem does_lookup (label : Section) (hlabel : ∀ q, Asserts label q) (rncui : Nat) (h : p.Idle) :
    Does strict i (· = p) (.critical label (subAppLookup i rncui)) fun found (q : Part) =>
      p.Found found q ∧ ∃ s, MayRun strict label s ∧ found = s.find rncui := by
  refine .critical (fun q _ => hlabel q) fun s hs heq hrun => ?_
  subst heq
  exact wp_mono (wp_subAppLookup hs rncui fun x => (h.views x).lookup)
    (fun _ _ ⟨hfound, hmoved⟩ => hmoved.mono fun _ hq => ⟨hq, s, hrun, hfound⟩) fun _ hd => hd

theorem does_replyTryComplete (k rncui msgId : Nat) (error : Int) :
    Does strict (.reply k) Part.Idle (replyTryComplete (.reply k) rncui msgId error) fun _ =>
      Part.Idle := by
  refine .exists fun p hp => ?_
  refine .bind (does_lookup .lookup (fun _ => trivial) rncui hp) fun found => .exists fun q ⟨hq, _⟩ => ?_
  cases found with
  | none =>
    obtain rfl : q = p := hq
    exact .ret fun _ heq => heq ▸ hp
  | some sa =>
    obtain rfl : q = p.set sa { p.views sa with lookup := True } := hq
    have hv := hp.views sa
    refine .bind (does_checkReply msgId trivial hv.matched) fun other => ?_
    cases other with
    | true =>
      refine .bind (Q := fun _ => (· = p.set sa { p.views sa with lookup := True }))
        (.whenever (fun h => by cases h) fun _ q hq => hq) fun _ => ?_
      exact does_put_idle hp hv.holds_lookup
    | false =>
      refine .bind (.whenever (fun _ => does_replyComplete error hv.holds_matched)
        (fun h => absurd rfl h)) fun _ => ?_
      refine .exists fun q ⟨v, hholds, hq⟩ => ?_
      subst hq
      exact does_put_idle hp hholds

/-! ## Application threads -/

theorem settled_none : View.none.Settled where
  lookup := id
  matched := id
  sending := id
  expired := id
  owning := id
  destroying := id
  ends := False.elim

/-- A request that was just made. -/
theorem does_submitAdded (k : Nat) (req : Request) (h : p.Idle) :
    Does strict (.app k) (· = p.set sa { View.none with owning := True }) (submitAdded k sa req)
      fun _ => Part.Idle := by
  simp only [submitAdded]
  cases req.initError with
  | some _ => exact does_put_idle h ⟨.inr ⟨trivial, id⟩, { settled_none with owning := id }⟩
  | none =>
    refine .bind (Q := fun _ => (· = p.set sa
      { View.none with owning := True, blocks := req.blocking = true })) ?_ fun _ => ?_
    · refine .critical (fun _ _ => trivial) fun s hs hp _ => ?_
      have howns : ((s.part (.app k)).views sa).owning := by
        rw [views_of_part hp]
        trivial
      have hwp := wp_handleInit (D := fun d => d.Inv strict ∧ ¬strict) hs req howns
      simpa only [hp, Part.views_set, Part.set_set] using hwp
    have hidle : (p.set sa View.none).Idle := h.set settled_none
    refine .bind (Q := fun block => (· = (p.set sa View.none).withWaiting
      (if block = true then some sa else none))) ?_ fun block => ?_
    · refine .critical (fun _ _ => trivial) fun s hs hp _ => ?_
      have howns : ((s.part (.app k)).views sa).owning := by
        rw [views_of_part hp]
        trivial
      have hwaiting : (s.part (.app k)).waiting = none := by
        rw [hp]
        exact h.waiting
      have hwp := wp_submitEnqueue (D := fun d => d.Inv strict ∧ ¬strict) hs req.leaderViable howns
        hwaiting
      simp only [hp, Part.views_set, Part.set_set] at hwp
      exact hwp
    · refine .whenever (fun _ => .await ?_ fun s hs hp hguard _ => ?_) fun hfree q hq => ?_
      · rintro q rfl
        exact hidle.views
      · refine wp_mono (wp_wait hs (of_decide_eq_true hguard)) (fun _ _ hmoved => hmoved.mono ?_)
          fun _ hd => hd
        rintro q rfl
        rw [hp]
        exact ⟨hidle.views, hidle.expiredq, rfl⟩
      · rw [if_neg hfree] at hq
        rw [hq]
        exact ⟨hidle.views, hidle.expiredq, rfl⟩

theorem does_requestSubmit (k : Nat) (req : Request) :
    Does strict (.app k) Part.Idle (requestSubmit k req) fun _ => Part.Idle := by
  refine .exists fun p hp => .bind (Q := p.Added) ?_ ?_
  · refine .critical (fun _ _ => trivial) fun s hs heq _ => ?_
    subst heq
    exact wp_getAdd hs req.rncui fun x => (hp.views x).lookup
  · rintro ⟨sa, found⟩
    cases found with
    | true => exact does_put_idle hp (hp.views sa).holds_lookup
    | false => exact does_submitAdded k req hp

/-- A cancellation that has found a request, which is initialized. -/
theorem does_cancelFound (k : Nat) (h : p.Idle) (hstrict : ¬strict) :
    Does strict (.app k) (· = p.set sa { p.views sa with lookup := True }) (cancelFound k sa)
      fun _ => Part.Idle := by
  refine .bind (Q := fun initializing (q : Part) => initializing = false ∧ q.Idle) ?_ ?_
  · refine .critical (fun _ _ => trivial) fun s hs heq hrun => ?_
    have hlookup : ((s.part (.app k)).views sa).lookup := by
      rw [views_of_part heq]
      trivial
    refine wp_mono (wp_cancelCheck hs hstrict hlookup hrun) (fun _ _ ⟨hinit, hmoved⟩ => ?_)
      fun _ hd => hd
    refine hmoved.mono ?_
    rintro q rfl
    rw [heq, Part.views_set, Part.set_set]
    exact ⟨hinit, h.set { h.views sa with lookup := id }⟩
  · intro initializing
    refine .ite (fun htrue => .of_false ?_) fun _ => .ret fun q hq => hq.2
    rintro q ⟨hfalse, -⟩
    exact absurd (hfalse.symm.trans htrue) Bool.false_ne_true

theorem does_requestCancel (k rncui : Nat) :
    Does strict (.app k) Part.Idle (requestCancel k rncui) fun _ => Part.Idle := by
  refine .exists fun p hp => ?_
  refine .bind (does_lookup (.cancelLookup rncui) (fun _ => trivial) rncui hp) fun found => ?_
  refine .exists fun q ⟨hq, s, hrun, hfind⟩ => ?_
  cases found with
  | none =>
    obtain rfl : q = p := hq
    exact .ret fun _ heq => heq ▸ hp
  | some sa =>
    obtain rfl : q = p.set sa { p.views sa with lookup := True } := hq
    exact does_cancelFound k hp fun hs => by cases hfind.trans (hrun hs)

/-! ## The sender -/

/-- The sender holds the reference of the queue. -/
theorem View.Settled.holds_sending (h : v.Settled) (stale : Bool) :
    (v.dequeued stale).Holds .sender .sending :=
  ⟨trivial, { h with sending := id }⟩

/-- The sender calls `raft_client_sub_app_done`, as somebody else may have. -/
theorem View.Holds.done (h : v.Holds .sender .sending) :
    { v with called := v.ends }.Holds .sender .sending :=
  ⟨h.has, { h.settled with ends := fun he => ⟨he, (h.settled.ends he).2⟩ }⟩

theorem does_sendQueueRemoveDone (h : p.Idle) (hv : v.Holds .sender .sending) :
    Does strict .sender (· = p.set sa v) (sendQueueRemoveDone sa) fun _ => Part.Idle := by
  refine .bind (Q := fun _ => (· = p.set sa v)) ?_ fun _ => does_put_idle h hv
  refine .critical (fun _ _ => trivial) fun s hs hp _ => ?_
  have hwp := wp_removeDone hs (views_of_part hp ▸ hv.has)
  simpa only [hp] using hwp

/-- After a launch that failed for good, which does not happen in a strict run, or another one. -/
theorem does_afterLaunch {rc : Int} (h : p.Idle) (hv : v.Holds .sender .sending)
    (hrc : strict → rc = 0 ∨ rc = EAGAIN) :
    Does strict .sender (· = p.set sa v) (afterLaunch sa rc) fun _ => Part.Idle := by
  simp only [afterLaunch]
  split
  · rename_i hfailed
    have hstrict : ¬strict := fun hs => (hrc hs).elim hfailed.1 hfailed.2
    refine .bind (Q := fun _ => (· = p.set sa v)) ?_ fun _ => ?_
    · refine .critical (fun _ _ => trivial) fun s hs hp _ => ?_
      have hwp := wp_markSendFailed (D := fun d => d.Inv strict ∧ ¬strict) hs hstrict
        (views_of_part hp ▸ hv.has)
      simpa only [hp] using hwp
    · refine (does_subAppDone rc hv.has hv.not_destroying (.inr hstrict)).mono (fun _ hq => hq) ?_
      rintro _ q rfl
      exact h.set hv.done.settled
  · exact does_sendQueueRemoveDone h hv

theorem does_dequeueHeadAndSend (rc : Int) :
    Does strict .sender Part.Idle (dequeueHeadAndSend rc) fun _ => Part.Idle := by
  refine .exists fun p hp => .bind (Q := p.Dequeued) ?_ ?_
  · refine .critical (fun _ _ => trivial) fun s hs heq _ => ?_
    subst heq
    exact wp_dequeueHead hs fun x => (hp.views x).sending
  · intro head
    match head with
    | none =>
      refine .ret ?_
      rintro q rfl
      exact hp
    | some (sa, true) =>
      have hv := (hp.views sa).holds_sending true
      exact .bind (does_sendQueueRemoveDone hp hv) fun _ => .ret fun _ hq => hq
    | some (sa, false) =>
      have hv := (hp.views sa).holds_sending false
      refine .bind (Q := fun _ (q : Part) => q = p.set sa ((p.views sa).dequeued false) ∧
        (strict → rc = 0 ∨ rc = EAGAIN)) ?_ fun _ => .exists fun q ⟨hq, hrc⟩ => ?_
      · refine .critical (fun _ _ => trivial) fun s hs heq hrun => ?_
        have heq : s.part .sender = p.set sa ((p.views sa).dequeued false) := heq
        have hview := views_of_part heq
        have hflagged : ¬((s.part .sender).views sa).flagged := by
          rw [hview]
          exact Bool.false_ne_true
        have hsending : ((s.part .sender).views sa).sending := hview ▸ hv.has
        have hdies : (s.sub sa).sendq = true → s.Inv strict ∧ ¬strict := by
          refine fun hq => ⟨hs, fun hstrict => ?_⟩
          have hfalse := ((hs.ok sa).strict hstrict).sending hsending.2
          exact absurd (hfalse.symm.trans hq) Bool.false_ne_true
        refine wp_mono (wp_rpcLaunch hs rc hsending hflagged hdies) (fun _ _ hmoved => ?_)
          fun _ hd => hd
        refine hmoved.mono ?_
        rintro q rfl
        exact ⟨heq, hrun⟩
      · subst hq
        exact .bind (does_afterLaunch hp hv hrc) fun _ => .ret fun _ hq => hq

/-- By induction on the rounds. -/
theorem does_senderLoop (results : Nat → Int) (fuel remaining : Nat) :
    Does strict .sender Part.Idle (senderLoop results fuel remaining) fun _ => Part.Idle := by
  induction fuel generalizing remaining with
  | zero =>
    cases remaining with
    | zero => exact .ret fun _ hq => hq
    | succ remaining => exact .ret fun _ hq => hq
  | succ fuel ih =>
    cases remaining with
    | zero => exact .ret fun _ hq => hq
    | succ remaining =>
      simp only [senderLoop]
      refine .bind (does_dequeueHeadAndSend _) fun rc => ?_
      split
      · refine .bind (Q := fun _ => Part.Idle) ?_ fun _ => ih remaining
        refine .critical (fun _ _ => trivial) fun s hs hidle _ => ?_
        exact (hs.moved_counters (s.intervalRpcCnt + 1) s.requestsThrottled).mono
          fun _ hq => hq ▸ hidle
      · split
        · exact .ret fun _ hq => hq
        · exact ih (remaining + 1)

theorem does_rpcSender (newInterval : Bool) (fuel : Nat) (results : Nat → Int) :
    Does strict .sender Part.Idle (rpcSender newInterval fuel results) fun _ => Part.Idle := by
  refine .bind (Q := fun _ => Part.Idle) ?_ fun remaining => ?_
  · refine .critical (fun _ _ => trivial) fun s hs hidle _ => ?_
    exact wp_mono (wp_remainingRpcs hs newInterval)
      (fun _ _ hmoved => hmoved.mono fun _ hq => hq ▸ hidle) fun _ hd => hd
  refine .bind (does_senderLoop results fuel _) fun ended => ?_
  refine .bind (Q := fun _ => Part.Idle) ?_ fun _ => .ret fun _ hq => hq
  refine .critical (fun _ _ => trivial) fun s hs hidle _ => ?_
  simp only [wp_whenever, wp_modify]
  exact ⟨fun _ => (hs.moved_counters s.intervalRpcCnt _).mono fun _ hq => hq ▸ hidle,
    fun _ => hs.moved_refl.mono fun _ hq => hq ▸ hidle⟩

/-! ## All programs -/

theorem does_program (i : Thread) (op : Op) :
    Does strict i Part.Idle (program i op) fun _ => Part.Idle := by
  cases i with
  | app k =>
    cases op with
    | submit req => exact does_requestSubmit k req
    | cancel rncui => exact .bind (does_requestCancel k rncui) fun _ => .ret fun _ h => h
    | checkPending | reply | send => exact .ret fun _ hq => hq
  | timer =>
    cases op with
    | checkPending input => exact does_checkPendingRequests input
    | submit | cancel | reply | send => exact .ret fun _ hq => hq
  | sender =>
    cases op with
    | send newInterval fuel results =>
      exact .bind (does_rpcSender newInterval fuel results) fun _ => .ret fun _ hq => hq
    | submit | cancel | checkPending | reply => exact .ret fun _ hq => hq
  | reply k =>
    cases op with
    | reply rncui msgId error => exact does_replyTryComplete k rncui msgId error
    | submit | cancel | checkPending | send => exact .ret fun _ hq => hq

/-- The threads of the client keep to the discipline. -/
theorem discipline_sound (strict : Prop) : (discipline strict).Sound program :=
  sound_ofParts does_program

end RaftClient

end NiovaRaft
