import NiovaRaft.Client.Completion

/-!
# Cancellation

A user who cancels a request is to have the reply buffer back: once the call has returned, no reply is
copied into it and nothing is sent any more, and the reference of the lookup was put.  A request that is
still being initialized is to be left alone, and the call is to say so.

A reply is copied without the lock, while `completing` is set.

No call that finds a request does that.  One that is initialized is left alone, and the reference of
the lookup is lost.  One that is being initialized is canceled.
-/

namespace NiovaRaft

open Base Base.Handler

namespace RaftClient

/-! ## Calls -/

/-- Application thread `k` has found a request in `raft_client_request_cancel`, and is to look at it. -/
structure Found (k sa : Nat) (c : Threads Thread Section Rci) : Prop where
  alive : c.died = none
  here : c.progs (.app k) = cancelFound k sa >>= fun _ => pure ()

/-- What is left of that call after these events. -/
def cancelLeft (k sa : Nat) (c : Threads Thread Section Rci) (es : List (ThreadEvent Thread Op)) :
    ClientProg Int :=
  Threads.left program (.app k) c (cancelFound k sa) es

/-- A call of `raft_client_request_cancel` in a run that has found a request, and has returned. -/
structure CancelCall (es : List (ThreadEvent Thread Op)) where
  k : Nat
  sa : Nat
  rc : Int
  /-- What happens before the thread looks at the request. -/
  before : List (ThreadEvent Thread Op)
  /-- What happens from then on, until the call has returned. -/
  during : List (ThreadEvent Thread Op)
  later : List (ThreadEvent Thread Op)
  run : es = before ++ .run (.app k) :: during ++ later
  found : Found k sa (after before)
  returned : cancelLeft k sa (after before) (.run (.app k) :: during) = .ret rc

namespace CancelCall

variable {es : List (ThreadEvent Thread Op)} (call : CancelCall es)

/-- The request, after these events of the call. -/
def subAt (es' : List (ThreadEvent Thread Op)) : SubApp :=
  ((after call.before).runs program es').shared.sub call.sa

/-- The call has not returned with these events. -/
def Open (es' : List (ThreadEvent Thread Op)) : Prop :=
  (cancelLeft call.k call.sa (after call.before) es').next ≠ none

/-- A step of the call itself. -/
abbrev own : ThreadEvent Thread Op := .run (.app call.k)

/-- The events of the call. -/
abbrev events : List (ThreadEvent Thread Op) := call.own :: call.during

/-- The request is still being initialized where the call looks at it. -/
def Initializing : Prop := (call.subAt []).initializing = true

/-- The thread is where its call is, until that has returned. -/
theorem progs_of_open {es' : List (ThreadEvent Thread Op)}
    (hopen : ∀ es₁ e es₂, es' = es₁ ++ e :: es₂ → call.Open es₁) :
    ((after call.before).runs program es').progs (.app call.k) =
      cancelLeft call.k call.sa (after call.before) es' >>= fun _ => pure () :=
  Threads.progs_runs_left call.found.here hopen

end CancelCall

/-- The reference of the thread's lookup is put. -/
structure SubApp.PutsLookup (k : Nat) (a a' : SubApp) : Prop where
  refCnt : a'.refCnt + 1 = a.refCnt
  held : a'.held = a.held.erase (.lookup (.app k))

/-- The call does what it is made for. -/
structure CancelCall.Releases {es : List (ThreadEvent Thread Op)} (call : CancelCall es) : Prop where
  put : ∃ es', es' ++ [call.own] <+: call.events ∧ call.Open es' ∧
    SubApp.PutsLookup call.k (call.subAt es') (call.subAt (es' ++ [call.own]))
  /-- No reply is copied any more. -/
  uncopied : ¬call.Initializing → ∀ es', es' <+: call.later →
    (call.subAt (call.events ++ es')).completing = false
  unsent : ¬call.Initializing → ∀ es', es' <+: call.later →
    (call.subAt (call.events ++ es')).numSends = (call.subAt call.events).numSends
  refused : call.Initializing → call.rc = EINPROGRESS
  /-- The call changes nothing, but that it puts its reference. -/
  unchanged : call.Initializing → ∀ es', es' ++ [call.own] <+: call.events → call.Open es' →
    call.subAt (es' ++ [call.own]) = call.subAt es' ∨
      call.subAt (es' ++ [call.own]) = (call.subAt es').drop (.lookup (.app call.k))

/-- Every call in the run that has returned does. -/
def CancelsRelease (es : List (ThreadEvent Thread Op)) : Prop := ∀ call : CancelCall es, call.Releases

/-! ## The check -/

/-- The check puts no reference, whatever it says. -/
theorem wp_cancelCheck_refCnt (i : Thread) (sa : Nat) (s : Rci) :
    (cancelCheck i sa).wp (fun initializing s' => initializing = (s.sub sa).initializing ∧
      (s'.sub sa).refCnt = (s.sub sa).refCnt) (fun _ => False) s := by
  simp only [cancelCheck, touch, wp_bind, wp_modify, wp_gets, wp_whenever, wp_modifySub, wp_pure]
  refine ⟨fun _ => ⟨trivial, ?_⟩, fun _ => ⟨trivial, trivial⟩⟩
  simp only [Rci.set, Function.update_self, SubApp.leak]

/-- What follows the check. -/
def afterCheck (k sa : Nat) (initializing : Bool) : ClientProg Int :=
  if initializing = true then do
    subAppCancelPendingReq (.app k) sa ECANCELED
    subAppPut (.app k) sa (.lookup (.app k))
    pure 0
  else pure EINPROGRESS

/-- Where the call goes on after the check, it returns 0. -/
theorem afterCheck_ends (k sa : Nat) : (afterCheck k sa true).Ends (· = 0) :=
  .bind fun _ => .bind fun _ => rfl

variable {k sa : Nat} {c : Threads Thread Section Rci}

/-- The step in which the thread looks at the request. -/
theorem Found.check (h : Found k sa c) :
    c.leftStep (.app k) (cancelFound k sa) (.run (.app k) : ThreadEvent Thread Op) =
      afterCheck k sa (c.shared.sub sa).initializing ∧
    ((c.step program (.run (.app k))).shared.sub sa).refCnt = (c.shared.sub sa).refCnt := by
  obtain ⟨initializing, s', hres, rfl, href⟩ :=
    exists_ok_of_wp (wp_cancelCheck_refCnt (.app k) sa c.shared)
  have hprog : cancelFound k sa = .sec (.cancelCheck sa) (fun _ => true) (cancelCheck (.app k) sa)
      (afterCheck k sa) := rfl
  constructor
  · simp only [Threads.leftStep, h.alive, if_pos, hprog, Prog.resume, hres]
  · have hhere : c.progs (.app k) = .sec (.cancelCheck sa) (fun _ => true) (cancelCheck (.app k) sa)
        fun initializing => afterCheck k sa initializing >>= fun _ => pure () := h.here
    simp only [Threads.step, h.alive, hhere, if_pos, hres]
    exact href

/-- What is left of the call after its check. -/
theorem Found.left (h : Found k sa c) (es : List (ThreadEvent Thread Op)) :
    cancelLeft k sa c (.run (.app k) :: es) = Threads.left program (.app k)
      (c.step program (.run (.app k))) (afterCheck k sa (c.shared.sub sa).initializing) es := by
  rw [cancelLeft, Threads.left, h.check.1]

/-! ## No call does it -/

namespace CancelCall

variable {es : List (ThreadEvent Thread Op)} (call : CancelCall es)

/-- A call that finds an initialized request does nothing after its check. -/
theorem put_at_check (hinit : ¬call.Initializing) {es' : List (ThreadEvent Thread Op)}
    (hbefore : es' ++ [call.own] <+: call.events) (hopen : call.Open es') : es' = [] := by
  cases es' with
  | nil => rfl
  | cons e es' =>
    obtain ⟨rfl, -⟩ := List.cons_prefix_cons.mp hbefore
    refine absurd ?_ hopen
    have hfalse : ((after call.before).shared.sub call.sa).initializing = false :=
      Bool.not_eq_true _ ▸ hinit
    rw [call.found.left, hfalse]
    show (Threads.left _ _ _ (.ret EINPROGRESS) es').next = none
    rw [Threads.left_ret]
    rfl

/-- It does not put its reference. -/
theorem not_put (hinit : ¬call.Initializing) : ¬call.Releases := by
  intro h
  obtain ⟨es', hbefore, hopen, hput, -⟩ := h.put
  obtain rfl := call.put_at_check hinit hbefore hopen
  have hcheck : (call.subAt [call.own]).refCnt = (call.subAt []).refCnt := call.found.check.2
  rw [List.nil_append, hcheck] at hput
  exact Nat.succ_ne_self _ hput

/-- A call that finds one that is being initialized does not return `-EINPROGRESS`. -/
theorem not_refused (hinit : call.Initializing) : ¬call.Releases := by
  intro h
  have htrue : ((after call.before).shared.sub call.sa).initializing = true := hinit
  have hreturned := call.returned
  rw [call.found.left, htrue] at hreturned
  have hends : (Threads.left program (.app call.k) ((after call.before).step program call.own)
      (afterCheck call.k call.sa true) call.during).Ends (· = 0) :=
    Threads.ends_left (afterCheck_ends call.k call.sa) call.during
  rw [hreturned] at hends
  have hrc : call.rc = 0 := hends
  rw [h.refused hinit] at hrc
  cases hrc

theorem not_releases : ¬call.Releases := by
  by_cases hinit : call.Initializing
  · exact call.not_refused hinit
  · exact call.not_put hinit

end CancelCall

/-- A run is as it should be just when no call returns in it that has found a request. -/
theorem cancels_release_iff (es : List (ThreadEvent Thread Op)) :
    CancelsRelease es ↔ IsEmpty (CancelCall es) := by
  constructor
  · exact fun h => ⟨fun call => call.not_releases (h call)⟩
  · exact fun h call => (h.false call).elim

/-- The cancellation of the initialized request, in that run. -/
def lateCancelCall : CancelCall lateCancelRun where
  k := 1
  sa := 0
  rc := EINPROGRESS
  before := submitRun ++ [.begin (.app 1) (.cancel 7), .run (.app 1)]
  during := []
  later := sendRun ++ replyRun
  run := rfl
  found := ⟨rfl, rfl⟩
  returned := rfl

/-- The request is sent and its reply is copied, after the call has returned. -/
theorem not_cancels_release : ¬CancelsRelease lateCancelRun := by
  intro h
  have hreleases := h lateCancelCall
  have hinit : ¬lateCancelCall.Initializing := Bool.false_ne_true
  have hcopied := hreleases.uncopied hinit (sendRun ++ replyRun.take 4) ⟨replyRun.drop 4, rfl⟩
  exact Bool.false_ne_true hcopied.symm

end RaftClient

end NiovaRaft
