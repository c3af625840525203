import NiovaRaft.Client.SendQueue

/-!
# Requests complete once

A run is careful if no cancellation finds a request, no launch fails for good, no reply meets another
one that is completing the same request, and no request is queued again while it is being sent.  In a
careful run `raft_client_sub_app_done` is called once for every request that ends, and when the threads
have come to rest, all references to it were put and its thread has heard of it once.

Each of the four spoils it by itself.  A cancellation of an initialized request does not put the
reference of its lookup.
-/

namespace NiovaRaft

open Base Base.Handler

namespace RaftClient

/-- The sections, where they do what they should. -/
def Harmless : Section → Rci → Prop
  | .cancelLookup rncui, s => s.find rncui = none
  | .launch rc, _ => rc = 0 ∨ rc = EAGAIN
  | .tryComplete sa, s => (s.sub sa).completing = false
  | .scan input, s => ∀ sa ∈ s.tree, Resends input sa (s.sub sa) → .sending ∉ (s.sub sa).held
  | _, _ => True

/-- An event that does what it should. -/
def Careful (c : Threads Thread Section Rci) (e : ThreadEvent Thread Op) : Prop :=
  ∀ i label, e = .run i → (c.progs i).next = some label → Harmless label c.shared

theorem careful_begin (c : Threads Thread Section Rci) (i : Thread) (op : Op) :
    Careful c (.begin i op) := by
  rintro j label ⟨⟩

theorem careful_run {c : Threads Thread Section Rci} {i : Thread}
    (h : ∀ label, (c.progs i).next = some label → Harmless label c.shared) : Careful c (.run i) := by
  rintro j label ⟨⟩ hnext
  exact h label hnext

theorem Harmless.mayRun {label : Section} {s : Rci} (h : Harmless label s) : MayRun True label s := by
  cases label with
  | cancelCheck sa => exact fun hn => (hn trivial).elim
  | cancelLookup | launch | tryComplete | scan => exact fun _ => h
  | _ => trivial

/-! ## Rest -/

/-- The request was completed or canceled, or is about to be. -/
def SubApp.Ends (a : SubApp) : Prop := a.cancel = true ∨ a.completing = true ∨ a.ready = true

/-- No thread has anything to do, but those that are blocked. -/
def AtRest (c : Threads Thread Section Rci) : Prop :=
  ∀ i, (c.progs i).next = none ∨ (c.progs i).next = some .wait

/-- Requests complete once. -/
structure CompletesOnce (c : Threads Thread Section Rci) : Prop where
  alive : c.died = none
  useAfterFree : c.shared.useAfterFree = false
  /-- Every reference that was taken is still held by one, or was put. -/
  references : ∀ sa, (c.shared.sub sa).held.Nodup ∧
    (c.shared.sub sa).refCnt = (c.shared.sub sa).held.length
  dones : ∀ sa, (c.shared.sub sa).dones ≤ 1
  callbacks : ∀ sa, (c.shared.sub sa).callbacks ≤ (c.shared.sub sa).asyncCb.toNat ∧
    (c.shared.sub sa).wakeups ≤ (c.shared.sub sa).blocking.toNat
  completed : AtRest c → ∀ sa, (c.shared.sub sa).Ends → (c.shared.sub sa).dones = 1
  /-- What is off the send queue, besides. -/
  freed : AtRest c → ∀ sa, (c.shared.sub sa).Ends → (c.shared.sub sa).sendq = false →
    (c.shared.sub sa).held = [] ∧ (c.shared.sub sa).cbExec = true ∧
      (c.shared.sub sa).callbacks = (c.shared.sub sa).asyncCb.toNat ∧
      (c.shared.sub sa).wakeups = (c.shared.sub sa).blocking.toNat

section Rest

variable {made inTree linked expiring awaited : Prop} {a : SubApp}

theorem SubApp.Ok.ender_of_ends (h : a.Ok True made inTree linked expiring awaited) (hends : a.Ends) :
    a.ender ≠ none := by
  have hold := h.strict trivial
  intro hnone
  obtain ⟨hcompleting, hready⟩ := hold.pending hnone
  rcases hends with hc | hc | hc
  · cases hnone.symm.trans (hold.cancel hc)
  · exact absurd (hcompleting.symm.trans hc) Bool.false_ne_true
  · exact absurd (hready.symm.trans hc) Bool.false_ne_true

/-- With all threads through, a request that ends was done with. -/
theorem SubApp.Ok.done_of_settled (h : a.Ok True made inTree linked expiring awaited)
    (hsettled : ∀ i, (a.view i).Settled) (hends : a.Ends) :
    a.enderDone = true ∧ .constructor ∉ a.held := by
  obtain ⟨i, hender⟩ := Option.ne_none_iff_exists'.mp (h.ender_of_ends hends)
  obtain ⟨hcalled, howes⟩ := (hsettled i).ends hender
  exact ⟨hcalled.2, fun hctor => howes ⟨hender, hctor⟩⟩

/-- With all threads through, nobody holds a request that ends, but the send queue. -/
theorem SubApp.Ok.held_of_settled (h : a.Ok True made inTree linked expiring awaited)
    (hsettled : ∀ i, (a.view i).Settled) (hends : a.Ends) (hsendq : a.sendq = false) : a.held = [] := by
  refine List.eq_nil_iff_forall_not_mem.mpr fun r hr => ?_
  cases r with
  | constructor => exact (h.done_of_settled hsettled hends).2 hr
  | sendq => exact absurd (hsendq.symm.trans (h.sendqRef.mp hr)) Bool.false_ne_true
  | sending => exact (hsettled .sender).sending ⟨rfl, hr⟩
  | expired => exact (hsettled .timer).expired ⟨rfl, hr⟩
  | lookup i => exact (hsettled i).lookup hr
  | matched i => exact (hsettled i).matched hr

theorem SubApp.Ok.made_of_ends (h : a.Ok True made inTree linked expiring awaited) (hends : a.Ends) :
    made := by
  by_contra hn
  rw [h.fresh hn] at hends
  rcases hends with hc | hc | hc <;> cases hc

/-- With all threads through, it is freed. -/
theorem SubApp.Ok.freed_of_settled (h : a.Ok True made inTree linked expiring awaited)
    (hsettled : ∀ i, (a.view i).Settled) (hends : a.Ends) (hsendq : a.sendq = false) :
    a.cbExec = true := by
  have hzero : a.refCnt = 0 := by
    rw [h.refCnt, h.held_of_settled hsettled hends hsendq, (h.strict trivial).leaked]
    rfl
  have hdest : a.destroyer ≠ none := by
    rw [Ne, h.destroyer]
    exact fun hpos => Nat.ne_of_gt (hpos (h.made_of_ends hends)) hzero
  obtain ⟨i, hi⟩ := Option.ne_none_iff_exists'.mp hdest
  by_contra hn
  exact (hsettled i).destroying ⟨hi, Bool.not_eq_true _ ▸ hn⟩

end Rest

/-! ## Every run -/

theorem settled_of_atRest {c : Threads Thread Section Rci} (h : (discipline True).Keeps c)
    (halive : c.died = none) (hrest : AtRest c) (sa : Nat) (i : Thread) :
    ((c.shared.sub sa).view i).Settled := by
  rcases hrest i with hnext | hnext
  · have hidle : (c.shared.part i).Idle := h.idle halive hnext
    exact hidle.views sa
  · have hwaits : Asserts .wait (c.shared.part i) := h.asserts halive hnext
    exact hwaits sa

theorem completesOnce_of_keeps {c : Threads Thread Section Rci} (h : (discipline True).Keeps c) :
    CompletesOnce c := by
  have halive : c.died = none := by
    cases hdied : c.died with
    | none => rfl
    | some label => exact (h.died label hdied trivial).elim
  exact {
    alive := halive
    useAfterFree := h.inv.useAfterFree
    references := fun sa => by
      have hok := h.inv.ok sa
      refine ⟨hok.nodup, ?_⟩
      rw [hok.refCnt, (hok.strict trivial).leaked, Nat.add_zero]
    dones := fun sa => by
      rw [((h.inv.ok sa).strict trivial).dones]
      exact Bool.toNat_le _
    callbacks := fun sa => by
      have hok := h.inv.ok sa
      rw [hok.callbacks, hok.wakeups]
      cases (c.shared.sub sa).cbExec with
      | true => exact ⟨Nat.le_refl _, Nat.le_refl _⟩
      | false => exact ⟨Nat.zero_le _, Nat.zero_le _⟩
    completed := fun hrest sa hends => by
      have hok := h.inv.ok sa
      rw [(hok.strict trivial).dones, (hok.done_of_settled (settled_of_atRest h halive hrest sa) hends).1]
      rfl
    freed := fun hrest sa hends hsendq => by
      have hok := h.inv.ok sa
      have hsettled := settled_of_atRest h halive hrest sa
      have hfreed := hok.freed_of_settled hsettled hends hsendq
      refine ⟨hok.held_of_settled hsettled hends hsendq, hfreed, ?_, ?_⟩
      · rw [hok.callbacks, hfreed, Bool.true_and]
      · rw [hok.wakeups, hfreed, Bool.true_and] }

/-- In every careful run requests complete once. -/
theorem completes_once {c : Threads Thread Section Rci}
    (h : Threads.Reach program Careful Rci.initial c) : CompletesOnce c := by
  refine completesOnce_of_keeps (keeps_of_reach ?_ h)
  intro c i label hok hnext
  exact (hok i label rfl hnext).mayRun

/-- The sender sends what is queued. -/
def sendRun : List (ThreadEvent Thread Op) :=
  .begin .sender (.send false 5 fun _ => 0) :: List.replicate 8 (.run .sender)

/-- The reply to the first request arrives. -/
def replyRun : List (ThreadEvent Thread Op) :=
  .begin (.reply 0) (.reply 7 1 0) :: List.replicate 7 (.run (.reply 0))

/-- A request is submitted, sent and replied to. -/
def plainRun : List (ThreadEvent Thread Op) := submitRun ++ sendRun ++ replyRun

theorem completes_once_plainRun :
    (((after plainRun).shared.sub 0).ready = true ∧ ((after plainRun).shared.sub 0).callbacks = 1) ∧
      CompletesOnce (after plainRun) := by
  refine ⟨⟨rfl, rfl⟩, completes_once (Threads.Reach.start.runs ?_)⟩
  simp only [plainRun, submitRun, sendRun, replyRun, List.replicate, List.cons_append,
    List.nil_append, Threads.AllOk]
  repeat' apply And.intro
  all_goals first
    | trivial
    | exact careful_begin _ _ _
    | (refine careful_run fun label hnext => ?_
       cases hnext
       first | trivial | rfl | exact .inl rfl)

/-- A cancellation of the request, once it is initialized, before it is sent and replied to. -/
def lateCancelRun : List (ThreadEvent Thread Op) :=
  submitRun ++ [.begin (.app 1) (.cancel 7), .run (.app 1), .run (.app 1)] ++ sendRun ++ replyRun

theorem atRest_lateCancelRun : AtRest (after lateCancelRun) := by
  intro i
  left
  have hthreads : ∀ e ∈ lateCancelRun, e.thread = .app 0 ∨ e.thread = .app 1 ∨
      e.thread = .sender ∨ e.thread = .reply 0 := by
    decide
  by_cases hi : i = .app 0 ∨ i = .app 1 ∨ i = .sender ∨ i = .reply 0
  · rcases hi with rfl | rfl | rfl | rfl <;> rfl
  · have hnot : ∀ e ∈ lateCancelRun, e.thread ≠ i := by
      rintro e he rfl
      exact hi (hthreads e he)
    rw [after, Threads.progs_runs program _ hnot]
    rfl

theorem not_completes_once :
    ∃ c, Threads.Reach program (fun _ _ => True) Rci.initial c ∧ ¬CompletesOnce c := by
  refine ⟨after lateCancelRun, Threads.Reach.start.runs ?_, fun h => ?_⟩
  · simp [Threads.AllOk, lateCancelRun, submitRun, sendRun, replyRun]
  · have hends : ((after lateCancelRun).shared.sub 0).Ends := .inr (.inr rfl)
    have hunfreed : ((after lateCancelRun).shared.sub 0).cbExec = false := rfl
    have hfreed := (h.freed atRest_lateCancelRun 0 hends rfl).2.1
    exact Bool.false_ne_true (hunfreed.symm.trans hfreed)

end RaftClient

end NiovaRaft
