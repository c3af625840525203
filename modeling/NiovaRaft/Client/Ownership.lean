import NiovaRaft.Model.RaftClient
import Mathlib.Data.List.Nodup

/-!
# Who owns what of a request

Every reference is held by one thread, or by the send queue.  A thread that initializes a request, that
is about to end it or that destroys it is the only one to do so.  This is its part of the request, and
the other threads do not change it.

The rest is an invariant of every request.  It is stated twice over: what holds in every run in which
no request is canceled while it is initialized, and what holds besides in a run that is `strict`.
-/

namespace NiovaRaft

open Base Base.Handler

namespace RaftClient

/-! ## Parts -/

/-- What a thread owns of a request. -/
structure View where
  lookup : Prop
  matched : Prop
  sending : Prop
  flagged : Prop
  expired : Prop
  owning : Prop
  blocks : Prop
  destroying : Prop
  /-- It is the one to end the request, -/
  ends : Prop
  /-- it has called `raft_client_sub_app_done`, -/
  called : Prop
  /-- and it has the constructor's reference to put. -/
  owes : Prop

/-- What thread `i` owns of a request. -/
def SubApp.view (a : SubApp) (i : Thread) : View where
  lookup := .lookup i ∈ a.held
  matched := .matched i ∈ a.held
  sending := i = .sender ∧ .sending ∈ a.held
  flagged := i = .sender ∧ .sending ∈ a.held ∧ a.flagged = true
  expired := i = .timer ∧ .expired ∈ a.held
  owning := a.owner = i ∧ a.initializing = true ∧ .constructor ∈ a.held
  blocks := a.owner = i ∧ a.initializing = true ∧ a.blocking = true
  destroying := a.destroyer = some i ∧ a.cbExec = false
  ends := a.ender = some i
  called := a.ender = some i ∧ a.enderDone = true
  owes := a.ender = some i ∧ .constructor ∈ a.held

/-- The part of a thread. -/
structure Part where
  views : Nat → View
  expiredq : List Nat
  waiting : Option Nat

/-- What thread `i` owns. -/
def Rci.part (i : Thread) (s : Rci) : Part where
  views sa := (s.sub sa).view i
  expiredq := if i = .timer then s.expiredq else []
  waiting :=
    match i with
    | .app k => s.waiting k
    | _ => none

/-- A thread has nothing to do with a request, or is through with it. -/
structure View.Settled (v : View) : Prop where
  lookup : ¬v.lookup
  matched : ¬v.matched
  sending : ¬v.sending
  expired : ¬v.expired
  owning : ¬v.owning
  destroying : ¬v.destroying
  ends : v.ends → v.called ∧ ¬v.owes

/-- A thread that is not running. -/
structure Part.Idle (p : Part) : Prop where
  views : ∀ sa, (p.views sa).Settled
  expiredq : p.expiredq = []
  waiting : p.waiting = none

/-- The part after a step on one request. -/
def Part.set (p : Part) (sa : Nat) (v : View) : Part :=
  { p with views := Function.update p.views sa v }

/-- The part of a thread that waits, or no longer does. -/
def Part.withWaiting (p : Part) (waiting : Option Nat) : Part := { p with waiting := waiting }

@[simp] theorem Part.set_self (p : Part) (sa : Nat) : p.set sa (p.views sa) = p := by
  simp [Part.set]

@[simp] theorem Part.set_set (p : Part) (sa : Nat) (v v' : View) :
    (p.set sa v).set sa v' = p.set sa v' := by
  simp [Part.set]

@[simp] theorem Part.views_set (p : Part) (sa : Nat) (v : View) : (p.set sa v).views sa = v := by
  simp [Part.set]

theorem Part.views_set_of_ne (p : Part) {sa x : Nat} (v : View) (h : x ≠ sa) :
    (p.set sa v).views x = p.views x := by
  simp [Part.set, h]

/-! ## The invariant -/

/-- What holds of a request besides, in a strict run: nothing leaks, and only the timer cancels. -/
structure SubApp.Strict (a : SubApp) : Prop where
  leaked : a.leaked = 0
  sending : .sending ∈ a.held → a.sendq = false
  cancel : a.cancel = true → a.ender = some .timer
  canceled : a.ender = some .timer → a.completing = false ∧ a.ready = false
  replied : ∀ k, a.ender = some (.reply k) → a.completing = !a.enderDone ∧ a.ready = a.enderDone
  pending : a.ender = none → a.completing = false ∧ a.ready = false
  dones : a.dones = a.enderDone.toNat

/-- What holds of a request that was made or not, that is in the tree, linked on the send queue or on
the list of the expired ones, and that a thread waits for. -/
structure SubApp.Ok (strict : Prop) (a : SubApp) (made inTree linked expiring awaited : Prop) :
    Prop where
  fresh : ¬made → a = {}
  nodup : a.held.Nodup
  refCnt : a.refCnt = a.held.length + a.leaked
  inTree : inTree ↔ 0 < a.refCnt
  destroyer : a.destroyer = none ↔ made → 0 < a.refCnt
  cbExec : a.cbExec = true → a.destroyer ≠ none
  callbacks : a.callbacks = (a.cbExec && a.asyncCb).toNat
  wakeups : a.wakeups = (a.cbExec && a.blocking).toNat
  linked : linked ↔ a.sendq = true
  sendqRef : .sendq ∈ a.held ↔ a.sendq = true
  expiring : expiring → made ∧ a.initializing = false ∧ a.sendq = false
  initializing : a.initializing = true → .sendq ∉ a.held ∧ .sending ∉ a.held ∧
    .expired ∉ a.held ∧ (∀ i, .matched i ∉ a.held) ∧ a.cancel = false ∧ a.completing = false ∧
    a.ready = false ∧ a.ender = none
  unborn : a.initializing = true → .constructor ∉ a.held → a.blocking = false
  constructor : made → a.initializing = false → a.ender = none → .constructor ∈ a.held
  ender : ∀ i, a.ender = some i → i = .timer ∧ a.cancel = true ∨
    (∃ k, i = .reply k) ∧ (a.completing = true ∨ a.ready = true)
  enderDone : a.ender = none → a.enderDone = false
  awaited : made → a.blocking = true → a.initializing = false → a.cbExec = false → awaited
  strict : strict → a.Strict

/-- The thread that submitted a request waits for it. -/
def Rci.Awaited (s : Rci) (sa : Nat) : Prop :=
  ∃ k, (s.sub sa).owner = .app k ∧ s.waiting k = some sa ∧ s.notifier k = 1

/-- What holds of a request of the client. -/
def Rci.OkAt (strict : Prop) (s : Rci) (sa : Nat) : Prop :=
  (s.sub sa).Ok strict (sa < s.next) (sa ∈ s.tree) (sa ∈ s.sendq) (sa ∈ s.expiredq) (s.Awaited sa)

/-- The invariant of the client. -/
structure Rci.Inv (strict : Prop) (s : Rci) : Prop where
  ok : ∀ sa, s.OkAt strict sa
  tree : s.tree.Nodup
  sendq : s.sendq.Nodup
  expiredq : s.expiredq.Nodup
  useAfterFree : s.useAfterFree = false
  launchedFlagged : s.launchedFlagged = false

/-! ## References -/

section Refs

variable {strict made inTree linked expiring awaited : Prop} {a : SubApp} {r : Ref} {i : Thread}

namespace SubApp.Ok

variable (h : a.Ok strict made inTree linked expiring awaited)

include h

theorem made_of_pos (hpos : 0 < a.refCnt) : made := by
  by_contra hn
  rw [h.fresh hn] at hpos
  cases hpos

theorem pos_of_mem (hr : r ∈ a.held) : 0 < a.refCnt := by
  have hlen := List.length_pos_of_mem hr
  rw [h.refCnt]
  omega

theorem made_of_mem (hr : r ∈ a.held) : made := h.made_of_pos (h.pos_of_mem hr)

theorem destroyer_of_pos (hpos : 0 < a.refCnt) : a.destroyer = none := h.destroyer.mpr fun _ => hpos

/-- A request that somebody holds is not freed. -/
theorem cbExec_of_pos (hpos : 0 < a.refCnt) : a.cbExec = false := by
  by_contra hn
  exact h.cbExec (Bool.not_eq_false _ ▸ hn) (h.destroyer_of_pos hpos)

/-- A reference is taken that is not the queue's. -/
theorem get (hpos : 0 < a.refCnt) (hr : r ∉ a.held) (hsendq : r ≠ .sendq) (hsending : r ≠ .sending)
    (hinit : a.initializing = true → ∃ i, r = .lookup i) :
    (a.get r).Ok strict made inTree linked expiring awaited :=
  { h with
    fresh := fun hn => (hn (h.made_of_pos hpos)).elim
    nodup := List.nodup_cons.mpr ⟨hr, h.nodup⟩
    refCnt := by
      have := h.refCnt
      simp only [SubApp.get, List.length_cons]
      omega
    inTree := by
      have := h.inTree
      simp only [SubApp.get]
      constructor
      · omega
      · exact fun _ => this.mpr hpos
    destroyer := by
      have := h.destroyer_of_pos hpos
      simp only [SubApp.get, this, true_iff]
      omega
    sendqRef := by
      simp only [SubApp.get, List.mem_cons, Ne.symm hsendq, false_or]
      exact h.sendqRef
    initializing := fun hi => by
      obtain ⟨j, rfl⟩ := hinit hi
      simpa [SubApp.get] using h.initializing hi
    unborn := fun hi hc => h.unborn hi fun hmem => hc (List.mem_cons_of_mem _ hmem)
    constructor := fun hm hi he => List.mem_cons_of_mem _ (h.constructor hm hi he)
    strict := fun hs => { h.strict hs with
      sending := fun hmem => (h.strict hs).sending
        ((List.mem_cons.mp hmem).resolve_left (Ne.symm hsending)) } }

theorem dropWith {inTree' : Prop} {destroyer : Option Thread} (hr : r ∈ a.held) (hsendq : r ≠ .sendq)
    (hctor : r = .constructor → a.initializing = true ∧ a.blocking = false ∨ a.ender ≠ none)
    (hin : inTree' ↔ 1 < a.refCnt) (hdest : destroyer = none ↔ 1 < a.refCnt) :
    { a.drop r with destroyer := destroyer }.Ok strict made inTree' linked expiring awaited :=
  { h with
    fresh := fun hn => (hn (h.made_of_mem hr)).elim
    nodup := h.nodup.erase r
    refCnt := by
      have hlen := List.length_pos_of_mem hr
      have := h.refCnt
      simp only [SubApp.drop, List.length_erase_of_mem hr]
      omega
    inTree := by
      rw [hin]
      simp only [SubApp.drop]
      omega
    destroyer := by
      have hmade := h.made_of_mem hr
      rw [hdest, forall_prop_of_true hmade]
      simp only [SubApp.drop]
      omega
    cbExec := fun hc => by
      have hfalse : a.cbExec = false := h.cbExec_of_pos (h.pos_of_mem hr)
      exact absurd (hfalse.symm.trans hc) Bool.false_ne_true
    sendqRef := by
      simp only [SubApp.drop, List.mem_erase_of_ne (Ne.symm hsendq)]
      exact h.sendqRef
    initializing := fun hi => by
      obtain ⟨h1, h2, h3, h4, hrest⟩ := h.initializing hi
      exact ⟨fun hm => h1 (List.mem_of_mem_erase hm), fun hm => h2 (List.mem_of_mem_erase hm),
        fun hm => h3 (List.mem_of_mem_erase hm), fun j hm => h4 j (List.mem_of_mem_erase hm), hrest⟩
    unborn := fun hi hc => by
      by_cases heq : r = .constructor
      · rcases hctor heq with ⟨-, hblock⟩ | hender
        · exact hblock
        · exact (hender (h.initializing hi).2.2.2.2.2.2.2).elim
      · exact h.unborn hi fun hm => hc ((List.mem_erase_of_ne (Ne.symm heq)).mpr hm)
    constructor := fun hm hi he => by
      by_cases heq : r = .constructor
      · rcases hctor heq with ⟨hinit, -⟩ | hender
        · exact absurd (hi.symm.trans hinit) Bool.false_ne_true
        · exact (hender he).elim
      · exact (List.mem_erase_of_ne (Ne.symm heq)).mpr (h.constructor hm hi he)
    strict := fun hs => { h.strict hs with
      sending := fun hmem => (h.strict hs).sending (List.mem_of_mem_erase hmem) } }

/-- A reference is put that is not the last one. -/
theorem drop (hr : r ∈ a.held) (hsendq : r ≠ .sendq)
    (hctor : r = .constructor → a.initializing = true ∧ a.blocking = false ∨ a.ender ≠ none)
    (hmore : a.refCnt ≠ 1) : (a.drop r).Ok strict made inTree linked expiring awaited := by
  have hpos := h.pos_of_mem hr
  have hdest : a.destroyer = none ↔ 1 < a.refCnt := iff_of_true (h.destroyer_of_pos hpos) (by omega)
  exact h.dropWith hr hsendq hctor (h.inTree.trans (by omega)) hdest

/-- The last reference is put. -/
theorem dropLast {inTree' : Prop} (hr : r ∈ a.held) (hsendq : r ≠ .sendq)
    (hctor : r = .constructor → a.initializing = true ∧ a.blocking = false ∨ a.ender ≠ none)
    (hlast : a.refCnt = 1) (hin : ¬inTree') :
    ((a.drop r).setDestroyer i).Ok strict made inTree' linked expiring awaited :=
  h.dropWith hr hsendq hctor (iff_of_false hin (by omega)) (iff_of_false (fun h => by cases h) (by omega))

/-- A reference becomes one of another kind. -/
theorem rename {r' : Ref} (hr : r ∈ a.held) (hr' : r' ∉ a.held)
    (hsendq : r ≠ .sendq ∧ r' ≠ .sendq) (hctor : r ≠ .constructor) (hsending : r' ≠ .sending)
    (hinit : a.initializing = false) :
    (a.rename r r').Ok strict made inTree linked expiring awaited :=
  { h with
    fresh := fun hn => (hn (h.made_of_mem hr)).elim
    nodup := List.nodup_cons.mpr ⟨fun hm => hr' (List.mem_of_mem_erase hm), h.nodup.erase r⟩
    refCnt := by
      have hlen := List.length_pos_of_mem hr
      have := h.refCnt
      simp only [SubApp.rename, List.length_cons, List.length_erase_of_mem hr]
      omega
    sendqRef := by
      simp only [SubApp.rename, List.mem_cons, Ne.symm hsendq.2, false_or, List.mem_erase_of_ne (Ne.symm hsendq.1)]
      exact h.sendqRef
    initializing := fun hi => absurd (hinit.symm.trans hi) Bool.false_ne_true
    unborn := fun hi => absurd (hinit.symm.trans hi) Bool.false_ne_true
    constructor := fun hm hi he => List.mem_cons_of_mem _
      ((List.mem_erase_of_ne (Ne.symm hctor)).mpr (h.constructor hm hi he))
    strict := fun hs => { h.strict hs with
      sending := fun hmem => (h.strict hs).sending (List.mem_of_mem_erase
        ((List.mem_cons.mp hmem).resolve_left (Ne.symm hsending))) } }

/-- A request is linked on the send queue. -/
theorem enqueue (hpos : 0 < a.refCnt) (hinit : a.initializing = false) (hsendq : a.sendq = false)
    (hexp : ¬expiring) (hsending : strict → .sending ∉ a.held) {linked' : Prop} (hl : linked') :
    a.setQueued.Ok strict made inTree linked' expiring awaited := by
  have hr : .sendq ∉ a.held := by
    rw [h.sendqRef, hsendq]
    exact Bool.false_ne_true
  exact { h with
    fresh := fun hn => (hn (h.made_of_pos hpos)).elim
    nodup := List.nodup_cons.mpr ⟨hr, h.nodup⟩
    refCnt := by
      have := h.refCnt
      simp only [SubApp.setQueued, SubApp.get, List.length_cons]
      omega
    inTree := by
      have := h.inTree
      simp only [SubApp.setQueued, SubApp.get]
      constructor
      · omega
      · exact fun _ => this.mpr hpos
    destroyer := by
      have := h.destroyer_of_pos hpos
      simp only [SubApp.setQueued, SubApp.get, this, true_iff]
      omega
    linked := iff_of_true hl rfl
    sendqRef := iff_of_true (List.mem_cons_self ..) rfl
    expiring := fun he => (hexp he).elim
    initializing := fun hi => absurd (hinit.symm.trans hi) Bool.false_ne_true
    unborn := fun hi => absurd (hinit.symm.trans hi) Bool.false_ne_true
    constructor := fun hm hi he => List.mem_cons_of_mem _ (h.constructor hm hi he)
    strict := fun hs => { h.strict hs with
      sending := fun hmem => (hsending hs ((List.mem_cons.mp hmem).resolve_left (fun h => by cases h))).elim } }

/-- A request is taken off the send queue. -/
theorem dequeue (stale : Bool) (hsendq : a.sendq = true) (hsending : .sending ∉ a.held)
    {linked' : Prop} (hl : ¬linked') :
    (a.setDequeued stale).Ok strict made inTree linked' expiring awaited := by
  have hr : .sendq ∈ a.held := h.sendqRef.mpr hsendq
  have hinit : a.initializing = false := by
    by_contra hn
    exact (h.initializing (Bool.not_eq_false _ ▸ hn)).1 hr
  exact { h with
    fresh := fun hn => (hn (h.made_of_mem hr)).elim
    nodup := List.nodup_cons.mpr ⟨fun hm => hsending (List.mem_of_mem_erase hm), h.nodup.erase _⟩
    refCnt := by
      have hlen := List.length_pos_of_mem hr
      have := h.refCnt
      simp only [SubApp.setDequeued, SubApp.rename, List.length_cons, List.length_erase_of_mem hr]
      omega
    linked := iff_of_false hl Bool.false_ne_true
    sendqRef := iff_of_false (fun hm => h.nodup.not_mem_erase
      ((List.mem_cons.mp hm).resolve_left (fun h => by cases h))) Bool.false_ne_true
    expiring := fun he => ⟨h.made_of_mem hr, hinit, rfl⟩
    initializing := fun hi => absurd (hinit.symm.trans hi) Bool.false_ne_true
    unborn := fun hi => absurd (hinit.symm.trans hi) Bool.false_ne_true
    constructor := fun hm hi he => List.mem_cons_of_mem _
      ((List.mem_erase_of_ne (by decide)).mpr (h.constructor hm hi he))
    strict := fun hs => { h.strict hs with sending := fun _ => rfl } }

/-- A reference that nobody will put. -/
theorem leak (hstrict : ¬strict) (hr : r ∈ a.held) (hsendq : r ≠ .sendq) (hctor : r ≠ .constructor)
    (hinit : a.initializing = false) :
    (a.leak r).Ok strict made inTree linked expiring awaited :=
  { h with
    fresh := fun hn => (hn (h.made_of_mem hr)).elim
    nodup := h.nodup.erase r
    refCnt := by
      have hlen := List.length_pos_of_mem hr
      have := h.refCnt
      simp only [SubApp.leak, List.length_erase_of_mem hr]
      omega
    sendqRef := by
      simp only [SubApp.leak, List.mem_erase_of_ne (Ne.symm hsendq)]
      exact h.sendqRef
    initializing := fun hi => absurd (hinit.symm.trans hi) Bool.false_ne_true
    unborn := fun hi => absurd (hinit.symm.trans hi) Bool.false_ne_true
    constructor := fun hm hi he =>
      (List.mem_erase_of_ne (Ne.symm hctor)).mpr (h.constructor hm hi he)
    strict := fun hs => (hstrict hs).elim }

/-- The last reference was put. -/
theorem destruct (hdest : a.destroyer ≠ none) (hcb : a.cbExec = false) :
    a.setDestructed.Ok strict made inTree linked expiring awaited :=
  { h with
    fresh := fun hn => (hdest (by rw [h.fresh hn])).elim
    cbExec := fun _ => hdest
    callbacks := by
      have := h.callbacks
      rw [hcb] at this
      simpa [SubApp.setDestructed] using this
    wakeups := by
      have := h.wakeups
      rw [hcb] at this
      simpa [SubApp.setDestructed] using this
    awaited := fun _ _ _ hc => absurd hc.symm Bool.false_ne_true
    strict := fun hs => { h.strict hs with } }

end SubApp.Ok

end Refs

/-! ## Flags -/

section Flags

variable {strict made inTree linked expiring awaited : Prop} {a : SubApp} {i : Thread}

namespace SubApp.Ok

variable (h : a.Ok strict made inTree linked expiring awaited)

include h

/-- The one that is to end the request, or the sender. -/
theorem markDone (error : Int) (hpos : 0 < a.refCnt) (hready : a.ready = false)
    (hcompleting : a.completing = !a.cancel)
    (hrole : a.ender = some i ∧ a.enderDone = false ∨ ¬strict) :
    (a.setDone i error).Ok strict made inTree linked expiring awaited :=
  { h with
    fresh := fun hn => (hn (h.made_of_pos hpos)).elim
    initializing := fun hi => by
      obtain ⟨-, -, -, -, hcancel, hcomp, -⟩ := h.initializing hi
      rw [hcancel, hcomp] at hcompleting
      cases hcompleting
    ender := fun j hj => by
      rcases h.ender j hj with htimer | ⟨hreply, hflags⟩
      · exact .inl htimer
      · refine .inr ⟨hreply, .inr ?_⟩
        rcases hflags with hc | hc
        · exact hcompleting.symm.trans hc
        · exact absurd (hready.symm.trans hc) Bool.false_ne_true
    enderDone := fun hnone => by
      have hdone := h.enderDone hnone
      have hnone' : a.ender = none := hnone
      simp [SubApp.setDone, hdone, hnone']
    strict := fun hs => by
      obtain ⟨hender, hdone⟩ := hrole.resolve_right (not_not.mpr hs)
      have hold := h.strict hs
      exact { hold with
        canceled := fun ht => by
          rcases h.ender _ ht with ⟨-, hcancel⟩ | ⟨⟨k, hk⟩, -⟩
          · exact ⟨rfl, by simp [SubApp.setDone, hcancel]⟩
          · cases hk
        replied := fun k hk => by
          have hcancel : a.cancel = false := by
            by_contra hn
            have htimer := hold.cancel (Bool.not_eq_false _ ▸ hn)
            rw [show a.ender = some (.reply k) from hk] at htimer
            cases htimer
          simp [SubApp.setDone, hender, hcancel]
        pending := fun hnone => absurd (hender.symm.trans hnone) (fun h => by cases h)
        dones := by
          have := hold.dones
          simp [SubApp.setDone, this, hdone, hender] } }

/-- The timer is to end the request. -/
theorem markCancel (hpos : 0 < a.refCnt) (hcompleting : a.completing = false)
    (hready : a.ready = false) (hinit : a.initializing = false) :
    (a.setCancel .timer).Ok strict made inTree linked expiring awaited :=
  { h with
    fresh := fun hn => (hn (h.made_of_pos hpos)).elim
    initializing := fun hi => absurd (hinit.symm.trans hi) Bool.false_ne_true
    constructor := fun _ _ he => by cases he
    ender := fun _ hj => .inl ⟨(Option.some.inj hj).symm, rfl⟩
    enderDone := fun he => by cases he
    strict := fun hs => { h.strict hs with
      cancel := fun _ => rfl
      canceled := fun _ => ⟨hcompleting, hready⟩
      replied := fun _ hk => by cases hk
      pending := fun he => by cases he } }

theorem ender_eq_none (hcompleting : a.completing = false) (hready : a.ready = false)
    (hne : a.ender ≠ some .timer) : a.ender = none := by
  cases he : a.ender with
  | none => rfl
  | some j =>
    rcases h.ender j he with ⟨rfl, -⟩ | ⟨-, hc | hr⟩
    · exact (hne he).elim
    · exact absurd (hcompleting.symm.trans hc) Bool.false_ne_true
    · exact absurd (hready.symm.trans hr) Bool.false_ne_true

/-- A reply is to end the request. -/
theorem markCompleting (k : Nat) (hpos : 0 < a.refCnt) (hready : a.ready = false)
    (hcancel : a.cancel = false) (hinit : a.initializing = false) (hnone : a.ender = none) :
    (a.setCompleting (.reply k)).Ok strict made inTree linked expiring awaited :=
  { h with
    fresh := fun hn => (hn (h.made_of_pos hpos)).elim
    initializing := fun hi => absurd (hinit.symm.trans hi) Bool.false_ne_true
    constructor := fun _ _ he => by cases he
    ender := fun j hj => .inr ⟨⟨k, (Option.some.inj hj).symm⟩, .inl rfl⟩
    enderDone := fun he => by cases he
    strict := fun hs => { h.strict hs with
      cancel := fun hc => absurd (hcancel.symm.trans hc) Bool.false_ne_true
      canceled := fun he => by cases he
      replied := fun _ _ => by simp [SubApp.setCompleting, h.enderDone hnone, hready]
      pending := fun he => by cases he } }

theorem markSendFailed (hstrict : ¬strict) (hpos : 0 < a.refCnt) (hinit : a.initializing = false) :
    a.setSendFailed.Ok strict made inTree linked expiring awaited :=
  { h with
    fresh := fun hn => (hn (h.made_of_pos hpos)).elim
    initializing := fun hi => absurd (hinit.symm.trans hi) Bool.false_ne_true
    ender := fun j hj => (h.ender j hj).imp_left fun ht => ⟨ht.1, rfl⟩
    strict := fun hs => (hstrict hs).elim }

theorem handleInit (msgId : Nat) (req : Request) (hctor : .constructor ∈ a.held)
    (hinit : a.initializing = true) :
    (a.setInit msgId req).Ok strict made inTree linked expiring awaited := by
  have hcb := h.cbExec_of_pos (h.pos_of_mem hctor)
  exact { h with
    fresh := fun hn => (hn (h.made_of_mem hctor)).elim
    callbacks := by
      have := h.callbacks
      simpa [SubApp.setInit, hcb] using this
    wakeups := by
      have := h.wakeups
      simpa [SubApp.setInit, hcb] using this
    unborn := fun _ hc => (hc hctor).elim
    awaited := fun _ _ hi => absurd (hi.symm.trans hinit) Bool.false_ne_true
    strict := fun hs => { h.strict hs with } }

/-- The request is made known. -/
theorem initialized {awaited' : Prop} (hctor : .constructor ∈ a.held) (hinit : a.initializing = true)
    (hwait : a.blocking = true → awaited') :
    a.setInitialized.Ok strict made inTree linked expiring awaited' :=
  { h with
    fresh := fun hn => (hn (h.made_of_mem hctor)).elim
    expiring := fun he => absurd ((h.expiring he).2.1.symm.trans hinit) Bool.false_ne_true
    initializing := fun hi => by cases hi
    unborn := fun hi => by cases hi
    constructor := fun _ _ _ => hctor
    awaited := fun _ hb _ _ => hwait hb
    strict := fun hs => { h.strict hs with } }

theorem delay (b : Bool) (hpos : 0 < a.refCnt) :
    (a.setDelay b).Ok strict made inTree linked expiring awaited :=
  { h with
    fresh := fun hn => (hn (h.made_of_pos hpos)).elim
    strict := fun hs => { h.strict hs with } }

theorem sent (hpos : 0 < a.refCnt) :
    a.setSent.Ok strict made inTree linked expiring awaited :=
  { h with
    fresh := fun hn => (hn (h.made_of_pos hpos)).elim
    strict := fun hs => { h.strict hs with } }

end SubApp.Ok

/-- A new request. -/
theorem ok_subAppConstruct (i : Thread) (rncui : Nat) (hmade : made) (hin : inTree)
    (hlinked : ¬linked) (hexp : ¬expiring) :
    (subAppConstruct i rncui).Ok strict made inTree linked expiring awaited where
  fresh hn := (hn hmade).elim
  nodup := List.nodup_singleton _
  refCnt := rfl
  inTree := iff_of_true hin Nat.one_pos
  destroyer := iff_of_true rfl fun _ => Nat.one_pos
  cbExec hc := by cases hc
  callbacks := rfl
  wakeups := rfl
  linked := iff_of_false hlinked Bool.false_ne_true
  sendqRef := iff_of_false (by simp [subAppConstruct]) Bool.false_ne_true
  expiring he := (hexp he).elim
  initializing _ := by simp [subAppConstruct]
  unborn _ hc := (hc (List.mem_singleton_self _)).elim
  constructor _ hi := by cases hi
  ender _ hj := by cases hj
  enderDone _ := rfl
  awaited _ hb := by cases hb
  strict _ := {
    leaked := rfl
    sending := fun _ => rfl
    cancel := fun hc => by cases hc
    canceled := fun he => by cases he
    replied := fun _ he => by cases he
    pending := fun _ => ⟨rfl, rfl⟩
    dones := rfl }

end Flags

/-! ## Steps on one request -/

section Steps

variable {strict : Prop} {s s' : Rci} {sa : Nat} {a : SubApp} {i : Thread}

@[simp] theorem Rci.sub_set (s : Rci) (sa : Nat) (a : SubApp) : (s.set sa a).sub sa = a :=
  Function.update_self ..

@[simp] theorem Rci.tree_set (s : Rci) (sa : Nat) (a : SubApp) : (s.set sa a).tree = s.tree := rfl

@[simp] theorem Rci.sendq_set (s : Rci) (sa : Nat) (a : SubApp) : (s.set sa a).sendq = s.sendq := rfl

@[simp] theorem Rci.set_set (s : Rci) (sa : Nat) (a b : SubApp) : (s.set sa a).set sa b = s.set sa b := by
  simp [Rci.set]

/-- One request changes or is made, and its place in the tree and in the send queue may change. -/
structure Rci.Sets (s : Rci) (sa : Nat) (a : SubApp) (s' : Rci) : Prop where
  sub : s'.sub = Function.update s.sub sa a
  made : ∀ x, x ≠ sa → (x < s'.next ↔ x < s.next)
  expiredq : s'.expiredq = s.expiredq
  waiting : s'.waiting = s.waiting
  /-- Only the thread that waits for the request may be notified. -/
  notifier : ∀ k, s.waiting k ≠ some sa → s'.notifier k = s.notifier k
  useAfterFree : s'.useAfterFree = s.useAfterFree
  launchedFlagged : s'.launchedFlagged = false
  tree : s'.tree.Nodup
  mem_tree : ∀ x, x ≠ sa → (x ∈ s'.tree ↔ x ∈ s.tree)
  sendq : s'.sendq.Nodup
  mem_sendq : ∀ x, x ≠ sa → (x ∈ s'.sendq ↔ x ∈ s.sendq)

/-- Nothing but the request changes. -/
theorem Rci.Inv.sets_set (h : s.Inv strict) : s.Sets sa a (s.set sa a) where
  sub := rfl
  made _ _ := .rfl
  expiredq := rfl
  waiting := rfl
  notifier _ _ := rfl
  useAfterFree := rfl
  launchedFlagged := h.launchedFlagged
  tree := h.tree
  mem_tree _ _ := .rfl
  sendq := h.sendq
  mem_sendq _ _ := .rfl

theorem Rci.Sets.awaited (hset : s.Sets sa a s') {x : Nat} (hx : x ≠ sa) :
    s'.Awaited x ↔ s.Awaited x := by
  have hsub : s'.sub x = s.sub x := by rw [hset.sub, Function.update_of_ne hx]
  simp only [Rci.Awaited, hsub, hset.waiting]
  refine exists_congr fun k => and_congr_right fun _ => and_congr_right fun hwait => ?_
  rw [hset.notifier k fun heq => hx (Option.some.inj (hwait.symm.trans heq))]

theorem Rci.awaited_congr (howner : (s'.sub sa).owner = (s.sub sa).owner)
    (hwaiting : s'.waiting = s.waiting) (hnotifier : s'.notifier = s.notifier) :
    s'.Awaited sa ↔ s.Awaited sa := by
  simp only [Rci.Awaited, howner, hwaiting, hnotifier]

theorem Rci.Sets.awaited_self (hset : s.Sets sa a s') (howner : a.owner = (s.sub sa).owner)
    (hnotifier : s'.notifier = s.notifier) : s'.Awaited sa ↔ s.Awaited sa := by
  refine Rci.awaited_congr ?_ hset.waiting hnotifier
  rw [hset.sub, Function.update_self, howner]

/-- What a step on one request does to the parts of the threads. -/
theorem Rci.Sets.part (hset : s.Sets sa a s') (j : Thread) :
    s'.part j = (s.part j).set sa (a.view j) := by
  simp only [Rci.part, Part.set, hset.sub, hset.expiredq, hset.waiting, Part.mk.injEq, and_true]
  funext x
  by_cases hx : x = sa
  · rw [hx, Function.update_self, Function.update_self]
  · rw [Function.update_of_ne hx, Function.update_of_ne hx]

/-- A thread changes a request that is as it should be, and nobody else's part of it. -/
theorem Rci.Inv.moved (h : s.Inv strict) (hset : s.Sets sa a s')
    (hok : a.Ok strict (sa < s'.next) (sa ∈ s'.tree) (sa ∈ s'.sendq) (sa ∈ s.expiredq)
      (s'.Awaited sa))
    (hview : ∀ j, j ≠ i → a.view j = (s.sub sa).view j) :
    Discipline.Moved (Rci.Inv strict) Rci.part i s (· = (s.part i).set sa (a.view i)) s' where
  inv := {
    ok := fun x => by
      rw [Rci.OkAt, hset.expiredq]
      by_cases hx : x = sa
      · subst hx
        have hself : s'.sub x = a := by rw [hset.sub, Function.update_self]
        rw [hself]
        exact hok
      · have hother : s'.sub x = s.sub x := by rw [hset.sub, Function.update_of_ne hx]
        rw [propext (hset.awaited hx), hother, propext (hset.made x hx),
          propext (hset.mem_tree x hx), propext (hset.mem_sendq x hx)]
        exact h.ok x
    tree := hset.tree
    sendq := hset.sendq
    expiredq := hset.expiredq ▸ h.expiredq
    useAfterFree := hset.useAfterFree.trans h.useAfterFree
    launchedFlagged := hset.launchedFlagged }
  others j hj := by
    rw [hset.part, hview j hj]
    exact Part.set_self ..
  own := hset.part i

/-- The same, where nothing else changes. -/
theorem Rci.Inv.moved_set (h : s.Inv strict)
    (hok : a.Ok strict (sa < s.next) (sa ∈ s.tree) (sa ∈ s.sendq) (sa ∈ s.expiredq) (s.Awaited sa))
    (howner : a.owner = (s.sub sa).owner) (hview : ∀ j, j ≠ i → a.view j = (s.sub sa).view j) :
    Discipline.Moved (Rci.Inv strict) Rci.part i s (· = (s.part i).set sa (a.view i)) (s.set sa a) := by
  have howner' : ((s.set sa a).sub sa).owner = (s.sub sa).owner := by
    rw [Rci.sub_set, howner]
  refine h.moved h.sets_set ?_ hview
  rw [propext (Rci.awaited_congr howner' rfl rfl)]
  exact hok

end Steps

end RaftClient

end NiovaRaft
