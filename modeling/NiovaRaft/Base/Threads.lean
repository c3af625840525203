import NiovaRaft.Base.Handler
import Mathlib.Logic.Function.Basic
import Mathlib.Tactic.Choose

/-!
# Threads

A thread runs a program of critical sections.  Each section is a handler that runs as a whole, once
its guard holds; between two sections anything may happen that the other threads do.  A section is
named by a label.

`Discipline` says what the threads of a system may rely on, and what they guarantee each other.
Where every program keeps to it, so does every interleaving: the invariant holds at every point,
and the process dies in no section but those that are allowed to.  The rules of `Meets` follow the
program, with an assertion between any two sections that the other threads cannot invalidate.
-/

namespace Base

/-! ## Programs -/

/-- A program of critical sections. -/
inductive Prog (L σ α : Type) : Type 1 where
  | ret (a : α)
  | sec {β : Type} (label : L) (guard : σ → Bool) (m : Handler σ β) (k : β → Prog L σ α)

namespace Prog

variable {L σ α β γ : Type}

/-- Run `p`, then `f` on its result. -/
def andThen : Prog L σ α → (α → Prog L σ β) → Prog L σ β
  | .ret a, f => f a
  | .sec label guard m k, f => .sec label guard m fun b => (k b).andThen f

instance : Monad (Prog L σ) where
  pure := .ret
  bind := andThen

/-- One section that waits for nothing. -/
def critical (label : L) (m : Handler σ α) : Prog L σ α := .sec label (fun _ => true) m .ret

/-- One section that waits until its guard holds. -/
def await (label : L) (guard : σ → Bool) (m : Handler σ α) : Prog L σ α := .sec label guard m .ret

/-- Run `p` only when `c` holds. -/
def whenever (c : Prop) [Decidable c] (p : Prog L σ Unit) : Prog L σ Unit :=
  if c then p else pure ()

/-- The section that a program is at. -/
def next : Prog L σ α → Option L
  | .ret _ => none
  | .sec label _ _ _ => some label

/-- The program run by itself.  It dies where it would wait for good. -/
def alone : Prog L σ α → Handler σ α
  | .ret a => pure a
  | .sec _ guard m k => fun s => if guard s = true then (m >>= fun b => (k b).alone) s else .abort s

section Alone

open Handler

variable {p : Prog L σ α} {Q : α → σ → Prop} {D : σ → Prop} {s : σ}

theorem wp_alone_sec {label : L} {guard : σ → Bool} {m : Handler σ β} {k : β → Prog L σ α} :
    (Prog.sec label guard m k).alone.wp Q D s ↔
      (guard s = true → m.wp (fun b s' => (k b).alone.wp Q D s') D s) ∧ (¬guard s = true → D s) := by
  rw [← wp_bind]
  simp only [alone, wp]
  by_cases hguard : guard s = true <;> simp [hguard]

@[simp] theorem wp_alone_pure {a : α} : (pure a : Prog L σ α).alone.wp Q D s ↔ Q a s := Iff.rfl

@[simp] theorem wp_alone_critical {label : L} {m : Handler σ α} :
    (Prog.critical label m).alone.wp Q D s ↔ m.wp Q D s := by
  simp [critical, alone]

@[simp] theorem wp_alone_bind {f : α → Prog L σ β} {Q : β → σ → Prop} :
    (p >>= f).alone.wp Q D s ↔ p.alone.wp (fun a s' => (f a).alone.wp Q D s') D s := by
  induction p generalizing s with
  | ret a => exact Iff.rfl
  | sec label guard m k ih =>
    have hbind : Prog.sec label guard m k >>= f = .sec label guard m fun b => k b >>= f := rfl
    rw [hbind, wp_alone_sec, wp_alone_sec]
    simp only [ih]

@[simp] theorem wp_alone_whenever {c : Prop} [Decidable c] {p : Prog L σ Unit} {Q : Unit → σ → Prop} :
    (Prog.whenever c p).alone.wp Q D s ↔ (c → p.alone.wp Q D s) ∧ (¬c → Q () s) := by
  unfold whenever
  by_cases hc : c <;> simp [hc]

end Alone

end Prog

/-! ## Systems of threads -/

/-- What the threads share, where each of them is, and the section the process died in. -/
structure Threads (ι L σ : Type) where
  shared : σ
  progs : ι → Prog L σ Unit
  died : Option L

/-- A thread begins a program, or runs its next section. -/
inductive ThreadEvent (ι Op : Type) where
  | begin (i : ι) (op : Op)
  | run (i : ι)

/-- The thread that an event is about. -/
def ThreadEvent.thread {ι Op : Type} : ThreadEvent ι Op → ι
  | .begin i _ => i
  | .run i => i

namespace Threads

variable {ι Op L σ : Type} [DecidableEq ι]

/-- All threads are idle. -/
def start (s : σ) : Threads ι L σ := ⟨s, fun _ => .ret (), none⟩

/-- One event.  A thread that is not idle begins nothing, and one that must wait does not run. -/
def step (program : ι → Op → Prog L σ Unit) (c : Threads ι L σ) :
    ThreadEvent ι Op → Threads ι L σ
  | .begin i op =>
      match c.died, c.progs i with
      | none, .ret _ => { c with progs := Function.update c.progs i (program i op) }
      | _, _ => c
  | .run i =>
      match c.died, c.progs i with
      | none, .sec label guard m k =>
          if guard c.shared = true then
            match m c.shared with
            | .ok b s => { c with shared := s, progs := Function.update c.progs i (k b) }
            | .abort s => { c with shared := s, died := some label }
          else c
      | _, _ => c

/-- The systems that runs reach whose every event satisfies `ok` where it takes place. -/
inductive Reach (program : ι → Op → Prog L σ Unit) (ok : Threads ι L σ → ThreadEvent ι Op → Prop)
    (s : σ) : Threads ι L σ → Prop
  | start : Reach program ok s (start s)
  | step {c : Threads ι L σ} (e : ThreadEvent ι Op) : Reach program ok s c → ok c e →
      Reach program ok s (c.step program e)

/-- One event after the other. -/
def runs (program : ι → Op → Prog L σ Unit) (c : Threads ι L σ) :
    List (ThreadEvent ι Op) → Threads ι L σ
  | [] => c
  | e :: es => runs program (c.step program e) es

/-- Every one of the events satisfies `ok` where it takes place. -/
def AllOk (program : ι → Op → Prog L σ Unit) (ok : Threads ι L σ → ThreadEvent ι Op → Prop)
    (c : Threads ι L σ) : List (ThreadEvent ι Op) → Prop
  | [] => True
  | e :: es => ok c e ∧ AllOk program ok (c.step program e) es

/-- Whether every one of the events satisfies `ok` can be computed. -/
instance AllOk.decidable (program : ι → Op → Prog L σ Unit)
    (ok : Threads ι L σ → ThreadEvent ι Op → Prop) [∀ c e, Decidable (ok c e)] :
    ∀ (es : List (ThreadEvent ι Op)) (c : Threads ι L σ), Decidable (AllOk program ok c es)
  | [], _ => .isTrue trivial
  | e :: es, c =>
      have := AllOk.decidable program ok es (c.step program e)
      inferInstanceAs (Decidable (ok c e ∧ AllOk program ok (c.step program e) es))

theorem AllOk.of_forall {program : ι → Op → Prog L σ Unit}
    {ok : Threads ι L σ → ThreadEvent ι Op → Prop} (h : ∀ c e, ok c e)
    (es : List (ThreadEvent ι Op)) (c : Threads ι L σ) : AllOk program ok c es := by
  induction es generalizing c with
  | nil => trivial
  | cons e es ih => exact ⟨h c e, ih _⟩

theorem Reach.runs {program : ι → Op → Prog L σ Unit}
    {ok : Threads ι L σ → ThreadEvent ι Op → Prop} {s : σ} {c : Threads ι L σ}
    {es : List (ThreadEvent ι Op)} (h : Reach program ok s c) (hok : AllOk program ok c es) :
    Reach program ok s (c.runs program es) := by
  induction es generalizing c with
  | nil => exact h
  | cons e es ih => exact ih (h.step e hok.1) hok.2

theorem progs_step (program : ι → Op → Prog L σ Unit) (c : Threads ι L σ) {e : ThreadEvent ι Op} {i : ι}
    (h : e.thread ≠ i) : (c.step program e).progs i = c.progs i := by
  have hne := Ne.symm h
  cases e with
  | begin j op =>
    simp only [step]
    split
    · exact Function.update_of_ne hne _ _
    · rfl
  | run j =>
    simp only [step]
    split
    · split
      · split
        · exact Function.update_of_ne hne _ _
        · rfl
      · rfl
    · rfl

/-- A thread without events is where it was. -/
theorem progs_runs (program : ι → Op → Prog L σ Unit) (c : Threads ι L σ)
    {es : List (ThreadEvent ι Op)} {i : ι} (h : ∀ e ∈ es, e.thread ≠ i) :
    (c.runs program es).progs i = c.progs i := by
  induction es generalizing c with
  | nil => rfl
  | cons e es ih =>
    rw [runs, ih _ fun x hx => h x (List.mem_cons_of_mem _ hx)]
    exact progs_step program c (h e List.mem_cons_self)

end Threads

/-! ## Calls

A thread forgets the result of its program.  What is left of a call that it has begun, result and
all, is followed through a run besides. -/

/-- What is left of a program after its next section, where that may run. -/
def Prog.resume {L σ α : Type} (s : σ) : Prog L σ α → Prog L σ α
  | .ret a => .ret a
  | .sec label guard m k =>
      if guard s = true then
        match m s with
        | .ok b _ => k b
        | .abort _ => .sec label guard m k
      else .sec label guard m k

/-- Whatever happens, the program ends with a result as `Q` says, if it ends. -/
def Prog.Ends {L σ α : Type} (Q : α → Prop) : Prog L σ α → Prop
  | .ret a => Q a
  | .sec _ _ _ k => ∀ b, (k b).Ends Q

namespace Prog

variable {L σ α β : Type} {Q : β → Prop}

theorem Ends.bind {p : Prog L σ α} {f : α → Prog L σ β} (h : ∀ a, (f a).Ends Q) :
    (p >>= f).Ends Q := by
  induction p with
  | ret a => exact h a
  | sec label guard m k ih => exact ih

theorem Ends.resume {p : Prog L σ β} (h : p.Ends Q) (s : σ) : (p.resume s).Ends Q := by
  cases p with
  | ret a => exact h
  | sec label guard m k =>
    simp only [Prog.resume]
    split
    · cases m s with
      | ok b s' => exact h b
      | abort s' => exact h
    · exact h

end Prog

namespace Threads

variable {ι Op L σ α : Type} [DecidableEq ι]

/-- What is left of a call of thread `i` after an event. -/
def leftStep (i : ι) (c : Threads ι L σ) (p : Prog L σ α) : ThreadEvent ι Op → Prog L σ α
  | .begin _ _ => p
  | .run j =>
      match c.died with
      | none => if j = i then p.resume c.shared else p
      | some _ => p

/-- What is left of a call of thread `i` after these events. -/
def left (program : ι → Op → Prog L σ Unit) (i : ι) (c : Threads ι L σ) (p : Prog L σ α) :
    List (ThreadEvent ι Op) → Prog L σ α
  | [] => p
  | e :: es => left program i (c.step program e) (c.leftStep i p e) es

variable {program : ι → Op → Prog L σ Unit} {i : ι} {c : Threads ι L σ} {p : Prog L σ α}

/-- The thread is where its call is. -/
theorem progs_step_left (h : c.progs i = p >>= fun _ => pure ()) (hnext : p.next ≠ none)
    (e : ThreadEvent ι Op) :
    (c.step program e).progs i = c.leftStep i p e >>= fun _ => pure () := by
  cases p with
  | ret a => exact absurd rfl hnext
  | sec label guard m k =>
    have hprog : c.progs i = .sec label guard m fun b => k b >>= fun _ => pure () := h
    by_cases hthread : e.thread = i
    · subst hthread
      cases e with
      | begin j op =>
        have hstays : c.step program (.begin j op) = c := by
          simp only [ThreadEvent.thread] at hprog
          simp only [step, hprog]
          split
          · rename_i hret
            cases hret
          · rfl
        rw [hstays]
        exact h
      | run j =>
        simp only [ThreadEvent.thread] at hprog h ⊢
        simp only [step, hprog, leftStep, if_pos]
        cases c.died with
        | some l => exact h
        | none =>
          simp only [Prog.resume]
          split
          · cases m c.shared with
            | ok b s => exact Function.update_self j _ _
            | abort s => exact h
          · exact h
    · rw [progs_step program c hthread, h]
      cases e with
      | begin j op => rfl
      | run j =>
        simp only [ThreadEvent.thread] at hthread
        simp only [leftStep, if_neg hthread]
        cases c.died with
        | none => rfl
        | some l => rfl

/-- The thread is where its call is, until that has returned. -/
theorem progs_runs_left {es : List (ThreadEvent ι Op)} (h : c.progs i = p >>= fun _ => pure ())
    (hin : ∀ es₁ e es₂, es = es₁ ++ e :: es₂ → (left program i c p es₁).next ≠ none) :
    (c.runs program es).progs i = left program i c p es >>= fun _ => pure () := by
  induction es generalizing c p with
  | nil => exact h
  | cons e es ih =>
    refine ih (progs_step_left h (hin [] e es rfl) e) fun es₁ e' es₂ heq => ?_
    exact hin (e :: es₁) e' es₂ (congrArg (e :: ·) heq)

/-- A call that has returned has returned. -/
theorem left_ret (a : α) (es : List (ThreadEvent ι Op)) :
    left program i c (.ret a) es = .ret a := by
  induction es generalizing c with
  | nil => rfl
  | cons e es ih =>
    have hstep : c.leftStep i (.ret a : Prog L σ α) e = .ret a := by
      cases e with
      | begin j op => rfl
      | run j =>
        simp only [leftStep, Prog.resume, ite_self]
        cases c.died with
        | none => rfl
        | some l => rfl
    rw [left, hstep]
    exact ih

theorem ends_leftStep {Q : α → Prop} (h : p.Ends Q) (e : ThreadEvent ι Op) :
    (c.leftStep i p e).Ends Q := by
  cases e with
  | begin j op => exact h
  | run j =>
    simp only [leftStep]
    split
    · split
      · exact h.resume c.shared
      · exact h
    · exact h

/-- A call that has returned has a result as its program says. -/
theorem ends_left {Q : α → Prop} (h : p.Ends Q) (es : List (ThreadEvent ι Op)) :
    (left program i c p es).Ends Q := by
  induction es generalizing c p with
  | nil => exact h
  | cons e es ih => exact ih (ends_leftStep h e)

end Threads

/-! ## Disciplines -/

/-- What holds at every point, what each thread relies on and guarantees, what holds while it is
idle and while it is at a section, where its sections are run, and which sections may kill the
process. -/
structure Discipline (ι L σ : Type) where
  inv : σ → Prop
  rely : ι → σ → σ → Prop
  guar : ι → σ → σ → Prop
  idle : ι → σ → Prop
  asserts : ι → L → σ → Prop
  mayRun : ι → L → σ → Prop
  mayDie : L → Prop

namespace Discipline

variable {ι Op L σ α β : Type} {D : Discipline ι L σ} {i : ι}

/-- The other threads cannot invalidate `P`. -/
def Stable (D : Discipline ι L σ) (i : ι) (P : σ → Prop) : Prop :=
  ∀ s s', D.inv s → D.inv s' → D.rely i s s' → P s → P s'

/-- Started by thread `i` where `P` holds, the program keeps to the discipline and ends in `Q`. -/
def Meets (D : Discipline ι L σ) (i : ι) (Q : α → σ → Prop) : Prog L σ α → (σ → Prop) → Prop
  | .ret a, P => D.Stable i P ∧ ∀ s, D.inv s → P s → Q a s
  | .sec (β := β) label guard m k, P => D.Stable i P ∧
      (∀ s, D.inv s → P s → D.asserts i label s) ∧ ∃ P' : β → σ → Prop,
      (∀ s, D.inv s → P s → guard s = true → D.mayRun i label s →
        m.wp (fun b s' => D.inv s' ∧ D.guar i s s' ∧ P' b s')
          (fun d => D.inv d ∧ D.mayDie label) s) ∧
      ∀ b, D.Meets i Q (k b) (P' b)

section Rules

variable {P P' : σ → Prop} {Q Q' : α → σ → Prop} {p : Prog L σ α}

theorem Meets.stable (h : D.Meets i Q p P) : D.Stable i P := by
  cases p with
  | ret a => exact h.1
  | sec label guard m k => exact h.1

/-- A program may be started where more is known. -/
theorem Meets.pre (h : D.Meets i Q p P) (hst : D.Stable i P') (hP : ∀ s, D.inv s → P' s → P s) :
    D.Meets i Q p P' := by
  cases p with
  | ret a => exact ⟨hst, fun s hs hp => h.2 s hs (hP s hs hp)⟩
  | sec label guard m k =>
    obtain ⟨-, hat, R, hm, hk⟩ := h
    exact ⟨hst, fun s hs hp => hat s hs (hP s hs hp), R, fun s hs hp => hm s hs (hP s hs hp), hk⟩

/-- Less may be asked of where it ends. -/
theorem Meets.post (h : D.Meets i Q p P) (hQ : ∀ a s, D.inv s → Q a s → Q' a s) :
    D.Meets i Q' p P := by
  induction p generalizing P with
  | ret a => exact ⟨h.1, fun s hs hp => hQ a s hs (h.2 s hs hp)⟩
  | sec label guard m k ih =>
    obtain ⟨hst, hat, R, hm, hk⟩ := h
    exact ⟨hst, hat, R, hm, fun b => ih b (hk b)⟩

theorem Meets.ret {a : α} (hst : D.Stable i P) (hQ : ∀ s, D.inv s → P s → Q a s) :
    D.Meets i Q (pure a) P :=
  ⟨hst, hQ⟩

theorem Meets.bind {f : α → Prog L σ β} {R : α → σ → Prop} {Q : β → σ → Prop}
    (h : D.Meets i R p P) (hf : ∀ a, D.Meets i Q (f a) (R a)) : D.Meets i Q (p >>= f) P := by
  induction p generalizing P with
  | ret a => exact (hf a).pre h.1 h.2
  | sec label guard m k ih =>
    obtain ⟨hst, hat, P', hm, hk⟩ := h
    exact ⟨hst, hat, P', hm, fun b => ih b (hk b)⟩

/-- What is known before may be one of many things. -/
theorem Meets.exists {κ : Sort*} {P : κ → σ → Prop} (h : ∀ x, D.Meets i Q p (P x)) :
    D.Meets i Q p fun s => ∃ x, P x s := by
  have hst : D.Stable i fun s => ∃ x, P x s := by
    rintro s s' hs hs' hrely ⟨x, hx⟩
    exact ⟨x, (h x).stable s s' hs hs' hrely hx⟩
  induction p generalizing P with
  | ret a =>
    refine ⟨hst, ?_⟩
    rintro s hs ⟨x, hx⟩
    exact (h x).2 s hs hx
  | sec label guard m k ih =>
    choose _ hat P' hm hk using h
    refine ⟨hst, ?_, fun b s => ∃ x, P' x b s, ?_, fun b => ih b (hk · b) ?_⟩
    · rintro s hs ⟨x, hx⟩
      exact hat x s hs hx
    · rintro s hs ⟨x, hx⟩ hguard hrun
      exact Handler.wp_mono (hm x s hs hx hguard hrun)
        (fun b s' hpost => ⟨hpost.1, hpost.2.1, x, hpost.2.2⟩) fun _ hdied => hdied
    · rintro s s' hs hs' hrely ⟨x, hx⟩
      exact ⟨x, (hk x b).stable s s' hs hs' hrely hx⟩

/-- One section that waits for its guard. -/
theorem Meets.await {label : L} {guard : σ → Bool} {m : Handler σ α} (hst : D.Stable i P)
    (hat : ∀ s, D.inv s → P s → D.asserts i label s) (hQ : ∀ a, D.Stable i (Q a))
    (hm : ∀ s, D.inv s → P s → guard s = true → D.mayRun i label s →
      m.wp (fun a s' => D.inv s' ∧ D.guar i s s' ∧ Q a s') (fun d => D.inv d ∧ D.mayDie label) s) :
    D.Meets i Q (.await label guard m) P :=
  ⟨hst, hat, Q, hm, fun a => ⟨hQ a, fun _ _ h => h⟩⟩

theorem Meets.ite {c : Prop} [Decidable c] {q : Prog L σ α} (h : c → D.Meets i Q p P)
    (h' : ¬ c → D.Meets i Q q P) : D.Meets i Q (if c then p else q) P := by
  split
  · exact h ‹_›
  · exact h' ‹_›

theorem Meets.whenever {c : Prop} [Decidable c] {p : Prog L σ Unit} {Q : Unit → σ → Prop}
    (hst : D.Stable i P) (h : c → D.Meets i Q p P) (hQ : ¬ c → ∀ s, D.inv s → P s → Q () s) :
    D.Meets i Q (.whenever c p) P :=
  .ite h fun hc => .ret hst (hQ hc)

end Rules

/-- Every program keeps to the discipline, and the threads rely on no more than the others
guarantee. -/
structure Sound (D : Discipline ι L σ) (program : ι → Op → Prog L σ Unit) : Prop where
  compatible : ∀ i j, i ≠ j → ∀ s s', D.guar i s s' → D.rely j s s'
  idle : ∀ i, D.Stable i (D.idle i)
  meets : ∀ i op, D.Meets i (fun _ => D.idle i) (program i op) (D.idle i)

/-! ## Threads that own parts of the state -/

section Parts

variable {V : Type} {inv : σ → Prop} {part : ι → σ → V} {idle : V → Prop}
  {asserts : L → V → Prop} {mayRun : ι → L → σ → Prop} {mayDie : L → Prop}

/-- Every thread owns a part of the state, which the others leave as it is. -/
def ofParts (inv : σ → Prop) (part : ι → σ → V) (idle : V → Prop) (asserts : L → V → Prop)
    (mayRun : ι → L → σ → Prop) (mayDie : L → Prop) : Discipline ι L σ where
  inv := inv
  rely i s s' := part i s' = part i s
  guar i s s' := ∀ j, j ≠ i → part j s' = part j s
  idle i s := idle (part i s)
  asserts i label s := asserts label (part i s)
  mayRun := mayRun
  mayDie := mayDie

/-- Nobody else can invalidate what a thread knows of its part. -/
theorem stable_part (i : ι) (P : V → Prop) :
    (ofParts inv part idle asserts mayRun mayDie).Stable i fun s => P (part i s) := by
  intro s s' _ _ hrely hP
  have heq : part i s' = part i s := hrely
  rwa [heq]

/-- Thread `i` goes from `s` to `s'`, where its part is as `P` says. -/
structure Moved (inv : σ → Prop) (part : ι → σ → V) (i : ι) (s : σ) (P : V → Prop) (s' : σ) :
    Prop where
  inv : inv s'
  others : ∀ j, j ≠ i → part j s' = part j s
  own : P (part i s')

theorem Moved.mono {s s' : σ} {P Q : V → Prop} (h : Moved inv part i s P s') (hQ : ∀ v, P v → Q v) :
    Moved inv part i s Q s' :=
  ⟨h.inv, h.others, hQ _ h.own⟩

/-- One step after the other. -/
theorem Moved.trans {s s' s'' : σ} {P Q : V → Prop} (h : Moved inv part i s P s')
    (h' : Moved inv part i s' Q s'') : Moved inv part i s Q s'' :=
  ⟨h'.inv, fun j hj => (h'.others j hj).trans (h.others j hj), h'.own⟩

/-- Run by thread `i`, whose part is as `P` says, the program keeps to the discipline and leaves that
part as `Q` says. -/
def Takes (D : Discipline ι L σ) (part : ι → σ → V) (i : ι) (P : V → Prop) (p : Prog L σ α)
    (Q : α → V → Prop) : Prop :=
  D.Meets i (fun a s => Q a (part i s)) p fun s => P (part i s)

variable {P P' : V → Prop} {p : Prog L σ α} {Q Q' : α → V → Prop}

theorem Takes.mono (h : (ofParts inv part idle asserts mayRun mayDie).Takes part i P p Q)
    (hP : ∀ v, P' v → P v) (hQ : ∀ a v, Q a v → Q' a v) :
    (ofParts inv part idle asserts mayRun mayDie).Takes part i P' p Q' :=
  (Meets.pre h (stable_part i P') fun _ _ => hP _).post fun a _ _ => hQ a _

theorem Takes.ret {a : α} (h : ∀ v, P v → Q a v) :
    (ofParts inv part idle asserts mayRun mayDie).Takes part i P (pure a) Q :=
  Meets.ret (stable_part i P) fun _ _ => h _

theorem Takes.bind {f : α → Prog L σ β} {R : β → V → Prop}
    (h : (ofParts inv part idle asserts mayRun mayDie).Takes part i P p Q)
    (hf : ∀ a, (ofParts inv part idle asserts mayRun mayDie).Takes part i (Q a) (f a) R) :
    (ofParts inv part idle asserts mayRun mayDie).Takes part i P (p >>= f) R :=
  Meets.bind h hf

/-- One section that waits for its guard. -/
theorem Takes.await {label : L} {guard : σ → Bool} {m : Handler σ α}
    (hat : ∀ v, P v → asserts label v)
    (h : ∀ s, inv s → P (part i s) → guard s = true → mayRun i label s →
      m.wp (fun a => Moved inv part i s (Q a)) (fun d => inv d ∧ mayDie label) s) :
    (ofParts inv part idle asserts mayRun mayDie).Takes part i P (.await label guard m) Q := by
  refine Meets.await (stable_part i P) (fun _ _ => hat _) (fun a => stable_part i (Q a))
    fun s hs hP hguard hrun => ?_
  exact Handler.wp_mono (h s hs hP hguard hrun) (fun a s' h => ⟨h.inv, h.others, h.own⟩)
    fun _ h => h

theorem Takes.critical {label : L} {m : Handler σ α} (hat : ∀ v, P v → asserts label v)
    (h : ∀ s, inv s → P (part i s) → mayRun i label s →
      m.wp (fun a => Moved inv part i s (Q a)) (fun d => inv d ∧ mayDie label) s) :
    (ofParts inv part idle asserts mayRun mayDie).Takes part i P (.critical label m) Q :=
  .await hat fun s hs hP _ => h s hs hP

theorem Takes.ite {c : Prop} [Decidable c] {q : Prog L σ α}
    (h : c → (ofParts inv part idle asserts mayRun mayDie).Takes part i P p Q)
    (h' : ¬c → (ofParts inv part idle asserts mayRun mayDie).Takes part i P q Q) :
    (ofParts inv part idle asserts mayRun mayDie).Takes part i P (if c then p else q) Q :=
  Meets.ite h h'

theorem Takes.whenever {c : Prop} [Decidable c] {p : Prog L σ Unit} {Q : Unit → V → Prop}
    (h : c → (ofParts inv part idle asserts mayRun mayDie).Takes part i P p Q)
    (hQ : ¬c → ∀ v, P v → Q () v) :
    (ofParts inv part idle asserts mayRun mayDie).Takes part i P (.whenever c p) Q :=
  Meets.whenever (stable_part i P) h fun hc _ _ => hQ hc _

/-- The part before may be any of those that `P` says. -/
theorem Takes.exists
    (h : ∀ v, P v → (ofParts inv part idle asserts mayRun mayDie).Takes part i (· = v) p Q) :
    (ofParts inv part idle asserts mayRun mayDie).Takes part i P p Q := by
  have hex := Meets.exists fun v : { v // P v } => h v.1 v.2
  exact hex.pre (stable_part i P) fun s _ hP => ⟨⟨part i s, hP⟩, rfl⟩

/-- A program that is never started. -/
theorem Takes.of_false (h : ∀ v, ¬P v) :
    (ofParts inv part idle asserts mayRun mayDie).Takes part i P p Q :=
  .exists fun v hv => (h v hv).elim

/-- Programs that leave their threads idle make a sound system. -/
theorem sound_ofParts {program : ι → Op → Prog L σ Unit}
    (h : ∀ i op, (ofParts inv part idle asserts mayRun mayDie).Takes part i idle (program i op) fun _ => idle) :
    (ofParts inv part idle asserts mayRun mayDie).Sound program where
  compatible _ j hne _ _ hguar := hguar j (Ne.symm hne)
  idle i := stable_part i idle
  meets := h

end Parts

/-! ## Runs -/

/-- A section is run only where it may be. -/
def Allowed (D : Discipline ι L σ) (c : Threads ι L σ) (e : ThreadEvent ι Op) : Prop :=
  ∀ i label, e = .run i → (c.progs i).next = some label → D.mayRun i label c.shared

variable {program : ι → Op → Prog L σ Unit} {c : Threads ι L σ}

/-- A system that keeps to the discipline. -/
structure Keeps (D : Discipline ι L σ) (c : Threads ι L σ) : Prop where
  inv : D.inv c.shared
  progs : c.died = none → ∀ i, ∃ P : σ → Prop, P c.shared ∧
    D.Meets i (fun _ => D.idle i) (c.progs i) P
  died : ∀ label, c.died = some label → D.mayDie label

/-- A thread that is through with its program is idle. -/
theorem Keeps.idle (h : D.Keeps c) (hdied : c.died = none) (hnext : (c.progs i).next = none) :
    D.idle i c.shared := by
  obtain ⟨P, hP, hmeets⟩ := h.progs hdied i
  cases hprog : c.progs i with
  | ret a =>
    rw [hprog] at hmeets
    exact hmeets.2 _ h.inv hP
  | sec label guard m k =>
    rw [hprog] at hnext
    cases hnext

/-- A thread is at a section only where it should be. -/
theorem Keeps.asserts {label : L} (h : D.Keeps c) (hdied : c.died = none)
    (hnext : (c.progs i).next = some label) : D.asserts i label c.shared := by
  obtain ⟨P, hP, hmeets⟩ := h.progs hdied i
  cases hprog : c.progs i with
  | ret a =>
    rw [hprog] at hnext
    cases hnext
  | sec label' guard m k =>
    rw [hprog] at hmeets hnext
    obtain rfl : label' = label := Option.some.inj hnext
    exact hmeets.2.1 _ h.inv hP

theorem Keeps.start {s : σ} (hD : D.Sound program) (hinv : D.inv s) (hidle : ∀ i, D.idle i s) :
    D.Keeps (.start s) where
  inv := hinv
  progs := fun _ i => ⟨D.idle i, hidle i, hD.idle i, fun _ _ h => h⟩
  died := fun _ h => (by cases h)

variable [DecidableEq ι]

/-- A thread begins a program. -/
theorem Keeps.begin (hD : D.Sound program) (h : D.Keeps c) (i : ι) (op : Op) :
    D.Keeps (c.step program (.begin i op)) := by
  simp only [Threads.step]
  split
  · rename_i a hdied hidle
    refine ⟨h.inv, fun _ j => ?_, h.died⟩
    obtain ⟨P, hP, hmeets⟩ := h.progs hdied j
    by_cases hj : j = i
    · subst hj
      rw [hidle] at hmeets
      refine ⟨D.idle j, hmeets.2 _ h.inv hP, ?_⟩
      simp only [Function.update_self]
      exact hD.meets j op
    · refine ⟨P, hP, ?_⟩
      simp only [Function.update_of_ne hj]
      exact hmeets
  · exact h

/-- A thread runs its next section. -/
theorem Keeps.run (hD : D.Sound program) (h : D.Keeps c) (i : ι)
    (hok : ∀ label, (c.progs i).next = some label → D.mayRun i label c.shared) :
    D.Keeps (c.step program (.run i)) := by
  simp only [Threads.step]
  split
  · rename_i β label guard m k hdied hat
    split
    · rename_i hguard
      obtain ⟨P, hP, hmeets⟩ := h.progs hdied i
      rw [hat] at hmeets hok
      obtain ⟨-, -, P', hm, hk⟩ := hmeets
      have hwp := hm _ h.inv hP hguard (hok label rfl)
      split
      · rename_i b s' hres
        obtain ⟨hinv, hguar, hnext⟩ := Handler.wp_of_ok hres hwp
        refine ⟨hinv, fun _ j => ?_, h.died⟩
        by_cases hj : j = i
        · subst hj
          refine ⟨P' b, hnext, ?_⟩
          simp only [Function.update_self]
          exact hk b
        · -- the others cannot tell, as far as they rely on anything
          obtain ⟨R, hR, hother⟩ := h.progs hdied j
          refine ⟨R, hother.stable _ _ h.inv hinv ?_ hR, ?_⟩
          · exact hD.compatible i j (Ne.symm hj) _ _ hguar
          · simp only [Function.update_of_ne hj]
            exact hother
      · rename_i s' hres
        obtain ⟨hinv, hdies⟩ := Handler.wp_of_abort hres hwp
        refine ⟨hinv, fun hnone => (by cases hnone), ?_⟩
        rintro l ⟨⟩
        exact hdies
    · exact h
  · exact h

/-- Every interleaving keeps to the discipline. -/
theorem Sound.keeps {s : σ} {ok : Threads ι L σ → ThreadEvent ι Op → Prop} (hD : D.Sound program)
    (hok : ∀ c e, ok c e → D.Allowed c e) (hinv : D.inv s) (hidle : ∀ i, D.idle i s)
    (h : Threads.Reach program ok s c) : D.Keeps c := by
  induction h with
  | start => exact .start hD hinv hidle
  | @step c e _ he ih =>
    cases e with
    | begin i op => exact ih.begin hD i op
    | run i => exact ih.run hD i fun label hnext => hok c _ he i label rfl hnext

end Discipline

end Base
