import Mathlib.Data.UInt
import Mathlib.Logic.Basic

/-!
# Handlers that may die

A handler runs on the state of a process and either returns or kills the process.
The state at the point of death is kept, since what had reached the disk by then
survives.  `Handler.wp` is the weakest precondition of a handler for a postcondition on
its return and a second one on the state it died in.  The rules below compute it, so that
a specification of a handler is proved by rewriting with them and closing what is left.
-/

namespace Base

/-- How a handler ends: it returns, or the process dies in some state. -/
inductive Outcome (σ α : Type) where
  | ok (a : α) (s : σ)
  | abort (s : σ)

/-- The state a handler ends in, dead or not. -/
def Outcome.state {σ α : Type} : Outcome σ α → σ
  | .ok _ s => s
  | .abort s => s

/-- Whether a handler returned. -/
def Outcome.isOk {σ α : Type} : Outcome σ α → Bool
  | .ok _ _ => true
  | .abort _ => false

theorem Outcome.eq_ok_state {σ : Type} {o : Outcome σ Unit} (h : o.isOk = true) :
    o = .ok () o.state := by
  cases o with
  | ok a s => rfl
  | abort s => cases h

/-- A handler over process state `σ`. -/
def Handler (σ α : Type) : Type := σ → Outcome σ α

namespace Handler

variable {σ α β ι : Type}

/-- Run `m`, then `f` on its result.  A dead process runs nothing more. -/
def andThen (m : Handler σ α) (f : α → Handler σ β) : Handler σ β := fun s =>
  match m s with
  | .ok a s' => f a s'
  | .abort s' => .abort s'

instance : Monad (Handler σ) where
  pure a := fun s => .ok a s
  bind := andThen

/-- The state. -/
def get : Handler σ σ := fun s => .ok s s

/-- A value read off the state. -/
def gets (f : σ → α) : Handler σ α := fun s => .ok (f s) s

/-- Replace the state. -/
def modify (f : σ → σ) : Handler σ Unit := fun s => .ok () (f s)

/-- The process dies. -/
def abort : Handler σ α := fun s => .abort s

/-- An assertion: the process dies when it fails. -/
def assert (c : Prop) [Decidable c] : Handler σ Unit := if c then pure () else abort

/-- A fatal check: the process dies when it holds. -/
def fatalIf (c : Prop) [Decidable c] : Handler σ Unit := if c then abort else pure ()

/-- Run `m` only when `c` holds. -/
def whenever (c : Prop) [Decidable c] (m : Handler σ Unit) : Handler σ Unit :=
  if c then m else pure ()

/-! ## Weakest preconditions -/

/-- `m` started in `s` returns in `Q` or dies in `D`. -/
def wp (m : Handler σ α) (Q : α → σ → Prop) (D : σ → Prop) (s : σ) : Prop :=
  match m s with
  | .ok a s' => Q a s'
  | .abort s' => D s'

variable {m : Handler σ α} {f : α → Handler σ β} {Q Q' : α → σ → Prop} {D D' : σ → Prop} {s : σ}

theorem wp_of_ok {a : α} {s' : σ} (h : m s = .ok a s') (hw : m.wp Q D s) : Q a s' := by
  unfold wp at hw
  rwa [h] at hw

theorem wp_of_abort {s' : σ} (h : m s = .abort s') (hw : m.wp Q D s) : D s' := by
  unfold wp at hw
  rwa [h] at hw

/-- A handler is specified by what its two outcomes satisfy. -/
theorem wp_intro (hok : ∀ a s', m s = .ok a s' → Q a s') (hab : ∀ s', m s = .abort s' → D s') :
    m.wp Q D s := by
  unfold wp
  cases h : m s with
  | ok a s' => exact hok a s' h
  | abort s' => exact hab s' h

/-- The rule of consequence. -/
theorem wp_mono (hw : m.wp Q D s) (hQ : ∀ a s', Q a s' → Q' a s') (hD : ∀ s', D s' → D' s') :
    m.wp Q' D' s :=
  wp_intro (fun a s' h => hQ a s' (wp_of_ok h hw)) (fun s' h => hD s' (wp_of_abort h hw))

theorem wp_and (hw : m.wp Q D s) (hw' : m.wp Q' D' s) :
    m.wp (fun a s' => Q a s' ∧ Q' a s') (fun s' => D s' ∧ D' s') s :=
  wp_intro (fun _ _ h => ⟨wp_of_ok h hw, wp_of_ok h hw'⟩)
    fun _ h => ⟨wp_of_abort h hw, wp_of_abort h hw'⟩

/-- What holds in both outcomes holds in the state the handler ends in. -/
theorem state_of_wp {P : σ → Prop} (hw : m.wp (fun _ => P) P s) : P (m s).state := by
  cases h : m s with
  | ok a s' => exact wp_of_ok (Q := fun _ => P) h hw
  | abort s' => exact wp_of_abort h hw

/-- A handler that may not die returns. -/
theorem exists_ok_of_wp (hw : m.wp Q (fun _ => False) s) : ∃ a s', m s = .ok a s' ∧ Q a s' := by
  cases h : m s with
  | ok a s' => exact ⟨a, s', rfl, wp_of_ok h hw⟩
  | abort s' => exact (wp_of_abort h hw).elim

@[simp] theorem wp_pure {a : α} : (pure a : Handler σ α).wp Q D s ↔ Q a s := Iff.rfl

@[simp] theorem wp_bind {Q : β → σ → Prop} :
    (m >>= f).wp Q D s ↔ m.wp (fun a s' => (f a).wp Q D s') D s := by
  simp only [wp, bind, andThen]
  cases m s <;> rfl

@[simp] theorem wp_get {Q : σ → σ → Prop} : (get : Handler σ σ).wp Q D s ↔ Q s s := Iff.rfl

@[simp] theorem wp_gets {g : σ → α} : (gets g).wp Q D s ↔ Q (g s) s := Iff.rfl

@[simp] theorem wp_modify {g : σ → σ} {Q : Unit → σ → Prop} :
    (modify g).wp Q D s ↔ Q () (g s) := Iff.rfl

@[simp] theorem wp_abort : (abort : Handler σ α).wp Q D s ↔ D s := Iff.rfl

@[simp] theorem wp_ite {c : Prop} [Decidable c] {m' : Handler σ α} :
    (if c then m else m').wp Q D s ↔ (c → m.wp Q D s) ∧ (¬ c → m'.wp Q D s) := by
  by_cases h : c <;> simp [h]

@[simp] theorem wp_assert {c : Prop} [Decidable c] {Q : Unit → σ → Prop} :
    (assert c).wp Q D s ↔ (c → Q () s) ∧ (¬ c → D s) := by
  unfold assert
  rw [wp_ite, wp_pure, wp_abort]

@[simp] theorem wp_fatalIf {c : Prop} [Decidable c] {Q : Unit → σ → Prop} :
    (fatalIf c).wp Q D s ↔ (c → D s) ∧ (¬ c → Q () s) := by
  unfold fatalIf
  rw [wp_ite, wp_pure, wp_abort]

@[simp] theorem wp_whenever {c : Prop} [Decidable c] {m : Handler σ Unit} {Q : Unit → σ → Prop} :
    (whenever c m).wp Q D s ↔ (c → m.wp Q D s) ∧ (¬ c → Q () s) := by
  unfold whenever
  rw [wp_ite, wp_pure]

end Handler

end Base
