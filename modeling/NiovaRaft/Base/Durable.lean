import Mathlib.Data.UInt
import Mathlib.Logic.Basic

/-!
# Programs over a durable state

A program that changes a state which survives the process.  Each change is atomic, and a crash leaves
one of the states that the program went through.  The precondition of a program therefore has three
parts: what holds of every state a crash may leave, what holds when the program returns, and what
holds when it fails.
-/

namespace Base

/-- What a program did. -/
structure Ran (σ ε α : Type) where
  /-- The states that a crash may leave, in their order. -/
  left : List σ
  result : Except ε α
  final : σ

/-- A program over a durable state. -/
def Durable (σ ε α : Type) : Type := σ → Ran σ ε α

namespace Durable

variable {σ τ ε α β : Type}

/-- Return without a change. -/
def ret (a : α) : Durable σ ε α := fun s => ⟨[s], .ok a, s⟩

/-- Fail without a change. -/
def fail (e : ε) : Durable σ ε α := fun s => ⟨[s], .error e, s⟩

/-- One program after the other. -/
def andThen (m : Durable σ ε α) (f : α → Durable σ ε β) : Durable σ ε β := fun s =>
  match (m s).result with
  | .error e => ⟨(m s).left, .error e, (m s).final⟩
  | .ok a => ⟨(m s).left ++ (f a (m s).final).left, (f a (m s).final).result,
      (f a (m s).final).final⟩

instance : Monad (Durable σ ε) where
  pure := ret
  bind := andThen

/-- The state. -/
def read : Durable σ ε σ := fun s => ⟨[s], .ok s, s⟩

/-- An atomic change. -/
def write (f : σ → σ) : Durable σ ε Unit := fun s => ⟨[s, f s], .ok (), f s⟩

/-- A computation that does not touch the state. -/
def ofExcept : Except ε α → Durable σ ε α
  | .ok a => ret a
  | .error e => fail e

/-- Fail unless a condition holds. -/
def require (p : Prop) [Decidable p] (e : ε) : Durable σ ε Unit := if p then ret () else fail e

/-- A program over a part of the state. -/
def zoom (get : τ → σ) (set : τ → σ → τ) (m : Durable σ ε α) : Durable τ ε α := fun t =>
  ⟨(m (get t)).left.map (set t), (m (get t)).result, set t (m (get t)).final⟩

/-! ## Preconditions -/

/-- What must hold for a program to leave only `crash` states, to return as `ok` says and to fail as
`err` says. -/
def wp (m : Durable σ ε α) (crash : σ → Prop) (ok : α → σ → Prop) (err : ε → σ → Prop) (s : σ) :
    Prop :=
  (∀ s' ∈ (m s).left, crash s') ∧
    match (m s).result with
    | .ok a => ok a (m s).final
    | .error e => err e (m s).final

variable {crash : σ → Prop} {ok : α → σ → Prop} {err : ε → σ → Prop} {s : σ}

@[simp] theorem wp_pure (a : α) :
    (pure a : Durable σ ε α).wp crash ok err s ↔ crash s ∧ ok a s := by
  simp [wp, pure, ret]

@[simp] theorem wp_fail (e : ε) : (fail e).wp crash ok err s ↔ crash s ∧ err e s := by
  simp [wp, fail]

@[simp] theorem wp_read {ok : σ → σ → Prop} :
    (read : Durable σ ε σ).wp crash ok err s ↔ crash s ∧ ok s s := by
  simp [wp, read]

@[simp] theorem wp_write {f : σ → σ} {ok : Unit → σ → Prop} :
    (write f).wp crash ok err s ↔ crash s ∧ crash (f s) ∧ ok () (f s) := by
  simp [wp, write, and_assoc]

@[simp] theorem wp_bind (m : Durable σ ε β) (f : β → Durable σ ε α) :
    (m >>= f).wp crash ok err s ↔ m.wp crash (fun b => (f b).wp crash ok err) err s := by
  show (andThen m f).wp crash ok err s ↔ _
  cases h : (m s).result with
  | error e => simp [wp, andThen, h]
  | ok b =>
    simp only [wp, andThen, h, List.mem_append, or_imp, forall_and, and_assoc]

theorem wp_ofExcept_ok (a : α) :
    (ofExcept (.ok a) : Durable σ ε α).wp crash ok err s ↔ crash s ∧ ok a s :=
  wp_pure a

theorem wp_ofExcept_error (e : ε) :
    (ofExcept (.error e) : Durable σ ε α).wp crash ok err s ↔ crash s ∧ err e s :=
  wp_fail e

@[simp] theorem wp_require {p : Prop} [Decidable p] {e : ε} {ok : Unit → σ → Prop} :
    (require p e).wp crash ok err s ↔ crash s ∧ (p → ok () s) ∧ (¬p → err e s) := by
  rw [require]
  split
  · next hp => simp [wp, ret, hp]
  · next hp => simp [wp, fail, hp]

/-- Where a failure is ruled out, the condition holds. -/
theorem wp_require_ok {p : Prop} [Decidable p] {e : ε} {ok : Unit → σ → Prop} :
    (require p e).wp crash ok (fun _ _ => False) s ↔ crash s ∧ p ∧ ok () s := by
  rw [wp_require]
  refine and_congr_right fun _ => ⟨fun h => ?_, fun h => ⟨fun _ => h.2, fun hn => hn h.1⟩⟩
  have hp : p := Decidable.of_not_not h.2
  exact ⟨hp, h.1 hp⟩

theorem wp_zoom {get : τ → σ} {set : τ → σ → τ} {m : Durable σ ε α} {crash : τ → Prop}
    {ok : α → τ → Prop} {err : ε → τ → Prop} {t : τ} :
    (zoom get set m).wp crash ok err t ↔
      m.wp (fun s => crash (set t s)) (fun a s => ok a (set t s)) (fun e s => err e (set t s))
        (get t) := by
  rw [wp, wp, zoom]
  simp only [List.mem_map, forall_exists_index, and_imp, forall_apply_eq_imp_iff₂]

/-- A precondition may be weakened in each of its parts. -/
theorem wp_mono {m : Durable σ ε α} {crash' : σ → Prop} {ok' : α → σ → Prop} {err' : ε → σ → Prop}
    (h : m.wp crash ok err s) (hcrash : ∀ s, crash s → crash' s) (hok : ∀ a s, ok a s → ok' a s)
    (herr : ∀ e s, err e s → err' e s) : m.wp crash' ok' err' s := by
  refine ⟨fun s' hs' => hcrash s' (h.1 s' hs'), ?_⟩
  have hresult := h.2
  cases hr : (m s).result with
  | ok a =>
    rw [hr] at hresult
    exact hok a _ hresult
  | error e =>
    rw [hr] at hresult
    exact herr e _ hresult

/-- What holds of every state holds of those that a program goes through. -/
theorem wp_of_forall {m : Durable σ ε α} (hcrash : ∀ s, crash s) (hok : ∀ a s, ok a s)
    (herr : ∀ e s, err e s) : m.wp crash ok err s := by
  refine ⟨fun s' _ => hcrash s', ?_⟩
  cases (m s).result with
  | ok a => exact hok a _
  | error e => exact herr e _

/-- Two preconditions hold together. -/
theorem wp_and {m : Durable σ ε α} {crash' : σ → Prop} {ok' : α → σ → Prop} {err' : ε → σ → Prop}
    (h : m.wp crash ok err s) (h' : m.wp crash' ok' err' s) :
    m.wp (fun s => crash s ∧ crash' s) (fun a s => ok a s ∧ ok' a s)
      (fun e s => err e s ∧ err' e s) s := by
  refine ⟨fun s' hs' => ⟨h.1 s' hs', h'.1 s' hs'⟩, ?_⟩
  have hresult := h.2
  have hresult' := h'.2
  cases hr : (m s).result with
  | ok a =>
    rw [hr] at hresult hresult'
    exact ⟨hresult, hresult'⟩
  | error e =>
    rw [hr] at hresult hresult'
    exact ⟨hresult, hresult'⟩

/-- A program that cannot fail returns. -/
theorem wp_result {m : Durable σ ε α} (h : m.wp crash ok (fun _ _ => False) s) :
    ∃ a, (m s).result = .ok a ∧ ok a (m s).final := by
  have hresult := h.2
  cases hr : (m s).result with
  | ok a =>
    rw [hr] at hresult
    exact ⟨a, rfl, hresult⟩
  | error e =>
    rw [hr] at hresult
    exact hresult.elim

/-- A program that returned meets this precondition. -/
theorem wp_of_result {m : Durable σ ε α} {a : α} (h : (m s).result = .ok a) :
    m.wp (· ∈ (m s).left) (fun a' s' => a' = a ∧ s' = (m s).final) (fun _ _ => False) s := by
  refine ⟨fun _ h => h, ?_⟩
  rw [h]
  exact ⟨rfl, rfl⟩

end Durable

end Base
