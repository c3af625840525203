import Mathlib.Data.UInt
import Mathlib.Order.Basic

/-!
# Loops

A loop whose body is given what happens in each iteration goes on with a state or stops with a result.
It is told by the states it begins its iterations with.
-/

namespace Base

variable {σ ρ : Type}

/-- What an iteration comes to. -/
inductive LoopStep (σ ρ : Type) where
  | next (s : σ)
  | stop (r : ρ)

/-- The state before the `k`-th iteration, if the loop gets there. -/
def loopAt (body : Nat → σ → LoopStep σ ρ) (s : σ) : Nat → Option σ
  | 0 => some s
  | k + 1 =>
      match loopAt body s k with
      | none => none
      | some t =>
          match body k t with
          | .next t' => some t'
          | .stop _ => none

variable {body : Nat → σ → LoopStep σ ρ} {s : σ}

/-- The loop stops in the `k`-th iteration. -/
def StopsAt (body : Nat → σ → LoopStep σ ρ) (s : σ) (k : Nat) (r : ρ) : Prop :=
  ∃ t, loopAt body s k = some t ∧ body k t = .stop r

theorem loopAt_succ_iff {k : Nat} {t' : σ} :
    loopAt body s (k + 1) = some t' ↔ ∃ t, loopAt body s k = some t ∧ body k t = .next t' := by
  rw [loopAt]
  cases loopAt body s k with
  | none => simp
  | some t =>
    cases hbody : body k t with
    | next t'' => simp [hbody]
    | stop r => simp [hbody]

theorem loopAt_succ {k : Nat} {t t' : σ} (ht : loopAt body s k = some t) (hbody : body k t = .next t') :
    loopAt body s (k + 1) = some t' := loopAt_succ_iff.mpr ⟨t, ht, hbody⟩

/-- After an iteration that stops there is no other. -/
theorem loopAt_succ_of_stop {k : Nat} {t : σ} {r : ρ} (ht : loopAt body s k = some t)
    (hbody : body k t = .stop r) : loopAt body s (k + 1) = none := by
  simp only [loopAt, ht, hbody]

/-- What holds at first and is kept by each iteration that goes on holds before every iteration. -/
theorem loopAt_invariant {P : σ → Prop} (hinit : P s)
    (hstep : ∀ k t t', loopAt body s k = some t → P t → body k t = .next t' → P t') (k : Nat) {t : σ}
    (ht : loopAt body s k = some t) : P t := by
  induction k generalizing t with
  | zero =>
    cases ht
    exact hinit
  | succ k ih =>
    obtain ⟨t₀, ht₀, hbody⟩ := loopAt_succ_iff.mp ht
    exact hstep k t₀ t ht₀ (ih ht₀) hbody

/-- A loop stops if each iteration that goes on makes a measure smaller. -/
theorem exists_stopsAt (measure : σ → Nat)
    (hless : ∀ k t t', loopAt body s k = some t → body k t = .next t' → measure t' < measure t) :
    ∃ k r, StopsAt body s k r := by
  by_contra hnone
  -- it would go on for ever, and the measure would be below any bound
  have hgoes : ∀ k, ∃ t, loopAt body s k = some t ∧ measure t + k ≤ measure s := by
    intro k
    induction k with
    | zero => exact ⟨s, rfl, Nat.le_refl _⟩
    | succ k ih =>
      obtain ⟨t, ht, hle⟩ := ih
      cases hbody : body k t with
      | next t' =>
        have hlt := hless k t t' ht hbody
        exact ⟨t', loopAt_succ ht hbody, by omega⟩
      | stop r => exact absurd ⟨k, r, t, ht, hbody⟩ hnone
  obtain ⟨t, -, hle⟩ := hgoes (measure s + 1)
  omega

end Base
