import Mathlib.Data.List.Basic
import Mathlib.Data.UInt

/-!
# Calls one after another

A component is called with one argument after another, and each call leaves it in a state.  Something is
said of every call by saying it of the state before the call and the argument.

A call may also end the process.  Then what is said is about the runs that get to their end.
-/

namespace Base

variable {σ ι : Type}

/-- `P` holds of each call and the state before it. -/
def EachCall (step : σ → ι → σ) (P : σ → ι → Prop) : σ → List ι → Prop
  | _, [] => True
  | s, i :: is => P s i ∧ EachCall step P (step s i) is

variable {step : σ → ι → σ} {P Q : σ → ι → Prop} {Inv : σ → Prop} {s : σ}

/-- Where the calls keep an invariant, two properties that agree on the states that have it hold of the
same runs. -/
theorem eachCall_congr (hinit : Inv s) (hiff : ∀ s i, Inv s → (P s i ↔ Q s i))
    (hkeep : ∀ s i, Inv s → P s i → Inv (step s i)) (is : List ι) :
    EachCall step P s is ↔ EachCall step Q s is := by
  induction is generalizing s with
  | nil => exact Iff.rfl
  | cons i is ih =>
    constructor
    · rintro ⟨hP, hrest⟩
      exact ⟨(hiff s i hinit).mp hP, (ih (hkeep s i hinit hP)).mp hrest⟩
    · rintro ⟨hQ, hrest⟩
      have hP : P s i := (hiff s i hinit).mpr hQ
      exact ⟨hP, (ih (hkeep s i hinit hP)).mpr hrest⟩

/-- What follows of each call from the invariant. -/
theorem eachCall_of_invariant (Inv : σ → Prop) {R : ι → Prop} (hinit : Inv s)
    (hcall : ∀ s i, Inv s → R i → P s i ∧ Inv (step s i)) {is : List ι} (his : ∀ i ∈ is, R i) :
    EachCall step P s is := by
  induction is generalizing s with
  | nil => trivial
  | cons i is ih =>
    obtain ⟨hP, hinv⟩ := hcall s i hinit (his i List.mem_cons_self)
    exact ⟨hP, ih hinv fun j hj => his j (List.mem_cons_of_mem i hj)⟩

/-! ## Calls that may not return -/

section Partial

variable {call : σ → ι → Option σ} {s' : σ} {is : List ι}

theorem foldlM_cons_eq_some {i : ι} (h : (i :: is).foldlM call s = some s') :
    ∃ t, call s i = some t ∧ is.foldlM call t = some s' := by
  rw [List.foldlM_cons] at h
  exact Option.bind_eq_some_iff.mp h

/-- What holds at first and is kept by each call that returns holds at the end. -/
theorem foldlM_invariant {Inv : σ → Prop} (hinit : Inv s)
    (hcall : ∀ s i s', Inv s → call s i = some s' → Inv s') (h : is.foldlM call s = some s') :
    Inv s' := by
  induction is generalizing s with
  | nil =>
    cases h
    exact hinit
  | cons i is ih =>
    obtain ⟨t, ht, hrest⟩ := foldlM_cons_eq_some h
    exact ih (hcall s i t hinit ht) hrest

/-- What one call brings about, and every call then keeps, holds at the end of each run that has this
call in it. -/
theorem foldlM_since {Inv Since : σ → Prop} {mark : ι} (hinit : Inv s)
    (hcall : ∀ s i s', Inv s → call s i = some s' → Inv s')
    (hmark : ∀ s s', Inv s → call s mark = some s' → Since s')
    (hsince : ∀ s i s', Since s → call s i = some s' → Since s') (hmem : mark ∈ is)
    (h : is.foldlM call s = some s') : Since s' := by
  induction is generalizing s with
  | nil => exact absurd hmem List.not_mem_nil
  | cons i is ih =>
    obtain ⟨t, ht, hrest⟩ := foldlM_cons_eq_some h
    rcases List.mem_cons.mp hmem with rfl | hmem
    · exact foldlM_invariant (hmark s t hinit ht) hsince hrest
    · exact ih (hcall s i t hinit ht) hmem hrest

end Partial

end Base
