import NiovaRaft.Base.Handler
import Mathlib.Logic.Relation

/-!
# What a handler may write

A handler changes its state by a few kinds of writes.  `Within` says that all its writes are among
those of a relation on what is `view`ed of the state, so that an invariant of the writes is one of
every handler.  A dead handler leaves behind a state that only has to agree with where its writes
led: `Agrees` says what survives.

The rules follow the control flow.  A handler is treated by splitting it along them down to the
single writes.
-/

namespace Base

open Relation

namespace Handler

variable {σ β α γ : Type} {view : σ → β} {write agrees : β → β → Prop}

/-- Started in `s`, the handler makes no other writes than those of `write`. -/
def Within (view : σ → β) (write agrees : β → β → Prop) (m : Handler σ α) (s : σ) : Prop :=
  m.wp (fun _ s' => ReflTransGen write (view s) (view s'))
    (fun d => ∃ b, ReflTransGen write (view s) b ∧ agrees b (view d)) s

variable {m : Handler σ α} {f : α → Handler σ γ} {s : σ}

/-- A handler may be allowed more. -/
theorem Within.mono {write' : β → β → Prop} (hm : m.Within view write agrees s)
    (h : ∀ b b', write b b' → write' b b') : m.Within view write' agrees s := by
  refine wp_mono hm (fun _ _ hs => ReflTransGen.mono h _ _ hs) ?_
  rintro d ⟨b, hb, hd⟩
  exact ⟨b, ReflTransGen.mono h _ _ hb, hd⟩

theorem Within.pure {a : α} : (Pure.pure a : Handler σ α).Within view write agrees s :=
  .refl

theorem Within.get : (get : Handler σ σ).Within view write agrees s :=
  .refl

theorem Within.gets {g : σ → α} : (gets g).Within view write agrees s :=
  .refl

theorem Within.abort (hrefl : ∀ b, agrees b b) :
    (Handler.abort : Handler σ α).Within view write agrees s :=
  ⟨view s, .refl, hrefl _⟩

/-- A change of the state that writes nothing, or one thing. -/
theorem Within.modify {g : σ → σ} (h : ReflTransGen write (view s) (view (g s))) :
    (Handler.modify g).Within view write agrees s :=
  h

theorem Within.bind (hm : m.Within view write agrees s)
    (hf : ∀ a s', m s = .ok a s' → (f a).Within view write agrees s') :
    (m >>= f).Within view write agrees s := by
  unfold Within at hm ⊢
  rw [wp_bind]
  refine wp_intro (fun a s' hres => ?_) (fun d hres => ?_)
  · have hto := wp_of_ok hres hm
    refine wp_mono (hf a s' hres) (fun _ _ h => hto.trans h) ?_
    rintro d ⟨b, hb, hd⟩
    exact ⟨b, hto.trans hb, hd⟩
  · have hd := wp_of_abort hres hm
    exact hd

/-- The writes of a handler that starts after one was made. -/
theorem Within.head {s' : σ} (h : write (view s) (view s')) (hm : m.Within view write agrees s') :
    m.wp (fun _ t => ReflTransGen write (view s) (view t))
      (fun d => ∃ b, ReflTransGen write (view s) b ∧ agrees b (view d)) s' := by
  refine wp_mono hm (fun _ t ht => ht.head h) ?_
  rintro d ⟨b, hb, hd⟩
  exact ⟨b, hb.head h, hd⟩

theorem Within.ite {c : Prop} [Decidable c] {m' : Handler σ α}
    (h : c → m.Within view write agrees s) (h' : ¬ c → m'.Within view write agrees s) :
    (if c then m else m').Within view write agrees s := by
  split
  · exact h ‹_›
  · exact h' ‹_›

theorem Within.assert {c : Prop} [Decidable c] (hrefl : ∀ b, agrees b b) :
    (Handler.assert c : Handler σ Unit).Within view write agrees s :=
  .ite (fun _ => .pure) (fun _ => .abort hrefl)

theorem Within.fatalIf {c : Prop} [Decidable c] (hrefl : ∀ b, agrees b b) :
    (Handler.fatalIf c : Handler σ Unit).Within view write agrees s :=
  .ite (fun _ => .abort hrefl) (fun _ => .pure)

/-- What comes after an assertion may rely on it. -/
theorem Within.assert_bind {c : Prop} [Decidable c] {m : Unit → Handler σ α}
    (hrefl : ∀ b, agrees b b) (h : c → (m ()).Within view write agrees s) :
    (Handler.assert c >>= m).Within view write agrees s := by
  unfold Within at h ⊢
  rw [wp_bind, wp_assert]
  exact ⟨h, fun _ => ⟨view s, .refl, hrefl _⟩⟩

theorem Within.fatalIf_bind {c : Prop} [Decidable c] {m : Unit → Handler σ α}
    (hrefl : ∀ b, agrees b b) (h : ¬ c → (m ()).Within view write agrees s) :
    (Handler.fatalIf c >>= m).Within view write agrees s := by
  unfold Within at h ⊢
  rw [wp_bind, wp_fatalIf]
  exact ⟨fun _ => ⟨view s, .refl, hrefl _⟩, h⟩

theorem Within.whenever {c : Prop} [Decidable c] {m : Handler σ Unit}
    (h : c → m.Within view write agrees s) :
    (Handler.whenever c m).Within view write agrees s :=
  .ite h (fun _ => .pure)

/-- What holds of every state that the writes lead to holds of the result. -/
theorem Within.invariant {P : β → Prop} (hm : m.Within view write agrees s)
    (hP : ∀ b b', P b → write b b' → P b') (hs : P (view s)) :
    m.wp (fun _ s' => P (view s')) (fun d => ∃ b, P b ∧ agrees b (view d)) s := by
  have hall : ∀ b, ReflTransGen write (view s) b → P b := by
    intro b hb
    induction hb with
    | refl => exact hs
    | tail _ hstep ih => exact hP _ _ ih hstep
  refine wp_mono hm (fun _ s' h => hall _ h) ?_
  rintro d ⟨b, hb, hd⟩
  exact ⟨b, hall b hb, hd⟩

end Handler

end Base
