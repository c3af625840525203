import NiovaRaft.Base.Handler

/-!
# Two runs of a handler

What a handler does may depend on a part of the state only.  `Alike` compares its runs on two
states: they end in the same way, with the same result, and in states that are related again.  The
rules follow the control flow, so that a handler is compared with itself down to the single reads
and writes.
-/

namespace Base

namespace Handler

variable {σ α β : Type} {r : σ → σ → Prop}

/-- Started in `s` and `s'`, the two handlers end in the same way. -/
def Alike (r : σ → σ → Prop) (m m' : Handler σ α) (s s' : σ) : Prop :=
  m.wp (fun a t => m'.wp (fun a' t' => a' = a ∧ r t t') (fun _ => False) s')
    (fun t => m'.wp (fun _ _ => False) (fun t' => r t t') s') s

variable {m m' : Handler σ α} {f f' : α → Handler σ β} {s s' : σ}

theorem Alike.pure {a : α} (h : r s s') :
    Alike r (Pure.pure a : Handler σ α) (Pure.pure a : Handler σ α) s s' :=
  ⟨rfl, h⟩

theorem Alike.abort (h : r s s') :
    Alike r (Handler.abort : Handler σ α) (Handler.abort : Handler σ α) s s' :=
  h

theorem Alike.modify {g g' : σ → σ} (h : r (g s) (g' s')) :
    Alike r (Handler.modify g) (Handler.modify g') s s' :=
  ⟨rfl, h⟩

/-- Where both runs return, they do so with the same result. -/
theorem Alike.of_ok {a a' : α} {t t' : σ} (h : Alike r m m' s s') (hm : m s = .ok a t)
    (hm' : m' s' = .ok a' t') : a' = a ∧ r t t' := by
  have hw := wp_of_ok hm h
  exact wp_of_ok (Q := fun a' t' => a' = a ∧ r t t') hm' hw

theorem Alike.bind (hm : Alike r m m' s s')
    (hf : ∀ a t t', m s = .ok a t → r t t' → Alike r (f a) (f' a) t t') :
    Alike r (m >>= f) (m' >>= f') s s' := by
  unfold Alike at hm ⊢
  simp only [wp_bind]
  refine wp_intro (fun a t hres => ?_) fun d hres => ?_
  · have hw := wp_of_ok hres hm
    refine wp_intro (fun b u hb => ?_) fun b hb => ?_
    · refine wp_mono hw (fun a' t' h => ?_) fun _ h => h.elim
      obtain ⟨heq, hr⟩ := h
      have hk := wp_of_ok hb (hf a t t' hres hr)
      rw [heq]
      exact hk
    · refine wp_mono hw (fun a' t' h => ?_) fun _ h => h.elim
      obtain ⟨heq, hr⟩ := h
      have hk := wp_of_abort hb (hf a t t' hres hr)
      rw [heq]
      exact hk
  · have hw := wp_of_abort hres hm
    exact wp_mono hw (fun _ _ h => h.elim) fun _ h => h

theorem Alike.gets_bind {g : σ → α} (h : Alike r (f (g s)) (f' (g s')) s s') :
    Alike r (gets g >>= f) (gets g >>= f') s s' :=
  h

theorem Alike.ite {c : Prop} [Decidable c] {m₁ m₁' : Handler σ α}
    (h : c → Alike r m m' s s') (h' : ¬ c → Alike r m₁ m₁' s s') :
    Alike r (if c then m else m₁) (if c then m' else m₁') s s' := by
  split
  · exact h ‹_›
  · exact h' ‹_›

theorem Alike.assert_bind {c : Prop} [Decidable c] {m m' : Unit → Handler σ α} (hr : r s s')
    (h : c → Alike r (m ()) (m' ()) s s') :
    Alike r (Handler.assert c >>= m) (Handler.assert c >>= m') s s' := by
  by_cases hc : c
  · have hpure : (Handler.assert c : Handler σ Unit) = Pure.pure () := if_pos hc
    rw [hpure]
    exact h hc
  · have habort : (Handler.assert c : Handler σ Unit) = Handler.abort := if_neg hc
    rw [habort]
    exact hr

theorem Alike.fatalIf_bind {c : Prop} [Decidable c] {m m' : Unit → Handler σ α} (hr : r s s')
    (h : ¬ c → Alike r (m ()) (m' ()) s s') :
    Alike r (Handler.fatalIf c >>= m) (Handler.fatalIf c >>= m') s s' := by
  by_cases hc : c
  · have habort : (Handler.fatalIf c : Handler σ Unit) = Handler.abort := if_pos hc
    rw [habort]
    exact hr
  · have hpure : (Handler.fatalIf c : Handler σ Unit) = Pure.pure () := if_neg hc
    rw [hpure]
    exact h hc

end Handler

end Base
