import Mathlib.Data.Finset.Basic

/-!
# Polls

Somebody asks a set of voters and counts who says yes.  Messages stay in the network, in the order
in which they were sent, and arrive in any order.  A poll keeps three promises: every voter was
asked, whoever was reached has answered, and what has arrived was counted.  Once all that was sent
has arrived, every voter was counted.

Only messages from place `k` on belong to the poll.
-/

namespace Base

variable {V μ : Type} {k : Nat} {ask answer : V → μ → Prop} {yes yes' : V → Prop}
  {voters : Finset V} {net ms : List μ} {arrived : List Nat}

/-- A message at a place from `k` on. -/
theorem mem_drop_of_getElem? {i : Nat} {m : μ} (hk : k ≤ i) (h : net[i]? = some m) :
    m ∈ net.drop k := by
  have hget : (net.drop k)[i - k]? = some m := by
    rw [List.getElem?_drop, Nat.add_sub_cancel' hk]
    exact h
  exact List.mem_of_getElem? hget

/-- A poll among `voters`.  The messages at the places in `arrived` have reached whom they were
for. -/
structure Poll (k : Nat) (ask answer : V → μ → Prop) (yes : V → Prop) (voters : Finset V)
    (net : List μ) (arrived : List Nat) : Prop where
  begun : k ≤ net.length
  sent : ∀ i ∈ arrived, i < net.length
  asked : ∀ q ∈ voters, ∃ i m, k ≤ i ∧ net[i]? = some m ∧ ask q m
  answered : ∀ q ∈ voters, ∀ i ∈ arrived, ∀ m, k ≤ i → net[i]? = some m → ask q m →
    ∃ j m', k ≤ j ∧ net[j]? = some m' ∧ answer q m'
  counted : ∀ q ∈ voters, ∀ i ∈ arrived, ∀ m, k ≤ i → net[i]? = some m → answer q m → yes q

namespace Poll

/-- A poll begins when all voters are asked.  Nothing that has arrived belongs to it. -/
theorem begins (hk : k ≤ net.length) (hsent : ∀ i ∈ arrived, i < net.length)
    (hnone : ∀ q ∈ voters, ∀ i ∈ arrived, ∀ m, k ≤ i → net[i]? = some m →
      ¬ ask q m ∧ ¬ answer q m)
    (hasked : ∀ q ∈ voters, ∃ m ∈ ms, ask q m) :
    Poll k ask answer yes voters (net ++ ms) arrived := by
  have hold : ∀ i ∈ arrived, (net ++ ms)[i]? = net[i]? := fun i hi =>
    List.getElem?_append_left (hsent i hi)
  refine ⟨?_, fun i hi => ?_, fun q hq => ?_, fun q hq i hi m hki hm ha => ?_,
    fun q hq i hi m hki hm ha => ?_⟩
  · rw [List.length_append]
    omega
  · rw [List.length_append]
    exact Nat.lt_add_right _ (hsent i hi)
  · obtain ⟨m, hm, ha⟩ := hasked q hq
    obtain ⟨j, hj⟩ := List.getElem?_of_mem hm
    refine ⟨net.length + j, m, by omega, ?_, ha⟩
    rw [List.getElem?_append_right (Nat.le_add_right _ _), Nat.add_sub_cancel_left]
    exact hj
  · rw [hold i hi] at hm
    exact absurd ha (hnone q hq i hi m hki hm).1
  · rw [hold i hi] at hm
    exact absurd ha (hnone q hq i hi m hki hm).2

/-- Other messages are sent. -/
theorem append (h : Poll k ask answer yes voters net arrived) (ms : List μ) :
    Poll k ask answer yes voters (net ++ ms) arrived := by
  have hold : ∀ i ∈ arrived, (net ++ ms)[i]? = net[i]? := fun i hi =>
    List.getElem?_append_left (h.sent i hi)
  have hkeep : ∀ {i : Nat} {m : μ}, net[i]? = some m → (net ++ ms)[i]? = some m := by
    intro i m hm
    rw [List.getElem?_append_left (List.getElem?_eq_some_iff.mp hm).1, hm]
  refine ⟨?_, fun i hi => ?_, fun q hq => ?_, fun q hq i hi m hki hm ha => ?_,
    fun q hq i hi m hki hm ha => ?_⟩
  · rw [List.length_append]
    exact Nat.le_add_right_of_le h.begun
  · rw [List.length_append]
    exact Nat.lt_add_right _ (h.sent i hi)
  · obtain ⟨i, m, hki, hm, ha⟩ := h.asked q hq
    exact ⟨i, m, hki, hkeep hm, ha⟩
  · rw [hold i hi] at hm
    obtain ⟨j, m', hkj, hm', ha'⟩ := h.answered q hq i hi m hki hm ha
    exact ⟨j, m', hkj, hkeep hm', ha'⟩
  · rw [hold i hi] at hm
    exact h.counted q hq i hi m hki hm ha

/-- A message arrives.  A voter answers it, or it is counted. -/
theorem arrive (h : Poll k ask answer yes voters net arrived) {i : Nat} {m : μ}
    (hm : net[i]? = some m) (hyes : ∀ q ∈ voters, yes q → yes' q)
    (hask : ∀ q ∈ voters, ask q m → ∃ m' ∈ ms, answer q m')
    (hanswer : ∀ q ∈ voters, answer q m → yes' q) :
    Poll k ask answer yes' voters (net ++ ms) (i :: arrived) := by
  have hnext := h.append ms
  have hi := (List.getElem?_eq_some_iff.mp hm).1
  have hat : (net ++ ms)[i]? = some m := by rw [List.getElem?_append_left hi, hm]
  refine ⟨hnext.begun, fun i' hi' => ?_, hnext.asked, fun q hq i' hi' m' hki hm' ha => ?_,
    fun q hq i' hi' m' hki hm' ha => ?_⟩
  · rcases List.mem_cons.mp hi' with rfl | hi'
    · exact (List.getElem?_eq_some_iff.mp hat).1
    · exact hnext.sent i' hi'
  · rcases List.mem_cons.mp hi' with rfl | hi'
    · cases hat.symm.trans hm'
      obtain ⟨m'', hm'', ha'⟩ := hask q hq ha
      obtain ⟨j, hj⟩ := List.getElem?_of_mem hm''
      refine ⟨net.length + j, m'', Nat.le_add_right_of_le h.begun, ?_, ha'⟩
      rw [List.getElem?_append_right (Nat.le_add_right _ _), Nat.add_sub_cancel_left]
      exact hj
    · exact hnext.answered q hq i' hi' m' hki hm' ha
  · rcases List.mem_cons.mp hi' with rfl | hi'
    · cases hat.symm.trans hm'
      exact hanswer q hq ha
    · exact hyes q hq (hnext.counted q hq i' hi' m' hki hm' ha)

/-- Once everything has arrived, all voters have said yes. -/
theorem unanimous (h : Poll k ask answer yes voters net arrived)
    (hall : ∀ q ∈ voters, ∀ i m, k ≤ i → net[i]? = some m → ask q m ∨ answer q m → i ∈ arrived) :
    ∀ q ∈ voters, yes q := by
  intro q hq
  obtain ⟨i, m, hki, hm, ha⟩ := h.asked q hq
  obtain ⟨j, m', hkj, hm', ha'⟩ :=
    h.answered q hq i (hall q hq i m hki hm (.inl ha)) m hki hm ha
  exact h.counted q hq j (hall q hq j m' hkj hm' (.inr ha')) m' hkj hm' ha'

end Poll

end Base
