import Mathlib.Data.Finset.Card
import Mathlib.Data.Fintype.Card
import Mathlib.Data.List.FinRange
import Mathlib.Data.List.Sort
import Mathlib.Data.UInt
import Mathlib.Order.Bounds.Defs

/-!
# Majorities

A majority of a finite type is a finite set with more than half of its elements.  Two of them
share an element.  The second part is about the way a program finds the value that a majority
reaches: sort the values in ascending order and take the one at position `k`.  Exactly the
thresholds that `length - k` of the values reach lie at or below it.  The sort may be that of C, which
is told the order by a comparison.
-/

namespace Base

/-- More than half of the elements. -/
def Majority {P : Type} [Fintype P] (Q : Finset P) : Prop := Fintype.card P < 2 * Q.card

section Majority

variable {P : Type} [Fintype P]

theorem Majority.inter [DecidableEq P] {Q Q' : Finset P} (h : Majority Q) (h' : Majority Q') :
    ∃ q, q ∈ Q ∧ q ∈ Q' := by
  have hne : (Q ∩ Q').Nonempty := by
    apply Finset.inter_nonempty_of_card_lt_card_add_card (Finset.subset_univ Q)
      (Finset.subset_univ Q')
    rw [Finset.card_univ]
    unfold Majority at h h'
    omega
  obtain ⟨q, hq⟩ := hne
  exact ⟨q, Finset.mem_of_mem_inter_left hq, Finset.mem_of_mem_inter_right hq⟩

theorem Majority.mono {Q Q' : Finset P} (h : Majority Q) (hs : Q ⊆ Q') : Majority Q' := by
  have := Finset.card_le_card hs
  unfold Majority at h ⊢
  omega

end Majority

/-- The elements counted by a program over `List.finRange` form a set of that size. -/
theorem card_filter_eq_countP {n : Nat} (p : Fin n → Bool) :
    (Finset.univ.filter fun i => p i = true).card = (List.finRange n).countP p := by
  rw [List.countP_eq_length_filter]
  have hnd : ((List.finRange n).filter p).Nodup := (List.nodup_finRange n).filter p
  rw [← List.toFinset_card_of_nodup hnd]
  congr 1
  ext i
  simp

/-- A count of `n / 2 + 1` is a majority. -/
theorem majority_of_countP {n : Nat} (p : Fin n → Bool)
    (h : n / 2 + 1 ≤ (List.finRange n).countP p) :
    Majority (Finset.univ.filter fun i => p i = true) := by
  unfold Majority
  rw [card_filter_eq_countP, Fintype.card_fin]
  omega

/-! ## The value a majority reaches -/

/-- In a list sorted in ascending order, the entry at `k` is at least `x` exactly when the
entries from `k` on are counted. -/
theorem le_getElem_iff_le_countP {l : List Int} (hl : l.Pairwise (· ≤ ·)) {k : Nat}
    (hk : k < l.length) (x : Int) :
    x ≤ l[k] ↔ l.length - k ≤ l.countP (fun v => decide (x ≤ v)) := by
  have hsplit : l.countP (fun v => decide (x ≤ v)) =
      (l.take k).countP (fun v => decide (x ≤ v)) +
        (l.drop k).countP (fun v => decide (x ≤ v)) := by
    rw [← List.countP_append, List.take_append_drop]
  constructor
  · intro hx
    have hall : (l.drop k).countP (fun v => decide (x ≤ v)) = (l.drop k).length := by
      rw [List.countP_eq_length]
      intro v hv
      obtain ⟨i, hi, rfl⟩ := List.getElem_of_mem hv
      have hki : k + i < l.length := by
        rw [List.length_drop] at hi
        omega
      rw [List.getElem_drop]
      have hle : l[k] ≤ l[k + i] := by
        rcases Nat.eq_zero_or_pos i with rfl | hpos
        · simp
        · exact List.pairwise_iff_getElem.mp hl k (k + i) hk _ (by omega)
      simpa using le_trans hx hle
    rw [hsplit, hall, List.length_drop]
    omega
  · intro hc
    by_contra hx
    -- nothing up to `k` is counted, and fewer than `length - k` entries remain
    have hnone : (l.take (k + 1)).countP (fun v => decide (x ≤ v)) = 0 := by
      rw [List.countP_eq_zero]
      intro v hv
      obtain ⟨i, hi, rfl⟩ := List.getElem_of_mem hv
      rw [List.length_take] at hi
      rw [List.getElem_take]
      have hle : l[i] ≤ l[k] := by
        rcases Nat.lt_or_ge i k with hlt | hge
        · exact List.pairwise_iff_getElem.mp hl i k _ hk hlt
        · obtain rfl : i = k := by omega
          exact le_refl _
      simp only [decide_eq_true_eq]
      omega
    have hsplit' : l.countP (fun v => decide (x ≤ v)) =
        (l.take (k + 1)).countP (fun v => decide (x ≤ v)) +
          (l.drop (k + 1)).countP (fun v => decide (x ≤ v)) := by
      rw [← List.countP_append, List.take_append_drop]
    have hle := List.countP_le_length (p := fun v => decide (x ≤ v)) (l := l.drop (k + 1))
    rw [List.length_drop] at hle
    omega

/-- The same for the list before it is sorted. -/
theorem le_sorted_iff_le_countP {l : List Int} {k : Nat} (hk : k < l.length) (x : Int) :
    x ≤ (l.insertionSort (· ≤ ·)).getD k (-1) ↔
      l.length - k ≤ l.countP (fun v => decide (x ≤ v)) := by
  have hperm := List.perm_insertionSort (· ≤ ·) l
  have hlen : (l.insertionSort (· ≤ ·)).length = l.length := hperm.length_eq
  have hk' : k < (l.insertionSort (· ≤ ·)).length := by omega
  rw [List.getD_eq_getElem?_getD, List.getElem?_eq_getElem hk', Option.getD_some]
  rw [le_getElem_iff_le_countP (List.pairwise_insertionSort (· ≤ ·) l) hk', hlen,
    hperm.countP_eq]

/-- In a sorted list the entry at `k` is the greatest value that the entries from `k` on are enough to
reach. -/
theorem isGreatest_getElem {l : List Int} (hl : l.Pairwise (· ≤ ·)) {k : Nat} (hk : k < l.length) :
    IsGreatest {x | l.length - k ≤ l.countP fun v => decide (x ≤ v)} l[k] := by
  constructor
  · exact (le_getElem_iff_le_countP hl hk l[k]).mp (le_refl _)
  · intro x hx
    exact (le_getElem_iff_le_countP hl hk x).mpr hx

/-! ## The sort of C -/

section Qsort

variable {α : Type}

/-- `qsort`, by a comparison that is negative, zero or positive. -/
def qsort (compare : α → α → Int) (l : List α) : List α :=
  l.mergeSort fun a b => decide (compare a b ≤ 0)

theorem perm_qsort (compare : α → α → Int) (l : List α) : (qsort compare l).Perm l :=
  List.mergeSort_perm l _

/-- With a comparison that tells the order, the sort is in that order. -/
theorem pairwise_qsort [LinearOrder α] {compare : α → α → Int}
    (hcompare : ∀ a b, compare a b ≤ 0 ↔ a ≤ b) (l : List α) :
    (qsort compare l).Pairwise (· ≤ ·) := by
  have htrans : ∀ a b c, decide (compare a b ≤ 0) = true → decide (compare b c ≤ 0) = true →
      decide (compare a c ≤ 0) = true := by
    intro a b c hab hbc
    simp only [hcompare, decide_eq_true_eq] at hab hbc ⊢
    exact hab.trans hbc
  have htotal : ∀ a b, (decide (compare a b ≤ 0) || decide (compare b a ≤ 0)) = true := by
    intro a b
    simp only [hcompare, Bool.or_eq_true, decide_eq_true_eq]
    exact le_total a b
  refine (List.pairwise_mergeSort htrans htotal l).imp ?_
  intro a b hab
  exact (hcompare a b).mp (of_decide_eq_true hab)

end Qsort

end Base
