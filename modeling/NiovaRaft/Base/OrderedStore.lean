import Mathlib.Data.List.Basic
import Mathlib.Data.UInt
import Mathlib.Order.Basic
import Mathlib.Order.Lattice

/-!
# Ordered key-value stores

A store is a list of pairs in the order of their keys.  A write replaces the pair of its key, and a
range of keys is deleted from its first key up to, but not including, its last.  An iterator that is
placed on a key has the keys from it on, in their order, ahead of it.

Everything about a store is told by `get`: what the iterators meet are the keys that `get` finds.
-/

namespace Base

variable {K V : Type} [LinearOrder K]

/-- A store. -/
structure OrderedStore (K V : Type) [LinearOrder K] where
  pairs : List (K × V)
  sorted : pairs.Pairwise (·.1 < ·.1)

namespace OrderedStore

/-- The empty store. -/
def empty : OrderedStore K V := ⟨[], .nil⟩

/-- The value of a key. -/
def get (s : OrderedStore K V) (k : K) : Option V := (s.pairs.find? (·.1 = k)).map (·.2)

/-- The store with the pairs that `p` keeps. -/
def keep (s : OrderedStore K V) (p : K → Bool) : OrderedStore K V :=
  ⟨s.pairs.filter (p ·.1), s.sorted.filter _⟩

/-- The store without one key. -/
def delete (s : OrderedStore K V) (k : K) : OrderedStore K V := s.keep (· ≠ k)

/-- The store without the keys from `lo` up to `hi`. -/
def deleteRange (s : OrderedStore K V) (lo hi : K) : OrderedStore K V :=
  s.keep fun k => ¬(lo ≤ k ∧ k < hi)

theorem sorted_put (s : OrderedStore K V) (k : K) (v : V) :
    (s.pairs.filter (·.1 < k) ++ (k, v) :: s.pairs.filter (k < ·.1)).Pairwise (·.1 < ·.1) := by
  have hright : ((k, v) :: s.pairs.filter (k < ·.1)).Pairwise (·.1 < ·.1) := by
    refine List.pairwise_cons.mpr ⟨fun p hp => ?_, s.sorted.filter _⟩
    simpa using (List.mem_filter.mp hp).2
  refine List.pairwise_append.mpr ⟨s.sorted.filter _, hright, fun p hp q hq => ?_⟩
  have hpk : p.1 < k := by simpa using (List.mem_filter.mp hp).2
  rcases List.mem_cons.mp hq with rfl | hq
  · exact hpk
  · exact lt_trans hpk (by simpa using (List.mem_filter.mp hq).2)

/-- The store with one more pair, or with one replaced. -/
def put (s : OrderedStore K V) (k : K) (v : V) : OrderedStore K V :=
  ⟨s.pairs.filter (·.1 < k) ++ (k, v) :: s.pairs.filter (k < ·.1), s.sorted_put k v⟩

/-- The keys that `p` holds of, in order. -/
def keysWhere (s : OrderedStore K V) (p : K → Bool) : List K := (s.pairs.map (·.1)).filter p

/-! ## Reading -/

variable {s : OrderedStore K V} {k k' lo hi : K} {v : V}

/-- A key has at most one pair. -/
theorem eq_of_mem_sorted {l : List (K × V)} (hl : l.Pairwise (·.1 < ·.1)) {p q : K × V}
    (hp : p ∈ l) (hq : q ∈ l) (h : p.1 = q.1) : p = q := by
  induction l with
  | nil => cases hp
  | cons r l ih =>
    obtain ⟨hfirst, htail⟩ := List.pairwise_cons.mp hl
    rcases List.mem_cons.mp hp with rfl | hp' <;> rcases List.mem_cons.mp hq with rfl | hq'
    · rfl
    · exact absurd h (ne_of_lt (hfirst q hq'))
    · exact absurd h.symm (ne_of_lt (hfirst p hp'))
    · exact ih htail hp' hq'

theorem get_eq_some_iff : s.get k = some v ↔ (k, v) ∈ s.pairs := by
  constructor
  · intro h
    obtain ⟨p, hfind, rfl⟩ := Option.map_eq_some_iff.mp h
    have hkey : p.1 = k := by simpa using List.find?_some hfind
    rw [← hkey]
    exact List.mem_of_find?_eq_some hfind
  · intro h
    rw [get]
    cases hfind : s.pairs.find? (·.1 = k) with
    | none =>
      have hne := List.find?_eq_none.mp hfind (k, v) h
      simp at hne
    | some p =>
      have hkey : p.1 = k := by simpa using List.find?_some hfind
      rw [eq_of_mem_sorted s.sorted (List.mem_of_find?_eq_some hfind) h hkey]
      rfl

@[simp] theorem get_empty : (empty : OrderedStore K V).get k = none := rfl

theorem get_keep {p : K → Bool} : (s.keep p).get k = if p k then s.get k else none := by
  refine Option.ext fun v => ?_
  rw [get_eq_some_iff]
  split
  · next h => rw [get_eq_some_iff, keep, List.mem_filter, and_iff_left h]
  · next h => simp [keep, h]

theorem get_delete : (s.delete k').get k = if k = k' then none else s.get k := by
  rw [delete, get_keep]
  by_cases h : k = k' <;> simp [h]

theorem get_deleteRange :
    (s.deleteRange lo hi).get k = if lo ≤ k ∧ k < hi then none else s.get k := by
  rw [deleteRange, get_keep]
  by_cases h : lo ≤ k ∧ k < hi <;> simp [h]

theorem get_put : (s.put k' v).get k = if k = k' then some v else s.get k := by
  refine Option.ext fun w => ?_
  rw [get_eq_some_iff, put, List.mem_append, List.mem_cons, List.mem_filter, List.mem_filter]
  rcases lt_trichotomy k k' with hlt | rfl | hgt
  · rw [if_neg (ne_of_lt hlt), get_eq_some_iff]
    simp [hlt, not_lt_of_gt hlt, ne_of_lt hlt]
  · simp [eq_comm]
  · rw [if_neg (ne_of_gt hgt), get_eq_some_iff]
    simp [hgt, not_lt_of_gt hgt, ne_of_gt hgt]

@[simp] theorem get_put_self : (s.put k v).get k = some v := by rw [get_put, if_pos rfl]

theorem get_put_of_ne (h : k ≠ k') : (s.put k' v).get k = s.get k := by rw [get_put, if_neg h]

/-! ## Iterating -/

theorem mem_keysWhere {p : K → Bool} : k ∈ s.keysWhere p ↔ (s.get k).isSome ∧ p k := by
  rw [keysWhere, List.mem_filter, List.mem_map, Option.isSome_iff_exists]
  refine and_congr_left fun _ => ⟨?_, ?_⟩
  · rintro ⟨q, hq, rfl⟩
    exact ⟨q.2, get_eq_some_iff.mpr hq⟩
  · rintro ⟨v, hv⟩
    exact ⟨(k, v), get_eq_some_iff.mp hv, rfl⟩

theorem sorted_keysWhere (p : K → Bool) : (s.keysWhere p).Pairwise (· < ·) :=
  (List.pairwise_map.mpr s.sorted).filter p

/-- The first key is the least one. -/
theorem keysWhere_head_le {p : K → Bool} {ks : List K} (h : s.keysWhere p = k :: ks)
    (hk' : k' ∈ s.keysWhere p) : k ≤ k' := by
  have hsorted := s.sorted_keysWhere p
  rw [h] at hsorted hk'
  rcases List.mem_cons.mp hk' with rfl | hmem
  · exact le_refl _
  · exact le_of_lt ((List.pairwise_cons.mp hsorted).1 k' hmem)

/-- The last key is the greatest one. -/
theorem le_keysWhere_getLast {p : K → Bool} (h : (s.keysWhere p).getLast? = some k)
    (hk' : k' ∈ s.keysWhere p) : k' ≤ k := by
  obtain ⟨l, hl⟩ := List.getLast?_eq_some_iff.mp h
  have hsorted := s.sorted_keysWhere p
  rw [hl] at hsorted hk'
  rcases List.mem_append.mp hk' with hmem | hmem
  · exact le_of_lt ((List.pairwise_append.mp hsorted).2.2 k' hmem k (List.mem_singleton.mpr rfl))
  · exact le_of_eq (List.mem_singleton.mp hmem)

end OrderedStore

end Base
