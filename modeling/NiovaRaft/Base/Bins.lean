import Mathlib.Data.List.Nodup
import Mathlib.Data.UInt
import Mathlib.Logic.Function.Basic

/-!
# Items in bins

Items are put into bins, one bin is poured into another, and a bin is emptied.  A history of such
deeds says what each bin holds, and that an item is either in one bin, once, or was taken out once.
-/

namespace Base

/-- What was done with the bins.  A bin that is poured or emptied is named with what it held. -/
inductive BinDeed (ι α : Type) where
  | put (s : ι) (x : α)
  | pour (dest src : ι) (xs : List α)
  | empty (s : ι) (xs : List α)

namespace BinDeed

variable {ι α : Type} [DecidableEq ι]

/-- What comes into a bin. -/
def into (s : ι) : BinDeed ι α → List α
  | .put t x => if t = s then [x] else []
  | .pour dest _ xs => if dest = s then xs else []
  | .empty _ _ => []

/-- The bin holds nothing afterwards. -/
def clears (s : ι) : BinDeed ι α → Bool
  | .put _ _ => false
  | .pour _ src _ => decide (src = s)
  | .empty t _ => decide (t = s)

omit [DecidableEq ι] in
/-- What was put into any bin. -/
def added : BinDeed ι α → List α
  | .put _ x => [x]
  | _ => []

omit [DecidableEq ι] in
/-- What was taken out for good. -/
def removed : BinDeed ι α → List α
  | .empty _ xs => xs
  | _ => []

end BinDeed

section Received

variable {ι α : Type} [DecidableEq ι]

/-- The deeds since the bin was last cleared. -/
def sinceCleared (s : ι) (ds : List (BinDeed ι α)) : List (BinDeed ι α) :=
  (ds.reverse.takeWhile fun d => !d.clears s).reverse

/-- What came into the bin since it was last cleared, in order. -/
def received (s : ι) (ds : List (BinDeed ι α)) : List α := (sinceCleared s ds).flatMap (BinDeed.into s)

@[simp] theorem received_nil (s : ι) : received s ([] : List (BinDeed ι α)) = [] := rfl

theorem received_append_of_clears {s : ι} {d : BinDeed ι α} (h : d.clears s = true)
    (ds : List (BinDeed ι α)) : received s (ds ++ [d]) = [] := by
  rw [received, sinceCleared, List.reverse_append, List.reverse_singleton, List.singleton_append,
    List.takeWhile_cons_of_neg (by simp [h]), List.reverse_nil, List.flatMap_nil]

theorem received_append_of_not_clears {s : ι} {d : BinDeed ι α} (h : d.clears s = false)
    (ds : List (BinDeed ι α)) : received s (ds ++ [d]) = received s ds ++ d.into s := by
  rw [received, sinceCleared, List.reverse_append, List.reverse_singleton, List.singleton_append,
    List.takeWhile_cons_of_pos (by simp [h]), List.reverse_cons, List.flatMap_append,
    List.flatMap_singleton]
  rfl

theorem received_put (s t : ι) (x : α) (ds : List (BinDeed ι α)) :
    received s (ds ++ [.put t x]) = if t = s then received s ds ++ [x] else received s ds := by
  rw [received_append_of_not_clears rfl, BinDeed.into]
  split
  · rfl
  · exact List.append_nil _

theorem received_pour (s dest src : ι) (xs : List α) (ds : List (BinDeed ι α)) :
    received s (ds ++ [.pour dest src xs]) =
      if src = s then [] else if dest = s then received s ds ++ xs else received s ds := by
  by_cases hs : src = s
  · rw [received_append_of_clears (by simpa [BinDeed.clears] using hs), if_pos hs]
  · rw [received_append_of_not_clears (by simpa [BinDeed.clears] using hs), if_neg hs, BinDeed.into]
    split
    · rfl
    · exact List.append_nil _

theorem received_empty (s t : ι) (xs : List α) (ds : List (BinDeed ι α)) :
    received s (ds ++ [.empty t xs]) = if t = s then [] else received s ds := by
  by_cases hs : t = s
  · rw [received_append_of_clears (by simpa [BinDeed.clears] using hs), if_pos hs]
  · rw [received_append_of_not_clears (by simpa [BinDeed.clears] using hs), if_neg hs, BinDeed.into,
      List.append_nil]

end Received

/-! ## Each item in one place -/

/-- Every item is in one bin, once, or was taken out, once. -/
structure Accounted {ι α : Type} (bins : ι → List α) (out all : List α) : Prop where
  nodup : ∀ s, (bins s).Nodup
  disjoint : ∀ s t, s ≠ t → (bins s).Disjoint (bins t)
  out_nodup : out.Nodup
  out_disjoint : ∀ s, (bins s).Disjoint out
  mem_iff : ∀ x, x ∈ all ↔ x ∈ out ∨ ∃ s, x ∈ bins s

namespace Accounted

variable {ι α : Type} [DecidableEq ι] {bins : ι → List α} {out all : List α}

omit [DecidableEq ι] in
theorem nil : Accounted (fun _ : ι => ([] : List α)) [] [] :=
  ⟨fun _ => List.nodup_nil, fun _ _ _ => List.disjoint_nil_left _, List.nodup_nil,
    fun _ => List.disjoint_nil_left _, fun x => by simp⟩

omit [DecidableEq ι] in
/-- The bin an item is in is the only one. -/
theorem bin_unique (h : Accounted bins out all) {x : α} {s t : ι} (hs : x ∈ bins s)
    (ht : x ∈ bins t) : s = t := by
  by_contra hne
  exact h.disjoint s t hne hs ht

/-- A new item. -/
theorem put (h : Accounted bins out all) (s : ι) {x : α} (hx : x ∉ all) :
    Accounted (Function.update bins s (bins s ++ [x])) out (all ++ [x]) := by
  have hbin : ∀ t, x ∉ bins t := fun t ht => hx ((h.mem_iff x).mpr (.inr ⟨t, ht⟩))
  have hout : x ∉ out := fun ho => hx ((h.mem_iff x).mpr (.inl ho))
  have hmem : ∀ t y, y ∈ Function.update bins s (bins s ++ [x]) t ↔ y ∈ bins t ∨ t = s ∧ y = x := by
    intro t y
    rcases eq_or_ne t s with rfl | hts
    · simp
    · simp [hts]
  constructor
  case nodup =>
    intro t
    rcases eq_or_ne t s with rfl | hts
    · rw [Function.update_self]
      exact (List.nodup_append.mpr ⟨h.nodup t, List.nodup_singleton x,
        fun a ha b hb hab => hbin t (List.mem_singleton.mp hb ▸ hab ▸ ha)⟩)
    · rw [Function.update_of_ne hts]
      exact h.nodup t
  case disjoint =>
    intro t u htu y hy hy'
    rcases (hmem t y).mp hy with hyt | ⟨rfl, rfl⟩
    · rcases (hmem u y).mp hy' with hyu | ⟨rfl, rfl⟩
      · exact h.disjoint t u htu hyt hyu
      · exact hbin t hyt
    · rcases (hmem u y).mp hy' with hyu | ⟨rfl, _⟩
      · exact hbin u hyu
      · exact htu rfl
  case out_nodup => exact h.out_nodup
  case out_disjoint =>
    intro t y hy hyo
    rcases (hmem t y).mp hy with hyt | ⟨_, rfl⟩
    · exact h.out_disjoint t hyt hyo
    · exact hout hyo
  case mem_iff =>
    intro y
    simp only [hmem, List.mem_append, List.mem_singleton, h.mem_iff y]
    constructor
    · rintro ((ho | ⟨t, ht⟩) | rfl)
      · exact .inl ho
      · exact .inr ⟨t, .inl ht⟩
      · exact .inr ⟨s, .inr ⟨rfl, rfl⟩⟩
    · rintro (ho | ⟨t, ht | ⟨_, rfl⟩⟩)
      · exact .inl (.inl ho)
      · exact .inl (.inr ⟨t, ht⟩)
      · exact .inr rfl

/-- One bin poured into another. -/
theorem pour (h : Accounted bins out all) {dest src : ι} (hne : dest ≠ src) :
    Accounted (Function.update (Function.update bins dest (bins dest ++ bins src)) src []) out
      all := by
  have hmem : ∀ t y, y ∈ Function.update (Function.update bins dest (bins dest ++ bins src)) src [] t ↔
      t ≠ src ∧ (y ∈ bins t ∨ t = dest ∧ y ∈ bins src) := by
    intro t y
    rcases eq_or_ne t src with rfl | hts
    · simp
    · rcases eq_or_ne t dest with rfl | htd
      · simp [hts]
      · simp [hts, htd]
  constructor
  case nodup =>
    intro t
    rcases eq_or_ne t src with rfl | hts
    · rw [Function.update_self]
      exact List.nodup_nil
    · rw [Function.update_of_ne hts]
      rcases eq_or_ne t dest with rfl | htd
      · rw [Function.update_self]
        exact (h.nodup t).append (h.nodup src) (h.disjoint t src hne)
      · rw [Function.update_of_ne htd]
        exact h.nodup t
  case disjoint =>
    intro t u htu y hy hy'
    obtain ⟨hts, hyt | ⟨hdest, hysrc⟩⟩ := (hmem t y).mp hy
    · obtain ⟨hus, hyu | ⟨-, hysrc⟩⟩ := (hmem u y).mp hy'
      · exact h.disjoint t u htu hyt hyu
      · exact h.disjoint t src hts hyt hysrc
    · obtain ⟨hus, hyu | ⟨hdest', -⟩⟩ := (hmem u y).mp hy'
      · exact h.disjoint u src hus hyu hysrc
      · exact htu (hdest.trans hdest'.symm)
  case out_nodup => exact h.out_nodup
  case out_disjoint =>
    intro t y hy hyo
    obtain ⟨-, hy | ⟨-, hy⟩⟩ := (hmem t y).mp hy
    · exact h.out_disjoint t hy hyo
    · exact h.out_disjoint src hy hyo
  case mem_iff =>
    intro y
    simp only [hmem, h.mem_iff y]
    constructor
    · rintro (ho | ⟨t, ht⟩)
      · exact .inl ho
      · rcases eq_or_ne t src with rfl | hts
        · exact .inr ⟨dest, hne, .inr ⟨rfl, ht⟩⟩
        · exact .inr ⟨t, hts, .inl ht⟩
    · rintro (ho | ⟨t, -, ht | ⟨-, ht⟩⟩)
      · exact .inl ho
      · exact .inr ⟨t, ht⟩
      · exact .inr ⟨src, ht⟩

/-- A bin emptied. -/
theorem empty (h : Accounted bins out all) (s : ι) :
    Accounted (Function.update bins s []) (out ++ bins s) all := by
  have hmem : ∀ t y, y ∈ Function.update bins s [] t ↔ t ≠ s ∧ y ∈ bins t := by
    intro t y
    rcases eq_or_ne t s with rfl | hts
    · simp
    · simp [hts]
  constructor
  case nodup =>
    intro t
    rcases eq_or_ne t s with rfl | hts
    · rw [Function.update_self]
      exact List.nodup_nil
    · rw [Function.update_of_ne hts]
      exact h.nodup t
  case disjoint =>
    intro t u htu y hy hy'
    exact h.disjoint t u htu ((hmem t y).mp hy).2 ((hmem u y).mp hy').2
  case out_nodup => exact h.out_nodup.append (h.nodup s) fun y hyo hys => h.out_disjoint s hys hyo
  case out_disjoint =>
    intro t y hy hyo
    obtain ⟨hts, hy⟩ := (hmem t y).mp hy
    rcases List.mem_append.mp hyo with hyo | hyo
    · exact h.out_disjoint t hy hyo
    · exact h.disjoint t s hts hy hyo
  case mem_iff =>
    intro y
    simp only [hmem, h.mem_iff y, List.mem_append]
    constructor
    · rintro (ho | ⟨t, ht⟩)
      · exact .inl (.inl ho)
      · rcases eq_or_ne t s with rfl | hts
        · exact .inl (.inr ht)
        · exact .inr ⟨t, hts, ht⟩
    · rintro ((ho | hs) | ⟨t, -, ht⟩)
      · exact .inl ho
      · exact .inr ⟨s, hs⟩
      · exact .inr ⟨t, ht⟩

end Accounted

end Base
