import Mathlib.Algebra.BigOperators.Group.List.Basic
import Mathlib.Data.Set.Disjoint
import Mathlib.Data.Set.Lattice
import Mathlib.Data.UInt
import Mathlib.Order.CompletePartialOrder
import Mathlib.Order.Interval.Set.Basic

/-!
# Consecutive regions

Memory is handed out from the start of a buffer, one region behind the other.  Such regions do not
overlap, and together they take up what lies between the first and the end of the last.
-/

namespace Base

/-- A part of a buffer. -/
structure Region where
  start : Nat
  len : Nat
deriving DecidableEq

namespace Region

/-- The offset behind a region. -/
def stop (r : Region) : Nat := r.start + r.len

/-- The offsets of its bytes. -/
def bytes (r : Region) : Set Nat := Set.Ico r.start r.stop

/-- How much a list of regions takes. -/
def total (rs : List Region) : Nat := (rs.map len).sum

@[simp] theorem total_nil : total [] = 0 := rfl

@[simp] theorem total_cons (r : Region) (rs : List Region) : total (r :: rs) = r.len + total rs :=
  List.sum_cons

@[simp] theorem total_append (rs rs' : List Region) : total (rs ++ rs') = total rs + total rs' := by
  rw [total, List.map_append, List.sum_append]
  rfl

/-- Each region begins where the one before it ends, the first at an offset. -/
def Consecutive : Nat → List Region → Prop
  | _, [] => True
  | off, r :: rs => r.start = off ∧ Consecutive r.stop rs

theorem consecutive_append_singleton {off : Nat} {rs : List Region} {r : Region} :
    Consecutive off (rs ++ [r]) ↔ Consecutive off rs ∧ r.start = off + total rs := by
  induction rs generalizing off with
  | nil => simp [Consecutive]
  | cons r' rs ih =>
    rw [List.cons_append, Consecutive, Consecutive, ih, total_cons, and_assoc]
    refine and_congr_right fun hstart => and_congr_right fun _ => ?_
    rw [stop, hstart, Nat.add_assoc]

/-- No region begins before the offset. -/
theorem Consecutive.le_start {off : Nat} {rs : List Region} (h : Consecutive off rs) :
    ∀ r ∈ rs, off ≤ r.start := by
  induction rs generalizing off with
  | nil => exact fun r hr => absurd hr List.not_mem_nil
  | cons r' rs ih =>
    intro r hr
    rcases List.mem_cons.mp hr with rfl | hr
    · exact h.1.ge
    · calc
        off = r'.start := h.1.symm
        _ ≤ r'.stop := Nat.le_add_right _ _
        _ ≤ r.start := ih h.2 r hr

/-- Consecutive regions do not overlap. -/
theorem Consecutive.pairwise_disjoint {off : Nat} {rs : List Region} (h : Consecutive off rs) :
    rs.Pairwise fun r r' => Disjoint r.bytes r'.bytes := by
  induction rs generalizing off with
  | nil => exact List.Pairwise.nil
  | cons r rs ih =>
    refine List.Pairwise.cons (fun r' hr' => ?_) (ih h.2)
    rw [Set.disjoint_left]
    intro b hb hb'
    have hle : r.stop ≤ r'.start := h.2.le_start r' hr'
    exact absurd (hb'.1.trans_lt hb.2) (Nat.not_lt.mpr hle)

/-- Consecutive regions that end within a bound take no more than there is. -/
theorem Consecutive.total_le {off bound : Nat} {rs : List Region} (h : Consecutive off rs)
    (hoff : off ≤ bound) (hstop : ∀ r ∈ rs, r.stop ≤ bound) : off + total rs ≤ bound := by
  induction rs generalizing off with
  | nil => exact hoff
  | cons r rs ih =>
    have hrest := ih h.2 (hstop r List.mem_cons_self) fun r' hr' =>
      hstop r' (List.mem_cons_of_mem r hr')
    rw [stop, h.1] at hrest
    rw [total_cons]
    omega

end Region

end Base
