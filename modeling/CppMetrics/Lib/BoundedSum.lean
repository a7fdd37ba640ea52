import Mathlib.Algebra.BigOperators.Group.List.Basic
import Mathlib.Algebra.Order.BigOperators.Group.List
import Mathlib.Algebra.Order.Group.Defs
import Mathlib.Data.List.Monad

/-! Sums in a bounded accumulator: an addition whose result is out of range fails, and so do all
after it. The order of the summands matters; for sorted ones the bound is on two sums. -/

namespace BoundedSum

variable {M : Type*} [AddCommGroup M] [LinearOrder M]

def add (lo hi acc x : M) : Option M :=
  if lo ≤ acc + x ∧ acc + x ≤ hi then some (acc + x) else none

def sum (lo hi acc : M) (xs : List M) : Option M := xs.foldlM (add lo hi) acc

variable {lo hi acc total x : M} {xs : List M}

theorem sum_cons :
    sum lo hi acc (x :: xs) = (add lo hi acc x).bind fun acc => sum lo hi acc xs := by
  rw [sum, List.foldlM_cons]
  rfl

theorem sum_cons_eq_some : sum lo hi acc (x :: xs) = some total ↔
    (lo ≤ acc + x ∧ acc + x ≤ hi) ∧ sum lo hi (acc + x) xs = some total := by
  rw [sum_cons]
  by_cases hrange : lo ≤ acc + x ∧ acc + x ≤ hi
  · rw [add, if_pos hrange, Option.bind_some, and_iff_right hrange]
  · rw [add, if_neg hrange, Option.bind_none]
    exact ⟨fun h => (nomatch h), fun h => absurd h.1 hrange⟩

theorem eq_add_sum_of_eq_some (h : sum lo hi acc xs = some total) : total = acc + xs.sum := by
  induction xs generalizing acc with
  | nil =>
    rw [List.sum_nil, add_zero]
    exact (Option.some.inj h).symm
  | cons x xs ih =>
    rw [List.sum_cons, ← add_assoc]
    exact ih (sum_cons_eq_some.mp h).2

variable [IsOrderedAddMonoid M]

/-- Sorted summands fall to the sum of the negative ones and rise from there to the last sum. -/
theorem sum_eq_some_iff (hsorted : xs.Pairwise (· ≤ ·)) (hacc : lo ≤ acc ∧ acc ≤ hi) :
    (∃ total, sum lo hi acc xs = some total) ↔
      lo ≤ acc + (xs.map (min 0)).sum ∧ acc + xs.sum ≤ hi := by
  induction xs generalizing acc with
  | nil =>
    rw [List.map_nil, List.sum_nil, add_zero]
    exact ⟨fun _ => hacc, fun _ => ⟨acc, rfl⟩⟩
  | cons x xs ih =>
    have hge : ∀ y ∈ xs, x ≤ y := fun y => List.rel_of_pairwise_cons hsorted
    have htail (hin : lo ≤ acc + x ∧ acc + x ≤ hi) := ih hsorted.of_cons hin
    have hstep : (∃ total, sum lo hi acc (x :: xs) = some total) ↔
        (lo ≤ acc + x ∧ acc + x ≤ hi) ∧ ∃ total, sum lo hi (acc + x) xs = some total := by
      simp only [sum_cons_eq_some, exists_and_left]
    have hsum : acc + (x :: xs).sum = acc + x + xs.sum := by rw [List.sum_cons, add_assoc]
    have hmin : acc + ((x :: xs).map (min 0)).sum = acc + min 0 x + (xs.map (min 0)).sum := by
      rw [List.map_cons, List.sum_cons, add_assoc]
    rw [hstep, hsum, hmin]
    rcases le_total x 0 with hneg | hpos
    · -- the sum goes down, and must not fall below `lo` before the last negative summand
      have hlow : (xs.map (min 0)).sum ≤ 0 := by
        have hcard := List.sum_le_card_nsmul (xs.map (min 0)) 0
        rw [nsmul_zero] at hcard
        apply hcard
        intro y hy
        obtain ⟨z, _, rfl⟩ := List.mem_map.mp hy
        exact min_le_left 0 z
      rw [min_eq_right hneg]
      constructor
      · intro h
        exact (htail h.1).mp h.2
      · intro h
        have hin : lo ≤ acc + x ∧ acc + x ≤ hi :=
          ⟨h.1.trans (add_le_of_nonpos_right hlow), (add_le_of_nonpos_right hneg).trans hacc.2⟩
        exact ⟨hin, (htail hin).mpr h⟩
    · -- the sum goes up to the end
      have hzero : (xs.map (min 0)).sum = 0 := by
        apply List.sum_eq_zero
        intro y hy
        obtain ⟨z, hz, rfl⟩ := List.mem_map.mp hy
        exact min_eq_left (hpos.trans (hge z hz))
      have hup : 0 ≤ xs.sum := List.sum_nonneg fun y hy => hpos.trans (hge y hy)
      rw [hzero, add_zero] at htail
      rw [min_eq_left hpos, hzero, add_zero, add_zero]
      constructor
      · intro h
        exact ⟨hacc.1, ((htail h.1).mp h.2).2⟩
      · intro h
        have hin : lo ≤ acc + x ∧ acc + x ≤ hi :=
          ⟨hacc.1.trans (le_add_of_nonneg_right hpos), (le_add_of_nonneg_right hup).trans h.2⟩
        exact ⟨hin, (htail hin).mpr ⟨hin.1, h.2⟩⟩

end BoundedSum
