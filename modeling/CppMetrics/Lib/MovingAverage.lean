import Mathlib.Algebra.BigOperators.Intervals
import Mathlib.Analysis.Convex.Basic
import Mathlib.LinearAlgebra.AffineSpace.AffineMap

/-! Exponentially weighted averages of a sequence that is numbered from one: the first observation
is taken as it is, and each later one moves the average a fixed part of the way towards it. -/

namespace MovingAverage

variable {K E : Type*} [Field K] [AddCommGroup E] [Module K E]

def average (a : K) (r : ℕ → E) : ℕ → E
  | 0 => 0
  | 1 => r 1
  | m + 2 => AffineMap.lineMap (average a r (m + 1)) (r (m + 2)) a

variable {a : K} {r s : ℕ → E} {m : ℕ}

theorem average_succ (hm : 1 ≤ m) :
    average a r (m + 1) = AffineMap.lineMap (average a r m) (r (m + 1)) a := by
  obtain ⟨m, rfl⟩ := Nat.exists_eq_add_of_le' hm
  rfl

theorem average_congr (h : ∀ i ∈ Finset.Icc 1 m, r i = s i) : average a r m = average a s m := by
  induction m with
  | zero => rfl
  | succ m ih =>
    have hlast : r (m + 1) = s (m + 1) := h _ (Finset.mem_Icc.mpr ⟨Nat.le_add_left 1 m, le_rfl⟩)
    have hbefore := ih fun i hi => h i (Finset.Icc_subset_Icc_right (Nat.le_succ m) hi)
    cases m with
    | zero => exact hlast
    | succ m => rw [average_succ m.succ_pos, average_succ m.succ_pos, hlast, hbefore]

/-- The weight of an observation falls by the same factor with each later one. -/
theorem average_eq_sum (hm : 1 ≤ m) :
    average a r m =
      (1 - a) ^ (m - 1) • r 1 + ∑ i ∈ Finset.Icc 2 m, (a * (1 - a) ^ (m - i)) • r i := by
  induction m, hm using Nat.le_induction with
  | base =>
    rw [Finset.Icc_eq_empty (by decide), Finset.sum_empty, Nat.sub_self, pow_zero, one_smul,
      add_zero]
    rfl
  | succ m hm ih =>
    have hfirst : (1 - a) ^ (m + 1 - 1) = (1 - a) * (1 - a) ^ (m - 1) := by
      rw [← pow_succ', Nat.sub_add_cancel hm, Nat.add_sub_cancel]
    have hweights : ∀ i ∈ Finset.Icc 2 m, (a * (1 - a) ^ (m + 1 - i)) • r i =
        (1 - a) • (a * (1 - a) ^ (m - i)) • r i := by
      intro i hi
      rw [Nat.succ_sub (Finset.mem_Icc.mp hi).2, pow_succ, smul_smul]
      congr 1
      ring
    have hlast : a * (1 - a) ^ (m + 1 - (m + 1)) = a := by rw [Nat.sub_self, pow_zero, mul_one]
    rw [average_succ hm, ih, AffineMap.lineMap_apply_module,
      Finset.sum_Icc_succ_top (Nat.succ_le_succ hm), Finset.sum_congr rfl hweights,
      ← Finset.smul_sum, hfirst, hlast, smul_add, smul_smul, add_assoc]

theorem average_mem [LinearOrder K] [IsStrictOrderedRing K] {t : Set E} (ht : Convex K t)
    (ha : a ∈ Set.Icc (0 : K) 1) (hm : 1 ≤ m) (h : ∀ i ∈ Finset.Icc 1 m, r i ∈ t) :
    average a r m ∈ t := by
  induction m, hm using Nat.le_induction with
  | base => exact h 1 (Finset.mem_Icc.mpr ⟨le_rfl, le_rfl⟩)
  | succ m hm ih =>
    have hlast : r (m + 1) ∈ t := h _ (Finset.mem_Icc.mpr ⟨Nat.le_add_left 1 m, le_rfl⟩)
    have hbefore := ih fun i hi => h i (Finset.Icc_subset_Icc_right (Nat.le_succ m) hi)
    rw [average_succ hm]
    exact ht.lineMap_mem hbefore hlast ha

theorem average_add (j : ℕ) (h : ∀ i ∈ Finset.Icc (m + 1) (m + j), r i = 0) :
    average a r (m + j) = (1 - a) ^ j • average a r m := by
  induction j with
  | zero => rw [pow_zero, one_smul, add_zero]
  | succ j ih =>
    have hlast : r (m + j + 1) = 0 := h _ (Finset.mem_Icc.mpr ⟨by omega, le_rfl⟩)
    have hbefore := ih fun i hi => h i (Finset.Icc_subset_Icc_right (Nat.le_succ _) hi)
    rcases Nat.eq_zero_or_pos (m + j) with hzero | hpos
    · obtain ⟨rfl, rfl⟩ := Nat.add_eq_zero_iff.mp hzero
      exact hlast.trans (smul_zero _).symm
    · rw [← Nat.add_assoc, average_succ hpos, hlast, hbefore, AffineMap.lineMap_apply_module,
        smul_zero, add_zero, smul_smul, pow_succ']

end MovingAverage
