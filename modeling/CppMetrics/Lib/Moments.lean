import Mathlib.Algebra.Order.BigOperators.Group.List
import Mathlib.Algebra.Order.Field.Basic
import Mathlib.Data.Nat.Cast.Order.Field

/-! The mean of a list of numbers, and their sample variance. -/

namespace Moments

variable {K : Type*} [Field K]

def mean (xs : List K) : K := xs.sum / xs.length

def squares (xs : List K) : K := (xs.map fun x => (x - mean xs) ^ 2).sum

def variance (xs : List K) : K := squares xs / (xs.length - 1 : ℕ)

variable {xs ys : List K}

theorem mean_perm (h : xs.Perm ys) : mean xs = mean ys := by
  rw [mean, mean, h.sum_eq, h.length_eq]

theorem squares_perm (h : xs.Perm ys) : squares xs = squares ys := by
  rw [squares, squares, mean_perm h]
  exact (h.map _).sum_eq

theorem variance_perm (h : xs.Perm ys) : variance xs = variance ys := by
  rw [variance, variance, squares_perm h, h.length_eq]

variable [LinearOrder K] [IsStrictOrderedRing K]

theorem length_pos (hne : xs ≠ []) : (0 : K) < xs.length :=
  Nat.cast_pos.mpr (List.length_pos_iff.mpr hne)

theorem le_mean {lower : K} (hne : xs ≠ []) (h : ∀ x ∈ xs, lower ≤ x) : lower ≤ mean xs := by
  have hsum := List.card_nsmul_le_sum xs lower h
  rw [nsmul_eq_mul] at hsum
  rw [mean, le_div_iff₀ (length_pos hne), mul_comm]
  exact hsum

theorem mean_le {upper : K} (hne : xs ≠ []) (h : ∀ x ∈ xs, x ≤ upper) : mean xs ≤ upper := by
  have hsum := List.sum_le_card_nsmul xs upper h
  rw [nsmul_eq_mul] at hsum
  rw [mean, div_le_iff₀ (length_pos hne), mul_comm]
  exact hsum

theorem mean_map_add (hne : xs ≠ []) (c : K) : mean (xs.map (· + c)) = mean xs + c := by
  have hlen : (xs.length : K) ≠ 0 := (length_pos hne).ne'
  have hsum : (xs.map (· + c)).sum = xs.sum + xs.length * c := by
    rw [List.sum_map_add, List.map_id', List.map_const', List.sum_replicate, nsmul_eq_mul]
  rw [mean, mean, List.length_map, hsum, add_div, mul_div_cancel_left₀ c hlen]

theorem squares_map_add (c : K) : squares (xs.map (· + c)) = squares xs := by
  rcases eq_or_ne xs [] with rfl | hne
  · rfl
  rw [squares, squares, mean_map_add hne, List.map_map]
  congr 2
  funext x
  rw [Function.comp_apply, add_sub_add_right_eq_sub]

theorem variance_map_add (c : K) : variance (xs.map (· + c)) = variance xs := by
  rw [variance, variance, squares_map_add, List.length_map]

theorem square_nonneg : ∀ y ∈ xs.map fun x => (x - mean xs) ^ 2, 0 ≤ y := by
  intro y hy
  obtain ⟨x, _, rfl⟩ := List.mem_map.mp hy
  exact sq_nonneg _

theorem squares_nonneg : 0 ≤ squares xs := List.sum_nonneg square_nonneg

theorem variance_nonneg : 0 ≤ variance xs := div_nonneg squares_nonneg (Nat.cast_nonneg _)

theorem squares_eq_zero_iff : squares xs = 0 ↔ ∀ x ∈ xs, ∀ y ∈ xs, x = y := by
  constructor
  · intro h
    have hmean : ∀ x ∈ xs, x = mean xs := by
      intro x hx
      have hzero : (x - mean xs) ^ 2 = 0 := by
        exact List.all_zero_of_le_zero_le_of_sum_eq_zero square_nonneg h (List.mem_map_of_mem hx)
      exact sub_eq_zero.mp (pow_eq_zero_iff two_ne_zero |>.mp hzero)
    intro x hx y hy
    rw [hmean x hx, hmean y hy]
  · intro h
    apply List.sum_eq_zero
    intro z hz
    obtain ⟨x, hx, rfl⟩ := List.mem_map.mp hz
    have hne : xs ≠ [] := List.ne_nil_of_mem hx
    have hlower : x ≤ mean xs := le_mean hne fun y hy => (h x hx y hy).le
    have hupper : mean xs ≤ x := mean_le hne fun y hy => (h y hy x hx).le
    rw [le_antisymm hlower hupper, sub_self, zero_pow two_ne_zero]

theorem variance_eq_zero_iff (hlen : 2 ≤ xs.length) :
    variance xs = 0 ↔ ∀ x ∈ xs, ∀ y ∈ xs, x = y := by
  have hden : ((xs.length - 1 : ℕ) : K) ≠ 0 := Nat.cast_ne_zero.mpr (Nat.sub_ne_zero_of_lt hlen)
  rw [variance, div_eq_zero_iff, or_iff_left hden, squares_eq_zero_iff]

end Moments
