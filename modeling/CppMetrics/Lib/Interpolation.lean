import Mathlib.Algebra.Order.Floor.Ring
import Mathlib.Data.Int.ConditionallyCompleteOrder
import Mathlib.Tactic.Linarith
import Mathlib.Tactic.Ring

/-! Linear interpolation between the values of a sequence on the integers. -/

namespace Interpolation

variable {K : Type*} [Field K] [LinearOrder K] [IsStrictOrderedRing K] [FloorRing K]

def linear (x : ℤ → K) (p : K) : K := x ⌊p⌋ + (p - ⌊p⌋) * (x (⌊p⌋ + 1) - x ⌊p⌋)

variable {x : ℤ → K} {p q : K}

omit [IsStrictOrderedRing K] in
theorem linear_of_eq (h : x (⌊p⌋ + 1) = x ⌊p⌋) : linear x p = x ⌊p⌋ := by
  rw [linear, h, sub_self, mul_zero, add_zero]

theorem linear_intCast (x : ℤ → K) (k : ℤ) : linear x k = x k := by
  rw [linear, Int.floor_intCast, sub_self, zero_mul, add_zero]

theorem le_linear (hx : Monotone x) (p : K) : x ⌊p⌋ ≤ linear x p := by
  have hstep : x ⌊p⌋ ≤ x (⌊p⌋ + 1) := hx (Int.le_add_one le_rfl)
  have hfract : 0 ≤ p - ⌊p⌋ := sub_nonneg.mpr (Int.floor_le p)
  rw [linear, le_add_iff_nonneg_right]
  exact mul_nonneg hfract (sub_nonneg.mpr hstep)

theorem linear_le (hx : Monotone x) (p : K) : linear x p ≤ x (⌊p⌋ + 1) := by
  have hstep : x ⌊p⌋ ≤ x (⌊p⌋ + 1) := hx (Int.le_add_one le_rfl)
  have hfract : p - ⌊p⌋ ≤ 1 := by
    have hlt := Int.lt_floor_add_one p
    linarith
  have hmul := mul_le_mul_of_nonneg_right hfract (sub_nonneg.mpr hstep)
  rw [one_mul] at hmul
  rw [linear]
  linarith

theorem linear_monotone (hx : Monotone x) : Monotone (linear x) := by
  intro p q hpq
  rcases (Int.floor_mono hpq).eq_or_lt with heq | hlt
  · -- within one segment
    have hstep : x ⌊q⌋ ≤ x (⌊q⌋ + 1) := hx (Int.le_add_one le_rfl)
    rw [linear, linear, heq]
    have hfract : p - ⌊q⌋ ≤ q - ⌊q⌋ := sub_le_sub_right hpq _
    exact add_le_add le_rfl (mul_le_mul_of_nonneg_right hfract (sub_nonneg.mpr hstep))
  · calc linear x p ≤ x (⌊p⌋ + 1) := linear_le hx p
      _ ≤ x ⌊q⌋ := hx hlt
      _ ≤ linear x q := le_linear hx q

theorem linear_reflect (x : ℤ → K) (c : ℤ) (p : K) :
    linear (fun i => -x (c - i)) (c - p) = -linear x p := by
  by_cases hint : p = ⌊p⌋
  · -- both positions are integers
    have hreflect : (c : K) - p = ((c - ⌊p⌋ : ℤ) : K) := by
      rw [Int.cast_sub, ← hint]
    rw [hreflect, linear_intCast, sub_sub_cancel]
    conv_rhs => rw [hint, linear_intCast]
  · have hfloor : ⌊(c : K) - p⌋ = c - ⌊p⌋ - 1 := by
      have hle := Int.floor_le p
      have hlt := Int.lt_floor_add_one p
      have hne : (⌊p⌋ : K) < p := lt_of_le_of_ne hle fun h => hint h.symm
      rw [Int.floor_eq_iff]
      push_cast
      constructor <;> linarith
    have hupper : c - (c - ⌊p⌋ - 1) = ⌊p⌋ + 1 := by ring
    have hlower : c - (c - ⌊p⌋ - 1 + 1) = ⌊p⌋ := by ring
    unfold linear
    rw [hfloor]
    dsimp only
    rw [hupper, hlower]
    push_cast
    ring

end Interpolation
