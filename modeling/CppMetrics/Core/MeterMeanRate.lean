import Mathlib.Algebra.Order.Field.Basic
import CppMetrics.Core.MeterLedger

/-! The mean rate over the whole life of a meter. The count is multiplied by the rate unit before
the conversion to `double`, and so in an unsigned integer of 64 bits. -/

namespace CppMetrics.Meter

variable {K : Type*} [Field K] {A : EWMA.Alphas K} {rateUnit : Int64} {start now : UInt64}

/-! ### The count of a run -/

structure Counts (m : Meter (EWMA K)) (rateUnit : Int64) (start : UInt64) (n : ℕ) : Prop where
  rateUnit : m.rateUnit = rateUnit
  startTime : m.startTime = start
  count : m.count.toNat = n % 2 ^ 64

variable {m : Meter (EWMA K)} {n : ℕ}

theorem counts_create (A : EWMA.Alphas K) (rateUnit : Int64) (start : UInt64) :
    Counts (create A rateUnit start) rateUnit start 0 := ⟨rfl, rfl, rfl⟩

theorem Counts.tickIfNecessary (h : Counts m rateUnit start n) (now : UInt64) :
    Counts (m.tickIfNecessary now) rateUnit start n where
  rateUnit := (m.tickIfNecessary_rateUnit now).trans h.rateUnit
  startTime := (m.tickIfNecessary_startTime now).trans h.startTime
  count := (congrArg UInt64.toNat (m.tickIfNecessary_count now)).trans h.count

theorem Counts.mark (h : Counts m rateUnit start n) (k now : UInt64) :
    Counts (m.mark k now) rateUnit start (n + k.toNat) where
  rateUnit := (m.tickIfNecessary_rateUnit now).trans h.rateUnit
  startTime := (m.tickIfNecessary_startTime now).trans h.startTime
  count := by
    rw [mark_count, UInt64.toNat_add, h.count, Nat.mod_add_mod]

theorem counts_performAll (cs : List TimedCall) (h : Counts m rateUnit start n) :
    Counts (m.performAll cs) rateUnit start (n + total (marks cs)) := by
  induction cs generalizing m n with
  | nil => exact h
  | cons c cs ih =>
    obtain ⟨time, call⟩ := c
    cases call with
    | mark k =>
      have htotal : total (marks (⟨time, .mark k⟩ :: cs)) = k.toNat + total (marks cs) := by
        show total (⟨time, k⟩ :: marks cs) = _
        rw [total, List.map_cons, List.sum_cons, total]
      rw [htotal, ← Nat.add_assoc]
      exact ih (h.mark k time)
    | getRate r => exact ih (h.tickIfNecessary time)

/-! ### The mean rate of a run -/

def meanRateAfter (A : EWMA.Alphas K) (rateUnit : Int64) (start now : UInt64)
    (cs : List TimedCall) : K :=
  ((create A rateUnit start).performAll cs).getMeanRate now

def elapsed (start now : UInt64) : ℤ := now.toNat - start.toNat

theorem rateUnit_toNat (hunit : 0 < rateUnit.toInt) :
    (rateUnit.toUInt64.toNat : ℤ) = rateUnit.toInt := by
  rw [toNat_toUInt64]
  exact Int.emod_eq_of_lt hunit.le (rateUnit.toInt_lt.trans (by decide))

theorem meanRateAfter_eq {cs : List TimedCall} (hpos : 1 ≤ total (marks cs))
    (hlt : total (marks cs) < 2 ^ 64) (A : EWMA.Alphas K) (rateUnit : Int64) (start now : UInt64) :
    meanRateAfter A rateUnit start now cs =
      ((total (marks cs) * rateUnit.toUInt64.toNat % 2 ^ 64 : ℕ) : K) / elapsed start now := by
  have h := counts_performAll cs (counts_create A rateUnit start)
  have hcount := h.count
  rw [Nat.zero_add, Nat.mod_eq_of_lt hlt] at hcount
  have hcounted : ((create A rateUnit start).performAll cs).count > 0 := by
    rw [gt_iff_lt, UInt64.lt_iff_toNat_lt, hcount]
    exact hpos
  rw [meanRateAfter, getMeanRate]
  dsimp only
  rw [if_pos hcounted, h.startTime, UInt64.toNat_mul, hcount, h.rateUnit, elapsed]

structure ExactMean [LinearOrder K] (A : EWMA.Alphas K) (rateUnit : Int64) (start now : UInt64)
    (cs : List TimedCall) : Prop where
  exact : meanRateAfter A rateUnit start now cs =
    (total (marks cs) : K) * (rateUnit.toInt : K) / (elapsed start now : K)
  positive : 0 < meanRateAfter A rateUnit start now cs
  monotone : ∀ cs', 1 ≤ total (marks cs') → total (marks cs') ≤ total (marks cs) →
    meanRateAfter A rateUnit start now cs' ≤ meanRateAfter A rateUnit start now cs

theorem fits_iff_toNat (hunit : 0 < rateUnit.toInt) (c : ℕ) :
    c * rateUnit.toInt < 2 ^ 64 ↔ c * rateUnit.toUInt64.toNat < 2 ^ 64 := by
  rw [← rateUnit_toNat hunit]
  exact_mod_cast Iff.rfl

theorem cast_product (hunit : 0 < rateUnit.toInt) (c : ℕ) :
    ((c * rateUnit.toUInt64.toNat : ℕ) : K) = (c : K) * (rateUnit.toInt : K) := by
  rw [← rateUnit_toNat hunit, Int.cast_natCast, Nat.cast_mul]

theorem meanRateAfter_of_fits {cs : List TimedCall} (hpos : 1 ≤ total (marks cs))
    (hlt : total (marks cs) < 2 ^ 64) (hunit : 0 < rateUnit.toInt)
    (hfits : total (marks cs) * rateUnit.toInt < 2 ^ 64) :
    meanRateAfter A rateUnit start now cs =
      (total (marks cs) : K) * (rateUnit.toInt : K) / (elapsed start now : K) := by
  have hproduct := (fits_iff_toNat hunit _).mp hfits
  rw [meanRateAfter_eq hpos hlt, Nat.mod_eq_of_lt hproduct, cast_product hunit]

variable [LinearOrder K] [IsStrictOrderedRing K] {cs : List TimedCall}

theorem elapsed_pos (hnow : start < now) : (0 : K) < (elapsed start now : K) := by
  have hlt : start.toNat < now.toNat := UInt64.lt_iff_toNat_lt.mp hnow
  exact Int.cast_pos.mpr (Int.sub_pos.mpr (Int.ofNat_lt.mpr hlt))

theorem fits_of_exact (hpos : 1 ≤ total (marks cs)) (hlt : total (marks cs) < 2 ^ 64)
    (hunit : 0 < rateUnit.toInt) (hnow : start < now)
    (hexact : meanRateAfter A rateUnit start now cs =
      (total (marks cs) : K) * (rateUnit.toInt : K) / (elapsed start now : K)) :
    total (marks cs) * rateUnit.toInt < 2 ^ 64 := by
  rw [meanRateAfter_eq hpos hlt, ← cast_product hunit, div_left_inj' (elapsed_pos hnow).ne',
    Nat.cast_inj] at hexact
  rw [fits_iff_toNat hunit, ← hexact]
  exact Nat.mod_lt _ (by decide)

theorem getMeanRate_exact_iff (A : EWMA.Alphas K) (rateUnit : Int64) (start now : UInt64)
    (cs : List TimedCall) (hpos : 1 ≤ total (marks cs)) (hlt : total (marks cs) < 2 ^ 64)
    (hunit : 0 < rateUnit.toInt) (hnow : start < now) :
    ExactMean A rateUnit start now cs ↔ total (marks cs) * rateUnit.toInt < 2 ^ 64 := by
  have helapsed : (0 : K) < (elapsed start now : K) := elapsed_pos hnow
  have hunitpos : (0 : K) < (rateUnit.toInt : K) := Int.cast_pos.mpr hunit
  refine ⟨fun h => fits_of_exact hpos hlt hunit hnow h.exact, fun hfits => ?_⟩
  have hexact : meanRateAfter A rateUnit start now cs = _ :=
    meanRateAfter_of_fits hpos hlt hunit hfits
  constructor
  case exact => exact hexact
  case positive =>
    rw [hexact]
    exact div_pos (mul_pos (Nat.cast_pos.mpr hpos) hunitpos) helapsed
  case monotone =>
    intro cs' hpos' hle
    have hfits' : total (marks cs') * rateUnit.toInt < 2 ^ 64 :=
      (mul_le_mul_of_nonneg_right (Int.ofNat_le.mpr hle) hunit.le).trans_lt hfits
    rw [hexact, meanRateAfter_of_fits hpos' (hle.trans_lt hlt) hunit hfits']
    apply div_le_div_of_nonneg_right _ helapsed.le
    exact mul_le_mul_of_nonneg_right (Nat.cast_le.mpr hle) hunitpos.le

def manyMarks : List TimedCall := [⟨0, .mark 18446744074⟩]

theorem getMeanRate_exact_iff_manyMarks :
    (1 ≤ total (marks manyMarks) ∧ total (marks manyMarks) < 2 ^ 64 ∧
      0 < (1000000000 : Int64).toInt ∧ (0 : UInt64) < 1) ∧
    (ExactMean (K := ℚ) ⟨1 / 2, 1 / 2, 1 / 2⟩ 1000000000 0 1 manyMarks ↔
      total (marks manyMarks) * (1000000000 : Int64).toInt < 2 ^ 64) :=
  ⟨by decide, getMeanRate_exact_iff _ _ _ _ _ (by decide) (by decide) (by decide) (by decide)⟩

theorem getMeanRate_wraps :
    1 ≤ total (marks manyMarks) ∧ total (marks manyMarks) < 2 ^ 64 ∧
      ¬ExactMean (K := ℚ) ⟨1 / 2, 1 / 2, 1 / 2⟩ 1000000000 0 1 manyMarks := by
  refine ⟨by decide, by decide, fun h => ?_⟩
  have hfits := fits_of_exact (by decide) (by decide) (by decide) (by decide) h.exact
  exact absurd hfits (by decide)

end CppMetrics.Meter
