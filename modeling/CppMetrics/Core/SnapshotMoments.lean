import Mathlib.Analysis.SpecialFunctions.Pow.NNReal
import CppMetrics.Core.SnapshotQuantiles
import CppMetrics.Lib.BoundedSum
import CppMetrics.Lib.Moments

/-! The mean and the standard deviation of a snapshot. The sum is kept in a signed integer of 64
bits: an addition that does not fit has no defined result. Doubles are exact. -/

namespace CppMetrics.Snapshot

/-- `a + b` on `boost::int64_t`. -/
def addSigned (a b : Int64) : Option Int64 :=
  if (a + b).toInt = a.toInt + b.toInt then some (a + b) else none

section

variable {K : Type*} [Field K]

def getMean (s : Snapshot) : Option K :=
  if s.values.isEmpty then
    some 0
  else
    (s.values.foldlM addSigned 0).map fun mean => (mean.toInt : K) / (s.values.length : K)

def getStdDev (sqrt : K → K) (s : Snapshot) : Option K :=
  let valuesSize := s.values.length
  if valuesSize ≤ 1 then
    some 0
  else
    s.getMean.map fun meanValue =>
      let sum := s.values.foldl (fun sum value =>
        let diff := (value.toInt : K) - meanValue
        sum + diff * diff) 0
      let variance := sum / ((valuesSize - 1 : ℕ) : K)
      sqrt variance

def reals (vs : ValueVector) : List K := vs.map fun v => (v.toInt : K)

end

/-! ### The sum that is accumulated -/

/-- The values below zero, and all of them, sum to integers of 64 bits. -/
def Fits (vs : ValueVector) : Prop :=
  -2 ^ 63 ≤ ((vs.map Int64.toInt).map (min 0)).sum ∧ (vs.map Int64.toInt).sum ≤ 2 ^ 63 - 1

instance : DecidablePred Fits := fun _ => inferInstanceAs (Decidable (_ ∧ _))

theorem fits_perm {vs ws : ValueVector} (h : ws.Perm vs) : Fits ws ↔ Fits vs := by
  have hints : (ws.map Int64.toInt).Perm (vs.map Int64.toInt) := h.map _
  rw [Fits, Fits, hints.sum_eq, (hints.map (min 0)).sum_eq]

theorem addSigned_toInt (a b : Int64) :
    (addSigned a b).map Int64.toInt = BoundedSum.add (-2 ^ 63) (2 ^ 63 - 1) a.toInt b.toInt := by
  have hexact : (a + b).toInt = a.toInt + b.toInt ↔
      -2 ^ 63 ≤ a.toInt + b.toInt ∧ a.toInt + b.toInt ≤ 2 ^ 63 - 1 := by
    have hlower := Int64.le_toInt (a + b)
    have hupper := Int64.toInt_lt (a + b)
    constructor
    · intro h
      rw [← h]
      exact ⟨hlower, Int.le_sub_one_of_lt hupper⟩
    · intro h
      rw [Int64.toInt_add]
      exact Int.bmod_eq_of_le (by omega) (by omega)
  by_cases h : (a + b).toInt = a.toInt + b.toInt
  · rw [addSigned, BoundedSum.add, if_pos h, if_pos (hexact.mp h), Option.map_some, h]
  · rw [addSigned, BoundedSum.add, if_neg h, if_neg (mt hexact.mpr h), Option.map_none]

theorem foldlM_addSigned (vs : ValueVector) (acc : Int64) :
    (vs.foldlM addSigned acc).map Int64.toInt =
      BoundedSum.sum (-2 ^ 63) (2 ^ 63 - 1) acc.toInt (vs.map Int64.toInt) := by
  induction vs generalizing acc with
  | nil => rfl
  | cons v vs ih =>
    rw [List.map_cons, BoundedSum.sum_cons, ← addSigned_toInt, List.foldlM_cons]
    cases hnext : addSigned acc v with
    | none => rfl
    | some next => exact ih next

theorem fits_iff (s : Snapshot) :
    Fits s.values ↔ ∃ total, s.values.foldlM addSigned 0 = some total := by
  have hbounds : (-2 ^ 63 : ℤ) ≤ 0 ∧ (0 : ℤ) ≤ 2 ^ 63 - 1 := by decide
  have hsorted := BoundedSum.sum_eq_some_iff s.toInt_pairwise hbounds
  have hfold := foldlM_addSigned s.values 0
  rw [zero_add, zero_add] at hsorted
  rw [Fits, ← hsorted]
  constructor
  · rintro ⟨total, htotal⟩
    obtain ⟨sum, hsum, -⟩ := Option.map_eq_some_iff.mp (hfold.trans htotal)
    exact ⟨sum, hsum⟩
  · rintro ⟨total, htotal⟩
    rw [htotal] at hfold
    exact ⟨_, hfold.symm⟩

theorem foldlM_addSigned_toInt {vs : ValueVector} {total : Int64}
    (h : vs.foldlM addSigned 0 = some total) : total.toInt = (vs.map Int64.toInt).sum := by
  have hfold := foldlM_addSigned vs 0
  rw [h] at hfold
  have hsum := BoundedSum.eq_add_sum_of_eq_some hfold.symm
  exact hsum.trans (zero_add _)

section

variable {K : Type*} [Field K]

theorem reals_perm {vs ws : ValueVector} (h : ws.Perm vs) :
    (reals ws : List K).Perm (reals vs) := h.map _

theorem length_reals (vs : ValueVector) : (reals vs : List K).length = vs.length :=
  List.length_map _

theorem sum_reals (vs : ValueVector) :
    (reals vs : List K).sum = ((vs.map Int64.toInt).sum : ℤ) := by
  rw [Int.cast_list_sum, List.map_map]
  rfl

theorem getMean_eq {s : Snapshot} (hfits : Fits s.values) :
    s.getMean = some (Moments.mean (reals s.values : List K)) := by
  rw [getMean, Moments.mean, sum_reals, length_reals]
  split
  next h => rw [List.isEmpty_iff.mp h, List.length_nil, Nat.cast_zero, div_zero]
  next h =>
    obtain ⟨total, htotal⟩ := s.fits_iff.mp hfits
    rw [htotal, Option.map_some, foldlM_addSigned_toInt htotal]

theorem fits_of_getMean {s : Snapshot} {mean : K} (h : s.getMean = some mean) :
    Fits s.values := by
  rw [getMean] at h
  split at h
  next hempty =>
    rw [List.isEmpty_iff.mp hempty]
    decide
  next =>
    obtain ⟨total, htotal, -⟩ := Option.map_eq_some_iff.mp h
    exact s.fits_iff.mpr ⟨total, htotal⟩

theorem sum_squares (vs : ValueVector) (mean : K) :
    vs.foldl (fun sum value =>
      let diff := (value.toInt : K) - mean
      sum + diff * diff) 0 = ((reals vs).map fun x => (x - mean) ^ 2).sum := by
  rw [List.sum_eq_foldl, List.foldl_map, reals, List.foldl_map]
  simp only [sq]

theorem getStdDev_eq (sqrt : K → K) (s : Snapshot) : s.getStdDev sqrt =
    if s.values.length ≤ 1 then some 0
    else (s.getMean (K := K)).map fun _ => sqrt (Moments.variance (reals s.values)) := by
  rw [getStdDev]
  dsimp only
  split
  next => rfl
  next =>
    cases hmean : s.getMean (K := K) with
    | none => rfl
    | some mean =>
      have hexact := getMean_eq (K := K) (fits_of_getMean hmean)
      rw [hmean] at hexact
      rw [Option.map_some, Option.map_some, sum_squares, Moments.variance, Moments.squares,
        length_reals, Option.some.inj hexact]

end

/-! ### What the two functions return -/

noncomputable def deviation (xs : List ℝ) : ℝ :=
  if xs.length ≤ 1 then 0 else √(Moments.variance xs)

theorem deviation_nonneg (xs : List ℝ) : 0 ≤ deviation xs := by
  unfold deviation
  split
  · exact le_rfl
  · exact Real.sqrt_nonneg _

theorem deviation_eq_zero_iff (xs : List ℝ) :
    deviation xs = 0 ↔ ∀ x ∈ xs, ∀ y ∈ xs, x = y := by
  rw [deviation]
  split
  next hlen =>
    refine iff_of_true rfl ?_
    intro x hx y hy
    obtain ⟨z, hz⟩ := List.length_eq_one_iff.mp (hlen.antisymm (List.length_pos_of_mem hx))
    rw [hz, List.mem_singleton] at hx hy
    rw [hx, hy]
  next hlen =>
    rw [Real.sqrt_eq_zero Moments.variance_nonneg]
    exact Moments.variance_eq_zero_iff (not_le.mp hlen)

variable {vs : ValueVector}

theorem getMean_new (hfits : Fits vs) :
    (new vs).getMean = some (Moments.mean (reals vs : List ℝ)) := by
  have hperm : (new vs).values.Perm vs := getValues_new_perm vs
  rw [getMean_eq ((fits_perm hperm).mpr hfits)]
  exact congrArg some (Moments.mean_perm (reals_perm hperm))

theorem getStdDev_new (hfits : Fits vs) :
    (new vs).getStdDev Real.sqrt = some (deviation (reals vs)) := by
  have hperm : (new vs).values.Perm vs := getValues_new_perm vs
  have hlen : (new vs).values.length = vs.length := size_new vs
  rw [getStdDev_eq, getMean_new hfits, hlen, deviation, length_reals, Option.map_some,
    Moments.variance_perm (reals_perm hperm)]
  exact (apply_ite some _ _ _).symm

theorem eq_deviation {dev : ℝ} (h : (new vs).getStdDev Real.sqrt = some dev) :
    dev = deviation (reals vs) := by
  by_cases hfits : Fits vs
  · rw [getStdDev_new hfits] at h
    exact (Option.some.inj h).symm
  have hlen : (new vs).values.length = vs.length := size_new vs
  have hmean : (new vs).getMean (K := ℝ) = none := by
    apply Option.eq_none_iff_forall_ne_some.mpr
    intro mean hmean
    exact hfits ((fits_perm (getValues_new_perm vs)).mp (fits_of_getMean hmean))
  rw [getStdDev_eq, hmean, hlen] at h
  rw [deviation, length_reals]
  split at h
  next hle => rw [if_pos hle, Option.some.inj h]
  next => exact nomatch h

theorem mem_bounds {s : Snapshot} {x : ℝ} (hx : x ∈ (reals s.values : List ℝ)) :
    (s.orderStatistic 1 : ℝ) ≤ x ∧ x ≤ s.orderStatistic s.values.length := by
  obtain ⟨v, hv, rfl⟩ := List.mem_map.mp hx
  obtain ⟨i, hi, rfl⟩ := List.mem_iff_getElem.mp hv
  have hstat := orderStatistic_eq (Int.natCast_nonneg i) (Int.ofNat_lt.mpr hi)
  rw [Int.toNat_natCast, List.getD_eq_getElem _ _ hi] at hstat
  rw [← hstat]
  exact ⟨Int.cast_le.mpr (orderStatistic_one_le _), Int.cast_le.mpr (orderStatistic_le_last _)⟩

theorem mean_bounds (vs : ValueVector) :
    ∃ least greatest, (new vs).getMin id = .ok least ∧ (new vs).getMax id = .ok greatest ∧
      (least.toInt : ℝ) ≤ Moments.mean (reals vs) ∧
      Moments.mean (reals vs) ≤ (greatest.toInt : ℝ) := by
  rcases eq_or_ne vs [] with rfl | hne
  · have hmean : Moments.mean (reals [] : List ℝ) = 0 := by rw [Moments.mean, sum_reals]; simp
    have hempty : (new []).values.isEmpty = true := isEmpty_new []
    refine ⟨0, 0, if_pos hempty, if_pos hempty, ?_⟩
    rw [hmean, Int64.toInt_zero, Int.cast_zero]
    exact ⟨le_rfl, le_rfl⟩
  have hsize : (new vs).values.length = vs.length := size_new vs
  have hpos : 0 < (new vs).values.length := hsize ▸ List.length_pos_iff.mpr hne
  have hvalues : (new vs).values ≠ [] := List.length_pos_iff.mp hpos
  have hreals : (reals (new vs).values : List ℝ) ≠ [] := mt List.map_eq_nil_iff.mp hvalues
  obtain ⟨least, hmin, -, hleast⟩ := exists_getMin hvalues fun v _ => id_eq v.toInt
  obtain ⟨greatest, hmax, -, hgreatest⟩ := exists_getMax hvalues fun v _ => id_eq v.toInt
  refine ⟨least, greatest, hmin, hmax, ?_⟩
  rw [← Moments.mean_perm (reals_perm (getValues_new_perm vs)), hleast, hgreatest]
  constructor
  · exact Moments.le_mean hreals fun x hx => (mem_bounds hx).1
  · exact Moments.mean_le hreals fun x hx => (mem_bounds hx).2

structure MeanAndDeviation (vs : ValueVector) (mean dev : ℝ) : Prop where
  getMean : (new vs).getMean = some mean
  getStdDev : (new vs).getStdDev Real.sqrt = some dev
  exact : vs ≠ [] → mean = ((vs.map Int64.toInt).sum : ℤ) / (vs.length : ℝ)
  bounds : ∃ least greatest, (new vs).getMin id = .ok least ∧ (new vs).getMax id = .ok greatest ∧
    (least.toInt : ℝ) ≤ mean ∧ mean ≤ (greatest.toInt : ℝ)
  multiset : ∀ ws : ValueVector, ws.Perm vs →
    (new ws).getMean = some mean ∧ (new ws).getStdDev Real.sqrt = some dev
  nonneg : 0 ≤ dev
  squares : 2 ≤ vs.length →
    dev ^ 2 = (vs.map fun v => ((v.toInt : ℝ) - mean) ^ 2).sum / (vs.length - 1 : ℕ)
  few : vs.length ≤ 1 → dev = 0
  shifted : ∀ (c : ℤ) (ws : ValueVector), (ws.map Int64.toInt = vs.map fun v => v.toInt + c) →
    ∀ dev', (new ws).getStdDev Real.sqrt = some dev' → dev' = dev
  constant : dev = 0 ↔ ∀ v ∈ vs, ∀ w ∈ vs, v = w

theorem deviation_shift {vs ws : ValueVector} {c : ℤ}
    (h : ws.map Int64.toInt = vs.map fun v => v.toInt + c) :
    deviation (reals ws) = deviation (reals vs) := by
  have hreals : (reals ws : List ℝ) = (reals vs).map (· + (c : ℝ)) := by
    have hcast := congrArg (List.map fun i : ℤ => (i : ℝ)) h
    rw [List.map_map, List.map_map] at hcast
    rw [reals, reals, List.map_map]
    refine Eq.trans hcast ?_
    apply List.map_congr_left
    intro v _
    exact Int.cast_add _ _
  rw [deviation, deviation, hreals, List.length_map, Moments.variance_map_add]

/-- The two functions are right just where the sum fits. -/
theorem getMean_getStdDev_iff (vs : ValueVector) :
    (∃ mean dev, MeanAndDeviation vs mean dev) ↔ Fits vs := by
  constructor
  · rintro ⟨mean, dev, h⟩
    exact (fits_perm (getValues_new_perm vs)).mp (fits_of_getMean h.getMean)
  intro hfits
  have hinj : ∀ v w : Int64, (v.toInt : ℝ) = w.toInt → v = w := by
    intro v w h
    exact Int64.toInt_inj.mp (Int.cast_injective h)
  refine ⟨Moments.mean (reals vs), deviation (reals vs), ?_⟩
  constructor
  case getMean => exact getMean_new hfits
  case getStdDev => exact getStdDev_new hfits
  case exact =>
    intro _
    rw [Moments.mean, sum_reals, length_reals]
  case bounds => exact mean_bounds vs
  case multiset =>
    intro ws hperm
    rw [new_eq_of_perm hperm]
    exact ⟨getMean_new hfits, getStdDev_new hfits⟩
  case nonneg => exact deviation_nonneg _
  case squares =>
    intro hlen
    rw [deviation, length_reals, if_neg (not_le.mpr hlen), Real.sq_sqrt Moments.variance_nonneg,
      Moments.variance, Moments.squares, length_reals, reals, List.map_map]
    rfl
  case few =>
    intro hlen
    rw [deviation, length_reals, if_pos hlen]
  case shifted =>
    intro c ws hws dev' hdev
    rw [eq_deviation hdev, deviation_shift hws]
  case constant =>
    rw [deviation_eq_zero_iff]
    constructor
    · intro h v hv w hw
      exact hinj v w (h _ (List.mem_map_of_mem hv) _ (List.mem_map_of_mem hw))
    · intro h x hx y hy
      obtain ⟨v, hv, rfl⟩ := List.mem_map.mp hx
      obtain ⟨w, hw, rfl⟩ := List.mem_map.mp hy
      rw [h v hv w hw]

theorem getMean_overflows :
    ¬∃ mean dev, MeanAndDeviation [Int64.maxValue, 1] mean dev := by
  rintro ⟨mean, dev, h⟩
  have hfits : Fits [Int64.maxValue, 1] :=
    (fits_perm (getValues_new_perm _)).mp (fits_of_getMean h.getMean)
  exact absurd hfits (by decide)

end CppMetrics.Snapshot
