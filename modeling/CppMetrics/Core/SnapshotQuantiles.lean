import Mathlib.Data.List.GetD
import Mathlib.Data.Rat.Floor
import Mathlib.Tactic.NormNum
import CppMetrics.Core.Snapshot
import CppMetrics.Lib.Double
import CppMetrics.Lib.Interpolation

/-! The quantiles of a snapshot are linear interpolations between its order statistics. -/

namespace CppMetrics.Snapshot

/-- The last three are undefined behaviour: conversions to `size_t` and to `boost::int64_t` of what
is none, and an access past the ends of the vector. -/
inductive Fault
  | invalidArgument (what : Str)
  | noSize
  | noInteger
  | outOfRange
  deriving DecidableEq

def at? (s : Snapshot) (i : ℤ) : Except Fault Int64 :=
  if 0 ≤ i ∧ i < s.values.length then .ok (s.values.getD i.toNat 0) else .error .outOfRange

def front (s : Snapshot) : Except Fault Int64 := s.at? 0

def back (s : Snapshot) : Except Fault Int64 := s.at? (s.values.length - 1)

/-- A value to `double` and back: the other branch of the conditional is `0.0`. What `double` makes
of an integer is `round`, and `id` where doubles are exact. -/
def throughDouble (round : ℤ → ℤ) (v : Int64) : Except Fault Int64 :=
  if FitsInt64 (round v.toInt) then .ok (.ofInt (round v.toInt)) else .error .noInteger

def getMin (round : ℤ → ℤ) (s : Snapshot) : Except Fault Int64 :=
  if s.values.isEmpty then .ok 0 else s.front >>= throughDouble round

def getMax (round : ℤ → ℤ) (s : Snapshot) : Except Fault Int64 :=
  if s.values.isEmpty then .ok 0 else s.back >>= throughDouble round

theorem throughDouble_of_exact {round : ℤ → ℤ} {v : Int64} (h : round v.toInt = v.toInt) :
    throughDouble round v = .ok v := by
  have hfits : FitsInt64 v.toInt := ⟨v.le_toInt, v.toInt_lt⟩
  rw [throughDouble, h, if_pos hfits, Int64.ofInt_toInt]

/-- The greatest value there is becomes 2^63, which is no `boost::int64_t`. -/
example : throughDouble Double.nearest Int64.maxValue = .error .noInteger := by decide +kernel

section

variable {K : Type*} [Field K] [LinearOrder K] [FloorRing K]

def toDouble (v : Int64) : Double K := .finite (v.toInt : K)

def getValue (quantile : Double K) (s : Snapshot) : Except Fault (Double K) :=
  if quantile.lt (.finite 0) || Double.lt (.finite 1) quantile then
    .error (.invalidArgument (str "quantile is not in [0..1]"))
  else if s.values.isEmpty then
    .ok (.finite 0)
  else
    let pos := quantile * .finite ((s.values.length + 1 : ℕ) : K)
    if pos.lt (.finite 1) then
      s.front.map toDouble
    else if Double.le (.finite (s.values.length : K)) pos then
      s.back.map toDouble
    else
      match pos.toSize with
      | none => .error .noSize
      | some posIndex =>
        match s.at? (posIndex - 1), s.at? posIndex with
        | .ok lower, .ok upper =>
          let lower : Double K := toDouble lower
          let upper : Double K := toDouble upper
          .ok (lower + (pos - pos.floor) * (upper - lower))
        | _, _ => .error .outOfRange

def MEDIAN_Q : Double K := .finite 0.5

def P75_Q : Double K := .finite 0.75

def P95_Q : Double K := .finite 0.95

def P98_Q : Double K := .finite 0.98

def P99_Q : Double K := .finite 0.99

def P999_Q : Double K := .finite 0.999

def getMedian (s : Snapshot) : Except Fault (Double K) := s.getValue MEDIAN_Q

def get75thPercentile (s : Snapshot) : Except Fault (Double K) := s.getValue P75_Q

def get95thPercentile (s : Snapshot) : Except Fault (Double K) := s.getValue P95_Q

def get98thPercentile (s : Snapshot) : Except Fault (Double K) := s.getValue P98_Q

def get99thPercentile (s : Snapshot) : Except Fault (Double K) := s.getValue P99_Q

def get999thPercentile (s : Snapshot) : Except Fault (Double K) := s.getValue P999_Q

end

/-! ### The order statistics -/

/-- The sorted values at the positions from 1 on; the first and the last go on for ever. -/
def orderStatistic (s : Snapshot) (i : ℤ) : ℤ :=
  (s.values.getD (min (i - 1).toNat (s.values.length - 1)) 0).toInt

variable {s : Snapshot} {i : ℤ}

theorem at?_eq_ok (h0 : 0 ≤ i) (hlt : i < s.values.length) :
    s.at? i = .ok (s.values.getD i.toNat 0) := if_pos ⟨h0, hlt⟩

theorem orderStatistic_eq (h0 : 0 ≤ i) (hlt : i < s.values.length) :
    s.orderStatistic (i + 1) = (s.values.getD i.toNat 0).toInt := by
  have hindex : min (i + 1 - 1).toNat (s.values.length - 1) = i.toNat := by omega
  rw [orderStatistic, hindex]

theorem front_eq (hne : s.values ≠ []) :
    ∃ v, s.front = .ok v ∧ s.values.head? = some v ∧ v.toInt = s.orderStatistic 1 := by
  have hpos : 0 < s.values.length := List.length_pos_iff.mpr hne
  have hlt : (0 : ℤ) < s.values.length := Int.natCast_pos.mpr hpos
  refine ⟨_, at?_eq_ok le_rfl hlt, ?_, (orderStatistic_eq le_rfl hlt).symm⟩
  rw [List.head?_eq_getElem?, Int.toNat_zero, List.getD_eq_getElem _ _ hpos,
    List.getElem?_eq_getElem hpos]

theorem back_eq (hne : s.values ≠ []) :
    ∃ v, s.back = .ok v ∧ s.values.getLast? = some v ∧
      v.toInt = s.orderStatistic s.values.length := by
  have hpos : 0 < s.values.length := List.length_pos_iff.mpr hne
  have hle : (0 : ℤ) ≤ s.values.length - 1 := by omega
  have hlt : (s.values.length : ℤ) - 1 < s.values.length := by omega
  have hstat := orderStatistic_eq hle hlt
  rw [sub_add_cancel] at hstat
  refine ⟨_, at?_eq_ok hle hlt, ?_, hstat.symm⟩
  have hindex : ((s.values.length : ℤ) - 1).toNat = s.values.length - 1 := by omega
  have hlast : s.values.length - 1 < s.values.length := Nat.sub_lt hpos zero_lt_one
  rw [List.getLast?_eq_getElem?, hindex, List.getD_eq_getElem _ _ hlast,
    List.getElem?_eq_getElem hlast]

section

variable {round : ℤ → ℤ}

theorem exists_getMin (hne : s.values ≠ []) (hround : ∀ v ∈ s.values, round v.toInt = v.toInt) :
    ∃ least, s.getMin round = .ok least ∧ s.values.head? = some least ∧
      least.toInt = s.orderStatistic 1 := by
  obtain ⟨least, hfront, hhead, hleast⟩ := front_eq hne
  have hexact := hround least (List.mem_of_mem_head? hhead)
  refine ⟨least, ?_, hhead, hleast⟩
  rw [getMin, if_neg (mt List.isEmpty_iff.mp hne), hfront]
  exact throughDouble_of_exact hexact

theorem exists_getMax (hne : s.values ≠ []) (hround : ∀ v ∈ s.values, round v.toInt = v.toInt) :
    ∃ greatest, s.getMax round = .ok greatest ∧ s.values.getLast? = some greatest ∧
      greatest.toInt = s.orderStatistic s.values.length := by
  obtain ⟨greatest, hback, hlast, hgreatest⟩ := back_eq hne
  have hexact := hround greatest (List.mem_of_getLast? hlast)
  refine ⟨greatest, ?_, hlast, hgreatest⟩
  rw [getMax, if_neg (mt List.isEmpty_iff.mp hne), hback]
  exact throughDouble_of_exact hexact

end

theorem orderStatistic_of_le (h : i ≤ 1) : s.orderStatistic i = s.orderStatistic 1 := by
  have hindex : (i - 1).toNat = (1 - 1 : ℤ).toNat := by omega
  rw [orderStatistic, orderStatistic, hindex]

theorem orderStatistic_of_ge (h : s.values.length ≤ i) :
    s.orderStatistic i = s.orderStatistic s.values.length := by
  have hindex : min (i - 1).toNat (s.values.length - 1) =
      min ((s.values.length : ℤ) - 1).toNat (s.values.length - 1) := by omega
  rw [orderStatistic, orderStatistic, hindex]

theorem orderStatistic_monotone (s : Snapshot) : Monotone s.orderStatistic := by
  intro i j hij
  rcases Nat.eq_zero_or_pos s.values.length with hzero | hpos
  · unfold orderStatistic
    rw [List.length_eq_zero_iff.mp hzero]
    exact le_rfl
  have hi : min (i - 1).toNat (s.values.length - 1) < s.values.length := by omega
  have hj : min (j - 1).toNat (s.values.length - 1) < s.values.length := by omega
  have hle : min (i - 1).toNat (s.values.length - 1) ≤
      min (j - 1).toNat (s.values.length - 1) := by omega
  unfold orderStatistic
  rw [List.getD_eq_getElem _ _ hi, List.getD_eq_getElem _ _ hj]
  rcases hle.eq_or_lt with heq | hlt
  · simp only [heq, le_refl]
  · exact Int64.le_iff_toInt_le.mp (List.pairwise_iff_getElem.mp s.sorted _ _ hi hj hlt)

theorem orderStatistic_one_le (i : ℤ) : s.orderStatistic 1 ≤ s.orderStatistic i := by
  rcases le_total i 1 with hle | hge
  · exact (orderStatistic_of_le hle).ge
  · exact s.orderStatistic_monotone hge

theorem orderStatistic_le_last (i : ℤ) :
    s.orderStatistic i ≤ s.orderStatistic s.values.length := by
  rcases le_total (s.values.length : ℤ) i with hge | hle
  · exact (orderStatistic_of_ge hge).le
  · exact s.orderStatistic_monotone hle

theorem new_eq_of_perm {vs ws : ValueVector} (h : ws.Perm vs) : new ws = new vs := by
  have hperm : (new ws).values.Perm (new vs).values :=
    (getValues_new_perm ws).trans (h.trans (getValues_new_perm vs).symm)
  have hvalues : (new ws).values = (new vs).values :=
    hperm.eq_of_pairwise (fun a b _ _ => Int64.le_antisymm) (new ws).sorted (new vs).sorted
  rwa [Snapshot.mk.injEq]

theorem toInt_pairwise (s : Snapshot) : (s.values.map Int64.toInt).Pairwise (· ≤ ·) :=
  List.pairwise_map.mpr (s.sorted.imp Int64.le_iff_toInt_le.mp)

theorem orderStatistic_eq_getD (s : Snapshot) (i : ℤ) : s.orderStatistic i =
    (s.values.map Int64.toInt).getD (min (i - 1).toNat (s.values.length - 1)) 0 :=
  (List.getD_map _ _ _).symm

theorem values_neg {vs ws : ValueVector} (h : ws.map Int64.toInt = vs.map fun v => -v.toInt) :
    (new ws).values.map Int64.toInt = (((new vs).values.map Int64.toInt).map Neg.neg).reverse := by
  have hws := (getValues_new_perm ws).map Int64.toInt
  have hvs := (getValues_new_perm vs).map fun v => -v.toInt
  have hperm : ((new ws).values.map Int64.toInt).Perm
      (((new vs).values.map Int64.toInt).map Neg.neg).reverse := by
    rw [List.map_map]
    exact (h ▸ hws).trans (hvs.symm.trans (List.reverse_perm _).symm)
  refine hperm.eq_of_pairwise (fun a b _ _ => le_antisymm) (toInt_pairwise _) ?_
  rw [List.pairwise_reverse, List.pairwise_map]
  exact (toInt_pairwise (new vs)).imp fun hle => neg_le_neg hle

theorem length_neg {vs ws : ValueVector} (h : ws.map Int64.toInt = vs.map fun v => -v.toInt) :
    (new ws).values.length = vs.length := by
  have hlen := congrArg List.length h
  rw [List.length_map, List.length_map] at hlen
  exact (size_new ws).trans hlen

theorem orderStatistic_neg {vs ws : ValueVector}
    (h : ws.map Int64.toInt = vs.map fun v => -v.toInt) (i : ℤ) :
    (new ws).orderStatistic i = -(new vs).orderStatistic (vs.length + 1 - i) := by
  have hvs : (new vs).values.length = vs.length := size_new vs
  have hws : (new ws).values.length = vs.length := length_neg h
  have hneg : ∀ (l : List ℤ) (j : ℕ), (l.map Neg.neg).getD j 0 = -l.getD j 0 := by
    intro l j
    have hmap := List.getD_map (l := l) (d := 0) (n := j) (Neg.neg : ℤ → ℤ)
    rwa [neg_zero] at hmap
  rw [orderStatistic_eq_getD, orderStatistic_eq_getD, values_neg h, hvs, hws]
  rcases Nat.eq_zero_or_pos vs.length with hzero | hpos
  · rw [List.getD_eq_default _ _ (by simp [hvs, hzero]),
      List.getD_eq_default _ _ (by simp [hvs, hzero]), neg_zero]
  · have hlen : (((new vs).values.map Int64.toInt).map Neg.neg).length = vs.length := by
      rw [List.length_map, List.length_map, hvs]
    rw [List.getD_reverse _ (by omega), hlen, hneg]
    congr 2
    omega

section

variable {K : Type*} [Field K]

variable [LinearOrder K] [FloorRing K] [IsStrictOrderedRing K]

/-- The linear interpolation between the order statistics, at the position of a quantile. -/
def quantileValue (s : Snapshot) (q : K) : K :=
  Interpolation.linear (fun i => (s.orderStatistic i : K)) (q * (s.values.length + 1 : ℕ))

omit [FloorRing K] [IsStrictOrderedRing K] in
theorem not_refused {q : K} (h0 : 0 ≤ q) (h1 : q ≤ 1) :
    ((Double.finite q).lt (.finite 0) || Double.lt (.finite 1) (.finite q)) = false := by
  rw [← Bool.not_eq_true, Bool.or_eq_true, Double.finite_lt, Double.finite_lt]
  exact not_or.mpr ⟨h0.not_gt, h1.not_gt⟩

/-- Every access of `getValue` is in bounds, and the three cases are one interpolation. -/
theorem getValue_eq (hne : s.values ≠ []) {q : K} (h0 : 0 ≤ q) (h1 : q ≤ 1) :
    s.getValue (.finite q) = .ok (.finite (s.quantileValue q)) := by
  have hp : 0 ≤ q * ((s.values.length + 1 : ℕ) : K) := mul_nonneg h0 (Nat.cast_nonneg _)
  have hempty : ¬s.values.isEmpty = true := fun h => hne (List.isEmpty_iff.mp h)
  unfold getValue quantileValue
  rw [not_refused h0 h1, if_neg Bool.false_ne_true, if_neg hempty, Double.finite_mul]
  generalize q * ((s.values.length + 1 : ℕ) : K) = p at hp
  dsimp only
  by_cases hfirst : p < 1
  · have hfloor : ⌊p⌋ = 0 := Int.floor_eq_zero_iff.mpr ⟨hp, hfirst⟩
    have hstat : s.orderStatistic 0 = s.orderStatistic 1 := orderStatistic_of_le zero_le_one
    obtain ⟨v, hv, -, hvalue⟩ := front_eq hne
    rw [if_pos (Double.finite_lt.mpr hfirst), hv, Interpolation.linear_of_eq] <;> rw [hfloor]
    · rw [hstat, ← hvalue]
      rfl
    · rw [zero_add, hstat]
  by_cases hlast : (s.values.length : K) ≤ p
  · have hfloor : (s.values.length : ℤ) ≤ ⌊p⌋ := by
      rw [Int.le_floor]
      exact_mod_cast hlast
    have hstat := orderStatistic_of_ge hfloor
    have hnext := orderStatistic_of_ge (hfloor.trans (Int.le_add_one le_rfl))
    obtain ⟨v, hv, -, hvalue⟩ := back_eq hne
    rw [if_neg (fun h => hfirst (Double.finite_lt.mp h)), if_pos (Double.finite_le.mpr hlast), hv,
      Interpolation.linear_of_eq]
    · rw [hstat, ← hvalue]
      rfl
    · rw [hstat, hnext]
  · -- between the first position and the last, and so between two entries
    have hlower : 1 ≤ ⌊p⌋ := by
      rw [Int.le_floor, Int.cast_one]
      exact not_lt.mp hfirst
    have hupper : ⌊p⌋ < s.values.length := by
      rw [Int.floor_lt]
      exact_mod_cast not_le.mp hlast
    have hindex : ((⌊p⌋.toNat : ℕ) : ℤ) = ⌊p⌋ := Int.toNat_of_nonneg (by omega)
    have hstat := orderStatistic_eq (s := s) (i := ⌊p⌋ - 1) (by omega) (by omega)
    have hnext := orderStatistic_eq (s := s) (i := ⌊p⌋) (by omega) hupper
    rw [sub_add_cancel] at hstat
    rw [if_neg (fun h => hfirst (Double.finite_lt.mp h)),
      if_neg (fun h => hlast (Double.finite_le.mp h)), Double.finite_toSize (by linarith)]
    dsimp only
    rw [hindex, at?_eq_ok (by omega) (by omega), at?_eq_ok (by omega) hupper]
    dsimp only
    rw [toDouble, toDouble, Double.floor, Double.finite_sub, Double.finite_sub, Double.finite_mul,
      Double.finite_add, Interpolation.linear, hstat, hnext]

theorem cast_orderStatistic_monotone (s : Snapshot) :
    Monotone fun i => (s.orderStatistic i : K) :=
  fun _ _ hij => Int.cast_mono (s.orderStatistic_monotone hij)

theorem quantileValue_mono (s : Snapshot) : Monotone (s.quantileValue : K → K) :=
  fun _ _ hle => Interpolation.linear_monotone s.cast_orderStatistic_monotone
    (mul_le_mul_of_nonneg_right hle (Nat.cast_nonneg _))

theorem quantileValue_position (s : Snapshot) (k : ℕ) :
    s.quantileValue ((k : K) / (s.values.length + 1 : ℕ)) = s.orderStatistic k := by
  have hne : ((s.values.length + 1 : ℕ) : K) ≠ 0 := Nat.cast_ne_zero.mpr (Nat.succ_ne_zero _)
  have hlinear := Interpolation.linear_intCast (fun i => (s.orderStatistic i : K)) k
  rw [quantileValue, div_mul_cancel₀ _ hne]
  exact_mod_cast hlinear

theorem quantileValue_bounds (s : Snapshot) (q : K) :
    (s.orderStatistic 1 : K) ≤ s.quantileValue q ∧
      s.quantileValue q ≤ (s.orderStatistic s.values.length : K) := by
  have hmono : Monotone fun i => (s.orderStatistic i : K) := s.cast_orderStatistic_monotone
  have hlower := Interpolation.le_linear hmono (q * (s.values.length + 1 : ℕ))
  have hupper := Interpolation.linear_le hmono (q * (s.values.length + 1 : ℕ))
  refine ⟨le_trans ?_ hlower, hupper.trans ?_⟩
  · exact Int.cast_le.mpr (orderStatistic_one_le _)
  · exact Int.cast_le.mpr (orderStatistic_le_last _)

theorem quantileValue_neg {vs ws : ValueVector}
    (h : ws.map Int64.toInt = vs.map fun v => -v.toInt) (q : K) :
    (new ws).quantileValue (1 - q) = -(new vs).quantileValue q := by
  have hvs : (new vs).values.length = vs.length := size_new vs
  have hws : (new ws).values.length = vs.length := length_neg h
  have hreflect := Interpolation.linear_reflect (fun i => ((new vs).orderStatistic i : K))
    (vs.length + 1 : ℕ) (q * (vs.length + 1 : ℕ))
  have hposition : (1 - q) * ((vs.length + 1 : ℕ) : K) =
      (((vs.length + 1 : ℕ) : ℤ) : K) - q * ((vs.length + 1 : ℕ) : K) := by
    rw [sub_mul, one_mul, Int.cast_natCast]
  unfold quantileValue
  rw [hvs, hws, hposition, ← hreflect]
  congr 1
  funext i
  rw [orderStatistic_neg h]
  push_cast
  rfl

/-- `value` is the clamped linear interpolation of the order statistics of a vector: `getValue`
returns it, with all accesses in bounds. -/
structure Interpolates (vs : ValueVector) (value : K → K) (least greatest : Int64) : Prop where
  getMin : (new vs).getMin id = .ok least
  getMax : (new vs).getMax id = .ok greatest
  getValue : ∀ q, 0 ≤ q → q ≤ 1 → (new vs).getValue (.finite q) = .ok (.finite (value q))
  multiset : ∀ ws : ValueVector, ws.Perm vs → ∀ q : Double K,
    (new ws).getValue q = (new vs).getValue q
  position : ∃ xs : ValueVector, xs.Perm vs ∧ xs.Pairwise (· ≤ ·) ∧ xs.head? = some least ∧
    xs.getLast? = some greatest ∧ ∀ k (hk : k < xs.length),
      value ((k + 1 : ℕ) / (vs.length + 1 : ℕ)) = ((xs.get ⟨k, hk⟩).toInt : K)
  bounds : ∀ q, 0 ≤ q → q ≤ 1 → (least.toInt : K) ≤ value q ∧ value q ≤ (greatest.toInt : K)
  monotone : ∀ q q', 0 ≤ q → q ≤ q' → q' ≤ 1 → value q ≤ value q'
  percentiles : ∃ median p75 p95 p98 p99 p999 : K,
    (new vs).getMedian = .ok (.finite median) ∧ (new vs).get75thPercentile = .ok (.finite p75) ∧
    (new vs).get95thPercentile = .ok (.finite p95) ∧
    (new vs).get98thPercentile = .ok (.finite p98) ∧
    (new vs).get99thPercentile = .ok (.finite p99) ∧
    (new vs).get999thPercentile = .ok (.finite p999) ∧ median ≤ p75 ∧ p75 ≤ p95 ∧ p95 ≤ p98 ∧
    p98 ≤ p99 ∧ p99 ≤ p999 ∧ p999 ≤ (greatest.toInt : K)
  negated : ∀ ws : ValueVector, (ws.map Int64.toInt = vs.map fun v => -v.toInt) →
    ∀ q, 0 ≤ q → q ≤ 1 → (new ws).getValue (.finite (1 - q)) = .ok (.finite (-value q))

theorem getValue_interpolates {vs : ValueVector} (hne : vs ≠ []) :
    ∃ (value : K → K) (least greatest : Int64), Interpolates vs value least greatest := by
  have hsize : (new vs).values.length = vs.length := size_new vs
  have hpos : 0 < (new vs).values.length := hsize ▸ List.length_pos_iff.mpr hne
  have hvalues : (new vs).values ≠ [] := List.length_pos_iff.mp hpos
  obtain ⟨least, hmin, hhead, hleast⟩ := exists_getMin hvalues fun v _ => id_eq v.toInt
  obtain ⟨greatest, hmax, hlast, hgreatest⟩ := exists_getMax hvalues fun v _ => id_eq v.toInt
  have hbounds : ∀ q : K, (least.toInt : K) ≤ (new vs).quantileValue q ∧
      (new vs).quantileValue q ≤ (greatest.toInt : K) := by
    intro q
    rw [hleast, hgreatest]
    exact (new vs).quantileValue_bounds q
  have hvalue : ∀ q : K, 0 ≤ q → q ≤ 1 →
      (new vs).getValue (.finite q) = .ok (.finite ((new vs).quantileValue q)) :=
    fun q => getValue_eq hvalues
  refine ⟨(new vs).quantileValue, least, greatest, ?_⟩
  constructor
  case getMin => exact hmin
  case getMax => exact hmax
  case getValue => exact hvalue
  case multiset =>
    intro ws hperm q
    rw [new_eq_of_perm hperm]
  case position =>
    refine ⟨(new vs).values, getValues_new_perm vs, (new vs).sorted, hhead, hlast, ?_⟩
    intro k hk
    have hposition := (new vs).quantileValue_position (K := K) (k + 1)
    have hstat := orderStatistic_eq (Int.natCast_nonneg k) (Int.ofNat_lt.mpr hk)
    rw [Int.toNat_natCast, List.getD_eq_getElem _ _ hk, ← Nat.cast_succ] at hstat
    rw [hsize, hstat] at hposition
    exact hposition
  case bounds => exact fun q _ _ => hbounds q
  case monotone => exact fun q q' _ hle _ => (new vs).quantileValue_mono hle
  case percentiles =>
    have hmono : Monotone ((new vs).quantileValue : K → K) := (new vs).quantileValue_mono
    refine ⟨_, _, _, _, _, _, hvalue 0.5 ?_ ?_, hvalue 0.75 ?_ ?_, hvalue 0.95 ?_ ?_,
      hvalue 0.98 ?_ ?_, hvalue 0.99 ?_ ?_, hvalue 0.999 ?_ ?_, hmono ?_, hmono ?_, hmono ?_,
      hmono ?_, hmono ?_, (hbounds _).2⟩ <;> norm_num
  case negated =>
    intro ws hws q h0 h1
    have hne' : (new ws).values ≠ [] := by
      apply List.length_pos_iff.mp
      rw [length_neg hws, ← hsize]
      exact hpos
    rw [getValue_eq hne' (sub_nonneg.mpr h1) (sub_le_self 1 h0), quantileValue_neg hws]

end

theorem getValue_interpolates_five : ∃ (value : ℚ → ℚ) (least greatest : Int64),
    Interpolates [5, 1, 2, 3, 4] value least greatest :=
  getValue_interpolates (List.cons_ne_nil 5 _)

/-! ### The arguments that are refused -/

section

variable {K : Type*} [Field K] [LinearOrder K] [FloorRing K]

def inRange (quantile : Double K) : Prop := ∃ q, quantile = .finite q ∧ 0 ≤ q ∧ q ≤ 1

/-- Just what is no quantile is refused, and nothing else goes wrong. -/
structure Guarded (s : Snapshot) (quantile : Double K) : Prop where
  refused : (∃ what, s.getValue quantile = .error (.invalidArgument what)) ↔ ¬inRange quantile
  converted : s.getValue quantile ≠ .error .noSize
  accessed : s.getValue quantile ≠ .error .outOfRange

theorem getValue_refused {quantile : Double K}
    (h : (quantile.lt (.finite 0) || Double.lt (.finite 1) quantile) = true) (s : Snapshot) :
    s.getValue quantile = .error (.invalidArgument (str "quantile is not in [0..1]")) := if_pos h

theorem guarded_of_faults {s : Snapshot} {quantile : Double K}
    (hrefused : (∃ what, s.getValue quantile = .error (.invalidArgument what)) ↔ ¬inRange quantile)
    (hfaults : ∀ fault, s.getValue quantile = .error fault →
      ∃ what, fault = .invalidArgument what) : s.Guarded quantile where
  refused := hrefused
  converted h := by
    obtain ⟨_, hwhat⟩ := hfaults _ h
    exact nomatch hwhat
  accessed h := by
    obtain ⟨_, hwhat⟩ := hfaults _ h
    exact nomatch hwhat

theorem guarded_of_refused {quantile : Double K}
    (h : (quantile.lt (.finite 0) || Double.lt (.finite 1) quantile) = true)
    (hrange : ¬inRange quantile) (s : Snapshot) : s.Guarded quantile := by
  have hvalue := getValue_refused h s
  apply guarded_of_faults (iff_of_true ⟨_, hvalue⟩ hrange)
  intro fault hfault
  exact ⟨_, (Except.error.inj (hvalue.symm.trans hfault)).symm⟩

theorem guarded_of_ok {s : Snapshot} {quantile value : Double K}
    (hvalue : s.getValue quantile = .ok value) (hrange : inRange quantile) :
    s.Guarded quantile := by
  have hfault : ∀ fault, s.getValue quantile ≠ .error fault :=
    fun fault h => nomatch hvalue.symm.trans h
  apply guarded_of_faults
  · exact iff_of_false (fun ⟨_, h⟩ => hfault _ h) (not_not.mpr hrange)
  · exact fun fault h => absurd h (hfault fault)

theorem getValue_nan (s : Snapshot) : s.getValue (.nan : Double K) =
    if s.values.isEmpty then .ok (.finite 0) else .error .noSize := rfl

variable [IsStrictOrderedRing K]

theorem exists_getValue_eq_ok (s : Snapshot) {q : K} (h0 : 0 ≤ q) (h1 : q ≤ 1) :
    ∃ value, s.getValue (.finite q) = .ok value := by
  by_cases hempty : s.values.isEmpty = true
  · unfold getValue
    rw [not_refused h0 h1, if_neg Bool.false_ne_true, if_pos hempty]
    exact ⟨_, rfl⟩
  · exact ⟨_, getValue_eq (fun h => hempty (List.isEmpty_iff.mpr h)) h0 h1⟩

theorem getValue_guarded_iff (s : Snapshot) (quantile : Double K) :
    s.Guarded quantile ↔ quantile ≠ .nan := by
  constructor
  · rintro h rfl
    have hvalue := s.getValue_nan (K := K)
    split at hvalue
    · obtain ⟨what, hwhat⟩ := h.refused.mpr fun ⟨_, hq, _⟩ => nomatch hq
      rw [hvalue] at hwhat
      exact nomatch hwhat
    · exact h.converted hvalue
  intro hne
  cases quantile with
  | nan => exact absurd rfl hne
  | infinite negative =>
    refine guarded_of_refused ?_ (fun ⟨_, hq, _⟩ => nomatch hq) s
    cases negative <;> rfl
  | finite q =>
    by_cases hrange : 0 ≤ q ∧ q ≤ 1
    · obtain ⟨value, hvalue⟩ := exists_getValue_eq_ok s hrange.1 hrange.2
      exact guarded_of_ok hvalue ⟨q, rfl, hrange⟩
    · refine guarded_of_refused ?_ (fun ⟨x, hq, hx⟩ => hrange (Double.finite.inj hq ▸ hx)) s
      rw [Bool.or_eq_true, Double.finite_lt, Double.finite_lt, ← not_le, ← not_le, ← not_and_or]
      exact hrange

end

theorem getValue_guarded_half : (new [1, 2]).Guarded (.finite (1 / 2) : Double ℚ) :=
  (getValue_guarded_iff _ _).mpr fun h => nomatch h

theorem getValue_nan_not_guarded : ¬(new [1]).Guarded (.nan : Double ℚ) := by
  intro h
  have hempty : ¬(new [1]).values.isEmpty = true := by
    rw [isEmpty_new]
    exact Bool.false_ne_true
  exact h.converted ((getValue_nan _).trans (if_neg hempty))

end CppMetrics.Snapshot
