import Mathlib.Data.List.GetD
import CppMetrics.Core.Ewma
import CppMetrics.Lib.MovingAverage

/-! The closed form of the moving average. What was counted between two ticks is kept beside the
average, and the average is that of the rates of these intervals. -/

namespace CppMetrics.EWMA

inductive Call
  | update (n : UInt64)
  | tick

/-- The values counted in each interval that a tick has ended, and those counted since. -/
structure History where
  closed : List (List UInt64)
  current : List UInt64

namespace History

def start : History := ⟨[], []⟩

def note (h : History) : Call → History
  | .update n => { h with current := h.current ++ [n] }
  | .tick => { closed := h.closed ++ [h.current], current := [] }

end History

def history (cs : List Call) : History := cs.foldl History.note .start

/-- The counter has 64 bits. -/
def total (counts : List UInt64) : ℕ := (counts.map UInt64.toNat).sum % 2 ^ 64

theorem total_concat (counts : List UInt64) (n : UInt64) :
    total (counts ++ [n]) = (total counts + n.toNat) % 2 ^ 64 := by
  rw [total, List.map_append, List.sum_append, List.map_singleton, List.sum_singleton, total,
    Nat.mod_add_mod]

variable {K : Type*} [Field K]

def perform (e : EWMA K) : Call → EWMA K
  | .update n => e.update n
  | .tick => e.tick

def performAll (cs : List Call) (e : EWMA K) : EWMA K := cs.foldl perform e

/-- The nanoseconds of an interval are kept in an unsigned integer. -/
def rateOf (interval : Int64) (counts : List UInt64) : K :=
  (total counts : K) / ((interval.toInt % 2 ^ 64 : ℤ) : K)

def rates (interval : Int64) (closed : List (List UInt64)) (i : ℕ) : K :=
  rateOf interval (closed.getD (i - 1) [])

variable {interval : Int64} {closed : List (List UInt64)}

theorem rates_concat_of_mem (counts : List UInt64) {i : ℕ} (hi : i ∈ Finset.Icc 1 closed.length) :
    (rates interval (closed ++ [counts]) i : K) = rates interval closed i := by
  obtain ⟨hlow, hhigh⟩ := Finset.mem_Icc.mp hi
  rw [rates, rates, List.getD_append _ _ _ _ (Nat.sub_one_lt_of_le hlow hhigh)]

theorem rates_concat_last (counts : List UInt64) :
    (rates interval (closed ++ [counts]) (closed.length + 1) : K) = rateOf interval counts := by
  rw [rates, Nat.add_sub_cancel, List.getD_append_right _ _ _ _ le_rfl, Nat.sub_self]
  rfl

structure Follows (a : K) (interval : Int64) (h : History) (e : EWMA K) : Prop where
  uncounted : e.uncounted.toNat = total h.current
  initialized : e.initialized = true ↔ 1 ≤ h.closed.length
  ewma : e.ewma = MovingAverage.average a (rates interval h.closed) h.closed.length
  alpha : e.alpha = a
  interval : (e.intervalNanos.toNat : ℤ) = interval.toInt % 2 ^ 64

variable {a : K} {h : History} {e : EWMA K}

theorem follows_new (a : K) (interval : Int64) :
    Follows a interval .start (new a interval.toUInt64) where
  uncounted := rfl
  initialized := by simp [new, History.start]
  ewma := rfl
  alpha := rfl
  interval := toNat_toUInt64 interval

theorem Follows.update (hf : Follows a interval h e) (n : UInt64) :
    Follows a interval (h.note (.update n)) (e.update n) where
  uncounted := by
    rw [update_uncounted, UInt64.toNat_add, hf.uncounted]
    exact (total_concat _ _).symm
  initialized := hf.initialized
  ewma := hf.ewma
  alpha := hf.alpha
  interval := hf.interval

theorem Follows.instantRate (hf : Follows a interval h e) :
    instantRate e.uncounted e.intervalNanos = (rateOf interval h.current : K) := by
  rw [EWMA.instantRate, rateOf, hf.uncounted, ← hf.interval, Int.cast_natCast]

theorem blend_eq_lineMap (x r : K) : blend a x r = AffineMap.lineMap x r a := by
  rw [blend, AffineMap.lineMap_apply_ring']
  ring

theorem Follows.tick_ewma (hf : Follows a interval h e) : e.tick.ewma =
    MovingAverage.average a (rates interval (h.closed ++ [h.current])) (h.closed.length + 1) := by
  have hrate : (rates interval (h.closed ++ [h.current]) (h.closed.length + 1) : K) =
      EWMA.instantRate e.uncounted e.intervalNanos := by
    rw [rates_concat_last, hf.instantRate]
  by_cases hinit : e.initialized = true
  · have hbefore : e.ewma =
        MovingAverage.average a (rates interval (h.closed ++ [h.current])) h.closed.length := by
      rw [hf.ewma]
      exact MovingAverage.average_congr fun i hi => (rates_concat_of_mem _ hi).symm
    rw [MovingAverage.average_succ (hf.initialized.mp hinit), hrate, ← hbefore, ← blend_eq_lineMap,
      ← hf.alpha, tick, if_pos hinit]
  · have hnone : h.closed.length = 0 :=
      Nat.lt_one_iff.mp (not_le.mp (mt hf.initialized.mpr hinit))
    rw [hnone] at hrate ⊢
    rw [MovingAverage.average, hrate, tick, if_neg hinit]

theorem tick_initialized (e : EWMA K) : e.tick.initialized = true := by
  unfold tick
  split
  next h => exact h
  next => rfl

theorem tick_alpha (e : EWMA K) : e.tick.alpha = e.alpha := by
  unfold tick
  split <;> rfl

theorem tick_intervalNanos (e : EWMA K) : e.tick.intervalNanos = e.intervalNanos := by
  unfold tick
  split <;> rfl

theorem Follows.tick (hf : Follows a interval h e) :
    Follows a interval (h.note .tick) e.tick := by
  have hlen : (h.note .tick).closed.length = h.closed.length + 1 := List.length_append
  constructor
  case uncounted =>
    rw [tick_uncounted]
    rfl
  case initialized =>
    rw [hlen]
    exact iff_of_true e.tick_initialized (Nat.le_add_left 1 _)
  case ewma =>
    rw [hlen]
    exact hf.tick_ewma
  case alpha => exact e.tick_alpha.trans hf.alpha
  case interval =>
    rw [e.tick_intervalNanos]
    exact hf.interval

theorem follows_performAll (cs : List Call) (hf : Follows a interval h e) :
    Follows a interval (cs.foldl History.note h) (e.performAll cs) := by
  induction cs generalizing h e with
  | nil => exact hf
  | cons c cs ih =>
    cases c with
    | update n => exact ih (hf.update n)
    | tick => exact ih hf.tick

/-! ### The rate after a run -/

def ticks (cs : List Call) : ℕ := (history cs).closed.length

def rateAfter (a : K) (interval : Int64) (cs : List Call) (duration : ℤ) : K :=
  ((new a interval.toUInt64).performAll cs).getRate duration

def windowRates (interval : Int64) (cs : List Call) : ℕ → K := rates interval (history cs).closed

theorem rateAfter_eq (a : K) (interval : Int64) (cs : List Call) (duration : ℤ) :
    rateAfter a interval cs duration =
      duration * MovingAverage.average a (windowRates interval cs) (ticks cs) := by
  have hf := follows_performAll cs (follows_new a interval)
  rw [rateAfter, getRate, hf.ewma, mul_comm]
  rfl

theorem history_append (cs cs' : List Call) :
    history (cs ++ cs') = cs'.foldl History.note (history cs) := List.foldl_append

theorem history_idle {cs : List Call} (h : (history cs).current = []) (j : ℕ) :
    history (cs ++ List.replicate j .tick) =
      ⟨(history cs).closed ++ List.replicate j [], []⟩ := by
  induction j with
  | zero =>
    rw [List.replicate_zero, List.append_nil, List.replicate_zero, List.append_nil, ← h]
  | succ j ih =>
    rw [List.replicate_succ', ← List.append_assoc, history_append, ih, List.foldl_cons,
      List.foldl_nil, History.note, List.append_assoc, List.replicate_succ']

theorem ticks_idle {cs : List Call} (h : (history cs).current = []) (j : ℕ) :
    ticks (cs ++ List.replicate j .tick) = ticks cs + j := by
  rw [ticks, history_idle h, List.length_append, List.length_replicate, ticks]

theorem windowRates_idle {cs : List Call} (h : (history cs).current = []) (interval : Int64)
    {i j : ℕ} (hi : i ∈ Finset.Icc (ticks cs + 1) (ticks cs + j)) :
    (windowRates interval (cs ++ List.replicate j .tick) i : K) = 0 := by
  have hlow : (history cs).closed.length ≤ i - 1 := Nat.le_sub_one_of_lt (Finset.mem_Icc.mp hi).1
  rw [windowRates, history_idle h, rates, List.getD_append_right _ _ _ _ hlow,
    List.getD_eq_getElem?_getD, List.getElem?_getD_replicate_default_eq, rateOf]
  exact (congrArg (· / _) Nat.cast_zero).trans (zero_div _)

theorem windowRates_before {cs : List Call} (h : (history cs).current = []) (interval : Int64)
    (j : ℕ) {i : ℕ} (hi : i ∈ Finset.Icc 1 (ticks cs)) :
    (windowRates interval (cs ++ List.replicate j .tick) i : K) = windowRates interval cs i := by
  obtain ⟨hlow, hhigh⟩ := Finset.mem_Icc.mp hi
  rw [windowRates, history_idle h, rates,
    List.getD_append _ _ _ _ (Nat.sub_one_lt_of_le hlow hhigh)]
  rfl

structure ClosedForm [LinearOrder K] (a : K) (interval : Int64) (cs : List Call) : Prop where
  start : ticks cs = 0 → ∀ d, rateAfter a interval cs d = 0
  closed : interval ≠ 0 → 1 ≤ ticks cs → ∀ d : ℤ, rateAfter a interval cs d =
    d * ((1 - a) ^ (ticks cs - 1) * windowRates interval cs 1 +
      ∑ i ∈ Finset.Icc 2 (ticks cs), a * (1 - a) ^ (ticks cs - i) * windowRates interval cs i)
  between : interval ≠ 0 → 1 ≤ ticks cs → ∀ lo hi : K,
    (∀ i ∈ Finset.Icc 1 (ticks cs), windowRates interval cs i ∈ Set.Icc lo hi) →
    ∀ d : ℤ, rateAfter a interval cs d ∈ Set.uIcc (d * lo) (d * hi)
  idle : (history cs).current = [] → ∀ j d,
    rateAfter a interval (cs ++ List.replicate j .tick) d =
      (1 - a) ^ j * rateAfter a interval cs d
  grouped : ∀ cs', (history cs').closed.map total = (history cs).closed.map total →
    ∀ d, rateAfter a interval cs' d = rateAfter a interval cs d

theorem windowRates_eq_of_totals {cs cs' : List Call}
    (h : (history cs').closed.map total = (history cs).closed.map total) (interval : Int64) :
    (windowRates interval cs' : ℕ → K) = windowRates interval cs := by
  funext i
  have htotal : ∀ ws : List (List UInt64), total (ws.getD (i - 1) []) =
      (ws.map total).getD (i - 1) (total []) := fun ws => (List.getD_map _ _ total).symm
  rw [windowRates, windowRates, rates, rates, rateOf, rateOf, htotal, htotal, h]

theorem getRate_closedForm [LinearOrder K] [IsStrictOrderedRing K] {a : K} (h0 : 0 < a) (h1 : a < 1)
    (interval : Int64) (cs : List Call) : ClosedForm a interval cs := by
  constructor
  case start =>
    intro hzero d
    rw [rateAfter_eq, hzero]
    exact mul_zero _
  case closed =>
    intro _ hpos d
    rw [rateAfter_eq, MovingAverage.average_eq_sum hpos]
    rfl
  case between =>
    intro _ hpos lo hi hbounds d
    have hmem := MovingAverage.average_mem (convex_Icc lo hi) ⟨h0.le, h1.le⟩ hpos hbounds
    rw [rateAfter_eq, ← Set.image_const_mul_uIcc]
    exact Set.mem_image_of_mem _ (Set.Icc_subset_uIcc hmem)
  case idle =>
    intro hempty j d
    rw [rateAfter_eq, rateAfter_eq, ticks_idle hempty,
      MovingAverage.average_add j fun i hi => windowRates_idle hempty interval hi,
      MovingAverage.average_congr fun i hi => windowRates_before hempty interval j hi, smul_eq_mul]
    ring
  case grouped =>
    intro cs' htotals d
    have hticks : ticks cs' = ticks cs := by
      have hlen := congrArg List.length htotals
      rwa [List.length_map, List.length_map] at hlen
    rw [rateAfter_eq, rateAfter_eq, hticks, windowRates_eq_of_totals htotals]

theorem getRate_closedForm_three :
    (0 : ℚ) < 1 / 2 ∧ (1 / 2 : ℚ) < 1 ∧ ClosedForm (1 / 2 : ℚ) 5 [.update 3, .tick, .tick] :=
  ⟨by norm_num, by norm_num, getRate_closedForm (by norm_num) (by norm_num) _ _⟩

/-- The sum of these two updates does not fit the counter. -/
theorem getRate_wraps :
    rateAfter (1 / 2 : ℚ) 1 [.update (2 ^ 63), .update (2 ^ 63), .tick] 1 ≠
      1 * ((2 ^ 63 + 2 ^ 63) / 1) := by
  decide +kernel

end CppMetrics.EWMA
