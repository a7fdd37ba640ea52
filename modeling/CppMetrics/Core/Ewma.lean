import Mathlib.Analysis.SpecialFunctions.Exp
import CppMetrics.Core.Types

/-! The exponentially weighted moving average. Rates are exact: doubles are elements of a field,
and the smoothing constants, which the source gets from `std::exp`, are parameters. -/

namespace CppMetrics

structure EWMA (K : Type*) where
  initialized : Bool
  ewma : K
  uncounted : UInt64
  alpha : K
  intervalNanos : UInt64

namespace EWMA

structure Alphas (K : Type*) where
  m1 : K
  m5 : K
  m15 : K

def INTERVAL_IN_SEC : ℕ := 5

def ONE_MINUTE : ℕ := 1

def FIVE_MINUTES : ℕ := 5

def FIFTEEN_MINUTES : ℕ := 15

/-- `1 - std::exp(-INTERVAL_IN_SEC / (60 * minutes))`. -/
noncomputable def alphaOf (minutes : ℕ) : ℝ :=
  1 - Real.exp (-(INTERVAL_IN_SEC : ℝ) / (60 * minutes))

noncomputable def Alphas.source : Alphas ℝ :=
  ⟨alphaOf ONE_MINUTE, alphaOf FIVE_MINUTES, alphaOf FIFTEEN_MINUTES⟩

theorem alphaOf_mem_Ioo {minutes : ℕ} (h : 0 < minutes) : alphaOf minutes ∈ Set.Ioo (0 : ℝ) 1 := by
  have hm : (0 : ℝ) < minutes := Nat.cast_pos.mpr h
  have harg : -(INTERVAL_IN_SEC : ℝ) / (60 * minutes) < 0 := by
    apply div_neg_of_neg_of_pos
    · norm_num [INTERVAL_IN_SEC]
    · positivity
  have hlt := Real.exp_lt_one_iff.mpr harg
  have hpos := Real.exp_pos (-(INTERVAL_IN_SEC : ℝ) / (60 * minutes))
  constructor <;> unfold alphaOf <;> linarith

variable {K : Type*}

def update (n : UInt64) (e : EWMA K) : EWMA K := { e with uncounted := e.uncounted + n }

@[simp] theorem update_uncounted (n : UInt64) (e : EWMA K) :
    (e.update n).uncounted = e.uncounted + n := rfl

variable [Field K]

def new (alpha : K) (interval : UInt64) : EWMA K where
  initialized := false
  ewma := 0
  uncounted := 0
  alpha := alpha
  intervalNanos := interval

/-- `INTERVAL_IN_SEC` as the nanoseconds the three factory functions pass on. -/
def defaultInterval : UInt64 := UInt64.ofNat (INTERVAL_IN_SEC * nanosPerSecond)

def oneMinuteEWMA (A : Alphas K) : EWMA K := new A.m1 defaultInterval

def fiveMinuteEWMA (A : Alphas K) : EWMA K := new A.m5 defaultInterval

def fifteenMinuteEWMA (A : Alphas K) : EWMA K := new A.m15 defaultInterval

def instantRate (count interval : UInt64) : K := (count.toNat : K) / (interval.toNat : K)

def blend (alpha curEwma instantRate : K) : K := curEwma + alpha * (instantRate - curEwma)

/-- One thread: the `compare_exchange` finds the value just loaded and always succeeds. -/
def tick (e : EWMA K) : EWMA K :=
  let count := e.uncounted
  let rate := instantRate count e.intervalNanos
  if e.initialized then
    { e with uncounted := 0, ewma := blend e.alpha e.ewma rate }
  else
    { e with uncounted := 0, ewma := rate, initialized := true }

def getRate (duration : ℤ) (e : EWMA K) : K := e.ewma * (duration : K)

@[simp] theorem tick_uncounted (e : EWMA K) : e.tick.uncounted = 0 := by
  unfold tick
  split <;> rfl

theorem tick_tick_ewma {e : EWMA K} (h : e.initialized = false) :
    e.tick.tick.ewma = (1 - e.alpha) * e.tick.ewma := by
  simp only [tick, h, blend, instantRate]
  simp
  ring

end EWMA
end CppMetrics
