import CppMetrics.Core.Ewma

/-! The meter as one thread runs it. It uses its three averages only through `update` and `tick`,
so it is written over any type with these two operations: the code's `EWMA`, or one that also
keeps an audit of what it was given. -/

namespace CppMetrics

/-- What a meter asks of a moving average. -/
class Averager (E : Type*) where
  update : UInt64 → E → E
  tick : E → E

instance {K : Type*} [Field K] : Averager (EWMA K) where
  update := EWMA.update
  tick := EWMA.tick

def TICK_INTERVAL : UInt64 := UInt64.ofNat (5 * nanosPerSecond)

/-! ### The arithmetic of a tick -/

def tickAge (oldTick curTick : UInt64) : UInt64 := curTick - oldTick

def newTick (oldTick curTick : UInt64) : UInt64 :=
  curTick - tickAge oldTick curTick % TICK_INTERVAL

def requiredTicks (oldTick curTick : UInt64) : UInt64 := tickAge oldTick curTick / TICK_INTERVAL

@[simp] theorem TICK_INTERVAL_toNat : TICK_INTERVAL.toNat = 5000000000 := by decide

theorem tickAge_toNat {oldTick curTick : UInt64} (h : oldTick ≤ curTick) :
    (tickAge oldTick curTick).toNat = curTick.toNat - oldTick.toNat :=
  UInt64.toNat_sub_of_le _ _ h

theorem requiredTicks_toNat {oldTick curTick : UInt64} (h : oldTick ≤ curTick) :
    (requiredTicks oldTick curTick).toNat =
      (curTick.toNat - oldTick.toNat) / TICK_INTERVAL.toNat := by
  rw [requiredTicks, UInt64.toNat_div, tickAge_toNat h]

theorem newTick_toNat {oldTick curTick : UInt64} (h : oldTick ≤ curTick) :
    (newTick oldTick curTick).toNat =
      oldTick.toNat + (requiredTicks oldTick curTick).toNat * TICK_INTERVAL.toNat := by
  have hage := tickAge_toNat h
  have hle : oldTick.toNat ≤ curTick.toNat := UInt64.le_iff_toNat_le.mp h
  have hmod : (tickAge oldTick curTick % TICK_INTERVAL).toNat =
      (curTick.toNat - oldTick.toNat) % TICK_INTERVAL.toNat := by
    rw [UInt64.toNat_mod, hage]
  have hmodle := Nat.mod_le (curTick.toNat - oldTick.toNat) TICK_INTERVAL.toNat
  have hdiv := Nat.div_add_mod' (curTick.toNat - oldTick.toNat) TICK_INTERVAL.toNat
  rw [newTick, UInt64.toNat_sub_of_le, hmod, requiredTicks_toNat h]
  · omega
  · rw [UInt64.le_iff_toNat_le, hmod]
    omega

theorem lt_tickAge_iff {oldTick curTick : UInt64} (h : oldTick ≤ curTick) :
    TICK_INTERVAL < tickAge oldTick curTick ↔
      TICK_INTERVAL.toNat < curTick.toNat - oldTick.toNat := by
  rw [UInt64.lt_iff_toNat_lt, tickAge_toNat h]

/-! ### The meter -/

structure Meter (E : Type*) where
  rateUnit : Int64
  count : UInt64
  startTime : UInt64
  lastTick : UInt64
  m1Rate : E
  m5Rate : E
  m15Rate : E

inductive Rate
  | m1 | m5 | m15
  deriving DecidableEq, Repr

namespace Meter

variable {E F : Type*} [Averager E] [Averager F]

def new (rateUnit : Int64) (now : UInt64) (m1 m5 m15 : E) : Meter E where
  rateUnit := rateUnit
  count := 0
  startTime := now
  lastTick := now
  m1Rate := m1
  m5Rate := m5
  m15Rate := m15

def rate (m : Meter E) : Rate → E
  | .m1 => m.m1Rate
  | .m5 => m.m5Rate
  | .m15 => m.m15Rate

def tick (m : Meter E) : Meter E :=
  { m with
    m1Rate := Averager.tick m.m1Rate
    m5Rate := Averager.tick m.m5Rate
    m15Rate := Averager.tick m.m15Rate }

/-- One thread: nobody writes `last_tick_` between the load and the `compare_exchange`. -/
def tickIfNecessary (now : UInt64) (m : Meter E) : Meter E :=
  let oldTick := m.lastTick
  let curTick := now
  if tickAge oldTick curTick > TICK_INTERVAL then
    tick^[(requiredTicks oldTick curTick).toNat] { m with lastTick := newTick oldTick curTick }
  else
    m

def mark (n now : UInt64) (m : Meter E) : Meter E :=
  let m := m.tickIfNecessary now
  { m with
    count := m.count + n
    m1Rate := Averager.update n m.m1Rate
    m5Rate := Averager.update n m.m5Rate
    m15Rate := Averager.update n m.m15Rate }

def getCount (m : Meter E) : UInt64 := m.count

section

variable {K : Type*} [Field K]

def create (A : EWMA.Alphas K) (rateUnit : Int64) (now : UInt64) : Meter (EWMA K) :=
  new rateUnit now (EWMA.oneMinuteEWMA A) (EWMA.fiveMinuteEWMA A) (EWMA.fifteenMinuteEWMA A)

def getRateOf (r : Rate) (now : UInt64) (m : Meter (EWMA K)) : K × Meter (EWMA K) :=
  let m := m.tickIfNecessary now
  ((m.rate r).getRate nanosPerSecond, m)

def getOneMinuteRate : UInt64 → Meter (EWMA K) → K × Meter (EWMA K) := getRateOf .m1

def getFiveMinuteRate : UInt64 → Meter (EWMA K) → K × Meter (EWMA K) := getRateOf .m5

def getFifteenMinuteRate : UInt64 → Meter (EWMA K) → K × Meter (EWMA K) := getRateOf .m15

def getMeanRate (now : UInt64) (m : Meter (EWMA K)) : K :=
  let c := m.count
  if c > 0 then
    let elapsed : ℤ := now.toNat - m.startTime.toNat
    ((c * m.rateUnit.toUInt64).toNat : K) / (elapsed : K)
  else
    0

end

/-! ### Calls and runs -/

inductive Call
  | mark (n : UInt64)
  | getRate (r : Rate)

structure TimedCall where
  time : UInt64
  call : Call

def perform (m : Meter E) (c : TimedCall) : Meter E :=
  match c.call with
  | .mark n => m.mark n c.time
  | .getRate _ => m.tickIfNecessary c.time

def performAll (cs : List TimedCall) (m : Meter E) : Meter E := cs.foldl perform m

def map (f : E → F) (m : Meter E) : Meter F where
  rateUnit := m.rateUnit
  count := m.count
  startTime := m.startTime
  lastTick := m.lastTick
  m1Rate := f m.m1Rate
  m5Rate := f m.m5Rate
  m15Rate := f m.m15Rate

@[simp] theorem iterate_tick_lastTick (j : ℕ) (m : Meter E) :
    (tick^[j] m).lastTick = m.lastTick := by
  induction j generalizing m with
  | zero => rfl
  | succ j ih => exact ih m.tick

@[simp] theorem iterate_tick_count (j : ℕ) (m : Meter E) : (tick^[j] m).count = m.count := by
  induction j generalizing m with
  | zero => rfl
  | succ j ih => exact ih m.tick

@[simp] theorem iterate_tick_rate (j : ℕ) (m : Meter E) (r : Rate) :
    (tick^[j] m).rate r = Averager.tick^[j] (m.rate r) := by
  induction j generalizing m with
  | zero => rfl
  | succ j ih =>
    rw [Function.iterate_succ_apply, Function.iterate_succ_apply, ih]
    cases r <;> rfl

theorem iterate_tick_rateUnit (j : ℕ) (m : Meter E) : (tick^[j] m).rateUnit = m.rateUnit := by
  induction j generalizing m with
  | zero => rfl
  | succ j ih => exact ih m.tick

theorem iterate_tick_startTime (j : ℕ) (m : Meter E) :
    (tick^[j] m).startTime = m.startTime := by
  induction j generalizing m with
  | zero => rfl
  | succ j ih => exact ih m.tick

theorem tickIfNecessary_count (now : UInt64) (m : Meter E) :
    (m.tickIfNecessary now).count = m.count := by
  unfold tickIfNecessary
  dsimp only
  split_ifs
  · exact iterate_tick_count _ _
  · rfl

theorem tickIfNecessary_rateUnit (now : UInt64) (m : Meter E) :
    (m.tickIfNecessary now).rateUnit = m.rateUnit := by
  unfold tickIfNecessary
  dsimp only
  split_ifs
  · exact iterate_tick_rateUnit _ _
  · rfl

theorem tickIfNecessary_startTime (now : UInt64) (m : Meter E) :
    (m.tickIfNecessary now).startTime = m.startTime := by
  unfold tickIfNecessary
  dsimp only
  split_ifs
  · exact iterate_tick_startTime _ _
  · rfl

theorem mark_count (n now : UInt64) (m : Meter E) : (m.mark n now).count = m.count + n :=
  congrArg (· + n) (tickIfNecessary_count now m)

theorem performAll_rate {P : E → Prop} {r : Rate} (hupdate : ∀ n e, P e → P (Averager.update n e))
    (htick : ∀ e, P e → P (Averager.tick e)) (cs : List TimedCall) {m : Meter E}
    (h : P (m.rate r)) : P ((m.performAll cs).rate r) := by
  have hticks : ∀ now {m : Meter E}, P (m.rate r) → P ((m.tickIfNecessary now).rate r) := by
    intro now m h
    unfold tickIfNecessary
    dsimp only
    split_ifs
    · rw [iterate_tick_rate]
      exact Function.Iterate.rec P (by cases r <;> exact h) htick _
    · exact h
  induction cs generalizing m with
  | nil => exact h
  | cons c cs ih =>
    refine ih ?_
    obtain ⟨time, call⟩ := c
    cases call with
    | mark n =>
      have hmark := hupdate n _ (hticks time h)
      cases r <;> exact hmark
    | getRate => exact hticks time h

/-! ### Forgetting what an average records -/

structure Forgets (f : E → F) : Prop where
  update : ∀ n e, f (Averager.update n e) = Averager.update n (f e)
  tick : ∀ e, f (Averager.tick e) = Averager.tick (f e)

theorem map_iterate_tick {f : E → F} (hf : Forgets f) (j : ℕ) (m : Meter E) :
    (tick^[j] m).map f = tick^[j] (m.map f) := by
  induction j generalizing m with
  | zero => rfl
  | succ j ih =>
    rw [Function.iterate_succ_apply, Function.iterate_succ_apply, ih]
    simp only [tick, map, hf.tick]

theorem map_tickIfNecessary {f : E → F} (hf : Forgets f) (now : UInt64) (m : Meter E) :
    (m.tickIfNecessary now).map f = (m.map f).tickIfNecessary now := by
  unfold tickIfNecessary
  dsimp only
  rw [apply_ite (map f), map_iterate_tick hf]
  rfl

theorem map_performAll {f : E → F} (hf : Forgets f) (cs : List TimedCall) (m : Meter E) :
    (m.performAll cs).map f = (m.map f).performAll cs := by
  induction cs generalizing m with
  | nil => rfl
  | cons c cs ih =>
    have hstep : (m.perform c).map f = (m.map f).perform c := by
      obtain ⟨time, call⟩ := c
      cases call with
      | mark n =>
        simp only [perform, mark, ← map_tickIfNecessary hf]
        simp only [map, hf.update]
      | getRate r => exact map_tickIfNecessary hf time m
    exact (ih (m.perform c)).trans (congrArg (performAll cs) hstep)

end Meter
end CppMetrics
