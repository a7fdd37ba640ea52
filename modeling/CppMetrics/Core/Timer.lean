import Mathlib.Algebra.Order.Ring.Cast
import CppMetrics.Core.Histogram
import CppMetrics.Core.Meter
import CppMetrics.Lib.Double

/-! The timer: durations go to a histogram and are marked on a meter. -/

namespace CppMetrics

variable {K D P : Type*} [Field K] [Less P]

def Meter.meanRate [LinearOrder K] (now : UInt64) (m : Meter (EWMA K)) : Double K :=
  let c := m.count
  if c > 0 then
    let elapsed : ℤ := now.toNat - m.startTime.toNat
    .finite ((c * m.rateUnit.toUInt64).toNat : K) / .finite (elapsed : K)
  else
    .finite 0

theorem Meter.meanRate_eq [LinearOrder K] [IsStrictOrderedRing K] {now : UInt64}
    {m : Meter (EWMA K)} (h : now ≠ m.startTime) :
    m.meanRate now = .finite (m.getMeanRate now) := by
  have helapsed : ((now.toNat - m.startTime.toNat : ℤ) : K) ≠ 0 := by
    rw [Int.cast_ne_zero]
    intro heq
    exact h (UInt64.toNat_inj.mp (by omega))
  unfold meanRate getMeanRate
  dsimp only
  split_ifs
  · rw [Double.finite_div, if_neg helapsed]
  · rfl

structure Timer (K P : Type*) [Less P] where
  meter : Meter (EWMA K)
  histogram : Histogram 1024 P

structure TimerContext where
  startTime : Int64
  active : Bool

namespace Timer

def new (A : EWMA.Alphas K) (start : UInt64) (now : Int64) (count : UInt64) : Timer K P :=
  ⟨Meter.create A (Int64.ofNat nanosPerSecond) start, Histogram.new .kBiased now count⟩

def getCount (t : Timer K P) : UInt64 := t.histogram.getCount

def getRateOf (r : Rate) (now : UInt64) (t : Timer K P) : K × Timer K P :=
  let (rate, meter) := t.meter.getRateOf r now
  (rate, { t with meter := meter })

def getMeanRate [LinearOrder K] (now : UInt64) (t : Timer K P) : Double K := t.meter.meanRate now

def getSnapshot (t : Timer K P) : Snapshot := t.histogram.getSnapshot

def clear (now : Int64) (t : Timer K P) : Timer K P := { t with histogram := t.histogram.clear now }

/-- `now` is the clock as the meter reads it. -/
def update (w : Weights D P) (duration : Int64) (e : Surroundings D) (now : UInt64)
    (t : Timer K P) : Except ExpDecaySample.Fault (Timer K P) :=
  let count := duration
  if 0 ≤ count then
    match t.histogram.update w count e with
    | .ok histogram => .ok ⟨t.meter.mark 1 now, histogram⟩
    | .error fault => .error fault
  else
    .ok t

end Timer

namespace TimerContext

def reset (now : Int64) (_ : TimerContext) : TimerContext := ⟨now, true⟩

def new (now : Int64) : TimerContext := reset now ⟨0, false⟩

def stop (w : Weights D P) (stopTime : Int64) (e : Surroundings D) (now : UInt64)
    (x : TimerContext) (t : Timer K P) :
    Except ExpDecaySample.Fault (Int64 × TimerContext × Timer K P) :=
  if x.active then
    let dur := stopTime - x.startTime
    match t.update w dur e now with
    | .ok t => .ok (dur, { x with active := false }, t)
    | .error fault => .error fault
  else
    .ok (0, x, t)

end TimerContext

namespace Timer

/-! ### Sequences of calls -/

structure State (K P : Type*) [Less P] where
  timer : Timer K P
  contexts : ℕ → Option TimerContext

inductive Call (D : Type*)
  | update (duration : Int64) (e : Surroundings D) (now : UInt64)
  | clear (now : Int64)
  | getRate (r : Rate) (now : UInt64)
  | getMeanRate (now : UInt64)
  | construct (c : ℕ) (startTime : Int64)
  | reset (c : ℕ) (startTime : Int64)
  | stop (c : ℕ) (stopTime : Int64) (e : Surroundings D) (now : UInt64)
  | destroy (c : ℕ) (stopTime : Int64) (e : Surroundings D) (now : UInt64)

/-- `time`: a context lives while the function runs, which may itself call the timer. -/
def timeCalls (c : ℕ) (startTime : Int64) (func : List (Call D)) (stopTime : Int64)
    (e : Surroundings D) (now : UInt64) : List (Call D) :=
  .construct c startTime :: func ++ [.destroy c stopTime e now]

def State.step (w : Weights D P) (s : State K P) : Call D → Option (State K P)
  | .update duration e now =>
    (s.timer.update w duration e now).toOption.map fun t => { s with timer := t }
  | .clear now => some { s with timer := s.timer.clear now }
  | .getRate r now => some { s with timer := (s.timer.getRateOf r now).2 }
  | .getMeanRate _ => some s
  | .construct c startTime =>
    match s.contexts c with
    | none => some { s with
        contexts := Function.update s.contexts c (some (TimerContext.new startTime)) }
    | some _ => none
  | .reset c startTime =>
    (s.contexts c).map fun x =>
      { s with contexts := Function.update s.contexts c (some (x.reset startTime)) }
  | .stop c stopTime e now =>
    (s.contexts c).bind fun x => (x.stop w stopTime e now s.timer).toOption.map fun r =>
      ⟨r.2.2, Function.update s.contexts c (some r.2.1)⟩
  | .destroy c stopTime e now =>
    (s.contexts c).bind fun x => (x.stop w stopTime e now s.timer).toOption.map fun r =>
      ⟨r.2.2, Function.update s.contexts c none⟩

def State.new (A : EWMA.Alphas K) (start : UInt64) (now : Int64) (count : UInt64) : State K P :=
  ⟨Timer.new A start now count, fun _ => none⟩

/-! ### What `time` measures -/

def Call.context : Call D → Option ℕ
  | .construct c _ | .reset c _ | .stop c _ _ _ | .destroy c _ _ _ => some c
  | _ => none

variable {w : Weights D P} {s u v : State K P} {i : ℕ}

theorem toOption_eq_some {ε α : Type*} {x : Except ε α} {a : α} :
    x.toOption = some a ↔ x = .ok a := by
  cases x with
  | error e => exact ⟨nofun, nofun⟩
  | ok b => rw [Except.toOption, Option.some.injEq, Except.ok.injEq]

theorem step_update_eq_some {duration : Int64} {e : Surroundings D} {now : UInt64} :
    s.step w (.update duration e now) = some u ↔
      ∃ t, s.timer.update w duration e now = .ok t ∧ { s with timer := t } = u := by
  simp only [State.step, Option.map_eq_some_iff, toOption_eq_some]

theorem step_construct_eq_some {startTime : Int64} :
    s.step w (.construct i startTime) = some u ↔ s.contexts i = none ∧
      ⟨s.timer, Function.update s.contexts i (some (TimerContext.new startTime))⟩ = u := by
  unfold State.step
  dsimp only
  cases s.contexts i with
  | none => rw [Option.some.injEq, and_iff_right rfl]
  | some x => exact ⟨nofun, fun h => nomatch h.1⟩

theorem step_reset_eq_some {startTime : Int64} :
    s.step w (.reset i startTime) = some u ↔ ∃ x, s.contexts i = some x ∧
      ⟨s.timer, Function.update s.contexts i (some (x.reset startTime))⟩ = u := by
  simp only [State.step, Option.map_eq_some_iff]

theorem step_stop_eq_some {stopTime : Int64} {e : Surroundings D} {now : UInt64} :
    s.step w (.stop i stopTime e now) = some u ↔ ∃ x, s.contexts i = some x ∧
      ∃ r, x.stop w stopTime e now s.timer = .ok r ∧
        ⟨r.2.2, Function.update s.contexts i (some r.2.1)⟩ = u := by
  simp only [State.step, Option.bind_eq_some_iff, Option.map_eq_some_iff, toOption_eq_some]

theorem step_destroy_eq_some {stopTime : Int64} {e : Surroundings D} {now : UInt64} :
    s.step w (.destroy i stopTime e now) = some u ↔ ∃ x, s.contexts i = some x ∧
      ∃ r, x.stop w stopTime e now s.timer = .ok r ∧
        ⟨r.2.2, Function.update s.contexts i none⟩ = u := by
  simp only [State.step, Option.bind_eq_some_iff, Option.map_eq_some_iff, toOption_eq_some]

theorem step_contexts_of_ne {c : Call D} (h : s.step w c = some u) (hne : c.context ≠ some i) :
    u.contexts i = s.contexts i := by
  cases c with
  | update duration e now =>
    obtain ⟨t, -, rfl⟩ := step_update_eq_some.mp h
    rfl
  | clear now => cases h; rfl
  | getRate r now => cases h; rfl
  | getMeanRate now => cases h; rfl
  | construct j startTime =>
    obtain ⟨-, rfl⟩ := step_construct_eq_some.mp h
    exact Function.update_of_ne (fun hij => hne (congrArg some hij.symm)) _ _
  | reset j startTime =>
    obtain ⟨x, -, rfl⟩ := step_reset_eq_some.mp h
    exact Function.update_of_ne (fun hij => hne (congrArg some hij.symm)) _ _
  | stop j stopTime e now =>
    obtain ⟨x, -, r, -, rfl⟩ := step_stop_eq_some.mp h
    exact Function.update_of_ne (fun hij => hne (congrArg some hij.symm)) _ _
  | destroy j stopTime e now =>
    obtain ⟨x, -, r, -, rfl⟩ := step_destroy_eq_some.mp h
    exact Function.update_of_ne (fun hij => hne (congrArg some hij.symm)) _ _

theorem run_contexts_of_ne {cs : List (Call D)} (h : Machine.run (State.step w) s cs = some u)
    (hne : ∀ c ∈ cs, c.context ≠ some i) : u.contexts i = s.contexts i := by
  induction cs generalizing s with
  | nil => exact congrArg (fun s => s.contexts i) (Option.some.inj h).symm
  | cons c cs ih =>
    obtain ⟨t, ht, h⟩ := Machine.run_cons_eq_some.mp h
    rw [ih h fun c' hc' => hne c' (List.mem_cons_of_mem c hc')]
    exact step_contexts_of_ne ht (hne c List.mem_cons_self)

theorem stop_cases {x : TimerContext} {stopTime : Int64} {e : Surroundings D} {now : UInt64}
    {t : Timer K P} {r : Int64 × TimerContext × Timer K P}
    (h : x.stop w stopTime e now t = .ok r) :
    (∃ t', x.active = true ∧ t.update w (stopTime - x.startTime) e now = .ok t' ∧
        r = (stopTime - x.startTime, { x with active := false }, t')) ∨
      x.active = false ∧ r = (0, x, t) := by
  unfold TimerContext.stop at h
  dsimp only at h
  split_ifs at h with hactive
  · cases hupdate : t.update w (stopTime - x.startTime) e now with
    | error fault =>
      rw [hupdate] at h
      cases h
    | ok t' =>
      rw [hupdate] at h
      exact Or.inl ⟨t', hactive, rfl, (Except.ok.inj h).symm⟩
  · exact Or.inr ⟨Bool.eq_false_iff.mpr hactive, (Except.ok.inj h).symm⟩

theorem stop_new {startTime stopTime : Int64} {e : Surroundings D} {now : UInt64}
    {t : Timer K P} {r : Int64 × TimerContext × Timer K P}
    (h : (TimerContext.new startTime).stop w stopTime e now t = .ok r) :
    t.update w (stopTime - startTime) e now = .ok r.2.2 := by
  rcases stop_cases h with ⟨t', -, hupdate, rfl⟩ | ⟨hactive, -⟩
  · exact hupdate
  · cases hactive

/-- Whatever the function does, `time` ends with an `update` by the time it took. -/
theorem run_time {startTime stopTime : Int64} {func : List (Call D)} {e : Surroundings D}
    {now : UInt64} (hne : ∀ c ∈ func, c.context ≠ some i)
    (h : Machine.run (State.step w) s (timeCalls i startTime func stopTime e now) = some u) :
    ∃ v, Machine.run (State.step w) ⟨s.timer, Function.update s.contexts i
        (some (TimerContext.new startTime))⟩ func = some v ∧
      v.timer.update w (stopTime - startTime) e now = .ok u.timer ∧ u.contexts i = none := by
  obtain ⟨s', hconstruct, h⟩ := Machine.run_cons_eq_some.mp h
  obtain ⟨v, hfunc, hdestroy⟩ := Machine.run_append_eq_some.mp h
  rw [Machine.run_singleton] at hdestroy
  obtain ⟨-, rfl⟩ := step_construct_eq_some.mp hconstruct
  have hcontext : v.contexts i = some (TimerContext.new startTime) :=
    (run_contexts_of_ne hfunc hne).trans (Function.update_self ..)
  obtain ⟨x, hx, r, hr, rfl⟩ := step_destroy_eq_some.mp hdestroy
  obtain rfl := Option.some.inj (hcontext.symm.trans hx)
  exact ⟨v, hfunc, stop_new hr, Function.update_self ..⟩

end Timer
end CppMetrics
