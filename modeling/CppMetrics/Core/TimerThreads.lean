import CppMetrics.Core.HistogramRuns
import CppMetrics.Core.MeterRates
import CppMetrics.Core.Timer

/-! The timer as many threads run it. A duration goes to the histogram first and is marked on the
meter after that; operations of other threads may come between any two of these. -/

namespace CppMetrics

namespace Meter

section

variable {K : Type*}

def uncounted : Pc K → ℕ
  | .loadTick c | .readClock c _ | .compareExchange c _ _ | .ticking c _ _ _ => c.events
  | .addCount n => n.toNat
  | .idle | .updating _ _ | .loadRate _ => 0

def added : Pc K → ℕ
  | .addCount n => n.toNat
  | _ => 0

theorem uncounted_afterTicks (c : Call) : uncounted (afterTicks c : Pc K) = c.events := by
  cases c <;> rfl

theorem uncounted_loop (c : Call) (left : ℕ) : uncounted (loop c left : Pc K) = c.events := by
  cases left with
  | zero => exact uncounted_afterTicks c
  | succ left => rfl

theorem uncounted_nextAverage (c : Call) (left : ℕ) (r : Rate) :
    uncounted (nextAverage c left r : Pc K) = c.events := by
  cases r with
  | m1 | m5 => rfl
  | m15 => exact uncounted_loop c left

theorem uncounted_nextUpdate (n : UInt64) (r : Rate) : uncounted (nextUpdate n r : Pc K) = 0 := by
  cases r <;> rfl

theorem setRate_count (r : Rate) (e : EWMA K) (m : Meter (EWMA K)) :
    (m.setRate r e).count = m.count := by
  cases r <;> rfl

end

variable {K : Type*} [Field K] [DecidableEq K] {m m' : Meter (EWMA K)} {now : UInt64}
  {pc pc' : Pc K}

theorem threadStep_count (h : threadStep m now pc = some (m', pc')) :
    m'.count = m.count + UInt64.ofNat (added pc) ∧ added pc + uncounted pc' = uncounted pc := by
  have hzero : m.count = m.count + UInt64.ofNat 0 := (UInt64.add_zero _).symm
  cases pc with
  | idle => cases h
  | loadTick c => cases h; exact ⟨hzero, Nat.zero_add _⟩
  | readClock c oldTick =>
    cases h
    refine ⟨hzero, (Nat.zero_add _).trans ?_⟩
    split_ifs
    · rfl
    · exact uncounted_afterTicks c
  | compareExchange c oldTick curTick =>
    rw [threadStep] at h
    split_ifs at h
    · cases h
      exact ⟨hzero, (Nat.zero_add _).trans (uncounted_loop c _)⟩
    · cases h
      exact ⟨hzero, (Nat.zero_add _).trans (uncounted_afterTicks c)⟩
  | ticking c left r tick =>
    rw [threadStep] at h
    split at h
    · cases h
      exact ⟨(setRate_count r _ m).trans hzero, Nat.zero_add _⟩
    · cases h
      exact ⟨(setRate_count r _ m).trans hzero,
        (Nat.zero_add _).trans (uncounted_nextAverage c left r)⟩
  | addCount n =>
    cases h
    exact ⟨by rw [added, UInt64.ofNat_toNat], Nat.add_zero _⟩
  | updating n r =>
    cases h
    exact ⟨(setRate_count r _ m).trans hzero, (Nat.zero_add _).trans (uncounted_nextUpdate n r)⟩
  | loadRate r => cases h; exact ⟨hzero, Nat.zero_add _⟩

end Meter

namespace Timer.Threads

inductive Pc (K : Type*)
  | idle
  /-- In `update`, after `++count_` of the histogram. -/
  | counted (duration : Int64)
  /-- In `clear`, after `count_ = 0`. -/
  | reset
  | meter (pc : Meter.Pc K)

structure State (ι K P : Type*) [Less P] where
  timer : Timer K P
  clock : UInt64
  pc : ι → Pc K

/-- The sample's `update` and `clear` hold its mutex and are one operation each. -/
inductive Action (ι D : Type*)
  | advance (now : UInt64)
  | update (i : ι) (duration : Int64)
  | sampleUpdate (i : ι) (e : Surroundings D)
  | clear (i : ι)
  | sampleClear (i : ι) (now : Int64)
  | getRate (i : ι) (r : Rate)
  | step (i : ι)

def afterMeter {K : Type*} : Meter.Pc K → Pc K
  | .idle => .idle
  | pc => .meter pc

variable {ι D K P : Type*} [DecidableEq ι] [Field K] [DecidableEq K] [Less P]

def State.step (w : Weights D P) (s : State ι K P) : Action ι D → Option (State ι K P)
  | .advance now => if s.clock ≤ now then some { s with clock := now } else none
  | .update i duration =>
    match s.pc i with
    | .idle =>
      -- a clock that went backwards gives a negative duration, and nothing is recorded
      if 0 ≤ duration then
        some ⟨⟨s.timer.meter, ⟨s.timer.histogram.count + 1, s.timer.histogram.sample⟩⟩, s.clock,
          Function.update s.pc i (.counted duration)⟩
      else some s
    | _ => none
  | .sampleUpdate i e =>
    match s.pc i with
    | .counted duration =>
      match s.timer.histogram.sample.update w duration e with
      | .ok sample =>
        some ⟨⟨s.timer.meter, ⟨s.timer.histogram.count, sample⟩⟩, s.clock,
          Function.update s.pc i (.meter (.loadTick (.mark 1)))⟩
      | .error _ => none
    | _ => none
  | .clear i =>
    match s.pc i with
    | .idle =>
      some ⟨⟨s.timer.meter, ⟨0, s.timer.histogram.sample⟩⟩, s.clock,
        Function.update s.pc i .reset⟩
    | _ => none
  | .sampleClear i now =>
    match s.pc i with
    | .reset =>
      some ⟨⟨s.timer.meter, ⟨s.timer.histogram.count, s.timer.histogram.sample.clear now⟩⟩,
        s.clock, Function.update s.pc i .idle⟩
    | _ => none
  | .getRate i r =>
    match s.pc i with
    | .idle => some { s with pc := Function.update s.pc i (.meter (.loadTick (.getRate r))) }
    | _ => none
  | .step i =>
    match s.pc i with
    | .meter pc =>
      (Meter.threadStep s.timer.meter s.clock pc).map fun x =>
        ⟨⟨x.1, s.timer.histogram⟩, s.clock, Function.update s.pc i (afterMeter x.2)⟩
    | _ => none

def State.new (A : EWMA.Alphas K) (start : UInt64) (now : Int64) (count : UInt64) : State ι K P :=
  ⟨Timer.new A start now count, start, fun _ => .idle⟩

inductive Taken (w : Weights D P) (s : State ι K P) : Action ι D → State ι K P → Prop
  | advance {now : UInt64} : s.clock ≤ now → Taken w s (.advance now) { s with clock := now }
  | update {i : ι} {duration : Int64} : s.pc i = .idle → 0 ≤ duration →
      Taken w s (.update i duration)
        ⟨⟨s.timer.meter, ⟨s.timer.histogram.count + 1, s.timer.histogram.sample⟩⟩, s.clock,
          Function.update s.pc i (.counted duration)⟩
  | refused {i : ι} {duration : Int64} : ¬0 ≤ duration → Taken w s (.update i duration) s
  | sampleUpdate {i : ι} {e : Surroundings D} {duration : Int64} {sample : Sample 1024 P} :
      s.pc i = .counted duration → s.timer.histogram.sample.update w duration e = .ok sample →
      Taken w s (.sampleUpdate i e)
        ⟨⟨s.timer.meter, ⟨s.timer.histogram.count, sample⟩⟩, s.clock,
          Function.update s.pc i (.meter (.loadTick (.mark 1)))⟩
  | clear {i : ι} : s.pc i = .idle →
      Taken w s (.clear i) ⟨⟨s.timer.meter, ⟨0, s.timer.histogram.sample⟩⟩, s.clock,
        Function.update s.pc i .reset⟩
  | sampleClear {i : ι} {now : Int64} : s.pc i = .reset →
      Taken w s (.sampleClear i now)
        ⟨⟨s.timer.meter, ⟨s.timer.histogram.count, s.timer.histogram.sample.clear now⟩⟩,
          s.clock, Function.update s.pc i .idle⟩
  | getRate {i : ι} {r : Rate} : s.pc i = .idle →
      Taken w s (.getRate i r)
        { s with pc := Function.update s.pc i (.meter (.loadTick (.getRate r))) }
  | step {i : ι} {pc pc' : Meter.Pc K} {meter : Meter (EWMA K)} : s.pc i = .meter pc →
      Meter.threadStep s.timer.meter s.clock pc = some (meter, pc') →
      Taken w s (.step i)
        ⟨⟨meter, s.timer.histogram⟩, s.clock, Function.update s.pc i (afterMeter pc')⟩

variable {w : Weights D P} {s t : State ι K P} {a : Action ι D}

theorem taken_of_step (h : s.step w a = some t) : Taken w s a t := by
  cases a with
  | advance now =>
    simp only [State.step] at h
    split_ifs at h with hle
    cases h
    exact .advance hle
  | update i duration =>
    simp only [State.step] at h
    split at h
    · split_ifs at h with hsign <;> cases h
      · exact .update ‹_› hsign
      · exact .refused hsign
    · cases h
  | sampleUpdate i e =>
    simp only [State.step] at h
    split at h
    · split at h <;> cases h
      exact .sampleUpdate ‹_› ‹_›
    · cases h
  | clear i =>
    simp only [State.step] at h
    split at h <;> cases h
    exact .clear ‹_›
  | sampleClear i now =>
    simp only [State.step] at h
    split at h <;> cases h
    exact .sampleClear ‹_›
  | getRate i r =>
    simp only [State.step] at h
    split at h <;> cases h
    exact .getRate ‹_›
  | step i =>
    simp only [State.step] at h
    split at h
    · obtain ⟨⟨meter, pc'⟩, hthread, rfl⟩ := Option.map_eq_some_iff.mp h
      exact .step ‹_› hthread
    · cases h

/-! ### The meter in the timer -/

def Pc.inMeter : Pc K → Meter.Pc K
  | .meter pc => pc
  | _ => .idle

def State.inMeter (s : State ι K P) : Meter.State ι K :=
  ⟨s.timer.meter, s.clock, fun i => (s.pc i).inMeter⟩

/-- What a step is for the meter, if it is anything. -/
def Action.onMeter : Action ι D → Option (Meter.Action ι)
  | .advance now => some (.advance now)
  | .sampleUpdate i _ => some (.call i (.mark 1))
  | .getRate i r => some (.call i (.getRate r))
  | .step i => some (.step i)
  | .update _ _ | .clear _ | .sampleClear _ _ => none

omit [Field K] [DecidableEq K] in
theorem inMeter_afterMeter (pc : Meter.Pc K) : (afterMeter pc).inMeter = pc := by
  cases pc <;> rfl

omit [Field K] [DecidableEq K] in
theorem inMeter_goto (s : State ι K P) (timer : Timer K P) (i : ι) (p : Pc K) :
    (⟨timer, s.clock, Function.update s.pc i p⟩ : State ι K P).inMeter =
      ⟨timer.meter, s.clock, Function.update s.inMeter.pc i p.inMeter⟩ := by
  refine congrArg (Meter.State.mk _ _) (funext fun j => ?_)
  exact Function.apply_update (fun _ => Pc.inMeter) s.pc i p j

omit [Field K] [DecidableEq K] in
theorem inMeter_outside {timer : Timer K P} (htimer : timer.meter = s.timer.meter) {i : ι}
    {p : Pc K} (hi : (s.pc i).inMeter = .idle) (hp : p.inMeter = .idle) :
    (⟨timer, s.clock, Function.update s.pc i p⟩ : State ι K P).inMeter = s.inMeter := by
  have hsame : Function.update s.inMeter.pc i p.inMeter = s.inMeter.pc := by
    rw [hp, ← hi]
    exact Function.update_eq_self i s.inMeter.pc
  rw [inMeter_goto, hsame, htimer]
  rfl

theorem inMeter_call {timer : Timer K P} (htimer : timer.meter = s.timer.meter) {i : ι}
    {c : Meter.Call} (hi : (s.pc i).inMeter = .idle) :
    s.inMeter.step (.call i c) =
      some (⟨timer, s.clock, Function.update s.pc i (.meter (.loadTick c))⟩ :
        State ι K P).inMeter := by
  have hidle : Meter.isIdle (s.inMeter.pc i) := Meter.isIdle_iff.mpr hi
  rw [inMeter_goto, htimer]
  exact if_pos hidle

theorem onMeter_none (h : Taken w s a t) (ha : a.onMeter = none) : t.inMeter = s.inMeter := by
  cases h with
  | refused => rfl
  | update hpc | clear hpc | sampleClear hpc => exact inMeter_outside rfl (by rw [hpc]; rfl) rfl
  | advance | sampleUpdate | getRate | step => cases ha

theorem onMeter_some (h : Taken w s a t) {b : Meter.Action ι} (ha : a.onMeter = some b) :
    s.inMeter.step b = some t.inMeter := by
  cases h with
  | update | refused | clear | sampleClear => cases ha
  | advance hle =>
    cases ha
    exact if_pos hle
  | sampleUpdate hpc | getRate hpc =>
    cases ha
    exact inMeter_call rfl (by rw [hpc]; rfl)
  | @step i pc pc' meter hpc hthread =>
    cases ha
    have hi : s.inMeter.pc i = pc := by
      show (s.pc i).inMeter = pc
      rw [hpc]
      rfl
    have hmeter : Meter.threadStep s.inMeter.meter s.inMeter.clock (s.inMeter.pc i) =
        some (meter, pc') := by
      rw [hi]
      exact hthread
    rw [inMeter_goto, inMeter_afterMeter, Meter.State.step, hmeter]
    rfl

/-! ### What the threads have done -/

/-- The durations counted, those counted since the count was last set to zero, the marks that have
come to the meter's count, the durations in the sample or dropped from it since it was last emptied,
and what the threads have done in the meter. -/
structure Log where
  recorded : ℕ
  sinceReset : ℕ
  marked : ℕ
  sampled : List Int64
  rates : Meter.RateLog

def Log.start (start : UInt64) : Log := ⟨0, 0, 0, [], Meter.RateLog.start start⟩

def Log.noteTimer (g : Log) (s : State ι K P) : Action ι D → Log
  | .update _ duration =>
    if 0 ≤ duration then
      { g with recorded := g.recorded + 1, sinceReset := g.sinceReset + 1 }
    else g
  | .sampleUpdate i _ =>
    match s.pc i with
    | .counted duration => { g with sampled := g.sampled ++ [duration] }
    | _ => g
  | .clear _ => { g with sinceReset := 0 }
  | .sampleClear _ _ => { g with sampled := [] }
  | .step i =>
    match s.pc i with
    | .meter pc => { g with marked := g.marked + Meter.added pc }
    | _ => g
  | .advance _ | .getRate _ _ => g

def Log.note (g : Log) (s : State ι K P) (a : Action ι D) : Log :=
  { g.noteTimer s a with rates := a.onMeter.elim g.rates (g.rates.note s.inMeter) }

/-- The meter of a timer runs as a meter does. -/
theorem simulates_meter {g g' : Log}
    (h : Machine.observe (State.step w) Log.note (g, s) a = some (g', t)) :
    Machine.run (Machine.observe Meter.State.step Meter.RateLog.note) (g.rates, s.inMeter)
      a.onMeter.toList = some (g'.rates, t.inMeter) := by
  obtain ⟨hstep, rfl⟩ := Machine.observe_eq_some.mp h
  have htaken := taken_of_step hstep
  cases ha : a.onMeter with
  | none =>
    rw [onMeter_none htaken ha, Log.note, ha]
    rfl
  | some b =>
    rw [Log.note, ha]
    exact (Machine.run_singleton _ _).trans
      (Machine.observe_eq_some.mpr ⟨onMeter_some htaken ha, rfl⟩)

/-! ### The counts -/

def Pc.pending : Pc K → ℕ
  | .counted _ => 1
  | .meter pc => Meter.uncounted pc
  | .idle | .reset => 0

def Pc.waiting : Pc K → ℕ
  | .counted _ => 1
  | _ => 0

omit [Field K] [DecidableEq K] in
theorem pending_afterMeter (pc : Meter.Pc K) : (afterMeter pc).pending = Meter.uncounted pc := by
  cases pc <;> rfl

omit [Field K] [DecidableEq K] in
theorem waiting_afterMeter (pc : Meter.Pc K) : (afterMeter pc).waiting = 0 := by
  cases pc <;> rfl

section

variable [Fintype ι] {g : Log}

structure Counts (g : Log) (s : State ι K P) : Prop where
  count : s.timer.histogram.count = UInt64.ofNat g.sinceReset
  sinceReset_le : g.sinceReset ≤ g.recorded
  meterCount : s.timer.meter.count = UInt64.ofNat g.marked
  pending : g.marked + ∑ i, (s.pc i).pending = g.recorded
  pending_le : ∀ i, (s.pc i).pending ≤ 1
  waiting : g.rates.marked + ∑ i, (s.pc i).waiting = g.recorded

omit [Field K] [DecidableEq K] in
theorem Counts.goto (h : Counts g s) {g' : Log} {timer : Timer K P} {i : ι} {p : Pc K}
    (hcount : timer.histogram.count = UInt64.ofNat g'.sinceReset)
    (hle : g'.sinceReset ≤ g'.recorded) (hmeter : timer.meter.count = UInt64.ofNat g'.marked)
    (hpending : g'.marked + p.pending + g.recorded = g'.recorded + (s.pc i).pending + g.marked)
    (hone : p.pending ≤ 1)
    (hwaiting : g'.rates.marked + p.waiting + g.recorded =
      g'.recorded + (s.pc i).waiting + g.rates.marked) :
    Counts g' ⟨timer, s.clock, Function.update s.pc i p⟩ where
  count := hcount
  sinceReset_le := hle
  meterCount := hmeter
  pending := by
    have hsum := Machine.sum_update_add Pc.pending s.pc i p
    have hbefore := h.pending
    dsimp only
    omega
  pending_le := (Function.forall_update_iff s.pc fun _ q => q.pending ≤ 1).mpr
    ⟨hone, fun j _ => h.pending_le j⟩
  waiting := by
    have hsum := Machine.sum_update_add Pc.waiting s.pc i p
    have hbefore := h.waiting
    dsimp only
    omega

theorem Counts.step (h : Counts g s) (htaken : Taken w s a t) : Counts (g.note s a) t := by
  have hle := h.sinceReset_le
  cases htaken with
  | advance => exact ⟨h.count, hle, h.meterCount, h.pending, h.pending_le, h.waiting⟩
  | refused hsign =>
    rw [Log.note, Log.noteTimer, if_neg hsign]
    exact h
  | @update i duration hpc hsign =>
    rw [Log.note, Log.noteTimer, if_pos hsign]
    refine h.goto ?_ (Nat.succ_le_succ hle) h.meterCount ?_ le_rfl ?_
    · show s.timer.histogram.count + 1 = _
      rw [h.count, UInt64.ofNat_add]
      rfl
    · simp only [hpc, Pc.pending]
      omega
    · simp only [hpc, Pc.waiting, Action.onMeter, Option.elim_none]
      omega
  | @sampleUpdate i e duration sample hpc hok =>
    have hmark : (g.rates.note s.inMeter (.call i (.mark 1))).marked = g.rates.marked + 1 := rfl
    have hone : Meter.uncounted (.loadTick (.mark 1) : Meter.Pc K) = 1 := rfl
    simp only [Log.note, Log.noteTimer, hpc, Action.onMeter, Option.elim_some]
    refine h.goto h.count hle h.meterCount ?_ le_rfl ?_
    · simp only [hpc, Pc.pending, hone]
      omega
    · simp only [hpc, Pc.waiting, hmark]
      omega
  | clear hpc =>
    refine h.goto rfl (Nat.zero_le _) h.meterCount ?_ (Nat.zero_le _) ?_
    · simp only [hpc, Pc.pending]
      exact Nat.add_comm _ _
    · simp only [hpc, Pc.waiting]
      exact Nat.add_comm _ _
  | sampleClear hpc =>
    refine h.goto h.count hle h.meterCount ?_ (Nat.zero_le _) ?_
    · simp only [hpc, Pc.pending]
      exact Nat.add_comm _ _
    · simp only [hpc, Pc.waiting]
      exact Nat.add_comm _ _
  | getRate hpc =>
    refine h.goto h.count hle h.meterCount ?_ (Nat.zero_le _) ?_
    · simp only [hpc, Pc.pending]
      exact Nat.add_comm _ _
    · simp only [hpc, Pc.waiting]
      exact Nat.add_comm _ _
  | @step i pc pc' meter hpc hthread =>
    obtain ⟨hcount, hevents⟩ := Meter.threadStep_count hthread
    have hpending : (s.pc i).pending = Meter.uncounted pc := by rw [hpc, Pc.pending]
    have hwaiting : (s.pc i).waiting = 0 := by rw [hpc, Pc.waiting]; exact nofun
    have hone : Meter.uncounted pc ≤ 1 := hpending ▸ h.pending_le i
    simp only [Log.note, Log.noteTimer, hpc, Action.onMeter, Option.elim_some]
    refine h.goto h.count hle ?_ ?_ ?_ ?_
    · rw [hcount, h.meterCount, UInt64.ofNat_add]
    · rw [pending_afterMeter, hpending]
      dsimp only
      omega
    · rw [pending_afterMeter]
      omega
    · rw [waiting_afterMeter, hwaiting]
      exact Nat.add_comm _ _

omit [Field K] [DecidableEq K] [DecidableEq ι] in
theorem Counts.lag (h : Counts g s) : g.recorded ≤ g.marked + Fintype.card ι := by
  have hsum : ∑ i, (s.pc i).pending ≤ ∑ _i : ι, 1 := Finset.sum_le_sum fun i _ => h.pending_le i
  rw [Finset.sum_const, Finset.card_univ, smul_eq_mul, Nat.mul_one] at hsum
  have hpending := h.pending
  omega

omit [DecidableEq ι] [DecidableEq K] in
theorem counts_new (A : EWMA.Alphas K) (start : UInt64) (now : Int64) (count : UInt64) :
    Counts (Log.start start) (State.new A start now count : State ι K P) where
  count := rfl
  sinceReset_le := le_rfl
  meterCount := rfl
  pending := (Nat.zero_add _).trans Finset.sum_const_zero
  pending_le _ := Nat.zero_le 1
  waiting := (Nat.zero_add _).trans Finset.sum_const_zero

/-! ### The sample -/

structure Sampled (g : Log) (s : State ι K P) : Prop where
  sample : ∃ sample, s.timer.histogram.sample = .biased sample ∧ sample.Records 1024 g.sampled
  nonneg : ∀ v ∈ g.sampled, 0 ≤ v
  held : ∀ i v, s.pc i = .counted v → 0 ≤ v

omit [Field K] [DecidableEq K] [Fintype ι] in
theorem Sampled.goto (h : Sampled g s) {g' : Log} (hsampled : g'.sampled = g.sampled)
    {timer : Timer K P} (htimer : timer.histogram.sample = s.timer.histogram.sample) {i : ι}
    {p : Pc K} (hp : ∀ v, p = .counted v → 0 ≤ v) :
    Sampled g' ⟨timer, s.clock, Function.update s.pc i p⟩ where
  sample := by
    rw [hsampled]
    exact htimer ▸ h.sample
  nonneg := hsampled ▸ h.nonneg
  held := (Function.forall_update_iff s.pc fun _ q => ∀ v, q = .counted v → 0 ≤ v).mpr
    ⟨hp, fun j _ => h.held j⟩

omit [Fintype ι] in
theorem Sampled.step (h : Sampled g s) (htaken : Taken w s a t) : Sampled (g.note s a) t := by
  have hheld : ∀ {i : ι} {p : Pc K}, (∀ v, p = .counted v → 0 ≤ v) →
      ∀ j v, Function.update s.pc i p j = .counted v → 0 ≤ v := fun {i p} hp =>
    (Function.forall_update_iff s.pc fun _ q => ∀ v, q = .counted v → 0 ≤ v).mpr
      ⟨hp, fun j _ => h.held j⟩
  cases htaken with
  | advance => exact ⟨h.sample, h.nonneg, h.held⟩
  | refused hsign =>
    rw [Log.note, Log.noteTimer, if_neg hsign]
    exact ⟨h.sample, h.nonneg, h.held⟩
  | @update i duration hpc hsign =>
    rw [Log.note, Log.noteTimer, if_pos hsign]
    refine h.goto ?_ ?_ fun v hv => ?_
    · rfl
    · rfl
    · cases hv
      exact hsign
  | @sampleUpdate i e duration sample hpc hok =>
    obtain ⟨old, hold, hrecords⟩ := h.sample
    rw [hold, Sample.update] at hok
    simp only [Log.note, Log.noteTimer, hpc]
    refine ⟨?_, fun v hv => ?_, hheld (p := .meter _) nofun⟩
    · cases hupdate : old.update w duration e.now e.draws with
      | error fault =>
        rw [hupdate] at hok
        cases hok
      | ok new =>
        rw [hupdate] at hok
        cases hok
        exact ⟨new, rfl, hrecords.update hupdate⟩
    · rcases List.mem_append.mp hv with hv | hv
      · exact h.nonneg v hv
      · exact List.mem_singleton.mp hv ▸ h.held i duration hpc
  | clear | getRate =>
    refine h.goto ?_ ?_ ?_
    · rfl
    · rfl
    · exact nofun
  | @sampleClear i now hpc =>
    obtain ⟨old, hold, hrecords⟩ := h.sample
    refine ⟨⟨old.clear now, ?_, ExpDecaySample.records_clear hrecords.slotted.reservoirSize⟩,
      fun v hv => absurd hv List.not_mem_nil, hheld (p := .idle) nofun⟩
    dsimp only
    rw [hold]
    rfl
  | @step i pc pc' meter hpc hthread =>
    simp only [Log.note, Log.noteTimer, hpc]
    refine h.goto ?_ ?_ fun v hv => ?_
    · rfl
    · rfl
    · cases pc' <;> cases hv

omit [DecidableEq K] [DecidableEq ι] [Fintype ι] in
theorem sampled_new (A : EWMA.Alphas K) (start : UInt64) (now : Int64) (count : UInt64) :
    Sampled (Log.start start) (State.new A start now count : State ι K P) where
  sample := ⟨_, rfl, ExpDecaySample.records_clear rfl⟩
  nonneg _ hv := absurd hv List.not_mem_nil
  held _ _ hv := nomatch hv

omit [Field K] [DecidableEq K] [DecidableEq ι] [Fintype ι] in
theorem Sampled.shows (h : Sampled g s) (hlt : g.sampled.length < 2 ^ 64) :
    s.timer.getSnapshot.Shows 1024 g.sampled := by
  obtain ⟨sample, hsample, hrecords⟩ := h.sample
  have hsnapshot : s.timer.getSnapshot = sample.getSnapshot := by
    rw [getSnapshot, Histogram.getSnapshot, hsample, Sample.getSnapshot]
  rw [hsnapshot]
  exact hrecords.shows hlt

end

/-! ### Whole runs -/

structure Shows [Fintype ι] (start : UInt64) (g : Log) (s : State ι ℝ P) : Prop where
  getCount : s.timer.getCount = UInt64.ofNat g.sinceReset
  sinceReset_le : g.sinceReset ≤ g.recorded
  meterCount : s.timer.meter.count = UInt64.ofNat g.marked
  lag : g.marked ≤ g.recorded ∧ g.recorded ≤ g.marked + Fintype.card ι
  settled : (∀ i, s.pc i = .idle) → g.marked = g.recorded
  snapshot : g.sampled.length < 2 ^ 64 → s.timer.getSnapshot.Shows 1024 g.sampled
  nonneg : ∀ v ∈ g.sampled, 0 ≤ v
  rates : ∀ r, Meter.Sequential (Meter.newAverage (Int64.ofNat nanosPerSecond) start r) start r
    g.rates s.inMeter
  passed : g.rates.marked ≤ g.recorded

/-- Whatever threads record, clear and read, and however their operations interleave: the count is
that of the durations counted since it was last set to zero, the meter has counted all durations
ever recorded but at most one for each thread, its rates are those of a meter, and the snapshot
shows durations that came to the sample since it was last emptied, none of them negative. -/
theorem timer_shows [Fintype ι] (w : Weights D P) (start : UInt64) (now : Int64) (count : UInt64)
    (as : List (Action ι D)) :
    Machine.Always (Machine.observe (State.step w) Log.note)
      (fun x : Log × State ι ℝ P => Shows start x.1 x.2)
      (Log.start start, State.new EWMA.Alphas.source start now count) as := by
  have hcounts : Machine.Always (Machine.observe (State.step w) Log.note)
      (fun x : Log × State ι ℝ P => Counts x.1 x.2 ∧ Sampled x.1 x.2)
      (Log.start start, State.new EWMA.Alphas.source start now count) as := by
    refine Machine.always_observe_of_invariant
      (P := fun (g : Log) (s : State ι ℝ P) => Counts g s ∧ Sampled g s) (fun h hstep => ?_)
      ⟨counts_new _ start now count, sampled_new _ start now count⟩ as
    exact ⟨h.1.step (taken_of_step hstep), h.2.step (taken_of_step hstep)⟩
  have hrates : Machine.Always (Machine.observe (State.step w) Log.note)
      (fun x : Log × State ι ℝ P => ∀ r, Meter.Sequential
        (Meter.newAverage (Int64.ofNat nanosPerSecond) start r) start r x.1.rates x.2.inMeter)
      (Log.start start, State.new EWMA.Alphas.source start now count) as := by
    refine Machine.Always.of_simulates
      (P := fun y => ∀ r, Meter.Sequential
        (Meter.newAverage (Int64.ofNat nanosPerSecond) start r) start r y.1 y.2)
      (fun x : Log × State ι ℝ P => (x.1.rates, x.2.inMeter)) (fun a => a.onMeter.toList)
      (fun hstep => simulates_meter hstep) (fun bs => ?_) as
    exact (Meter.always_claimed (Int64.ofNat nanosPerSecond) start bs).imp fun y hy =>
      Meter.sequential_of_claimed (Int64.ofNat nanosPerSecond) start hy
  refine (hcounts.and hrates).imp fun x hx => ?_
  obtain ⟨⟨hcount, hsampled⟩, hrates⟩ := hx
  have hpending := hcount.pending
  have hwaiting := hcount.waiting
  exact {
    getCount := hcount.count
    sinceReset_le := hcount.sinceReset_le
    meterCount := hcount.meterCount
    lag := ⟨by omega, hcount.lag⟩
    settled := fun hidle => by
      have hnone : ∑ i, (x.2.pc i).pending = 0 :=
        Finset.sum_eq_zero fun i _ => by rw [hidle i, Pc.pending]
      omega
    snapshot := hsampled.shows
    nonneg := hsampled.nonneg
    rates := hrates
    passed := by omega }

end Timer.Threads

end CppMetrics
