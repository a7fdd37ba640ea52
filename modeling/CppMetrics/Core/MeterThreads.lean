import CppMetrics.Core.Meter
import CppMetrics.Lib.Machine

/-! The meter as many threads run it. Each atomic operation of `Meter` and `EWMA`, and each reading
of the clock, is one step; the program counter of a thread names the operation it performs next
and holds its local variables. -/

namespace CppMetrics.Meter

inductive TickPc (K : Type*)
  | exchange
  | loadInitialized (count : UInt64)
  | loadEwma (count : UInt64)
  | compareExchange (count : UInt64) (curEwma : K)
  | storeEwma (count : UInt64)
  | storeInitialized

inductive Pc (K : Type*)
  | idle
  | loadTick (c : Call)
  | readClock (c : Call) (oldTick : UInt64)
  | compareExchange (c : Call) (oldTick curTick : UInt64)
  | ticking (c : Call) (left : ℕ) (r : Rate) (pc : TickPc K)
  | addCount (n : UInt64)
  | updating (n : UInt64) (r : Rate)
  | loadRate (r : Rate)

section

variable {K : Type*}

def setRate (r : Rate) (e : EWMA K) (m : Meter (EWMA K)) : Meter (EWMA K) :=
  match r with
  | .m1 => { m with m1Rate := e }
  | .m5 => { m with m5Rate := e }
  | .m15 => { m with m15Rate := e }

@[simp] theorem setRate_lastTick (r : Rate) (e : EWMA K) (m : Meter (EWMA K)) :
    (m.setRate r e).lastTick = m.lastTick := by
  cases r <;> rfl

theorem setRate_rate (r r' : Rate) (e : EWMA K) (m : Meter (EWMA K)) :
    (m.setRate r e).rate r' = if r' = r then e else m.rate r' := by
  cases r <;> cases r' <;> rfl

def afterTicks : Call → Pc K
  | .mark n => .addCount n
  | .getRate r => .loadRate r

def loop (c : Call) : ℕ → Pc K
  | 0 => afterTicks c
  | left + 1 => .ticking c left .m1 .exchange

def nextAverage (c : Call) (left : ℕ) : Rate → Pc K
  | .m1 => .ticking c left .m5 .exchange
  | .m5 => .ticking c left .m15 .exchange
  | .m15 => loop c left

def nextUpdate (n : UInt64) : Rate → Pc K
  | .m1 => .updating n .m5
  | .m5 => .updating n .m15
  | .m15 => .idle

end

variable {K : Type*} [Field K] [DecidableEq K]

def TickPc.step (e : EWMA K) : TickPc K → EWMA K × Option (TickPc K)
  | .exchange => ({ e with uncounted := 0 }, some (.loadInitialized e.uncounted))
  | .loadInitialized count =>
    (e, some (if e.initialized then .loadEwma count else .storeEwma count))
  | .loadEwma count => (e, some (.compareExchange count e.ewma))
  | .compareExchange count curEwma =>
    let newRate := EWMA.blend e.alpha curEwma (EWMA.instantRate count e.intervalNanos)
    -- the result of the exchange is not looked at
    (if e.ewma = curEwma then { e with ewma := newRate } else e, none)
  | .storeEwma count =>
    ({ e with ewma := EWMA.instantRate count e.intervalNanos }, some .storeInitialized)
  | .storeInitialized => ({ e with initialized := true }, none)

def threadStep (m : Meter (EWMA K)) (now : UInt64) : Pc K → Option (Meter (EWMA K) × Pc K)
  | .idle => none
  | .loadTick c => some (m, .readClock c m.lastTick)
  | .readClock c oldTick =>
    some (m, if tickAge oldTick now > TICK_INTERVAL then .compareExchange c oldTick now
      else afterTicks c)
  | .compareExchange c oldTick curTick =>
    if m.lastTick = oldTick then
      some ({ m with lastTick := newTick oldTick curTick },
        loop c (requiredTicks oldTick curTick).toNat)
    else
      some (m, afterTicks c)
  | .ticking c left r pc =>
    match pc.step (m.rate r) with
    | (e, some pc') => some (m.setRate r e, .ticking c left r pc')
    | (e, none) => some (m.setRate r e, nextAverage c left r)
  | .addCount n => some ({ m with count := m.count + n }, .updating n .m1)
  | .updating n r => some (m.setRate r ((m.rate r).update n), nextUpdate n r)
  | .loadRate _ => some (m, .idle)

structure State (ι K : Type*) where
  meter : Meter (EWMA K)
  clock : UInt64
  pc : ι → Pc K

inductive Action (ι : Type*)
  | advance (now : UInt64)
  | call (i : ι) (c : Call)
  | step (i : ι)

variable {ι : Type*} [DecidableEq ι]

def isIdle : Pc K → Bool
  | .idle => true
  | _ => false

omit [Field K] [DecidableEq K] in
theorem isIdle_iff {pc : Pc K} : isIdle pc ↔ pc = .idle := by
  cases pc <;> simp [isIdle]

def State.step (s : State ι K) : Action ι → Option (State ι K)
  | .advance now => if s.clock ≤ now then some { s with clock := now } else none
  | .call i c =>
    if isIdle (s.pc i) then some { s with pc := Function.update s.pc i (.loadTick c) } else none
  | .step i =>
    (threadStep s.meter s.clock (s.pc i)).map fun x =>
      { s with meter := x.1, pc := Function.update s.pc i x.2 }

theorem step_cases {s t : State ι K} {a : Action ι} (h : s.step a = some t) :
    (∃ now, a = .advance now ∧ s.clock ≤ now ∧ t = { s with clock := now }) ∨
    (∃ i c, a = .call i c ∧ s.pc i = .idle ∧
      t = { s with pc := Function.update s.pc i (.loadTick c) }) ∨
    ∃ i m pc, a = .step i ∧ threadStep s.meter s.clock (s.pc i) = some (m, pc) ∧
      t = { s with meter := m, pc := Function.update s.pc i pc } := by
  cases a with
  | advance now =>
    unfold State.step at h
    dsimp only at h
    split_ifs at h with hle
    exact Or.inl ⟨now, rfl, hle, (Option.some.inj h).symm⟩
  | call i c =>
    unfold State.step at h
    dsimp only at h
    split_ifs at h with hidle
    exact Or.inr (Or.inl ⟨i, c, rfl, isIdle_iff.mp hidle, (Option.some.inj h).symm⟩)
  | step i =>
    obtain ⟨⟨m, pc⟩, hthread, rfl⟩ := Option.map_eq_some_iff.mp h
    exact Or.inr (Or.inr ⟨i, m, pc, rfl, hthread, rfl⟩)

def State.init (A : EWMA.Alphas K) (rateUnit : Int64) (start : UInt64) : State ι K :=
  ⟨create A rateUnit start, start, fun _ => .idle⟩

/-! ### Who claims the elapsed intervals -/

/-- The `required_ticks` of all successful exchanges of `last_tick_`, and the latest reading of the
clock. -/
structure Claims where
  claimed : ℕ
  latest : UInt64

def Claims.noteStep (g : Claims) (m : Meter (EWMA K)) (now : UInt64) : Pc K → Claims
  | .readClock _ _ => { g with latest := now }
  | .compareExchange _ oldTick curTick =>
    if m.lastTick = oldTick then
      { g with claimed := g.claimed + (requiredTicks oldTick curTick).toNat }
    else g
  | _ => g

def Claims.note (g : Claims) (s : State ι K) : Action ι → Claims
  | .step i => g.noteStep s.meter s.clock (s.pc i)
  | _ => g

def pastClaim : Pc K → Bool
  | .loadTick _ | .readClock _ _ | .compareExchange _ _ _ => false
  | _ => true

omit [Field K] [DecidableEq K] in
theorem pastClaim_afterTicks (c : Call) : pastClaim (afterTicks c : Pc K) := by
  cases c <;> rfl

omit [Field K] [DecidableEq K] in
theorem pastClaim_loop (c : Call) (left : ℕ) : pastClaim (loop c left : Pc K) := by
  cases left with
  | zero => exact pastClaim_afterTicks c
  | succ left => rfl

variable {m m' : Meter (EWMA K)} {now : UInt64} {pc pc' : Pc K}

theorem threadStep_cases (h : threadStep m now pc = some (m', pc')) :
    (∃ c, pc = .loadTick c ∧ m' = m ∧ pc' = .readClock c m.lastTick) ∨
    (∃ c oldTick, pc = .readClock c oldTick ∧ m' = m ∧
      (pc' = .compareExchange c oldTick now ∨ pastClaim pc')) ∨
    (∃ c oldTick curTick, pc = .compareExchange c oldTick curTick ∧ pastClaim pc' ∧
      (m.lastTick = oldTick ∧ m' = { m with lastTick := newTick oldTick curTick } ∨
        m.lastTick ≠ oldTick ∧ m' = m)) ∨
    (pastClaim pc ∧ pastClaim pc' ∧ m'.lastTick = m.lastTick) := by
  cases pc with
  | idle => cases h
  | loadTick c =>
    cases h
    exact Or.inl ⟨c, rfl, rfl, rfl⟩
  | readClock c oldTick =>
    cases h
    refine Or.inr (Or.inl ⟨c, oldTick, rfl, rfl, ?_⟩)
    split_ifs
    · exact Or.inl rfl
    · exact Or.inr (pastClaim_afterTicks c)
  | compareExchange c oldTick curTick =>
    refine Or.inr (Or.inr (Or.inl ⟨c, oldTick, curTick, rfl, ?_⟩))
    rw [threadStep] at h
    split_ifs at h with heq
    · cases h
      exact ⟨pastClaim_loop c _, Or.inl ⟨heq, rfl⟩⟩
    · cases h
      exact ⟨pastClaim_afterTicks c, Or.inr ⟨heq, rfl⟩⟩
  | ticking c left r pc =>
    refine Or.inr (Or.inr (Or.inr ⟨rfl, ?_⟩))
    rw [threadStep] at h
    split at h <;> cases h
    · exact ⟨rfl, setRate_lastTick _ _ _⟩
    · refine ⟨?_, setRate_lastTick _ _ _⟩
      cases r with
      | m1 => rfl
      | m5 => rfl
      | m15 => exact pastClaim_loop c left
  | addCount n =>
    cases h
    exact Or.inr (Or.inr (Or.inr ⟨rfl, rfl, rfl⟩))
  | updating n r =>
    cases h
    refine Or.inr (Or.inr (Or.inr ⟨rfl, ?_, setRate_lastTick _ _ _⟩))
    cases r <;> rfl
  | loadRate r =>
    cases h
    exact Or.inr (Or.inr (Or.inr ⟨rfl, rfl, rfl⟩))

/-- What a thread has loaded and read is not newer than `lastTick` and `latest`, and it loaded
before it read. -/
def Ordered (lastTick latest : UInt64) : Pc K → Prop
  | .readClock _ oldTick => oldTick ≤ lastTick
  | .compareExchange _ oldTick curTick => oldTick ≤ curTick ∧ curTick ≤ latest
  | _ => True

omit [Field K] [DecidableEq K] in
theorem Ordered.mono {lastTick lastTick' latest latest' : UInt64} (h : Ordered lastTick latest pc)
    (hlast : lastTick ≤ lastTick') (hlatest : latest ≤ latest') : Ordered lastTick' latest' pc := by
  cases pc with
  | readClock c oldTick => exact UInt64.le_trans h hlast
  | compareExchange c oldTick curTick => exact ⟨h.1, UInt64.le_trans h.2 hlatest⟩
  | _ => trivial

omit [Field K] [DecidableEq K] in
theorem Ordered.of_pastClaim {lastTick latest : UInt64} (h : pastClaim pc) :
    Ordered lastTick latest pc := by
  cases pc with
  | readClock c oldTick => cases h
  | compareExchange c oldTick curTick => cases h
  | _ => trivial

theorem newTick_le {oldTick curTick : UInt64} (h : oldTick ≤ curTick) :
    oldTick ≤ newTick oldTick curTick ∧ newTick oldTick curTick ≤ curTick := by
  have hnew := newTick_toNat h
  have hreq := requiredTicks_toNat h
  have hmod := Nat.div_mul_le_self (curTick.toNat - oldTick.toNat) TICK_INTERVAL.toNat
  rw [UInt64.le_iff_toNat_le] at h
  rw [UInt64.le_iff_toNat_le, UInt64.le_iff_toNat_le, hnew, hreq]
  omega

/-- `last_tick_` is a whole number of claimed intervals after the start and not after the latest
reading of the clock. -/
structure Claims.Holds (start : UInt64) (g : Claims) (s : State ι K) : Prop where
  lastTick : s.meter.lastTick.toNat = start.toNat + g.claimed * TICK_INTERVAL.toNat
  lastTick_le : s.meter.lastTick ≤ g.latest
  latest_le : g.latest ≤ s.clock
  ordered : ∀ i, Ordered s.meter.lastTick g.latest (s.pc i)

variable {s t : State ι K} {a : Action ι} {start : UInt64} {g : Claims}

omit [Field K] [DecidableEq K] [DecidableEq ι] in
theorem noteStep_of_pastClaim (h : pastClaim pc) : g.noteStep m now pc = g := by
  cases pc with
  | readClock c oldTick => cases h
  | compareExchange c oldTick curTick => cases h
  | _ => rfl

omit [Field K] [DecidableEq K] in
theorem Claims.Holds.goto {i : ι} (h : g.Holds start s)
    (hlast : m'.lastTick = s.meter.lastTick) (hpc : Ordered s.meter.lastTick g.latest pc') :
    g.Holds start ⟨m', s.clock, Function.update s.pc i pc'⟩ ∧ s.meter.lastTick ≤ m'.lastTick := by
  refine ⟨⟨hlast ▸ h.lastTick, hlast ▸ h.lastTick_le, h.latest_le, ?_⟩, ?_⟩
  · dsimp only
    rw [hlast]
    exact (Function.forall_update_iff _ _).mpr ⟨hpc, fun j _ => h.ordered j⟩
  · rw [hlast]
    exact UInt64.le_refl _

theorem Claims.Holds.threadStep {i : ι} (h : g.Holds start s)
    (hstep : threadStep s.meter s.clock (s.pc i) = some (m', pc')) :
    (g.noteStep s.meter s.clock (s.pc i)).Holds start ⟨m', s.clock, Function.update s.pc i pc'⟩ ∧
      s.meter.lastTick ≤ m'.lastTick := by
  have hi := h.ordered i
  have hclock := UInt64.le_trans h.lastTick_le h.latest_le
  rcases threadStep_cases hstep with ⟨c, hpc, rfl, rfl⟩ | ⟨c, oldTick, hpc, rfl, hnext⟩ |
    ⟨c, oldTick, curTick, hpc, hpast, hcas⟩ | ⟨hpast, hpast', hlast⟩
  · rw [hpc]
    exact h.goto rfl (UInt64.le_refl _)
  · -- the clock is read after `last_tick_` was loaded, and shows at least that
    rw [hpc] at hi ⊢
    refine ⟨⟨h.lastTick, hclock, UInt64.le_refl _, ?_⟩, UInt64.le_refl _⟩
    refine (Function.forall_update_iff _ _).mpr ⟨?_, fun j _ =>
      (h.ordered j).mono (UInt64.le_refl _) h.latest_le⟩
    rcases hnext with rfl | hpast
    · exact ⟨UInt64.le_trans hi hclock, UInt64.le_refl _⟩
    · exact Ordered.of_pastClaim hpast
  · rw [hpc] at hi ⊢
    obtain ⟨hle, hcur⟩ := hi
    rcases hcas with ⟨rfl, rfl⟩ | ⟨hne, rfl⟩
    · -- the exchange succeeds, and claims whole intervals up to the reading it was computed from
      obtain ⟨hgrow, hnew⟩ := newTick_le hle
      rw [Claims.noteStep, if_pos rfl]
      refine ⟨⟨?_, UInt64.le_trans hnew hcur, h.latest_le, ?_⟩, hgrow⟩
      · dsimp only
        rw [newTick_toNat hle, h.lastTick, Nat.add_mul, Nat.add_assoc]
      · exact (Function.forall_update_iff _ _).mpr ⟨Ordered.of_pastClaim hpast, fun j _ =>
          (h.ordered j).mono hgrow (UInt64.le_refl _)⟩
    · rw [Claims.noteStep, if_neg hne]
      exact h.goto rfl (Ordered.of_pastClaim hpast)
  · rw [noteStep_of_pastClaim hpast]
    exact h.goto hlast (Ordered.of_pastClaim hpast')

theorem Claims.Holds.step (h : g.Holds start s) (hstep : s.step a = some t) :
    (g.note s a).Holds start t ∧ s.meter.lastTick ≤ t.meter.lastTick := by
  rcases step_cases hstep with
    ⟨now, rfl, hle, rfl⟩ | ⟨i, c, rfl, -, rfl⟩ | ⟨i, m', pc', rfl, hthread, rfl⟩
  · exact ⟨⟨h.lastTick, h.lastTick_le, UInt64.le_trans h.latest_le hle, h.ordered⟩,
      UInt64.le_refl _⟩
  · exact h.goto rfl trivial
  · exact h.threadStep hthread

/-- In every reachable state `last_tick_` is the start time advanced by exactly the intervals that
successful exchanges have claimed, and not after the latest reading of the clock; no operation
moves it back; and where a thread is about to read the clock or to exchange, the age it computes
does not wrap. -/
theorem intervals_claimed_once (A : EWMA.Alphas K) (rateUnit : Int64) (start : UInt64)
    (as : List (Action ι)) :
    Machine.Always (Machine.observe State.step Claims.note)
      (fun x =>
        x.2.meter.lastTick.toNat = start.toNat + x.1.claimed * TICK_INTERVAL.toNat ∧
        x.2.meter.lastTick ≤ x.1.latest ∧ x.1.latest ≤ x.2.clock ∧
        (∀ a t, x.2.step a = some t → x.2.meter.lastTick ≤ t.meter.lastTick) ∧
        ∀ i c oldTick, (x.2.pc i = .readClock c oldTick → oldTick ≤ x.2.clock) ∧
          ∀ curTick, x.2.pc i = .compareExchange c oldTick curTick → oldTick ≤ curTick)
      (⟨0, start⟩, State.init A rateUnit start) as := by
  have hinv : Machine.Always (Machine.observe State.step Claims.note)
      (fun x => x.1.Holds start x.2) (⟨0, start⟩, State.init A rateUnit start) as := by
    refine Machine.always_observe_of_invariant (P := Claims.Holds start) ?_ ?_ as
    · exact fun h hstep => (h.step hstep).1
    · have hstart : start.toNat = start.toNat + 0 * TICK_INTERVAL.toNat := by
        rw [Nat.zero_mul, Nat.add_zero]
      exact ⟨hstart, UInt64.le_refl _, UInt64.le_refl _, fun _ => trivial⟩
  refine hinv.imp fun x hx => ?_
  obtain ⟨g, s⟩ := x
  refine ⟨hx.lastTick, hx.lastTick_le, hx.latest_le, fun a t ht => (hx.step ht).2,
    fun i c oldTick => ⟨fun hpc => ?_, fun curTick hpc => ?_⟩⟩
  · have hi := hx.ordered i
    rw [hpc] at hi
    exact UInt64.le_trans hi (UInt64.le_trans hx.lastTick_le hx.latest_le)
  · have hi := hx.ordered i
    rw [hpc] at hi
    exact hi.1

end CppMetrics.Meter
