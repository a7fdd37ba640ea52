import CppMetrics.Core.MeterThreads

/-! How much a meter makes its threads do. No operation waits for another thread, and only the
thread that has claimed intervals does more than a few operations in a call. -/

namespace CppMetrics.Meter

section

variable {K : Type*}

def TickPc.left : TickPc K → ℕ
  | .exchange => 4
  | .loadInitialized _ => 3
  | .loadEwma _ | .storeEwma _ => 2
  | .compareExchange _ _ | .storeInitialized => 1

def later : Rate → ℕ
  | .m1 => 2
  | .m5 => 1
  | .m15 => 0

def Call.afterTicks : Call → ℕ
  | .mark _ => 4
  | .getRate _ => 1

/-- The operations of a call that claims no interval, the load of `last_tick_` included. -/
def Call.operations (c : Call) : ℕ := 3 + c.afterTicks

def left : Pc K → ℕ
  | .idle => 0
  | .loadTick c => 3 + c.afterTicks
  | .readClock c _ => 2 + c.afterTicks
  | .compareExchange c _ _ => 1 + c.afterTicks
  | .ticking c n r pc => pc.left + 4 * later r + 12 * n + c.afterTicks
  | .addCount _ => 4
  | .updating _ r => 1 + later r
  | .loadRate _ => 1

theorem left_afterTicks (c : Call) : left (afterTicks c : Pc K) = c.afterTicks := by
  cases c <;> rfl

theorem left_loop (c : Call) (n : ℕ) : left (loop c n : Pc K) = 12 * n + c.afterTicks := by
  cases n with
  | zero =>
    rw [loop, left_afterTicks]
    omega
  | succ n =>
    show 4 + 4 * 2 + 12 * n + c.afterTicks = _
    omega

theorem left_nextAverage (c : Call) (n : ℕ) (r : Rate) :
    left (nextAverage c n r : Pc K) = 4 * later r + 12 * n + c.afterTicks := by
  cases r with
  | m1 =>
    show 4 + 4 * 1 + 12 * n + c.afterTicks = 4 * 2 + 12 * n + c.afterTicks
    omega
  | m5 =>
    show 4 + 4 * 0 + 12 * n + c.afterTicks = 4 * 1 + 12 * n + c.afterTicks
    omega
  | m15 =>
    show left (loop c n : Pc K) = 4 * 0 + 12 * n + c.afterTicks
    rw [left_loop]
    omega

end

variable {K : Type*} [Field K] [DecidableEq K] {ι : Type*} [DecidableEq ι]

/-- The operations that each thread has done, those that its calls need without any tick, and the
intervals that it has claimed. -/
structure Work (ι : Type*) where
  done : ι → ℕ
  needed : ι → ℕ
  claimed : ι → ℕ
  claims : Claims

def Work.start (start : UInt64) : Work ι := ⟨fun _ => 0, fun _ => 0, fun _ => 0, ⟨0, start⟩⟩

def claimedBy (m : Meter (EWMA K)) : Pc K → ℕ
  | .compareExchange _ oldTick curTick =>
    if m.lastTick = oldTick then (requiredTicks oldTick curTick).toNat else 0
  | _ => 0

def Work.note (g : Work ι) (s : State ι K) : Action ι → Work ι
  | .advance now => { g with claims := g.claims.note s (.advance now) }
  | .call i c =>
    { g with
      needed := Function.update g.needed i (g.needed i + c.operations)
      claims := g.claims.note s (.call i c) }
  | .step i =>
    { g with
      done := Function.update g.done i (g.done i + 1)
      claimed := Function.update g.claimed i (g.claimed i + claimedBy s.meter (s.pc i))
      claims := g.claims.note s (.step i) }

/-! ### One operation -/

theorem TickPc.left_step (e : EWMA K) (tick : TickPc K) :
    (tick.step e).2.elim 0 TickPc.left + 1 = tick.left := by
  cases tick with
  | loadInitialized count => cases hinit : e.initialized <;> simp [TickPc.step, TickPc.left, hinit]
  | _ => rfl

variable {m m' : Meter (EWMA K)} {now : UInt64} {pc pc' : Pc K}

theorem left_threadStep (h : threadStep m now pc = some (m', pc')) :
    left pc' + 1 ≤ left pc + 12 * claimedBy m pc := by
  cases pc with
  | idle => cases h
  | loadTick c =>
    cases h
    show 2 + c.afterTicks + 1 ≤ 3 + c.afterTicks + 12 * 0
    omega
  | readClock c oldTick =>
    cases h
    split_ifs
    · show 1 + c.afterTicks + 1 ≤ 2 + c.afterTicks + 12 * 0
      omega
    · rw [left_afterTicks]
      show c.afterTicks + 1 ≤ 2 + c.afterTicks + 12 * 0
      omega
  | compareExchange c oldTick curTick =>
    rw [threadStep] at h
    rw [claimedBy]
    split_ifs at h ⊢ with heq <;> cases h
    · rw [left_loop]
      show _ ≤ 1 + c.afterTicks + _
      omega
    · rw [left_afterTicks]
      show _ ≤ 1 + c.afterTicks + _
      omega
  | ticking c n r tick =>
    have htick := tick.left_step (m.rate r)
    rw [threadStep] at h
    split at h <;> rename_i e hstep <;> cases h <;> rw [hstep] at htick
    · rw [Option.elim_some] at htick
      show _ + _ + _ + _ + 1 ≤ tick.left + _ + _ + _ + _
      omega
    · rw [Option.elim_none] at htick
      rw [left_nextAverage]
      show _ ≤ tick.left + _ + _ + _ + _
      omega
  | addCount n => cases h; exact le_rfl
  | updating n r => cases h; cases r <;> exact le_rfl
  | loadRate r => cases h; exact le_rfl

omit [Field K] [DecidableEq K] in
theorem claimed_noteStep (g : Claims) :
    (g.noteStep m now pc).claimed = g.claimed + claimedBy m pc := by
  cases pc with
  | compareExchange c oldTick curTick =>
    rw [Claims.noteStep, claimedBy]
    split_ifs <;> rfl
  | _ => rfl

theorem exists_threadStep (hpc : pc ≠ .idle) : ∃ x, threadStep m now pc = some x := by
  cases pc with
  | idle => exact absurd rfl hpc
  | compareExchange c oldTick curTick =>
    rw [threadStep]
    split_ifs <;> exact ⟨_, rfl⟩
  | ticking c n r tick =>
    rw [threadStep]
    split <;> exact ⟨_, rfl⟩
  | _ => exact ⟨_, rfl⟩

omit [Field K] [DecidableEq K] in
theorem left_pos (hpc : pc ≠ .idle) : 0 < left pc := by
  cases pc with
  | idle => exact absurd rfl hpc
  | ticking c n r tick =>
    have htick : 0 < tick.left := by cases tick <;> exact Nat.succ_pos _
    show 0 < tick.left + _ + _ + _
    omega
  | _ => simp [left]

/-! ### All threads -/

variable [Fintype ι]

structure Work.Holds (start : UInt64) (g : Work ι) (s : State ι K) : Prop where
  paid : ∀ i, g.done i + left (s.pc i) ≤ g.needed i + 12 * g.claimed i
  claims : g.claims.Holds start s
  claimed : ∑ i, g.claimed i = g.claims.claimed

variable {start : UInt64} {g : Work ι} {s t : State ι K} {a : Action ι}

theorem Work.Holds.step (h : g.Holds start s) (hstep : s.step a = some t) :
    (g.note s a).Holds start t := by
  have hclaims := (h.claims.step hstep).1
  rcases step_cases hstep with
    ⟨now, rfl, -, rfl⟩ | ⟨i, c, rfl, hidle, rfl⟩ | ⟨i, m', pc', rfl, hthread, rfl⟩
  · exact ⟨h.paid, hclaims, h.claimed⟩
  · refine ⟨fun j => ?_, hclaims, h.claimed⟩
    have hpaid := h.paid j
    dsimp only [Work.note]
    rcases eq_or_ne j i with rfl | hne
    · have hnone : left (.idle : Pc K) = 0 := rfl
      have hload : left (.loadTick c : Pc K) = c.operations := rfl
      rw [hidle] at hpaid
      rw [Function.update_self, Function.update_self]
      omega
    · rwa [Function.update_of_ne hne, Function.update_of_ne hne]
  · refine ⟨fun j => ?_, hclaims, ?_⟩
    · have hpaid := h.paid j
      dsimp only [Work.note]
      rcases eq_or_ne j i with rfl | hne
      · have hleft := left_threadStep hthread
        rw [Function.update_self, Function.update_self, Function.update_self]
        omega
      · rwa [Function.update_of_ne hne, Function.update_of_ne hne, Function.update_of_ne hne]
    · have hsum := Machine.sum_update_add id g.claimed i
        (g.claimed i + claimedBy s.meter (s.pc i))
      have hnote : (g.claims.note s (.step i)).claimed =
          g.claims.claimed + claimedBy s.meter (s.pc i) := claimed_noteStep g.claims
      have hclaimed := h.claimed
      simp only [id] at hsum
      dsimp only [Work.note]
      omega

/-- In every run each thread has done at most what its calls need, seven operations to mark and four
to read a rate, and twelve more for each interval that it has claimed; all threads together have
claimed the intervals from the start to `last_tick_`; and a thread in a call can always go on. -/
theorem calls_wait_free (A : EWMA.Alphas K) (rateUnit : Int64) (start : UInt64)
    (as : List (Action ι)) :
    Machine.Always (Machine.observe State.step Work.note)
      (fun x : Work ι × State ι K =>
        (∀ i, x.1.done i + left (x.2.pc i) ≤ x.1.needed i + 12 * x.1.claimed i) ∧
        x.2.meter.lastTick.toNat =
          start.toNat + (∑ i, x.1.claimed i) * TICK_INTERVAL.toNat ∧
        x.2.meter.lastTick ≤ x.2.clock ∧
        ∀ i, x.2.pc i ≠ .idle → 0 < left (x.2.pc i) ∧ ∃ t, x.2.step (.step i) = some t)
      (Work.start start, State.init A rateUnit start) as := by
  have hholds : Machine.Always (Machine.observe State.step Work.note)
      (fun x : Work ι × State ι K => x.1.Holds start x.2)
      (Work.start start, State.init A rateUnit start) as := by
    refine Machine.always_observe_of_invariant (P := Work.Holds start) Work.Holds.step ?_ as
    have hzero : start.toNat = start.toNat + 0 * TICK_INTERVAL.toNat := by
      rw [Nat.zero_mul, Nat.add_zero]
    exact ⟨fun _ => le_rfl, ⟨hzero, UInt64.le_refl _, UInt64.le_refl _, fun _ => trivial⟩,
      Finset.sum_const_zero⟩
  refine hholds.imp fun x hx => ⟨hx.paid, ?_, ?_, fun i hi => ?_⟩
  · rw [hx.claimed]
    exact hx.claims.lastTick
  · exact UInt64.le_trans hx.claims.lastTick_le hx.claims.latest_le
  · obtain ⟨y, hy⟩ : ∃ y, threadStep x.2.meter x.2.clock (x.2.pc i) = some y :=
      exists_threadStep hi
    exact ⟨left_pos hi, _, congrArg (Option.map _) hy⟩

end CppMetrics.Meter
