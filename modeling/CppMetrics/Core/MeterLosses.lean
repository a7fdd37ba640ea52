import CppMetrics.Core.MeterThreads

/-! What becomes of the marked events when threads interleave. A tick takes the uncounted events of
an average and brings them into its rate in two more operations, which another tick can come
between; a ledger follows every count. -/

namespace CppMetrics.Meter

/-- Of the events taken from one average: those that its rate accounts for, and those that nothing
accounts for any more. -/
structure Account where
  absorbed : ℕ
  lost : ℕ

structure Ledger where
  marked : ℕ
  accounts : Rate → Account

def Ledger.empty : Ledger := ⟨0, fun _ => ⟨0, 0⟩⟩

section

variable {K : Type*}

def TickPc.taken : TickPc K → ℕ
  | .loadInitialized count | .loadEwma count | .compareExchange count _ | .storeEwma count =>
    count.toNat
  | .exchange | .storeInitialized => 0

def Call.events : Call → ℕ
  | .mark n => n.toNat
  | .getRate _ => 0

def toUpdate : Rate → List Rate
  | .m1 => [.m1, .m5, .m15]
  | .m5 => [.m5, .m15]
  | .m15 => [.m15]

def owed (r : Rate) : Pc K → ℕ
  | .idle | .loadRate _ => 0
  | .loadTick c | .readClock c _ | .compareExchange c _ _ => c.events
  | .ticking c _ r' pc => c.events + if r = r' then pc.taken else 0
  | .addCount n => n.toNat
  | .updating n r' => if r ∈ toUpdate r' then n.toNat else 0

theorem owed_afterTicks (r : Rate) (c : Call) : owed r (afterTicks c : Pc K) = c.events := by
  cases c <;> rfl

theorem owed_loop (r : Rate) (c : Call) (left : ℕ) : owed r (loop c left : Pc K) = c.events := by
  cases left with
  | zero => exact owed_afterTicks r c
  | succ left => exact (congrArg (c.events + ·) (ite_self 0)).trans (Nat.add_zero _)

theorem owed_nextAverage (r r' : Rate) (c : Call) (left : ℕ) :
    owed r (nextAverage c left r' : Pc K) = c.events := by
  cases r' with
  | m1 => exact (congrArg (c.events + ·) (ite_self 0)).trans (Nat.add_zero _)
  | m5 => exact (congrArg (c.events + ·) (ite_self 0)).trans (Nat.add_zero _)
  | m15 => exact owed_loop r c left

theorem owed_nextUpdate (r r' : Rate) (n : UInt64) :
    owed r (nextUpdate n r' : Pc K) + (if r = r' then n.toNat else 0) =
      owed r (.updating n r' : Pc K) := by
  cases r <;> cases r' <;> simp [owed, nextUpdate, toUpdate]

end

variable {K : Type*} [Field K] [DecidableEq K] {ι : Type*} [DecidableEq ι]

def TickPc.note (e : EWMA K) (x : Account) : TickPc K → Account
  | .compareExchange count curEwma =>
    if e.ewma = curEwma then { x with absorbed := x.absorbed + count.toNat }
    else { x with lost := x.lost + count.toNat }
  -- what the rate accounted for is overwritten
  | .storeEwma count => ⟨count.toNat, x.lost + x.absorbed⟩
  | _ => x

def Ledger.noteStep (g : Ledger) (m : Meter (EWMA K)) : Pc K → Ledger
  | .ticking _ _ r pc =>
    { g with accounts := Function.update g.accounts r (pc.note (m.rate r) (g.accounts r)) }
  | .updating n r =>
    if (m.rate r).uncounted.toNat + n.toNat < UInt64.size then g
    else
      let x := g.accounts r
      { g with accounts := Function.update g.accounts r { x with lost := x.lost + UInt64.size } }
  | _ => g

def Ledger.note (g : Ledger) (s : State ι K) : Action ι → Ledger
  | .call _ c => { g with marked := g.marked + c.events }
  | .step i => g.noteStep s.meter (s.pc i)
  | _ => g

/-- An exchange finds the rate it was computed from, or has no events to bring; a first rate is
stored over a rate of zero. -/
def TickPc.Brings (e : EWMA K) : TickPc K → Prop
  | .compareExchange count curEwma => e.ewma = curEwma ∨ count = 0
  | .storeEwma _ => e.ewma = 0
  | _ => True

/-- The operation leaves no events behind: a tick brings them into the rate, and an update does not
wrap `uncounted_`. -/
def Brings (m : Meter (EWMA K)) : Pc K → Prop
  | .ticking _ _ r pc => pc.Brings (m.rate r)
  | .updating n r => (m.rate r).uncounted.toNat + n.toNat < UInt64.size
  | _ => True

def StepBrings (s : State ι K) : Action ι → Prop
  | .step i => Brings s.meter (s.pc i)
  | _ => True

def Quiescent (s : State ι K) : Prop := ∀ i, s.pc i = .idle

/-! ### One average -/

theorem TickPc.conserves {e e' : EWMA K} {next : Option (TickPc K)} {pc : TickPc K}
    (h : pc.step e = (e', next)) (x : Account) :
    e'.uncounted.toNat + (next.elim 0 TickPc.taken) + (pc.note e x).absorbed + (pc.note e x).lost =
      e.uncounted.toNat + pc.taken + x.absorbed + x.lost := by
  cases pc with
  | exchange =>
    cases h
    simp [TickPc.taken, TickPc.note]
  | loadInitialized count =>
    cases h
    cases e.initialized <;> rfl
  | loadEwma count => cases h; rfl
  | compareExchange count curEwma =>
    cases h
    simp only [TickPc.note, TickPc.taken, Option.elim_none]
    split_ifs <;> dsimp only <;> omega
  | storeEwma count =>
    cases h
    simp only [TickPc.note, TickPc.taken, Option.elim_some]
    omega
  | storeInitialized => cases h; rfl

variable {m m' : Meter (EWMA K)} {now : UInt64} {pc pc' : Pc K} {g : Ledger}

omit [Field K] [DecidableEq K] in
theorem update_conserves (n : UInt64) (e : EWMA K) :
    (e.update n).uncounted.toNat +
        (if e.uncounted.toNat + n.toNat < UInt64.size then 0 else UInt64.size) =
      e.uncounted.toNat + n.toNat := by
  have he := e.uncounted.toNat_lt
  have hn := n.toNat_lt
  rw [EWMA.update_uncounted, UInt64.toNat_add, UInt64.size]
  split_ifs <;> omega

theorem threadStep_conserves (h : threadStep m now pc = some (m', pc')) (r : Rate) :
    (m'.rate r).uncounted.toNat + owed r pc' + ((g.noteStep m pc).accounts r).absorbed +
        ((g.noteStep m pc).accounts r).lost =
      (m.rate r).uncounted.toNat + owed r pc + (g.accounts r).absorbed + (g.accounts r).lost := by
  cases pc with
  | idle => cases h
  | loadTick c => cases h; rfl
  | readClock c oldTick =>
    cases h
    split_ifs
    · rfl
    · rw [owed_afterTicks]; rfl
  | compareExchange c oldTick curTick =>
    rw [threadStep] at h
    split_ifs at h <;> cases h
    · rw [owed_loop]
      cases r <;> rfl
    · rw [owed_afterTicks]; rfl
  | addCount n =>
    cases h
    cases r <;> rfl
  | loadRate r => cases h; rfl
  | updating n r' =>
    cases h
    have hupd := update_conserves n (m.rate r')
    have howed := owed_nextUpdate (K := K) r r' n
    rw [setRate_rate, Ledger.noteStep]
    rcases eq_or_ne r r' with rfl | hne
    · rw [if_pos rfl] at howed ⊢
      split_ifs at hupd ⊢
      · omega
      · dsimp only
        rw [Function.update_self]
        dsimp only
        generalize UInt64.size = w at hupd ⊢
        omega
    · rw [if_neg hne] at howed ⊢
      split_ifs
      · omega
      · dsimp only
        rw [Function.update_of_ne hne]
        omega
  | ticking c left r' pc =>
    have hcons := fun e next (hpc : pc.step (m.rate r') = (e, next)) =>
      TickPc.conserves hpc (g.accounts r')
    rw [threadStep] at h
    rw [Ledger.noteStep, owed]
    dsimp only
    split at h <;> rename_i e hpc <;> cases h <;> rw [setRate_rate]
    · have hmoved := hcons _ _ hpc
      rw [Option.elim_some] at hmoved
      rcases eq_or_ne r r' with rfl | hne
      · rw [if_pos rfl, if_pos rfl, Function.update_self, owed, if_pos rfl]
        omega
      · rw [if_neg hne, if_neg hne, Function.update_of_ne hne, owed, if_neg hne]
    · have hmoved := hcons _ _ hpc
      rw [Option.elim_none] at hmoved
      rw [owed_nextAverage]
      rcases eq_or_ne r r' with rfl | hne
      · rw [if_pos rfl, if_pos rfl, Function.update_self]
        omega
      · rw [if_neg hne, if_neg hne, Function.update_of_ne hne, Nat.add_zero]

/-! ### The rate and its account -/

section

variable {K : Type*} [Field K] [LinearOrder K] [IsStrictOrderedRing K] {ι : Type*} [DecidableEq ι]

/-- The rate is zero exactly as long as it accounts for no events. -/
structure Weighed (e : EWMA K) (x : Account) : Prop where
  alpha : e.alpha ∈ Set.Ioo (0 : K) 1
  interval : 0 < e.intervalNanos.toNat
  nonneg : 0 ≤ e.ewma
  zero_iff : e.ewma = 0 ↔ x.absorbed = 0

variable {e : EWMA K} {x : Account}

theorem Weighed.instantRate (h : Weighed e x) (count : UInt64) :
    (0 : K) ≤ EWMA.instantRate count e.intervalNanos ∧
      ((EWMA.instantRate count e.intervalNanos : K) = 0 ↔ count.toNat = 0) := by
  have hpos : (0 : K) < e.intervalNanos.toNat := Nat.cast_pos.mpr h.interval
  unfold EWMA.instantRate
  refine ⟨div_nonneg (Nat.cast_nonneg _) hpos.le, ?_⟩
  rw [div_eq_zero_iff, or_iff_left hpos.ne', Nat.cast_eq_zero]

theorem Weighed.blend (h : Weighed e x) (count : UInt64) :
    Weighed { e with
        ewma := EWMA.blend e.alpha e.ewma (EWMA.instantRate count e.intervalNanos) }
      { x with absorbed := x.absorbed + count.toNat } := by
  obtain ⟨hrate, hzero⟩ := h.instantRate count
  obtain ⟨hpos, hlt⟩ := h.alpha
  have hblend : EWMA.blend e.alpha e.ewma (EWMA.instantRate count e.intervalNanos) =
      (1 - e.alpha) * e.ewma + e.alpha * EWMA.instantRate count e.intervalNanos := by
    unfold EWMA.blend
    ring
  have hold : 0 ≤ (1 - e.alpha) * e.ewma := mul_nonneg (sub_pos.mpr hlt).le h.nonneg
  have hnew := mul_nonneg hpos.le hrate
  refine ⟨h.alpha, h.interval, hblend ▸ add_nonneg hold hnew, ?_⟩
  dsimp only
  rw [hblend, add_eq_zero_iff_of_nonneg hold hnew, mul_eq_zero, mul_eq_zero,
    or_iff_right (sub_pos.mpr hlt).ne', or_iff_right hpos.ne', h.zero_iff, hzero]
  exact Nat.add_eq_zero_iff.symm

theorem Weighed.step (h : Weighed e x) (pc : TickPc K) :
    Weighed (pc.step e).1 (pc.note e x) := by
  cases pc with
  | compareExchange count curEwma =>
    unfold TickPc.step TickPc.note
    dsimp only
    split_ifs with heq
    · exact heq ▸ h.blend count
    · exact ⟨h.alpha, h.interval, h.nonneg, h.zero_iff⟩
  | storeEwma count =>
    obtain ⟨hrate, hzero⟩ := h.instantRate count
    exact ⟨h.alpha, h.interval, hrate, hzero⟩
  | _ => exact ⟨h.alpha, h.interval, h.nonneg, h.zero_iff⟩

omit [IsStrictOrderedRing K] in
theorem Weighed.update (h : Weighed e x) (n : UInt64) (lost : ℕ) :
    Weighed (e.update n) ⟨x.absorbed, lost⟩ :=
  ⟨h.alpha, h.interval, h.nonneg, h.zero_iff⟩

omit [IsStrictOrderedRing K] in
theorem TickPc.note_lost (h : Weighed e x) (pc : TickPc K) :
    x.lost ≤ (pc.note e x).lost ∧ ((pc.note e x).lost = x.lost ↔ pc.Brings e) := by
  cases pc with
  | compareExchange count curEwma =>
    unfold TickPc.note TickPc.Brings
    dsimp only
    split_ifs with heq
    · exact ⟨le_rfl, iff_of_true rfl (Or.inl heq)⟩
    · rw [or_iff_right heq, ← UInt64.toNat_inj, UInt64.toNat_zero]
      dsimp only
      omega
  | storeEwma count =>
    unfold TickPc.note TickPc.Brings
    rw [h.zero_iff]
    dsimp only
    omega
  | _ => exact ⟨le_rfl, iff_of_true rfl trivial⟩

/-! ### All threads -/

variable {m m' : Meter (EWMA K)} {now : UInt64} {pc pc' : Pc K} {g : Ledger}

omit [IsStrictOrderedRing K] in
theorem weighed_setRate {r : Rate} {e : EWMA K} {x : Account}
    (h : ∀ r, Weighed (m.rate r) (g.accounts r)) (he : Weighed e x) (r' : Rate) :
    Weighed ((m.setRate r e).rate r') (Function.update g.accounts r x r') := by
  rw [setRate_rate, Function.update_apply]
  split_ifs
  · exact he
  · exact h r'

theorem threadStep_weighed (h : ∀ r, Weighed (m.rate r) (g.accounts r))
    (hstep : threadStep m now pc = some (m', pc')) (r : Rate) :
    Weighed (m'.rate r) ((g.noteStep m pc).accounts r) := by
  cases pc with
  | idle => cases hstep
  | loadTick c => cases hstep; exact h r
  | readClock c oldTick => cases hstep; exact h r
  | compareExchange c oldTick curTick =>
    rw [threadStep] at hstep
    split_ifs at hstep <;> cases hstep
    · have hr := h r
      cases r <;> exact hr
    · exact h r
  | addCount n =>
    cases hstep
    have hr := h r
    cases r <;> exact hr
  | loadRate r' => cases hstep; exact h r
  | updating n r' =>
    cases hstep
    have hupd := (h r').update n
    rw [Ledger.noteStep]
    split_ifs
    · have hnext := weighed_setRate (r := r') h (hupd (g.accounts r').lost) r
      rwa [Function.update_eq_self] at hnext
    · exact weighed_setRate h (hupd _) r
  | ticking c left r' pc =>
    have hnext := (h r').step pc
    rw [threadStep] at hstep
    rw [Ledger.noteStep]
    dsimp only
    split at hstep <;> rename_i e hpc <;> cases hstep <;> rw [hpc] at hnext <;>
      exact weighed_setRate h hnext r

omit [IsStrictOrderedRing K] in
theorem update_lost {r : Rate} {x : Account} (hle : (g.accounts r).lost ≤ x.lost) :
    (∀ r', (g.accounts r').lost ≤ (Function.update g.accounts r x r').lost) ∧
      ((∀ r', (Function.update g.accounts r x r').lost = (g.accounts r').lost) ↔
        x.lost = (g.accounts r).lost) := by
  refine ⟨fun r' => ?_, fun h => ?_, fun h r' => ?_⟩
  · rw [Function.update_apply]
    split_ifs with heq
    · exact heq ▸ hle
    · exact le_rfl
  · have hr := h r
    rwa [Function.update_self] at hr
  · rw [Function.update_apply]
    split_ifs with heq
    · exact heq ▸ h
    · rfl

omit [IsStrictOrderedRing K] in
theorem noteStep_lost (h : ∀ r, Weighed (m.rate r) (g.accounts r)) (pc : Pc K) :
    (∀ r, (g.accounts r).lost ≤ ((g.noteStep m pc).accounts r).lost) ∧
      ((∀ r, ((g.noteStep m pc).accounts r).lost = (g.accounts r).lost) ↔ Brings m pc) := by
  cases pc with
  | ticking c left r pc =>
    obtain ⟨hle, hiff⟩ := pc.note_lost (h r)
    rw [Brings, ← hiff]
    exact update_lost hle
  | updating n r =>
    unfold Ledger.noteStep Brings
    dsimp only
    split_ifs with hfit
    · exact ⟨fun _ => le_rfl, iff_of_true (fun _ => rfl) hfit⟩
    · obtain ⟨hle, hiff⟩ := update_lost (g := g) (r := r)
        (x := ⟨(g.accounts r).absorbed, (g.accounts r).lost + UInt64.size⟩) (Nat.le_add_right _ _)
      refine ⟨hle, hiff.trans (iff_of_false ?_ hfit)⟩
      simp
  | _ => exact ⟨fun _ => le_rfl, iff_of_true (fun _ => rfl) trivial⟩

/-- Every marked event is uncounted, on its way, absorbed or lost. -/
structure Ledger.Balances [Fintype ι] (g : Ledger) (s : State ι K) : Prop where
  conserved : ∀ r, (s.meter.rate r).uncounted.toNat + ∑ i, owed r (s.pc i) +
    (g.accounts r).absorbed + (g.accounts r).lost = g.marked
  weighed : ∀ r, Weighed (s.meter.rate r) (g.accounts r)

variable [Fintype ι] {s t : State ι K} {a : Action ι}

theorem Ledger.Balances.step (h : g.Balances s) (hstep : s.step a = some t) :
    (g.note s a).Balances t ∧
      (∀ r, (g.accounts r).lost ≤ ((g.note s a).accounts r).lost) ∧
      ((∀ r, ((g.note s a).accounts r).lost = (g.accounts r).lost) ↔ StepBrings s a) := by
  rcases step_cases hstep with
    ⟨now, rfl, -, rfl⟩ | ⟨i, c, rfl, hidle, rfl⟩ | ⟨i, m', pc', rfl, hthread, rfl⟩
  · exact ⟨⟨h.conserved, h.weighed⟩, fun _ => le_rfl, iff_of_true (fun _ => rfl) trivial⟩
  · have howed : ∀ r, owed r (s.pc i) = 0 := by
      intro r
      rw [hidle]
      rfl
    refine ⟨⟨fun r => ?_, h.weighed⟩, fun _ => le_rfl, iff_of_true (fun _ => rfl) trivial⟩
    have hconserved := h.conserved r
    have hsum := Machine.sum_update_add (owed r) s.pc i (.loadTick c)
    have hload : owed r (.loadTick c : Pc K) = c.events := rfl
    rw [howed, hload] at hsum
    dsimp only [Ledger.note]
    omega
  · obtain ⟨hle, hiff⟩ := noteStep_lost h.weighed (s.pc i)
    refine ⟨⟨fun r => ?_, threadStep_weighed h.weighed hthread⟩, hle, hiff⟩
    have hconserved := h.conserved r
    have hmoved := threadStep_conserves (g := g) hthread r
    have hsum := Machine.sum_update_add (owed r) s.pc i pc'
    have hmarked : (g.noteStep s.meter (s.pc i)).marked = g.marked := by
      unfold Ledger.noteStep
      split <;> first | rfl | split_ifs <;> rfl
    simp only [Ledger.note, hmarked]
    omega

theorem Ledger.Balances.run {g' : Ledger} {s' : State ι K} {as : List (Action ι)}
    (h : g.Balances s)
    (hrun : Machine.run (Machine.observe State.step Ledger.note) (g, s) as = some (g', s')) :
    g'.Balances s' ∧ (∀ r, (g.accounts r).lost ≤ (g'.accounts r).lost) ∧
      ((∀ r, (g'.accounts r).lost = (g.accounts r).lost) ↔
        Machine.Along State.step StepBrings s as) := by
  induction as generalizing g s with
  | nil =>
    cases hrun
    exact ⟨h, fun _ => le_rfl, iff_of_true (fun _ => rfl) trivial⟩
  | cons a as ih =>
    obtain ⟨⟨g₁, s₁⟩, hobs, hrun⟩ := Machine.run_cons_eq_some.mp hrun
    obtain ⟨hstep, rfl⟩ := Machine.observe_eq_some.mp hobs
    obtain ⟨h₁, hle₁, hiff₁⟩ := h.step hstep
    obtain ⟨h', hle', hiff'⟩ := ih h₁ hrun
    refine ⟨h', fun r => (hle₁ r).trans (hle' r), ?_⟩
    -- losses only grow: they end where they began if and only if no step adds to them
    rw [Machine.along_cons hstep, ← hiff₁, ← hiff']
    constructor
    · intro heq
      have hmid : ∀ r, ((g.note s a).accounts r).lost = (g.accounts r).lost :=
        fun r => le_antisymm ((hle' r).trans (heq r).le) (hle₁ r)
      exact ⟨hmid, fun r => (heq r).trans (hmid r).symm⟩
    · rintro ⟨hmid, hrest⟩ r
      exact (hrest r).trans (hmid r)

end

theorem weighed_create (rateUnit : Int64) (start : UInt64) (r : Rate) :
    Weighed ((create EWMA.Alphas.source rateUnit start).rate r) ⟨0, 0⟩ := by
  have hinterval : 0 < EWMA.defaultInterval.toNat := by decide
  cases r with
  | m1 => exact ⟨EWMA.alphaOf_mem_Ioo (by decide), hinterval, le_rfl, iff_of_true rfl rfl⟩
  | m5 => exact ⟨EWMA.alphaOf_mem_Ioo (by decide), hinterval, le_rfl, iff_of_true rfl rfl⟩
  | m15 => exact ⟨EWMA.alphaOf_mem_Ioo (by decide), hinterval, le_rfl, iff_of_true rfl rfl⟩

/-- Whenever no thread is in a call, the marked events are those that are uncounted and those that
the rate accounts for, for every average, if and only if every operation so far brought its events
along. -/
theorem no_event_lost_iff {ι : Type*} [Fintype ι] [DecidableEq ι] (rateUnit : Int64)
    (start : UInt64) (as : List (Action ι)) {g : Ledger} {s : State ι ℝ}
    (hrun : Machine.run (Machine.observe State.step Ledger.note)
      (Ledger.empty, State.init EWMA.Alphas.source rateUnit start) as = some (g, s))
    (hquiet : Quiescent s) :
    (∀ r, g.marked = (s.meter.rate r).uncounted.toNat + (g.accounts r).absorbed) ↔
      Machine.Along State.step StepBrings (State.init EWMA.Alphas.source rateUnit start) as := by
  have hinit : Ledger.empty.Balances
      (State.init EWMA.Alphas.source rateUnit start : State ι ℝ) := by
    refine ⟨fun r => ?_, weighed_create rateUnit start⟩
    have howed : ∑ i : ι, owed r (Pc.idle : Pc ℝ) = 0 := Finset.sum_eq_zero fun _ _ => rfl
    cases r <;> exact congrArg (0 + · + 0 + 0) howed
  obtain ⟨hbalances, -, hiff⟩ := hinit.run hrun
  rw [← hiff]
  refine forall_congr' fun r => ?_
  have hconserved := hbalances.conserved r
  have howed : ∑ i, owed r (s.pc i) = 0 := Finset.sum_eq_zero fun i _ => by rw [hquiet i]; rfl
  have hzero : (Ledger.empty.accounts r).lost = 0 := rfl
  omega

/-- Two threads in their first tick at once. Thread 1 takes the five events, and thread 0 finds none
and is the first to store a rate, in which there are none to overwrite. -/
def emptyTick : List (Action (Fin 2)) := List.flatten
  [[.call 0 (.mark 5)], List.replicate 6 (.step 0),
    [.advance 6000000000, .call 1 (.getRate .m1)], List.replicate 3 (.step 1),
    [.advance 12000000000, .call 0 (.getRate .m1)], List.replicate 3 (.step 0),
    -- the three averages, one after the other
    List.flatten (List.replicate 3
      [.step 1, .step 1, .step 0, .step 0, .step 0, .step 1, .step 0, .step 1]),
    [.step 0, .step 1]]

theorem no_event_lost_iff_emptyTick : Machine.Along State.step StepBrings
    (State.init EWMA.Alphas.source 1000000000 0 : State (Fin 2) ℝ) emptyTick := by
  have hfinal : (Machine.run (Machine.observe State.step Ledger.note)
      (Ledger.empty, State.init EWMA.Alphas.source 1000000000 0) emptyTick).map
        (fun x => (x.1.marked, [Rate.m1, .m5, .m15].map fun r =>
          (x.2.meter.rate r).uncounted.toNat + (x.1.accounts r).absorbed,
          [0, 1].map fun i => isIdle (x.2.pc i))) = some (5, [5, 5, 5], [true, true]) := by
    decide +kernel
  obtain ⟨⟨g, s⟩, hrun, hsummary⟩ := Option.map_eq_some_iff.mp hfinal
  simp only [List.map_cons, List.map_nil, Prod.mk.injEq, List.cons.injEq, and_true] at hsummary
  obtain ⟨hmarked, ⟨h1, h5, h15⟩, hidle0, hidle1⟩ := hsummary
  refine (no_event_lost_iff 1000000000 0 emptyTick hrun fun i => ?_).mp fun r => ?_
  · fin_cases i
    · exact isIdle_iff.mp hidle0
    · exact isIdle_iff.mp hidle1
  · rw [hmarked]
    cases r
    · exact h1.symm
    · exact h5.symm
    · exact h15.symm

/-- Two threads in their first tick at once. Thread 1 takes five events and stops before it stores
the first rate; seven more are marked; thread 0 claims the next interval, takes the seven and
stores a first rate as well, which thread 1 then overwrites. -/
def overlappingTicks : List (Action (Fin 2)) := List.flatten
  [[.call 0 (.mark 5)], List.replicate 6 (.step 0),
    [.advance 6000000000, .call 1 (.getRate .m1)], List.replicate 5 (.step 1),
    [.call 0 (.mark 7)], List.replicate 6 (.step 0),
    [.advance 12000000000, .call 0 (.getRate .m1)], List.replicate 5 (.step 0),
    -- the first rates of the one-minute average, and then of the other two
    [.step 0, .step 0, .step 1, .step 1],
    [.step 1, .step 1, .step 0, .step 0, .step 0, .step 0, .step 1, .step 1],
    [.step 1, .step 1, .step 0, .step 0, .step 0, .step 0, .step 1, .step 1],
    [.step 0, .step 1]]

theorem event_is_lost : ∃ g s, Machine.run (Machine.observe State.step Ledger.note)
      (Ledger.empty, State.init EWMA.Alphas.source 1000000000 0) overlappingTicks = some (g, s) ∧
    Quiescent s ∧ g.marked = 12 ∧ (s.meter.rate .m1).uncounted = 0 ∧
    (g.accounts .m1).absorbed = 5 := by
  have hfinal : (Machine.run (Machine.observe State.step Ledger.note)
      (Ledger.empty, State.init EWMA.Alphas.source 1000000000 0) overlappingTicks).map
        (fun x => (x.1.marked, (x.2.meter.rate .m1).uncounted, (x.1.accounts .m1).absorbed,
          isIdle (x.2.pc 0), isIdle (x.2.pc 1))) = some (12, 0, 5, true, true) := by
    decide +kernel
  obtain ⟨⟨g, s⟩, hrun, hsummary⟩ := Option.map_eq_some_iff.mp hfinal
  simp only [Prod.mk.injEq] at hsummary
  obtain ⟨hmarked, huncounted, habsorbed, h0, h1⟩ := hsummary
  refine ⟨g, s, hrun, fun i => ?_, hmarked, huncounted, habsorbed⟩
  fin_cases i
  · exact isIdle_iff.mp h0
  · exact isIdle_iff.mp h1

end CppMetrics.Meter
