import CppMetrics.Core.Timer

/-! The two counts of a timer. An update counts an event in the histogram and in the meter; `clear`
takes the first count back to zero and leaves the second. -/

namespace CppMetrics

variable {K D P : Type*} [Field K] [Less P]

namespace Timer

/-! ### The events of a call -/

def eventsOf (duration : Int64) : ℕ := if 0 ≤ duration then 1 else 0

def contextEvents (s : State K P) (c : ℕ) (stopTime : Int64) : ℕ :=
  match s.contexts c with
  | some x => if x.active then eventsOf (stopTime - x.startTime) else 0
  | none => 0

def events (s : State K P) : Call D → ℕ
  | .update duration _ _ => eventsOf duration
  | .stop c stopTime _ _ | .destroy c stopTime _ _ => contextEvents s c stopTime
  | _ => 0

/-- The events that were marked on the meter, and those of them that were since the last `clear`. -/
structure History where
  marked : ℕ
  sinceClear : ℕ

def History.new : History := ⟨0, 0⟩

def History.note (h : History) (s : State K P) (c : Call D) : History :=
  match c with
  | .clear _ => { h with sinceClear := 0 }
  | c => ⟨h.marked + events s c, h.sinceClear + events s c⟩

/-- The timer counts the events since the last `clear`, its meter counts all events, and the rate is
zero if and only if the timer counts none. -/
structure Agrees [LinearOrder K] (x : History × State K P) : Prop where
  getCount : x.2.timer.getCount.toNat = x.1.sinceClear
  meterCount : x.2.timer.meter.getCount.toNat = x.1.marked
  getMeanRate : ∀ now, x.2.timer.getMeanRate now = .finite 0 ↔ x.2.timer.getCount = 0

/-- `clear` comes before any event, and the count times the rate unit does not wrap to zero. -/
def Keeps (w : Weights D P) (x : History × State K P) (c : Call D) : Prop :=
  (∀ now, c = .clear now → x.1.marked = 0) ∧
    ∀ t, x.2.step w c = some t → x.1.marked + events x.2 c < 2 ^ 55

end Timer

/-! ### The two counts -/

namespace Meter

variable {m : Meter (EWMA K)}

theorem dvd_mul_unit {n : ℕ} : 2 ^ 64 ∣ n * nanosPerSecond ↔ 2 ^ 55 ∣ n := by
  have hunit : n * nanosPerSecond = n * 5 ^ 9 * 2 ^ 9 := by
    rw [Nat.mul_assoc]
    rfl
  have hpow : (2 : ℕ) ^ 64 = 2 ^ 55 * 2 ^ 9 := rfl
  have hcoprime : Nat.Coprime (2 ^ 55) (5 ^ 9) := by
    apply Nat.Coprime.pow
    decide
  rw [hunit, hpow, Nat.mul_dvd_mul_iff_right (by decide)]
  exact hcoprime.dvd_mul_right

theorem product_eq_zero_iff {n : ℕ} (hn : n ≤ 2 ^ 55) :
    (UInt64.ofNat n * (Int64.ofNat nanosPerSecond).toUInt64).toNat = 0 ↔ n = 0 ∨ n = 2 ^ 55 := by
  have hunit : (Int64.ofNat nanosPerSecond).toUInt64.toNat = nanosPerSecond := by decide
  have hsmall : n % 2 ^ 64 = n := Nat.mod_eq_of_lt (hn.trans_lt (by decide))
  rw [UInt64.toNat_mul, UInt64.toNat_ofNat', hunit, hsmall, ← Nat.dvd_iff_mod_eq_zero, dvd_mul_unit]
  constructor
  · rintro ⟨q, rfl⟩
    have hq : q ≤ 1 := Nat.le_of_mul_le_mul_left (hn.trans_eq (Nat.mul_one _).symm) (by decide)
    rcases Nat.le_one_iff_eq_zero_or_eq_one.mp hq with rfl | rfl
    · exact Or.inl (Nat.mul_zero _)
    · exact Or.inr (Nat.mul_one _)
  · rintro (rfl | rfl)
    · exact dvd_zero _
    · exact dvd_rfl

theorem meanRate_eq_zero_iff [LinearOrder K] [IsStrictOrderedRing K] {n : ℕ}
    (hunit : m.rateUnit = Int64.ofNat nanosPerSecond) (hcount : m.count = UInt64.ofNat n)
    (hn : n ≤ 2 ^ 55) (now : UInt64) :
    m.meanRate now = .finite 0 ↔ n = 0 ∨ n = 2 ^ 55 ∧ now ≠ m.startTime := by
  have hpos : m.count > 0 ↔ n ≠ 0 := by
    rw [hcount, gt_iff_lt, UInt64.lt_iff_toNat_lt, UInt64.toNat_ofNat', UInt64.toNat_zero,
      Nat.mod_eq_of_lt (hn.trans_lt (by decide)), Nat.pos_iff_ne_zero]
  have helapsed : ((now.toNat - m.startTime.toNat : ℤ) : K) = 0 ↔ now = m.startTime := by
    rw [Int.cast_eq_zero, ← UInt64.toNat_inj]
    omega
  have hproduct : ((m.count * m.rateUnit.toUInt64).toNat : K) = 0 ↔ n = 0 ∨ n = 2 ^ 55 := by
    rw [Nat.cast_eq_zero, hcount, hunit, product_eq_zero_iff hn]
  unfold meanRate
  dsimp only
  rcases eq_or_ne n 0 with hzero | hne
  · rw [if_neg (fun h => hpos.mp h hzero)]
    exact iff_of_true rfl (Or.inl hzero)
  rw [if_pos (hpos.mpr hne), Double.finite_div]
  rcases eq_or_ne now m.startTime with hstart | hlater
  · -- a quotient by zero is not finite
    rw [if_pos (helapsed.mpr hstart)]
    refine iff_of_false ?_ fun h => h.elim hne fun h => h.2 hstart
    split_ifs <;> exact nofun
  · have hdivisor := fun h => hlater (helapsed.mp h)
    rw [if_neg hdivisor, Double.finite.injEq, div_eq_zero_iff, or_iff_left hdivisor, hproduct,
      and_iff_left hlater]

end Meter

namespace Timer

variable {w : Weights D P} {t t' : Timer K P} {s u : State K P} {c : Call D} {h : History}

structure Adds (t t' : Timer K P) (n : ℕ) : Prop where
  histogram : t'.histogram.count = t.histogram.count + UInt64.ofNat n
  meter : t'.meter.count = t.meter.count + UInt64.ofNat n
  rateUnit : t'.meter.rateUnit = t.meter.rateUnit

omit [Field K] in
theorem Adds.refl (t : Timer K P) : Adds t t 0 := ⟨by simp, by simp, rfl⟩

theorem update_adds {duration : Int64} {e : Surroundings D} {now : UInt64}
    (h : t.update w duration e now = .ok t') : Adds t t' (eventsOf duration) := by
  unfold update at h
  unfold eventsOf
  dsimp only at h
  split_ifs at h ⊢
  · cases hhistogram : t.histogram.update w duration e with
    | error fault =>
      rw [hhistogram] at h
      cases h
    | ok histogram =>
      rw [hhistogram] at h
      cases h
      constructor
      case histogram => exact Histogram.update_count hhistogram
      case meter => exact Meter.mark_count 1 now t.meter
      case rateUnit => exact Meter.tickIfNecessary_rateUnit now t.meter
  · cases h
    exact Adds.refl t

theorem stop_adds {x : TimerContext} {stopTime : Int64} {e : Surroundings D} {now : UInt64}
    {r : Int64 × TimerContext × Timer K P} (h : x.stop w stopTime e now t = .ok r) :
    Adds t r.2.2 (if x.active then eventsOf (stopTime - x.startTime) else 0) := by
  rcases stop_cases h with ⟨t', hactive, hupdate, rfl⟩ | ⟨hactive, rfl⟩
  · rw [if_pos hactive]
    exact update_adds hupdate
  · rw [if_neg (Bool.eq_false_iff.mp hactive)]
    exact Adds.refl t

theorem context_stop_adds {i : ℕ} {x : TimerContext} {stopTime : Int64} {e : Surroundings D}
    {now : UInt64} {r : Int64 × TimerContext × Timer K P} (hx : s.contexts i = some x)
    (h : x.stop w stopTime e now s.timer = .ok r) :
    Adds s.timer r.2.2 (contextEvents s i stopTime) := by
  rw [contextEvents, hx]
  exact stop_adds h

theorem step_adds (h : s.step w c = some u) (hc : ∀ now, c ≠ .clear now) :
    Adds s.timer u.timer (events s c) := by
  cases c with
  | update duration e now =>
    obtain ⟨t, ht, rfl⟩ := step_update_eq_some.mp h
    exact update_adds ht
  | clear now => exact absurd rfl (hc now)
  | getRate r now =>
    cases h
    constructor
    case histogram => exact (Adds.refl s.timer).histogram
    case meter =>
      show (s.timer.meter.tickIfNecessary now).count = _
      rw [Meter.tickIfNecessary_count]
      exact (Adds.refl s.timer).meter
    case rateUnit => exact Meter.tickIfNecessary_rateUnit now s.timer.meter
  | getMeanRate now =>
    cases h
    exact Adds.refl s.timer
  | construct i startTime =>
    obtain ⟨-, rfl⟩ := step_construct_eq_some.mp h
    exact Adds.refl s.timer
  | reset i startTime =>
    obtain ⟨x, -, rfl⟩ := step_reset_eq_some.mp h
    exact Adds.refl s.timer
  | stop i stopTime e now =>
    obtain ⟨x, hx, r, hr, rfl⟩ := step_stop_eq_some.mp h
    exact context_stop_adds hx hr
  | destroy i stopTime e now =>
    obtain ⟨x, hx, r, hr, rfl⟩ := step_destroy_eq_some.mp h
    exact context_stop_adds hx hr

structure Tallied (h : History) (s : State K P) : Prop where
  histogram : s.timer.histogram.count = UInt64.ofNat h.sinceClear
  meter : s.timer.meter.count = UInt64.ofNat h.marked
  rateUnit : s.timer.meter.rateUnit = Int64.ofNat nanosPerSecond

omit [Field K] in
theorem note_of_ne (hc : ∀ now, c ≠ .clear now) :
    h.note s c = ⟨h.marked + events s c, h.sinceClear + events s c⟩ := by
  cases c <;> first | rfl | exact absurd rfl (hc _)

theorem Tallied.step (ht : Tallied h s) (hstep : s.step w c = some u) :
    Tallied (h.note s c) u := by
  by_cases hc : ∃ now, c = .clear now
  · obtain ⟨now, rfl⟩ := hc
    cases hstep
    exact ⟨rfl, ht.meter, ht.rateUnit⟩
  · have hne : ∀ now, c ≠ .clear now := fun now heq => hc ⟨now, heq⟩
    have hadds := step_adds hstep hne
    rw [note_of_ne hne]
    constructor
    case histogram => rw [hadds.histogram, ht.histogram, UInt64.ofNat_add]
    case meter => rw [hadds.meter, ht.meter, UInt64.ofNat_add]
    case rateUnit => rw [hadds.rateUnit, ht.rateUnit]

omit [Field K] in
theorem note_marked : (h.note s c).marked = h.marked + events s c := by
  cases c <;> rfl

omit [Field K] in
theorem events_le_one : events s c ≤ 1 := by
  have hduration : ∀ duration, eventsOf duration ≤ 1 := by
    intro duration
    unfold eventsOf
    split_ifs <;> decide
  have hcontext : ∀ i stopTime, contextEvents s i stopTime ≤ 1 := by
    intro i stopTime
    unfold contextEvents
    cases s.contexts i with
    | none => exact Nat.zero_le 1
    | some x =>
      dsimp only
      split_ifs
      · exact hduration _
      · exact Nat.zero_le 1
  cases c with
  | update duration e now => exact hduration duration
  | stop i stopTime e now => exact hcontext i stopTime
  | destroy i stopTime e now => exact hcontext i stopTime
  | _ => exact Nat.zero_le 1

structure Aligned (x : History × State K P) : Prop where
  tallied : Tallied x.1 x.2
  sinceClear : x.1.sinceClear = x.1.marked
  marked_lt : x.1.marked < 2 ^ 55

theorem aligned_new (A : EWMA.Alphas K) (start : UInt64) (now : Int64) (count : UInt64) :
    Aligned (History.new, (State.new A start now count : State K P)) :=
  ⟨⟨rfl, rfl, rfl⟩, rfl, Nat.two_pow_pos 55⟩

omit [Field K] in
theorem Tallied.getCount_toNat (ht : Tallied h s) (hlt : h.sinceClear ≤ 2 ^ 55) :
    s.timer.getCount.toNat = h.sinceClear := by
  show s.timer.histogram.count.toNat = h.sinceClear
  rw [ht.histogram, UInt64.toNat_ofNat']
  exact Nat.mod_eq_of_lt (hlt.trans_lt (by decide))

theorem Tallied.getMeanRate_eq_zero_iff [LinearOrder K] [IsStrictOrderedRing K] (ht : Tallied h s)
    (hle : h.marked ≤ 2 ^ 55) (now : UInt64) : s.timer.getMeanRate now = .finite 0 ↔
      h.marked = 0 ∨ h.marked = 2 ^ 55 ∧ now ≠ s.timer.meter.startTime :=
  Meter.meanRate_eq_zero_iff ht.rateUnit ht.meter hle now

theorem Aligned.agrees [LinearOrder K] [IsStrictOrderedRing K] {x : History × State K P}
    (hx : Aligned x) : Agrees x := by
  have hsince := hx.sinceClear
  have hlt := hx.marked_lt
  have hcount := hx.tallied.getCount_toNat (by omega)
  refine ⟨hcount, ?_, fun now => ?_⟩
  · rw [Meter.getCount, hx.tallied.meter, UInt64.toNat_ofNat_of_lt' (hlt.trans (by decide))]
  rw [hx.tallied.getMeanRate_eq_zero_iff hlt.le, ← UInt64.toNat_inj, hcount, UInt64.toNat_zero,
    hsince]
  exact ⟨fun hzero => hzero.resolve_right fun h => hlt.ne h.1, Or.inl⟩

theorem Aligned.step {x y : History × State K P} (hx : Aligned x) (hkeeps : Keeps w x c)
    (hstep : Machine.observe (State.step w) History.note x c = some y) : Aligned y := by
  obtain ⟨h, s⟩ := x
  obtain ⟨h', u⟩ := y
  obtain ⟨hu, rfl⟩ := Machine.observe_eq_some.mp hstep
  refine ⟨hx.tallied.step hu, ?_, ?_⟩
  · by_cases hc : ∃ now, c = .clear now
    · obtain ⟨now, rfl⟩ := hc
      exact (hkeeps.1 now rfl).symm
    · rw [note_of_ne fun now heq => hc ⟨now, heq⟩]
      exact congrArg (· + events s c) hx.sinceClear
  · rw [note_marked]
    exact hkeeps.2 u hu

theorem Aligned.keeps [LinearOrder K] [IsStrictOrderedRing K] {x : History × State K P}
    (hx : Aligned x)
    (hnext : ∀ y, Machine.observe (State.step w) History.note x c = some y → Agrees y) :
    Keeps w x c := by
  obtain ⟨h, s⟩ := x
  have hlt : h.marked < 2 ^ 55 := hx.marked_lt
  have hagrees : ∀ u, s.step w c = some u → Agrees (h.note s c, u) := fun u hu =>
    hnext _ (Machine.observe_eq_some.mpr ⟨hu, rfl⟩)
  constructor
  · -- after `clear` the count is zero, and so is the rate only if the meter has no events
    rintro now rfl
    have ht : Tallied (h.note s (.clear now)) _ := hx.tallied.step (w := w) rfl
    have hrate := ((hagrees _ rfl).getMeanRate 0).mpr rfl
    rw [ht.getMeanRate_eq_zero_iff hlt.le] at hrate
    exact hrate.resolve_right fun hwrap => hlt.ne hwrap.1
  · intro u hu
    by_contra hge
    have hone := events_le_one (s := s) (c := c)
    have hmarked : (h.note s c).marked = 2 ^ 55 := by
      rw [note_marked]
      dsimp only at hge
      omega
    have hc : ∀ now, c ≠ .clear now := by
      rintro now rfl
      exact hlt.ne hmarked
    have ht : Tallied (h.note s c) u := hx.tallied.step hu
    have hcount := (hagrees u hu).getCount
    have hlater : ∃ now, now ≠ u.timer.meter.startTime := by
      by_cases hstart : u.timer.meter.startTime = 0
      · exact ⟨1, hstart ▸ by decide⟩
      · exact ⟨0, fun heq => hstart heq.symm⟩
    obtain ⟨now, hnow⟩ := hlater
    -- the rate is zero although the timer counts every event
    have hrate := (ht.getMeanRate_eq_zero_iff hmarked.le now).mpr (Or.inr ⟨hmarked, hnow⟩)
    have hnone := ((hagrees u hu).getMeanRate now).mp hrate
    have hsince : (h.note s c).sinceClear = (h.note s c).marked := by
      rw [note_of_ne hc]
      exact congrArg (· + events s c) hx.sinceClear
    dsimp only at hcount hnone
    rw [hnone, hsince, hmarked, UInt64.toNat_zero] at hcount
    exact absurd hcount (by decide)

theorem along_keeps_of_always [LinearOrder K] [IsStrictOrderedRing K] {A : EWMA.Alphas K}
    {start : UInt64} {now : Int64} {count : UInt64} {cs : List (Call D)}
    (h : Machine.Always (Machine.observe (State.step w) History.note) Agrees
      (History.new, (State.new A start now count : State K P)) cs) :
    Machine.Along (Machine.observe (State.step w) History.note) (Keeps w)
      (History.new, (State.new A start now count : State K P)) cs :=
  Machine.along_of_always_of_invariant Aligned.keeps Aligned.step (aligned_new A start now count) h

/-- In every run the timer agrees with its meter in every state if and only if every `clear` comes
before the first event and there are fewer than `2 ^ 55` events. -/
theorem always_agrees_iff [LinearOrder K] [IsStrictOrderedRing K] (w : Weights D P)
    (A : EWMA.Alphas K) (start : UInt64) (now : Int64) (count : UInt64) (cs : List (Call D)) :
    Machine.Always (Machine.observe (State.step w) History.note) Agrees
        (History.new, (State.new A start now count : State K P)) cs ↔
      Machine.Along (Machine.observe (State.step w) History.note) (Keeps w)
        (History.new, (State.new A start now count : State K P)) cs := by
  refine ⟨along_keeps_of_always, fun halong => ?_⟩
  have haligned := Machine.always_of_along Aligned.step (aligned_new A start now count) halong
  exact haligned.imp fun x hx => hx.agrees

theorem new_update (A : EWMA.Alphas K) (start : UInt64) (now : Int64) (count : UInt64)
    (hnow : ¬now + ExpDecaySample.RESCALE_THRESHOLD < now) {duration : Int64}
    (hduration : 0 ≤ duration) {draws : List D} {priority : P}
    (hdraw : ExpDecaySample.drawPriority w (ExpDecaySample.toSeconds (now - now)) draws =
      some priority) (uniform : Uniform) (clock : UInt64) :
    ∃ t, (Timer.new A start now count : Timer K P).update w duration ⟨now, draws, uniform⟩ clock =
      .ok t := by
  obtain ⟨one, hone, -⟩ := ExpDecaySample.update_new (k := 1024) (by decide) hnow hdraw duration
  have hsample : (Sample.biased (.new 1024 now) : Sample 1024 P).update w duration
      ⟨now, draws, uniform⟩ = .ok (.biased one) := by
    rw [Sample.update, hone]
    rfl
  have hhistogram : (Histogram.new .kBiased now count : Histogram 1024 P).update w duration
      ⟨now, draws, uniform⟩ = .ok ⟨0 + 1, .biased one⟩ := by
    show Except.map _ ((Sample.biased (.new 1024 now) : Sample 1024 P).update w duration _) = _
    rw [hsample]
    rfl
  refine ⟨⟨(Meter.create A (Int64.ofNat nanosPerSecond) start).mark 1 clock,
    ⟨0 + 1, .biased one⟩⟩, ?_⟩
  unfold Timer.update Timer.new
  dsimp only
  rw [if_pos hduration, hhistogram]

noncomputable def recordOne : Call ℝ := .update 5 ⟨0, [0.5], UniformSample.drawn 0⟩ 0

theorem step_recordOne : ∃ s : State ℝ (WithTop ℝ),
    (State.new EWMA.Alphas.source 0 0 0).step Weights.source recordOne = some s := by
  have hdraw : ExpDecaySample.drawPriority Weights.source (ExpDecaySample.toSeconds (0 - 0))
      [0.5] = some _ := rfl
  have hduration : (0 : Int64) ≤ 5 := by decide
  obtain ⟨t, ht⟩ := new_update (K := ℝ) EWMA.Alphas.source 0 0 0 (by decide) hduration hdraw
    (UniformSample.drawn 0) 0
  have hupdate : (State.new EWMA.Alphas.source 0 0 0 : State ℝ (WithTop ℝ)).timer.update
      Weights.source 5 ⟨0, [0.5], UniformSample.drawn 0⟩ 0 = .ok t := ht
  refine ⟨⟨t, fun _ => none⟩, ?_⟩
  unfold recordOne State.step
  dsimp only
  rw [hupdate]
  rfl

noncomputable def clearedFirst : List (Call ℝ) := [.clear 0, recordOne]

theorem always_agrees_iff_clearedFirst :
    Machine.Always (Machine.observe (State.step Weights.source) History.note) Agrees
      (History.new, (State.new EWMA.Alphas.source 0 0 0 : State ℝ (WithTop ℝ))) clearedFirst := by
  refine (always_agrees_iff Weights.source EWMA.Alphas.source 0 0 0 clearedFirst).mpr ?_
  unfold clearedFirst
  rw [Machine.along_cons rfl]
  refine ⟨⟨fun _ _ => rfl, fun _ _ => Nat.two_pow_pos 55⟩, ⟨nofun, fun _ _ => ?_⟩,
    fun _ _ => trivial⟩
  show 0 + 1 < 2 ^ 55
  decide

noncomputable def clearedAfter : List (Call ℝ) := [recordOne, .clear 0]

/-- The histogram is cleared, and the meter is not. -/
theorem rate_outlives_clear :
    ¬Machine.Always (Machine.observe (State.step Weights.source) History.note) Agrees
      (History.new, (State.new EWMA.Alphas.source 0 0 0 : State ℝ (WithTop ℝ))) clearedAfter := by
  intro h
  obtain ⟨s, hs⟩ := step_recordOne
  obtain ⟨-, hrest⟩ := along_keeps_of_always h
  have hmarked := (hrest (_, s) (Machine.observe_eq_some.mpr ⟨hs, rfl⟩)).1.1 0 rfl
  rw [note_marked] at hmarked
  have hone : (0 : ℕ) + 1 = 0 := hmarked
  cases hone

end Timer
end CppMetrics
