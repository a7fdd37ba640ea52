import CppMetrics.Core.TimerAgreement

/-! The contexts of a timer. Each of them is timed from its creation or the last `reset` to the
first `stop` after that or to its destruction, and the timer records that time once. -/

namespace CppMetrics.Timer

variable {K D P : Type*} [Field K] [Less P]

/-! ### Activations -/

def Call.reading : Call D → Option Int64
  | .construct _ t | .reset _ t | .stop _ t _ _ | .destroy _ t _ _ => some t
  | _ => none

/-- The readings of a clock that never goes backwards. A duration can hold the time between them. -/
structure Steady (readings : List Int64) : Prop where
  ordered : readings.Pairwise (· ≤ ·)
  held : readings.Pairwise fun a b => b.toInt - a.toInt < 2 ^ 63

def Call.starts : Call D → Option Int64
  | .construct _ t | .reset _ t => some t
  | _ => none

/-- A context runs if the last call on it made or reset it. -/
def activation (i : ℕ) (calls : List (Call D)) : Option Int64 :=
  (calls.filter fun c => c.context = some i).getLast?.bind Call.starts

/-- How long the activation took that the call ends. -/
def endedBy (calls : List (Call D)) : Call D → Option ℤ
  | .stop i t _ _ | .destroy i t _ _ =>
    (activation i calls).map fun start => t.toInt - start.toInt
  | _ => none

def updatesOf : Call D → ℕ
  | .update duration _ _ => eventsOf duration
  | _ => 0

structure Log (D : Type*) where
  calls : List (Call D)
  ended : List ℤ
  updates : ℕ

namespace Log

def new : Log D := ⟨[], [], 0⟩

def note (log : Log D) (_ : State K P) (c : Call D) : Log D where
  calls := log.calls ++ [c]
  ended := log.ended ++ (endedBy log.calls c).toList
  updates := log.updates + updatesOf c

def total (log : Log D) : ℕ := log.ended.length + log.updates

end Log

/-- The timer has recorded a value for each activation ended and for each such call of `update`. -/
structure Recorded (log : Log D) (s : State K P) : Prop where
  meter : s.timer.meter.count = UInt64.ofNat log.total
  histogram : (∀ now, .clear now ∉ log.calls) → s.timer.getCount = UInt64.ofNat log.total

/-- A context that runs records the time since then and returns it, and one that does not returns
zero and leaves the timer alone. A draw that gives a number makes `stop` return. -/
def StopsOnce (w : Weights D P) (since : Option Int64) (x : TimerContext) (stopTime : Int64)
    (e : Surroundings D) (now : UInt64) (t : Timer K P) : Prop :=
  match since with
  | some start =>
    (∃ dur : Int64, dur.toInt = stopTime.toInt - start.toInt ∧
      x.stop w stopTime e now t = (t.histogram.update w dur e).map fun histogram =>
        (dur, { x with active := false }, ⟨t.meter.mark 1 now, histogram⟩)) ∧
      ∀ fault, x.stop w stopTime e now t = .error fault →
        fault = .outOfDraws ∧ ∃ secs, ∀ draw ∈ e.draws, w.priority secs draw = none
  | none => x.stop w stopTime e now t = .ok (0, x, t)

def EndsOnce (w : Weights D P) (log : Log D) (s : State K P) : Call D → Prop
  | .stop i stopTime e now | .destroy i stopTime e now =>
    ∀ x, s.contexts i = some x → StopsOnce w (activation i log.calls) x stopTime e now s.timer
  | _ => True

/-- What a function does with the timer and its contexts until it returns or throws. -/
structure Func (D ε : Type*) where
  calls : List (Call D)
  thrown : Option ε

/-- An exception destroys the context on its way out. -/
def State.time {ε : Type*} (w : Weights D P) (i : ℕ) (startTime : Int64) (func : Func D ε)
    (stopTime : Int64) (e : Surroundings D) (now : UInt64) (s : State K P) :
    Option (State K P × Option ε) :=
  (s.step w (.construct i startTime)).bind fun s =>
    (Machine.run (State.step w) s func.calls).bind fun s =>
      match func.thrown with
      | some exception =>
        (s.step w (.destroy i stopTime e now)).map fun s => (s, some exception)
      | none => (s.step w (.destroy i stopTime e now)).map fun s => (s, none)

/-- However the function ends, `time` makes the calls of a run, and the last of them ends the
activation that the first has begun. -/
def TimesOnce {ε : Type*} (w : Weights D P) (K : Type*) [Field K] (func : Func D ε) : Prop :=
  ∀ i startTime stopTime e now, (∀ c ∈ func.calls, c.context ≠ some i) →
    (∀ s : State K P, s.time w i startTime func stopTime e now =
      (Machine.run (State.step w) s (timeCalls i startTime func.calls stopTime e now)).map
        fun u => (u, func.thrown)) ∧
    ∀ calls, endedBy (calls ++ .construct i startTime :: func.calls) (.destroy i stopTime e now) =
      some (stopTime.toInt - startTime.toInt)

variable {w : Weights D P} {s u : State K P} {c : Call D} {i : ℕ} {calls : List (Call D)}
  {log : Log D}

/-! ### The contexts that run -/

omit [Less P] [Field K] in
theorem activation_concat (i : ℕ) (calls : List (Call D)) (c : Call D) :
    activation i (calls ++ [c]) = if c.context = some i then c.starts else activation i calls := by
  unfold activation
  rw [List.filter_append, List.filter_cons, List.filter_nil]
  by_cases h : c.context = some i
  · rw [if_pos (decide_eq_true h), if_pos h, List.getLast?_concat, Option.bind_some]
  · rw [if_neg (by rwa [decide_eq_true_iff]), if_neg h, List.append_nil]

def State.running (s : State K P) (i : ℕ) : Option Int64 :=
  (s.contexts i).bind fun x => if x.active then some x.startTime else none

omit [Field K] in
theorem running_eq {o : Option TimerContext} (h : s.contexts i = o) :
    s.running i = o.bind fun x => if x.active then some x.startTime else none :=
  congrArg (Option.bind · _) h

theorem stop_active {x : TimerContext} {stopTime : Int64} {e : Surroundings D} {now : UInt64}
    {t : Timer K P} {r : Int64 × TimerContext × Timer K P}
    (h : x.stop w stopTime e now t = .ok r) : r.2.1.active = false := by
  rcases stop_cases h with ⟨t', -, -, rfl⟩ | ⟨hactive, rfl⟩
  · rfl
  · exact hactive

theorem step_running (h : s.step w c = some u) (i : ℕ) :
    u.running i = if c.context = some i then c.starts else s.running i := by
  split
  next hc =>
    cases c with
    | update duration e now => exact nomatch hc
    | clear now => exact nomatch hc
    | getRate r now => exact nomatch hc
    | getMeanRate now => exact nomatch hc
    | construct j startTime =>
      obtain rfl := Option.some.inj hc
      obtain ⟨-, rfl⟩ := step_construct_eq_some.mp h
      rw [running_eq (Function.update_self ..)]
      rfl
    | reset j startTime =>
      obtain rfl := Option.some.inj hc
      obtain ⟨x, -, rfl⟩ := step_reset_eq_some.mp h
      rw [running_eq (Function.update_self ..)]
      rfl
    | stop j stopTime e now =>
      obtain rfl := Option.some.inj hc
      obtain ⟨x, -, r, hr, rfl⟩ := step_stop_eq_some.mp h
      rw [running_eq (Function.update_self ..), Option.bind_some, stop_active hr]
      rfl
    | destroy j stopTime e now =>
      obtain rfl := Option.some.inj hc
      obtain ⟨x, -, r, -, rfl⟩ := step_destroy_eq_some.mp h
      rw [running_eq (Function.update_self ..)]
      rfl
  next hc => rw [State.running, step_contexts_of_ne h hc, State.running]

/-! ### The sample of the timer -/

def Biased (t : Timer K P) : Prop :=
  ∃ sample : ExpDecaySample P, t.histogram.sample = .biased sample ∧
    sample.reservoirSize = 1024 ∧ sample.Stocked

omit [Field K] in
theorem Biased.update_histogram {t : Timer K P} (h : Biased t) (value : Int64)
    (e : Surroundings D) :
    (t.histogram.update w value e = .error .outOfDraws ∧
        ∃ secs, ∀ draw ∈ e.draws, w.priority secs draw = none) ∨
      ∃ histogram, t.histogram.update w value e = .ok histogram ∧
        ∀ meter, Biased (⟨meter, histogram⟩ : Timer K P) := by
  obtain ⟨sample, hsample, hsize, hstocked⟩ := h
  have hroom : 0 < sample.reservoirSize.toNat := hsize ▸ by decide
  have hupdate : t.histogram.update w value e =
      ((sample.update w value e.now e.draws).map Sample.biased).map
        (Histogram.mk (t.histogram.count + 1)) := by
    rw [Histogram.update, hsample]
    rfl
  rcases hstocked.perform (w := w) hroom (.update value e.now e.draws) with hfault | hok
  · left
    have hfault : sample.update w value e.now e.draws = .error .outOfDraws := hfault
    rw [hupdate, hfault]
    exact ⟨rfl, ExpDecaySample.priority_of_outOfDraws hfault⟩
  · obtain ⟨sample', hsample', hsize', hstocked'⟩ := hok
    right
    rw [hupdate, show sample.update w value e.now e.draws = _ from hsample']
    exact ⟨_, rfl, fun _ => ⟨sample', rfl, hsize'.trans hsize, hstocked'⟩⟩

theorem Biased.update {t t' : Timer K P} (h : Biased t) {duration : Int64} {e : Surroundings D}
    {now : UInt64} (hok : t.update w duration e now = .ok t') : Biased t' := by
  unfold Timer.update at hok
  dsimp only at hok
  split at hok
  · rcases h.update_histogram (w := w) duration e with ⟨hfault, -⟩ | ⟨histogram, hhistogram, hnext⟩
    · rw [hfault] at hok
      exact nomatch hok
    · rw [hhistogram] at hok
      exact Except.ok.inj hok ▸ hnext _
  · exact Except.ok.inj hok ▸ h

theorem Biased.stop {t : Timer K P} (h : Biased t) {x : TimerContext} {stopTime : Int64}
    {e : Surroundings D} {now : UInt64} {r : Int64 × TimerContext × Timer K P}
    (hr : x.stop w stopTime e now t = .ok r) : Biased r.2.2 := by
  rcases stop_cases hr with ⟨t', -, hupdate, rfl⟩ | ⟨-, rfl⟩
  · exact h.update hupdate
  · exact h

theorem Biased.step (h : Biased s.timer) (hstep : s.step w c = some u) : Biased u.timer := by
  cases c with
  | update duration e now =>
    obtain ⟨t, ht, rfl⟩ := step_update_eq_some.mp hstep
    exact h.update ht
  | clear now =>
    obtain ⟨sample, hsample, hsize, -⟩ := h
    cases hstep
    refine ⟨sample.clear now, ?_, hsize, fun hcount => absurd rfl hcount⟩
    show s.timer.histogram.sample.clear now = _
    rw [hsample]
    rfl
  | getRate r now =>
    cases hstep
    exact h
  | getMeanRate now => exact Option.some.inj hstep ▸ h
  | construct i startTime =>
    obtain ⟨-, rfl⟩ := step_construct_eq_some.mp hstep
    exact h
  | reset i startTime =>
    obtain ⟨x, -, rfl⟩ := step_reset_eq_some.mp hstep
    exact h
  | stop i stopTime e now =>
    obtain ⟨x, -, r, hr, rfl⟩ := step_stop_eq_some.mp hstep
    exact h.stop hr
  | destroy i stopTime e now =>
    obtain ⟨x, -, r, hr, rfl⟩ := step_destroy_eq_some.mp hstep
    exact h.stop hr

/-! ### The time between two readings -/

omit [Field K] [Less P] in
theorem activation_mem {start : Int64} (h : activation i calls = some start) :
    start ∈ calls.filterMap Call.reading := by
  obtain ⟨c, hc, hstart⟩ := Option.bind_eq_some_iff.mp h
  have hmem : c ∈ calls := List.mem_of_mem_filter (List.mem_of_getLast? hc)
  refine List.mem_filterMap.mpr ⟨c, hmem, ?_⟩
  cases c with
  | construct j t => exact hstart
  | reset j t => exact hstart
  | _ => exact nomatch hstart

theorem toInt_sub_of_held {a b : Int64} (hle : a ≤ b) (hheld : b.toInt - a.toInt < 2 ^ 63) :
    (b - a).toInt = b.toInt - a.toInt := by
  have hnonneg : 0 ≤ b.toInt - a.toInt := sub_nonneg.mpr (Int64.le_iff_toInt_le.mp hle)
  exact toInt_sub_of_fits ⟨by omega, hheld⟩

omit [Field K] [Less P] in
theorem Steady.interval {start t : Int64} (h : Steady ((calls ++ [c]).filterMap Call.reading))
    (hstart : activation i calls = some start) (ht : c.reading = some t) :
    (t - start).toInt = t.toInt - start.toInt ∧ 0 ≤ t - start := by
  obtain ⟨hordered, hheld⟩ := h
  rw [List.filterMap_append, List.filterMap_cons_some ht, List.filterMap_nil,
    List.pairwise_append] at hordered hheld
  have hmem := activation_mem hstart
  have hle : start ≤ t := hordered.2.2 start hmem t List.mem_cons_self
  have htoInt := toInt_sub_of_held hle (hheld.2.2 start hmem t List.mem_cons_self)
  refine ⟨htoInt, ?_⟩
  rw [Int64.le_iff_toInt_le, htoInt]
  exact sub_nonneg.mpr (Int64.le_iff_toInt_le.mp hle)

/-! ### Values and activations -/

omit [Field K] in
theorem contextEvents_eq (s : State K P) (i : ℕ) (stopTime : Int64) :
    contextEvents s i stopTime =
      ((s.running i).map fun start => eventsOf (stopTime - start)).getD 0 := by
  unfold contextEvents State.running
  cases s.contexts i with
  | none => rfl
  | some x =>
    obtain ⟨startTime, active⟩ := x
    cases active <;> rfl

omit [Field K] in
theorem contextEvents_of_steady {t : Int64}
    (h : Steady ((log.calls ++ [c]).filterMap Call.reading)) (ht : c.reading = some t)
    (hrunning : s.running i = activation i log.calls) :
    contextEvents s i t =
      ((activation i log.calls).map fun start => t.toInt - start.toInt).toList.length := by
  rw [contextEvents_eq, hrunning]
  cases hstart : activation i log.calls with
  | none => rfl
  | some start => exact if_pos (h.interval hstart ht).2

omit [Field K] in
theorem events_eq (h : Steady ((log.calls ++ [c]).filterMap Call.reading))
    (hrunning : ∀ i, s.running i = activation i log.calls) :
    events s c = (endedBy log.calls c).toList.length + updatesOf c := by
  cases c with
  | update duration e now => exact (Nat.zero_add _).symm
  | stop i t e now => exact contextEvents_of_steady h rfl (hrunning i)
  | destroy i t e now => exact contextEvents_of_steady h rfl (hrunning i)
  | _ => rfl

structure Tracks (log : Log D) (s : State K P) : Prop where
  running : ∀ i, s.running i = activation i log.calls
  biased : Biased s.timer
  recorded : Recorded log s

theorem tracks_new (A : EWMA.Alphas K) (start : UInt64) (now : Int64) (count : UInt64) :
    Tracks (Log.new : Log D) (State.new A start now count : State K P) := by
  constructor
  case running => exact fun i => rfl
  case biased => exact ⟨.new 1024 now, rfl, rfl, ExpDecaySample.new_stocked 1024 now⟩
  case recorded => exact ⟨rfl, fun _ => rfl⟩

theorem Tracks.recorded_step (ht : Tracks log s)
    (hsteady : Steady ((log.calls ++ [c]).filterMap Call.reading)) (h : s.step w c = some u) :
    Recorded (log.note s c) u := by
  obtain ⟨hmeter, hhistogram⟩ := ht.recorded
  have htotal : (log.note s c).total = log.total + events s c := by
    rw [events_eq hsteady ht.running]
    show (log.ended ++ _).length + (log.updates + _) = log.ended.length + log.updates + _
    rw [List.length_append]
    omega
  have hearlier : (∀ now, .clear now ∉ (log.note s c).calls) → ∀ now, .clear now ∉ log.calls :=
    fun hnone now hmem => hnone now (List.mem_append_left _ hmem)
  by_cases hc : ∃ now, c = .clear now
  · -- the meter keeps its count, and of the histogram nothing is said any more
    obtain ⟨now, rfl⟩ := hc
    cases h
    constructor
    case meter => exact hmeter.trans (congrArg UInt64.ofNat htotal).symm
    case histogram => exact fun hnone => absurd List.mem_concat_self (hnone now)
  · have hadds := step_adds h fun now heq => hc ⟨now, heq⟩
    constructor
    case meter => rw [hadds.meter, hmeter, htotal, UInt64.ofNat_add]
    case histogram =>
      intro hnone
      have hbefore : s.timer.histogram.count = _ := hhistogram (hearlier hnone)
      show u.timer.histogram.count = _
      rw [hadds.histogram, hbefore, htotal, UInt64.ofNat_add]

theorem Tracks.step (ht : Tracks log s)
    (hsteady : Steady ((log.calls ++ [c]).filterMap Call.reading)) (h : s.step w c = some u) :
    Tracks (log.note s c) u := by
  constructor
  case running =>
    intro i
    show u.running i = activation i (log.calls ++ [c])
    rw [step_running h, activation_concat, ht.running]
  case biased => exact ht.biased.step h
  case recorded => exact ht.recorded_step hsteady h

/-! ### Ends of activations -/

omit [Field K] in
theorem context_of_running {start : Int64} {x : TimerContext} (hx : s.contexts i = some x)
    (h : s.running i = some start) : x = ⟨start, true⟩ := by
  obtain ⟨startTime, active⟩ := x
  rw [running_eq hx] at h
  cases active with
  | false => exact nomatch h
  | true =>
    obtain rfl : startTime = start := Option.some.inj h
    rfl

omit [Field K] in
theorem inactive_of_running {x : TimerContext} (hx : s.contexts i = some x)
    (h : s.running i = none) : x.active = false := by
  obtain ⟨startTime, active⟩ := x
  rw [running_eq hx] at h
  cases active with
  | false => rfl
  | true => exact nomatch h

theorem Biased.stopsOnce {start stopTime : Int64} {e : Surroundings D} {now : UInt64}
    {t : Timer K P} (hbiased : Biased t)
    (hdur : (stopTime - start).toInt = stopTime.toInt - start.toInt)
    (hnonneg : 0 ≤ stopTime - start) :
    StopsOnce w (some start) ⟨start, true⟩ stopTime e now t := by
  have hstop : (TimerContext.mk start true).stop w stopTime e now t =
      (t.histogram.update w (stopTime - start) e).map fun histogram =>
        (stopTime - start, ⟨start, false⟩, ⟨t.meter.mark 1 now, histogram⟩) := by
    unfold TimerContext.stop Timer.update
    dsimp only
    rw [if_pos rfl, if_pos hnonneg]
    cases t.histogram.update w (stopTime - start) e <;> rfl
  refine ⟨⟨stopTime - start, hdur, hstop⟩, fun fault hfault => ?_⟩
  rw [hstop] at hfault
  rcases hbiased.update_histogram (w := w) (stopTime - start) e with
    ⟨hdraws, hnone⟩ | ⟨histogram, hok, -⟩
  · rw [hdraws] at hfault
    exact ⟨(Except.error.inj hfault).symm, hnone⟩
  · rw [hok] at hfault
    exact nomatch hfault

theorem Tracks.stopsOnce {t : Int64} {x : TimerContext} {e : Surroundings D} {now : UInt64}
    (ht : Tracks log s) (hsteady : Steady ((log.calls ++ [c]).filterMap Call.reading))
    (hreading : c.reading = some t) (hx : s.contexts i = some x) :
    StopsOnce w (activation i log.calls) x t e now s.timer := by
  have hrunning := ht.running i
  cases hstart : activation i log.calls with
  | none =>
    rw [hstart] at hrunning
    have hinactive := inactive_of_running hx hrunning
    show x.stop w t e now s.timer = _
    unfold TimerContext.stop
    rw [hinactive, if_neg Bool.false_ne_true]
  | some start =>
    rw [hstart] at hrunning
    obtain ⟨hdur, hnonneg⟩ := hsteady.interval hstart hreading
    obtain rfl := context_of_running hx hrunning
    exact ht.biased.stopsOnce hdur hnonneg

theorem Tracks.endsOnce (ht : Tracks log s)
    (hsteady : Steady ((log.calls ++ [c]).filterMap Call.reading)) : EndsOnce w log s c := by
  -- the destructor only drops what `stop` returns
  cases c with
  | stop i t e now => exact fun x hx => ht.stopsOnce hsteady rfl hx
  | destroy i t e now => exact fun x hx => ht.stopsOnce hsteady rfl hx
  | _ => trivial

/-! ### Runs -/

theorem along_steady {cs : List (Call D)}
    (h : Steady ((log.calls ++ cs).filterMap Call.reading)) :
    Machine.Along (Machine.observe (State.step w) Log.note)
      (fun x c => Steady ((x.1.calls ++ [c]).filterMap Call.reading)) (log, s) cs := by
  induction cs generalizing log s with
  | nil => trivial
  | cons c cs ih =>
    rw [List.append_cons] at h
    refine ⟨?_, fun x hx => ?_⟩
    · rw [List.filterMap_append] at h
      exact ⟨(List.pairwise_append.mp h.ordered).1, (List.pairwise_append.mp h.held).1⟩
    · obtain ⟨log', t⟩ := x
      obtain ⟨-, rfl⟩ := Machine.observe_eq_some.mp hx
      exact ih h

theorem time_eq {ε : Type*} {startTime stopTime : Int64} {func : Func D ε} {e : Surroundings D}
    {now : UInt64} : s.time w i startTime func stopTime e now =
      (Machine.run (State.step w) s (timeCalls i startTime func.calls stopTime e now)).map
        fun u => (u, func.thrown) := by
  obtain ⟨calls, thrown⟩ := func
  unfold State.time timeCalls
  rw [List.cons_append, Machine.run_cons, Option.map_bind]
  congr 1
  funext t
  rw [Function.comp_apply, Machine.run_append, Option.map_bind]
  congr 1
  funext v
  rw [Function.comp_apply, Machine.run_singleton]
  cases thrown <;> rfl

omit [Field K] [Less P] in
theorem activation_append {cs : List (Call D)} (h : ∀ c ∈ cs, c.context ≠ some i) :
    activation i (calls ++ cs) = activation i calls := by
  have hnone : cs.filter (fun c => c.context = some i) = [] := by
    rw [List.filter_eq_nil_iff]
    exact fun c hc => by rw [decide_eq_true_iff]; exact h c hc
  unfold activation
  rw [List.filter_append, hnone, List.append_nil]

theorem timesOnce {ε : Type*} (w : Weights D P) (func : Func D ε) : TimesOnce w K func := by
  intro i startTime stopTime e now hothers
  refine ⟨fun s => time_eq, fun calls => ?_⟩
  have hstart : activation i (calls ++ .construct i startTime :: func.calls) = some startTime := by
    rw [List.append_cons, activation_append hothers, activation_concat]
    exact if_pos rfl
  show (activation i _).map _ = _
  rw [hstart, Option.map_some]

/-- In every run with a steady clock the timer has recorded one value for each activation that has
ended, and each `stop` and each destructor ends its activation once. -/
theorem contexts_record_once (w : Weights D P) (A : EWMA.Alphas K) (start : UInt64) (now : Int64)
    (count : UInt64) (ε : Type*) (cs : List (Call D))
    (hsteady : Steady (cs.filterMap Call.reading)) :
    Machine.Always (Machine.observe (State.step w) Log.note) (fun x => Recorded x.1 x.2)
        (Log.new, (State.new A start now count : State K P)) cs ∧
      Machine.Along (Machine.observe (State.step w) Log.note) (fun x c => EndsOnce w x.1 x.2 c)
        (Log.new, (State.new A start now count : State K P)) cs ∧
      ∀ func : Func D ε, TimesOnce w K func := by
  have halong : Machine.Along (Machine.observe (State.step w) Log.note)
      (fun x c => Steady ((x.1.calls ++ [c]).filterMap Call.reading))
      (Log.new, (State.new A start now count : State K P)) cs := along_steady hsteady
  have htracks : Machine.Always (Machine.observe (State.step w) Log.note)
      (fun x => Tracks x.1 x.2) (Log.new, (State.new A start now count : State K P)) cs := by
    refine Machine.always_of_along (fun {x c y} hx hc hy => ?_) (tracks_new A start now count)
      halong
    obtain ⟨log, s⟩ := x
    obtain ⟨log', u⟩ := y
    obtain ⟨hu, rfl⟩ := Machine.observe_eq_some.mp hy
    exact hx.step hc hu
  refine ⟨htracks.imp fun x hx => hx.recorded, ?_, timesOnce w⟩
  exact halong.imp htracks fun x c hx hc => hx.endsOnce hc

noncomputable def timedOnce : List (Call ℝ) :=
  [.construct 0 5, .stop 0 7 ⟨0, [0.5], UniformSample.drawn 0⟩ 0,
    .stop 0 8 ⟨0, [], UniformSample.drawn 0⟩ 0, .destroy 0 9 ⟨0, [], UniformSample.drawn 0⟩ 0]

theorem run_timedOnce : ∃ s : State ℝ (WithTop ℝ),
    Machine.run (Machine.observe (State.step Weights.source) Log.note)
      (Log.new, State.new EWMA.Alphas.source 0 0 0) timedOnce = some (⟨timedOnce, [2], 0⟩, s) := by
  have hdraw : ExpDecaySample.drawPriority Weights.source (ExpDecaySample.toSeconds (0 - 0))
      [0.5] = some _ := rfl
  have hduration : (0 : Int64) ≤ 2 := by decide
  obtain ⟨t, ht⟩ := new_update (K := ℝ) EWMA.Alphas.source 0 0 0 (by decide) hduration hdraw
    (UniformSample.drawn 0) 0
  have hstop : (TimerContext.new 5).stop Weights.source 7 ⟨0, [0.5], UniformSample.drawn 0⟩ 0
      (Timer.new EWMA.Alphas.source 0 0 0 : Timer ℝ (WithTop ℝ)) = .ok (2, ⟨5, false⟩, t) := by
    have hactive : (TimerContext.new 5).active = true := rfl
    have hdur : (7 : Int64) - (TimerContext.new 5).startTime = 2 := by decide
    unfold TimerContext.stop
    dsimp only
    rw [if_pos hactive, hdur, ht]
    rfl
  let running : State ℝ (WithTop ℝ) := ⟨Timer.new EWMA.Alphas.source 0 0 0,
    Function.update (fun _ => none) 0 (some (TimerContext.new 5))⟩
  let stopped : State ℝ (WithTop ℝ) := ⟨t, Function.update running.contexts 0 (some ⟨5, false⟩)⟩
  have hfirst : running.step Weights.source
      (.stop 0 7 ⟨0, [0.5], UniformSample.drawn 0⟩ 0) = some stopped :=
    step_stop_eq_some.mpr ⟨TimerContext.new 5, rfl, _, hstop, rfl⟩
  have hsecond : stopped.step Weights.source
      (.stop 0 8 ⟨0, [], UniformSample.drawn 0⟩ 0) = some stopped :=
    step_stop_eq_some.mpr ⟨⟨5, false⟩, rfl, _, rfl, congrArg _ (Function.update_eq_self ..)⟩
  have hlast : stopped.step Weights.source (.destroy 0 9 ⟨0, [], UniformSample.drawn 0⟩ 0) =
      some ⟨t, Function.update stopped.contexts 0 none⟩ :=
    step_destroy_eq_some.mpr ⟨⟨5, false⟩, rfl, _, rfl, rfl⟩
  refine ⟨⟨t, Function.update stopped.contexts 0 none⟩, ?_⟩
  refine Machine.run_cons_eq_some.mpr ⟨(_, running), rfl, ?_⟩
  refine Machine.run_cons_eq_some.mpr ⟨_, Machine.observe_eq_some.mpr ⟨hfirst, rfl⟩, ?_⟩
  refine Machine.run_cons_eq_some.mpr ⟨_, Machine.observe_eq_some.mpr ⟨hsecond, rfl⟩, ?_⟩
  refine Machine.run_cons_eq_some.mpr ⟨_, Machine.observe_eq_some.mpr ⟨hlast, rfl⟩, ?_⟩
  rfl

/-- The second `stop` and the destructor record nothing more. -/
theorem contexts_record_once_timedOnce : ∃ s : State ℝ (WithTop ℝ),
    Machine.run (Machine.observe (State.step Weights.source) Log.note)
        (Log.new, State.new EWMA.Alphas.source 0 0 0) timedOnce = some (⟨timedOnce, [2], 0⟩, s) ∧
      s.timer.getCount = 1 := by
  obtain ⟨s, hs⟩ := run_timedOnce
  have hsteady : Steady (timedOnce.filterMap Call.reading) := by
    constructor
    case ordered =>
      show List.Pairwise _ [5, 7, 8, 9]
      decide
    case held =>
      show List.Pairwise _ [5, 7, 8, 9]
      decide
  obtain ⟨hrecorded, -, -⟩ := contexts_record_once Weights.source EWMA.Alphas.source 0 0 0 Empty
    timedOnce hsteady
  refine ⟨s, hs, (hrecorded.last hs).histogram fun now hmem => ?_⟩
  unfold timedOnce at hmem
  simp at hmem

end CppMetrics.Timer
