import CppMetrics.Core.RegistryBindings
import CppMetrics.Lib.Machine

/-! What a scheduled report shows of the registry. `report()` reads the five maps one after the
other, each under the lock, and other threads may call the registry between the reads. -/

namespace CppMetrics.ScheduledReporter.Report

open MetricRegistry

structure Maps where
  counterMap : MetricMap
  histogramMap : MetricMap
  meterMap : MetricMap
  timerMap : MetricMap
  gaugeMap : MetricMap

def Maps.ofType (maps : Maps) : MetricType → MetricMap
  | .counter => maps.counterMap
  | .histogram => maps.histogramMap
  | .meter => maps.meterMap
  | .timer => maps.timerMap
  | .gauge => maps.gaugeMap

/-- Before the read of the map it is named after, with the maps read so far. -/
inductive Pc
  | counters
  | histograms (counterMap : MetricMap)
  | meters (counterMap histogramMap : MetricMap)
  | timers (counterMap histogramMap meterMap : MetricMap)
  | gauges (counterMap histogramMap meterMap timerMap : MetricMap)
  | report (maps : Maps)

structure State where
  world : World
  pc : Pc

inductive Action
  | read
  | call (c : Call)

def init : State := ⟨World.empty, .counters⟩

def step (s : State) : Action → Option State
  | .read =>
    match s.pc with
    | .counters => some ⟨s.world, .histograms (getCounters s.world.registry)⟩
    | .histograms counters => some ⟨s.world, .meters counters (getHistograms s.world.registry)⟩
    | .meters counters histograms =>
      some ⟨s.world, .timers counters histograms (getMeters s.world.registry)⟩
    | .timers counters histograms meters =>
      some ⟨s.world, .gauges counters histograms meters (getTimers s.world.registry)⟩
    | .gauges counters histograms meters timers =>
      some ⟨s.world, .report ⟨counters, histograms, meters, timers, getGauges s.world.registry⟩⟩
    | .report _ => none
  | .call c => some ⟨(perform c s.world).2, s.pc⟩

/-! ### The reads -/

def turn : MetricType → ℕ
  | .counter => 1
  | .histogram => 2
  | .meter => 3
  | .timer => 4
  | .gauge => 5

def Pc.reads : Pc → ℕ
  | .counters => 0
  | .histograms .. => 1
  | .meters .. => 2
  | .timers .. => 3
  | .gauges .. => 4
  | .report _ => 5

def Pc.map : Pc → MetricType → Option MetricMap
  | .histograms c, .counter | .meters c _, .counter | .timers c _ _, .counter
  | .gauges c _ _ _, .counter => some c
  | .meters _ h, .histogram | .timers _ h _, .histogram | .gauges _ h _ _, .histogram => some h
  | .timers _ _ m, .meter | .gauges _ _ m _, .meter => some m
  | .gauges _ _ _ t, .timer => some t
  | .report maps, metricType => some (maps.ofType metricType)
  | _, _ => none

/-- The bindings in every state from the first read to the last, and the names removed in between,
each with the number of reads made by then. -/
structure Log where
  during : List Bindings
  removed : List (ℕ × Str)

def Log.init : Log := ⟨[], []⟩

def removes (w : World) : Call → List Str
  | .removeMetric name => if (removeMetric name w).1 then [name] else []
  | _ => []

def Log.note (g : Log) (s : State) : Action → Log
  | .read => if s.pc.reads = 0 then { g with during := [bindings s.world.registry] } else g
  | .call c =>
    if 0 < s.pc.reads ∧ s.pc.reads < 5 then
      ⟨g.during ++ [bindings (perform c s.world).2.registry],
        g.removed ++ (removes s.world c).map fun name => (s.pc.reads, name)⟩
    else g

def Maps.OneEach (maps : Maps) : Prop :=
  ∀ t t' name, name ∈ maps.ofType t → name ∈ maps.ofType t' → t = t'

/-- A name bound to one object all the time is in the map of its type with that object, and in no
other. -/
def Maps.Shows (maps : Maps) (during : List Bindings) : Prop :=
  ∀ name p, (∀ b ∈ during, b name = some p) →
    ∀ t, (maps.ofType t).lookup name = if p.cls = t then some p else none

/-- A name in two maps was removed between the reads of the two. -/
def Maps.TwiceRemoved (maps : Maps) (removed : List (ℕ × Str)) : Prop :=
  ∀ t t' name, turn t < turn t' → name ∈ maps.ofType t → name ∈ maps.ofType t' →
    ∃ k, turn t ≤ k ∧ k < turn t' ∧ (k, name) ∈ removed

variable {s s' : State} {g : Log}

/-! ### What a step does -/

theorem step_read (h : step s .read = some s') :
    s'.world = s.world ∧ s'.pc.reads = s.pc.reads + 1 ∧ s.pc.reads < 5 ∧
      ∃ t, turn t = s.pc.reads + 1 ∧
        s'.pc.map t = some (getMetrics (s.world.registry.metricSet t)) ∧
        ∀ t' ≠ t, s'.pc.map t' = s.pc.map t' := by
  obtain ⟨w, pc⟩ := s
  cases pc with
  | counters =>
    cases h
    refine ⟨rfl, rfl, Nat.lt_of_sub_eq_succ rfl, .counter, rfl, rfl, fun t hne => ?_⟩
    cases t <;> first | rfl | exact absurd rfl hne
  | histograms =>
    cases h
    refine ⟨rfl, rfl, Nat.lt_of_sub_eq_succ rfl, .histogram, rfl, rfl, fun t hne => ?_⟩
    cases t <;> first | rfl | exact absurd rfl hne
  | meters =>
    cases h
    refine ⟨rfl, rfl, Nat.lt_of_sub_eq_succ rfl, .meter, rfl, rfl, fun t hne => ?_⟩
    cases t <;> first | rfl | exact absurd rfl hne
  | timers =>
    cases h
    refine ⟨rfl, rfl, Nat.lt_of_sub_eq_succ rfl, .timer, rfl, rfl, fun t hne => ?_⟩
    cases t <;> first | rfl | exact absurd rfl hne
  | gauges =>
    cases h
    refine ⟨rfl, rfl, Nat.lt_of_sub_eq_succ rfl, .gauge, rfl, rfl, fun t hne => ?_⟩
    cases t <;> first | rfl | exact absurd rfl hne
  | report => cases h

theorem turn_injective {t t' : MetricType} (h : turn t = turn t') : t = t' := by
  cases t <;> cases t' <;> first | rfl | cases h

theorem kept_of_step {seen : Set MetricPtr} {b b' : Bindings} {c : Call} {o : Outcome} {name : Str}
    {p : MetricPtr} (h : Bindings.Step seen b c o b') (hb : b name = some p) :
    b' name = some p ∨ c = .removeMetric name ∧ o = .flag true := by
  cases h with
  | hit | clash | addGaugeClash | removeAbsent => exact Or.inl hb
  | @make _ _ x _ _ hx | @addGauge x _ hx =>
    left
    rw [Function.update_of_ne ?_]
    · exact hb
    · rintro rfl
      cases hx.symm.trans hb
  | @removeMetric x =>
    rw [Function.update_apply]
    split_ifs with heq
    · exact Or.inr ⟨heq ▸ rfl, rfl⟩
    · exact Or.inl hb

theorem kept_of_perform {w : World} (wf : WellFormed w) (c : Call) {name : Str} {p : MetricPtr}
    (hb : bindings w.registry name = some p) :
    bindings (perform c w).2.registry name = some p ∨ name ∈ removes w c := by
  refine (kept_of_step (perform_refines wf (fromHeap_empty w) c).1 hb).imp_right ?_
  rintro ⟨rfl, ho⟩
  have hremoved : (removeMetric name w).1 = true := Outcome.flag.inj ho
  simp only [removes, hremoved, if_true, List.mem_singleton]

/-! ### The invariant -/

structure Invariant (g : Log) (s : State) : Prop where
  wf : WellFormed s.world
  before : s.pc.reads = 0 → g = .init
  current : 0 < s.pc.reads → s.pc.reads < 5 → bindings s.world.registry ∈ g.during
  read : ∀ t, (s.pc.map t).isSome ↔ turn t ≤ s.pc.reads
  seen : ∀ t m, s.pc.map t = some m →
    ∃ b ∈ g.during, ∀ name p, m.lookup name = some p ↔ b name = some p ∧ p.cls = t
  kept : s.pc.reads < 5 → ∀ t m name p, s.pc.map t = some m → m.lookup name = some p →
    bindings s.world.registry name = some p ∨
      ∃ k, turn t ≤ k ∧ k ≤ s.pc.reads ∧ (k, name) ∈ g.removed
  twice : ∀ t t' m m' name, turn t < turn t' → s.pc.map t = some m → s.pc.map t' = some m' →
    name ∈ m → name ∈ m' → ∃ k, turn t ≤ k ∧ k < turn t' ∧ (k, name) ∈ g.removed

theorem Invariant.init : Invariant .init init where
  wf := WellFormed.empty
  before _ := rfl
  current h := by cases h
  read t := by cases t <;> simp [Report.init, Pc.map, Pc.reads, turn]
  seen t m h := by cases t <;> cases h
  kept _ t m name p h := by cases t <;> cases h
  twice t t' m m' name _ h := by cases t <;> cases h

theorem Invariant.stepRead (h : Invariant g s) (hstep : step s .read = some s') :
    Invariant (g.note s .read) s' := by
  obtain ⟨hworld, hreads, hlt, t, hturn, hnew, hold⟩ := step_read hstep
  have hnow : ∀ {name p}, (getMetrics (s.world.registry.metricSet t)).lookup name = some p ↔
      bindings s.world.registry name = some p ∧ p.cls = t := lookup_getMetrics_eq_some_iff h.wf
  have hremoved : (g.note s .read).removed = g.removed := by
    simp only [Log.note]
    split_ifs <;> rfl
  have hmem : bindings s.world.registry ∈ (g.note s .read).during := by
    simp only [Log.note]
    split_ifs with h0
    · exact List.mem_singleton_self _
    · exact h.current (Nat.pos_of_ne_zero h0) hlt
  have hduring : ∀ b ∈ g.during, b ∈ (g.note s .read).during := by
    intro b hb
    simp only [Log.note]
    split_ifs with h0
    · rw [h.before h0] at hb
      cases hb
    · exact hb
  constructor
  case wf => exact hworld ▸ h.wf
  case before => exact fun h0 => absurd (hreads.symm.trans h0) (Nat.succ_ne_zero _)
  case current => exact fun _ _ => hworld ▸ hmem
  case read =>
    intro t'
    rw [hreads]
    rcases eq_or_ne t' t with rfl | hne
    · rw [hnew, hturn]
      exact iff_of_true rfl le_rfl
    · rw [hold t' hne, h.read t']
      have hother : turn t' ≠ s.pc.reads + 1 :=
        fun heq => hne (turn_injective (heq.trans hturn.symm))
      omega
  case seen =>
    intro t' m hm
    rcases eq_or_ne t' t with rfl | hne
    · cases hnew.symm.trans hm
      exact ⟨_, hmem, fun _ _ => hnow⟩
    · obtain ⟨b, hb, hlookup⟩ := h.seen t' m (hold t' hne ▸ hm)
      exact ⟨b, hduring b hb, hlookup⟩
  case kept =>
    intro _ t' m name p hm hp
    rw [hworld, hremoved, hreads]
    rcases eq_or_ne t' t with rfl | hne
    · cases hnew.symm.trans hm
      exact Or.inl (hnow.mp hp).1
    · refine (h.kept hlt t' m name p (hold t' hne ▸ hm) hp).imp_right ?_
      rintro ⟨k, hle, hk, hin⟩
      exact ⟨k, hle, hk.trans (Nat.le_succ _), hin⟩
  case twice =>
    intro t₁ t₂ m₁ m₂ name hlt₁₂ hm₁ hm₂ hname₁ hname₂
    rw [hremoved]
    -- the first map is an old one, as the new one is the last
    have hne₁ : t₁ ≠ t := by
      rintro rfl
      have hne₂ : t₂ ≠ t₁ := by
        rintro rfl
        exact lt_irrefl _ hlt₁₂
      have := (h.read t₂).mp (by rw [← hold t₂ hne₂, hm₂]; rfl)
      omega
    rw [hold t₁ hne₁] at hm₁
    rcases eq_or_ne t₂ t with rfl | hne₂
    · cases hnew.symm.trans hm₂
      obtain ⟨p, hp⟩ := Finmap.mem_iff.mp hname₁
      obtain ⟨p', hp'⟩ := Finmap.mem_iff.mp hname₂
      obtain ⟨hb', hcls'⟩ := hnow.mp hp'
      rcases h.kept hlt t₁ m₁ name p hm₁ hp with hb | ⟨k, hle, hk, hin⟩
      · -- one object would be of both types
        obtain ⟨b, -, hlookup⟩ := h.seen t₁ m₁ hm₁
        have hcls := ((hlookup name p).mp hp).2
        cases hb.symm.trans hb'
        exact absurd (hcls.symm.trans hcls') hne₁
      · exact ⟨k, hle, by omega, hin⟩
    · exact h.twice t₁ t₂ m₁ m₂ name hlt₁₂ hm₁ (hold t₂ hne₂ ▸ hm₂) hname₁ hname₂

theorem Invariant.stepCall (h : Invariant g s) (c : Call) :
    Invariant (g.note s (.call c)) ⟨(perform c s.world).2, s.pc⟩ := by
  have hwf : WellFormed (perform c s.world).2 :=
    (perform_refines h.wf (fromHeap_empty s.world) c).2.1
  simp only [Log.note]
  split_ifs with hbetween
  · constructor
    case wf => exact hwf
    case before => exact fun h0 => absurd (h0 ▸ hbetween.1) (lt_irrefl 0)
    case current => exact fun _ _ => List.mem_append_right _ (List.mem_singleton_self _)
    case read => exact h.read
    case seen =>
      intro t m hm
      obtain ⟨b, hb, hlookup⟩ := h.seen t m hm
      exact ⟨b, List.mem_append_left _ hb, hlookup⟩
    case kept =>
      intro hlt t m name p hm hp
      rcases h.kept hlt t m name p hm hp with hb | ⟨k, hle, hk, hin⟩
      · refine (kept_of_perform h.wf c hb).imp_right fun hremoves => ?_
        refine ⟨s.pc.reads, (h.read t).mp (by rw [hm]; rfl), le_rfl, ?_⟩
        exact List.mem_append_right _ (List.mem_map.mpr ⟨name, hremoves, rfl⟩)
      · exact Or.inr ⟨k, hle, hk, List.mem_append_left _ hin⟩
    case twice =>
      intro t t' m m' name hlt hm hm' hname hname'
      obtain ⟨k, hle, hk, hin⟩ := h.twice t t' m m' name hlt hm hm' hname hname'
      exact ⟨k, hle, hk, List.mem_append_left _ hin⟩
  · have houtside : 0 < s.pc.reads → ¬s.pc.reads < 5 := fun h0 hlt => hbetween ⟨h0, hlt⟩
    constructor
    case wf => exact hwf
    case current => exact fun h0 hlt => absurd hlt (houtside h0)
    case kept =>
      intro hlt t m name p hm
      have h0 : 0 < s.pc.reads := by
        have := (h.read t).mp (by rw [hm]; rfl)
        cases t <;> simp only [turn] at this <;> omega
      exact absurd hlt (houtside h0)
    case before => exact h.before
    case read => exact h.read
    case seen => exact h.seen
    case twice => exact h.twice

theorem Invariant.step (h : Invariant g s) {a : Action} (hstep : Report.step s a = some s') :
    Invariant (g.note s a) s' := by
  cases a with
  | read => exact h.stepRead hstep
  | call c =>
    cases hstep
    exact h.stepCall c

theorem Invariant.shows (h : Invariant g s) {maps : Maps} (hpc : s.pc = .report maps) :
    maps.Shows g.during := by
  intro name p hbound t
  obtain ⟨b, hb, hlookup⟩ := h.seen t (maps.ofType t) (by rw [hpc]; rfl)
  split_ifs with hcls
  · exact (hlookup name p).mpr ⟨hbound b hb, hcls⟩
  · by_contra hne
    obtain ⟨q, hq⟩ := Option.ne_none_iff_exists'.mp hne
    obtain ⟨hbq, hclsq⟩ := (hlookup name q).mp hq
    cases hbq.symm.trans (hbound b hb)
    exact hcls hclsq

/-- In every report, whatever the other threads call between the reads: a name bound to one object
all the time is shown once, as it is, and a name shown twice was removed in between. -/
theorem report_shows_registry (actions : List Action) :
    Machine.Always (Machine.observe Report.step Log.note)
      (fun x => ∀ maps, x.2.pc = .report maps →
        maps.Shows x.1.during ∧ maps.TwiceRemoved x.1.removed) (.init, init) actions := by
  have hinvariant : Machine.Always (Machine.observe Report.step Log.note)
      (fun x => Invariant x.1 x.2) (.init, init) actions :=
    Machine.always_observe_of_invariant (fun h hstep => h.step hstep) Invariant.init actions
  refine hinvariant.imp ?_
  rintro ⟨g, s⟩ h maps hpc
  refine ⟨h.shows hpc, fun t t' name hlt => ?_⟩
  have hmap : ∀ t, s.pc.map t = some (maps.ofType t) := fun t => by
    rw [show s.pc = .report maps from hpc]
    rfl
  exact h.twice t t' _ _ name hlt (hmap t) (hmap t')

def renamed : List Action :=
  [.call (.counter (str "a")), .read, .call (.removeMetric (str "a")),
    .call (.histogram (str "a")), .read, .read, .read, .read]

theorem name_shown_twice :
    ¬∀ actions, Machine.Always (Machine.observe Report.step Log.note)
      (fun x => ∀ maps, x.2.pc = .report maps → maps.OneEach ∧ maps.Shows x.1.during)
      (.init, init) actions := by
  intro h
  have hrun : (Machine.run (Machine.observe Report.step Log.note) (.init, init) renamed).map
      (fun x => match x.2.pc with
        | .report maps =>
          decide (str "a" ∈ maps.ofType .counter ∧ str "a" ∈ maps.ofType .histogram)
        | _ => false) = some true := by decide +kernel
  obtain ⟨⟨g, s⟩, hs, hend⟩ := Option.map_eq_some_iff.mp hrun
  have hlast := (h renamed).last hs
  generalize hpc : s.pc = pc at hend
  cases pc with
  | report maps =>
    obtain ⟨hcounter, hhistogram⟩ := of_decide_eq_true hend
    cases (hlast maps hpc).1 _ _ _ hcounter hhistogram
  | _ => cases hend

end CppMetrics.ScheduledReporter.Report
