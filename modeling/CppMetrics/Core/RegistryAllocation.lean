import CppMetrics.Core.RegistryBindings
import CppMetrics.Lib.Machine

/-! The registry when memory runs out. Every place that allocates may throw `std::bad_alloc`
instead, and an insertion that throws leaves its container as it was. -/

namespace CppMetrics.MetricRegistry.Allocating

/-- The places in a call that allocate. -/
inductive Site
  /-- `make_shared` in `buildMetric`. -/
  | metric
  /-- The text of the exception for a clash. -/
  | clashText
  /-- `metric_names_.insert`. -/
  | names
  /-- `metric_set.insert`, with the pair it is given. -/
  | set
  deriving DecidableEq

/-- A result of `none` is `std::bad_alloc`. -/
def addMetric (fails : Site → Bool) (metricType : MetricType) (name : Str) (newMetric : MetricPtr)
    (r : Impl) : Option (Except Error Bool) × Impl :=
  if name ∈ r.metricNames then
    if fails .clashText then (none, r)
    else (some (.error (.invalidArgument (clashText name))), r)
  else if fails .names then
    (none, r)
  else
    let metricNames := insert name r.metricNames
    if fails .set then
      (none, { r with metricNames := metricNames })
    else
      let (set, inserted) := MetricSet.tryInsert (r.metricSet metricType) name newMetric
      (some (.ok inserted), ⟨Function.update r.metricSet metricType set, metricNames⟩)

def getOrAdd (fails : Site → Bool) (metricType : MetricType) (name : Str) (w : World) :
    Option (Except Error MetricPtr) × World :=
  match (w.registry.metricSet metricType).lookup name with
  | some p => (some (.ok p), w)
  | none =>
    if fails .metric then
      (none, w)
    else
      match buildMetric metricType w.heap with
      | (.error e, heap) => (some (.error e), ⟨w.registry, heap⟩)
      | (.ok newMetric, heap) =>
        match addMetric fails metricType name newMetric w.registry with
        | (none, r) => (none, ⟨r, heap⟩)
        | (some (.error e), r) => (some (.error e), ⟨r, heap⟩)
        | (some (.ok _), r) => (some (.ok newMetric), ⟨r, heap⟩)

def addGauge (fails : Site → Bool) (name : Str) (gauge : GaugePtr) (w : World) :
    Option (Except Error Bool) × World :=
  let (res, r) := addMetric fails .gauge name ⟨.gauge, gauge⟩ w.registry
  (res, ⟨r, w.heap⟩)

/-- A call, and the places at which memory would run out in it. -/
structure Attempt where
  call : Call
  fails : Site → Bool

/-- `removeMetric` only frees memory. -/
def perform (a : Attempt) (w : World) : Option Outcome × World :=
  match a.call with
  | .counter x =>
    ((getOrAdd a.fails .counter x w).1.map .ofMetric, (getOrAdd a.fails .counter x w).2)
  | .histogram x =>
    ((getOrAdd a.fails .histogram x w).1.map .ofMetric, (getOrAdd a.fails .histogram x w).2)
  | .meter x => ((getOrAdd a.fails .meter x w).1.map .ofMetric, (getOrAdd a.fails .meter x w).2)
  | .timer x => ((getOrAdd a.fails .timer x w).1.map .ofMetric, (getOrAdd a.fails .timer x w).2)
  | .addGauge x g => ((addGauge a.fails x g w).1.map .ofFlag, (addGauge a.fails x g w).2)
  | .removeMetric x => (some (.flag (removeMetric x w).1), (removeMetric x w).2)

def step (w : World) (a : Attempt) : Option World := some (perform a w).2

def adds : Call → Option (MetricType × Str)
  | .addGauge x _ => some (.gauge, x)
  | c => c.wants

/-- A call that runs out of memory changes nothing, and if its name was bound to nothing then every
call that adds a metric of that name goes through as soon as there is memory. -/
def AllOrNothing (w : World) (a : Attempt) : Prop :=
  (perform a w).1 = none → (perform a w).2.registry = w.registry ∧
    ∀ t x, adds a.call = some (t, x) → bindings w.registry x = none →
      ∀ c t', adds c = some (t', x) →
        ∃ o, (perform ⟨c, fun _ => false⟩ (perform a w).2).1 = some o ∧ ∀ e, o ≠ .thrown e

/-- Memory runs out between the two insertions of `addMetric`. -/
def Parts (fails : Site → Bool) (x : Str) (r : Impl) : Prop :=
  x ∉ r.metricNames ∧ fails .names = false ∧ fails .set = true

def PartsMade (fails : Site → Bool) (t : MetricType) (x : Str) (w : World) : Prop :=
  (w.registry.metricSet t).lookup x = none ∧ fails .metric = false ∧ Parts fails x w.registry

/-- The call inserts a name that is not there, and runs out of memory before its metric is in. -/
def LosesName (w : World) (a : Attempt) : Prop :=
  match a.call with
  | .addGauge x _ => Parts a.fails x w.registry
  | c => ∃ t x, c.wants = some (t, x) ∧ PartsMade a.fails t x w

/-! ### What the functions do -/

variable {fails : Site → Bool} {t : MetricType} {x : Str} {p : MetricPtr} {r : Impl} {w : World}
  {a : Attempt}

theorem addMetric_of_parts (h : Parts fails x r) :
    addMetric fails t x p r = (none, { r with metricNames := insert x r.metricNames }) := by
  obtain ⟨hfresh, hnames, hset⟩ := h
  unfold addMetric
  rw [if_neg hfresh, hnames, hset]
  rfl

theorem addMetric_of_not_parts (h : ¬Parts fails x r) :
    ((∃ site, fails site = true) ∧ addMetric fails t x p r = (none, r)) ∨
      addMetric fails t x p r =
        (some (MetricRegistry.addMetric t x p r).1, (MetricRegistry.addMetric t x p r).2) := by
  unfold addMetric MetricRegistry.addMetric
  by_cases hfresh : x ∈ r.metricNames
  · rw [if_pos hfresh, if_pos hfresh]
    cases htext : fails .clashText with
    | true => exact Or.inl ⟨⟨_, htext⟩, rfl⟩
    | false => exact Or.inr rfl
  · rw [if_neg hfresh, if_neg hfresh]
    cases hnames : fails .names with
    | true => exact Or.inl ⟨⟨_, hnames⟩, rfl⟩
    | false =>
      cases hset : fails .set with
      | true => exact absurd ⟨hfresh, hnames, hset⟩ h
      | false => exact Or.inr rfl

/-- A call that ran out of memory without a trace, or that ran as it does when there is enough. -/
def Clean {α : Type} (fails : Site → Bool) (res : Option α × World) (w : World)
    (whole : α × World) : Prop :=
  ((∃ site, fails site = true) ∧ res.1 = none ∧ res.2.registry = w.registry ∧
      w.heap ≤ res.2.heap) ∨
    res = (some whole.1, whole.2)

theorem Clean.map {α β : Type} {res : Option α × World} {whole : α × World}
    (h : Clean fails res w whole) (f : α → β) :
    Clean fails (res.1.map f, res.2) w (f whole.1, whole.2) := by
  rcases h with ⟨hfails, hnone, hkeep⟩ | rfl
  · exact Or.inl ⟨hfails, by rw [hnone]; rfl, hkeep⟩
  · exact Or.inr rfl

theorem addGauge_clean (h : ¬Parts fails x w.registry) (gauge : GaugePtr) :
    Clean fails (addGauge fails x gauge w) w (MetricRegistry.addGauge x gauge w) := by
  unfold addGauge MetricRegistry.addGauge
  rcases addMetric_of_not_parts (t := .gauge) (p := ⟨.gauge, gauge⟩) h with ⟨hfails, hnone⟩ | hwhole
  · rw [hnone]
    exact Or.inl ⟨hfails, rfl, rfl, le_rfl⟩
  · rw [hwhole]
    exact Or.inr rfl

theorem buildMetric_ok (ht : t ≠ .gauge) (heap : Heap) :
    buildMetric t heap = (.ok ⟨t, heap + 1⟩, heap + 1) := by
  cases t with
  | gauge => exact absurd rfl ht
  | counter | histogram | meter | timer => rfl

theorem getOrAdd_of_parts (ht : t ≠ .gauge) (h : PartsMade fails t x w) :
    getOrAdd fails t x w = (none,
      ⟨{ w.registry with metricNames := insert x w.registry.metricNames }, w.heap + 1⟩) := by
  obtain ⟨hlookup, hmetric, hparts⟩ := h
  unfold getOrAdd
  rw [hlookup, hmetric, buildMetric_ok ht]
  simp only [Bool.false_eq_true, if_false, addMetric_of_parts hparts]

theorem getOrAdd_clean (ht : t ≠ .gauge) (h : ¬PartsMade fails t x w) :
    Clean fails (getOrAdd fails t x w) w (MetricRegistry.getOrAdd t x w) := by
  unfold getOrAdd MetricRegistry.getOrAdd
  cases hlookup : (w.registry.metricSet t).lookup x with
  | some p => exact Or.inr rfl
  | none =>
    cases hmetric : fails .metric with
    | true => exact Or.inl ⟨⟨_, hmetric⟩, rfl, rfl, le_rfl⟩
    | false =>
      have hparts : ¬Parts fails x w.registry := fun hparts => h ⟨hlookup, hmetric, hparts⟩
      simp only [buildMetric_ok ht, Bool.false_eq_true, if_false]
      rcases addMetric_of_not_parts (t := t) (p := ⟨t, w.heap + 1⟩) hparts with
        ⟨hfails, hnone⟩ | hwhole
      · rw [hnone]
        exact Or.inl ⟨hfails, rfl, rfl, Nat.le_succ _⟩
      · rw [hwhole]
        refine Or.inr ?_
        cases MetricRegistry.addMetric t x ⟨t, w.heap + 1⟩ w.registry with
        | mk res r => cases res <;> rfl

theorem perform_wants (h : a.call.wants = some (t, x)) (w : World) :
    perform a w = ((getOrAdd a.fails t x w).1.map .ofMetric, (getOrAdd a.fails t x w).2) := by
  obtain ⟨c, fails⟩ := a
  cases c <;> cases h <;> rfl

theorem losesName_wants (h : a.call.wants = some (t, x)) :
    LosesName w a ↔ PartsMade a.fails t x w := by
  obtain ⟨c, fails⟩ := a
  cases c <;> cases h <;> simp [LosesName, Call.wants]

theorem perform_clean (h : ¬LosesName w a) :
    Clean a.fails (perform a w) w (MetricRegistry.perform a.call w) := by
  have hget : ∀ {t x}, a.call.wants = some (t, x) →
      Clean a.fails (perform a w) w (MetricRegistry.perform a.call w) := by
    intro t x hc
    rw [perform_wants hc, MetricRegistry.perform_wants hc]
    exact (getOrAdd_clean (wants_ne_gauge hc) (mt (losesName_wants hc).mpr h)).map _
  obtain ⟨c, fails⟩ := a
  cases c with
  | counter x | histogram x | meter x | timer x => exact hget rfl
  | addGauge x g => exact (addGauge_clean h g).map Outcome.ofFlag
  | removeMetric x => exact Or.inr rfl

theorem perform_of_losesName (h : LosesName w a) :
    (perform a w).1 = none ∧ (perform a w).2.registry ≠ w.registry := by
  have hnames : ∀ {x : Str} {r : Impl}, x ∉ r.metricNames →
      (⟨r.metricSet, insert x r.metricNames⟩ : Impl) ≠ r := by
    intro x r hfresh heq
    have hins : insert x r.metricNames = r.metricNames := congrArg Impl.metricNames heq
    exact hfresh (hins ▸ Finset.mem_insert_self x r.metricNames)
  have hget : ∀ {t x}, a.call.wants = some (t, x) →
      (perform a w).1 = none ∧ (perform a w).2.registry ≠ w.registry := by
    intro t x hc
    have hparts := (losesName_wants hc).mp h
    rw [perform_wants hc, getOrAdd_of_parts (wants_ne_gauge hc) hparts]
    exact ⟨rfl, hnames hparts.2.2.1⟩
  obtain ⟨c, fails⟩ := a
  cases c with
  | counter x | histogram x | meter x | timer x => exact hget rfl
  | addGauge x g =>
    have hparts : Parts fails x w.registry := h
    simp only [perform, addGauge, addMetric_of_parts hparts]
    exact ⟨rfl, hnames hparts.1⟩
  | removeMetric x =>
    obtain ⟨t, y, hc, -⟩ := h
    exact nomatch hc

theorem perform_enough (c : Call) (w : World) : perform ⟨c, fun _ => false⟩ w =
    (some (MetricRegistry.perform c w).1, (MetricRegistry.perform c w).2) := by
  have hkeeps : ¬LosesName w ⟨c, fun _ => false⟩ := by
    intro h
    cases c with
    | addGauge x g => exact nomatch h.2.2
    | counter x | histogram x | meter x | timer x | removeMetric x =>
      obtain ⟨t, y, -, hparts⟩ := h
      exact nomatch hparts.2.2.2.2
  rcases perform_clean hkeeps with ⟨⟨site, hsite⟩, -⟩ | hwhole
  · exact nomatch hsite
  · exact hwhole

/-! ### All or nothing -/

theorem wellFormed_of_registry {w' : World} (wf : WellFormed w) (hr : w'.registry = w.registry)
    (hheap : w.heap ≤ w'.heap) : WellFormed w' := by
  obtain ⟨r, heap⟩ := w'
  subst hr
  exact ⟨wf.names, wf.disjoint, wf.typed, fun h hq => (wf.built h hq).trans hheap⟩

theorem perform_not_thrown {c : Call} (wf : WellFormed w) (hc : adds c = some (t, x))
    (hx : bindings w.registry x = none) (e : Error) :
    (MetricRegistry.perform c w).1 ≠ .thrown e := by
  intro hthrown
  have hclash := (perform_refines wf (fromHeap_empty w) c).1.thrown_iff.mp ⟨e, hthrown⟩
  cases c with
  | addGauge y g =>
    cases hc
    exact hclash hx
  | counter y | histogram y | meter y | timer y | removeMetric y =>
    obtain ⟨t', y', p, hwants, hp, -⟩ := hclash
    cases hwants.symm.trans hc
    exact nomatch hp.symm.trans hx

theorem allOrNothing_iff (wf : WellFormed w) (a : Attempt) :
    AllOrNothing w a ↔ ¬LosesName w a := by
  constructor
  · intro h hloses
    obtain ⟨hnone, hne⟩ := perform_of_losesName hloses
    exact hne (h hnone).1
  intro hkeeps hnone
  rcases perform_clean hkeeps with ⟨-, -, hr, hheap⟩ | hwhole
  · refine ⟨hr, fun t x _ hx c t' hc => ?_⟩
    have hx' : bindings (perform a w).2.registry x = none := hr ▸ hx
    rw [perform_enough]
    exact ⟨_, rfl, perform_not_thrown (wellFormed_of_registry wf hr hheap) hc hx'⟩
  · rw [hwhole] at hnone
    exact nomatch hnone

theorem wellFormed_perform (wf : WellFormed w) (h : ¬LosesName w a) :
    WellFormed (perform a w).2 := by
  rcases perform_clean h with ⟨-, -, hr, hheap⟩ | hwhole
  · exact wellFormed_of_registry wf hr hheap
  · rw [hwhole]
    exact (perform_refines wf (fromHeap_empty w) a.call).2.1

/-- In every run of attempts, all of them are all-or-nothing if and only if none runs out of memory
between its two insertions. -/
theorem all_or_nothing_iff (as : List Attempt) :
    Machine.Along step AllOrNothing World.empty as ↔
      Machine.Along step (fun w a => ¬LosesName w a) World.empty as := by
  refine Machine.along_congr_of_invariant (P := WellFormed) (fun w a wf => allOrNothing_iff wf a)
    (fun wf h hstep => ?_) WellFormed.empty
  exact Option.some.inj hstep ▸ wellFormed_perform wf h

def counterLost : Attempt := ⟨.counter (str "a"), fun site => site = .set⟩

theorem name_without_metric : ¬Machine.Along step AllOrNothing World.empty [counterLost] := by
  rintro ⟨h, -⟩
  refine (allOrNothing_iff WellFormed.empty counterLost).mp h ⟨.counter, str "a", rfl, rfl, rfl, ?_⟩
  exact ⟨Finset.notMem_empty _, rfl, rfl⟩

end CppMetrics.MetricRegistry.Allocating
