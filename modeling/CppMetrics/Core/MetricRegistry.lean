import Mathlib.Data.Finmap
import CppMetrics.Core.Types

/-! The metric registry: a set of names beside five hash tables, one for each type of metric.
Every function here runs under `metrics_mutex_` and is one atomic step of the registry. -/

namespace CppMetrics.MetricRegistry

inductive MetricType
  | gauge | counter | histogram | meter | timer
  deriving DecidableEq, Repr

/-- The order in which `removeMetric` visits `metric_set_`. -/
def MetricType.all : List MetricType := [.gauge, .counter, .histogram, .meter, .timer]

/-- A pointer to a metric: the class its object was made as and the object's identity. -/
structure MetricPtr where
  cls : MetricType
  obj : ℕ
  deriving DecidableEq, Repr

/-- A gauge is an object of the caller; the registry never looks inside, and the null pointer
is one more identity. -/
abbrev GaugePtr := ℕ

abbrev MetricSet := AList fun _ : Str => MetricPtr

structure Impl where
  metricSet : MetricType → MetricSet
  metricNames : Finset Str

def Impl.empty : Impl := ⟨fun _ => ∅, ∅⟩

inductive Error
  | invalidArgument (what : Str)
  deriving DecidableEq, Repr

/-- How many metrics `make_shared` has built so far; the next one gets the next identity. -/
abbrev Heap := ℕ

structure World where
  registry : Impl
  heap : Heap

def World.empty : World := ⟨Impl.empty, 0⟩

def buildMetric (metricType : MetricType) (heap : Heap) : Except Error MetricPtr × Heap :=
  match metricType with
  | .counter => (.ok ⟨.counter, heap + 1⟩, heap + 1)
  | .histogram => (.ok ⟨.histogram, heap + 1⟩, heap + 1)
  | .meter => (.ok ⟨.meter, heap + 1⟩, heap + 1)
  | .timer => (.ok ⟨.timer, heap + 1⟩, heap + 1)
  | .gauge => (.error (.invalidArgument (str "Unknown or invalid metric type.")), heap)

/-- `unordered_map::insert`: an entry that is there stays. -/
def MetricSet.tryInsert (set : MetricSet) (name : Str) (p : MetricPtr) : MetricSet × Bool :=
  if name ∈ set then (set, false) else (set.insert name p, true)

def clashText (name : Str) : Str := name ++ str " already exists as a different metric."

def addMetric (metricType : MetricType) (name : Str) (newMetric : MetricPtr) (r : Impl) :
    Except Error Bool × Impl :=
  if name ∈ r.metricNames then
    (.error (.invalidArgument (clashText name)), r)
  else
    let (set, inserted) := MetricSet.tryInsert (r.metricSet metricType) name newMetric
    (.ok inserted, ⟨Function.update r.metricSet metricType set, insert name r.metricNames⟩)

def getOrAdd (metricType : MetricType) (name : Str) (w : World) : Except Error MetricPtr × World :=
  match (w.registry.metricSet metricType).lookup name with
  | some p => (.ok p, w)
  | none =>
    match buildMetric metricType w.heap with
    | (.error e, heap) => (.error e, ⟨w.registry, heap⟩)
    | (.ok newMetric, heap) =>
      match addMetric metricType name newMetric w.registry with
      | (.error e, r) => (.error e, ⟨r, heap⟩)
      | (.ok _, r) => (.ok newMetric, ⟨r, heap⟩)

def counter (name : Str) : World → Except Error MetricPtr × World := getOrAdd .counter name

def histogram (name : Str) : World → Except Error MetricPtr × World := getOrAdd .histogram name

def meter (name : Str) : World → Except Error MetricPtr × World := getOrAdd .meter name

def timer (name : Str) : World → Except Error MetricPtr × World := getOrAdd .timer name

def addGauge (name : Str) (gauge : GaugePtr) (w : World) : Except Error Bool × World :=
  let (res, r) := addMetric .gauge name ⟨.gauge, gauge⟩ w.registry
  (res, ⟨r, w.heap⟩)

/-- The loop of `removeMetric`: it stops at the first table that erases the name. -/
def eraseFirst (name : Str) : List MetricType → (MetricType → MetricSet) → MetricType → MetricSet
  | [], sets => sets
  | t :: ts, sets =>
    if name ∈ sets t then Function.update sets t ((sets t).erase name)
    else eraseFirst name ts sets

def removeMetric (name : Str) (w : World) : Bool × World :=
  if name ∈ w.registry.metricNames then
    (true, ⟨⟨eraseFirst name MetricType.all w.registry.metricSet,
      w.registry.metricNames.erase name⟩, w.heap⟩)
  else
    (false, w)

abbrev MetricMap := Finmap fun _ : Str => MetricPtr

def getMetrics (set : MetricSet) : MetricMap :=
  set.entries.foldl (fun retSet kv => retSet.insert kv.1 kv.2) ∅

def getCounters (r : Impl) : MetricMap := getMetrics (r.metricSet .counter)

def getHistograms (r : Impl) : MetricMap := getMetrics (r.metricSet .histogram)

def getMeters (r : Impl) : MetricMap := getMetrics (r.metricSet .meter)

def getTimers (r : Impl) : MetricMap := getMetrics (r.metricSet .timer)

def getGauges (r : Impl) : MetricMap := getMetrics (r.metricSet .gauge)

def count (r : Impl) : ℕ := r.metricNames.card

/-! ### The reads -/

theorem lookup_foldl_insert (l : List (Sigma fun _ : Str => MetricPtr)) (m : MetricMap)
    (hl : l.NodupKeys) (x : Str) :
    (l.foldl (fun retSet kv => retSet.insert kv.1 kv.2) m).lookup x =
      (l.dlookup x).or (m.lookup x) := by
  induction l generalizing m with
  | nil => rfl
  | cons kv l ih =>
    obtain ⟨y, p⟩ := kv
    rw [List.nodupKeys_cons] at hl
    rw [List.foldl_cons, ih _ hl.2]
    by_cases hxy : x = y
    · subst hxy
      have hnone : l.dlookup x = none := List.dlookup_eq_none.mpr hl.1
      rw [hnone, List.dlookup_cons_eq, Finmap.lookup_insert]
      rfl
    · rw [List.dlookup_cons_ne _ _ hxy, Finmap.lookup_insert_of_ne _ hxy]

theorem lookup_getMetrics (set : MetricSet) (x : Str) :
    (getMetrics set).lookup x = set.lookup x := by
  rw [getMetrics, lookup_foldl_insert _ _ set.nodupKeys, Finmap.lookup_empty, Option.or_none]
  rfl

end CppMetrics.MetricRegistry
