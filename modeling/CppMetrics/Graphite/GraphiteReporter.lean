import Mathlib.Data.Finset.Sort
import Mathlib.Data.List.Lex
import CppMetrics.Core.ReportedMaps
import CppMetrics.Lib.Fallible

/-! The Graphite reporter: one line for every field of every metric, over a connection that is
opened before the first line and closed after the last. -/

namespace CppMetrics.GraphiteReporter

open MetricRegistry ScheduledReporter.Report Fallible

inductive Exception
  | std (what : Str)
  | other
  deriving DecidableEq

/-- What the thread does that may throw: a call of the sender, or the reading and formatting of a
value of the metric of that name. -/
inductive Operation
  | connect
  | read (name : Str)
  | send (path value : Str) (timestamp : ℕ)
  | close
  deriving DecidableEq

/-! What the metrics return when they are read; `D` stands for `double`. -/

structure SnapshotValues (D : Type) where
  max : ℤ
  mean : D
  min : ℤ
  stdDev : D
  median : D
  p75 : D
  p95 : D
  p98 : D
  p99 : D
  p999 : D

structure MeteredValues (D : Type) where
  count : ℕ
  oneMinuteRate : D
  fiveMinuteRate : D
  fifteenMinuteRate : D
  meanRate : D

structure Objects (D : Type) where
  counter : MetricPtr → ℤ
  histogram : MetricPtr → ℕ × SnapshotValues D
  meter : MetricPtr → MeteredValues D
  timer : MetricPtr → SnapshotValues D × MeteredValues D
  gauge : MetricPtr → ℤ

/-- The reporter, with the arithmetic and the formatting of numbers it relies on. -/
structure Reporter (D : Type) where
  prefix_ : Str
  convertDurationUnit : D → D
  convertRateUnit : D → D
  ofInt : ℤ → D
  formatDouble : D → Str
  formatInt : ℤ → Str

variable {D : Type}

def entries (map : MetricMap) : List (Str × MetricPtr) :=
  (map.keys.sort (· ≤ ·)).filterMap fun name => (map.lookup name).map fun p => (name, p)

theorem entries_empty : entries ∅ = [] := by
  simp [entries]

theorem entries_singleton (name : Str) (p : MetricPtr) :
    entries (Finmap.singleton name p) = [(name, p)] := by
  simp [entries]

theorem mem_entries {map : MetricMap} {name : Str} {p : MetricPtr} :
    (name, p) ∈ entries map ↔ map.lookup name = some p := by
  simp only [entries, List.mem_filterMap, Finset.mem_sort, Option.map_eq_some_iff, Prod.mk.injEq]
  constructor
  · rintro ⟨name', -, p', hlookup, rfl, rfl⟩
    exact hlookup
  · intro hlookup
    exact ⟨name, Finmap.mem_keys.mpr (Finmap.mem_of_lookup_eq_some hlookup), p, hlookup, rfl, rfl⟩

namespace Reporter

def dot : Str := str "."

/-- `prefix`. -/
def metricPath (r : Reporter D) (name : Str) (extra : Option Str) : Str :=
  let result := r.prefix_ ++ dot ++ name
  match extra with
  | some extra => result ++ dot ++ extra
  | none => result

def sendValue (r : Reporter D) (name : Str) (extra : Option Str) (value : Str) (timestamp : ℕ) :
    Code Operation Exception Unit := do
  operate (.read name)
  operate (.send (r.metricPath name extra) value timestamp)

def sendFields (r : Reporter D) (name : Str) (fields : List (Str × Str)) (timestamp : ℕ) :
    Code Operation Exception Unit :=
  fields.forM fun field => r.sendValue name (some field.1) field.2 timestamp

/-! The fields of each type, in the order of the calls of `send`. -/

def durationFields (r : Reporter D) (snapshot : SnapshotValues D) : List (Str × Str) :=
  let format (duration : D) := r.formatDouble (r.convertDurationUnit duration)
  [(str "getMax", format (r.ofInt snapshot.max)), (str "mean", format snapshot.mean),
    (str "min", format (r.ofInt snapshot.min)), (str "stddev", format snapshot.stdDev),
    (str "p50", format snapshot.median), (str "p75", format snapshot.p75),
    (str "p95", format snapshot.p95), (str "p98", format snapshot.p98),
    (str "p99", format snapshot.p99), (str "p999", format snapshot.p999)]

def meterFields (r : Reporter D) (meter : MeteredValues D) : List (Str × Str) :=
  let format (rate : D) := r.formatDouble (r.convertRateUnit rate)
  [(str "count", r.formatInt meter.count), (str "m1_rate", format meter.oneMinuteRate),
    (str "m5_rate", format meter.fiveMinuteRate), (str "m15_rate", format meter.fifteenMinuteRate),
    (str "mean_rate", format meter.meanRate)]

def histogramFields (r : Reporter D) (count : ℕ) (snapshot : SnapshotValues D) :
    List (Str × Str) :=
  [(str "count", r.formatInt count), (str "getMax", r.formatInt snapshot.max),
    (str "mean", r.formatDouble snapshot.mean), (str "min", r.formatInt snapshot.min),
    (str "stddev", r.formatDouble snapshot.stdDev), (str "p50", r.formatDouble snapshot.median),
    (str "p75", r.formatDouble snapshot.p75), (str "p95", r.formatDouble snapshot.p95),
    (str "p98", r.formatDouble snapshot.p98), (str "p99", r.formatDouble snapshot.p99),
    (str "p999", r.formatDouble snapshot.p999)]

def counterFields (r : Reporter D) (count : ℤ) : List (Str × Str) :=
  [(str "count", r.formatInt count)]

/-- The names of the fields; a gauge has one line, under its own name. -/
def extras : MetricType → List (Option Str)
  | .counter => [some (str "count")]
  | .histogram => ["count", "getMax", "mean", "min", "stddev", "p50", "p75", "p95", "p98", "p99",
      "p999"].map fun field => some (str field)
  | .meter => ["count", "m1_rate", "m5_rate", "m15_rate", "mean_rate"].map fun field =>
      some (str field)
  | .timer => ["getMax", "mean", "min", "stddev", "p50", "p75", "p95", "p98", "p99", "p999",
      "count", "m1_rate", "m5_rate", "m15_rate", "mean_rate"].map fun field => some (str field)
  | .gauge => [none]

def reportMeter (r : Reporter D) (name : Str) (meter : MeteredValues D) (timestamp : ℕ) :
    Code Operation Exception Unit :=
  r.sendFields name (r.meterFields meter) timestamp

def reportTimer (r : Reporter D) (name : Str) (timer : SnapshotValues D × MeteredValues D)
    (timestamp : ℕ) : Code Operation Exception Unit := do
  -- `getSnapshot`
  operate (.read name)
  r.sendFields name (r.durationFields timer.1) timestamp
  r.reportMeter name timer.2 timestamp

def reportHistogram (r : Reporter D) (name : Str) (histogram : ℕ × SnapshotValues D)
    (timestamp : ℕ) : Code Operation Exception Unit := do
  -- `getSnapshot`
  operate (.read name)
  r.sendFields name (r.histogramFields histogram.1 histogram.2) timestamp

def reportCounter (r : Reporter D) (name : Str) (counter : ℤ) (timestamp : ℕ) :
    Code Operation Exception Unit :=
  r.sendFields name (r.counterFields counter) timestamp

def reportGauge (r : Reporter D) (name : Str) (gauge : ℤ) (timestamp : ℕ) :
    Code Operation Exception Unit :=
  r.sendValue name none (r.formatInt gauge) timestamp

/-- The `try` block without its last call, of `close`. -/
def sendMetrics (r : Reporter D) (objects : Objects D) (maps : Maps) (timestamp : ℕ) :
    Code Operation Exception Unit := do
  operate .connect
  (entries maps.counterMap).forM fun kv => r.reportCounter kv.1 (objects.counter kv.2) timestamp
  (entries maps.histogramMap).forM fun kv =>
    r.reportHistogram kv.1 (objects.histogram kv.2) timestamp
  (entries maps.meterMap).forM fun kv => r.reportMeter kv.1 (objects.meter kv.2) timestamp
  (entries maps.timerMap).forM fun kv => r.reportTimer kv.1 (objects.timer kv.2) timestamp
  (entries maps.gaugeMap).forM fun kv => r.reportGauge kv.1 (objects.gauge kv.2) timestamp

def report (r : Reporter D) (objects : Objects D) (maps : Maps) (timestamp : ℕ) :
    Code Operation Exception Unit :=
  tryCatch (do
    r.sendMetrics objects maps timestamp
    note .close) fun e =>
      match e with
      | .std _ => note .close
      -- only a `std::exception` is caught
      | .other => throw e

/-! ### What a report performs -/

def valueOps (r : Reporter D) (name : Str) (extra : Option Str) (value : Str) (timestamp : ℕ) :
    List Operation := [.read name, .send (r.metricPath name extra) value timestamp]

def fieldOps (r : Reporter D) (name : Str) (fields : List (Str × Str)) (timestamp : ℕ) :
    List Operation := fields.flatMap fun field => r.valueOps name (some field.1) field.2 timestamp

def counterOps (r : Reporter D) (objects : Objects D) (timestamp : ℕ) (kv : Str × MetricPtr) :
    List Operation := r.fieldOps kv.1 (r.counterFields (objects.counter kv.2)) timestamp

def histogramOps (r : Reporter D) (objects : Objects D) (timestamp : ℕ) (kv : Str × MetricPtr) :
    List Operation :=
  .read kv.1 :: r.fieldOps kv.1
    (r.histogramFields (objects.histogram kv.2).1 (objects.histogram kv.2).2) timestamp

def meterOps (r : Reporter D) (objects : Objects D) (timestamp : ℕ) (kv : Str × MetricPtr) :
    List Operation := r.fieldOps kv.1 (r.meterFields (objects.meter kv.2)) timestamp

def timerOps (r : Reporter D) (objects : Objects D) (timestamp : ℕ) (kv : Str × MetricPtr) :
    List Operation :=
  .read kv.1 :: (r.fieldOps kv.1 (r.durationFields (objects.timer kv.2).1) timestamp ++
    r.fieldOps kv.1 (r.meterFields (objects.timer kv.2).2) timestamp)

def gaugeOps (r : Reporter D) (objects : Objects D) (timestamp : ℕ) (kv : Str × MetricPtr) :
    List Operation := r.valueOps kv.1 none (r.formatInt (objects.gauge kv.2)) timestamp

def operations (r : Reporter D) (objects : Objects D) (maps : Maps) (timestamp : ℕ) :
    List Operation :=
  .connect :: ((entries maps.counterMap).flatMap (r.counterOps objects timestamp) ++
    ((entries maps.histogramMap).flatMap (r.histogramOps objects timestamp) ++
      ((entries maps.meterMap).flatMap (r.meterOps objects timestamp) ++
        ((entries maps.timerMap).flatMap (r.timerOps objects timestamp) ++
          (entries maps.gaugeMap).flatMap (r.gaugeOps objects timestamp)))))

variable (r : Reporter D) (objects : Objects D) (maps : Maps) (timestamp : ℕ)

theorem sendValue_performs (name : Str) (extra : Option Str) (value : Str) :
    Performs (r.sendValue name extra value timestamp) (r.valueOps name extra value timestamp) () :=
  (Performs.operate _).bind (Performs.operate _)

theorem sendFields_performs (name : Str) (fields : List (Str × Str)) :
    Performs (r.sendFields name fields timestamp) (r.fieldOps name fields timestamp) () :=
  Performs.forM fun field _ => r.sendValue_performs timestamp name (some field.1) field.2

theorem sendMetrics_performs :
    Performs (r.sendMetrics objects maps timestamp) (r.operations objects maps timestamp) () := by
  refine (Performs.operate Operation.connect).bind ?_
  refine (Performs.forM fun kv _ => ?_).bind ?_
  · exact r.sendFields_performs timestamp kv.1 _
  refine (Performs.forM fun kv _ => ?_).bind ?_
  · exact (Performs.operate _).bind (r.sendFields_performs timestamp kv.1 _)
  refine (Performs.forM fun kv _ => ?_).bind ?_
  · exact r.sendFields_performs timestamp kv.1 _
  refine (Performs.forM fun kv _ => ?_).bind ?_
  · exact (Performs.operate _).bind ((r.sendFields_performs timestamp kv.1 _).bind
      (r.sendFields_performs timestamp kv.1 _))
  exact Performs.forM fun kv _ => r.sendValue_performs timestamp kv.1 none _

def journal (faults : ℕ → Option Exception) : List (Operation × Option Exception) :=
  ((r.report objects maps timestamp).run.run (start faults)).2.done

def closing : Option Exception → List (Operation × Option Exception)
  | some .other => []
  | _ => [(.close, none)]

theorem journal_eq (faults : ℕ → Option Exception) :
    r.journal objects maps timestamp faults =
      performed faults (r.operations objects maps timestamp) ++
        closing (firstFault faults (r.operations objects maps timestamp).length) := by
  unfold journal report
  rw [run_tryCatch, (r.sendMetrics_performs objects maps timestamp).run_note]
  cases hfault : firstFault (start faults : Journal Operation Exception).faults
      (r.operations objects maps timestamp).length with
  | none =>
    rw [show firstFault faults _ = none from hfault]
    rfl
  | some e =>
    rw [show firstFault faults _ = some e from hfault]
    cases e with
    | std what => rfl
    | other => exact (List.append_nil _).symm

end Reporter

end CppMetrics.GraphiteReporter
