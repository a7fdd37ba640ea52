import CppMetrics.Graphite.ConnectionProtocol
import CppMetrics.Lib.Delimited

/-! The paths of one report: which series of a registry share one. -/

namespace CppMetrics.GraphiteReporter

open MetricRegistry ScheduledReporter.Report Fallible Delimited

/-- What `report()` reads when nobody calls the registry meanwhile. -/
def mapsOf (registry : Impl) : Maps :=
  ⟨getCounters registry, getHistograms registry, getMeters registry, getTimers registry,
    getGauges registry⟩

example (w : World) :
    Machine.run step ⟨w, .counters⟩ (List.replicate 5 .read) =
      some ⟨w, .report (mapsOf w.registry)⟩ := rfl

def Operation.path : Operation → Option Str
  | .send path _ _ => some path
  | _ => none

def sentPaths (journal : List (Operation × Option Exception)) : List Str :=
  (journal.map Prod.fst).filterMap Operation.path

/-- A metric of the registry by its name and type, and a field that is reported of it. -/
abbrev Series := Str × MetricType × Option Str

def Reported (b : Bindings) (x : Series) : Prop :=
  ∃ p, b x.1 = some p ∧ p.cls = x.2.1 ∧ x.2.2 ∈ Reporter.extras x.2.1

/-- A gauge has the name that a field of another metric is reported under. -/
def Shadowed (b : Bindings) (name field : Str) : Prop :=
  (∃ t, Reported b (name, t, some field)) ∧
    ∃ g, b (name ++ Reporter.dot ++ field) = some ⟨.gauge, g⟩

def Reporter.pathOf {D : Type} (r : Reporter D) (x : Series) : Str := r.metricPath x.1 x.2.2

/-! ### The paths as a list of series -/

def reportOrder : List MetricType := [.counter, .histogram, .meter, .timer, .gauge]

def seriesOf (map : MetricMap) (t : MetricType) : List Series :=
  (entries map).flatMap fun kv => (Reporter.extras t).map fun extra => (kv.1, t, extra)

def series (maps : Maps) : List Series :=
  reportOrder.flatMap fun t => seriesOf (maps.ofType t) t

variable {D : Type}

theorem path_fieldOps (r : Reporter D) (name : Str) (fields : List (Str × Str)) (timestamp : ℕ) :
    (r.fieldOps name fields timestamp).filterMap Operation.path =
      (fields.map fun field => some field.1).map (r.metricPath name) := by
  induction fields with
  | nil => rfl
  | cons field fields ih =>
    rw [Reporter.fieldOps, List.flatMap_cons, List.filterMap_append]
    exact congrArg (r.metricPath name (some field.1) :: ·) ih

theorem path_flatMap (r : Reporter D) {t : MetricType} {ops : Str × MetricPtr → List Operation}
    (h : ∀ kv, (ops kv).filterMap Operation.path = (Reporter.extras t).map (r.metricPath kv.1))
    (map : MetricMap) : ((entries map).flatMap ops).filterMap Operation.path =
      (seriesOf map t).map r.pathOf := by
  rw [seriesOf, List.map_flatMap, List.filterMap_flatMap]
  congr 1
  funext kv
  rw [h kv, List.map_map]
  rfl

theorem path_operations (r : Reporter D) (objects : Objects D) (maps : Maps) (timestamp : ℕ) :
    (r.operations objects maps timestamp).filterMap Operation.path =
      (series maps).map r.pathOf := by
  have hseries : series maps = seriesOf maps.counterMap .counter ++
      (seriesOf maps.histogramMap .histogram ++ (seriesOf maps.meterMap .meter ++
        (seriesOf maps.timerMap .timer ++ seriesOf maps.gaugeMap .gauge))) := by
    simp only [series, reportOrder, List.flatMap_cons, List.flatMap_nil, List.append_nil,
      Maps.ofType]
  have hcounter : ∀ kv, (r.counterOps objects timestamp kv).filterMap Operation.path =
      (Reporter.extras .counter).map (r.metricPath kv.1) := fun kv =>
    path_fieldOps r kv.1 _ timestamp
  have hhistogram : ∀ kv, (r.histogramOps objects timestamp kv).filterMap Operation.path =
      (Reporter.extras .histogram).map (r.metricPath kv.1) := by
    intro kv
    rw [Reporter.histogramOps, List.filterMap_cons_none rfl]
    exact path_fieldOps r kv.1 _ timestamp
  have hmeter : ∀ kv, (r.meterOps objects timestamp kv).filterMap Operation.path =
      (Reporter.extras .meter).map (r.metricPath kv.1) := fun kv =>
    path_fieldOps r kv.1 _ timestamp
  have htimer : ∀ kv, (r.timerOps objects timestamp kv).filterMap Operation.path =
      (Reporter.extras .timer).map (r.metricPath kv.1) := by
    intro kv
    rw [Reporter.timerOps, List.filterMap_cons_none rfl, List.filterMap_append, path_fieldOps,
      path_fieldOps, ← List.map_append]
    rfl
  have hgauge : ∀ kv, (r.gaugeOps objects timestamp kv).filterMap Operation.path =
      (Reporter.extras .gauge).map (r.metricPath kv.1) := fun kv => rfl
  rw [hseries, Reporter.operations, List.filterMap_cons_none rfl]
  simp only [List.filterMap_append, List.map_append]
  rw [path_flatMap r hcounter, path_flatMap r hhistogram, path_flatMap r hmeter,
    path_flatMap r htimer, path_flatMap r hgauge]

theorem closing_paths (fault : Option Exception) :
    ((Reporter.closing fault).map Prod.fst).filterMap Operation.path = [] := by
  unfold Reporter.closing
  split <;> rfl

theorem sentPaths_begins (r : Reporter D) (objects : Objects D) (maps : Maps) (timestamp : ℕ)
    (faults : ℕ → Option Exception) :
    sentPaths (r.journal objects maps timestamp faults) <+: (series maps).map r.pathOf := by
  have hperformed := (performed_begins faults
    (r.operations objects maps timestamp)).filterMap Operation.path
  rw [sentPaths, r.journal_eq, List.map_append, List.filterMap_append, closing_paths,
    List.append_nil, ← path_operations r objects maps timestamp]
  exact hperformed

theorem sentPaths_of_no_fault (r : Reporter D) (objects : Objects D) (maps : Maps) (timestamp : ℕ) :
    sentPaths (r.journal objects maps timestamp fun _ => none) = (series maps).map r.pathOf := by
  have hnone : ∀ n, firstFault (fun _ => (none : Option Exception)) n = none := by
    intro n
    induction n with
    | zero => rfl
    | succ n ih => exact ih
  have hfst : (performed (fun _ => (none : Option Exception))
      (r.operations objects maps timestamp)).map Prod.fst =
      r.operations objects maps timestamp := by
    rw [performed_of_none (hnone _), List.map_map]
    exact List.map_id _
  rw [sentPaths, r.journal_eq, List.map_append, List.filterMap_append, closing_paths,
    List.append_nil, hfst, path_operations r objects maps timestamp]

/-! ### Every series once -/

theorem extras_nodup (t : MetricType) : (Reporter.extras t).Nodup := by
  cases t <;> decide +kernel

theorem entries_nodup (map : MetricMap) : (entries map).Nodup := by
  refine (Finset.sort_nodup _ _).filterMap ?_
  intro name name' kv h h'
  obtain ⟨p, -, rfl⟩ := Option.map_eq_some_iff.mp h
  obtain ⟨p', -, heq⟩ := Option.map_eq_some_iff.mp h'
  exact (Prod.mk.inj heq).1.symm

theorem mem_seriesOf {map : MetricMap} {t : MetricType} {x : Series} :
    x ∈ seriesOf map t ↔
      (∃ p, map.lookup x.1 = some p) ∧ x.2.1 = t ∧ x.2.2 ∈ Reporter.extras t := by
  obtain ⟨name, t', extra⟩ := x
  simp only [seriesOf, List.mem_flatMap, List.mem_map, Prod.mk.injEq]
  constructor
  · rintro ⟨⟨name', p⟩, hkv, extra', hextra, rfl, rfl, rfl⟩
    exact ⟨⟨p, mem_entries.mp hkv⟩, rfl, hextra⟩
  · rintro ⟨⟨p, hp⟩, rfl, hextra⟩
    exact ⟨(name, p), mem_entries.mpr hp, extra, hextra, rfl, rfl, rfl⟩

theorem seriesOf_nodup (map : MetricMap) (t : MetricType) : (seriesOf map t).Nodup := by
  rw [seriesOf, List.nodup_flatMap]
  constructor
  · intro kv _
    exact (extras_nodup t).map fun extra extra' heq => (Prod.mk.inj (Prod.mk.inj heq).2).2
  · refine (entries_nodup map).pairwise_of_forall_ne fun kv hkv kv' hkv' hne => ?_
    -- one name has one entry
    obtain ⟨name, p⟩ := kv
    obtain ⟨name', p'⟩ := kv'
    intro x hx hx'
    obtain ⟨extra, -, rfl⟩ := List.mem_map.mp hx
    obtain ⟨extra', -, heq⟩ := List.mem_map.mp hx'
    obtain ⟨rfl, -⟩ := Prod.mk.inj heq
    apply hne
    have hlookup := (mem_entries.mp hkv).symm.trans (mem_entries.mp hkv')
    rw [Option.some.inj hlookup]

theorem series_nodup (maps : Maps) : (series maps).Nodup := by
  have horder : reportOrder.Nodup := by decide
  rw [series, List.nodup_flatMap]
  refine ⟨fun t _ => seriesOf_nodup _ t, ?_⟩
  refine horder.pairwise_of_forall_ne fun t _ t' _ hne => ?_
  intro x hx hx'
  obtain ⟨-, rfl, -⟩ := mem_seriesOf.mp hx
  obtain ⟨-, heq, -⟩ := mem_seriesOf.mp hx'
  exact hne heq

theorem mem_series {w : World} (wf : WellFormed w) {x : Series} :
    x ∈ series (mapsOf w.registry) ↔ Reported (bindings w.registry) x := by
  have hlookup : ∀ t p, ((mapsOf w.registry).ofType t).lookup x.1 = some p ↔
      bindings w.registry x.1 = some p ∧ p.cls = t := by
    intro t p
    cases t <;> exact lookup_getMetrics_eq_some_iff wf
  simp only [series, List.mem_flatMap, mem_seriesOf, hlookup]
  constructor
  · rintro ⟨t, -, ⟨p, hp, hcls⟩, rfl, hextra⟩
    exact ⟨p, hp, hcls, hextra⟩
  · rintro ⟨p, hp, hcls, hextra⟩
    have horder : x.2.1 ∈ reportOrder := by
      cases x.2.1 <;> decide
    exact ⟨x.2.1, horder, ⟨p, hp, hcls⟩, rfl, hextra⟩

/-! ### Which series share a path -/

theorem extras_dot {t : MetricType} {field : Str} (h : some field ∈ Reporter.extras t) :
    (46 : UInt8) ∉ field := by
  have hall : ∀ extra ∈ Reporter.extras t, ∀ f ∈ extra, (46 : UInt8) ∉ f := by
    cases t <;> decide +kernel
  exact hall (some field) h field rfl

theorem extras_none {t : MetricType} (h : none ∈ Reporter.extras t) : t = .gauge := by
  revert h
  cases t <;> decide +kernel

section

variable (r : Reporter D) {b : Bindings}

theorem pathOf_some (name : Str) (t : MetricType) (field : Str) :
    r.pathOf (name, t, some field) = r.pathOf (name ++ Reporter.dot ++ field, .gauge, none) := by
  simp only [Reporter.pathOf, Reporter.metricPath, List.append_assoc]

theorem pathOf_none_inj {name name' : Str} {t t' : MetricType} :
    r.pathOf (name, t, none) = r.pathOf (name', t', none) ↔ name = name' :=
  List.append_right_inj (r.prefix_ ++ Reporter.dot)

theorem reported_eq {x y : Series} (hx : Reported b x) (hy : Reported b y) (hname : x.1 = y.1)
    (hextra : x.2.2 = y.2.2) : x = y := by
  obtain ⟨p, hp, hcls, -⟩ := hx
  obtain ⟨p', hp', hcls', -⟩ := hy
  rw [hname, hp'] at hp
  cases hp
  exact Prod.ext hname (Prod.ext (hcls.symm.trans hcls') hextra)

theorem shadowed_of_pathOf_eq {name name' field : Str} {t t' : MetricType}
    (hx : Reported b (name, t, some field)) (hy : Reported b (name', t', none))
    (hpath : r.pathOf (name, t, some field) = r.pathOf (name', t', none)) :
    Shadowed b name field := by
  rw [pathOf_some, pathOf_none_inj] at hpath
  obtain ⟨⟨cls, g⟩, hg, hcls, hextra⟩ := hy
  subst hcls
  obtain rfl : cls = .gauge := extras_none hextra
  exact ⟨⟨t, hx⟩, g, hpath ▸ hg⟩

theorem pathOf_injOn_iff :
    Set.InjOn r.pathOf {x | Reported b x} ↔ ¬∃ name field, Shadowed b name field := by
  constructor
  · rintro hinj ⟨name, field, ⟨t, hx⟩, g, hg⟩
    have hy : Reported b (name ++ Reporter.dot ++ field, .gauge, none) :=
      ⟨⟨.gauge, g⟩, hg, rfl, List.mem_singleton_self none⟩
    have heq := hinj hx hy (pathOf_some r name t field)
    cases congrArg (fun x : Series => x.2.2) heq
  · rintro hshadowed ⟨name, t, extra⟩ hx ⟨name', t', extra'⟩ hy hpath
    cases extra with
    | none =>
      cases extra' with
      | none => exact reported_eq hx hy ((pathOf_none_inj r).mp hpath) rfl
      | some field' => exact absurd ⟨_, _, shadowed_of_pathOf_eq r hy hx hpath.symm⟩ hshadowed
    | some field =>
      cases extra' with
      | none => exact absurd ⟨_, _, shadowed_of_pathOf_eq r hx hy hpath⟩ hshadowed
      | some field' =>
        -- no field has a dot in it, so the last dot of the path is in front of the field
        obtain ⟨p, hp, hcls, hextra⟩ := id hx
        obtain ⟨p', hp', hcls', hextra'⟩ := id hy
        rw [pathOf_some, pathOf_some, pathOf_none_inj] at hpath
        have hdot : ∀ name field : Str, name ++ Reporter.dot ++ field = name ++ 46 :: field :=
          fun name field => List.append_assoc name [46] field
        rw [hdot, hdot, append_cons_inj (extras_dot hextra) (extras_dot hextra')] at hpath
        exact reported_eq hx hy hpath.1 (congrArg some hpath.2)

theorem paths_nodup_iff {w : World} (wf : WellFormed w) :
    ((series (mapsOf w.registry)).map r.pathOf).Nodup ↔
      ¬∃ name field, Shadowed (bindings w.registry) name field := by
  rw [List.nodup_map_iff_inj_on (series_nodup _), ← pathOf_injOn_iff r]
  simp only [mem_series wf]
  rfl

end

/-! ### The registries that the calls reach -/

def registryAfter (cs : List Call) : Impl := (performAll cs World.empty).2.registry

theorem wellFormed_after (cs : List Call) : WellFormed (performAll cs World.empty).2 :=
  (performAll_refines cs WellFormed.empty (fromHeap_empty _)).2

/-- The paths tell the series apart, and none is sent twice by a report, if and only if no gauge
has the name that a field of another metric is reported under. -/
theorem report_paths_distinct_iff (r : Reporter D) (cs : List Call) (objects : Objects D)
    (timestamp : ℕ) :
    (Set.InjOn r.pathOf {x | Reported (bindings (registryAfter cs)) x} ↔
        ¬∃ name field, Shadowed (bindings (registryAfter cs)) name field) ∧
      ((∀ faults, (sentPaths
          (r.journal objects (mapsOf (registryAfter cs)) timestamp faults)).Nodup) ↔
        ¬∃ name field, Shadowed (bindings (registryAfter cs)) name field) := by
  refine ⟨pathOf_injOn_iff r, ?_⟩
  rw [registryAfter, ← paths_nodup_iff r (wellFormed_after cs)]
  constructor
  · intro h
    have hall := h fun _ => none
    rwa [sentPaths_of_no_fault] at hall
  · intro h faults
    exact (sentPaths_begins r objects _ timestamp faults).sublist.nodup h

def counterAndGauge : List Call := [.counter (str "a"), .addGauge (str "a.count") 0]

theorem gauge_takes_path : ¬∀ faults, (sentPaths (plain.journal throwingGauge.objects
    (mapsOf (registryAfter counterAndGauge)) 0 faults)).Nodup := by
  intro h
  have hall := h fun _ => none
  rw [sentPaths_of_no_fault, registryAfter, paths_nodup_iff plain (wellFormed_after _)] at hall
  have hcounter : bindings (registryAfter counterAndGauge) (str "a") = some ⟨.counter, 1⟩ := by
    decide +kernel
  have hgauge : bindings (registryAfter counterAndGauge)
      (str "a" ++ Reporter.dot ++ str "count") = some ⟨.gauge, 0⟩ := by
    decide +kernel
  exact hall ⟨str "a", str "count", ⟨.counter, ⟨.counter, 1⟩, hcounter, rfl,
    List.mem_singleton_self _⟩, 0, hgauge⟩

end CppMetrics.GraphiteReporter
