import CppMetrics.Graphite.WireReader

/-! From the registry to the server: what the lines of a report say about the metrics that were
registered while the maps were read, whatever other threads called and wherever the network
failed. -/

namespace CppMetrics.GraphiteReporter

open MetricRegistry GraphiteSenderTCP ScheduledReporter.Report

variable {D : Type}

namespace Reporter

def typeOps (r : Reporter D) (objects : Objects D) (timestamp : ℕ) :
    MetricType → Str × MetricPtr → List Operation
  | .counter => r.counterOps objects timestamp
  | .histogram => r.histogramOps objects timestamp
  | .meter => r.meterOps objects timestamp
  | .timer => r.timerOps objects timestamp
  | .gauge => r.gaugeOps objects timestamp

def metricOps (r : Reporter D) (objects : Objects D) (timestamp : ℕ) (kv : Str × MetricPtr) :
    List Operation :=
  r.typeOps objects timestamp kv.2.cls kv

theorem operations_eq (r : Reporter D) (objects : Objects D) (maps : Maps) (timestamp : ℕ) :
    r.operations objects maps timestamp = .connect :: reportOrder.flatMap fun t =>
      (entries (maps.ofType t)).flatMap (r.typeOps objects timestamp t) := by
  simp only [operations, reportOrder, List.flatMap_cons, List.flatMap_nil, List.append_nil,
    Maps.ofType, typeOps]

end Reporter

def shown (maps : Maps) : List (Str × MetricPtr) :=
  reportOrder.flatMap fun t => entries (maps.ofType t)

/-- What metrics have to do with the registry from the first read of a map to the last. -/
structure Tells (g : Log) (metrics : List (Str × MetricPtr)) : Prop where
  once : metrics.Nodup
  bound : ∀ kv ∈ metrics, ∃ b ∈ g.during, b kv.1 = some kv.2
  lasting : ∀ name p, (∀ b ∈ g.during, b name = some p) →
    (name, p) ∈ metrics ∧ (metrics.map Prod.fst).count name = 1
  renamed : ∀ name, 1 < (metrics.map Prod.fst).count name →
    ∃ k, (k, name) ∈ g.removed ∧ 0 < k ∧ k < 5

/-! ### The metrics of the maps -/

section

variable {maps : Maps} {name : Str} {p : MetricPtr}

theorem mem_shown : (name, p) ∈ shown maps ↔ ∃ t, (maps.ofType t).lookup name = some p := by
  have hall : ∀ t, t ∈ reportOrder := fun t => by cases t <;> decide
  simp only [shown, List.mem_flatMap, mem_entries, hall, true_and]

theorem names_entries (map : MetricMap) :
    ((entries map).map Prod.fst).count name = if name ∈ map then 1 else 0 := by
  have hnodup : ((entries map).map Prod.fst).Nodup := by
    refine (List.nodup_map_iff_inj_on (entries_nodup map)).mpr ?_
    rintro ⟨x, q⟩ hx ⟨y, q'⟩ hy (rfl : x = y)
    rw [Option.some.inj ((mem_entries.mp hx).symm.trans (mem_entries.mp hy))]
  have hmem : name ∈ (entries map).map Prod.fst ↔ name ∈ map := by
    simp [mem_entries, Finmap.mem_iff]
  split_ifs with h
  · exact List.count_eq_one_of_mem hnodup (hmem.mpr h)
  · exact List.count_eq_zero_of_not_mem (mt hmem.mp h)

theorem count_shown : ((shown maps).map Prod.fst).count name =
    (reportOrder.map fun t => if name ∈ maps.ofType t then 1 else 0).sum := by
  rw [shown, List.map_flatMap, List.count_flatMap]
  exact congrArg List.sum (List.map_congr_left fun t _ => names_entries _)

theorem exists_pair {α : Type} {R : α → α → Prop} {P : α → Prop} [DecidablePred P] {l : List α}
    (hl : l.Pairwise R) (h : 1 < (l.map fun x => if P x then 1 else 0).sum) :
    ∃ x y, R x y ∧ P x ∧ P y := by
  induction hl with
  | nil => cases h
  | @cons x l hx hl ih =>
    rw [List.map_cons, List.sum_cons] at h
    split_ifs at h with hP
    · have hrest : (l.map fun y => if P y then 1 else 0).sum ≠ 0 := by omega
      obtain ⟨n, hn, hne⟩ := List.exists_mem_ne_zero_of_sum_ne_zero hrest
      obtain ⟨y, hy, rfl⟩ := List.mem_map.mp hn
      exact ⟨x, y, hx y hy, hP, by_contra fun hPy => hne (if_neg hPy)⟩
    · exact ih (by omega)

theorem shown_nodup (hcls : ∀ t name p, (maps.ofType t).lookup name = some p → p.cls = t) :
    (shown maps).Nodup := by
  have horder : reportOrder.Nodup := by decide
  rw [shown, List.nodup_flatMap]
  refine ⟨fun t _ => entries_nodup _, horder.pairwise_of_forall_ne fun t _ t' _ hne => ?_⟩
  -- a metric is only in the map of its type
  rintro ⟨x, q⟩ hx hx'
  exact hne ((hcls t x q (mem_entries.mp hx)).symm.trans (hcls t' x q (mem_entries.mp hx')))

theorem samplesOf_operations (r : Reporter D) (objects : Objects D) (timestamp : ℕ)
    (hcls : ∀ t name p, (maps.ofType t).lookup name = some p → p.cls = t) :
    samplesOf (r.operations objects maps timestamp) =
      (shown maps).flatMap fun kv => samplesOf (r.metricOps objects timestamp kv) := by
  rw [r.operations_eq, samplesOf, List.filterMap_cons_none rfl, List.filterMap_flatMap, shown,
    List.flatMap_assoc]
  refine List.flatMap_congr fun t _ => ?_
  rw [List.filterMap_flatMap]
  refine List.flatMap_congr fun kv hkv => ?_
  rw [Reporter.metricOps, hcls t kv.1 kv.2 (mem_entries.mp hkv)]
  rfl

end

/-! ### The metrics of the registry -/

section

variable {g : Log} {s : State} {maps : Maps}

theorem map_of_report (hpc : s.pc = .report maps) (t : MetricType) :
    s.pc.map t = some (maps.ofType t) := by
  rw [hpc]
  rfl

theorem cls_of_report (h : Invariant g s) (hpc : s.pc = .report maps) (t : MetricType) (name : Str)
    (p : MetricPtr) (hp : (maps.ofType t).lookup name = some p) : p.cls = t := by
  obtain ⟨b, -, hlookup⟩ := h.seen t _ (map_of_report hpc t)
  exact ((hlookup name p).mp hp).2

theorem tells_shown (h : Invariant g s) (hpc : s.pc = .report maps) : Tells g (shown maps) where
  once := shown_nodup (cls_of_report h hpc)
  bound := by
    rintro ⟨name, p⟩ hkv
    obtain ⟨t, hp⟩ := mem_shown.mp hkv
    obtain ⟨b, hb, hlookup⟩ := h.seen t _ (map_of_report hpc t)
    exact ⟨b, hb, ((hlookup name p).mp hp).1⟩
  lasting name p hbound := by
    have hshows := h.shows hpc name p hbound
    have hmem : ∀ t, name ∈ maps.ofType t ↔ p.cls = t := by
      intro t
      rw [← Finmap.lookup_isSome, hshows t]
      split_ifs with hcls <;> simp [hcls]
    refine ⟨mem_shown.mpr ⟨p.cls, (hshows p.cls).trans (if_pos rfl)⟩, ?_⟩
    rw [count_shown]
    simp only [hmem]
    cases p.cls <;> rfl
  renamed name hcount := by
    rw [count_shown] at hcount
    have horder : reportOrder.Pairwise fun t t' => turn t < turn t' := by decide
    obtain ⟨t, t', hlt, hname, hname'⟩ := exists_pair horder hcount
    obtain ⟨k, hle, hk, hremoved⟩ := h.twice t t' _ _ name hlt (map_of_report hpc t)
      (map_of_report hpc t') hname hname'
    have hbounds : 0 < turn t ∧ turn t' ≤ 5 := by cases t <;> cases t' <;> decide
    exact ⟨k, hremoved, by omega, by omega⟩

theorem oneLine_of_report (h : Invariant g s) (hpc : s.pc = .report maps)
    (hnames : ∀ b ∈ g.during, ∀ name p, b name = some p → newline ∉ name) : OneLine maps := by
  intro t name p hp
  obtain ⟨b, hb, hlookup⟩ := h.seen t _ (map_of_report hpc t)
  exact hnames b hb name p ((hlookup name p).mp hp).1

end

/-- Whatever other threads call while the maps are read, whatever reports came before and wherever
the connection breaks: the server reads the samples of metrics that were bound at some moment
between the first read and the last, in the order of the report, and all of them when nothing fails.
A metric bound all the time is among them once, and a name that comes twice was removed between two
reads. -/
theorem server_reads_registry (r : Reporter D) (hr : Readable r) (before : List (Report D))
    (hbefore : ∀ q ∈ before, ∀ n, q.network.read n ≠ some .other) (objects : Objects D)
    (timestamp : ℕ) (net : Network) (hread : ∀ n, net.read n ≠ some .other)
    (actions : List Action) :
    Machine.Always (Machine.observe ScheduledReporter.Report.step Log.note)
      (fun x => ∀ maps, x.2.pc = .report maps →
        (∀ b ∈ x.1.during, ∀ name p, b name = some p → newline ∉ name) →
        ∃ metrics, Tells x.1 metrics ∧
          let met := (Report.perform r (Report.performAll r Connection.init before).2
            ⟨objects, maps, timestamp, net⟩).1
          let samples := metrics.flatMap fun kv => samplesOf (r.metricOps objects timestamp kv)
          (delivered met).length ≤ 1 ∧ (∀ text ∈ delivered met, decode text <+: samples) ∧
            (net.Fine → (delivered met).map decode = [samples]))
      (.init, ScheduledReporter.Report.init) actions := by
  have hinvariant : Machine.Always (Machine.observe ScheduledReporter.Report.step Log.note)
      (fun x => Invariant x.1 x.2) (.init, ScheduledReporter.Report.init) actions :=
    Machine.always_observe_of_invariant (fun h hstep => h.step hstep) Invariant.init actions
  refine hinvariant.imp fun x h maps hpc hnames => ⟨shown maps, tells_shown h hpc, ?_⟩
  have hsamples := samplesOf_operations r objects timestamp (cls_of_report h hpc)
  have hclean : ∀ y ∈ samplesOf (r.operations objects maps timestamp), Clean y :=
    hr.samples (oneLine_of_report h hpc hnames) objects
  have hclosed := (performAll_fits (r := r) Closed.init hbefore).2
  have hout : Outcome r _ (⟨objects, maps, timestamp, net⟩ : Report D) := outcome hclosed hread
  rw [hsamples] at hclean
  refine ⟨hout.one, fun text htext => ?_, fun hfine => ?_⟩
  · have hbegins := hout.begins text htext
    rw [hsamples] at hbegins
    exact decode_begins hclean hbegins
  · have hwhole := hout.whole hfine
    rw [hsamples] at hwhole
    rw [hwhole, List.map_singleton, decode_flatMap hclean]

/-- A counter is removed after the first read, and its name taken by a histogram. -/
theorem server_reads_registry_renamed :
    Machine.Always (Machine.observe ScheduledReporter.Report.step Log.note)
      (fun x => ∀ maps, x.2.pc = .report maps →
        (∀ b ∈ x.1.during, ∀ name p, b name = some p → newline ∉ name) →
        ∃ metrics, Tells x.1 metrics ∧
          let met := (Report.perform plain (Report.performAll plain Connection.init
            [brokenReport]).2 ⟨goodReport.objects, maps, 8, goodReport.network⟩).1
          let samples := metrics.flatMap fun kv =>
            samplesOf (plain.metricOps goodReport.objects 8 kv)
          (delivered met).length ≤ 1 ∧ (∀ text ∈ delivered met, decode text <+: samples) ∧
            (goodReport.network.Fine → (delivered met).map decode = [samples]))
      (.init, ScheduledReporter.Report.init) renamed := by
  refine server_reads_registry plain readable_plain [brokenReport] (fun q hq n h => ?_)
    goodReport.objects 8 goodReport.network (fun n h => (nomatch h)) renamed
  rw [List.mem_singleton] at hq
  rw [hq] at h
  cases h

end CppMetrics.GraphiteReporter
