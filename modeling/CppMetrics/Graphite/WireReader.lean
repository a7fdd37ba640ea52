import CppMetrics.Graphite.Delivery

/-! The format from the other side: a server that takes the lines of a connection and cuts each at
its last two spaces. It gets the samples of a report, or the first of them where the connection
breaks. -/

namespace CppMetrics.GraphiteReporter

open MetricRegistry GraphiteSenderTCP Delimited

def decimalValue (text : Str) : ℕ :=
  Nat.ofDigitChars 10 (text.map fun b => Char.ofNat b.toNat) 0

def sampleOfLine (text : Str) : Option Sample :=
  (cutLast space text).bind fun x =>
    (cutLast space x.1).map fun y => ⟨y.1, y.2, decimalValue x.2⟩

/-- A line without its end is no sample yet. -/
def decode (text : Str) : List Sample := (terminated newline [] text).filterMap sampleOfLine

def bare (x : Sample) : Str := x.path ++ space :: (x.value ++ space :: decimal x.timestamp)

theorem lineOf_eq (x : Sample) : lineOf x = bare x ++ [newline] := by
  simp only [lineOf, line, bare, List.append_assoc, List.cons_append]

theorem decimalValue_decimal (n : ℕ) : decimalValue (decimal n) = n := by
  have hread : (decimal n).map (fun b => Char.ofNat b.toNat) = Nat.toDigits 10 n := by
    rw [decimal, List.map_map]
    refine (List.map_congr_left fun c hc => ?_).trans (List.map_id _)
    have hle := (toNat_of_mem_toDigits hc).2
    show Char.ofNat (UInt8.ofNat c.toNat).toNat = c
    rw [UInt8.toNat_ofNat_of_lt' (by show c.toNat < 256; omega), Char.ofNat_toNat]
  rw [decimalValue, hread, Nat.ofDigitChars_ten_toDigits]

/-- The path may hold spaces; the value may not, and neither may hold the end of a line. -/
structure Clean (x : Sample) : Prop where
  path : newline ∉ x.path
  space : space ∉ x.value
  value : newline ∉ x.value

theorem Clean.bare {x : Sample} (hx : Clean x) : newline ∉ bare x := by
  have hne : newline ≠ GraphiteSenderTCP.space := by decide
  simp only [GraphiteReporter.bare, List.mem_append, List.mem_cons, not_or]
  exact ⟨hx.path, hne, hx.value, hne, newline_notMem_decimal _⟩

theorem sampleOfLine_bare {x : Sample} (hx : Clean x) : sampleOfLine (bare x) = some x := by
  have hcut : cutLast GraphiteSenderTCP.space (bare x) =
      some (x.path ++ GraphiteSenderTCP.space :: x.value, decimal x.timestamp) := by
    rw [bare, ← List.cons_append, ← List.append_assoc]
    exact cutLast_append_cons (space_notMem_decimal _) _
  rw [sampleOfLine, hcut, Option.bind_some, cutLast_append_cons hx.space, decimalValue_decimal]
  rfl

section

variable {samples : List Sample} (hsamples : ∀ x ∈ samples, Clean x)

include hsamples

theorem filterMap_bare : (samples.map bare).filterMap sampleOfLine = samples := by
  rw [List.filterMap_map]
  refine (List.filterMap_congr fun x hx => ?_).trans List.filterMap_some
  exact sampleOfLine_bare (hsamples x hx)

theorem decode_flatMap : decode (samples.flatMap lineOf) = samples := by
  rw [decode, funext lineOf_eq, terminated_flatMap fun x hx => (hsamples x hx).bare,
    filterMap_bare hsamples]

/-- Whatever a connection loses at its end, what is read of it are the first samples. -/
theorem decode_begins {text : Str} (h : text <+: samples.flatMap lineOf) :
    decode text <+: samples := by
  rw [funext lineOf_eq] at h
  have hrecords := terminated_begins (fun x hx => (hsamples x hx).bare) h
  have hread := hrecords.filterMap sampleOfLine
  rw [filterMap_bare hsamples] at hread
  exact hread

end

/-! ### The samples of a report -/

/-- Numbers are written without spaces and ends of lines, and the prefix holds no end of a line. -/
structure Readable {D : Type} (r : Reporter D) : Prop where
  prefix_ : newline ∉ r.prefix_
  double : ∀ d, space ∉ r.formatDouble d ∧ newline ∉ r.formatDouble d
  int : ∀ n, space ∉ r.formatInt n ∧ newline ∉ r.formatInt n

section

variable {D : Type} {r : Reporter D} {name : Str} {timestamp : ℕ}

def Number (r : Reporter D) (value : Str) : Prop :=
  (∃ d, value = r.formatDouble d) ∨ ∃ n, value = r.formatInt n

theorem Readable.clean (hr : Readable r) (hname : newline ∉ name) {extra : Option Str}
    (hextra : ∀ field ∈ extra, newline ∉ field) {value : Str} (hvalue : Number r value) :
    Clean ⟨r.metricPath name extra, value, timestamp⟩ := by
  have hpath : newline ∉ r.metricPath name extra := by
    have hdot : newline ∉ Reporter.dot := by decide
    cases extra with
    | none => simp [Reporter.metricPath, hr.prefix_, hdot, hname]
    | some field => simp [Reporter.metricPath, hr.prefix_, hdot, hname, hextra field rfl]
  rcases hvalue with ⟨d, rfl⟩ | ⟨n, rfl⟩
  · exact ⟨hpath, (hr.double d).1, (hr.double d).2⟩
  · exact ⟨hpath, (hr.int n).1, (hr.int n).2⟩

theorem Readable.fields (hr : Readable r) (hname : newline ∉ name) {t : MetricType}
    {fields : List (Str × Str)} (hfields : ∀ field ∈ fields, some field.1 ∈ Reporter.extras t)
    (hnumbers : ∀ field ∈ fields, Number r field.2) :
    ∀ x ∈ samplesOf (r.fieldOps name fields timestamp), Clean x := by
  intro x hx
  obtain ⟨op, hop, hsample⟩ := List.mem_filterMap.mp hx
  obtain ⟨field, hfield, hop⟩ := List.mem_flatMap.mp hop
  simp only [Reporter.valueOps, List.mem_cons, List.not_mem_nil, or_false] at hop
  rcases hop with rfl | rfl
  · cases hsample
  · cases hsample
    refine hr.clean hname (fun f hf => ?_) (hnumbers field hfield)
    rw [← Option.some.inj hf]
    exact extras_newline (hfields field hfield)

theorem samplesOf_append (ops ops' : List Operation) :
    samplesOf (ops ++ ops') = samplesOf ops ++ samplesOf ops' := List.filterMap_append

theorem samplesOf_flatMap {β : Type} {f : β → List Operation} {P : Sample → Prop} (xs : List β)
    (h : ∀ x ∈ xs, ∀ y ∈ samplesOf (f x), P y) : ∀ y ∈ samplesOf (xs.flatMap f), P y := by
  intro y hy
  obtain ⟨op, hop, hsample⟩ := List.mem_filterMap.mp hy
  obtain ⟨x, hx, hop⟩ := List.mem_flatMap.mp hop
  exact h x hx y (List.mem_filterMap.mpr ⟨op, hop, hsample⟩)

theorem of_map_eq_extras {fields : List (Str × Str)} {t : MetricType}
    (h : ∀ extra ∈ fields.map fun field => some field.1, extra ∈ Reporter.extras t) :
    ∀ field ∈ fields, some field.1 ∈ Reporter.extras t :=
  fun field hfield => h _ (List.mem_map.mpr ⟨field, hfield, rfl⟩)

theorem Readable.meterFields (hr : Readable r) (hname : newline ∉ name) (meter : MeteredValues D) :
    ∀ x ∈ samplesOf (r.fieldOps name (r.meterFields meter) timestamp), Clean x := by
  refine hr.fields (t := .meter) hname (of_map_eq_extras fun extra h => h) ?_
  simp only [Reporter.meterFields, List.mem_cons, List.not_mem_nil, or_false]
  rintro field (rfl | rfl | rfl | rfl | rfl)
  · exact .inr ⟨_, rfl⟩
  all_goals exact .inl ⟨_, rfl⟩

theorem Readable.durationFields (hr : Readable r) (hname : newline ∉ name)
    (snapshot : SnapshotValues D) :
    ∀ x ∈ samplesOf (r.fieldOps name (r.durationFields snapshot) timestamp), Clean x := by
  refine hr.fields (t := .timer) hname (of_map_eq_extras fun extra h => ?_) ?_
  · have htimer : Reporter.extras .timer =
        ((r.durationFields snapshot).map fun field => some field.1) ++ Reporter.extras .meter := rfl
    rw [htimer]
    exact List.mem_append_left _ h
  · simp only [Reporter.durationFields, List.mem_cons, List.not_mem_nil, or_false]
    rintro field (rfl | rfl | rfl | rfl | rfl | rfl | rfl | rfl | rfl | rfl)
    all_goals exact .inl ⟨_, rfl⟩

theorem Readable.histogramFields (hr : Readable r) (hname : newline ∉ name) (count : ℕ)
    (snapshot : SnapshotValues D) :
    ∀ x ∈ samplesOf (r.fieldOps name (r.histogramFields count snapshot) timestamp), Clean x := by
  refine hr.fields (t := .histogram) hname (of_map_eq_extras fun extra h => h) ?_
  simp only [Reporter.histogramFields, List.mem_cons, List.not_mem_nil, or_false]
  rintro field (rfl | rfl | rfl | rfl | rfl | rfl | rfl | rfl | rfl | rfl | rfl)
  all_goals first | exact .inl ⟨_, rfl⟩ | exact .inr ⟨_, rfl⟩

theorem Readable.counterFields (hr : Readable r) (hname : newline ∉ name) (count : ℤ) :
    ∀ x ∈ samplesOf (r.fieldOps name (r.counterFields count) timestamp), Clean x := by
  refine hr.fields (t := .counter) hname (of_map_eq_extras fun extra h => h) ?_
  intro field hfield
  rw [List.mem_singleton.mp hfield]
  exact .inr ⟨_, rfl⟩

def OneLine (maps : ScheduledReporter.Report.Maps) : Prop :=
  ∀ t name p, (maps.ofType t).lookup name = some p → newline ∉ name

theorem Readable.samples (hr : Readable r) {maps : ScheduledReporter.Report.Maps}
    (hmaps : OneLine maps) (objects : Objects D) :
    ∀ x ∈ samplesOf (r.operations objects maps timestamp), Clean x := by
  have hentries : ∀ {t} {kv : Str × MetricPtr}, kv ∈ entries (maps.ofType t) → newline ∉ kv.1 :=
    fun {t kv} hkv => hmaps t kv.1 kv.2 (mem_entries.mp hkv)
  have hcounter := samplesOf_flatMap (P := Clean) (f := r.counterOps objects timestamp)
    (entries maps.counterMap) fun kv hkv =>
      hr.counterFields (hentries (t := .counter) hkv) _
  have hhistogram := samplesOf_flatMap (P := Clean) (f := r.histogramOps objects timestamp)
    (entries maps.histogramMap) fun kv hkv =>
      hr.histogramFields (hentries (t := .histogram) hkv) _ _
  have hmeter := samplesOf_flatMap (P := Clean) (f := r.meterOps objects timestamp)
    (entries maps.meterMap) fun kv hkv => hr.meterFields (hentries (t := .meter) hkv) _
  have htimer := samplesOf_flatMap (P := Clean) (f := r.timerOps objects timestamp)
    (entries maps.timerMap) fun kv hkv x hx => by
      have hname := hentries (t := .timer) hkv
      change x ∈ samplesOf (_ ++ _) at hx
      rw [samplesOf_append, List.mem_append] at hx
      exact hx.elim (hr.durationFields hname _ x) (hr.meterFields hname _ x)
  have hgauge := samplesOf_flatMap (P := Clean) (f := r.gaugeOps objects timestamp)
    (entries maps.gaugeMap) fun kv hkv x hx => by
      rw [List.mem_singleton.mp hx]
      exact hr.clean (hentries (t := .gauge) hkv) (fun field h => by cases h) (.inr ⟨_, rfl⟩)
  intro x hx
  change x ∈ samplesOf (_ ++ (_ ++ (_ ++ (_ ++ _)))) at hx
  simp only [samplesOf_append, List.mem_append] at hx
  rcases hx with hx | hx | hx | hx | hx
  · exact hcounter x hx
  · exact hhistogram x hx
  · exact hmeter x hx
  · exact htimer x hx
  · exact hgauge x hx

theorem paths_samplesOf (ops : List Operation) :
    (samplesOf ops).map Sample.path = ops.filterMap Operation.path := by
  rw [samplesOf, List.map_filterMap]
  refine List.filterMap_congr fun op _ => ?_
  cases op <;> rfl

/-- Whatever reports came before and however they failed: of a report the server reads the first
samples, in order, and all of them when nothing fails; and these are one sample for every series
of the maps. -/
theorem server_reads_samples (r : Reporter D) (hr : Readable r) (before : List (Report D))
    (p : Report D) (hmaps : OneLine p.maps)
    (hread : ∀ q ∈ p :: before, ∀ n, q.network.read n ≠ some .other) :
    let met := (p.perform r (Report.performAll r Connection.init before).2).1
    let samples := samplesOf (r.operations p.objects p.maps p.timestamp)
    (delivered met).length ≤ 1 ∧ (∀ text ∈ delivered met, decode text <+: samples) ∧
      (p.network.Fine → (delivered met).map decode = [samples]) ∧
      samples.map Sample.path = (series p.maps).map r.pathOf := by
  intro met samples
  have hclosed := (performAll_fits (r := r) Closed.init fun q hq =>
    hread q (List.mem_cons_of_mem p hq)).2
  have hout : Outcome r _ p := outcome hclosed (hread p List.mem_cons_self)
  have hclean : ∀ x ∈ samples, Clean x := hr.samples hmaps p.objects
  refine ⟨hout.one, fun text htext => decode_begins hclean (hout.begins text htext),
    fun hfine => ?_, ?_⟩
  · have hwhole : delivered met = [samples.flatMap lineOf] := hout.whole hfine
    rw [hwhole, List.map_singleton, decode_flatMap hclean]
  · rw [paths_samplesOf, path_operations]

def goodReport : Report Unit :=
  ⟨throwingGauge.objects, throwingGauge.maps, 8, ⟨.established, fun _ => none, fun _ => .done⟩⟩

theorem oneLine_throwingGauge : OneLine throwingGauge.maps := by
  intro t name p h
  cases t with
  | gauge =>
    have hname : name = str "g" := by
      by_contra hne
      have hmem := Finmap.mem_of_lookup_eq_some h
      exact hne (by simpa [throwingGauge, ScheduledReporter.Report.Maps.ofType] using hmem)
    rw [hname]
    decide +kernel
  | counter | histogram | meter | timer =>
    cases (Finmap.lookup_empty name).symm.trans h

theorem readable_plain : Readable plain :=
  ⟨by decide +kernel, fun _ => ⟨List.not_mem_nil, List.not_mem_nil⟩,
    fun _ => ⟨List.not_mem_nil, List.not_mem_nil⟩⟩

theorem server_reads_samples_good :
    (delivered (goodReport.perform plain
      (Report.performAll plain Connection.init [brokenReport]).2).1).map decode =
        [samplesOf (plain.operations goodReport.objects goodReport.maps goodReport.timestamp)] := by
  have hread : ∀ q ∈ [goodReport, brokenReport], ∀ n, q.network.read n ≠ some .other := by
    intro q hq n h
    rw [List.mem_cons, List.mem_singleton] at hq
    rcases hq with rfl | rfl <;> cases h
  exact (server_reads_samples plain readable_plain [brokenReport] goodReport oneLine_throwingGauge
    hread).2.2.1 ⟨rfl, fun _ => rfl, fun _ => rfl⟩

end

end CppMetrics.GraphiteReporter
