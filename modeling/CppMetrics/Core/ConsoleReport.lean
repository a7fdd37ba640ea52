import CppMetrics.Core.ConsoleReporter
import CppMetrics.Lib.Delimited

/-! The whole text of a report to the console: a section for each type of metric that has any, under
a banner, and what can be told from it. -/

namespace CppMetrics.ConsoleReporter

open ScheduledReporter GraphiteReporter MetricRegistry ScheduledReporter.Report Delimited

variable {K : Type} [Field K]

def CONSOLE_WIDTH : UInt64 := 80

/-- The difference is taken on unsigned numbers of 64 bits. -/
def printWithBanner (text : Str) (sep : UInt8) : Str :=
  text ++ str " " ++
    List.replicate (CONSOLE_WIDTH - UInt64.ofNat text.length - 1).toNat sep ++ endl

def printGauge (s : Stream K) (gauge : ℤ) : Str :=
  str "             value = " ++ s.formatInt gauge ++ endl

def printCounter (s : Stream K) (count : ℤ) : Str :=
  str "             count = " ++ s.formatInt count ++ endl

def printHistogram (s : Stream K) (histogram : ℕ × SnapshotValues K) : Str :=
  let snapshot := histogram.2
  countLine s histogram.1 ++
  (str "               min = " ++ s.formatInt snapshot.min ++ endl) ++
  (str "               max = " ++ s.formatInt snapshot.max ++ endl) ++
  (str "              mean = " ++ s.formatDouble snapshot.mean ++ endl) ++
  (str "            stddev = " ++ s.formatDouble snapshot.stdDev ++ endl) ++
  (str "            median = " ++ s.formatDouble snapshot.median ++ endl) ++
  (str "              75% <= " ++ s.formatDouble snapshot.p75 ++ endl) ++
  (str "              95% <= " ++ s.formatDouble snapshot.p95 ++ endl) ++
  (str "              98% <= " ++ s.formatDouble snapshot.p98 ++ endl) ++
  (str "              99% <= " ++ s.formatDouble snapshot.p99 ++ endl) ++
  (str "            99.9% <= " ++ s.formatDouble snapshot.p999 ++ endl)

def printSection (title : String) (print : MetricPtr → Str) (map : MetricMap) : Str :=
  if entries map = [] then []
  else
    printWithBanner (str title) 45 ++
      (entries map).flatMap (fun entry => entry.1 ++ endl ++ print entry.2) ++ endl

structure Shown (K : Type) where
  timestamp : Str
  maps : Maps
  objects : Objects K

def report (s : Stream K) (conversion : Conversion K) (x : Shown K) : Str :=
  printWithBanner x.timestamp 61 ++
  printSection "-- Gauges" (fun p => printGauge s (x.objects.gauge p)) x.maps.gaugeMap ++
  printSection "-- Counters" (fun p => printCounter s (x.objects.counter p)) x.maps.counterMap ++
  printSection "-- Histograms" (fun p => printHistogram s (x.objects.histogram p))
    x.maps.histogramMap ++
  printSection "-- Meters" (fun p => printMeter s conversion (x.objects.meter p))
    x.maps.meterMap ++
  printSection "-- Timers" (fun p => printTimer s conversion (x.objects.timer p))
    x.maps.timerMap ++
  endl

/-! ### The numbers of a metric -/

def numbers (s : Stream K) (conversion : Conversion K) (objects : Objects K) :
    MetricType → MetricPtr → List Str
  | .gauge, p => [s.formatInt (objects.gauge p)]
  | .counter, p => [s.formatInt (objects.counter p)]
  | .histogram, p =>
    let snapshot := (objects.histogram p).2
    [s.formatInt (objects.histogram p).1, s.formatInt snapshot.min, s.formatInt snapshot.max,
      s.formatDouble snapshot.mean, s.formatDouble snapshot.stdDev, s.formatDouble snapshot.median,
      s.formatDouble snapshot.p75, s.formatDouble snapshot.p95, s.formatDouble snapshot.p98,
      s.formatDouble snapshot.p99, s.formatDouble snapshot.p999]
  | .meter, p =>
    let rate (x : K) := s.formatDouble (conversion.convertRateUnit x)
    let meter := objects.meter p
    [s.formatInt meter.count, rate meter.meanRate, rate meter.oneMinuteRate,
      rate meter.fiveMinuteRate, rate meter.fifteenMinuteRate]
  | .timer, p =>
    let rate (x : K) := s.formatDouble (conversion.convertRateUnit x)
    let duration (x : K) := s.formatDouble (conversion.convertDurationUnit x)
    let snapshot := (objects.timer p).1
    let meter := (objects.timer p).2
    [s.formatInt meter.count, rate meter.meanRate, rate meter.oneMinuteRate,
      rate meter.fiveMinuteRate, rate meter.fifteenMinuteRate, duration snapshot.min,
      duration snapshot.max, duration snapshot.mean, duration snapshot.stdDev,
      duration snapshot.median, duration snapshot.p75, duration snapshot.p95,
      duration snapshot.p98, duration snapshot.p99, duration snapshot.p999]

def plainLine (title : String) : Str × Str := (str title, [])

def rateForm (unit : Str) (title per : String) : Str × Str := (str title, str per ++ unit)

def durationForm (title : String) : Str × Str := (str title, str " millis ")

def form (unit : Str) : MetricType → List (Str × Str)
  | .gauge => [plainLine "             value = "]
  | .counter => [plainLine "             count = "]
  | .histogram =>
    ["             count = ", "               min = ", "               max = ",
      "              mean = ", "            stddev = ", "            median = ",
      "              75% <= ", "              95% <= ", "              98% <= ",
      "              99% <= ", "            99.9% <= "].map plainLine
  | .meter =>
    plainLine "             count = " ::
      ["         mean rate = ", "     1-minute rate = ", "     5-minute rate = ",
        "    15-minute rate = "].map fun title => rateForm unit title " events per "
  | .timer =>
    plainLine "             count = " ::
      (["         mean rate = ", "     1-minute rate = ", "     5-minute rate = ",
        "    15-minute rate = "].map fun title => rateForm unit title " calls per ") ++
      ["               min = ", "               max = ", "              mean = ",
        "            stddev = ", "            median = ", "              75% <= ",
        "              95% <= ", "              98% <= ", "              99% <= ",
        "            99.9% <= "].map durationForm

theorem length_numbers (s : Stream K) (conversion : Conversion K) (objects : Objects K) (unit : Str)
    (t : MetricType) (p : MetricPtr) :
    (numbers s conversion objects t p).length = (form unit t).length := by
  cases t <;> rfl

/-! ### The text as lines -/

def unlines (lines : List Str) : Str := lines.flatMap fun line => line ++ [10]

theorem unlines_append (lines lines' : List Str) :
    unlines (lines ++ lines') = unlines lines ++ unlines lines' := List.flatMap_append

theorem unlines_cons (line : Str) (lines : List Str) :
    unlines (line :: lines) = unlines [line] ++ unlines lines :=
  unlines_append [line] lines

theorem endl_eq : endl = [10] := by decide +kernel

def printed (s : Stream K) (conversion : Conversion K) (objects : Objects K) :
    MetricType → MetricPtr → Str
  | .gauge, p => printGauge s (objects.gauge p)
  | .counter, p => printCounter s (objects.counter p)
  | .histogram, p => printHistogram s (objects.histogram p)
  | .meter, p => printMeter s conversion (objects.meter p)
  | .timer, p => printTimer s conversion (objects.timer p)

theorem printed_eq (s : Stream K) (conversion : Conversion K) (objects : Objects K)
    (t : MetricType) (p : MetricPtr) :
    printed s conversion objects t p =
      unlines (fill (form (conversion.rateUnitInSec s.formatNew) t)
        (numbers s conversion objects t p)) := by
  cases t <;>
    simp [printed, printGauge, printCounter, printHistogram, printMeter, printTimer, countLine,
      rateLines, rateLine, durationLine, unlines, fill, form, numbers, plainLine, rateForm,
      durationForm, endl_eq]

/-! ### Blocks and sections -/

abbrev Block := Str × List Str

def blockLines (b : Block) : List Str := b.1 :: b.2

/-- So many lines, of which the first is indented. -/
structure IsBody (k : ℕ) (body : List Str) : Prop where
  length : body.length = k
  indented : ∃ line rest, body = line :: rest ∧ line.head? = some 32

def Flush (lines : List Str) : Prop := ∀ line rest, lines = line :: rest → line.head? ≠ some 32

/-- An empty line ends the blocks, although the name of a metric may be empty as well: what follows
the name is indented, and what follows the blocks is not. -/
theorem blocks_inj {k : ℕ} {xs ys : List Block} (hxs : ∀ b ∈ xs, IsBody k b.2)
    (hys : ∀ b ∈ ys, IsBody k b.2) {rest rest' : List Str} (hrest : Flush rest)
    (hrest' : Flush rest')
    (h : xs.flatMap blockLines ++ [] :: rest = ys.flatMap blockLines ++ [] :: rest') :
    xs = ys ∧ rest = rest' := by
  induction xs generalizing ys with
  | nil =>
    cases ys with
    | nil => exact ⟨rfl, (List.cons.inj h).2⟩
    | cons y ys =>
      obtain ⟨line, lines, hbody, hline⟩ := (hys y List.mem_cons_self).indented
      have hlines := (List.cons.inj h).2
      rw [hbody] at hlines
      exact absurd hline (hrest line _ hlines)
  | cons x xs ih =>
    cases ys with
    | nil =>
      obtain ⟨line, lines, hbody, hline⟩ := (hxs x List.mem_cons_self).indented
      have hlines := (List.cons.inj h).2.symm
      rw [hbody] at hlines
      exact absurd hline (hrest' line _ hlines)
    | cons y ys =>
      rw [List.flatMap_cons, List.flatMap_cons, List.append_assoc, List.append_assoc, blockLines,
        blockLines, List.cons_append, List.cons_append, List.cons.injEq] at h
      obtain ⟨hname, h⟩ := h
      have hlength := (hxs x List.mem_cons_self).length.trans (hys y List.mem_cons_self).length.symm
      obtain ⟨hbody, h⟩ := List.append_inj h hlength
      obtain ⟨htail, hrests⟩ := ih (fun b hb => hxs b (List.mem_cons_of_mem x hb))
        (fun b hb => hys b (List.mem_cons_of_mem y hb)) h
      exact ⟨by rw [htail, Prod.ext hname hbody], hrests⟩

def sectionLines (banner : Str) (blocks : List Block) : List Str :=
  if blocks = [] then [] else banner :: (blocks.flatMap blockLines ++ [[]])

def allLines (banner : MetricType → Str) (blocks : MetricType → List Block) :
    List MetricType → List Str
  | [] => [[]]
  | t :: ts => sectionLines (banner t) (blocks t) ++ allLines banner blocks ts

section

variable {banner : MetricType → Str} {f g : MetricType → List Block} {k : MetricType → ℕ}

theorem allLines_head (banner : MetricType → Str) (f : MetricType → List Block)
    (ts : List MetricType) :
    ∃ line rest, allLines banner f ts = line :: rest ∧ (line = [] ∨ ∃ t ∈ ts, line = banner t) := by
  induction ts with
  | nil => exact ⟨[], [], rfl, .inl rfl⟩
  | cons t ts ih =>
    rw [allLines, sectionLines]
    split_ifs with hempty
    · obtain ⟨line, rest, heq, hline⟩ := ih
      refine ⟨line, rest, heq, hline.imp_right ?_⟩
      rintro ⟨t', ht', hline⟩
      exact ⟨t', List.mem_cons_of_mem t ht', hline⟩
    · exact ⟨banner t, _, rfl, .inr ⟨t, List.mem_cons_self, rfl⟩⟩

variable (hflush : ∀ t, (banner t).head? ≠ some 32) (hne : ∀ t, banner t ≠ [])
  (hinj : Function.Injective banner)

include hflush in
theorem allLines_flush (f : MetricType → List Block) (ts : List MetricType) :
    Flush (allLines banner f ts) := by
  intro line rest h
  obtain ⟨line', rest', h', hline⟩ := allLines_head banner f ts
  rw [h, List.cons.injEq] at h'
  rcases hline with hline | ⟨t, -, hline⟩
  · rw [h'.1, hline]
    simp
  · rw [h'.1, hline]
    exact hflush t

include hne hinj in
theorem allLines_ne {t : MetricType} {ts : List MetricType} (ht : t ∉ ts) (rest : List Str) :
    allLines banner f ts ≠ banner t :: rest := by
  intro h
  obtain ⟨line, rest', h', hline⟩ := allLines_head banner f ts
  rw [h, List.cons.injEq] at h'
  rcases hline with hline | ⟨t', ht', hline⟩
  · exact hne t (h'.1.trans hline)
  · rw [hinj (h'.1.trans hline)] at ht
    exact ht ht'

include hflush hne hinj in
theorem allLines_inj (hf : ∀ t, ∀ b ∈ f t, IsBody (k t) b.2) (hg : ∀ t, ∀ b ∈ g t, IsBody (k t) b.2)
    {ts : List MetricType} (hts : ts.Nodup) (h : allLines banner f ts = allLines banner g ts) :
    ∀ t ∈ ts, f t = g t := by
  induction ts with
  | nil => exact fun t ht => absurd ht List.not_mem_nil
  | cons t ts ih =>
    obtain ⟨ht, hts⟩ := List.nodup_cons.mp hts
    have hhere : f t = g t ∧ allLines banner f ts = allLines banner g ts := by
      rw [allLines, allLines, sectionLines, sectionLines] at h
      split_ifs at h with hft hgt hgt
      · exact ⟨hft.trans hgt.symm, h⟩
      · exact absurd h (allLines_ne hne hinj ht _)
      · exact absurd h.symm (allLines_ne hne hinj ht _)
      · rw [List.cons_append, List.cons_append, List.cons.injEq, List.append_assoc,
          List.append_assoc] at h
        exact blocks_inj (hf t) (hg t) (allLines_flush hflush f ts) (allLines_flush hflush g ts) h.2
    intro t' ht'
    rcases List.mem_cons.mp ht' with rfl | ht'
    · exact hhere.1
    · exact ih hts hhere.2 t' ht'

end

/-! ### The report as lines -/

def banner (text : Str) (sep : UInt8) : Str :=
  text ++ 32 :: List.replicate (CONSOLE_WIDTH - UInt64.ofNat text.length - 1).toNat sep

def titleOf : MetricType → String
  | .gauge => "-- Gauges"
  | .counter => "-- Counters"
  | .histogram => "-- Histograms"
  | .meter => "-- Meters"
  | .timer => "-- Timers"

def bannerOf (t : MetricType) : Str := banner (str (titleOf t)) 45

def sectionOrder : List MetricType := [.gauge, .counter, .histogram, .meter, .timer]

def shown (s : Stream K) (conversion : Conversion K) (x : Shown K) (t : MetricType) :
    List (Str × List Str) :=
  (entries (x.maps.ofType t)).map fun entry =>
    (entry.1, numbers s conversion x.objects t entry.2)

def blocksOf (s : Stream K) (conversion : Conversion K) (x : Shown K) (t : MetricType) :
    List Block :=
  (shown s conversion x t).map fun entry =>
    (entry.1, fill (form (conversion.rateUnitInSec s.formatNew) t) entry.2)

theorem printWithBanner_eq (text : Str) (sep : UInt8) :
    printWithBanner text sep = unlines [banner text sep] := by
  have hspace : str " " = [32] := by decide +kernel
  simp [printWithBanner, unlines, banner, endl_eq, hspace]

theorem printSection_eq (s : Stream K) (conversion : Conversion K) (x : Shown K) (t : MetricType) :
    printSection (titleOf t) (printed s conversion x.objects t) (x.maps.ofType t) =
      unlines (sectionLines (bannerOf t) (blocksOf s conversion x t)) := by
  have hblocks : ∀ l : List (Str × MetricPtr),
      l.flatMap (fun entry => entry.1 ++ endl ++ printed s conversion x.objects t entry.2) =
        unlines ((l.map fun entry => (entry.1, fill (form (conversion.rateUnitInSec s.formatNew) t)
          (numbers s conversion x.objects t entry.2))).flatMap blockLines) := by
    intro l
    induction l with
    | nil => rfl
    | cons entry l ih =>
      rw [List.flatMap_cons, List.map_cons, List.flatMap_cons, unlines_append, ← ih, printed_eq,
        endl_eq]
      rfl
  rw [printSection, sectionLines, blocksOf, shown, List.map_map]
  by_cases hempty : entries (x.maps.ofType t) = []
  · rw [if_pos hempty, if_pos (by rw [hempty]; rfl)]
    rfl
  · rw [if_neg hempty, if_neg (by simpa using hempty), hblocks, printWithBanner_eq, endl_eq]
    rw [unlines_cons (bannerOf t), unlines_append, ← List.append_assoc]
    rfl

theorem report_eq (s : Stream K) (conversion : Conversion K) (x : Shown K) :
    report s conversion x = unlines (banner x.timestamp 61 ::
      allLines bannerOf (blocksOf s conversion x) sectionOrder) := by
  have hlines : allLines bannerOf (blocksOf s conversion x) sectionOrder =
      sectionLines (bannerOf .gauge) (blocksOf s conversion x .gauge) ++
      (sectionLines (bannerOf .counter) (blocksOf s conversion x .counter) ++
      (sectionLines (bannerOf .histogram) (blocksOf s conversion x .histogram) ++
      (sectionLines (bannerOf .meter) (blocksOf s conversion x .meter) ++
      (sectionLines (bannerOf .timer) (blocksOf s conversion x .timer) ++ [[]])))) := rfl
  rw [unlines_cons, hlines]
  simp only [unlines_append, ← printSection_eq, ← printWithBanner_eq]
  rw [report, endl_eq]
  simp only [List.append_assoc]
  rfl

/-! ### What the text tells -/

structure OneLineNumbers (s : Stream K) : Prop where
  double : ∀ d, 10 ∉ s.formatDouble d
  int : ∀ n, 10 ∉ s.formatInt n
  unit : ∀ d, 10 ∉ s.formatNew d

structure Shown.OneLine (x : Shown K) : Prop where
  timestamp : 10 ∉ x.timestamp
  names : ∀ t name p, (x.maps.ofType t).lookup name = some p → 10 ∉ name

theorem mem_banner {text : Str} {sep b : UInt8} (h : b ∈ banner text sep) :
    b ∈ text ∨ b = 32 ∨ b = sep := by
  rw [banner, List.mem_append, List.mem_cons] at h
  exact h.imp_right fun h => h.imp_right List.eq_of_mem_replicate

theorem banner_inj {text text' : Str} {sep : UInt8} (hsep : sep ≠ 32)
    (h : banner text sep = banner text' sep) : text = text' := by
  have hnot : ∀ n, (32 : UInt8) ∉ List.replicate n sep := fun n hmem =>
    hsep (List.eq_of_mem_replicate hmem).symm
  exact ((append_cons_inj (hnot _) (hnot _)).mp h).1

theorem bannerOf_injective : Function.Injective bannerOf := by
  intro t t' h
  have htitle := banner_inj (by decide) h
  revert htitle
  cases t <;> cases t' <;> first | exact fun _ => rfl | decide +kernel

theorem bannerOf_flush (t : MetricType) : (bannerOf t).head? ≠ some 32 := by
  cases t <;> decide +kernel

theorem form_newline {unit : Str} (hunit : 10 ∉ unit) (t : MetricType) :
    ∀ around ∈ form unit t, 10 ∉ around.1 ∧ 10 ∉ around.2 := by
  have hplain : ∀ title : String, 10 ∉ str title → 10 ∉ (plainLine title).1 ∧
      10 ∉ (plainLine title).2 := fun title h => ⟨h, List.not_mem_nil⟩
  have hrate : ∀ title per : String, 10 ∉ str title → 10 ∉ str per →
      10 ∉ (rateForm unit title per).1 ∧ 10 ∉ (rateForm unit title per).2 := by
    intro title per h hper
    refine ⟨h, ?_⟩
    rw [rateForm, List.mem_append, not_or]
    exact ⟨hper, hunit⟩
  have hduration : ∀ title : String, 10 ∉ str title → 10 ∉ (durationForm title).1 ∧
      10 ∉ (durationForm title).2 := fun title h => ⟨h, show 10 ∉ str " millis " by decide +kernel⟩
  cases t with
  | gauge | counter =>
    simp only [form, List.mem_singleton, forall_eq]
    exact hplain _ (by decide +kernel)
  | histogram =>
    simp only [form, List.map_cons, List.map_nil, List.forall_mem_cons]
    refine ⟨?_, ?_, ?_, ?_, ?_, ?_, ?_, ?_, ?_, ?_, ?_, fun x hx => absurd hx List.not_mem_nil⟩
    all_goals exact hplain _ (by decide +kernel)
  | meter =>
    simp only [form, List.map_cons, List.map_nil, List.forall_mem_cons]
    refine ⟨hplain _ (by decide +kernel), ?_, ?_, ?_, ?_, fun x hx => absurd hx List.not_mem_nil⟩
    all_goals exact hrate _ _ (by decide +kernel) (by decide +kernel)
  | timer =>
    simp only [form, List.map_cons, List.map_nil, List.cons_append, List.nil_append,
      List.forall_mem_cons]
    refine ⟨hplain _ (by decide +kernel), ?_, ?_, ?_, ?_, ?_, ?_, ?_, ?_, ?_, ?_, ?_, ?_, ?_, ?_,
      fun x hx => absurd hx List.not_mem_nil⟩
    iterate 4 exact hrate _ _ (by decide +kernel) (by decide +kernel)
    all_goals exact hduration _ (by decide +kernel)

section

variable {s : Stream K} (conversion : Conversion K) (x : Shown K)

theorem numbers_newline (hs : OneLineNumbers s) (objects : Objects K) (t : MetricType)
    (p : MetricPtr) : ∀ field ∈ numbers s conversion objects t p, 10 ∉ field := by
  cases t with
  | gauge | counter =>
    simp only [numbers, List.mem_singleton, forall_eq]
    exact hs.int _
  | histogram =>
    simp only [numbers, List.forall_mem_cons]
    refine ⟨hs.int _, hs.int _, hs.int _, ?_, ?_, ?_, ?_, ?_, ?_, ?_, ?_,
      fun x hx => absurd hx List.not_mem_nil⟩
    all_goals exact hs.double _
  | meter =>
    simp only [numbers, List.forall_mem_cons]
    refine ⟨hs.int _, ?_, ?_, ?_, ?_, fun x hx => absurd hx List.not_mem_nil⟩
    all_goals exact hs.double _
  | timer =>
    simp only [numbers, List.forall_mem_cons]
    refine ⟨hs.int _, ?_, ?_, ?_, ?_, ?_, ?_, ?_, ?_, ?_, ?_, ?_, ?_, ?_, ?_,
      fun x hx => absurd hx List.not_mem_nil⟩
    all_goals exact hs.double _

theorem blocksOf_isBody (t : MetricType) :
    ∀ b ∈ blocksOf s conversion x t,
      IsBody (form (conversion.rateUnitInSec s.formatNew) t).length b.2 := by
  have hhead : ∀ (title : String) (field after : Str), (str title).head? = some 32 →
      (str title ++ field ++ after).head? = some 32 := by
    intro title field after h
    simp [List.head?_append, h]
  intro b hb
  simp only [blocksOf, shown, List.map_map, List.mem_map] at hb
  obtain ⟨entry, -, rfl⟩ := hb
  refine ⟨length_fill (length_numbers s conversion x.objects _ t entry.2), ?_⟩
  cases t <;> exact ⟨_, _, rfl, hhead _ _ _ (by decide +kernel)⟩

theorem lines_newline (hs : OneLineNumbers s) (hx : x.OneLine) :
    ∀ line ∈ banner x.timestamp 61 :: allLines bannerOf (blocksOf s conversion x) sectionOrder,
      10 ∉ line := by
  have hblocks : ∀ t, ∀ line ∈ sectionLines (bannerOf t) (blocksOf s conversion x t),
      10 ∉ line := by
    intro t line hline
    rw [sectionLines] at hline
    split_ifs at hline with hempty
    · exact absurd hline List.not_mem_nil
    rw [List.mem_cons, List.mem_append, List.mem_singleton, List.mem_flatMap] at hline
    rcases hline with rfl | ⟨b, hb, hline⟩ | rfl
    · cases t <;> decide +kernel
    · simp only [blocksOf, shown, List.map_map, List.mem_map] at hb
      obtain ⟨entry, hentry, rfl⟩ := hb
      rcases List.mem_cons.mp hline with rfl | hline
      · exact hx.names t entry.1 entry.2 (mem_entries.mp hentry)
      · have hunit : 10 ∉ conversion.rateUnitInSec s.formatNew := by
          rw [Conversion.rateUnitInSec, List.mem_append, not_or]
          exact ⟨hs.unit _, by decide +kernel⟩
        exact notMem_fill (form_newline hunit t) (numbers_newline conversion hs x.objects t entry.2)
          line hline
    · exact List.not_mem_nil
  have hall : ∀ ts, ∀ line ∈ allLines bannerOf (blocksOf s conversion x) ts, 10 ∉ line := by
    intro ts
    induction ts with
    | nil =>
      intro line hline
      rw [List.mem_singleton.mp hline]
      exact List.not_mem_nil
    | cons t ts ih =>
      intro line hline
      exact (List.mem_append.mp hline).elim (hblocks t line) (ih line)
  intro line hline
  rcases List.mem_cons.mp hline with rfl | hline
  · intro hmem
    rcases mem_banner hmem with h | h | h
    · exact hx.timestamp h
    · exact absurd h (by decide)
    · exact absurd h (by decide)
  · exact hall _ line hline

end

theorem map_fill_inj {form : List (Str × Str)} {l l' : List (Str × List Str)}
    (hl : ∀ b ∈ l, b.2.length = form.length) (hl' : ∀ b ∈ l', b.2.length = form.length)
    (h : (l.map fun entry => (entry.1, fill form entry.2)) =
      l'.map fun entry => (entry.1, fill form entry.2)) : l = l' := by
  induction l generalizing l' with
  | nil => exact (List.map_eq_nil_iff.mp h.symm).symm
  | cons b l ih =>
    cases l' with
    | nil => cases h
    | cons b' l' =>
      rw [List.forall_mem_cons] at hl hl'
      rw [List.map_cons, List.map_cons, List.cons.injEq, Prod.mk.injEq] at h
      rw [ih hl.2 hl'.2 h.2, Prod.ext h.1.1 (fill_inj hl.1 hl'.1 h.1.2)]

/-- Two reports that print the same text show the same time and, type by type, the same names in
the same order with the same numbers: no name and no number can pass for another line. -/
theorem report_text_injective (s : Stream K) (conversion : Conversion K) (hs : OneLineNumbers s)
    (x y : Shown K) (hx : x.OneLine) (hy : y.OneLine)
    (h : report s conversion x = report s conversion y) :
    x.timestamp = y.timestamp ∧ ∀ t, shown s conversion x t = shown s conversion y t := by
  rw [report_eq, report_eq] at h
  have hlines := flatMap_terminated_inj (lines_newline conversion x hs hx)
    (lines_newline conversion y hs hy) h
  obtain ⟨hbanner, hsections⟩ := List.cons.inj hlines
  refine ⟨banner_inj (by decide) hbanner, fun t => ?_⟩
  have hblocks : blocksOf s conversion x t = blocksOf s conversion y t := by
    refine allLines_inj bannerOf_flush (fun t => ?_) bannerOf_injective
      (blocksOf_isBody conversion x) (blocksOf_isBody conversion y) (by decide) hsections t ?_
    · cases t <;> decide +kernel
    · cases t <;> decide
  -- a line tells the number in it, because what stands around it is the same
  have hinj : ∀ {z : Shown K}, ∀ b ∈ shown s conversion z t,
      b.2.length = (form (conversion.rateUnitInSec s.formatNew) t).length := by
    intro z b hb
    obtain ⟨entry, -, rfl⟩ := List.mem_map.mp hb
    exact length_numbers s conversion z.objects _ t entry.2
  exact map_fill_inj hinj hinj hblocks

def zeroes : Stream ℚ := ⟨fun _ => str "0.00", fun _ => str "0", fun _ => str "1"⟩

def perSecond : Conversion ℚ := ⟨1, 1 / 1000000⟩

def oneGauge (p : MetricPtr) : Shown ℚ where
  timestamp := str "2014-Jul-01 12:00:00"
  maps := ⟨∅, ∅, ∅, ∅, Finmap.singleton (str "g") p⟩
  objects := ⟨fun _ => 0, fun _ => ⟨0, 0, 0, 0, 0, 0, 0, 0, 0, 0, 0⟩, fun _ => ⟨0, 0, 0, 0, 0⟩,
    fun _ => ⟨⟨0, 0, 0, 0, 0, 0, 0, 0, 0, 0⟩, 0, 0, 0, 0, 0⟩, fun _ => 0⟩

theorem report_text_injective_gauges :
    (oneGauge ⟨.gauge, 1⟩).timestamp = (oneGauge ⟨.gauge, 2⟩).timestamp ∧
      ∀ t, shown zeroes perSecond (oneGauge ⟨.gauge, 1⟩) t =
        shown zeroes perSecond (oneGauge ⟨.gauge, 2⟩) t := by
  have hnumbers : OneLineNumbers zeroes :=
    ⟨fun _ => show 10 ∉ str "0.00" by decide +kernel, fun _ => show 10 ∉ str "0" by decide +kernel,
      fun _ => show 10 ∉ str "1" by decide +kernel⟩
  have honeLine : ∀ p, (oneGauge p).OneLine := by
    refine fun p => ⟨show 10 ∉ str "2014-Jul-01 12:00:00" by decide +kernel,
      fun t name q h => ?_⟩
    cases t with
    | gauge =>
      have hname : name = str "g" := by
        by_contra hne
        have hmem := Finmap.mem_of_lookup_eq_some h
        exact hne (by simpa [oneGauge, ScheduledReporter.Report.Maps.ofType] using hmem)
      rw [hname]
      decide +kernel
    | counter | histogram | meter | timer => cases (Finmap.lookup_empty name).symm.trans h
  refine report_text_injective zeroes perSecond hnumbers _ _ (honeLine _) (honeLine _) ?_
  simp only [report, oneGauge, printSection, entries_singleton, entries_empty, List.flatMap_cons,
    List.flatMap_nil, List.cons_ne_nil, if_false, if_true]

end CppMetrics.ConsoleReporter
