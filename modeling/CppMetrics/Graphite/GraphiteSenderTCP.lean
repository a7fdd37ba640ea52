import CppMetrics.Graphite.ConnectionProtocol
import CppMetrics.Lib.Delimited

/-! The sender over TCP, and the text it writes: a line for each call of `send`, of a path, a value
and a timestamp. -/

namespace CppMetrics.GraphiteSenderTCP

open GraphiteReporter Delimited

def space : UInt8 := 32

def newline : UInt8 := 10

def decimal (n : ℕ) : Str := (Nat.toDigits 10 n).map fun c => UInt8.ofNat c.toNat

inductive Error
  | runtimeError (what : Str)
  deriving DecidableEq

structure Sender where
  connected : Bool
  socket : Option Str

def init : Sender := ⟨false, none⟩

/-- `ec` is what connecting the socket reports. -/
def connect (ec : Option Str) (_ : Sender) : Except Error Unit × Sender :=
  match ec with
  | none => (.ok (), ⟨true, some []⟩)
  | some message =>
    (.error (.runtimeError (str "Connect() error, reason: " ++ message)), ⟨false, some []⟩)

def line (name value : Str) (timestamp : ℕ) : Str :=
  name ++ space :: (value ++ space :: (decimal timestamp ++ [newline]))

def send (name value : Str) (timestamp : ℕ) (s : Sender) : Except Error Unit × Sender :=
  if !s.connected then
    (.error (.runtimeError (str "Graphite server connection not established.")), s)
  else (.ok (), { s with socket := s.socket.map fun text => text ++ line name value timestamp })

def close (_ : Sender) : Sender := ⟨false, none⟩

structure Sample where
  path : Str
  value : Str
  timestamp : ℕ
  deriving DecidableEq

def written (samples : List Sample) : Option Str :=
  (samples.foldl (fun s x => (send x.path x.value x.timestamp s).2) (connect none init).2).socket

theorem socket_foldl (samples : List Sample) (text : Str) :
    (samples.foldl (fun s x => (send x.path x.value x.timestamp s).2) ⟨true, some text⟩).socket =
      some (text ++ samples.flatMap fun x => line x.path x.value x.timestamp) := by
  induction samples generalizing text with
  | nil => simp
  | cons x samples ih =>
    rw [List.foldl_cons, List.flatMap_cons, ← List.append_assoc]
    exact ih _

theorem written_eq (samples : List Sample) :
    written samples = some (samples.flatMap fun x => line x.path x.value x.timestamp) :=
  socket_foldl samples []

/-! ### One line -/

theorem toNat_of_mem_toDigits {c : Char} {n : ℕ} (hc : c ∈ Nat.toDigits 10 n) :
    48 ≤ c.toNat ∧ c.toNat ≤ 57 := by
  have hdigit : c.isDigit = true := Nat.isDigit_of_mem_toDigits (by decide) (by decide) hc
  rw [Char.isDigit, Bool.and_eq_true, decide_eq_true_iff, decide_eq_true_iff] at hdigit
  exact ⟨UInt32.le_iff_toNat_le.mp hdigit.1, UInt32.le_iff_toNat_le.mp hdigit.2⟩

theorem decimal_injective : Function.Injective decimal := by
  intro m n heq
  have hread : ∀ k, (decimal k).map (fun b => Char.ofNat b.toNat) = Nat.toDigits 10 k := by
    intro k
    rw [decimal, List.map_map]
    refine (List.map_congr_left fun c hc => ?_).trans (List.map_id _)
    have hle := (toNat_of_mem_toDigits hc).2
    show Char.ofNat (UInt8.ofNat c.toNat).toNat = c
    rw [UInt8.toNat_ofNat_of_lt' (by show c.toNat < 256; omega), Char.ofNat_toNat]
  have hdigits : Nat.toDigits 10 m = Nat.toDigits 10 n := by rw [← hread m, ← hread n, heq]
  rw [← Nat.ofDigitChars_ten_toDigits (n := m), hdigits, Nat.ofDigitChars_ten_toDigits]

theorem le_of_mem_decimal {b : UInt8} {n : ℕ} (hb : b ∈ decimal n) : 48 ≤ b.toNat := by
  obtain ⟨c, hc, rfl⟩ := List.mem_map.mp hb
  obtain ⟨hle, hle'⟩ := toNat_of_mem_toDigits hc
  rw [UInt8.toNat_ofNat_of_lt' (by show c.toNat < 256; omega)]
  exact hle

theorem space_notMem_decimal (n : ℕ) : space ∉ decimal n := fun h =>
  absurd (le_of_mem_decimal h) (by decide)

theorem newline_notMem_decimal (n : ℕ) : newline ∉ decimal n := fun h =>
  absurd (le_of_mem_decimal h) (by decide)

/-- The name holds the end of a line: a value, a timestamp and a newline. -/
def EndsLine (name : Str) : Prop :=
  ∃ before value timestamp after,
    name = before ++ space :: (value ++ space :: (decimal timestamp ++ newline :: after)) ∧
      space ∉ value ∧ newline ∉ value

variable {D : Type}

structure Built (r : Reporter D) (name : Str) (x : Sample) : Prop where
  path : ∃ t, ∃ extra ∈ Reporter.extras t, x.path = r.metricPath name extra
  space_notMem : space ∉ x.value
  newline_notMem : newline ∉ x.value

def core (name suffix value : Str) (timestamp : ℕ) : Str :=
  name ++ suffix ++ space :: (value ++ space :: decimal timestamp)

theorem extras_newline {t : MetricRegistry.MetricType} {field : Str}
    (h : some field ∈ Reporter.extras t) : newline ∉ field := by
  have hall : ∀ extra ∈ Reporter.extras t, ∀ f ∈ extra, newline ∉ f := by
    cases t <;> decide +kernel
  exact hall (some field) h field rfl

theorem Built.line_eq {r : Reporter D} {name : Str} {x : Sample} (h : Built r name x) :
    ∃ suffix, newline ∉ suffix ∧ x.path = r.prefix_ ++ Reporter.dot ++ (name ++ suffix) ∧
      ∀ rest, line x.path x.value x.timestamp ++ rest =
        (r.prefix_ ++ Reporter.dot) ++
          (core name suffix x.value x.timestamp ++ newline :: rest) := by
  obtain ⟨t, extra, hextra, hpath⟩ := h.path
  have hline : ∀ suffix, x.path = r.prefix_ ++ Reporter.dot ++ (name ++ suffix) →
      ∀ rest, line x.path x.value x.timestamp ++ rest =
        (r.prefix_ ++ Reporter.dot) ++
          (core name suffix x.value x.timestamp ++ newline :: rest) := by
    intro suffix hx rest
    rw [hx]
    simp only [line, core, List.append_assoc, List.cons_append, List.nil_append]
  cases extra with
  | none =>
    refine ⟨[], List.not_mem_nil, ?_, hline [] ?_⟩ <;> rw [hpath, List.append_nil] <;> rfl
  | some field =>
    have hx : x.path = r.prefix_ ++ Reporter.dot ++ (name ++ (Reporter.dot ++ field)) := by
      rw [hpath]
      simp only [Reporter.metricPath, List.append_assoc]
    refine ⟨Reporter.dot ++ field, ?_, hx, hline _ hx⟩
    rw [List.mem_append, not_or]
    exact ⟨by decide, extras_newline hextra⟩

theorem endsLine_of_core {name suffix value name' suffix' value' rest : Str}
    {timestamp timestamp' : ℕ} (hsuffix : newline ∉ suffix) (hvalue : newline ∉ value)
    (hspace' : space ∉ value') (hvalue' : newline ∉ value')
    (heq : core name suffix value timestamp =
      core name' suffix' value' timestamp' ++ newline :: rest) : EndsLine name := by
  have htail : newline ∉ suffix ++ space :: (value ++ space :: decimal timestamp) := by
    have hne : newline ≠ space := by decide
    simp only [List.mem_append, List.mem_cons, not_or]
    exact ⟨hsuffix, hne, hvalue, hne, newline_notMem_decimal timestamp⟩
  rw [core, List.append_assoc] at heq
  rcases List.append_eq_append_iff.mp heq with ⟨us, hus, htail'⟩ | ⟨us, hname, hus⟩
  · rw [htail'] at htail
    exact absurd (List.mem_append_right us List.mem_cons_self) htail
  · cases us with
    | nil =>
      rw [List.nil_append] at hus
      rw [← hus] at htail
      exact absurd List.mem_cons_self htail
    | cons u us =>
      rw [List.cons_append, List.cons.injEq] at hus
      obtain ⟨rfl, -⟩ := hus
      refine ⟨name' ++ suffix', value', timestamp', us, ?_, hspace', hvalue'⟩
      rw [hname]
      simp only [core, List.append_assoc, List.cons_append]

theorem core_eq_of_append {name suffix value name' suffix' value' us rest rest' : Str}
    {timestamp timestamp' : ℕ} (hsuffix : newline ∉ suffix) (hvalue : newline ∉ value)
    (hspace' : space ∉ value') (hvalue' : newline ∉ value') (hname : ¬EndsLine name)
    (hcore : core name suffix value timestamp = core name' suffix' value' timestamp' ++ us)
    (hrest : newline :: rest' = us ++ newline :: rest) :
    core name suffix value timestamp = core name' suffix' value' timestamp' ∧ rest = rest' := by
  cases us with
  | nil =>
    rw [List.append_nil] at hcore
    exact ⟨hcore, (List.cons.inj hrest).2.symm⟩
  | cons u us =>
    rw [List.cons_append, List.cons.injEq] at hrest
    obtain ⟨rfl, -⟩ := hrest
    exact absurd (endsLine_of_core hsuffix hvalue hspace' hvalue' hcore) hname

theorem core_inj {name suffix value name' suffix' value' : Str} {timestamp timestamp' : ℕ}
    (hvalue : space ∉ value) (hvalue' : space ∉ value')
    (heq : core name suffix value timestamp = core name' suffix' value' timestamp') :
    name ++ suffix = name' ++ suffix' ∧ value = value' ∧ timestamp = timestamp' := by
  unfold core at heq
  rw [← List.cons_append, ← List.append_assoc, ← List.cons_append, ← List.append_assoc,
    append_cons_inj (space_notMem_decimal _) (space_notMem_decimal _),
    append_cons_inj hvalue hvalue'] at heq
  exact ⟨heq.1.1, heq.1.2, decimal_injective heq.2⟩

theorem told_line (r : Reporter D) :
    Told (fun x => ∃ name, Built r name x ∧ ¬EndsLine name)
      fun x : Sample => line x.path x.value x.timestamp := by
  rintro x y rest rest' ⟨name, hx, hname⟩ ⟨name', hy, hname'⟩ heq
  obtain ⟨suffix, hsuffix, hpath, hline⟩ := hx.line_eq
  obtain ⟨suffix', hsuffix', hpath', hline'⟩ := hy.line_eq
  rw [hline, hline', List.append_right_inj] at heq
  have hcore : core name suffix x.value x.timestamp = core name' suffix' y.value y.timestamp ∧
      rest = rest' := by
    rcases List.append_eq_append_iff.mp heq with ⟨us, hus, hrest⟩ | ⟨us, hus, hrest⟩
    · obtain ⟨hcore, hrest⟩ := core_eq_of_append hsuffix' hy.newline_notMem hx.space_notMem
        hx.newline_notMem hname' hus hrest
      exact ⟨hcore.symm, hrest.symm⟩
    · exact core_eq_of_append hsuffix hx.newline_notMem hy.space_notMem hy.newline_notMem hname
        hus hrest
  obtain ⟨hnames, hvalue, htimestamp⟩ := core_inj hx.space_notMem hy.space_notMem hcore.1
  refine ⟨?_, hcore.2⟩
  rw [hnames, ← hpath'] at hpath
  obtain ⟨path, value, timestamp⟩ := x
  rw [Sample.mk.injEq]
  exact ⟨hpath, hvalue, htimestamp⟩

theorem line_ne_nil (name value : Str) (timestamp : ℕ) : line name value timestamp ≠ [] := by
  simp [line]

/-! ### Any number of lines -/

/-- What a connection carries tells the samples, as long as no name of a metric holds the end of a
line. -/
theorem written_injective (r : Reporter D) {samples samples' : List Sample}
    (h : ∀ x ∈ samples, ∃ name, Built r name x ∧ ¬EndsLine name)
    (h' : ∀ x ∈ samples', ∃ name, Built r name x ∧ ¬EndsLine name)
    (heq : written samples = written samples') : samples = samples' := by
  rw [written_eq, written_eq, Option.some.injEq] at heq
  exact (told_line r).flatMap_inj (fun x => line_ne_nil x.path x.value x.timestamp) h h' heq

def onePoint : Sample := ⟨str "p.a.count", str "1", 2⟩

theorem written_injective_onePoint :
    [onePoint] = [⟨plain.metricPath (str "a") (some (str "count")), decimal 1, 2⟩] := by
  have hbuilt : Built plain (str "a") onePoint :=
    ⟨⟨.counter, some (str "count"), by decide +kernel, by decide +kernel⟩, by decide +kernel,
      by decide +kernel⟩
  have hends : ¬EndsLine (str "a") := by
    rintro ⟨before, value, timestamp, after, heq, -⟩
    have hmem : space ∈ str "a" := heq ▸ List.mem_append_right before List.mem_cons_self
    exact absurd hmem (by decide +kernel)
  have hsame : onePoint = ⟨plain.metricPath (str "a") (some (str "count")), decimal 1, 2⟩ := by
    decide +kernel
  refine written_injective plain (fun x hx => ⟨str "a", ?_, hends⟩)
    (fun x hx => ⟨str "a", ?_, hends⟩) (by rw [hsame])
  · rwa [List.mem_singleton.mp hx]
  · rwa [List.mem_singleton.mp hx, ← hsame]

/-- A gauge named `"a 1 2\np.b"` writes the lines of two gauges. -/
theorem name_forges_line :
    ¬∀ samples samples', (∀ x ∈ samples, ∃ name, Built plain name x) →
      (∀ x ∈ samples', ∃ name, Built plain name x) →
      written samples = written samples' → samples = samples' := by
  intro h
  have hgauge : ∀ name value timestamp, space ∉ value → newline ∉ value →
      Built plain name ⟨plain.metricPath name none, value, timestamp⟩ :=
    fun name _ _ hspace hnewline =>
      ⟨⟨.gauge, none, List.mem_singleton_self _, rfl⟩, hspace, hnewline⟩
  have hone : ∀ x ∈ [(⟨plain.metricPath (str "a 1 2\np.b") none, str "3", 4⟩ : Sample)],
      ∃ name, Built plain name x := by
    intro x hx
    rw [List.mem_singleton.mp hx]
    exact ⟨_, hgauge _ _ 4 (by decide +kernel) (by decide +kernel)⟩
  have htwo : ∀ x ∈ [(⟨plain.metricPath (str "a") none, str "1", 2⟩ : Sample),
      ⟨plain.metricPath (str "b") none, str "3", 4⟩], ∃ name, Built plain name x := by
    intro x hx
    rcases List.mem_cons.mp hx with rfl | hx
    · exact ⟨_, hgauge _ _ 2 (by decide +kernel) (by decide +kernel)⟩
    · rw [List.mem_singleton.mp hx]
      exact ⟨_, hgauge _ _ 4 (by decide +kernel) (by decide +kernel)⟩
  have hlength := congrArg List.length (h _ _ hone htwo (by decide +kernel))
  cases hlength

end CppMetrics.GraphiteSenderTCP
