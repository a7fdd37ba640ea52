import CppMetrics.Lib.ReadersWriter
import CppMetrics.Core.RegistryBindings

/-! The registry in the hands of any number of threads. Between taking `metrics_mutex_` and
releasing it a method is a sequence of single accesses to the name set and the tables, and the
accesses of different threads interleave. -/

namespace CppMetrics.MetricRegistry

open ReadersWriter

/-! ### The accesses of each method -/

def addMetricBody (metricType : MetricType) (name : Str) (newMetric : MetricPtr) :
    Body World (Except Error Bool) :=
  .read (fun w => decide (name ∈ w.registry.metricNames)) fun
    | true => .done (.error (.invalidArgument (clashText name)))
    | false =>
      .step (fun w => ⟨⟨w.registry.metricSet, insert name w.registry.metricNames⟩, w.heap⟩)
        fun _ =>
      .step (fun w => ⟨⟨Function.update w.registry.metricSet metricType
          (MetricSet.tryInsert (w.registry.metricSet metricType) name newMetric).1,
          w.registry.metricNames⟩, w.heap⟩)
        fun w =>
      .done (.ok (MetricSet.tryInsert (w.registry.metricSet metricType) name newMetric).2)

def getOrAddBody (metricType : MetricType) (name : Str) : Body World (Except Error MetricPtr) :=
  .read (fun w => (w.registry.metricSet metricType).lookup name) fun
    | some p => .done (.ok p)
    | none =>
      .step (fun w => ⟨w.registry, (buildMetric metricType w.heap).2⟩) fun w =>
      match (buildMetric metricType w.heap).1 with
      | .error e => .done (.error e)
      | .ok newMetric => (addMetricBody metricType name newMetric).bind fun
        | .error e => .done (.error e)
        | .ok _ => .done (.ok newMetric)

/-- `metric_set_[i].erase(name) > 0` ends the loop. -/
def eraseFirstBody (name : Str) : List MetricType → Body World Unit
  | [] => .done ()
  | t :: ts =>
    .step (fun w => ⟨⟨Function.update w.registry.metricSet t ((w.registry.metricSet t).erase name),
        w.registry.metricNames⟩, w.heap⟩)
      fun w => if name ∈ w.registry.metricSet t then .done () else eraseFirstBody name ts

def removeMetricBody (name : Str) : Body World Bool :=
  .read (fun w => decide (name ∈ w.registry.metricNames)) fun
    | false => .done false
    | true => (eraseFirstBody name MetricType.all).bind fun _ =>
      .step (fun w => ⟨⟨w.registry.metricSet, w.registry.metricNames.erase name⟩, w.heap⟩)
        fun _ => .done true

def copyBody (metricType : MetricType) : ℕ → ℕ → MetricMap → Body World MetricMap
  | 0, _, retSet => .done retSet
  | n + 1, k, retSet =>
    .read (fun w => (w.registry.metricSet metricType).entries[k]?) fun
      | none => .done retSet
      | some kv => copyBody metricType n (k + 1) (retSet.insert kv.1 kv.2)

/-- The range of the loop is fixed at its start. -/
def getMetricsBody (metricType : MetricType) : Body World MetricMap :=
  .read (fun w => (w.registry.metricSet metricType).entries.length) fun n =>
    copyBody metricType n 0 ∅

def countBody : Body World ℕ := .read (fun w => w.registry.metricNames.card) .done

theorem addMetricBody_run (t : MetricType) (name : Str) (p : MetricPtr) (w : World) :
    (addMetricBody t name p).run w =
      ((addMetric t name p w.registry).1, ⟨(addMetric t name p w.registry).2, w.heap⟩) := by
  by_cases h : name ∈ w.registry.metricNames
  · simp [addMetricBody, addMetric, h]
  · simp [addMetricBody, addMetric, h]

theorem getOrAddBody_run (t : MetricType) (name : Str) (w : World) :
    (getOrAddBody t name).run w = getOrAdd t name w := by
  rw [getOrAddBody, Body.run_read, getOrAdd]
  cases (w.registry.metricSet t).lookup name with
  | some p => rfl
  | none =>
    simp only [Body.run_step]
    rcases buildMetric t w.heap with ⟨built, heap⟩
    cases built with
    | error e => rfl
    | ok newMetric =>
      simp only [Body.run_bind, addMetricBody_run]
      obtain ⟨added, r⟩ := addMetric t name newMetric w.registry
      cases added <;> rfl

theorem eraseFirstBody_run (name : Str) (ts : List MetricType) (w : World) :
    (eraseFirstBody name ts).run w =
      ((), ⟨⟨eraseFirst name ts w.registry.metricSet, w.registry.metricNames⟩, w.heap⟩) := by
  induction ts generalizing w with
  | nil => rfl
  | cons t ts ih =>
    rw [eraseFirstBody, Body.run_step, eraseFirst]
    split_ifs with h
    · rfl
    · -- the table does not have the name, so erasing it there changes nothing
      have hsame : (w.registry.metricSet t).erase name = w.registry.metricSet t := by
        apply AList.ext
        exact List.kerase_of_notMem_keys h
      rw [hsame, Function.update_eq_self]
      exact ih w

theorem removeMetricBody_run (name : Str) (w : World) :
    (removeMetricBody name).run w = removeMetric name w := by
  rw [removeMetricBody, Body.run_read, removeMetric]
  by_cases h : name ∈ w.registry.metricNames
  · simp only [h, decide_true, if_true, Body.run_bind, eraseFirstBody_run]
    rfl
  · simp only [h, decide_false, if_false]
    rfl

theorem copyBody_run (t : MetricType) (w : World) (n k : ℕ) (m : MetricMap)
    (hn : n + k = (w.registry.metricSet t).entries.length) :
    (copyBody t n k m).run w = (((w.registry.metricSet t).entries.drop k).foldl
      (fun retSet kv => retSet.insert kv.1 kv.2) m, w) := by
  induction n generalizing k m with
  | zero =>
    rw [List.drop_eq_nil_of_le (by omega)]
    rfl
  | succ n ih =>
    have hk : k < (w.registry.metricSet t).entries.length := by omega
    rw [copyBody, Body.run_read, List.getElem?_eq_getElem hk, List.drop_eq_getElem_cons hk]
    exact ih (k + 1) _ (by omega)

theorem getMetricsBody_run (t : MetricType) (w : World) :
    (getMetricsBody t).run w = (getMetrics (w.registry.metricSet t), w) := by
  rw [getMetricsBody, Body.run_read, copyBody_run t w _ 0 ∅ (Nat.add_zero _), List.drop_zero]
  rfl

theorem copyBody_readOnly (t : MetricType) (n k : ℕ) (m : MetricMap) :
    (copyBody t n k m).ReadOnly := by
  induction n generalizing k m with
  | zero => exact .done m
  | succ n ih =>
    refine .read fun kv => ?_
    cases kv with
    | none => exact .done m
    | some kv => exact ih (k + 1) _

theorem getMetricsBody_readOnly (t : MetricType) : (getMetricsBody t).ReadOnly :=
  .read fun n => copyBody_readOnly t n 0 ∅

theorem countBody_readOnly : countBody.ReadOnly := .read fun n => .done n

/-! ### Requests -/

inductive Request
  | call (c : Call)
  | getCounters
  | getHistograms
  | getMeters
  | getTimers
  | getGauges
  | count

inductive Reply
  | outcome (o : Outcome)
  | metrics (m : MetricMap)
  | size (n : ℕ)

def getOrAddMethod (metricType : MetricType) (name : Str) : Method World Reply :=
  .writer ((getOrAddBody metricType name).bind fun res => .done (.outcome (Outcome.ofMetric res)))

def getMetricsMethod (metricType : MetricType) : Method World Reply :=
  .reader ((getMetricsBody metricType).bind fun m => .done (.metrics m))
    ((getMetricsBody_readOnly metricType).bind fun _ => .done _)

def method : Request → Method World Reply
  | .call (.counter x) => getOrAddMethod .counter x
  | .call (.histogram x) => getOrAddMethod .histogram x
  | .call (.meter x) => getOrAddMethod .meter x
  | .call (.timer x) => getOrAddMethod .timer x
  | .call (.addGauge x g) =>
    .writer ((addMetricBody .gauge x ⟨.gauge, g⟩).bind fun res =>
      .done (.outcome (Outcome.ofFlag res)))
  | .call (.removeMetric x) =>
    .writer ((removeMetricBody x).bind fun b => .done (.outcome (.flag b)))
  | .getCounters => getMetricsMethod .counter
  | .getHistograms => getMetricsMethod .histogram
  | .getMeters => getMetricsMethod .meter
  | .getTimers => getMetricsMethod .timer
  | .getGauges => getMetricsMethod .gauge
  | .count =>
    .reader (countBody.bind fun n => .done (.size n)) (countBody_readOnly.bind fun _ => .done _)

def answer : Request → World → Reply × World
  | .call c, w => (.outcome (perform c w).1, (perform c w).2)
  | .getCounters, w => (.metrics (getCounters w.registry), w)
  | .getHistograms, w => (.metrics (getHistograms w.registry), w)
  | .getMeters, w => (.metrics (getMeters w.registry), w)
  | .getTimers, w => (.metrics (getTimers w.registry), w)
  | .getGauges, w => (.metrics (getGauges w.registry), w)
  | .count, w => (.size (count w.registry), w)

theorem getOrAddMethod_run (t : MetricType) (x : Str) (w : World) :
    (getOrAddMethod t x).body.run w =
      (.outcome (Outcome.ofMetric (getOrAdd t x w).1), (getOrAdd t x w).2) := by
  simp only [getOrAddMethod, Method.writer, Body.run_bind, getOrAddBody_run, Body.run_done]

theorem getMetricsMethod_run (t : MetricType) (w : World) :
    (getMetricsMethod t).body.run w = (.metrics (getMetrics (w.registry.metricSet t)), w) := by
  simp only [getMetricsMethod, Method.reader, Body.run_bind, getMetricsBody_run, Body.run_done]

theorem method_run (q : Request) (w : World) : (method q).body.run w = answer q w := by
  cases q with
  | call c =>
    cases c with
    | counter | histogram | meter | timer => exact getOrAddMethod_run _ _ w
    | addGauge x g =>
      simp only [method, Method.writer, Body.run_bind, addMetricBody_run, Body.run_done]
      rfl
    | removeMetric x =>
      simp only [method, Method.writer, Body.run_bind, removeMetricBody_run, Body.run_done]
      rfl
  | getCounters | getHistograms | getMeters | getTimers | getGauges =>
    exact getMetricsMethod_run _ w
  | count => rfl

/-! ### What threads see -/

def Request.reads : Request → Option MetricType
  | .getCounters => some .counter
  | .getHistograms => some .histogram
  | .getMeters => some .meter
  | .getTimers => some .timer
  | .getGauges => some .gauge
  | _ => none

inductive Bindings.Answers (seen : Set MetricPtr) :
    Bindings → Request → Reply → Bindings → Prop
  | call {b b' : Bindings} {c : Call} {o : Outcome} :
      Bindings.Step seen b c o b' → Answers seen b (.call c) (.outcome o) b'
  | metrics {b : Bindings} {q : Request} {t : MetricType} {m : MetricMap} :
      q.reads = some t → (∀ x p, m.lookup x = some p ↔ b x = some p ∧ p.cls = t) →
      Answers seen b q (.metrics m) b
  | count {b : Bindings} : Answers seen b .count (.size {x | b x ≠ none}.ncard) b

def Reply.handed : Reply → Set MetricPtr
  | .outcome o => o.handed
  | _ => ∅

inductive Bindings.Served : Set MetricPtr → Bindings → List (Request × Reply) → Bindings → Prop
  | nil {seen : Set MetricPtr} {b : Bindings} : Served seen b [] b
  | cons {seen : Set MetricPtr} {b b₁ b₂ : Bindings} {q : Request} {r : Reply}
      {l : List (Request × Reply)} :
      Answers seen b q r b₁ → Served (seen ∪ r.handed) b₁ l b₂ → Served seen b ((q, r) :: l) b₂

theorem answer_refines {w : World} (wf : WellFormed w) {seen : Set MetricPtr}
    (hs : FromHeap seen w) (q : Request) :
    Bindings.Answers seen (bindings w.registry) q (answer q w).1
        (bindings (answer q w).2.registry) ∧
      WellFormed (answer q w).2 ∧ FromHeap (seen ∪ (answer q w).1.handed) (answer q w).2 := by
  have hread : ∀ {q : Request} {t m}, q.reads = some t →
      m = getMetrics (w.registry.metricSet t) →
      Bindings.Answers seen (bindings w.registry) q (.metrics m) (bindings w.registry) := by
    rintro q t m hq rfl
    exact .metrics hq fun x p => lookup_getMetrics_eq_some_iff wf
  have hheap : FromHeap (seen ∪ ∅) w := by rwa [Set.union_empty]
  cases q with
  | call c =>
    obtain ⟨hstep, hwf, hs'⟩ := perform_refines wf hs c
    exact ⟨.call hstep, hwf, hs'⟩
  | getCounters => exact ⟨hread rfl rfl, wf, hheap⟩
  | getHistograms => exact ⟨hread rfl rfl, wf, hheap⟩
  | getMeters => exact ⟨hread rfl rfl, wf, hheap⟩
  | getTimers => exact ⟨hread rfl rfl, wf, hheap⟩
  | getGauges => exact ⟨hread rfl rfl, wf, hheap⟩
  | count =>
    refine ⟨?_, wf, hheap⟩
    simp only [answer, count_eq_ncard wf]
    exact .count

theorem serve_refines (qs : List Request) {w : World} (wf : WellFormed w) {seen : Set MetricPtr}
    (hs : FromHeap seen w) :
    Bindings.Served seen (bindings w.registry) (serve method w qs).1
        (bindings (serve method w qs).2.registry) ∧ WellFormed (serve method w qs).2 := by
  induction qs generalizing w seen with
  | nil => exact ⟨.nil, wf⟩
  | cons q qs ih =>
    obtain ⟨hans, hwf, hs'⟩ := answer_refines wf hs q
    obtain ⟨hserved, hwf'⟩ := ih hwf hs'
    simp only [serve, method_run]
    exact ⟨.cons hans hserved, hwf'⟩

/-! ### The identity of a metric -/

/-- The metrics that the registry made: each is bound to one name at most, and was handed out. -/
structure Held (seen : Set MetricPtr) (b : Bindings) : Prop where
  unshared : ∀ {x y p}, p.cls ≠ .gauge → b x = some p → b y = some p → x = y
  known : ∀ {x p}, p.cls ≠ .gauge → b x = some p → p ∈ seen

theorem Held.empty : Held ∅ (fun _ => none) := ⟨fun _ h => (nomatch h), fun _ h => (nomatch h)⟩

section

variable {seen : Set MetricPtr} {b b' : Bindings} {q : Request} {r : Reply} {x y : Str}
  {p : MetricPtr}

theorem Held.mono (hb : Held seen b) (s : Set MetricPtr) : Held (seen ∪ s) b :=
  ⟨hb.unshared, fun hp hx => .inl (hb.known hp hx)⟩

theorem Held.unbind (hb : Held seen b) (x : Str) : Held seen (Function.update b x none) := by
  have hold : ∀ {y p}, Function.update b x none y = some p → b y = some p := by
    intro y p hy
    rw [Function.update_apply] at hy
    split_ifs at hy
    exact hy
  exact ⟨fun hp hx hy => hb.unshared hp (hold hx) (hold hy), fun hp hx => hb.known hp (hold hx)⟩

theorem Held.bind (hb : Held seen b) {s : Set MetricPtr}
    (hp : p.cls ≠ .gauge → p ∈ s ∧ ∀ y, b y ≠ some p) :
    Held (seen ∪ s) (Function.update b x (some p)) := by
  refine ⟨fun {y z m} hm hy hz => ?_, fun {y m} hm hy => ?_⟩
  · rw [Function.update_apply] at hy hz
    split_ifs at hy hz with hyx hzx hzx
    · exact hyx.trans hzx.symm
    · cases hy
      exact absurd hz ((hp hm).2 z)
    · cases hz
      exact absurd hy ((hp hm).2 y)
    · exact hb.unshared hm hy hz
  · rw [Function.update_apply] at hy
    split_ifs at hy
    · cases hy
      exact .inr (hp hm).1
    · exact .inl (hb.known hm hy)

theorem Bindings.Answers.held (h : Bindings.Answers seen b q r b') (hb : Held seen b) :
    Held (seen ∪ r.handed) b' := by
  cases h with
  | metrics | count => exact hb.mono _
  | call hstep =>
    cases hstep with
    | hit | clash | addGaugeClash | removeAbsent => exact hb.mono _
    | make hc hx hp hnew hfree => exact hb.bind fun _ => ⟨rfl, hfree⟩
    | addGauge hx => exact hb.bind fun hp => absurd rfl hp
    | removeMetric hx => exact (hb.unbind _).mono _

theorem Bindings.Answers.keeps (h : Bindings.Answers seen b q r b') (hx : b x = some p)
    (hq : (q, r) ≠ (.call (.removeMetric x), .outcome (.flag true))) : b' x = some p := by
  have hbind : ∀ {y m}, b y = none → Function.update b y (some m) x = some p := by
    intro y m hy
    have hne : x ≠ y := by
      rintro rfl
      cases hx.symm.trans hy
    rw [Function.update_of_ne hne, hx]
  cases h with
  | metrics | count => exact hx
  | call hstep =>
    cases hstep with
    | hit | clash | addGaugeClash | removeAbsent => exact hx
    | make hc hy => exact hbind hy
    | addGauge hy => exact hbind hy
    | @removeMetric y hy =>
      have hne : x ≠ y := by
        rintro rfl
        exact hq rfl
      rw [Function.update_of_ne hne, hx]

theorem Bindings.Answers.unbinds (h : Bindings.Answers seen b q r b')
    (hq : (q, r) = (.call (.removeMetric x), .outcome (.flag true))) :
    b' = Function.update b x none := by
  cases hq
  cases h with
  | call hstep =>
    cases hstep with
    | removeMetric => rfl

theorem Bindings.Answers.gone (h : Bindings.Answers seen b q r b') (hp : p.cls ≠ .gauge)
    (hseen : p ∈ seen) (hgone : ∀ y, b y ≠ some p) :
    r ≠ .outcome (.metric p) ∧ ∀ y, b' y ≠ some p := by
  have hbind : ∀ {x m}, m ≠ p → ∀ y, Function.update b x (some m) y ≠ some p := by
    intro x m hm y hy
    rw [Function.update_apply] at hy
    split_ifs at hy
    · exact hm (Option.some.inj hy)
    · exact hgone y hy
  cases h with
  | metrics | count => exact ⟨fun h => (nomatch h), hgone⟩
  | call hstep =>
    cases hstep with
    | hit hc hx =>
      refine ⟨fun h => ?_, hgone⟩
      cases h
      exact hgone _ hx
    | make hc hx hcls hnew =>
      refine ⟨fun h => ?_, hbind ?_⟩
      · cases h
        exact hnew hseen
      · rintro rfl
        exact hnew hseen
    | clash | addGaugeClash | removeAbsent => exact ⟨fun h => (nomatch h), hgone⟩
    | addGauge =>
      refine ⟨fun h => (nomatch h), hbind ?_⟩
      rintro rfl
      exact hp rfl
    | @removeMetric x =>
      refine ⟨fun h => (nomatch h), fun y hy => ?_⟩
      rw [Function.update_apply] at hy
      split_ifs at hy
      exact hgone y hy

theorem Bindings.Answers.binds {c : Call} {t : MetricType} (hc : c.wants = some (t, x))
    (h : Bindings.Answers seen b (.call c) (.outcome (.metric p)) b') :
    p.cls = t ∧ b' x = some p ∧ (b x = some p ∨ p ∉ seen) := by
  cases h with
  | call hstep =>
    cases hstep with
    | hit hc' hx hp =>
      cases hc.symm.trans hc'
      exact ⟨hp, hx, .inl hx⟩
    | make hc' hx hp hnew =>
      cases hc.symm.trans hc'
      exact ⟨hp, Function.update_self _ _ _, .inr hnew⟩

theorem Bindings.Served.split {l₁ l₂ : List (Request × Reply)}
    (h : Bindings.Served seen b (l₁ ++ l₂) b') (hb : Held seen b) :
    ∃ seen₁ b₁, Held seen₁ b₁ ∧ Bindings.Served seen₁ b₁ l₂ b' := by
  induction l₁ generalizing seen b with
  | nil => exact ⟨seen, b, hb, h⟩
  | cons e l₁ ih =>
    cases h with
    | cons hans hserved => exact ih hserved (hans.held hb)

theorem Bindings.Served.gone {l₁ l₂ : List (Request × Reply)}
    (h : Bindings.Served seen b (l₁ ++ (q, r) :: l₂) b') (hp : p.cls ≠ .gauge) (hseen : p ∈ seen)
    (hgone : ∀ y, b y ≠ some p) : r ≠ .outcome (.metric p) := by
  induction l₁ generalizing seen b with
  | nil =>
    cases h with
    | cons hans => exact (hans.gone hp hseen hgone).1
  | cons e l₁ ih =>
    cases h with
    | cons hans hserved => exact ih hserved (.inl hseen) (hans.gone hp hseen hgone).2

/-- From a state in which `x` is bound to `p`, a later request hands out `p` exactly if it asks
for `x` and `x` has not been removed meanwhile. -/
theorem Bindings.Served.same_iff {l₁ l₂ : List (Request × Reply)} {c : Call} {t : MetricType}
    {p' : MetricPtr}
    (h : Bindings.Served seen b (l₁ ++ (.call c, .outcome (.metric p')) :: l₂) b')
    (hc : c.wants = some (t, y)) (hb : Held seen b) (hp : p.cls ≠ .gauge) (hx : b x = some p) :
    p' = p ↔ y = x ∧ (.call (.removeMetric x), .outcome (.flag true)) ∉ l₁ := by
  have hseen : p ∈ seen := hb.known hp hx
  induction l₁ generalizing seen b with
  | nil =>
    simp only [List.not_mem_nil, not_false_eq_true, and_true]
    cases h with
    | cons hans =>
      obtain ⟨-, hy, hold⟩ := hans.binds hc
      constructor
      · rintro rfl
        rcases hold with hold | hnew
        · exact hb.unshared hp hold hx
        · exact absurd hseen hnew
      · rintro rfl
        have hkeep := hans.keeps hx fun he => by
          cases he
        exact Option.some.inj (hy.symm.trans hkeep)
  | cons e l₁ ih =>
    obtain ⟨q, r⟩ := e
    cases h with
    | cons hans hserved =>
      by_cases he : (q, r) = (.call (.removeMetric x), .outcome (.flag true))
      · have hgone : ∀ z, Function.update b x none z ≠ some p := by
          intro z hz
          rw [Function.update_apply] at hz
          split_ifs at hz with hzx
          exact hzx (hb.unshared hp hz hx)
        have hunbound := hans.unbinds he
        subst hunbound
        constructor
        · rintro rfl
          exact absurd rfl (hserved.gone hp (.inl hseen) hgone)
        · rintro ⟨-, hmem⟩
          rw [he] at hmem
          exact absurd List.mem_cons_self hmem
      · refine (ih hserved (hans.held hb) (hans.keeps hx he) (.inl hseen)).trans ?_
        rw [List.mem_cons, not_or, and_iff_right fun h => he h.symm]

end

/-! ### Threads -/

section

variable {ι : Type*} [DecidableEq ι]

/-- However the accesses of the threads interleave, the requests take effect one after the
other, each between its call and its return, as requests to one partial map; and while nobody
writes, the tables are that map. -/
theorem registry_linearizable (as : List (Action ι Request)) :
    Machine.Always (Machine.observe (step method) note)
      (fun x =>
        (∃ b, Bindings.Served ∅ (fun _ => none) (commits x.1) b ∧
          (x.2.writer = none → bindings x.2.value.registry = b ∧ WellFormed x.2.value)) ∧
        ∀ i, Bracketed i x.1 (x.2.pc i).phase)
      ([], State.init World.empty) as := by
  refine (always_invariant World.empty as).imp fun x hx => ⟨?_, hx.bracketed⟩
  obtain ⟨hserved, hwf⟩ := serve_refines ((commits x.1).map Prod.fst) WellFormed.empty
    (fromHeap_empty _)
  have hpast := hx.serving.served
  have hvalue := hx.serving.value
  rw [past] at hpast hvalue
  rw [hpast] at hserved
  refine ⟨_, hserved, fun hw => ?_⟩
  rw [hvalue hw]
  exact ⟨rfl, hwf⟩

/-- Any two threads that were handed metrics hold the same one exactly if they asked for the same
name and the name was not removed between their requests. -/
theorem same_metric_iff (as : List (Action ι Request)) :
    Machine.Always (Machine.observe (step method) note)
      (fun x => ∀ l₁ l₂ l₃ c c' t t' y y' p p',
        commits x.1 = l₁ ++ (.call c, .outcome (.metric p)) ::
          (l₂ ++ (.call c', .outcome (.metric p')) :: l₃) →
        c.wants = some (t, y) → c'.wants = some (t', y') →
        (p' = p ↔ y' = y ∧ (.call (.removeMetric y), .outcome (.flag true)) ∉ l₂))
      ([], State.init World.empty) as := by
  refine (registry_linearizable as).imp ?_
  rintro x ⟨⟨b, hserved, -⟩, -⟩ l₁ l₂ l₃ c c' t t' y y' p p' hx hc hc'
  rw [hx] at hserved
  obtain ⟨seen₁, b₁, hb₁, hserved₁⟩ := hserved.split Held.empty
  cases hserved₁ with
  | cons hans hrest =>
    obtain ⟨hcls, hy, -⟩ := hans.binds hc
    refine hrest.same_iff hc' (hans.held hb₁) ?_ hy
    rw [hcls]
    exact wants_ne_gauge hc

/-- No request is ever stuck: whoever holds the lock can release it without the others, and every
thread can then go on to the end of its request. -/
theorem registry_never_deadlocks (as : List (Action ι Request)) :
    Machine.Always (step method)
      (fun s => (∃ bs t, Machine.run (step method) s bs = some t ∧ ByHolders method s bs ∧
          t.writer = none ∧ t.readers = ∅ ∧
          ∀ i, (s.pc i).mode method = none → t.pc i = s.pc i) ∧
        ∀ i, ∃ bs t, Machine.run (step method) s bs = some t ∧ t.pc i = .idle)
      (State.init World.empty) as := by
  have hlocked : Machine.Always (step method) (Locked method)
      (State.init World.empty : State ι Request World Reply) as :=
    Machine.always_of_invariant (fun hs ht => hs.step (taken_iff_step.mp ht)) (Locked.init _) as
  exact hlocked.imp fun s hs => ⟨drain hs, complete hs⟩

end

end CppMetrics.MetricRegistry
