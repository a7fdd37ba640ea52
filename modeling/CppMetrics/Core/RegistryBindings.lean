import Mathlib.Data.Set.Card
import CppMetrics.Core.MetricRegistry

/-! What the registry is for: one partial map from names to metrics. The name set and the five
tables of the code refine it, call by call and over whole runs. -/

namespace CppMetrics.MetricRegistry

/-! ### The partial map -/

abbrev Bindings := Str → Option MetricPtr

inductive Call
  | counter (name : Str)
  | histogram (name : Str)
  | meter (name : Str)
  | timer (name : Str)
  | addGauge (name : Str) (gauge : GaugePtr)
  | removeMetric (name : Str)

inductive Outcome
  | metric (p : MetricPtr)
  | flag (b : Bool)
  | thrown (e : Error)

def Call.wants : Call → Option (MetricType × Str)
  | .counter x => some (.counter, x)
  | .histogram x => some (.histogram, x)
  | .meter x => some (.meter, x)
  | .timer x => some (.timer, x)
  | _ => none

/-- One call on the partial map. `seen` holds the metrics handed out so far; a metric that is
made is none of them and bound to no name. -/
inductive Bindings.Step (seen : Set MetricPtr) : Bindings → Call → Outcome → Bindings → Prop
  | hit {b : Bindings} {c : Call} {t : MetricType} {x : Str} {p : MetricPtr} :
      c.wants = some (t, x) → b x = some p → p.cls = t → Step seen b c (.metric p) b
  | make {b : Bindings} {c : Call} {t : MetricType} {x : Str} {p : MetricPtr} :
      c.wants = some (t, x) → b x = none → p.cls = t → p ∉ seen → (∀ y, b y ≠ some p) →
      Step seen b c (.metric p) (Function.update b x (some p))
  | clash {b : Bindings} {c : Call} {t : MetricType} {x : Str} {p : MetricPtr} :
      c.wants = some (t, x) → b x = some p → p.cls ≠ t →
      Step seen b c (.thrown (.invalidArgument (clashText x))) b
  | addGauge {b : Bindings} {x : Str} {g : GaugePtr} :
      b x = none →
      Step seen b (.addGauge x g) (.flag true) (Function.update b x (some ⟨.gauge, g⟩))
  | addGaugeClash {b : Bindings} {x : Str} {g : GaugePtr} :
      b x ≠ none → Step seen b (.addGauge x g) (.thrown (.invalidArgument (clashText x))) b
  | removeMetric {b : Bindings} {x : Str} :
      b x ≠ none → Step seen b (.removeMetric x) (.flag true) (Function.update b x none)
  | removeAbsent {b : Bindings} {x : Str} :
      b x = none → Step seen b (.removeMetric x) (.flag false) b

def Outcome.handed : Outcome → Set MetricPtr
  | .metric p => {p}
  | _ => ∅

inductive Bindings.Run : Set MetricPtr → Bindings → List Call → List Outcome → Bindings → Prop
  | nil {seen : Set MetricPtr} {b : Bindings} : Run seen b [] [] b
  | cons {seen : Set MetricPtr} {b b₁ b₂ : Bindings} {c : Call} {o : Outcome}
      {cs : List Call} {os : List Outcome} :
      Step seen b c o b₁ → Run (seen ∪ o.handed) b₁ cs os b₂ → Run seen b (c :: cs) (o :: os) b₂

def Bindings.Clashes (b : Bindings) (c : Call) : Prop :=
  match c with
  | .addGauge x _ => b x ≠ none
  | c => ∃ t x p, c.wants = some (t, x) ∧ b x = some p ∧ p.cls ≠ t

/-! ### The calls of the code -/

def Outcome.ofMetric : Except Error MetricPtr → Outcome
  | .ok p => .metric p
  | .error e => .thrown e

def Outcome.ofFlag : Except Error Bool → Outcome
  | .ok b => .flag b
  | .error e => .thrown e

def perform (c : Call) (w : World) : Outcome × World :=
  match c with
  | .counter x => (Outcome.ofMetric (counter x w).1, (counter x w).2)
  | .histogram x => (Outcome.ofMetric (histogram x w).1, (histogram x w).2)
  | .meter x => (Outcome.ofMetric (meter x w).1, (meter x w).2)
  | .timer x => (Outcome.ofMetric (timer x w).1, (timer x w).2)
  | .addGauge x g => (Outcome.ofFlag (addGauge x g w).1, (addGauge x g w).2)
  | .removeMetric x => (.flag (removeMetric x w).1, (removeMetric x w).2)

def performAll : List Call → World → List Outcome × World
  | [], w => ([], w)
  | c :: cs, w =>
    ((perform c w).1 :: (performAll cs (perform c w).2).1, (performAll cs (perform c w).2).2)

theorem perform_wants {c : Call} {t : MetricType} {x : Str} (h : c.wants = some (t, x))
    (w : World) :
    perform c w = (Outcome.ofMetric (getOrAdd t x w).1, (getOrAdd t x w).2) := by
  cases c <;> cases h <;> rfl

theorem wants_ne_gauge {c : Call} {t : MetricType} {x : Str} (h : c.wants = some (t, x)) :
    t ≠ .gauge := by
  cases c <;> cases h <;> decide

def bindings (r : Impl) : Bindings := fun x =>
  MetricType.all.findSome? fun t => (r.metricSet t).lookup x

/-! ### The invariant -/

/-- The names are the disjoint union of the keys of the tables, every table holds metrics of its
own type, and every metric the registry made comes from the heap. -/
structure WellFormed (w : World) : Prop where
  names : ∀ x, x ∈ w.registry.metricNames ↔ ∃ t, x ∈ w.registry.metricSet t
  disjoint : ∀ {t t' : MetricType} {x : Str},
    x ∈ w.registry.metricSet t → x ∈ w.registry.metricSet t' → t = t'
  typed : ∀ {t : MetricType} {x : Str} {p : MetricPtr},
    (w.registry.metricSet t).lookup x = some p → p.cls = t
  built : ∀ {t : MetricType} {x : Str} {p : MetricPtr},
    (w.registry.metricSet t).lookup x = some p → p.cls ≠ .gauge → p.obj ≤ w.heap

theorem WellFormed.empty : WellFormed World.empty where
  names x := by simp [World.empty, Impl.empty]
  disjoint h := absurd h (AList.notMem_empty _)
  typed h := by simp [World.empty, Impl.empty] at h
  built h := by simp [World.empty, Impl.empty] at h

theorem MetricType.mem_all (t : MetricType) : t ∈ MetricType.all := by
  cases t <;> decide

theorem mem_of_lookup {set : MetricSet} {x : Str} {p : MetricPtr} (h : set.lookup x = some p) :
    x ∈ set := by
  rw [← AList.lookup_isSome, h]
  rfl

section

variable {w : World} {t : MetricType} {x : Str} {p : MetricPtr}

theorem WellFormed.bindings_eq_some_iff (wf : WellFormed w) :
    bindings w.registry x = some p ↔ (w.registry.metricSet p.cls).lookup x = some p := by
  constructor
  · intro h
    obtain ⟨t, -, ht⟩ := List.exists_of_findSome?_eq_some h
    rwa [wf.typed ht]
  · intro h
    cases hb : bindings w.registry x with
    | none =>
      have hnone := List.findSome?_eq_none_iff.mp hb _ (MetricType.mem_all p.cls)
      cases hnone.symm.trans h
    | some q =>
      obtain ⟨t, -, ht⟩ := List.exists_of_findSome?_eq_some hb
      have heq := wf.disjoint (mem_of_lookup ht) (mem_of_lookup h)
      rw [heq, h] at ht
      exact ht.symm

theorem WellFormed.lookup_eq_some_iff (wf : WellFormed w) :
    (w.registry.metricSet t).lookup x = some p ↔ bindings w.registry x = some p ∧ p.cls = t := by
  rw [wf.bindings_eq_some_iff]
  constructor
  · intro h
    have ht := wf.typed h
    exact ⟨by rwa [ht], ht⟩
  · rintro ⟨h, rfl⟩
    exact h

theorem WellFormed.mem_names_iff (wf : WellFormed w) :
    x ∈ w.registry.metricNames ↔ bindings w.registry x ≠ none := by
  rw [wf.names, Option.ne_none_iff_exists']
  constructor
  · rintro ⟨t, ht⟩
    obtain ⟨p, hp⟩ := Option.isSome_iff_exists.mp (AList.lookup_isSome.mpr ht)
    exact ⟨p, (wf.lookup_eq_some_iff.mp hp).1⟩
  · rintro ⟨p, hp⟩
    exact ⟨p.cls, mem_of_lookup (wf.bindings_eq_some_iff.mp hp)⟩

theorem WellFormed.lookup_eq_none (wf : WellFormed w) (h : bindings w.registry x = none) :
    (w.registry.metricSet t).lookup x = none := by
  by_contra hne
  obtain ⟨p, hp⟩ := Option.ne_none_iff_exists'.mp hne
  rw [(wf.lookup_eq_some_iff.mp hp).1] at h
  cases h

/-! ### Binding and unbinding one name -/

def Impl.bind (r : Impl) (p : MetricPtr) (x : Str) : Impl :=
  ⟨Function.update r.metricSet p.cls ((r.metricSet p.cls).insert x p), insert x r.metricNames⟩

def Impl.unbind (r : Impl) (t : MetricType) (x : Str) : Impl :=
  ⟨Function.update r.metricSet t ((r.metricSet t).erase x), r.metricNames.erase x⟩

theorem lookup_bind (r : Impl) (y : Str) :
    ((r.bind p x).metricSet t).lookup y =
      if y = x ∧ p.cls = t then some p else (r.metricSet t).lookup y := by
  by_cases ht : p.cls = t
  · subst ht
    simp only [Impl.bind, Function.update_self]
    by_cases hy : y = x
    · subst hy
      simp only [AList.lookup_insert, and_self, if_true]
    · simp only [hy, AList.lookup_insert_ne hy, false_and, if_false]
  · simp only [Impl.bind, Function.update_of_ne (Ne.symm ht), ht, and_false, if_false]

theorem lookup_unbind (r : Impl) (t' : MetricType) (y : Str) :
    ((r.unbind t x).metricSet t').lookup y =
      if y = x ∧ t = t' then none else (r.metricSet t').lookup y := by
  by_cases ht : t = t'
  · subst ht
    simp only [Impl.unbind, Function.update_self]
    by_cases hy : y = x
    · subst hy
      simp only [AList.lookup_erase, and_self, if_true]
    · simp only [hy, AList.lookup_erase_ne hy, false_and, if_false]
  · simp only [Impl.unbind, Function.update_of_ne (Ne.symm ht), ht, and_false, if_false]

theorem mem_iff_lookup {set : MetricSet} {y : Str} : y ∈ set ↔ ∃ q, set.lookup y = some q := by
  rw [← AList.lookup_isSome, Option.isSome_iff_exists]

theorem WellFormed.bind (wf : WellFormed w) (hx : bindings w.registry x = none) {heap : Heap}
    (hheap : w.heap ≤ heap) (hp : p.cls ≠ .gauge → p.obj ≤ heap) :
    WellFormed ⟨w.registry.bind p x, heap⟩ := by
  -- `x` is in no table, so that the table it enters does not meet another in it
  have hfree : ∀ {t}, x ∉ w.registry.metricSet t := fun {t} h => by
    obtain ⟨q, hq⟩ := mem_iff_lookup.mp h
    rw [wf.lookup_eq_none hx] at hq
    cases hq
  have hmem : ∀ {t' y}, y ∈ (w.registry.bind p x).metricSet t' ↔
      (y = x ∧ p.cls = t') ∨ y ∈ w.registry.metricSet t' := by
    intro t' y
    rw [mem_iff_lookup, mem_iff_lookup]
    simp only [lookup_bind]
    split_ifs with hc <;> simp [hc]
  refine ⟨fun y => ?_, fun {t₁ t₂ y} h₁ h₂ => ?_, fun {t₁ y q} h => ?_, fun {t₁ y q} h hq => ?_⟩
  · simp only [hmem, exists_or, ← wf.names y]
    simp [Impl.bind]
  · rcases hmem.mp h₁ with ⟨rfl, rfl⟩ | h₁ <;> rcases hmem.mp h₂ with ⟨he, rfl⟩ | h₂
    · rfl
    · exact absurd h₂ hfree
    · exact absurd (he ▸ h₁) hfree
    · exact wf.disjoint h₁ h₂
  · simp only [lookup_bind] at h
    split_ifs at h with hc
    · rw [← Option.some.inj h]
      exact hc.2
    · exact wf.typed h
  · simp only [lookup_bind] at h
    split_ifs at h with hc
    · rw [← Option.some.inj h]
      exact hp (Option.some.inj h ▸ hq)
    · exact (wf.built h hq).trans hheap

theorem bindings_bind (wf : WellFormed w) (hx : bindings w.registry x = none) {heap : Heap}
    (wf' : WellFormed ⟨w.registry.bind p x, heap⟩) :
    bindings (w.registry.bind p x) = Function.update (bindings w.registry) x (some p) := by
  funext y
  apply Option.ext
  intro q
  rw [wf'.bindings_eq_some_iff, lookup_bind]
  by_cases hy : y = x
  · subst hy
    rw [Function.update_self]
    split_ifs with hc
    · rfl
    · rw [wf.lookup_eq_none hx]
      constructor
      · intro h
        cases h
      · intro h
        exact absurd ⟨rfl, congrArg MetricPtr.cls (Option.some.inj h)⟩ hc
  · rw [Function.update_of_ne hy, if_neg (fun h => hy h.1), wf.bindings_eq_some_iff]

theorem WellFormed.unbind (wf : WellFormed w) (hx : x ∈ w.registry.metricSet t) :
    WellFormed ⟨w.registry.unbind t x, w.heap⟩ := by
  have hmem : ∀ {t' y}, y ∈ (w.registry.unbind t x).metricSet t' ↔
      y ≠ x ∧ y ∈ w.registry.metricSet t' := by
    intro t' y
    rw [mem_iff_lookup, mem_iff_lookup]
    simp only [lookup_unbind]
    by_cases hy : y = x
    · subst hy
      by_cases ht : t = t'
      · simp [ht]
      · simp only [ht, and_false, if_false, ne_eq, not_true_eq_false, false_and, iff_false,
          not_exists]
        intro q hq
        exact ht (wf.disjoint hx (mem_of_lookup hq))
    · simp [hy]
  refine ⟨fun y => ?_, fun h₁ h₂ => ?_, fun {t₁ y q} h => ?_, fun {t₁ y q} h hq => ?_⟩
  · simp only [hmem, exists_and_left, ← wf.names y]
    simp [Impl.unbind]
  · exact wf.disjoint (hmem.mp h₁).2 (hmem.mp h₂).2
  · simp only [lookup_unbind] at h
    split_ifs at h
    exact wf.typed h
  · simp only [lookup_unbind] at h
    split_ifs at h
    exact wf.built h hq

theorem bindings_unbind (wf : WellFormed w) (hx : x ∈ w.registry.metricSet t) :
    bindings (w.registry.unbind t x) = Function.update (bindings w.registry) x none := by
  have wf' := wf.unbind hx
  funext y
  apply Option.ext
  intro q
  rw [wf'.bindings_eq_some_iff, lookup_unbind]
  by_cases hy : y = x
  · subst hy
    rw [Function.update_self]
    split_ifs with hc
    · rfl
    · constructor
      · intro h
        exact absurd ⟨rfl, wf.disjoint hx (mem_of_lookup h)⟩ hc
      · intro h
        cases h
  · rw [Function.update_of_ne hy, if_neg (fun h => hy h.1), wf.bindings_eq_some_iff]

/-! ### What each function does to the partial map -/

theorem getOrAdd_hit (wf : WellFormed w) (hx : bindings w.registry x = some p) (hp : p.cls = t) :
    getOrAdd t x w = (.ok p, w) := by
  rw [getOrAdd, wf.lookup_eq_some_iff.mpr ⟨hx, hp⟩]

theorem getOrAdd_clash (wf : WellFormed w) (ht : t ≠ .gauge)
    (hx : bindings w.registry x = some p) (hp : p.cls ≠ t) :
    getOrAdd t x w = (.error (.invalidArgument (clashText x)), ⟨w.registry, w.heap + 1⟩) := by
  -- the name is bound with another type, so the table of type `t` does not have it
  have hnone : (w.registry.metricSet t).lookup x = none := by
    by_contra hne
    obtain ⟨q, hq⟩ := Option.ne_none_iff_exists'.mp hne
    obtain ⟨hb, hcls⟩ := wf.lookup_eq_some_iff.mp hq
    exact hp (Option.some.inj (hx.symm.trans hb) ▸ hcls)
  have hname : x ∈ w.registry.metricNames := wf.mem_names_iff.mpr (by simp [hx])
  cases t <;> first | exact absurd rfl ht | simp only [getOrAdd, hnone, buildMetric, addMetric,
    hname, if_true]

theorem tryInsert_of_lookup_eq_none {set : MetricSet} (h : set.lookup x = none) :
    MetricSet.tryInsert set x p = (set.insert x p, true) :=
  if_neg fun hmem => by
    rw [← AList.lookup_isSome, h] at hmem
    cases hmem

theorem addMetric_fresh (wf : WellFormed w) (hx : bindings w.registry x = none) :
    addMetric p.cls x p w.registry = (.ok true, w.registry.bind p x) := by
  have hname : x ∉ w.registry.metricNames := fun h => wf.mem_names_iff.mp h hx
  simp only [addMetric, hname, if_false, tryInsert_of_lookup_eq_none (wf.lookup_eq_none hx)]
  rfl

theorem getOrAdd_make (wf : WellFormed w) (ht : t ≠ .gauge) (hx : bindings w.registry x = none) :
    getOrAdd t x w =
      (.ok ⟨t, w.heap + 1⟩, ⟨w.registry.bind ⟨t, w.heap + 1⟩ x, w.heap + 1⟩) := by
  have hnone : (w.registry.metricSet t).lookup x = none := wf.lookup_eq_none hx
  have hbuild : buildMetric t w.heap = (.ok ⟨t, w.heap + 1⟩, w.heap + 1) := by
    cases t <;> first | exact absurd rfl ht | rfl
  have hadd := addMetric_fresh (p := ⟨t, w.heap + 1⟩) wf hx
  simp only [getOrAdd, hnone, hbuild, hadd]

theorem addGauge_fresh (wf : WellFormed w) (hx : bindings w.registry x = none) (g : GaugePtr) :
    addGauge x g w = (.ok true, ⟨w.registry.bind ⟨.gauge, g⟩ x, w.heap⟩) := by
  simp only [addGauge, addMetric_fresh (p := ⟨.gauge, g⟩) wf hx]

theorem addGauge_clash (wf : WellFormed w) (hx : bindings w.registry x ≠ none) (g : GaugePtr) :
    addGauge x g w = (.error (.invalidArgument (clashText x)), w) := by
  simp only [addGauge, addMetric, wf.mem_names_iff.mpr hx, if_true]

/-- The early exit of the loop is right because the tables are disjoint. -/
theorem eraseFirst_eq (wf : WellFormed w) (hx : x ∈ w.registry.metricSet t)
    {ts : List MetricType} (ht : t ∈ ts) :
    eraseFirst x ts w.registry.metricSet =
      Function.update w.registry.metricSet t ((w.registry.metricSet t).erase x) := by
  induction ts with
  | nil => cases ht
  | cons t' ts ih =>
    rw [eraseFirst]
    split_ifs with h
    · rw [wf.disjoint h hx]
    · refine ih ((List.mem_cons.mp ht).resolve_left fun he => h ?_)
      rwa [← he]

theorem removeMetric_bound (wf : WellFormed w) (hx : bindings w.registry x ≠ none) :
    ∃ t, x ∈ w.registry.metricSet t ∧
      removeMetric x w = (true, ⟨w.registry.unbind t x, w.heap⟩) := by
  have hname := wf.mem_names_iff.mpr hx
  obtain ⟨t, ht⟩ := (wf.names x).mp hname
  refine ⟨t, ht, ?_⟩
  simp only [removeMetric, hname, if_true, eraseFirst_eq wf ht (MetricType.mem_all t)]
  rfl

theorem removeMetric_unbound (wf : WellFormed w) (hx : bindings w.registry x = none) :
    removeMetric x w = (false, w) :=
  if_neg fun h => wf.mem_names_iff.mp h hx

/-! ### Calls and runs -/

def FromHeap (seen : Set MetricPtr) (w : World) : Prop := ∀ q ∈ seen, q.obj ≤ w.heap

theorem fromHeap_empty (w : World) : FromHeap ∅ w := fun q hq => absurd hq (Set.notMem_empty q)

theorem FromHeap.of_no_metric {seen : Set MetricPtr} {heap : Heap} {r : Impl} {o : Outcome}
    (h : FromHeap seen w) (hheap : w.heap ≤ heap) (ho : o.handed = ∅) :
    FromHeap (seen ∪ o.handed) ⟨r, heap⟩ := by
  rw [ho, Set.union_empty]
  exact fun q hq => (h q hq).trans hheap

theorem FromHeap.add {seen : Set MetricPtr} {heap : Heap} {r : Impl}
    (h : FromHeap seen w) (hheap : w.heap ≤ heap) (hp : p.obj ≤ heap) :
    FromHeap (seen ∪ (Outcome.metric p).handed) ⟨r, heap⟩ := by
  rintro q (hq | hq)
  · exact (h q hq).trans hheap
  · rw [Set.mem_singleton_iff.mp hq]
    exact hp

theorem getOrAdd_refines (wf : WellFormed w) {seen : Set MetricPtr} (hs : FromHeap seen w)
    {c : Call} (hc : c.wants = some (t, x)) :
    Bindings.Step seen (bindings w.registry) c (perform c w).1 (bindings (perform c w).2.registry) ∧
      WellFormed (perform c w).2 ∧ FromHeap (seen ∪ (perform c w).1.handed) (perform c w).2 := by
  have ht : t ≠ .gauge := wants_ne_gauge hc
  rw [perform_wants hc]
  cases hx : bindings w.registry x with
  | none =>
    have hnew : ∀ y, bindings w.registry y ≠ some ⟨t, w.heap + 1⟩ := fun y hy => by
      have := wf.built (wf.bindings_eq_some_iff.mp hy) ht
      simp at this
    have hwf : WellFormed ⟨w.registry.bind ⟨t, w.heap + 1⟩ x, w.heap + 1⟩ :=
      wf.bind hx (Nat.le_succ _) fun _ => le_rfl
    rw [getOrAdd_make wf ht hx]
    simp only [Outcome.ofMetric, bindings_bind wf hx hwf]
    refine ⟨.make hc hx rfl (fun hmem => ?_) hnew, hwf, hs.add (Nat.le_succ _) le_rfl⟩
    have := hs _ hmem
    simp at this
  | some p =>
    by_cases hp : p.cls = t
    · have hobj := wf.built (wf.bindings_eq_some_iff.mp hx) (hp ▸ ht)
      rw [getOrAdd_hit wf hx hp]
      exact ⟨.hit hc hx hp, wf, hs.add le_rfl hobj⟩
    · rw [getOrAdd_clash wf ht hx hp]
      refine ⟨.clash hc hx hp, ⟨wf.names, wf.disjoint, wf.typed, fun h hq => ?_⟩,
        hs.of_no_metric (Nat.le_succ _) rfl⟩
      exact (wf.built h hq).trans (Nat.le_succ _)

theorem perform_refines (wf : WellFormed w) {seen : Set MetricPtr} (hs : FromHeap seen w)
    (c : Call) :
    Bindings.Step seen (bindings w.registry) c (perform c w).1 (bindings (perform c w).2.registry) ∧
      WellFormed (perform c w).2 ∧ FromHeap (seen ∪ (perform c w).1.handed) (perform c w).2 := by
  cases c with
  | counter x => exact getOrAdd_refines wf hs rfl
  | histogram x => exact getOrAdd_refines wf hs rfl
  | meter x => exact getOrAdd_refines wf hs rfl
  | timer x => exact getOrAdd_refines wf hs rfl
  | addGauge x g =>
    by_cases hx : bindings w.registry x = none
    · have hwf : WellFormed ⟨w.registry.bind ⟨.gauge, g⟩ x, w.heap⟩ :=
        wf.bind hx le_rfl fun h => absurd rfl h
      simp only [perform, addGauge_fresh wf hx, Outcome.ofFlag, bindings_bind wf hx hwf]
      exact ⟨.addGauge hx, hwf, hs.of_no_metric le_rfl rfl⟩
    · simp only [perform, addGauge_clash wf hx, Outcome.ofFlag]
      exact ⟨.addGaugeClash hx, wf, hs.of_no_metric le_rfl rfl⟩
  | removeMetric x =>
    by_cases hx : bindings w.registry x = none
    · simp only [perform, removeMetric_unbound wf hx]
      exact ⟨.removeAbsent hx, wf, hs.of_no_metric le_rfl rfl⟩
    · obtain ⟨t, ht, hrem⟩ := removeMetric_bound wf hx
      simp only [perform, hrem, bindings_unbind wf ht]
      exact ⟨.removeMetric hx, wf.unbind ht, hs.of_no_metric le_rfl rfl⟩

theorem performAll_refines (cs : List Call) (wf : WellFormed w) {seen : Set MetricPtr}
    (hs : FromHeap seen w) :
    Bindings.Run seen (bindings w.registry) cs (performAll cs w).1
        (bindings (performAll cs w).2.registry) ∧
      WellFormed (performAll cs w).2 := by
  induction cs generalizing w seen with
  | nil => exact ⟨.nil, wf⟩
  | cons c cs ih =>
    obtain ⟨hstep, hwf, hs'⟩ := perform_refines wf hs c
    obtain ⟨hrun, hwf'⟩ := ih hwf hs'
    exact ⟨.cons hstep hrun, hwf'⟩

theorem Bindings.Step.thrown_iff {seen : Set MetricPtr} {b b' : Bindings} {c : Call} {o : Outcome}
    (h : Bindings.Step seen b c o b') : (∃ e, o = .thrown e) ↔ b.Clashes c := by
  have hget : ∀ {t x}, c.wants = some (t, x) →
      (b.Clashes c ↔ ∃ p, b x = some p ∧ p.cls ≠ t) := by
    intro t x hc
    cases c <;> cases hc <;> simp [Bindings.Clashes, Call.wants]
  cases h with
  | hit hc hx hp => simp [hget hc, hx, hp]
  | make hc hx => simp [hget hc, hx]
  | clash hc hx hp => simp [hget hc, hx, hp]
  | addGauge hx => simp [Bindings.Clashes, hx]
  | addGaugeClash hx => simp [Bindings.Clashes, hx]
  | removeMetric | removeAbsent => simp [Bindings.Clashes, Call.wants]

theorem perform_thrown (wf : WellFormed w) {c : Call} {e : Error}
    (h : (perform c w).1 = .thrown e) : (perform c w).2.registry = w.registry := by
  have hget : ∀ {t x}, c.wants = some (t, x) → (perform c w).2.registry = w.registry := by
    intro t x hc
    rw [perform_wants hc] at h ⊢
    cases hx : bindings w.registry x with
    | none =>
      rw [getOrAdd_make wf (wants_ne_gauge hc) hx] at h
      cases h
    | some p =>
      by_cases hp : p.cls = t
      · rw [getOrAdd_hit wf hx hp]
      · rw [getOrAdd_clash wf (wants_ne_gauge hc) hx hp]
  cases c with
  | counter x => exact hget rfl
  | histogram x => exact hget rfl
  | meter x => exact hget rfl
  | timer x => exact hget rfl
  | addGauge x g =>
    by_cases hx : bindings w.registry x = none
    · simp only [perform, addGauge_fresh wf hx, Outcome.ofFlag] at h
      cases h
    · simp only [perform, addGauge_clash wf hx]
  | removeMetric x => cases h

theorem count_eq_ncard (wf : WellFormed w) :
    count w.registry = {x | bindings w.registry x ≠ none}.ncard := by
  have hset : {x | bindings w.registry x ≠ none} = ↑w.registry.metricNames :=
    Set.ext fun x => wf.mem_names_iff.symm
  rw [hset, Set.ncard_coe_finset, count]

theorem lookup_getMetrics_eq_some_iff (wf : WellFormed w) :
    (getMetrics (w.registry.metricSet t)).lookup x = some p ↔
      bindings w.registry x = some p ∧ p.cls = t := by
  rw [lookup_getMetrics, wf.lookup_eq_some_iff]

end

/-- The registry is one partial map. A run of calls from the empty registry is a run of the map
with the same outcomes; at its end the tables split the names by type, the reads return exactly
the bindings, and the next call throws only on a clash and then changes nothing. -/
theorem registry_refines_bindings (cs : List Call) :
    let w := (performAll cs World.empty).2
    let b := bindings w.registry
    Bindings.Run ∅ (fun _ => none) cs (performAll cs World.empty).1 b ∧
      ((∀ x, x ∈ w.registry.metricNames ↔ ∃ t, x ∈ w.registry.metricSet t) ∧
        (∀ t t' x, x ∈ w.registry.metricSet t → x ∈ w.registry.metricSet t' → t = t') ∧
        ∀ t x p, (w.registry.metricSet t).lookup x = some p → p.cls = t) ∧
      (∀ c, ((∃ e, (perform c w).1 = .thrown e) ↔ b.Clashes c) ∧
        ∀ e, (perform c w).1 = .thrown e → (perform c w).2.registry = w.registry) ∧
      count w.registry = {x | b x ≠ none}.ncard ∧
      ∀ x p,
        ((getCounters w.registry).lookup x = some p ↔ b x = some p ∧ p.cls = .counter) ∧
        ((getHistograms w.registry).lookup x = some p ↔ b x = some p ∧ p.cls = .histogram) ∧
        ((getMeters w.registry).lookup x = some p ↔ b x = some p ∧ p.cls = .meter) ∧
        ((getTimers w.registry).lookup x = some p ↔ b x = some p ∧ p.cls = .timer) ∧
        ((getGauges w.registry).lookup x = some p ↔ b x = some p ∧ p.cls = .gauge) := by
  intro w b
  obtain ⟨hrun, wf⟩ := performAll_refines cs WellFormed.empty (fromHeap_empty _)
  refine ⟨hrun, ⟨wf.names, fun t t' x => wf.disjoint, fun t x p => wf.typed⟩, fun c => ⟨?_, ?_⟩,
    count_eq_ncard wf, fun x p => ⟨?_, ?_, ?_, ?_, ?_⟩⟩
  · exact (perform_refines wf (fromHeap_empty w) c).1.thrown_iff
  · exact fun e => perform_thrown wf
  all_goals exact lookup_getMetrics_eq_some_iff wf

end CppMetrics.MetricRegistry
