import CppMetrics.Graphite.GraphiteReporter

/-! The connection over any number of reports, whatever throws in them. -/

namespace CppMetrics.GraphiteReporter

open MetricRegistry ScheduledReporter.Report Fallible

structure Run (D : Type) where
  objects : Objects D
  maps : Maps
  timestamp : ℕ
  faults : ℕ → Option Exception

variable {D : Type}

namespace Reporter

def operationsOf (r : Reporter D) (x : Run D) : List Operation :=
  r.operations x.objects x.maps x.timestamp

def journalOf (r : Reporter D) (x : Run D) : List (Operation × Option Exception) :=
  r.journal x.objects x.maps x.timestamp x.faults

end Reporter

def Operation.isCall : Operation → Bool
  | .read _ => false
  | _ => true

def Operation.isSend : Operation → Bool
  | .send .. => true
  | _ => false

def calls (journal : List (Operation × Option Exception)) : List Operation :=
  (journal.map Prod.fst).filter Operation.isCall

/-- A word of (connect send* close)*. -/
def Connections (calls : List Operation) : Prop :=
  ∃ sends : List (List Operation), (∀ s ∈ sends, ∀ op ∈ s, op.isSend) ∧
    calls = sends.flatMap fun s => .connect :: (s ++ [.close])

def NoSendAfterFault (journal : List (Operation × Option Exception)) : Prop :=
  journal.Pairwise fun x y => x.2 ≠ none → y.1.isSend = false

def ClosesAfterConnect (journal : List (Operation × Option Exception)) : Prop :=
  ∀ before after, journal.map Prod.fst = before ++ .connect :: after → .close ∈ after

structure KeepsProtocol (r : Reporter D) (runs : List (Run D)) : Prop where
  connections : Connections (runs.flatMap fun x => calls (r.journalOf x))
  noSendAfterFault : ∀ x ∈ runs, NoSendAfterFault (r.journalOf x)
  closesAfterConnect : ∀ x ∈ runs, ClosesAfterConnect (r.journalOf x)

def ThrowsStd (r : Reporter D) (x : Run D) : Prop :=
  firstFault x.faults (r.operationsOf x).length ≠ some .other

/-! ### One run -/

theorem fieldOps_inside (r : Reporter D) {name : Str} {fields : List (Str × Str)} {timestamp : ℕ}
    {op : Operation} (h : op ∈ r.fieldOps name fields timestamp) :
    op ≠ .connect ∧ op ≠ .close := by
  obtain ⟨field, -, h⟩ := List.mem_flatMap.mp h
  simp only [Reporter.valueOps, List.mem_cons, List.not_mem_nil, or_false] at h
  rcases h with rfl | rfl <;> simp

theorem operations_inside (r : Reporter D) (x : Run D) :
    ∃ body, r.operationsOf x = .connect :: body ∧ ∀ op ∈ body, op ≠ .connect ∧ op ≠ .close := by
  refine ⟨_, rfl, fun op hop => ?_⟩
  simp only [List.mem_append, List.mem_flatMap] at hop
  rcases hop with ⟨kv, -, hop⟩ | ⟨kv, -, hop⟩ | ⟨kv, -, hop⟩ | ⟨kv, -, hop⟩ | ⟨kv, -, hop⟩
  · exact fieldOps_inside r hop
  · rcases List.mem_cons.mp hop with rfl | hop
    · simp
    · exact fieldOps_inside r hop
  · exact fieldOps_inside r hop
  · rcases List.mem_cons.mp hop with rfl | hop
    · simp
    · exact (List.mem_append.mp hop).elim (fieldOps_inside r) (fieldOps_inside r)
  · simp only [Reporter.gaugeOps, Reporter.valueOps, List.mem_cons, List.not_mem_nil,
      or_false] at hop
    rcases hop with rfl | rfl <;> simp

/-- A run connects, reads and sends for a while, and then closes unless something other than a
`std::exception` stops it. -/
theorem journal_shape (r : Reporter D) (x : Run D) :
    ∃ fault rest, (∀ y ∈ rest, y.1 ≠ .connect ∧ y.1 ≠ .close) ∧
      ((.connect, fault) :: rest).Pairwise (fun y _ => y.2 = none) ∧
      (ThrowsStd r x → r.journalOf x = (.connect, fault) :: (rest ++ [(.close, none)])) ∧
      (¬ThrowsStd r x → r.journalOf x = (.connect, fault) :: rest) := by
  obtain ⟨body, hops, hbody⟩ := operations_inside r x
  have hpairwise := performed_pairwise x.faults (r.operationsOf x)
  have hperformed : ∃ rest, performed x.faults (r.operationsOf x) = (.connect, x.faults 0) :: rest ∧
      ∀ y ∈ rest, y.1 ∈ body := by
    rw [hops]
    cases h0 : x.faults 0 with
    | none =>
      refine ⟨performed (fun n => x.faults (n + 1)) body, by simp only [performed, h0], ?_⟩
      exact fun y hy => (performed_begins _ _).subset (List.mem_map_of_mem hy)
    | some e => exact ⟨[], by simp only [performed, h0], fun y hy => by cases hy⟩
  obtain ⟨rest, hrest, hin⟩ := hperformed
  rw [hrest] at hpairwise
  have hjournal : r.journalOf x = (.connect, x.faults 0) :: rest ++
      Reporter.closing (firstFault x.faults (r.operationsOf x).length) := by
    rw [← hrest]
    exact r.journal_eq x.objects x.maps x.timestamp x.faults
  refine ⟨x.faults 0, rest, fun y hy => hbody _ (hin y hy), hpairwise, fun hstd => ?_,
    fun hother => ?_⟩
  · rw [hjournal, List.cons_append]
    unfold ThrowsStd at hstd
    cases hfault : firstFault x.faults (r.operationsOf x).length with
    | none => rfl
    | some e =>
      cases e with
      | std what => rfl
      | other => exact absurd hfault hstd
  · rw [hjournal, not_not.mp hother]
    exact List.append_nil _

theorem calls_of_throwsStd {r : Reporter D} {x : Run D} (h : ThrowsStd r x) :
    ∃ sends, (∀ op ∈ sends, op.isSend) ∧
      calls (r.journalOf x) = .connect :: (sends ++ [.close]) := by
  obtain ⟨fault, rest, hrest, -, hjournal, -⟩ := journal_shape r x
  refine ⟨(rest.map Prod.fst).filter Operation.isCall, fun op hop => ?_, ?_⟩
  · obtain ⟨hop, hcall⟩ := List.mem_filter.mp hop
    obtain ⟨y, hy, rfl⟩ := List.mem_map.mp hop
    have hinside := hrest y hy
    generalize y.1 = op at hcall hinside
    cases op with
    | read => cases hcall
    | send => rfl
    | connect => exact absurd rfl hinside.1
    | close => exact absurd rfl hinside.2
  · rw [hjournal h]
    unfold calls
    rw [List.map_cons, List.map_append, List.filter_cons_of_pos rfl, List.filter_append]
    rfl

theorem noSendAfterFault (r : Reporter D) (x : Run D) : NoSendAfterFault (r.journalOf x) := by
  obtain ⟨fault, rest, -, hpairwise, hstd, hother⟩ := journal_shape r x
  have hperformed : ((Operation.connect, fault) :: rest).Pairwise
      fun y z => y.2 ≠ none → z.1.isSend = false :=
    hpairwise.imp fun hnone hfault => absurd hnone hfault
  by_cases h : ThrowsStd r x
  · rw [NoSendAfterFault, hstd h, ← List.cons_append, List.pairwise_append]
    refine ⟨hperformed, List.pairwise_singleton _ _, fun y _ z hz _ => ?_⟩
    rw [List.mem_singleton.mp hz]
    rfl
  · rw [NoSendAfterFault, hother h]
    exact hperformed

theorem closesAfterConnect_iff (r : Reporter D) (x : Run D) :
    ClosesAfterConnect (r.journalOf x) ↔ ThrowsStd r x := by
  obtain ⟨fault, rest, hrest, -, hstd, hother⟩ := journal_shape r x
  constructor
  · intro hcloses
    by_contra h
    have hclose := hcloses [] (rest.map Prod.fst) (by rw [hother h]; rfl)
    obtain ⟨y, hy, heq⟩ := List.mem_map.mp hclose
    exact (hrest y hy).2 heq
  · intro h before after heq
    rw [hstd h, ← List.cons_append, List.map_append] at heq
    rcases List.eq_nil_or_concat after with rfl | ⟨after, op, rfl⟩
    · cases List.singleton_inj.mp (List.append_inj_right' heq rfl)
    · have hlast :
          before ++ .connect :: (after ++ [op]) = (before ++ .connect :: after) ++ [op] := by
        simp only [List.append_assoc, List.cons_append]
      rw [List.concat_eq_append, hlast] at heq
      have hop := List.singleton_inj.mp (List.append_inj_right' heq rfl)
      rw [List.concat_eq_append, ← hop]
      exact List.mem_append_right _ (List.mem_singleton_self _)

/-! ### Any number of runs -/

theorem connections_of_throwsStd {r : Reporter D} {runs : List (Run D)}
    (h : ∀ x ∈ runs, ThrowsStd r x) :
    Connections (runs.flatMap fun x => calls (r.journalOf x)) := by
  induction runs with
  | nil => exact ⟨[], fun s hs => absurd hs List.not_mem_nil, rfl⟩
  | cons x runs ih =>
    obtain ⟨sends, hsends, hcalls⟩ := calls_of_throwsStd (h x List.mem_cons_self)
    obtain ⟨rest, hrest, hruns⟩ := ih fun y hy => h y (List.mem_cons_of_mem x hy)
    refine ⟨sends :: rest, ?_, ?_⟩
    · rintro s hs
      rcases List.mem_cons.mp hs with rfl | hs
      · exact hsends
      · exact hrest s hs
    · rw [List.flatMap_cons, hcalls, hruns, List.flatMap_cons]

/-- In every sequence of reports, the connections are opened, used and closed one after the other
if and only if no run is stopped by something other than a `std::exception`. -/
theorem keepsProtocol_iff (r : Reporter D) (runs : List (Run D)) :
    KeepsProtocol r runs ↔ ∀ x ∈ runs, ThrowsStd r x := by
  constructor
  · intro h x hx
    exact (closesAfterConnect_iff r x).mp (h.closesAfterConnect x hx)
  · intro h
    constructor
    case connections => exact connections_of_throwsStd h
    case noSendAfterFault => exact fun x _ => noSendAfterFault r x
    case closesAfterConnect => exact fun x hx => (closesAfterConnect_iff r x).mpr (h x hx)

def throwingGauge : Run Unit where
  objects := ⟨fun _ => 0, fun _ => ⟨0, 0, (), 0, (), (), (), (), (), (), ()⟩,
    fun _ => ⟨0, (), (), (), ()⟩,
    fun _ => ⟨⟨0, (), 0, (), (), (), (), (), (), ()⟩, 0, (), (), (), ()⟩, fun _ => 0⟩
  maps := ⟨∅, ∅, ∅, ∅, Finmap.singleton (str "g") ⟨.gauge, 1⟩⟩
  timestamp := 0
  faults n := if n = 1 then some .other else none

def plain : Reporter Unit := ⟨str "p", id, id, fun _ => (), fun _ => [], fun _ => []⟩

theorem stays_connected : ¬∀ runs, KeepsProtocol plain runs := by
  intro h
  have hclosed := (h [throwingGauge]).closesAfterConnect throwingGauge (List.mem_singleton_self _)
  have hops : plain.operationsOf throwingGauge =
      [.connect, .read (str "g"), .send (plain.metricPath (str "g") none) [] 0] := by
    simp only [Reporter.operationsOf, Reporter.operations, throwingGauge, entries_empty,
      entries_singleton, List.flatMap_nil, List.flatMap_cons, List.nil_append, List.append_nil]
    rfl
  apply (closesAfterConnect_iff _ _).mp hclosed
  rw [hops]
  rfl

end CppMetrics.GraphiteReporter
