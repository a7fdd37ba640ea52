import CppMetrics.Core.Snapshot
import CppMetrics.Core.UniformSample
import CppMetrics.Lib.Machine
import CppMetrics.Lib.Sourced

/-! The uniform sample as many threads run it. `update` counts before it takes the mutex, and
`getSnapshot` asks the count how many slots are filled: what it copies from a slot that is counted
and not yet stored to is the zero of the constructor. -/

namespace CppMetrics.UniformSample

open Sourced

variable {k : UInt32}

def getSnapshot (s : UniformSample k Int64) : Snapshot := .new (s.values.toList.take s.size.toNat)

inductive Pc
  | idle
  /-- Between `++count_` and the mutex. -/
  | counted (count : UInt64) (value : Int64)

inductive Operation
  | update (value : Int64)
  | store (uniform : Uniform)
  | getSnapshot

structure State (k : UInt32) (ι : Type*) where
  sample : UniformSample k Int64
  pc : ι → Pc

variable {ι : Type*} [DecidableEq ι]

def State.new : State k ι := ⟨UniformSample.new, fun _ => .idle⟩

def State.step (s : State k ι) : ι × Operation → Option (State k ι)
  | (i, .update value) =>
    match s.pc i with
    | .idle =>
      let count := s.sample.count + 1
      some ⟨{ s.sample with count := count }, Function.update s.pc i (.counted count value)⟩
    | .counted _ _ => none
  | (i, .store uniform) =>
    match s.pc i with
    | .counted count value =>
      some ⟨{ s.sample with values := store uniform count value s.sample.values },
        Function.update s.pc i .idle⟩
    | .idle => none
  | (i, .getSnapshot) =>
    match s.pc i with
    | .idle => some s
    | .counted _ _ => none

variable {s t : State k ι} {i : ι}

theorem run_update (hi : s.pc i = .idle) (value : Int64) (uniform : Uniform) :
    Machine.run State.step s [(i, .update value), (i, .store uniform)] =
      some ⟨s.sample.update uniform value, s.pc⟩ := by
  have hpc : Function.update (Function.update s.pc i (.counted (s.sample.count + 1) value)) i
      .idle = s.pc := by
    rw [Function.update_idem, ← hi, Function.update_eq_self]
  simp only [Machine.run, State.step, hi, Function.update_self, Option.bind_some, hpc]
  rfl

/-! ### Where the values come from -/

/-- The values passed to `update` so far, the call that each thread is in, and the call that last
stored to each slot. -/
structure History (k : UInt32) (ι : Type*) where
  started : List Int64
  call : ι → ℕ
  source : Vector (Option ℕ) k.toNat

def History.new : History k ι := ⟨[], fun _ => 0, Vector.replicate _ none⟩

def History.note (h : History k ι) (s : State k ι) : ι × Operation → History k ι
  | (i, .update value) =>
    { h with started := h.started ++ [value], call := Function.update h.call i h.started.length }
  | (i, .store uniform) =>
    match s.pc i with
    -- the number of the call goes where its value goes
    | .counted count _ => { h with source := store uniform count (some (h.call i)) h.source }
    | .idle => h
  | (_, .getSnapshot) => h

def visible (x : History k ι × State k ι) : List (Option ℕ) :=
  x.1.source.toList.take x.2.sample.size.toNat

/-- The values of a snapshot were passed to as many calls of `update` that have started. -/
def Recorded (x : History k ι × State k ι) : Prop :=
  x.2.sample.getSnapshot.getValues.Subperm x.1.started

/-- For every slot that a snapshot copies before it is stored to there is a call of `update(0)` that
has started and is not the source of another such slot. -/
def Covered (x : History k ι × State k ι) : Prop :=
  (visible x).count none ≤ spare 0 x.1.started (visible x)

def EverySnapshot (P : History k ι × State k ι → Prop) (as : List (ι × Operation)) : Prop :=
  Machine.Along (Machine.observe State.step History.note) (fun x a => a.2 = .getSnapshot → P x)
    (History.new, State.new) as

/-! ### The invariant -/

theorem store_cases {V : Type*} (uniform : Uniform) (count : UInt64) :
    (∀ (value : V) (values : Vector V k.toNat), store uniform count value values = values) ∨
      ∃ d, ∀ (value : V) (values : Vector V k.toNat),
        store uniform count value values = values.setIfInBounds d value := by
  cases hw : written k uniform count with
  | none => exact Or.inl fun _ _ => by simp only [store, hw]
  | some d => exact Or.inr ⟨d.toNat, fun _ _ => by simp only [store, hw]⟩

theorem map_store {V W : Type*} (f : V → W) (uniform : Uniform) (count : UInt64) (value : V)
    (values : Vector V k.toNat) : (store uniform count value values).map f =
      store uniform count (f value) (values.map f) := by
  unfold store
  cases written k uniform count with
  | none => rfl
  | some d => exact Vector.map_setIfInBounds

/-- The slots hold the values of their sources, and a call that waits for the mutex is the source of
none. -/
structure Traced (h : History k ι) (s : State k ι) : Prop where
  values : s.sample.values = h.source.map (valueOf 0 h.started)
  distinct : Distinct h.source.toList
  stored : ∀ c, some c ∈ h.source.toList → c < h.started.length
  counted : ∀ {i count value}, s.pc i = .counted count value →
    h.started[h.call i]? = some value ∧ some (h.call i) ∉ h.source.toList
  calls : ∀ {i j}, s.pc i ≠ .idle → s.pc j ≠ .idle → h.call i = h.call j → i = j

omit [DecidableEq ι] in
theorem Traced.new : Traced (History.new : History k ι) State.new where
  values := by
    rw [State.new, History.new, UniformSample.new, Vector.map_replicate]
    rfl
  distinct := distinct_replicate_none _
  stored c hc := nomatch (List.mem_replicate.mp hc).2
  counted h := nomatch h
  calls h := absurd rfl h

theorem step_cases {op : Operation} (h : s.step (i, op) = some t) :
    (∃ value, op = .update value ∧ s.pc i = .idle ∧
      t = ⟨{ s.sample with count := s.sample.count + 1 },
        Function.update s.pc i (.counted (s.sample.count + 1) value)⟩) ∨
    (∃ uniform count value, op = .store uniform ∧ s.pc i = .counted count value ∧
      t = ⟨{ s.sample with values := store uniform count value s.sample.values },
        Function.update s.pc i .idle⟩) ∨
    (op = .getSnapshot ∧ t = s) := by
  cases op with
  | update value =>
    unfold State.step at h
    dsimp only at h
    cases hi : s.pc i <;> rw [hi] at h <;> cases h
    exact Or.inl ⟨value, rfl, rfl, rfl⟩
  | store uniform =>
    unfold State.step at h
    dsimp only at h
    cases hi : s.pc i <;> rw [hi] at h <;> cases h
    exact Or.inr (Or.inl ⟨uniform, _, _, rfl, rfl, rfl⟩)
  | getSnapshot =>
    unfold State.step at h
    dsimp only at h
    cases hi : s.pc i <;> rw [hi] at h <;> cases h
    exact Or.inr (Or.inr ⟨rfl, rfl⟩)

variable {h : History k ι}

theorem Traced.update (ht : Traced h s) (hi : s.pc i = .idle) (count : UInt64) (value : Int64) :
    Traced (h.note s (i, .update value))
      ⟨{ s.sample with count := count }, Function.update s.pc i (.counted count value)⟩ := by
  have hlt : ∀ {j}, s.pc j ≠ .idle → h.call j < h.started.length := by
    intro j hj
    cases hpc : s.pc j with
    | idle => exact absurd hpc hj
    | counted count value => exact (List.getElem?_eq_some_iff.mp (ht.counted hpc).1).1
  constructor
  case values =>
    show s.sample.values = h.source.map (valueOf 0 (h.started ++ [value]))
    rw [ht.values]
    apply Vector.map_congr_left
    intro o ho
    exact (valueOf_append (fun c hc => ht.stored c (Vector.mem_toList_iff.mpr (hc ▸ ho))) _).symm
  case distinct => exact ht.distinct
  case stored =>
    intro c hc
    show c < (h.started ++ [value]).length
    rw [List.length_append]
    exact (ht.stored c hc).trans (Nat.lt_succ_self _)
  case counted =>
    intro j count' value' hj
    dsimp only at hj
    rcases eq_or_ne j i with rfl | hne
    · rw [Function.update_self] at hj
      cases hj
      show (h.started ++ [value])[Function.update h.call j h.started.length j]? = some value ∧
        some (Function.update h.call j h.started.length j) ∉ h.source.toList
      rw [Function.update_self, List.getElem?_concat_length]
      exact ⟨rfl, fun hc => lt_irrefl _ (ht.stored _ hc)⟩
    · rw [Function.update_of_ne hne] at hj
      obtain ⟨hvalue, hsource⟩ := ht.counted hj
      show (h.started ++ [value])[Function.update h.call i h.started.length j]? = some value' ∧
        some (Function.update h.call i h.started.length j) ∉ h.source.toList
      rw [Function.update_of_ne hne, List.getElem?_append_left (hlt (by rw [hj]; exact nofun))]
      exact ⟨hvalue, hsource⟩
  case calls =>
    -- the call that starts now has a number that none has yet
    intro j j' hj hj' heq
    dsimp only at hj hj'
    change Function.update h.call i h.started.length j = Function.update h.call i _ j' at heq
    rcases eq_or_ne j i with hji | hne <;> rcases eq_or_ne j' i with hji' | hne'
    · exact hji.trans hji'.symm
    · rw [Function.update_of_ne hne'] at hj'
      rw [hji, Function.update_self, Function.update_of_ne hne'] at heq
      exact absurd heq (hlt hj').ne'
    · rw [Function.update_of_ne hne] at hj
      rw [hji', Function.update_self, Function.update_of_ne hne] at heq
      exact absurd heq (hlt hj).ne
    · rw [Function.update_of_ne hne] at hj
      rw [Function.update_of_ne hne'] at hj'
      rw [Function.update_of_ne hne, Function.update_of_ne hne'] at heq
      exact ht.calls hj hj' heq

theorem Traced.store (ht : Traced h s) {count : UInt64} {value : Int64}
    (hi : s.pc i = .counted count value) (uniform : Uniform) :
    Traced (h.note s (i, .store uniform))
      ⟨{ s.sample with values := UniformSample.store uniform count value s.sample.values },
        Function.update s.pc i .idle⟩ := by
  obtain ⟨hvalue, hsource⟩ := ht.counted hi
  have hbusy : ∀ {j}, Function.update s.pc i .idle j ≠ .idle → j ≠ i ∧ s.pc j ≠ .idle := by
    intro j hj
    have hne : j ≠ i := by
      rintro rfl
      exact hj (Function.update_self j .idle s.pc)
    rw [Function.update_of_ne hne] at hj
    exact ⟨hne, hj⟩
  have hnote : h.note s (i, .store uniform) =
      { h with source := UniformSample.store uniform count (some (h.call i)) h.source } := by
    unfold History.note
    dsimp only
    rw [hi]
  have hmem : ∀ c, some c ∈ (UniformSample.store uniform count (some (h.call i)) h.source).toList →
      some c ∈ h.source.toList ∨ c = h.call i := by
    intro c hc
    rcases store_cases (k := k) uniform count with hkeep | ⟨d, hset⟩
    · rw [hkeep] at hc
      exact Or.inl hc
    · rw [hset, Vector.toList_setIfInBounds] at hc
      exact (List.mem_or_eq_of_mem_set hc).imp_right Option.some.inj
  rw [hnote]
  constructor
  case values =>
    dsimp only
    rw [map_store, ← ht.values, valueOf, List.getD_eq_getElem?_getD, hvalue, Option.getD_some]
  case distinct =>
    rcases store_cases (k := k) uniform count with hkeep | ⟨d, hset⟩
    · rw [hkeep]
      exact ht.distinct
    · rw [hset, Vector.toList_setIfInBounds]
      exact ht.distinct.set hsource d
  case stored =>
    intro c hc
    rcases hmem c hc with hold | rfl
    · exact ht.stored c hold
    · exact (List.getElem?_eq_some_iff.mp hvalue).1
  case counted =>
    intro j count' value' hj
    dsimp only at hj
    obtain ⟨hne, hpc⟩ := hbusy (by rw [hj]; exact nofun)
    rw [Function.update_of_ne hne] at hj
    refine ⟨(ht.counted hj).1, fun hc => ?_⟩
    rcases hmem _ hc with hold | heq
    · exact (ht.counted hj).2 hold
    · exact hne (ht.calls hpc (by rw [hi]; exact nofun) heq)
  case calls =>
    intro j j' hj hj' heq
    exact ht.calls (hbusy hj).2 (hbusy hj').2 heq

theorem Traced.step {a : ι × Operation} (ht : Traced h s) (hstep : s.step a = some t) :
    Traced (h.note s a) t := by
  obtain ⟨i, op⟩ := a
  rcases step_cases hstep with ⟨value, rfl, hi, rfl⟩ | ⟨uniform, count, value, rfl, hi, rfl⟩ |
    ⟨rfl, rfl⟩
  · exact ht.update hi _ value
  · exact ht.store hi uniform
  · exact ht

theorem always_traced (as : List (ι × Operation)) :
    Machine.Always (Machine.observe State.step History.note) (fun x => Traced x.1 x.2)
      ((History.new, State.new) : History k ι × State k ι) as :=
  Machine.always_observe_of_invariant (P := Traced) Traced.step Traced.new as

omit [DecidableEq ι] in
theorem Traced.recorded_iff (ht : Traced h s) : Recorded (h, s) ↔ Covered (h, s) := by
  have hvalues : s.sample.values.toList.take s.sample.size.toNat =
      (visible (h, s)).map (valueOf 0 h.started) := by
    rw [ht.values, Vector.toList_map, visible, List.map_take]
  have hsnapshot := Snapshot.getValues_new_perm (s.sample.values.toList.take s.sample.size.toNat)
  rw [hvalues] at hsnapshot
  unfold Recorded Covered getSnapshot
  rw [hvalues, hsnapshot.subperm_right]
  exact subperm_iff (ht.distinct.take _) fun c hc => ht.stored c (List.mem_of_mem_take hc)

/-- In every run, the values of every snapshot were recorded if and only if at every snapshot the
slots that are counted and not yet stored to are covered by recorded zeros. -/
theorem every_snapshot_recorded_iff (as : List (ι × Operation)) :
    EverySnapshot (k := k) Recorded as ↔ EverySnapshot (k := k) Covered as := by
  refine Machine.along_congr (always_traced as) fun x a hx => ?_
  exact imp_congr_right fun _ => hx.recorded_iff

def snapshotBeforeStore : List (ℕ × Operation) := [(0, .update 5), (1, .getSnapshot)]

theorem unrecorded_zero : ¬EverySnapshot (k := 2) Recorded snapshotBeforeStore := by
  rintro ⟨-, hrest⟩
  have hrecorded := (hrest _ rfl).1 rfl
  have hsnapshot : (Snapshot.new [0]).getValues.Subperm [5] := hrecorded
  rw [(Snapshot.getValues_new_perm [0]).subperm_right, List.singleton_subperm_iff] at hsnapshot
  revert hsnapshot
  decide

end CppMetrics.UniformSample
