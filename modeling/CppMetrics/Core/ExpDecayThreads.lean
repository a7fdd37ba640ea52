import CppMetrics.Core.HistogramRuns
import CppMetrics.Lib.ReadersWriter

/-! The exponentially decaying sample in the hands of any number of threads. `mutex_` is held from
the first access of a method to the last, and between these the sample may be half rescaled. -/

namespace CppMetrics.ExpDecaySample

open ReadersWriter

variable {D P : Type*} [Less P]

/-! ### The accesses of each method -/

def clearBody (now : Int64) : Body (ExpDecaySample P) Unit :=
  .step (fun s => { s with values := OrderedMap.empty }) fun _ =>
  .step (fun s => { s with count := 0 }) fun _ =>
  .step (fun s => { s with startTime := now }) fun _ =>
  .read startTime fun startTime =>
  .step (fun s => { s with nextScaleTime := startTime + RESCALE_THRESHOLD }) fun _ => .done ()

def refillBody (w : Weights D P) (prevStartTime : Int64) :
    List (P × Int64) → Body (ExpDecaySample P) Unit
  | [] => .step (fun s => { s with count := UInt64.ofNat s.values.size }) fun _ => .done ()
  | kv :: kvs =>
    .read startTime fun startTime =>
    .step (fun s =>
      { s with
        values := s.values.assign (w.rescaled (toSeconds (startTime - prevStartTime)) kv.1) kv.2 })
      fun _ => refillBody w prevStartTime kvs

def rescaleBody (w : Weights D P) (prevStartTime : Int64) : Body (ExpDecaySample P) Unit :=
  .step (fun s => { s with values := OrderedMap.empty }) fun s =>
    refillBody w prevStartTime s.values.entries

def rescaleIfNeededBody (w : Weights D P) (now : Int64) : Body (ExpDecaySample P) Unit :=
  .read nextScaleTime fun nextScaleTime =>
    if nextScaleTime < now then
      .step (fun s => { s with nextScaleTime := now + RESCALE_THRESHOLD }) fun _ =>
      .read startTime fun prevStartTime =>
      .step (fun s => { s with startTime := now }) fun _ =>
      rescaleBody w prevStartTime
    else
      .done ()

def offerBody (priority : P) (value : Int64) : Body (ExpDecaySample P) (Except Fault Unit) :=
  .step (fun s => { s with count := s.count + 1 }) fun s =>
    if s.count + 1 ≤ s.reservoirSize.toUInt64 then
      .step (fun s => { s with values := s.values.assign priority value }) fun _ => .done (.ok ())
    else
      .read (fun s => s.values.begin?) fun
        | none => .done (.error .emptyReservoir)
        | some (first, _) =>
          if less first priority then
            .step (fun s => { s with values := (s.values.insert priority value).1 }) fun s =>
              if (s.values.insert priority value).2 then
                .step (fun s => { s with values := s.values.erase first }) fun _ => .done (.ok ())
              else
                .done (.ok ())
          else
            .done (.ok ())

/-- The draws of one call; whatever the age, one of them gives a priority. -/
structure Drawn (w : Weights D P) where
  draws : List D
  priority : ℤ → P
  drawn : ∀ secs, drawPriority w secs draws = some (priority secs)

def updateBody (w : Weights D P) (value : Int64) (timestamp : Int64) (draws : Drawn w) :
    Body (ExpDecaySample P) (Except Fault Unit) :=
  (rescaleIfNeededBody w timestamp).bind fun _ =>
    .read startTime fun startTime =>
      offerBody (draws.priority (toSeconds (timestamp - startTime))) value

def copyBody : ℕ → ℕ → List Int64 → Body (ExpDecaySample P) (List Int64)
  | 0, _, vals => .done vals
  | n + 1, k, vals =>
    .read (fun s => s.values.entries[k]?) fun
      | none => .done vals
      | some kv => copyBody n (k + 1) (vals ++ [kv.2])

/-- What `getSnapshot` does under the lock. The range of the loop is fixed at its start. -/
def getSnapshotBody : Body (ExpDecaySample P) Snapshot :=
  .read (fun s => s.values.size) fun n =>
    (copyBody n 0 []).bind fun vals => .done (.new vals)

/-! Alone under the lock, each body is the method. -/

section

variable {w : Weights D P} {s t : ExpDecaySample P} {value : Int64} {timestamp : Int64}

theorem clearBody_run (now : Int64) (s : ExpDecaySample P) :
    (clearBody now).run s = ((), s.clear now) := rfl

theorem refillBody_run (w : Weights D P) (prevStartTime : Int64) (kvs : List (P × Int64))
    (s : ExpDecaySample P) :
    (refillBody w prevStartTime kvs).run s =
      let dur := toSeconds (s.startTime - prevStartTime)
      let values := s.values.assignAll (kvs.map fun kv => (w.rescaled dur kv.1, kv.2))
      ((), { s with values := values, count := UInt64.ofNat values.size }) := by
  induction kvs generalizing s with
  | nil => rfl
  | cons kv kvs ih =>
    rw [refillBody, Body.run_read, Body.run_step, ih]
    rfl

theorem rescaleBody_run (w : Weights D P) (prevStartTime : Int64) (s : ExpDecaySample P) :
    (rescaleBody w prevStartTime).run s = ((), s.rescale w prevStartTime) := by
  rw [rescaleBody, Body.run_step, refillBody_run]
  rfl

theorem rescaleIfNeededBody_run (w : Weights D P) (now : Int64) (s : ExpDecaySample P) :
    (rescaleIfNeededBody w now).run s = ((), s.rescaleIfNeeded w now) := by
  rw [rescaleIfNeededBody, Body.run_read, rescaleIfNeeded]
  split_ifs with hlt
  · rw [Body.run_step, Body.run_read, Body.run_step, rescaleBody_run]
  · rfl

theorem offerBody_run {priority : P} (h : s.offer priority value = .ok t) :
    (offerBody priority value).run s = (.ok (), t) := by
  rw [offerBody, Body.run_step]
  rcases offer_eq_ok h with ⟨hfill, rfl⟩ | ⟨hfull, ⟨first, v⟩, hfirst, rfl⟩
  · rw [if_pos hfill]
    rfl
  · rw [if_neg hfull, Body.run_read]
    simp only [hfirst]
    by_cases hlt : less first priority
    · by_cases hfresh : s.values.Fresh priority
      · simp [hlt, hfresh, OrderedMap.insert_of_fresh hfresh]
      · simp [hlt, hfresh, OrderedMap.insert_of_not_fresh hfresh]
    · simp [hlt]

theorem updateBody_run {draws : Drawn w} (h : s.update w value timestamp draws.draws = .ok t) :
    (updateBody w value timestamp draws).run s = (.ok (), t) := by
  rw [updateBody, Body.run_bind, rescaleIfNeededBody_run, Body.run_read]
  refine offerBody_run ?_
  rw [update] at h
  simpa only [draws.drawn] using h

theorem copyBody_run (s : ExpDecaySample P) (n k : ℕ) (vals : List Int64)
    (hn : n + k = s.values.size) :
    (copyBody n k vals).run s = (vals ++ (s.values.entries.drop k).map Prod.snd, s) := by
  induction n generalizing k vals with
  | zero =>
    rw [List.drop_eq_nil_of_le (by rw [← OrderedMap.size]; omega)]
    simp [copyBody]
  | succ n ih =>
    have hk : k < s.values.entries.length := by
      rw [← OrderedMap.size]
      omega
    rw [copyBody, Body.run_read, List.getElem?_eq_getElem hk, List.drop_eq_getElem_cons hk]
    dsimp only
    rw [ih (k + 1) _ (by omega), List.map_cons, List.append_assoc, List.singleton_append]

theorem getSnapshotBody_run (s : ExpDecaySample P) :
    getSnapshotBody.run s = (s.getSnapshot, s) := by
  rw [getSnapshotBody, Body.run_read, Body.run_bind, copyBody_run s _ 0 [] (Nat.add_zero _)]
  rfl

end

/-! ### Requests -/

inductive Request (w : Weights D P)
  | update (value : Int64) (timestamp : Int64) (draws : Drawn w)
  | clear (now : Int64)
  | getSnapshot

inductive Reply
  | updated (res : Except Fault Unit)
  | cleared
  | snapshot (s : Snapshot)

/-- `mutex_` is no readers-writer lock: every method takes it for itself. -/
def method {w : Weights D P} : Request w → Method (ExpDecaySample P) Reply
  | .update value timestamp draws =>
    .writer ((updateBody w value timestamp draws).bind fun res => .done (.updated res))
  | .clear now => .writer ((clearBody now).bind fun _ => .done .cleared)
  | .getSnapshot => .writer (getSnapshotBody.bind fun s => .done (.snapshot s))

/-- One request to the values recorded since the last `clear`, as many as 64 bits count. No update
meets an empty map. -/
inductive Answers (k : UInt32) {w : Weights D P} :
    List Int64 → Request w → Reply → List Int64 → Prop
  | update {recorded : List Int64} {value : Int64} {timestamp : Int64} {draws : Drawn w} :
      Answers k recorded (.update value timestamp draws) (.updated (.ok ())) (recorded ++ [value])
  | clear {recorded : List Int64} {now : Int64} : Answers k recorded (.clear now) .cleared []
  | getSnapshot {recorded : List Int64} {s : Snapshot} :
      (recorded.length < 2 ^ 64 → s.Shows k recorded) →
        Answers k recorded .getSnapshot (.snapshot s) recorded

section

variable {w : Weights D P} {k : UInt32} {recorded : List Int64} {s : ExpDecaySample P}

theorem Records.exists_update (h : Records k recorded s) (hk : 0 < k.toNat) (value : Int64)
    (timestamp : Int64) (draws : Drawn w) :
    ∃ t, s.update w value timestamp draws.draws = .ok t := by
  have hslotted := h.slotted.rescaleIfNeeded w timestamp
  have hreservoir : 0 < (s.rescaleIfNeeded w timestamp).reservoirSize.toNat :=
    hslotted.reservoirSize ▸ hk
  obtain ⟨t, ht, -⟩ := hslotted.stocked.offer hreservoir (draws.priority
    (toSeconds (timestamp - (s.rescaleIfNeeded w timestamp).startTime))) value
  refine ⟨t, ?_⟩
  rw [ExpDecaySample.update]
  simpa only [draws.drawn] using ht

theorem Records.method (hk : 0 < k.toNat) (h : Records k recorded s) (q : Request w) :
    ∃ recorded', Answers k recorded q ((ExpDecaySample.method q).body.run s).1 recorded' ∧
      Records k recorded' ((ExpDecaySample.method q).body.run s).2 := by
  cases q with
  | update value timestamp draws =>
    obtain ⟨t, hok⟩ := h.exists_update hk value timestamp draws
    simp only [ExpDecaySample.method, Method.writer, Body.run_bind, updateBody_run hok,
      Body.run_done]
    exact ⟨_, .update, h.update hok⟩
  | clear now =>
    simp only [ExpDecaySample.method, Method.writer, Body.run_bind, clearBody_run, Body.run_done]
    exact ⟨[], .clear, records_clear h.slotted.reservoirSize⟩
  | getSnapshot =>
    simp only [ExpDecaySample.method, Method.writer, Body.run_bind, getSnapshotBody_run,
      Body.run_done]
    exact ⟨recorded, .getSnapshot h.shows, h⟩

end

/-! ### The access before the lock -/

section

variable {ι : Type*} [DecidableEq ι] {w : Weights D P} {k : UInt32}

/-- The threads, and what each of them has reserved for the snapshot it takes. -/
structure Threads (ι : Type*) (w : Weights D P) where
  lock : State ι (Request w) (ExpDecaySample P) Reply
  reserved : ι → Option ℕ

def Threads.init (s : ExpDecaySample P) : Threads ι w := ⟨State.init s, fun _ => none⟩

/-- `reserve` is the access of `vals.reserve(values_.size())`. -/
inductive Access (ι : Type*) (w : Weights D P)
  | reserve (i : ι)
  | act (a : Action ι (Request w))

/-- `getSnapshot` takes the lock after it has reserved. -/
def Threads.ready (s : Threads ι w) : Action ι (Request w) → Bool
  | .lock i =>
    match s.lock.pc i with
    | .waiting .getSnapshot => (s.reserved i).isSome
    | _ => true
  | _ => true

/-- What a thread has reserved is gone when its call returns. -/
def Threads.after (s : Threads ι w) (lock : State ι (Request w) (ExpDecaySample P) Reply) :
    Action ι (Request w) → Threads ι w
  | .ret i => ⟨lock, Function.update s.reserved i none⟩
  | _ => ⟨lock, s.reserved⟩

def Threads.step (s : Threads ι w) : Access ι w → Option (Threads ι w)
  | .reserve i =>
    -- whoever has the lock may be half through a rescale
    match s.lock.pc i, s.reserved i with
    | .waiting .getSnapshot, none =>
      some { s with reserved := Function.update s.reserved i (some s.lock.value.values.size) }
    | _, _ => none
  | .act a =>
    if s.ready a then (ReadersWriter.step method s.lock a).map fun lock => s.after lock a else none

def Threads.note (h : List (Event ι (Request w) Reply)) (s : Threads ι w) :
    Access ι w → List (Event ι (Request w) Reply)
  | .reserve _ => h
  | .act a => ReadersWriter.note h s.lock a

variable {s t : Threads ι w} {u : State ι (Request w) (ExpDecaySample P) Reply}
  {a : Action ι (Request w)}

theorem Threads.after_lock (s : Threads ι w) (u : State ι (Request w) (ExpDecaySample P) Reply)
    (a : Action ι (Request w)) : (s.after u a).lock = u := by
  cases a <;> rfl

theorem Threads.lock_of_reserve {i : ι} (h : s.step (.reserve i) = some t) : t.lock = s.lock := by
  simp only [Threads.step] at h
  split at h
  · rw [← Option.some.inj h]
  · cases h

theorem Threads.lock_of_act (h : s.step (.act a) = some t) :
    ReadersWriter.step method s.lock a = some t.lock := by
  simp only [Threads.step, Option.ite_none_right_eq_some, Option.map_eq_some_iff] at h
  obtain ⟨-, v, hv, rfl⟩ := h
  rwa [Threads.after_lock]

theorem Threads.act_of_ready (hready : s.ready a = true)
    (h : ReadersWriter.step method s.lock a = some u) :
    ∃ t, s.step (.act a) = some t ∧ t.lock = u := by
  refine ⟨s.after u a, ?_, s.after_lock u a⟩
  simp only [Threads.step, if_pos hready, h, Option.map_some]

theorem Threads.exists_step (h : ReadersWriter.step method s.lock a = some u) :
    ∃ bs t, Machine.run Threads.step s bs = some t ∧ t.lock = u := by
  by_cases hready : s.ready a = true
  · obtain ⟨t, ht, hu⟩ := Threads.act_of_ready hready h
    exact ⟨[.act a], t, (Machine.run_singleton _ _).trans ht, hu⟩
  · unfold Threads.ready at hready
    split at hready
    · rename_i i
      split at hready
      · rename_i hpc
        have hnone : s.reserved i = none := Option.not_isSome_iff_eq_none.mp hready
        let r : Threads ι w :=
          { s with reserved := Function.update s.reserved i (some s.lock.value.values.size) }
        have hreserve : s.step (.reserve i) = some r := by
          simp only [Threads.step, hpc, hnone, r]
        have hr : r.ready (.lock i) = true := by
          simp only [Threads.ready, r, hpc, Function.update_self, Option.isSome_some]
        obtain ⟨t, ht, hu⟩ := Threads.act_of_ready hr h
        exact ⟨[.reserve i, .act (.lock i)], t, Machine.run_cons_eq_some.mpr
          ⟨r, hreserve, (Machine.run_singleton _ _).trans ht⟩, hu⟩
      · exact absurd rfl hready
    · exact absurd rfl hready

theorem Threads.exists_run {as : List (Action ι (Request w))}
    (h : Machine.run (ReadersWriter.step method) s.lock as = some u) :
    ∃ bs t, Machine.run Threads.step s bs = some t ∧ t.lock = u := by
  induction as generalizing s with
  | nil => exact ⟨[], s, rfl, Option.some.inj h⟩
  | cons a as ih =>
    obtain ⟨v, hv, h⟩ := Machine.run_cons_eq_some.mp h
    obtain ⟨bs, r, hr, rfl⟩ := Threads.exists_step hv
    obtain ⟨cs, t, ht, hu⟩ := ih h
    exact ⟨bs ++ cs, t, Machine.run_append_eq_some.mpr ⟨r, hr, ht⟩, hu⟩

def Access.acts : Access ι w → List (Action ι (Request w))
  | .reserve _ => []
  | .act a => [a]

theorem Threads.simulates {x y : List (Event ι (Request w) Reply) × Threads ι w} {b : Access ι w}
    (h : Machine.observe Threads.step Threads.note x b = some y) :
    Machine.run (Machine.observe (ReadersWriter.step method) ReadersWriter.note)
      (x.1, x.2.lock) b.acts = some (y.1, y.2.lock) := by
  obtain ⟨history, s⟩ := x
  obtain ⟨hstep, hnote⟩ := Machine.observe_eq_some.mp h
  cases b with
  | reserve i =>
    rw [hnote, Threads.lock_of_reserve hstep]
    rfl
  | act a =>
    rw [Access.acts, Machine.run_singleton]
    exact Machine.observe_eq_some.mpr ⟨Threads.lock_of_act hstep, hnote⟩

end

/-- The calls on the sample as they take effect under the lock. -/
theorem always_allowed {ι : Type*} [DecidableEq ι] {w : Weights D P} {k : UInt32}
    (hk : 0 < k.toNat) (now : Int64) (as : List (Action ι (Request w))) :
    Machine.Always (Machine.observe (ReadersWriter.step method) note)
      (fun x : List (Event ι (Request w) Reply) × State ι (Request w) (ExpDecaySample P) Reply =>
        (∃ recorded, Allowed (Answers k) [] (commits x.1) recorded ∧
          (x.2.writer = none → Records k recorded x.2.value)) ∧
        ∀ i, Bracketed i x.1 (x.2.pc i).phase ∧
          ∃ bs t, Machine.run (ReadersWriter.step method) x.2 bs = some t ∧ t.pc i = .idle)
      ([], State.init (new k now)) as := by
  refine (always_invariant (new k now) as).imp fun x hx =>
    ⟨?_, fun i => ⟨hx.bracketed i, complete hx.locked i⟩⟩
  obtain ⟨recorded, hallowed, hrecords⟩ := serve_allowed (R := Records k)
    (fun q h => Records.method hk h q) (records_clear rfl : Records k [] (new k now))
    ((commits x.1).map Prod.fst)
  refine ⟨recorded, ?_, fun hw => ?_⟩
  · rw [← hx.serving.served]
    exact hallowed
  · rw [hx.serving.value hw]
    exact hrecords

/-- Whatever the interleaving, every call takes effect at one point between its call and its return,
and none is ever stuck. In the order of these points each snapshot shows only values that were
recorded since the last `clear`, and no update finds the map empty, however often the sample is
rescaled entry by entry, and whatever a snapshot has reserved. -/
theorem sample_linearizable {ι : Type*} [DecidableEq ι] {w : Weights D P} {k : UInt32}
    (hk : 0 < k.toNat) (now : Int64) (bs : List (Access ι w)) :
    Machine.Always (Machine.observe Threads.step Threads.note)
      (fun x : List (Event ι (Request w) Reply) × Threads ι w =>
        (∃ recorded, Allowed (Answers k) [] (commits x.1) recorded ∧
          (x.2.lock.writer = none → Records k recorded x.2.lock.value)) ∧
        ∀ i, Bracketed i x.1 (x.2.lock.pc i).phase ∧
          ∃ bs t, Machine.run Threads.step x.2 bs = some t ∧ t.lock.pc i = .idle)
      ([], Threads.init (new k now)) bs := by
  have hlocked := Machine.Always.of_simulates (fun x => (x.1, x.2.lock)) Access.acts
    Threads.simulates (s := ([], Threads.init (new k now)))
    (fun as => always_allowed (w := w) hk now as) bs
  refine hlocked.imp fun x hx => ⟨hx.1, fun i => ⟨(hx.2 i).1, ?_⟩⟩
  obtain ⟨as, u, hrun, hidle⟩ := (hx.2 i).2
  obtain ⟨cs, t, ht, rfl⟩ := Threads.exists_run hrun
  exact ⟨cs, t, ht, hidle⟩

noncomputable def halfDrawn : Drawn Weights.source where
  draws := [0.5]
  priority secs := (Weights.source.priority secs 0.5).getD ⊤
  drawn _ := rfl

/-- A thread reserves for the snapshot while another is inside `update`, two hours late. -/
noncomputable def lateUpdate : List (Access Bool Weights.source) :=
  [.act (.call true (.update 7 7200000000000 halfDrawn)), .act (.lock true), .act (.access true),
    .act (.call false .getSnapshot), .reserve false, .act (.access true)]

theorem sample_linearizable_lateUpdate :
    Machine.Always (Machine.observe Threads.step Threads.note)
      (fun x : List (Event Bool (Request Weights.source) Reply) × Threads Bool Weights.source =>
        (∃ recorded, Allowed (Answers 1028) [] (commits x.1) recorded ∧
          (x.2.lock.writer = none → Records 1028 recorded x.2.lock.value)) ∧
        ∀ i, Bracketed i x.1 (x.2.lock.pc i).phase ∧
          ∃ bs t, Machine.run Threads.step x.2 bs = some t ∧ t.lock.pc i = .idle)
      ([], Threads.init (new 1028 0)) lateUpdate :=
  sample_linearizable (by decide) 0 lateUpdate

end CppMetrics.ExpDecaySample
