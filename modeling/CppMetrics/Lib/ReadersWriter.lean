import Mathlib.Data.Finset.Card
import CppMetrics.Lib.Machine

/-! A value behind a readers-writer lock. A method's body is a tree of single accesses to the
value, and the accesses of different threads interleave. Every interleaving is the sequential
run of the methods in the order in which they release the lock, and no call is ever stuck. -/

namespace ReadersWriter

/-- The accesses of one method, one at a time. `next` sees the value that the access found. -/
inductive Body (σ ρ : Type*)
  | done (result : ρ)
  | step (write : σ → σ) (next : σ → Body σ ρ)

variable {σ ρ τ : Type*}

def Body.run : Body σ ρ → σ → ρ × σ
  | .done r, v => (r, v)
  | .step write next, v => (next v).run (write v)

def Body.ReadOnly : Body σ ρ → Prop
  | .done _ => True
  | .step write next => (∀ v, write v = v) ∧ ∀ v, (next v).ReadOnly

def Body.read (look : σ → τ) (next : τ → Body σ ρ) : Body σ ρ := .step id fun v => next (look v)

def Body.bind (k : ρ → Body σ τ) : Body σ ρ → Body σ τ
  | .done r => k r
  | .step write next => .step write fun v => (next v).bind k

@[simp] theorem Body.run_done (r : ρ) (v : σ) : (Body.done r).run v = (r, v) := rfl

@[simp] theorem Body.run_step (write : σ → σ) (next : σ → Body σ ρ) (v : σ) :
    (Body.step write next).run v = (next v).run (write v) := rfl

@[simp] theorem Body.run_read (look : σ → τ) (next : τ → Body σ ρ) (v : σ) :
    (Body.read look next).run v = (next (look v)).run v := rfl

theorem Body.run_bind (k : ρ → Body σ τ) (b : Body σ ρ) (v : σ) :
    (b.bind k).run v = (k (b.run v).1).run (b.run v).2 := by
  induction b generalizing v with
  | done r => rfl
  | step write next ih => exact ih v (write v)

theorem Body.ReadOnly.done (r : ρ) : (Body.done r : Body σ ρ).ReadOnly := trivial

theorem Body.ReadOnly.read {look : σ → τ} {next : τ → Body σ ρ} (h : ∀ x, (next x).ReadOnly) :
    (Body.read look next).ReadOnly := ⟨fun _ => rfl, fun v => h (look v)⟩

theorem Body.ReadOnly.bind {b : Body σ ρ} {k : ρ → Body σ τ} (h : b.ReadOnly)
    (hk : ∀ r, (k r).ReadOnly) : (b.bind k).ReadOnly := by
  induction b with
  | done r => exact hk r
  | step write next ih => exact ⟨h.1, fun v => ih v (h.2 v)⟩

theorem Body.ReadOnly.run_snd {b : Body σ ρ} (h : b.ReadOnly) (v : σ) : (b.run v).2 = v := by
  induction b generalizing v with
  | done r => rfl
  | step write next ih =>
    rw [Body.run_step, ih v (h.2 v), h.1]

/-- A method under the lock. One that takes it shared does not write. -/
structure Method (σ ρ : Type*) where
  exclusive : Bool
  body : Body σ ρ
  readOnly : exclusive = false → body.ReadOnly

def Method.writer (body : Body σ ρ) : Method σ ρ := ⟨true, body, fun h => Bool.noConfusion h⟩

def Method.reader (body : Body σ ρ) (h : body.ReadOnly) : Method σ ρ := ⟨false, body, fun _ => h⟩

/-! ### The machine -/

section

variable {ι κ : Type*}

/-- Where a thread is in a call. The result is ready before the lock is released. -/
inductive Pc (κ σ ρ : Type*)
  | idle
  | waiting (c : κ)
  | inside (c : κ) (rest : Body σ ρ)
  | finished (c : κ) (r : ρ)

structure State (ι κ σ ρ : Type*) where
  value : σ
  writer : Option ι
  readers : Finset ι
  pc : ι → Pc κ σ ρ

inductive Action (ι κ : Type*)
  | call (i : ι) (c : κ)
  | lock (i : ι)
  | access (i : ι)
  | unlock (i : ι)
  | ret (i : ι)

def State.init (v : σ) : State ι κ σ ρ := ⟨v, none, ∅, fun _ => .idle⟩

variable [DecidableEq ι]

def State.goto (s : State ι κ σ ρ) (i : ι) (p : Pc κ σ ρ) : State ι κ σ ρ :=
  { s with pc := Function.update s.pc i p }

@[simp] theorem State.goto_pc (s : State ι κ σ ρ) (i : ι) (p : Pc κ σ ρ) :
    (s.goto i p).pc = Function.update s.pc i p := rfl

@[simp] theorem State.goto_value (s : State ι κ σ ρ) (i : ι) (p : Pc κ σ ρ) :
    (s.goto i p).value = s.value := rfl

@[simp] theorem State.goto_writer (s : State ι κ σ ρ) (i : ι) (p : Pc κ σ ρ) :
    (s.goto i p).writer = s.writer := rfl

@[simp] theorem State.goto_readers (s : State ι κ σ ρ) (i : ι) (p : Pc κ σ ρ) :
    (s.goto i p).readers = s.readers := rfl

def State.acquire (s : State ι κ σ ρ) (i : ι) (exclusive : Bool) : Option (State ι κ σ ρ) :=
  match s.writer with
  | some _ => none
  | none =>
    if exclusive then
      if s.readers = ∅ then some { s with writer := some i } else none
    else
      some { s with readers := insert i s.readers }

def State.release (s : State ι κ σ ρ) (i : ι) (exclusive : Bool) : State ι κ σ ρ :=
  if exclusive then { s with writer := none } else { s with readers := s.readers.erase i }

def step (method : κ → Method σ ρ) (s : State ι κ σ ρ) : Action ι κ → Option (State ι κ σ ρ)
  | .call i c =>
    match s.pc i with
    | .idle => some (s.goto i (.waiting c))
    | _ => none
  | .lock i =>
    match s.pc i with
    | .waiting c =>
      (s.acquire i (method c).exclusive).map fun t => t.goto i (.inside c (method c).body)
    | _ => none
  | .access i =>
    match s.pc i with
    | .inside c (.step write next) =>
      some { s.goto i (.inside c (next s.value)) with value := write s.value }
    | _ => none
  | .unlock i =>
    match s.pc i with
    | .inside c (.done r) => some ((s.release i (method c).exclusive).goto i (.finished c r))
    | _ => none
  | .ret i =>
    match s.pc i with
    | .finished _ _ => some (s.goto i .idle)
    | _ => none

/-- What an outside observer sees; a call is committed when it releases the lock. -/
inductive Event (ι κ ρ : Type*)
  | called (i : ι) (c : κ)
  | committed (i : ι) (c : κ) (r : ρ)
  | returned (i : ι) (c : κ) (r : ρ)

def Event.thread : Event ι κ ρ → ι
  | .called i _ => i
  | .committed i _ _ => i
  | .returned i _ _ => i

def note (h : List (Event ι κ ρ)) (s : State ι κ σ ρ) : Action ι κ → List (Event ι κ ρ)
  | .call i c => h ++ [.called i c]
  | .unlock i =>
    match s.pc i with
    | .inside c (.done r) => h ++ [.committed i c r]
    | _ => h
  | .ret i =>
    match s.pc i with
    | .finished c r => h ++ [.returned i c r]
    | _ => h
  | _ => h

def commits (h : List (Event ι κ ρ)) : List (κ × ρ) :=
  h.filterMap fun
    | .committed _ c r => some (c, r)
    | _ => none

def serve (method : κ → Method σ ρ) : σ → List κ → List (κ × ρ) × σ
  | v, [] => ([], v)
  | v, c :: cs =>
    let (r, w) := (method c).body.run v
    ((c, r) :: (serve method w cs).1, (serve method w cs).2)

/-- What the history shows of thread `i`: calls one after the other, and a commit between each
call and its return, with the value returned. -/
inductive Phase (κ ρ : Type*)
  | idle
  | called (c : κ)
  | committed (c : κ) (r : ρ)

def Pc.phase : Pc κ σ ρ → Phase κ ρ
  | .idle => .idle
  | .waiting c => .called c
  | .inside c _ => .called c
  | .finished c r => .committed c r

inductive Bracketed (i : ι) : List (Event ι κ ρ) → Phase κ ρ → Prop
  | nil : Bracketed i [] .idle
  | call {h : List (Event ι κ ρ)} {c : κ} :
      Bracketed i h .idle → Bracketed i (h ++ [.called i c]) (.called c)
  | commit {h : List (Event ι κ ρ)} {c : κ} {r : ρ} :
      Bracketed i h (.called c) → Bracketed i (h ++ [.committed i c r]) (.committed c r)
  | ret {h : List (Event ι κ ρ)} {c : κ} {r : ρ} :
      Bracketed i h (.committed c r) → Bracketed i (h ++ [.returned i c r]) .idle
  | other {h : List (Event ι κ ρ)} {p : Phase κ ρ} {e : Event ι κ ρ} :
      e.thread ≠ i → Bracketed i h p → Bracketed i (h ++ [e]) p

/-! ### What a step can do -/

inductive Taken (method : κ → Method σ ρ) (s : State ι κ σ ρ) :
    Action ι κ → State ι κ σ ρ → Prop
  | call {i : ι} {c : κ} : s.pc i = .idle → Taken method s (.call i c) (s.goto i (.waiting c))
  | lockExclusive {i : ι} {c : κ} :
      s.pc i = .waiting c → (method c).exclusive = true → s.writer = none → s.readers = ∅ →
      Taken method s (.lock i)
        { s.goto i (.inside c (method c).body) with writer := some i }
  | lockShared {i : ι} {c : κ} :
      s.pc i = .waiting c → (method c).exclusive = false → s.writer = none →
      Taken method s (.lock i)
        { s.goto i (.inside c (method c).body) with readers := insert i s.readers }
  | access {i : ι} {c : κ} {write : σ → σ} {next : σ → Body σ ρ} :
      s.pc i = .inside c (.step write next) →
      Taken method s (.access i)
        { s.goto i (.inside c (next s.value)) with value := write s.value }
  | unlockExclusive {i : ι} {c : κ} {r : ρ} :
      s.pc i = .inside c (.done r) → (method c).exclusive = true →
      Taken method s (.unlock i) { s.goto i (.finished c r) with writer := none }
  | unlockShared {i : ι} {c : κ} {r : ρ} :
      s.pc i = .inside c (.done r) → (method c).exclusive = false →
      Taken method s (.unlock i)
        { s.goto i (.finished c r) with readers := s.readers.erase i }
  | ret {i : ι} {c : κ} {r : ρ} :
      s.pc i = .finished c r → Taken method s (.ret i) (s.goto i .idle)

variable {method : κ → Method σ ρ} {s t : State ι κ σ ρ} {a : Action ι κ}

theorem taken_iff_step : step method s a = some t ↔ Taken method s a t := by
  constructor
  · intro h
    cases a with
    | call i c =>
      simp only [step] at h
      split at h
      case h_1 hpc => cases h; exact .call hpc
      case h_2 => cases h
    | lock i =>
      simp only [step] at h
      split at h
      case h_2 => cases h
      case h_1 c hpc =>
        simp only [State.acquire] at h
        split at h
        case h_1 => cases h
        case h_2 hw =>
          split_ifs at h with hx hr
          · cases h
            exact .lockExclusive hpc hx hw hr
          · cases h
          · cases h
            exact .lockShared hpc (Bool.eq_false_of_not_eq_true hx) hw
    | access i =>
      simp only [step] at h
      split at h
      case h_1 hpc => cases h; exact .access hpc
      case h_2 => cases h
    | unlock i =>
      simp only [step, State.release] at h
      split at h
      case h_2 => cases h
      case h_1 c r hpc =>
        cases h
        split_ifs with hx
        · exact .unlockExclusive hpc hx
        · exact .unlockShared hpc (Bool.eq_false_of_not_eq_true hx)
    | ret i =>
      simp only [step] at h
      split at h
      case h_1 hpc => cases h; exact .ret hpc
      case h_2 => cases h
  · intro h
    cases h with
    | call hpc => simp only [step, hpc]
    | lockExclusive hpc hx hw hr =>
      simp only [step, hpc, State.acquire, State.goto, hw, hx, if_true, hr, Option.map_some]
    | lockShared hpc hx hw =>
      simp only [step, hpc, State.acquire, State.goto, hw, hx, Bool.false_eq_true, if_false,
        Option.map_some]
    | access hpc => simp only [step, hpc]
    | unlockExclusive hpc hx =>
      simp only [step, hpc, State.release, hx, if_true]
      rfl
    | unlockShared hpc hx =>
      simp only [step, hpc, State.release, hx, Bool.false_eq_true, if_false]
      rfl
    | ret hpc => simp only [step, hpc]

/-! ### The lock -/

def Pc.mode (method : κ → Method σ ρ) : Pc κ σ ρ → Option Bool
  | .inside c _ => some (method c).exclusive
  | _ => none

structure Locked (method : κ → Method σ ρ) (s : State ι κ σ ρ) : Prop where
  exclusive : ∀ i, s.writer = some i ↔ (s.pc i).mode method = some true
  shared : ∀ i, i ∈ s.readers ↔ (s.pc i).mode method = some false
  alone : s.writer ≠ none → s.readers = ∅

omit [DecidableEq ι] in
theorem Locked.init (v : σ) : Locked method (State.init v : State ι κ σ ρ) where
  exclusive i := by simp [State.init, Pc.mode]
  shared i := by simp [State.init, Pc.mode]
  alone _ := rfl

omit [DecidableEq ι] in
theorem Locked.mode_eq_none (hs : Locked method s) {i j : ι}
    (hi : (s.pc i).mode method = some true) (hij : j ≠ i) : (s.pc j).mode method = none := by
  have hw := (hs.exclusive i).mpr hi
  cases hj : (s.pc j).mode method with
  | none => rfl
  | some x =>
    cases x with
    | true => exact absurd (Option.some.inj (((hs.exclusive j).mpr hj).symm.trans hw)) hij
    | false =>
      have hmem := (hs.shared j).mpr hj
      rw [hs.alone (by rw [hw]; exact Option.some_ne_none i)] at hmem
      exact absurd hmem (Finset.notMem_empty j)

theorem Locked.goto (hs : Locked method s) {i : ι} {p : Pc κ σ ρ}
    (hp : p.mode method = (s.pc i).mode method) : Locked method (s.goto i p) := by
  have hmode : ∀ j, ((s.goto i p).pc j).mode method = (s.pc j).mode method := by
    intro j
    rw [State.goto_pc]
    by_cases hj : j = i
    · subst hj
      rw [Function.update_self, hp]
    · rw [Function.update_of_ne hj]
  refine ⟨fun j => ?_, fun j => ?_, hs.alone⟩
  · rw [hmode]
    exact hs.exclusive j
  · rw [hmode]
    exact hs.shared j

theorem Locked.step (hs : Locked method s) (h : Taken method s a t) : Locked method t := by
  cases h with
  | call hpc => exact hs.goto (by rw [hpc]; rfl)
  | ret hpc => exact hs.goto (by rw [hpc]; rfl)
  | @access i c write next hpc =>
    have ht : Locked method (s.goto i (.inside c (next s.value))) := hs.goto (by rw [hpc]; rfl)
    exact ⟨ht.exclusive, ht.shared, ht.alone⟩
  | @lockExclusive i c hpc hx hw hr =>
    refine ⟨fun j => ?_, fun j => ?_, fun _ => hr⟩
    all_goals simp only [State.goto_pc, State.goto_readers]; by_cases hj : j = i
    · subst hj
      simp [Pc.mode, hx]
    · have hne : i ≠ j := fun h => hj h.symm
      rw [Function.update_of_ne hj, ← hs.exclusive, hw]
      simp [hne]
    · subst hj
      simp [Pc.mode, hx, hr]
    · rw [Function.update_of_ne hj]
      exact hs.shared j
  | @lockShared i c hpc hx hw =>
    refine ⟨fun j => ?_, fun j => ?_, fun h => absurd hw h⟩
    all_goals simp only [State.goto_pc, State.goto_writer]; by_cases hj : j = i
    · subst hj
      simp [Pc.mode, hx, hw]
    · rw [Function.update_of_ne hj]
      exact hs.exclusive j
    · subst hj
      simp [Pc.mode, hx]
    · rw [Function.update_of_ne hj, Finset.mem_insert, or_iff_right hj]
      exact hs.shared j
  | @unlockExclusive i c r hpc hx =>
    have hi : (s.pc i).mode method = some true := by rw [hpc, Pc.mode, hx]
    refine ⟨fun j => ?_, fun j => ?_, fun h => absurd rfl h⟩
    all_goals simp only [State.goto_pc, State.goto_readers]; by_cases hj : j = i
    · subst hj
      simp [Pc.mode]
    · rw [Function.update_of_ne hj, hs.mode_eq_none hi hj]
      simp
    · subst hj
      rw [Function.update_self, hs.shared, hi]
      simp [Pc.mode]
    · rw [Function.update_of_ne hj]
      exact hs.shared j
  | @unlockShared i c r hpc hx =>
    have hi : (s.pc i).mode method = some false := by rw [hpc, Pc.mode, hx]
    refine ⟨fun j => ?_, fun j => ?_, fun h => ?_⟩
    · simp only [State.goto_pc, State.goto_writer]
      by_cases hj : j = i
      · subst hj
        rw [Function.update_self, hs.exclusive, hi]
        simp [Pc.mode]
      · rw [Function.update_of_ne hj]
        exact hs.exclusive j
    · simp only [State.goto_pc]
      by_cases hj : j = i
      · subst hj
        simp [Pc.mode]
      · rw [Function.update_of_ne hj, Finset.mem_erase, and_iff_right hj]
        exact hs.shared j
    · have hr : s.readers = ∅ := hs.alone h
      simp only [hr, Finset.erase_empty]

/-! ### The sequential run -/

theorem serve_concat (v : σ) (cs : List κ) (c : κ) :
    serve method v (cs ++ [c]) =
      ((serve method v cs).1 ++ [(c, ((method c).body.run (serve method v cs).2).1)],
        ((method c).body.run (serve method v cs).2).2) := by
  induction cs generalizing v with
  | nil => rfl
  | cons d cs ih =>
    rw [List.cons_append]
    simp only [serve, ih, List.cons_append]

/-- Calls with their results, one after the other, as a specification allows them. -/
inductive Allowed {α : Type*} (spec : α → κ → ρ → α → Prop) : α → List (κ × ρ) → α → Prop
  | nil {a : α} : Allowed spec a [] a
  | cons {a b e : α} {c : κ} {r : ρ} {l : List (κ × ρ)} :
      spec a c r b → Allowed spec b l e → Allowed spec a ((c, r) :: l) e

/-- Methods that refine a specification one by one do so in every sequential run. -/
theorem serve_allowed {α : Type*} {spec : α → κ → ρ → α → Prop} {R : α → σ → Prop}
    (hmethod : ∀ {a v} c, R a v →
      ∃ b, spec a c ((method c).body.run v).1 b ∧ R b ((method c).body.run v).2)
    {a : α} {v : σ} (h : R a v) (cs : List κ) :
    ∃ b, Allowed spec a (serve method v cs).1 b ∧ R b (serve method v cs).2 := by
  induction cs generalizing a v with
  | nil => exact ⟨a, .nil, h⟩
  | cons c cs ih =>
    obtain ⟨b, hspec, hb⟩ := hmethod c h
    obtain ⟨e, hallowed, he⟩ := ih hb
    exact ⟨e, .cons hspec hallowed, he⟩

def past (method : κ → Method σ ρ) (v : σ) (h : List (Event ι κ ρ)) : List (κ × ρ) × σ :=
  serve method v ((commits h).map Prod.fst)

/-- The value is the committed one unless a writer is inside, and each thread inside still has
to do what is left of its method on the committed value. -/
structure Serving (method : κ → Method σ ρ) (v : σ) (h : List (Event ι κ ρ))
    (s : State ι κ σ ρ) : Prop where
  served : (past method v h).1 = commits h
  value : s.writer = none → s.value = (past method v h).2
  ahead : ∀ i c rest, s.pc i = .inside c rest →
    rest.run s.value = (method c).body.run (past method v h).2
  quiet : ∀ i c rest, s.pc i = .inside c rest → (method c).exclusive = false → rest.ReadOnly

section

variable {v : σ} {h h' : List (Event ι κ ρ)}

omit [DecidableEq ι] in
theorem Serving.init (v : σ) : Serving method v [] (State.init v : State ι κ σ ρ) where
  served := rfl
  value _ := rfl
  ahead i c rest h := by cases h
  quiet i c rest h := by cases h

theorem Serving.outside (hs : Serving method v h s) (hh : commits h' = commits h) {i : ι}
    {p : Pc κ σ ρ} (hp : ∀ c rest, p ≠ .inside c rest) : Serving method v h' (s.goto i p) := by
  have hpc : ∀ {j c rest}, (s.goto i p).pc j = .inside c rest → s.pc j = .inside c rest := by
    intro j c rest hj
    rw [State.goto_pc, Function.update_apply] at hj
    split_ifs at hj with hji
    · exact absurd hj (hp c rest)
    · exact hj
  have hpast : past method v h' = past method v h := by rw [past, past, hh]
  refine ⟨?_, ?_, fun j c rest hj => ?_, fun j c rest hj => hs.quiet j c rest (hpc hj)⟩
  · rw [hpast, hh]
    exact hs.served
  · rw [hpast]
    exact hs.value
  · rw [hpast]
    exact hs.ahead j c rest (hpc hj)

theorem Serving.enter (hs : Serving method v h s) (hw : s.writer = none) {i : ι} {c : κ}
    {w : Option ι} {rs : Finset ι} :
    Serving method v h
      ⟨s.value, w, rs, Function.update s.pc i (.inside c (method c).body)⟩ := by
  refine ⟨hs.served, fun _ => hs.value hw, fun j d rest hj => ?_, fun j d rest hj hd => ?_⟩
  all_goals simp only [Function.update_apply] at hj; split_ifs at hj
  · cases hj
    simp only [hs.value hw]
  · exact hs.ahead j d rest hj
  · cases hj
    exact (method c).readOnly hd
  · exact hs.quiet j d rest hj hd

theorem Serving.access (hl : Locked method s) (hs : Serving method v h s) {i : ι} {c : κ}
    {write : σ → σ} {next : σ → Body σ ρ} (hpc : s.pc i = .inside c (.step write next)) :
    Serving method v h { s.goto i (.inside c (next s.value)) with value := write s.value } := by
  have hmode : (s.pc i).mode method = some (method c).exclusive := by rw [hpc, Pc.mode]
  have hi : (next s.value).run (write s.value) = (method c).body.run (past method v h).2 :=
    hs.ahead i c _ hpc
  -- a reader leaves the value as it is, and beside a writer there is nobody to see the change
  have hkeep : (method c).exclusive = false → write s.value = s.value := fun hx =>
    (hs.quiet i c _ hpc hx).1 s.value
  have hother : ∀ {j d rest}, j ≠ i → s.pc j = .inside d rest → write s.value = s.value := by
    intro j d rest hji hj
    apply hkeep
    by_contra hx
    rw [Bool.not_eq_false] at hx
    have hnone := hl.mode_eq_none (hmode.trans (congrArg some hx)) hji
    rw [hj, Pc.mode] at hnone
    cases hnone
  refine ⟨hs.served, fun hw => ?_, fun j d rest hj => ?_, fun j d rest hj hd => ?_⟩
  · have hx : (method c).exclusive = false := by
      by_contra hx
      rw [Bool.not_eq_false] at hx
      have hsome := (hl.exclusive i).mpr (hmode.trans (congrArg some hx))
      rw [State.goto_writer] at hw
      cases hw.symm.trans hsome
    simp only [hkeep hx]
    exact hs.value hw
  · simp only [State.goto_pc, Function.update_apply] at hj
    split_ifs at hj with hji
    · cases hj
      exact hi
    · simp only [hother hji hj]
      exact hs.ahead j d rest hj
  · simp only [State.goto_pc, Function.update_apply] at hj
    split_ifs at hj with hji
    · cases hj
      exact (hs.quiet i c _ hpc hd).2 s.value
    · exact hs.quiet j d rest hj hd

omit [DecidableEq ι] in
theorem Serving.past_commit (hs : Serving method v h s) {i : ι} {c : κ} {r : ρ}
    (hpc : s.pc i = .inside c (.done r)) :
    past method v (h ++ [.committed i c r]) = (commits h ++ [(c, r)], s.value) := by
  have hrun : (method c).body.run (past method v h).2 = (r, s.value) :=
    (hs.ahead i c _ hpc).symm
  have hcommits : (commits (h ++ [.committed i c r])).map Prod.fst =
      (commits h).map Prod.fst ++ [c] := by
    simp [commits]
  rw [past, hcommits, serve_concat]
  rw [past] at hrun
  rw [hrun]
  exact congrArg (fun l => (l ++ [(c, r)], s.value)) hs.served

theorem Serving.leave (hl : Locked method s) (hs : Serving method v h s) {i : ι} {c : κ} {r : ρ}
    (hpc : s.pc i = .inside c (.done r)) {w : Option ι} {rs : Finset ι} :
    Serving method v (h ++ [.committed i c r])
      ⟨s.value, w, rs, Function.update s.pc i (.finished c r)⟩ := by
  have hmode : (s.pc i).mode method = some (method c).exclusive := by rw [hpc, Pc.mode]
  have hpast := hs.past_commit hpc
  have hcommits : commits (h ++ [.committed i c r]) = commits h ++ [(c, r)] := by
    simp [commits]
  refine ⟨?_, fun _ => ?_, fun j d rest hj => ?_, fun j d rest hj hd => ?_⟩
  · rw [hpast, hcommits]
  · rw [hpast]
  · simp only [Function.update_apply] at hj
    split_ifs at hj with hji
    -- somebody else is inside, so the one who leaves is a reader and the value was committed
    have hx : (method c).exclusive = false := by
      by_contra hx
      rw [Bool.not_eq_false] at hx
      have hnone := hl.mode_eq_none (hmode.trans (congrArg some hx)) hji
      rw [hj, Pc.mode] at hnone
      cases hnone
    have hvalue : s.value = (past method v h).2 := by
      have hrun := hs.ahead i c _ hpc
      have hsnd := ((method c).readOnly hx).run_snd (past method v h).2
      rw [← hrun] at hsnd
      exact hsnd
    rw [hpast]
    simp only
    rw [hs.ahead j d rest hj, hvalue]
  · simp only [Function.update_apply] at hj
    split_ifs at hj with hji
    exact hs.quiet j d rest hj hd

theorem Serving.step (hl : Locked method s) (hs : Serving method v h s) (ha : Taken method s a t) :
    Serving method v (note h s a) t := by
  cases ha with
  | call hpc => exact hs.outside (by simp [note, commits]) fun c rest hp => by cases hp
  | lockExclusive hpc hx hw hr => exact hs.enter hw
  | lockShared hpc hx hw => exact hs.enter hw
  | access hpc => exact hs.access hl hpc
  | unlockExclusive hpc hx =>
    simp only [note, hpc]
    exact hs.leave hl hpc
  | unlockShared hpc hx =>
    simp only [note, hpc]
    exact hs.leave hl hpc
  | ret hpc => exact hs.outside (by simp [note, hpc, commits]) fun c rest hp => by cases hp

end

/-! ### Whole runs -/

section

variable {v : σ} {h : List (Event ι κ ρ)}

theorem bracketed_goto {i : ι} {p : Pc κ σ ρ} (e : Event ι κ ρ) (he : e.thread = i)
    (hs : ∀ j, Bracketed j h (s.pc j).phase) (hi : Bracketed i (h ++ [e]) p.phase) (j : ι) :
    Bracketed j (h ++ [e]) (Function.update s.pc i p j).phase := by
  by_cases hj : j = i
  · subst hj
    rwa [Function.update_self]
  · rw [Function.update_of_ne hj]
    exact .other (fun h => hj (h.symm.trans he)) (hs j)

theorem bracketed_silent {i : ι} {p : Pc κ σ ρ} (hs : ∀ j, Bracketed j h (s.pc j).phase)
    (hp : p.phase = (s.pc i).phase) (j : ι) :
    Bracketed j h (Function.update s.pc i p j).phase := by
  by_cases hj : j = i
  · subst hj
    rw [Function.update_self, hp]
    exact hs j
  · rw [Function.update_of_ne hj]
    exact hs j

theorem bracketed_step (hs : ∀ j, Bracketed j h (s.pc j).phase) (ha : Taken method s a t) (j : ι) :
    Bracketed j (note h s a) (t.pc j).phase := by
  cases ha with
  | @call i c hpc =>
    have hi := hs i
    rw [hpc] at hi
    exact bracketed_goto (p := .waiting c) (.called i c) rfl hs (.call hi) j
  | lockExclusive hpc => exact bracketed_silent hs (by rw [hpc]; rfl) j
  | lockShared hpc => exact bracketed_silent hs (by rw [hpc]; rfl) j
  | access hpc => exact bracketed_silent hs (by rw [hpc]; rfl) j
  | @unlockExclusive i c r hpc | @unlockShared i c r hpc =>
    have hi := hs i
    rw [hpc] at hi
    simp only [note, hpc]
    exact bracketed_goto (p := .finished c r) (.committed i c r) rfl hs (.commit hi) j
  | @ret i c r hpc =>
    have hi := hs i
    rw [hpc] at hi
    simp only [note, hpc]
    exact bracketed_goto (p := .idle) (.returned i c r) rfl hs (.ret hi) j

structure Invariant (method : κ → Method σ ρ) (v : σ) (h : List (Event ι κ ρ))
    (s : State ι κ σ ρ) : Prop where
  locked : Locked method s
  serving : Serving method v h s
  bracketed : ∀ i, Bracketed i h (s.pc i).phase

/-- Any interleaving is the sequential run of the commits, and every commit lies between its
call and its return. -/
theorem always_invariant (v : σ) (as : List (Action ι κ)) :
    Machine.Always (Machine.observe (step method) note) (fun x => Invariant method v x.1 x.2)
      ([], State.init v) as := by
  have hinit : Invariant method v [] (State.init v : State ι κ σ ρ) :=
    ⟨Locked.init v, Serving.init v, fun _ => .nil⟩
  refine Machine.always_observe_of_invariant (fun hs ht => ?_) hinit as
  have ha := taken_iff_step.mp ht
  exact ⟨hs.locked.step ha, hs.serving.step hs.locked ha, bracketed_step hs.bracketed ha⟩

end

/-! ### Progress -/

theorem finish (method : κ → Method σ ρ) {i : ι} {c : κ} {rest : Body σ ρ}
    (hpc : s.pc i = .inside c rest) :
    ∃ as t r, Machine.run (step method) s as = some t ∧ (∀ a ∈ as, a = .access i ∨ a = .unlock i) ∧
      t.pc = Function.update s.pc i (.finished c r) ∧
      t.writer = (s.release i (method c).exclusive).writer ∧
      t.readers = (s.release i (method c).exclusive).readers := by
  induction rest generalizing s with
  | done r =>
    have hstep : step method s (.unlock i) =
        some ((s.release i (method c).exclusive).goto i (.finished c r)) := by
      simp only [step, hpc]
    refine ⟨[.unlock i], _, r, (Machine.run_singleton _ _).trans hstep, by simp, ?_, rfl, rfl⟩
    cases hx : (method c).exclusive <;> rfl
  | step write next ih =>
    have hstep : step method s (.access i) =
        some { s.goto i (.inside c (next s.value)) with value := write s.value } := by
      simp only [step, hpc]
    obtain ⟨as, t, r, hrun, has, htpc, hw, hr⟩ := ih s.value
      (s := { s.goto i (.inside c (next s.value)) with value := write s.value })
      (by simp)
    refine ⟨.access i :: as, t, r, Machine.run_cons_eq_some.mpr ⟨_, hstep, hrun⟩, ?_, ?_, ?_, ?_⟩
    · simpa using has
    · rw [htpc, State.goto_pc, Function.update_idem]
    · rw [hw]
      cases hx : (method c).exclusive <;> rfl
    · rw [hr]
      cases hx : (method c).exclusive <;> rfl

omit [DecidableEq ι] in
theorem exists_inside {p : Pc κ σ ρ} {x : Bool} (h : p.mode method = some x) :
    ∃ c rest, p = .inside c rest ∧ (method c).exclusive = x := by
  cases p with
  | inside c rest => exact ⟨c, rest, rfl, Option.some.inj h⟩
  | idle | waiting | finished => cases h

theorem locked_of_run {as : List (Action ι κ)} (hs : Locked method s)
    (hrun : Machine.run (step method) s as = some t) : Locked method t :=
  (Machine.always_of_invariant (fun hs ht => hs.step (taken_iff_step.mp ht)) hs as).last hrun

/-- The steps are accesses and releases of threads that hold the lock in `s`. -/
def ByHolders (method : κ → Method σ ρ) (s : State ι κ σ ρ) (as : List (Action ι κ)) : Prop :=
  ∀ a ∈ as, ∃ i, (s.pc i).mode method ≠ none ∧ (a = .access i ∨ a = .unlock i)

theorem drain_cons {i : ι} {x : Bool} (hi : (s.pc i).mode method = some x)
    (hrest : ∀ u : State ι κ σ ρ, u.writer = (s.release i x).writer →
      u.readers = (s.release i x).readers → Locked method u → ∃ as t,
        Machine.run (step method) u as = some t ∧ ByHolders method u as ∧
        t.writer = none ∧ t.readers = ∅ ∧ ∀ j, (u.pc j).mode method = none → t.pc j = u.pc j)
    (hs : Locked method s) :
    ∃ as t, Machine.run (step method) s as = some t ∧ ByHolders method s as ∧
      t.writer = none ∧ t.readers = ∅ ∧ ∀ j, (s.pc j).mode method = none → t.pc j = s.pc j := by
  obtain ⟨c, rest, hpc, rfl⟩ := exists_inside hi
  obtain ⟨as, u, r, hrun, has, hupc, hw, hr⟩ := finish method hpc
  obtain ⟨bs, t, hrun', hbs, htw, htr, htpc⟩ := hrest u hw hr (locked_of_run hs hrun)
  have hmode : ∀ j, (u.pc j).mode method ≠ none → (s.pc j).mode method ≠ none := by
    intro j hj
    by_cases hji : j = i
    · subst hji
      rw [hi]
      exact Option.some_ne_none _
    · rwa [hupc, Function.update_of_ne hji] at hj
  refine ⟨as ++ bs, t, Machine.run_append_eq_some.mpr ⟨u, hrun, hrun'⟩, fun a ha => ?_, htw, htr,
    fun j hj => ?_⟩
  · rcases List.mem_append.mp ha with ha | ha
    · exact ⟨i, by rw [hi]; exact Option.some_ne_none _, has a ha⟩
    · obtain ⟨k, hk, hak⟩ := hbs a ha
      exact ⟨k, hmode k hk, hak⟩
  · have hji : j ≠ i := by
      rintro rfl
      rw [hi] at hj
      cases hj
    have huj : u.pc j = s.pc j := by rw [hupc, Function.update_of_ne hji]
    rw [← huj]
    exact htpc j (by rw [huj, hj])

theorem drain_readers (n : ℕ) (hs : Locked method s) (hw : s.writer = none)
    (hn : s.readers.card = n) :
    ∃ as t, Machine.run (step method) s as = some t ∧ ByHolders method s as ∧
      t.writer = none ∧ t.readers = ∅ ∧ ∀ j, (s.pc j).mode method = none → t.pc j = s.pc j := by
  induction n generalizing s with
  | zero =>
    refine ⟨[], s, rfl, fun a ha => absurd ha List.not_mem_nil, hw, ?_, fun _ _ => rfl⟩
    exact Finset.card_eq_zero.mp hn
  | succ n ih =>
    obtain ⟨i, hi⟩ : s.readers.Nonempty := Finset.card_pos.mp (by omega)
    refine drain_cons ((hs.shared i).mp hi) (fun u huw hur hu => ih hu ?_ ?_) hs
    · exact huw.trans hw
    · have hcard : (s.readers.erase i).card = n := by
        rw [Finset.card_erase_of_mem hi]
        omega
      rw [hur]
      exact hcard

/-- Whoever holds the lock can release it without anybody else taking a step. -/
theorem drain (hs : Locked method s) :
    ∃ as t, Machine.run (step method) s as = some t ∧ ByHolders method s as ∧
      t.writer = none ∧ t.readers = ∅ ∧ ∀ j, (s.pc j).mode method = none → t.pc j = s.pc j := by
  cases hw : s.writer with
  | none => exact drain_readers _ hs hw rfl
  | some i =>
    have hr : s.readers = ∅ := hs.alone (by rw [hw]; exact Option.some_ne_none i)
    refine drain_cons ((hs.exclusive i).mp hw) (fun u huw hur hu => ?_) hs
    exact drain_readers _ hu huw rfl

theorem complete (hs : Locked method s) (i : ι) :
    ∃ as t, Machine.run (step method) s as = some t ∧ t.pc i = .idle := by
  have hfinished : ∀ {u : State ι κ σ ρ} {c r}, u.pc i = .finished c r →
      ∃ as t, Machine.run (step method) u as = some t ∧ t.pc i = .idle := by
    intro u c r hpc
    refine ⟨[.ret i], u.goto i .idle, (Machine.run_singleton _ _).trans ?_, by simp⟩
    simp only [step, hpc]
  have hinside : ∀ {u : State ι κ σ ρ} {c rest}, u.pc i = .inside c rest →
      ∃ as t, Machine.run (step method) u as = some t ∧ t.pc i = .idle := by
    intro u c rest hpc
    obtain ⟨as, w, r, hrun, -, hwpc, -⟩ := finish method hpc
    obtain ⟨bs, t, hrun', ht⟩ := hfinished (u := w) (by rw [hwpc, Function.update_self])
    exact ⟨as ++ bs, t, Machine.run_append_eq_some.mpr ⟨w, hrun, hrun'⟩, ht⟩
  cases hpc : s.pc i with
  | idle => exact ⟨[], s, rfl, hpc⟩
  | finished c r => exact hfinished hpc
  | inside c rest => exact hinside hpc
  | waiting c =>
    -- the holders leave, this thread is let in and goes on to the end
    obtain ⟨as, u, hrun, -, huw, hur, hupc⟩ := drain hs
    have hui : u.pc i = .waiting c := by rw [hupc i (by rw [hpc]; rfl), hpc]
    obtain ⟨w, hlock, hw⟩ : ∃ w, step method u (.lock i) = some w ∧
        w.pc i = .inside c (method c).body := by
      cases hx : (method c).exclusive with
      | true =>
        exact ⟨_, taken_iff_step.mpr (.lockExclusive hui hx huw hur), by simp⟩
      | false => exact ⟨_, taken_iff_step.mpr (.lockShared hui hx huw), by simp⟩
    obtain ⟨bs, t, hrun', ht⟩ := hinside hw
    exact ⟨as ++ .lock i :: bs, t, Machine.run_append_eq_some.mpr
      ⟨u, hrun, Machine.run_cons_eq_some.mpr ⟨w, hlock, hrun'⟩⟩, ht⟩

end

end ReadersWriter
