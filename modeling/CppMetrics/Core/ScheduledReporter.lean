import CppMetrics.Concurrent.SimpleScheduledThreadPoolExecutor

/-! The scheduled reporter: a flag and an executor with one thread, whose only task is `report`. One
caller starts and stops it, as often and in whatever order; between two calls, and during each of
them, the executor goes on. -/

namespace CppMetrics

namespace ScheduledReporter

abbrev Executor := SimpleScheduledThreadPoolExecutor.State Unit Unit Unit

structure Reporter where
  running : Bool
  executor : Executor

inductive Action
  | start (period : ℤ)
  | stop
  | executor (a : SimpleScheduledThreadPoolExecutor.Action Unit Unit Unit)

/-- The executor is private to the reporter: nobody else schedules on it or shuts it down. -/
def internal : SimpleScheduledThreadPoolExecutor.Action Unit Unit Unit → Bool
  | .schedule .. | .shutdown .. => false
  | _ => true

namespace Reporter

def init (clock : ℤ) : Reporter := ⟨false, .init clock⟩

def betweenCalls (s : Reporter) : Bool := s.executor.client () matches .idle

/-- The first step of a call; the executor's steps for the caller are the rest of it. -/
def step (s : Reporter) : Action → Option Reporter
  | .start period =>
    if !s.betweenCalls then none
    else if !s.running then
      (s.executor.step false (.schedule () () period false)).map fun x => ⟨true, x⟩
    else some s
  | .stop =>
    if !s.betweenCalls then none
    else if s.running then (s.executor.step false (.shutdown () false)).map fun x => ⟨false, x⟩
    else some s
  | .executor a =>
    if internal a then (s.executor.step false a).map fun x => { s with executor := x } else none

inductive Taken (s : Reporter) : Action → Reporter → Prop
  | schedule {period : ℤ} {x : Executor} (hbetween : s.betweenCalls) (hrunning : s.running = false)
      (hx : s.executor.step false (.schedule () () period false) = some x) :
    Taken s (.start period) ⟨true, x⟩
  | started {period : ℤ} (hrunning : s.running) : Taken s (.start period) s
  | shutdown {x : Executor} (hbetween : s.betweenCalls) (hrunning : s.running)
      (hx : s.executor.step false (.shutdown () false) = some x) : Taken s .stop ⟨false, x⟩
  | stopped (hrunning : s.running = false) : Taken s .stop s
  | executor {a : SimpleScheduledThreadPoolExecutor.Action Unit Unit Unit} {x : Executor}
      (ha : internal a) (hx : s.executor.step false a = some x) :
    Taken s (.executor a) { s with executor := x }

theorem taken_of_step {s t : Reporter} {a : Action} (h : s.step a = some t) : s.Taken a t := by
  cases a with
  | start period =>
    simp only [step] at h
    split_ifs at h with hbetween hrunning
    · obtain ⟨x, hx, rfl⟩ := Option.map_eq_some_iff.mp h
      exact .schedule (by simpa using hbetween) (by simpa using hrunning) hx
    · cases h
      exact .started (by simpa using hrunning)
  | stop =>
    simp only [step] at h
    split_ifs at h with hbetween hrunning
    · obtain ⟨x, hx, rfl⟩ := Option.map_eq_some_iff.mp h
      exact .shutdown (by simpa using hbetween) hrunning hx
    · cases h
      exact .stopped (Bool.eq_false_iff.mpr hrunning)
  | executor a =>
    simp only [step] at h
    split_ifs at h with ha
    obtain ⟨x, hx, rfl⟩ := Option.map_eq_some_iff.mp h
    exact .executor ha hx

def Reports (s : Reporter) : Prop := ∃ i e, s.executor.worker () = .handling i (.copied e)

def CanReport (s : Reporter) : Prop :=
  ∃ as t, Machine.run step s (List.map Action.executor as) = some t ∧ t.Reports

def Live (x : Executor) (i : ℕ) : Prop :=
  ⟨i, false⟩ ∈ x.waits ∨ ∃ pc, x.worker () = .handling i pc ∧ ∀ ec, pc = .entered ec → ec = false

/-- What `running_` says: in every state that the executor is open, and between two calls also that
one task is live and whether reports will come. -/
structure Scheduled (s : Reporter) : Prop where
  opened : s.running → s.executor.running ∧ s.executor.worker () ≠ .exited
  live : s.betweenCalls → s.running → ∃! i, Live s.executor i
  reports : s.betweenCalls → (s.running ↔ s.CanReport)

/-- A call of `start` that sets the flag finds the executor running. -/
def StartsOpen (s : Reporter) : Action → Prop
  | .start _ => s.betweenCalls → s.running = false → s.executor.running
  | _ => True

end Reporter

end ScheduledReporter

end CppMetrics
