import CppMetrics.Concurrent.Shutdown
import CppMetrics.Core.ReporterLifecycle

/-! The end of a concrete reporter. Its owner destroys the derived part first, whose destructor is
empty, and only then the scheduled reporter, whose destructor stops the executor; the thread of
the executor calls `report(maps)` of the derived part. -/

namespace CppMetrics.ScheduledReporter

open SimpleScheduledThreadPoolExecutor

/-- The destructors that have run: none, that of `GraphiteReporter` or `ConsoleReporter`, that of
`ScheduledReporter`, that of its executor. -/
inductive Lifetime
  | alive
  | derivedDestroyed
  | baseDestroyed
  | executorDestroyed
  deriving DecidableEq

/-- Where the thread of the executor is in `report()`: outside, before the call of `report(maps)`,
or in that call. -/
inductive Reporting
  | outside
  | reading
  | derived
  deriving DecidableEq

structure ConcreteReporter where
  reporter : Reporter
  lifetime : Lifetime
  reporting : Reporting

namespace ConcreteReporter

inductive Action
  | start (period : ℤ)
  | stop
  | destroyDerived
  | destroyBase
  | destroyExecutor
  | executor (a : SimpleScheduledThreadPoolExecutor.Action Unit Unit Unit)
  | dispatch
  | returned

def init (clock : ℤ) : ConcreteReporter := ⟨.init clock, .alive, .outside⟩

def mayGoOn (s : ConcreteReporter) : SimpleScheduledThreadPoolExecutor.Action Unit Unit Unit → Bool
  | .work _ _ =>
    match s.reporter.executor.worker () with
    | .handling _ (.running _) => s.reporting = .outside
    | _ => true
  | _ => true

def afterwards (s : ConcreteReporter) :
    SimpleScheduledThreadPoolExecutor.Action Unit Unit Unit → Reporting
  | .work _ _ =>
    match s.reporter.executor.worker () with
    | .handling _ (.copied _) => .reading
    | _ => s.reporting
  | .unwind _ => .outside
  | _ => s.reporting

def step (s : ConcreteReporter) : Action → Option ConcreteReporter
  | .start period =>
    if s.lifetime = .alive then
      (s.reporter.step (.start period)).map fun x => { s with reporter := x }
    else none
  | .stop =>
    if s.lifetime = .alive then (s.reporter.step .stop).map fun x => { s with reporter := x }
    else none
  | .destroyDerived =>
    if s.lifetime = .alive ∧ s.reporter.betweenCalls then
      some { s with lifetime := .derivedDestroyed }
    else none
  | .destroyBase =>
    if s.lifetime = .derivedDestroyed then
      (s.reporter.step .stop).map fun x => { s with reporter := x, lifetime := .baseDestroyed }
    else none
  | .destroyExecutor =>
    if s.lifetime = .baseDestroyed ∧ s.reporter.betweenCalls then
      (s.reporter.executor.step false (.shutdown () true)).map fun x =>
        { s with reporter := { s.reporter with executor := x }, lifetime := .executorDestroyed }
    else none
  | .executor a =>
    if s.mayGoOn a then
      (s.reporter.step (.executor a)).map fun x =>
        { s with reporter := x, reporting := s.afterwards a }
    else none
  -- a virtual call, wherever it leads by now
  | .dispatch =>
    if s.reporting = .reading then some { s with reporting := .derived } else none
  | .returned =>
    if s.reporting = .derived then some { s with reporting := .outside } else none

inductive Taken (s : ConcreteReporter) : Action → ConcreteReporter → Prop
  | start {period : ℤ} {x : Reporter} (halive : s.lifetime = .alive)
      (hx : s.reporter.step (.start period) = some x) :
    Taken s (.start period) { s with reporter := x }
  | stop {x : Reporter} (hx : s.reporter.step .stop = some x) :
    Taken s .stop { s with reporter := x }
  | destroyDerived (halive : s.lifetime = .alive) (hbetween : s.reporter.betweenCalls) :
    Taken s .destroyDerived { s with lifetime := .derivedDestroyed }
  | destroyBase {x : Reporter} (hlife : s.lifetime = .derivedDestroyed)
      (hx : s.reporter.step .stop = some x) :
    Taken s .destroyBase { s with reporter := x, lifetime := .baseDestroyed }
  | destroyExecutor {x : Executor} (hlife : s.lifetime = .baseDestroyed)
      (hx : s.reporter.executor.step false (.shutdown () true) = some x) :
    Taken s .destroyExecutor
      { s with reporter := { s.reporter with executor := x }, lifetime := .executorDestroyed }
  | executor {a : SimpleScheduledThreadPoolExecutor.Action Unit Unit Unit} {x : Reporter}
      (hover : s.mayGoOn a) (hx : s.reporter.step (.executor a) = some x) :
    Taken s (.executor a) { s with reporter := x, reporting := s.afterwards a }
  | dispatch (hreading : s.reporting = .reading) :
    Taken s .dispatch { s with reporting := .derived }
  | returned : Taken s .returned { s with reporting := .outside }

theorem taken_of_step {s t : ConcreteReporter} {a : Action} (h : s.step a = some t) :
    s.Taken a t := by
  cases a with
  | start period =>
    simp only [step] at h
    split_ifs at h with halive
    obtain ⟨x, hx, rfl⟩ := Option.map_eq_some_iff.mp h
    exact .start halive hx
  | stop =>
    simp only [step] at h
    split_ifs at h with halive
    obtain ⟨x, hx, rfl⟩ := Option.map_eq_some_iff.mp h
    exact .stop hx
  | destroyDerived =>
    simp only [step] at h
    split_ifs at h with hlife
    cases h
    exact .destroyDerived hlife.1 hlife.2
  | destroyBase =>
    simp only [step] at h
    split_ifs at h with hlife
    obtain ⟨x, hx, rfl⟩ := Option.map_eq_some_iff.mp h
    exact .destroyBase hlife hx
  | destroyExecutor =>
    simp only [step] at h
    split_ifs at h with hlife
    obtain ⟨x, hx, rfl⟩ := Option.map_eq_some_iff.mp h
    exact .destroyExecutor hlife.1 hx
  | executor a =>
    simp only [step] at h
    split_ifs at h with hover
    obtain ⟨x, hx, rfl⟩ := Option.map_eq_some_iff.mp h
    exact .executor hover hx
  | dispatch =>
    simp only [step] at h
    split_ifs at h with hreading
    cases h
    exact .dispatch hreading
  | returned =>
    simp only [step] at h
    split_ifs at h with hderived
    cases h
    exact .returned

/-- The derived `report(maps)` is neither called nor running once the derived part is gone. -/
def Safe (s : ConcreteReporter) : Prop := s.lifetime ≠ .alive → s.reporting ≠ .derived

/-- Nothing was scheduled, or the executor has been shut down. -/
def Stopped (s : ConcreteReporter) : Prop :=
  s.reporter.executor.timerTasks = [] ∨ s.reporter.executor.running = false

/-- The owner destroys the reporter, being in no call of it, only when it is stopped. -/
def DestroyedStopped (s : ConcreteReporter) : Action → Prop
  | .destroyDerived => s.lifetime = .alive → s.reporter.betweenCalls → s.Stopped
  | _ => True

end ConcreteReporter

/-! ### The executor on its own -/

section

variable {x y : Executor} {a : SimpleScheduledThreadPoolExecutor.Action Unit Unit Unit}

def closing : ClientPc Unit → Bool
  | .locking | .cancelling _ | .stoppingService | .releasingWork _ | .interrupting | .joining =>
    true
  | _ => false

def Closed (x : Executor) : Prop :=
  x.running = false → x.worker () = .exited ∨ closing (x.client ())

/-- Nothing will ever start: there is no task and none is coming, or there is no thread. -/
def Quiet (x : Executor) : Prop :=
  x.timerTasks = [] ∧ (∀ e, x.client () ≠ .scheduling e) ∧
    (∀ e due, x.client () ≠ .constructed e due) ∨ x.worker () = .exited

theorem Closed.init (clock : ℤ) : Closed (State.init clock) := fun h => by cases h

theorem Closed.clientStep (h : Closed x) {c : Unit}
    (hstep : x.clientStep c (x.client c) = some y) : Closed y := by
  intro hrunning
  generalize hpc : x.client c = pc at hstep
  have hexited : x.running = false → closing pc = false → x.worker () = .exited := by
    intro hx hopen
    refine (h hx).resolve_right ?_
    rw [show x.client () = pc from hpc, hopen]
    exact Bool.false_ne_true
  cases State.clientTaken_of_step hstep with
  | construct | push | wait | proceed | giveUp => exact Or.inl (hexited hrunning rfl)
  | join hjoined => exact Or.inl (hjoined ())
  | @releaseWork stage workPtr next =>
    cases next <;> exact Or.inr (congrArg closing (State.setClient_self ..))
  | _ => exact Or.inr (congrArg closing (State.setClient_self ..))

theorem Closed.step (h : Closed x) (hstep : x.step false a = some y) : Closed y := by
  by_cases hclient : ∃ c, a = .client c
  · obtain ⟨c, rfl⟩ := hclient
    exact h.clientStep hstep
  cases ha : internal a with
  | true =>
    obtain ⟨hclient', hrunning, hexited⟩ := step_frame ha (fun c hc => hclient ⟨c, hc⟩) hstep
    intro hy
    exact (h (hrunning ▸ hy)).imp hexited fun hx => by rwa [hclient']
  | false =>
    have hidle : y.running = x.running ∧ y.worker = x.worker ∧ x.client () = .idle := by
      cases State.taken_of_step hstep with
      | schedule hc | shutdown hc => exact ⟨rfl, rfl, hc⟩
      | _ => cases ha
    obtain ⟨hrunning, hworker, hc⟩ := hidle
    intro hy
    left
    rw [hworker]
    exact (h (hrunning ▸ hy)).resolve_right (by rw [hc]; exact Bool.false_ne_true)

theorem exited_stays (hexited : x.worker () = .exited) (hstep : x.step false a = some y) :
    y.worker () = .exited := by
  cases State.taken_of_step hstep with
  | advance | schedule | shutdown => exact hexited
  | dispatch hw | work hw | unwind hw | exit hw => cases hw.symm.trans hexited
  | client ht =>
    rw [clientStep_worker ht]
    exact hexited

theorem running_of_step (hstep : x.step false a = some y) (hy : y.running) : x.running := by
  cases State.taken_of_step hstep with
  | work _ ht => rwa [(handlerStep_spec ht).1] at hy
  | @client c y ht =>
    generalize x.client c = pc at ht
    cases State.clientTaken_of_step ht with
    | clearNow | clear => cases hy
    | _ => exact hy
  | _ => exact hy

theorem opened_of_step {r r' : Reporter} {ra : ScheduledReporter.Action}
    (hstep : r.step ra = some r') (hr' : r'.executor.running) : r.executor.running := by
  cases Reporter.taken_of_step hstep with
  | started | stopped => exact hr'
  | schedule _ _ hx => exact running_of_step hx hr'
  | shutdown _ _ hx => exact running_of_step hx hr'
  | executor _ hx => exact running_of_step hx hr'

theorem Quiet.step (h : Quiet x) (ha : ∀ task period rate, a ≠ .schedule () task period rate)
    (hstep : x.step false a = some y) : Quiet y := by
  rcases h with ⟨htasks, hscheduling, hconstructed⟩ | hexited
  case inr => exact Or.inr (exited_stays hexited hstep)
  left
  have htasks' : y.timerTasks = [] := by
    rcases step_timerTasks hstep with heq | ⟨c, e, due, -, hc, -⟩
    · rw [heq, htasks]
    · exact absurd hc (hconstructed e due)
  refine ⟨htasks', ?_⟩
  by_cases hclient : ∃ c, a = .client c
  · obtain ⟨c, rfl⟩ := hclient
    simp only [State.step] at hstep
    generalize hpc : x.client c = pc at hstep
    cases State.clientTaken_of_step hstep with
    | construct => exact absurd hpc (hscheduling _)
    | push => exact absurd hpc (hconstructed _ _)
    | @releaseWork stage workPtr next =>
      rw [State.setClient_self]
      cases next <;> simp
    | _ =>
      rw [State.setClient_self]
      simp
  · cases State.taken_of_step hstep with
    | schedule => exact absurd rfl (ha _ _ _)
    | shutdown =>
      rw [State.setClient_self]
      simp
    | client => exact absurd ⟨_, rfl⟩ hclient
    | work _ ht =>
      rw [(handlerStep_spec ht).2.1]
      exact ⟨hscheduling, hconstructed⟩
    | _ => exact ⟨hscheduling, hconstructed⟩

end

/-! ### The reporter with its executor -/

namespace ConcreteReporter

structure Invariant (s : ConcreteReporter) : Prop where
  tasks : ∃ g, SimpleScheduledThreadPoolExecutor.Invariant g s.reporter.executor
  closed : Closed s.reporter.executor
  inside : s.reporting ≠ .outside → ∃ i e, s.reporter.executor.worker () = .handling i (.running e)
  destroyed : s.lifetime ≠ .alive → Quiet s.reporter.executor

theorem Invariant.init (clock : ℤ) : Invariant (init clock) where
  tasks := ⟨_, SimpleScheduledThreadPoolExecutor.Invariant.init clock⟩
  closed := Closed.init clock
  inside h := absurd rfl h
  destroyed h := absurd rfl h

variable {s t : ConcreteReporter} {a : Action} {x : Executor}

theorem Invariant.safe (h : Invariant s) : s.Safe := by
  intro hdestroyed hderived
  obtain ⟨i, e, hw⟩ := h.inside (by rw [hderived]; exact Reporting.noConfusion)
  rcases h.destroyed hdestroyed with ⟨htasks, -⟩ | hexited
  · obtain ⟨g, hg⟩ := h.tasks
    obtain ⟨e', he'⟩ := hg.registered (k := .worker ()) ⟨_, hw⟩
    rw [htasks] at he'
    cases he'
  · cases hexited.symm.trans hw

theorem Invariant.executor (h : Invariant s)
    {b : SimpleScheduledThreadPoolExecutor.Action Unit Unit Unit}
    (hstep : s.reporter.executor.step false b = some x)
    (hschedule : s.lifetime ≠ .alive → ∀ task period rate, b ≠ .schedule () task period rate)
    {running : Bool} {reporting : Reporting}
    (hinside : reporting ≠ .outside → ∃ i e, x.worker () = .handling i (.running e)) :
    Invariant ⟨⟨running, x⟩, s.lifetime, reporting⟩ where
  tasks := h.tasks.imp' _ fun _ hg => hg.step hstep
  closed := h.closed.step hstep
  inside := hinside
  destroyed hd := (h.destroyed hd).step (hschedule hd) hstep

theorem Invariant.call (h : Invariant s)
    {b : SimpleScheduledThreadPoolExecutor.Action Unit Unit Unit}
    (hstep : s.reporter.executor.step false b = some x)
    (hb : (∃ now, b = .shutdown () now) ∨
      s.lifetime = .alive ∧ ∃ task period rate, b = .schedule () task period rate)
    (running : Bool) : Invariant ⟨⟨running, x⟩, s.lifetime, s.reporting⟩ := by
  refine h.executor hstep (fun hd => ?_) fun hr => ?_
  · rintro task period rate rfl
    rcases hb with ⟨now, hb⟩ | ⟨halive, -⟩
    · cases hb
    · exact hd halive
  · have hworker : x.worker = s.reporter.executor.worker := by
      cases State.taken_of_step hstep with
      | schedule | shutdown => rfl
      | _ => rcases hb with ⟨_, hb⟩ | ⟨-, _, _, _, hb⟩ <;> cases hb
    rw [hworker]
    exact h.inside hr

theorem Invariant.later (h : Invariant s) (hd : s.lifetime ≠ .alive) (lifetime : Lifetime) :
    Invariant { s with lifetime := lifetime } :=
  ⟨h.tasks, h.closed, h.inside, fun _ => h.destroyed hd⟩

theorem Invariant.stop (h : Invariant s) {r : Reporter} (hstep : s.reporter.step .stop = some r) :
    Invariant { s with reporter := r } := by
  cases Reporter.taken_of_step hstep with
  | shutdown _ _ hx => exact h.call hx (Or.inl ⟨false, rfl⟩) false
  | stopped => exact h

theorem Invariant.internal (h : Invariant s)
    {b : SimpleScheduledThreadPoolExecutor.Action Unit Unit Unit}
    (hb : ScheduledReporter.internal b) (hover : s.mayGoOn b)
    (hstep : s.reporter.executor.step false b = some x) :
    Invariant ⟨⟨s.reporter.running, x⟩, s.lifetime, s.afterwards b⟩ := by
  refine h.executor hstep (fun _ task period rate heq => by cases heq ▸ hb) fun hr => ?_
  cases State.taken_of_step hstep with
  | advance => exact h.inside hr
  | dispatch hw =>
    obtain ⟨i, e, hw'⟩ := h.inside hr
    cases hw.symm.trans hw'
  | exit hw =>
    obtain ⟨i, e, hw'⟩ := h.inside hr
    cases hw.symm.trans hw'
  | unwind => exact absurd rfl hr
  | schedule | shutdown => cases hb
  | client ht =>
    rw [clientStep_worker ht]
    exact h.inside hr
  | @work w eec i pc x hw ht =>
    simp only [afterwards, show s.reporter.executor.worker () = _ from hw] at hr
    simp only [mayGoOn, show s.reporter.executor.worker () = _ from hw] at hover
    cases pc with
    | copied e =>
      cases ht
      exact ⟨i, e, State.setWorker_self ..⟩
    | running e => exact absurd (of_decide_eq_true hover) hr
    | _ =>
      obtain ⟨i', e', hw'⟩ := h.inside hr
      cases hw'.symm.trans hw

theorem Invariant.step (h : Invariant s) (ha : s.DestroyedStopped a)
    (hstep : s.step a = some t) : Invariant t := by
  cases taken_of_step hstep with
  | start halive hr =>
    cases Reporter.taken_of_step hr with
    | schedule _ _ hx => exact h.call hx (Or.inr ⟨halive, _, _, _, rfl⟩) true
    | started => exact h
  | stop hr => exact h.stop hr
  | destroyDerived halive hbetween =>
    refine ⟨h.tasks, h.closed, h.inside, fun _ => ?_⟩
    have hidle := betweenCalls_iff.mp hbetween
    rcases ha halive hbetween with htasks | hrunning
    · exact Or.inl ⟨htasks, by simp [hidle], by simp [hidle]⟩
    · -- the owner is in no call, so the one that closed the executor has returned
      refine Or.inr ((h.closed hrunning).resolve_right ?_)
      rw [hidle]
      exact Bool.false_ne_true
  | destroyBase hlife hr => exact (h.stop hr).later (by simp [hlife]) .baseDestroyed
  | destroyExecutor hlife hx =>
    have hcall := h.call hx (Or.inl ⟨true, rfl⟩) s.reporter.running
    exact hcall.later (by simp [hlife]) .executorDestroyed
  | executor hover hr =>
    cases Reporter.taken_of_step hr with
    | executor hb hx => exact h.internal hb hover hx
  | dispatch hreading =>
    refine ⟨h.tasks, h.closed, fun _ => h.inside ?_, h.destroyed⟩
    rw [hreading]
    exact Reporting.noConfusion
  | returned => exact ⟨h.tasks, h.closed, fun hr => absurd rfl hr, h.destroyed⟩

/-! ### Destroyed too early -/

def CanCall (s : ConcreteReporter) : Prop := ∃ as t, Machine.run step s as = some t ∧ ¬t.Safe

theorem canCall_of_step (h : s.step a = some t) (ht : t.CanCall) : s.CanCall := by
  obtain ⟨as, u, hrun, hu⟩ := ht
  exact ⟨a :: as, u, Machine.run_cons_eq_some.mpr ⟨t, h, hrun⟩, hu⟩

def lost (x : Executor) : ConcreteReporter := ⟨⟨true, x⟩, .derivedDestroyed, .outside⟩

theorem lost_mayGoOn (x : Executor) (b : SimpleScheduledThreadPoolExecutor.Action Unit Unit Unit) :
    (lost x).mayGoOn b = true := by
  unfold mayGoOn
  split
  · split <;> rfl
  · rfl

theorem lost_afterwards (hcopied : ∀ i e, x.worker () ≠ .handling i (.copied e))
    (b : SimpleScheduledThreadPoolExecutor.Action Unit Unit Unit) :
    (lost x).afterwards b = .outside := by
  unfold afterwards
  split
  · split
    · next hw => exact absurd hw (hcopied _ _)
    · rfl
  · rfl
  · rfl

theorem lost_step {y : Executor} {b : SimpleScheduledThreadPoolExecutor.Action Unit Unit Unit}
    (h : (⟨true, x⟩ : Reporter).step (.executor b) = some ⟨true, y⟩) :
    (lost x).step (.executor b) = some { lost y with reporting := (lost x).afterwards b } := by
  show (if (lost x).mayGoOn b then
    Option.map _ ((⟨true, x⟩ : Reporter).step (.executor b)) else none) = _
  rw [if_pos (lost_mayGoOn x b), h]
  rfl

theorem canCall_inside {r : Reporter} {reporting : Reporting} (hr : reporting ≠ .outside) :
    (⟨r, .derivedDestroyed, reporting⟩ : ConcreteReporter).CanCall := by
  cases reporting with
  | outside => exact absurd rfl hr
  | reading => exact ⟨[.dispatch], _, rfl, fun h => h Lifetime.noConfusion rfl⟩
  | derived => exact ⟨[], _, rfl, fun h => h Lifetime.noConfusion rfl⟩

theorem canCall_of_phase {r : Reporter} (hs : Phase r) (hbetween : r.betweenCalls)
    (hrunning : r.executor.running) (htasks : r.executor.timerTasks ≠ []) (reporting : Reporting) :
    (⟨r, .derivedDestroyed, reporting⟩ : ConcreteReporter).CanCall := by
  by_cases hr : reporting = .outside
  case neg => exact canCall_inside hr
  cases hr
  obtain ⟨hwaiting, hhandling⟩ := opened_backwards (P := fun x => (lost x).CanCall)
    (fun {x y b} hcopied hstep hy => by
      have hnext := lost_step hstep
      rw [lost_afterwards hcopied] at hnext
      exact canCall_of_step hnext hy)
    fun clock expiry e => canCall_of_step (lost_step (step_work rfl))
      (canCall_inside Reporting.noConfusion)
  cases hs with
  | fresh => exact absurd rfl htasks
  | scheduling | constructed | pushed => cases hbetween
  | stopping x hx => cases (hx.busy false).symm.trans hbetween
  | stopped x hclosed => cases hclosed.symm.trans hrunning
  | waiting clock expiry e => exact hwaiting clock expiry e
  | handling clock expiry e pc hpc => exact hhandling clock expiry e pc hpc

theorem step_lifetime (hstep : s.step a = some t) : t.lifetime ≠ .alive ∨
    t.lifetime = s.lifetime ∧ a ≠ .destroyDerived ∧
      (t.reporter = s.reporter ∨ ∃ ra, s.reporter.step ra = some t.reporter) := by
  cases taken_of_step hstep with
  | start _ hx => exact Or.inr ⟨rfl, Action.noConfusion, Or.inr ⟨_, hx⟩⟩
  | stop hx => exact Or.inr ⟨rfl, Action.noConfusion, Or.inr ⟨_, hx⟩⟩
  | executor _ hx => exact Or.inr ⟨rfl, Action.noConfusion, Or.inr ⟨_, hx⟩⟩
  | destroyDerived | destroyBase | destroyExecutor => exact Or.inl Lifetime.noConfusion
  | dispatch | returned => exact Or.inr ⟨rfl, Action.noConfusion, Or.inl rfl⟩

def OpenPhase (s : ConcreteReporter) : Prop :=
  s.lifetime = .alive → s.reporter.executor.running → Phase s.reporter

theorem OpenPhase.step (h : OpenPhase s) (hstep : s.step a = some t) : OpenPhase t := by
  intro halive hrunning
  rcases step_lifetime hstep with hdead | ⟨hlife, -, heq | ⟨ra, hr⟩⟩
  · exact absurd halive hdead
  · rw [heq] at hrunning ⊢
    exact h (hlife.symm.trans halive) hrunning
  · have hopen : s.reporter.executor.running := opened_of_step hr hrunning
    refine (h (hlife.symm.trans halive) hopen).step ?_ hr
    cases ra with
    | start => exact fun _ _ => hopen
    | _ => trivial

theorem alive_of_step (hstep : s.step a = some t) (ht : t.lifetime = .alive) :
    s.lifetime = .alive ∧ a ≠ .destroyDerived := by
  rcases step_lifetime hstep with hdead | ⟨hlife, hne, -⟩
  · exact absurd ht hdead
  · exact ⟨hlife.symm.trans ht, hne⟩

theorem alive_run {clock : ℤ} {actions : List Action}
    (hrun : Machine.run step (init clock) actions = some s) (halive : s.lifetime = .alive) :
    Invariant s ∧ OpenPhase s := by
  have hinvariant := Machine.run_invariant_along
    (P := fun s => (s.lifetime = .alive → Invariant s) ∧ OpenPhase s) (C := fun _ _ => True)
    (fun {u a v} hu _ hstep => ⟨fun hv => ?_, hu.2.step hstep⟩)
    ⟨fun _ => Invariant.init clock, fun _ _ => Phase.init clock⟩
    (Machine.along_of_forall fun _ _ _ => trivial) hrun
  · exact ⟨hinvariant.1 halive, hinvariant.2⟩
  · obtain ⟨hu', hne⟩ := alive_of_step hstep hv
    refine (hu.1 hu').step ?_ hstep
    cases a with
    | destroyDerived => exact absurd rfl hne
    | _ => trivial

theorem Invariant.safe_after (h : Invariant s) (hdestroyed : s.lifetime ≠ .alive)
    (after : List Action) :
    Machine.Always ConcreteReporter.step Safe s after := by
  refine (Machine.always_of_invariant (P := fun s => Invariant s ∧ s.lifetime ≠ .alive)
    (fun {u a v} hu hstep => ⟨hu.1.step ?_ hstep, fun hv => ?_⟩) ⟨h, hdestroyed⟩ after).imp
    fun _ hs => hs.1.safe
  · cases a with
    | destroyDerived => exact fun halive => absurd halive hu.2
    | _ => trivial
  · exact hu.2 (alive_of_step hstep hv).1

/-- A run in which the derived part is destroyed only when nothing was scheduled, or the executor
has been shut down, is safe. In any other state that a run reaches between two calls of the owner,
destroying it lets the thread call it afterwards. -/
theorem derived_report_safe (clock : ℤ) (actions : List Action) :
    (Machine.Along step DestroyedStopped (init clock) actions →
      Machine.Always step Safe (init clock) actions) ∧
    ∀ s, Machine.run step (init clock) actions = some s → s.lifetime = .alive →
      s.reporter.betweenCalls →
      ((∀ after, Machine.Always step Safe s (.destroyDerived :: after)) ↔ s.Stopped) := by
  constructor
  · intro hC
    exact (Machine.always_of_along (P := Invariant) (fun hs ha hstep => hs.step ha hstep)
      (Invariant.init clock) hC).imp fun s hs => hs.safe
  · intro s hrun halive hbetween
    obtain ⟨hinvariant, hphase⟩ := alive_run hrun halive
    have hstep : s.step .destroyDerived = some { s with lifetime := .derivedDestroyed } := by
      simp only [ConcreteReporter.step]
      rw [if_pos ⟨halive, hbetween⟩]
    constructor
    · intro hsafe
      by_contra hopen
      obtain ⟨htasks, hrunning⟩ := not_or.mp hopen
      rw [Bool.not_eq_false] at hrunning
      obtain ⟨as, t, ht, hunsafe⟩ := canCall_of_phase (hphase halive hrunning) hbetween hrunning
        htasks s.reporting
      exact hunsafe (((Machine.always_cons hstep).mp (hsafe as)).2.last ht)
    · intro hstopped after
      refine (Machine.always_cons hstep).mpr ⟨hinvariant.safe, ?_⟩
      have hnext := hinvariant.step (a := .destroyDerived) (fun _ _ => hstopped) hstep
      exact hnext.safe_after Lifetime.noConfusion after

def startedOnce : List Action :=
  .start 5 :: List.replicate 3 (.executor (.client ()))

def stoppedFirst : List Action :=
  List.flatten [startedOnce, [.stop], List.replicate 6 (.executor (.client ())),
    [.executor (.advance 5), .executor (.dispatch () 0 false), .executor (.work () false),
      .executor (.exit ()), .executor (.client ())]]

theorem derived_report_safe_stoppedFirst :
    Machine.Always step Safe (init 0) (stoppedFirst ++ [.destroyDerived]) ∧
      ∃ s, Machine.run step (init 0) stoppedFirst = some s ∧
        ∀ after, Machine.Always step Safe s (.destroyDerived :: after) := by
  have hrun : (Machine.run step (init 0) stoppedFirst).map
      (fun s => (s.reporter.executor.running, s.reporter.betweenCalls, s.lifetime)) =
        some (false, true, .alive) := by decide +kernel
  obtain ⟨s, hs, hend⟩ := Option.map_eq_some_iff.mp hrun
  simp only [Prod.mk.injEq] at hend
  obtain ⟨hclosed, hbetween, halive⟩ := hend
  constructor
  · refine (derived_report_safe 0 _).1 (Machine.along_concat ?_ fun t ht _ _ => Or.inr ?_)
    · refine Machine.along_of_forall fun a ha s => ?_
      cases a with
      | destroyDerived => simp [stoppedFirst, startedOnce] at ha
      | _ => trivial
    · cases hs.symm.trans ht
      exact hclosed
  · have hsafe := (derived_report_safe 0 stoppedFirst).2 s hs halive hbetween
    exact ⟨s, hs, hsafe.mpr (Or.inr hclosed)⟩

/-- As the tests of the reporters do: started, and destroyed without a call of `stop`. -/
def neverStopped : List Action :=
  List.flatten [startedOnce, [.destroyDerived, .executor (.advance 5),
    .executor (.dispatch () 0 false)], List.replicate 3 (.executor (.work () false)), [.dispatch]]

theorem called_after_destruction :
    ¬∀ actions, Machine.Always step Safe (init 0) actions := by
  intro h
  have hrun : (Machine.run step (init 0) neverStopped).map (fun s => (s.lifetime, s.reporting)) =
      some (.derivedDestroyed, .derived) := by decide +kernel
  obtain ⟨s, hs, hend⟩ := Option.map_eq_some_iff.mp hrun
  obtain ⟨hlifetime, hreporting⟩ := Prod.mk.inj hend
  exact (h neverStopped).last hs (by rw [hlifetime]; exact Lifetime.noConfusion) hreporting

end ConcreteReporter

end CppMetrics.ScheduledReporter
