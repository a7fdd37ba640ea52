import CppMetrics.Core.ScheduledReporter

/-! The life of a reporter: never started, starting, waiting for its timer or in its handler,
stopping, stopped. The executor never opens again. -/

namespace CppMetrics.ScheduledReporter

open SimpleScheduledThreadPoolExecutor

/-! ### Phases -/

def opened (clock : ℤ) (expiry : ℕ → ℤ) (timerTasks : List (TimerTask Unit)) (waits : List Wait)
    (w : WorkerPc Unit) (c : ClientPc Unit) : Executor where
  clock := clock
  running := true
  workPtr := .new
  stopped := false
  interrupted := false
  locked := false
  timerTasks := timerTasks
  expiry := expiry
  waits := waits
  worker _ := w
  client _ := c

def Runs (e : TimerTask Unit) : HandlerPc Unit → Prop
  | .entered ec => ec = false
  | .checked => True
  | .copied e' | .running e' | .ran e' | .rearmed e' => e' = e

inductive Leaving (x : Executor) : Prop
  | leaving (hrunning : x.running) (hc : x.client () = .leaving false)
  | clearing (hc : x.client () = .clearing false)
  | releasingWork (hrunning : x.running = false) {stage : ScopedPtr.Stage}
      (hc : x.client () = .releasingWork stage)
  | interrupting (hrunning : x.running = false) (hc : x.client () = .interrupting)
  | joining (hrunning : x.running = false) (hc : x.client () = .joining)

inductive Phase : Reporter → Prop
  | fresh (clock : ℤ) (expiry : ℕ → ℤ) : Phase ⟨false, opened clock expiry [] [] .idle .idle⟩
  | scheduling (clock : ℤ) (expiry : ℕ → ℤ) (e : TimerTask Unit) :
    Phase ⟨true, opened clock expiry [] [] .idle (.scheduling e)⟩
  | constructed (clock : ℤ) (expiry : ℕ → ℤ) (e : TimerTask Unit) (due : ℤ) :
    Phase ⟨true, opened clock expiry [] [] .idle (.constructed e due)⟩
  | pushed (clock : ℤ) (expiry : ℕ → ℤ) (e : TimerTask Unit) :
    Phase ⟨true, opened clock expiry [e] [] .idle (.pushed 0)⟩
  | waiting (clock : ℤ) (expiry : ℕ → ℤ) (e : TimerTask Unit) :
    Phase ⟨true, opened clock expiry [e] [⟨0, false⟩] .idle .idle⟩
  | handling (clock : ℤ) (expiry : ℕ → ℤ) (e : TimerTask Unit) (pc : HandlerPc Unit)
      (hpc : Runs e pc) : Phase ⟨true, opened clock expiry [e] [] (.handling 0 pc) .idle⟩
  | stopping (x : Executor) (h : Leaving x) : Phase ⟨false, x⟩
  | stopped (x : Executor) (hrunning : x.running = false) (hc : x.client () = .idle)
      (hw : x.worker () = .exited) : Phase ⟨false, x⟩

theorem Phase.init (clock : ℤ) : Phase (.init clock) := .fresh _ _

/-! ### What the executor does by itself -/

variable {clock : ℤ} {expiry : ℕ → ℤ} {timerTasks : List (TimerTask Unit)} {waits : List Wait}
variable {w w' : WorkerPc Unit} {c c' : ClientPc Unit} {e : TimerTask Unit} {x y : Executor}
variable {a : SimpleScheduledThreadPoolExecutor.Action Unit Unit Unit}

theorem opened_setWorker : (opened clock expiry timerTasks waits w c).setWorker () w' =
    opened clock expiry timerTasks waits w' c := by
  rw [State.setWorker, opened, opened, State.mk.injEq]
  exact ⟨rfl, rfl, rfl, rfl, rfl, rfl, rfl, rfl, rfl, funext fun _ => Function.update_self .., rfl⟩

theorem opened_setClient : (opened clock expiry timerTasks waits w c).setClient () c' =
    opened clock expiry timerTasks waits w c' := by
  rw [State.setClient, opened, opened, State.mk.injEq]
  exact ⟨rfl, rfl, rfl, rfl, rfl, rfl, rfl, rfl, rfl, rfl, funext fun _ => Function.update_self ..⟩

theorem opened_step (ha : internal a)
    (h : (opened clock expiry timerTasks waits w c).step false a = some y) :
    (∃ now, y = opened now expiry timerTasks waits w c) ∨
    (∃ n x ec, w = .idle ∧ waits[n]? = some x ∧ (ec = true → x.aborted = true) ∧
      y = opened clock expiry timerTasks (waits.eraseIdx n) (.handling x.index (.entered ec)) c) ∨
    (∃ i pc eec, w = .handling i pc ∧
      (opened clock expiry timerTasks waits w c).handlerStep () eec i pc = some y) ∨
    (opened clock expiry timerTasks waits w c).clientStep () c = some y := by
  cases State.taken_of_step h with
  | @advance now => exact Or.inl ⟨now, rfl⟩
  | @dispatch w n ec x hw hx hec =>
    refine Or.inr (Or.inl ⟨n, x, ec, hw, hx, ?_, opened_setWorker⟩)
    rintro rfl
    simpa using (Bool.and_eq_true_iff.mp hec).2
  | work hw ht => exact Or.inr (Or.inr (Or.inl ⟨_, _, _, hw, ht⟩))
  -- nobody was interrupted, and there is work
  | unwind _ hinterrupted => cases hinterrupted
  | exit _ hreturns => cases hreturns
  | schedule => cases ha
  | shutdown => cases ha
  | client ht => exact Or.inr (Or.inr (Or.inr ht))

theorem opened_step_quiet (ha : internal a)
    (h : (opened clock expiry timerTasks [] .idle c).step false a = some y) :
    (∃ now, y = opened now expiry timerTasks [] .idle c) ∨
      (opened clock expiry timerTasks [] .idle c).clientStep () c = some y := by
  rcases opened_step ha h with hadvance | ⟨n, _, _, -, hx, -⟩ | ⟨_, _, _, hw, -⟩ | hclient
  · exact Or.inl hadvance
  · cases hx
  · cases hw
  · exact Or.inr hclient

theorem step_frame (ha : internal a) (hclient : ∀ c, a ≠ .client c)
    (h : x.step false a = some y) :
    y.client = x.client ∧ y.running = x.running ∧
      (x.worker () = .exited → y.worker () = .exited) := by
  cases State.taken_of_step h with
  | @work w eec i pc y hw ht =>
    have hne : x.worker () ≠ .exited := by
      rw [hw]
      simp
    cases State.handlerTaken_of_step ht <;> exact ⟨rfl, rfl, fun hx => absurd hx hne⟩
  | advance => exact ⟨rfl, rfl, id⟩
  | dispatch hw => exact ⟨rfl, rfl, fun hx => by cases hw.symm.trans hx⟩
  | unwind => exact ⟨rfl, rfl, fun _ => State.setWorker_self ..⟩
  | exit => exact ⟨rfl, rfl, fun _ => State.setWorker_self ..⟩
  | schedule => cases ha
  | shutdown => cases ha
  | client => exact absurd rfl (hclient _)

theorem opened_handler {pc : HandlerPc Unit} {eec : Bool} (hpc : Runs e pc)
    (h : (opened clock expiry [e] [] (.handling 0 pc) .idle).handlerStep () eec 0 pc = some y) :
    Phase ⟨true, y⟩ := by
  cases pc with
  | entered ec =>
    cases hpc
    cases h
    rw [opened_setWorker]
    exact .handling clock expiry e .checked trivial
  | checked =>
    cases h
    rw [opened_setWorker]
    exact .handling clock expiry e (.copied e) rfl
  | copied e' =>
    cases hpc
    cases h
    rw [opened_setWorker]
    exact .handling clock expiry e (.running e) rfl
  | running e' =>
    cases hpc
    cases h
    rw [opened_setWorker]
    exact .handling clock expiry e (.ran e) rfl
  | ran e' =>
    cases hpc
    cases h
    cases eec with
    | true =>
      simp only [if_true, opened_setWorker]
      exact .handling clock expiry e (.rearmed e) rfl
    | false =>
      show Phase ⟨true, (opened clock (Function.update expiry 0 _) [e] [] _ .idle).setWorker () _⟩
      rw [opened_setWorker]
      exact .handling clock _ e (.rearmed e) rfl
  | rearmed e' =>
    cases h
    show Phase ⟨true, (opened clock expiry [e] [⟨0, false⟩] _ .idle).setWorker () .idle⟩
    rw [opened_setWorker]
    exact .waiting clock expiry e

theorem Leaving.step (hx : Leaving x) (ha : internal a) (h : x.step false a = some y) :
    Phase ⟨false, y⟩ := by
  by_cases hclient : ∃ c, a = .client c
  · obtain ⟨c, rfl⟩ := hclient
    simp only [State.step] at h
    have hstep := State.clientTaken_of_step h
    cases hx with
    | leaving hrunning hc =>
      rw [hc] at hstep
      cases hstep with
      | proceed => exact .stopping _ (.clearing (State.setClient_self ..))
      | giveUp hclosed => cases hclosed.symm.trans hrunning
    | clearing hc =>
      rw [hc] at hstep
      cases hstep
      exact .stopping _ (.releasingWork rfl (State.setClient_self ..))
    | releasingWork hrunning hc =>
      rw [hc] at hstep
      cases hstep with
      | @releaseWork _ _ next =>
        cases next with
        | none => exact .stopping _ (.interrupting hrunning (State.setClient_self ..))
        | some next => exact .stopping _ (.releasingWork hrunning (State.setClient_self ..))
    | interrupting hrunning hc =>
      rw [hc] at hstep
      cases hstep
      exact .stopping _ (.joining hrunning (State.setClient_self ..))
    | joining hrunning hc =>
      rw [hc] at hstep
      cases hstep with
      | join hexited => exact .stopped _ hrunning (State.setClient_self ..) (hexited ())
  · obtain ⟨hc', hrunning', -⟩ := step_frame ha (fun c hc => hclient ⟨c, hc⟩) h
    refine .stopping y ?_
    cases hx with
    | leaving hrunning hc => exact .leaving (hrunning' ▸ hrunning) (by rw [hc', hc])
    | clearing hc => exact .clearing (by rw [hc', hc])
    | releasingWork hrunning hc => exact .releasingWork (hrunning' ▸ hrunning) (by rw [hc', hc])
    | interrupting hrunning hc => exact .interrupting (hrunning' ▸ hrunning) (by rw [hc', hc])
    | joining hrunning hc => exact .joining (hrunning' ▸ hrunning) (by rw [hc', hc])

theorem Phase.executor {s : Reporter} (hs : Phase s) (ha : internal a)
    (h : s.executor.step false a = some y) : Phase ⟨s.running, y⟩ := by
  cases hs with
  | fresh clock expiry =>
    rcases opened_step_quiet ha h with ⟨now, rfl⟩ | hclient
    · exact .fresh now expiry
    · cases hclient
  | scheduling clock expiry e =>
    rcases opened_step_quiet ha h with ⟨now, rfl⟩ | hclient
    · exact .scheduling now expiry e
    · cases hclient
      rw [opened_setClient]
      exact .constructed clock expiry e _
  | constructed clock expiry e due =>
    rcases opened_step_quiet ha h with ⟨now, rfl⟩ | hclient
    · exact .constructed now expiry e due
    · cases hclient
      show Phase
        ⟨true, (opened clock (Function.update expiry 0 due) [e] [] .idle _).setClient () _⟩
      rw [opened_setClient]
      exact .pushed clock _ e
  | pushed clock expiry e =>
    rcases opened_step_quiet ha h with ⟨now, rfl⟩ | hclient
    · exact .pushed now expiry e
    · cases hclient
      show Phase ⟨true, (opened clock expiry [e] [⟨0, false⟩] .idle _).setClient () .idle⟩
      rw [opened_setClient]
      exact .waiting clock expiry e
  | waiting clock expiry e =>
    rcases opened_step ha h with ⟨now, rfl⟩ | ⟨n, x, ec, -, hx, hec, rfl⟩ | ⟨_, _, _, hw, -⟩ |
      hclient
    · exact .waiting now expiry e
    · cases n with
      | zero =>
        -- nobody cancelled the timer, so its wait completes without an error
        cases hx
        cases ec with
        | true => cases hec rfl
        | false => exact .handling clock expiry e (.entered false) rfl
      | succ n => cases hx
    · cases hw
    · cases hclient
  | handling clock expiry e pc hpc =>
    rcases opened_step ha h with ⟨now, rfl⟩ | ⟨_, _, _, hw, -⟩ | ⟨_, _, _, hw, hhandler⟩ | hclient
    · exact .handling now expiry e pc hpc
    · cases hw
    · cases hw
      exact opened_handler hpc hhandler
    · cases hclient
  | stopping x hx => exact hx.step ha h
  | stopped x hrunning hc hw =>
    by_cases hclient : ∃ c, a = .client c
    · obtain ⟨c, rfl⟩ := hclient
      simp only [State.step, hc] at h
      cases h
    · obtain ⟨hc', hrunning', hw'⟩ := step_frame ha (fun c hc => hclient ⟨c, hc⟩) h
      exact .stopped y (hrunning'.trans hrunning) (by rw [hc', hc]) (hw' hw)

theorem betweenCalls_iff {s : Reporter} : s.betweenCalls ↔ s.executor.client () = .idle := by
  rw [Reporter.betweenCalls]
  cases s.executor.client () <;> simp

theorem Leaving.busy (hx : Leaving x) (running : Bool) :
    (⟨running, x⟩ : Reporter).betweenCalls = false := by
  cases hx <;> simp [Reporter.betweenCalls, *]

theorem Phase.step {s t : Reporter} {a : Action} (hs : Phase s)
    (ha : s.StartsOpen a) (h : s.step a = some t) : Phase t := by
  cases Reporter.taken_of_step h with
  | executor hinternal hy => exact hs.executor hinternal hy
  | started => exact hs
  | stopped => exact hs
  | schedule hbetween hrunning hy =>
    cases hs with
    | fresh clock expiry =>
      cases hy
      rw [opened_setClient]
      exact .scheduling clock expiry _
    | stopping x hx =>
      rw [hx.busy] at hbetween
      cases hbetween
    | stopped x hclosed hc =>
      cases hclosed.symm.trans (ha (betweenCalls_iff.mpr hc) rfl)
    | _ => cases hrunning
  | shutdown hbetween hrunning hy =>
    cases hs with
    | scheduling | constructed | pushed => cases hy
    | waiting clock expiry e =>
      cases hy
      exact .stopping _ (.leaving rfl (State.setClient_self ..))
    | handling clock expiry e pc hpc =>
      cases hy
      exact .stopping _ (.leaving rfl (State.setClient_self ..))
    | _ => cases hrunning

/-! ### Reports to come -/

theorem canReport_of_step {s t : Reporter} (h : s.step (.executor a) = some t)
    (ht : t.CanReport) : s.CanReport := by
  obtain ⟨as, u, hrun, hu⟩ := ht
  exact ⟨a :: as, u, Machine.run_cons_eq_some.mpr ⟨t, h, hrun⟩, hu⟩

theorem step_work {pc : HandlerPc Unit}
    (h : (opened clock expiry [e] [] (.handling 0 pc) .idle).handlerStep () false 0 pc = some y) :
    (⟨true, opened clock expiry [e] [] (.handling 0 pc) .idle⟩ : Reporter).step
      (.executor (.work () false)) = some ⟨true, y⟩ := by
  show Option.map _ (State.handlerStep _ _ _ _ _) = _
  rw [h]
  rfl

theorem step_advance (clock : ℤ) (expiry : ℕ → ℤ) (e : TimerTask Unit) :
    (⟨true, opened clock expiry [e] [⟨0, false⟩] .idle .idle⟩ : Reporter).step
      (.executor (.advance (max clock (expiry 0)))) =
        some ⟨true, opened (max clock (expiry 0)) expiry [e] [⟨0, false⟩] .idle .idle⟩ := by
  show Option.map _ (if clock ≤ max clock (expiry 0) then _ else none) = _
  rw [if_pos (le_max_left _ _)]
  rfl

theorem step_dispatch (clock : ℤ) (expiry : ℕ → ℤ) (e : TimerTask Unit) :
    (⟨true, opened (max clock (expiry 0)) expiry [e] [⟨0, false⟩] .idle .idle⟩ : Reporter).step
      (.executor (.dispatch () 0 false)) =
        some ⟨true, opened (max clock (expiry 0)) expiry [e] [] (.handling 0 (.entered false))
          .idle⟩ := by
  have hguard : State.completes false
      (opened (max clock (expiry 0)) expiry [e] [⟨0, false⟩] .idle .idle) ⟨0, false⟩ false := by
    show (true && decide (expiry 0 ≤ max clock (expiry 0))) = true
    rw [decide_eq_true (le_max_right _ _)]
    rfl
  show Option.map _ (if State.completes _ _ _ _ = true then _ else none) = _
  rw [if_pos hguard, Option.map_some]
  show some (Reporter.mk true
    ((opened (max clock (expiry 0)) expiry [e] [] .idle .idle).setWorker () _)) = _
  rw [opened_setWorker]

theorem opened_backwards {P : Executor → Prop}
    (hback : ∀ {x y a}, (∀ i e, x.worker () ≠ .handling i (.copied e)) →
      (⟨true, x⟩ : Reporter).step (.executor a) = some ⟨true, y⟩ → P y → P x)
    (hcopied : ∀ clock expiry e, P (opened clock expiry [e] [] (.handling 0 (.copied e)) .idle)) :
    (∀ clock expiry e, P (opened clock expiry [e] [⟨0, false⟩] .idle .idle)) ∧
      ∀ clock expiry e pc, Runs e pc → P (opened clock expiry [e] [] (.handling 0 pc) .idle) := by
  have hwork : ∀ {clock expiry e pc y}, (∀ e', pc ≠ HandlerPc.copied e') →
      (opened clock expiry [e] [] (.handling 0 pc) .idle).handlerStep () false 0 pc = some y →
      P y → P (opened clock expiry [e] [] (.handling 0 pc) .idle) := by
    intro clock expiry e pc y hpc hstep
    refine hback (fun i e' hw => ?_) (step_work hstep)
    cases hw
    exact hpc e' rfl
  have hchecked : ∀ clock expiry e,
      P (opened clock expiry [e] [] (.handling 0 .checked) .idle) := by
    intro clock expiry e
    apply hwork (fun _ h => by cases h) rfl
    rw [opened_setWorker]
    exact hcopied clock expiry e
  have hentered : ∀ clock expiry e,
      P (opened clock expiry [e] [] (.handling 0 (.entered false)) .idle) := by
    intro clock expiry e
    apply hwork (fun _ h => by cases h) rfl
    rw [opened_setWorker]
    exact hchecked clock expiry e
  have hwaiting : ∀ clock expiry e, P (opened clock expiry [e] [⟨0, false⟩] .idle .idle) := by
    intro clock expiry e
    apply hback (fun _ _ h => by cases h) (step_advance clock expiry e)
    apply hback (fun _ _ h => by cases h) (step_dispatch clock expiry e)
    exact hentered _ expiry e
  have hrearmed : ∀ clock expiry e,
      P (opened clock expiry [e] [] (.handling 0 (.rearmed e)) .idle) := by
    intro clock expiry e
    apply hwork (fun _ h => by cases h) rfl
    show P ((opened clock expiry [e] [⟨0, false⟩] _ .idle).setWorker () .idle)
    rw [opened_setWorker]
    exact hwaiting clock expiry e
  have hran : ∀ clock expiry e,
      P (opened clock expiry [e] [] (.handling 0 (.ran e)) .idle) := by
    intro clock expiry e
    apply hwork (fun _ h => by cases h) rfl
    show P ((opened clock (Function.update expiry 0 _) [e] [] _ .idle).setWorker () _)
    rw [opened_setWorker]
    exact hrearmed clock _ e
  have hrunning : ∀ clock expiry e,
      P (opened clock expiry [e] [] (.handling 0 (.running e)) .idle) := by
    intro clock expiry e
    apply hwork (fun _ h => by cases h) rfl
    rw [opened_setWorker]
    exact hran clock expiry e
  refine ⟨hwaiting, fun clock expiry e pc hpc => ?_⟩
  cases pc with
  | entered ec =>
    cases hpc
    exact hentered clock expiry e
  | checked => exact hchecked clock expiry e
  | copied e' =>
    cases hpc
    exact hcopied clock expiry e
  | running e' =>
    cases hpc
    exact hrunning clock expiry e
  | ran e' =>
    cases hpc
    exact hran clock expiry e
  | rearmed e' =>
    cases hpc
    exact hrearmed clock expiry e

/-- Stopped or never started, and left alone. -/
structure Dormant (s : Reporter) : Prop where
  phase : Phase s
  running : s.running = false
  between : s.betweenCalls

theorem Dormant.step {s t : Reporter} (hs : Dormant s) (h : s.step (.executor a) = some t) :
    Dormant t := by
  cases Reporter.taken_of_step h with
  | @executor _ y ha hy =>
    have hidle := betweenCalls_iff.mp hs.between
    have hclient : ∀ c, a ≠ .client c := by
      rintro c rfl
      simp only [State.step, hidle] at hy
      cases hy
    refine ⟨hs.phase.executor ha hy, hs.running, betweenCalls_iff.mpr ?_⟩
    show y.client () = .idle
    rw [(step_frame ha hclient hy).1, hidle]

theorem Dormant.not_reports {s : Reporter} (hs : Dormant s) : ¬s.Reports := by
  rintro ⟨i, e, hw⟩
  obtain ⟨hphase, hrunning, hbetween⟩ := hs
  cases hphase with
  | fresh => cases hw
  | stopping x hx => cases (hx.busy false).symm.trans hbetween
  | stopped x _ _ hexited => cases hexited.symm.trans hw
  | _ => cases hrunning

theorem Dormant.not_canReport {s : Reporter} (hs : Dormant s) : ¬s.CanReport := by
  rintro ⟨as, t, hrun, ht⟩
  have hC : Machine.Along Reporter.step (fun _ a => ∃ b, a = Action.executor b) s
      (as.map Action.executor) := by
    refine Machine.along_of_forall fun a ha _ => ?_
    obtain ⟨b, -, rfl⟩ := List.mem_map.mp ha
    exact ⟨b, rfl⟩
  refine (Machine.run_invariant_along (P := Dormant) ?_ hs hC hrun).not_reports ht
  rintro u _ v hu ⟨b, rfl⟩ hstep
  exact hu.step hstep

/-! ### Whole runs -/

theorem Phase.canReport {s : Reporter} (hs : Phase s) (hrunning : s.running)
    (hbetween : s.betweenCalls) : s.CanReport := by
  obtain ⟨hwaiting, hhandling⟩ := opened_backwards (P := fun x => (⟨true, x⟩ : Reporter).CanReport)
    (fun _ hstep ht => canReport_of_step hstep ht) fun _ _ e => ⟨[], _, rfl, 0, e, rfl⟩
  cases hs with
  | waiting clock expiry e => exact hwaiting clock expiry e
  | handling clock expiry e pc hpc => exact hhandling clock expiry e pc hpc
  | scheduling | constructed | pushed => cases hbetween
  | _ => cases hrunning

theorem Phase.live {s : Reporter} (hs : Phase s) (hrunning : s.running)
    (hbetween : s.betweenCalls) : ∃! i, Reporter.Live s.executor i := by
  cases hs with
  | waiting clock expiry e =>
    refine ⟨0, Or.inl (List.mem_singleton_self _), ?_⟩
    rintro i (hi | ⟨pc, hpc, -⟩)
    · exact congrArg Wait.index (List.mem_singleton.mp hi)
    · cases hpc
  | handling clock expiry e pc hpc =>
    refine ⟨0, Or.inr ⟨pc, rfl, ?_⟩, ?_⟩
    · rintro ec rfl
      exact hpc
    · rintro i (hi | ⟨pc', hpc', -⟩)
      · cases hi
      · cases hpc'
        rfl
  | scheduling | constructed | pushed => cases hbetween
  | _ => cases hrunning

theorem Phase.scheduled {s : Reporter} (hs : Phase s) : s.Scheduled where
  opened hrunning := by
    cases hs with
    | fresh | stopping | stopped => cases hrunning
    | _ => exact ⟨rfl, by simp [opened]⟩
  live hbetween hrunning := hs.live hrunning hbetween
  reports hbetween := by
    refine ⟨fun hrunning => hs.canReport hrunning hbetween, fun hreports => ?_⟩
    by_contra hrunning
    exact Dormant.not_canReport ⟨hs, Bool.eq_false_iff.mpr hrunning, hbetween⟩ hreports

/-- `start` does not look at the executor: on a closed one it sets the flag all the same. -/
theorem startsOpen_of_scheduled {s : Reporter} {a : Action}
    (h : ∀ t, s.step a = some t → t.Scheduled) : s.StartsOpen a := by
  cases a with
  | start period =>
    intro hbetween hstopped
    have hidle := betweenCalls_iff.mp hbetween
    have hstep : s.step (.start period) =
        some ⟨true, s.executor.setClient () (.scheduling ⟨(), period, false⟩)⟩ := by
      simp [Reporter.step, hbetween, hstopped, State.step, hidle]
    exact ((h _ hstep).opened rfl).1
  | _ => trivial

/-- The flag tells the truth in every state of a run if and only if no call of `start` that sets it
finds the executor shut down. -/
theorem started_is_scheduled_iff (clock : ℤ) (actions : List Action) :
    Machine.Always Reporter.step Reporter.Scheduled (.init clock) actions ↔
      Machine.Along Reporter.step Reporter.StartsOpen (.init clock) actions := by
  constructor
  · exact Machine.along_of_always fun _ hnext => startsOpen_of_scheduled hnext
  · intro hC
    exact (Machine.always_of_along (P := Phase) (fun hs ha hstep => hs.step ha hstep)
      (Phase.init clock) hC).imp fun s hs => hs.scheduled

def startedAgain : List Action :=
  List.flatten [[.start 5], List.replicate 3 (.executor (.client ())),
    [.stop], List.replicate 6 (.executor (.client ())),
    [.executor (.advance 5), .executor (.dispatch () 0 false), .executor (.work () false),
      .executor (.exit ()), .executor (.client ())],
    [.start 5]]

theorem started_on_closed_executor :
    ¬Machine.Always Reporter.step Reporter.Scheduled (.init 0) startedAgain := by
  intro h
  have hrun : (Machine.run Reporter.step (.init 0) startedAgain).map
      (fun s => (s.running, s.executor.running)) = some (true, false) := by decide +kernel
  obtain ⟨t, ht, hend⟩ := Option.map_eq_some_iff.mp hrun
  obtain ⟨hrunning, hclosed⟩ := Prod.mk.inj hend
  have hopen : t.executor.running := ((h.last ht).opened hrunning).1
  cases hclosed.symm.trans hopen

end CppMetrics.ScheduledReporter
