import Mathlib.Data.Fintype.Basic
import Mathlib.Data.Int.Notation
import Mathlib.Logic.Function.Basic
import CppMetrics.Lib.Machine
import CppMetrics.Lib.ScopedPtr

/-! The executor: timers whose completions the threads of a pool handle, and callers that schedule
tasks and shut it down. Each access to shared state is one step, by any number of pool threads and
callers in any order. What the timers promise is in `dispatch`: one completion for every wait,
and none before the expiry except with an error. -/

namespace CppMetrics.SimpleScheduledThreadPoolExecutor

/-- An entry of `timer_tasks_`. The timer it points to is no other entry's, and its expiry is kept
beside the vector under the same index. -/
structure TimerTask (T : Type*) where
  task : T
  period : ℤ
  fixedRate : Bool

/-- An `async_wait` on the timer of `index`, aborted once that timer was cancelled. -/
structure Wait where
  index : ℕ
  aborted : Bool

inductive HandlerPc (T : Type*)
  | entered (ec : Bool)
  | checked
  | copied (timerTask : TimerTask T)
  | running (timerTask : TimerTask T)
  | ran (timerTask : TimerTask T)
  | rearmed (timerTask : TimerTask T)

/-- A thread of the pool, idle inside `io_service::run`. -/
inductive WorkerPc (T : Type*)
  | idle
  | handling (index : ℕ) (pc : HandlerPc T)
  | exited

inductive ClientPc (T : Type*)
  | idle
  | scheduling (timerTask : TimerTask T)
  | constructed (timerTask : TimerTask T) (expiry : ℤ)
  | pushed (index : ℕ)
  | leaving (now : Bool)
  | clearing (now : Bool)
  | locking
  | cancelling (index : ℕ)
  | stoppingService
  | releasingWork (stage : ScopedPtr.Stage)
  | interrupting
  | joining

def ClientPc.stage {T : Type*} : ClientPc T → Option ScopedPtr.Stage
  | .releasingWork stage => some stage
  | _ => none

theorem ClientPc.stage_eq_some_iff {T : Type*} {pc : ClientPc T} {stage : ScopedPtr.Stage} :
    pc.stage = some stage ↔ pc = .releasingWork stage := by
  cases pc <;> simp [ClientPc.stage]

structure State (ω κ T : Type*) where
  clock : ℤ
  running : Bool
  workPtr : ScopedPtr
  stopped : Bool
  interrupted : Bool
  locked : Bool
  timerTasks : List (TimerTask T)
  expiry : ℕ → ℤ
  waits : List Wait
  worker : ω → WorkerPc T
  client : κ → ClientPc T

inductive Action (ω κ T : Type*)
  | advance (now : ℤ)
  | dispatch (w : ω) (n : ℕ) (ec : Bool)
  | work (w : ω) (eec : Bool)
  | unwind (w : ω)
  | exit (w : ω)
  | schedule (c : κ) (task : T) (period : ℤ) (fixedRate : Bool)
  | shutdown (c : κ) (now : Bool)
  | client (c : κ)

namespace State

variable {ω κ T : Type*} [DecidableEq ω] [DecidableEq κ]

def init (clock : ℤ) : State ω κ T where
  clock := clock
  running := true
  workPtr := .new
  stopped := false
  interrupted := false
  locked := false
  timerTasks := []
  expiry _ := 0
  waits := []
  worker _ := .idle
  client _ := .idle

def setWorker (w : ω) (pc : WorkerPc T) (s : State ω κ T) : State ω κ T :=
  { s with worker := Function.update s.worker w pc }

def setClient (c : κ) (pc : ClientPc T) (s : State ω κ T) : State ω κ T :=
  { s with client := Function.update s.client c pc }

omit [DecidableEq κ] in
@[simp] theorem setWorker_self (w : ω) (pc : WorkerPc T) (s : State ω κ T) :
    (s.setWorker w pc).worker w = pc := Function.update_self ..

omit [DecidableEq ω] in
@[simp] theorem setClient_self (c : κ) (pc : ClientPc T) (s : State ω κ T) :
    (s.setClient c pc).client c = pc := Function.update_self ..

def abort (index : ℕ) (s : State ω κ T) : State ω κ T :=
  { s with waits := s.waits.map fun x => if x.index = index then { x with aborted := true } else x }

def asyncWait (index : ℕ) (s : State ω κ T) : State ω κ T :=
  { s with waits := s.waits ++ [⟨index, false⟩] }

/-- `expires_at` or `expires_from_now`, which cancel what waits on the timer. -/
def rearm (index : ℕ) (timerTask : TimerTask T) (s : State ω κ T) : State ω κ T :=
  let expiry :=
    if timerTask.fixedRate then s.expiry index + timerTask.period else s.clock + timerTask.period
  { s.abort index with expiry := Function.update s.expiry index expiry }

/-- The next operation of a handler; `eec` is what setting the expiry reports. -/
def handlerStep (s : State ω κ T) (w : ω) (eec : Bool) (index : ℕ) :
    HandlerPc T → Option (State ω κ T)
  | .entered ec =>
    if !s.running || ec then some (s.setWorker w .idle)
    else some (s.setWorker w (.handling index .checked))
  | .checked =>
    if s.locked then none
    else
      match s.timerTasks[index]? with
      | none => some (s.setWorker w .idle)
      -- entries are made with their timer, so `timer_` is never null here
      | some timerTask => some (s.setWorker w (.handling index (.copied timerTask)))
  | .copied timerTask => some (s.setWorker w (.handling index (.running timerTask)))
  | .running timerTask => some (s.setWorker w (.handling index (.ran timerTask)))
  | .ran timerTask =>
    -- an error is logged, and the timer is waited on as it is
    some ((if eec then s else s.rearm index timerTask).setWorker w
      (.handling index (.rearmed timerTask)))
  -- after the call of `async_wait` the handler touches nothing any more
  | .rearmed _ => some ((s.asyncWait index).setWorker w .idle)

def clientStep [Fintype ω] (s : State ω κ T) (c : κ) : ClientPc T → Option (State ω κ T)
  | .idle => none
  | .scheduling timerTask =>
    some (s.setClient c (.constructed timerTask (s.clock + timerTask.period)))
  | .constructed timerTask expiry =>
    if s.locked then none
    else
      let index := s.timerTasks.length
      some ({ s with
        timerTasks := s.timerTasks ++ [timerTask]
        expiry := Function.update s.expiry index expiry }.setClient c (.pushed index))
  | .pushed index => some ((s.asyncWait index).setClient c .idle)
  | .leaving now => some (s.setClient c (if s.running then .clearing now else .idle))
  | .clearing now =>
    some ({ s with running := false }.setClient c
      (if now then .locking else .releasingWork .reading))
  | .locking =>
    if s.locked then none else some ({ s with locked := true }.setClient c (.cancelling 0))
  | .cancelling index =>
    if index < s.timerTasks.length then some ((s.abort index).setClient c (.cancelling (index + 1)))
    else some ({ s with locked := false }.setClient c .stoppingService)
  | .stoppingService => some ({ s with stopped := true }.setClient c .interrupting)
  | .releasingWork stage =>
    (s.workPtr.step stage).map fun (workPtr, next) =>
      { s with workPtr := workPtr }.setClient c (next.elim .interrupting .releasingWork)
  | .interrupting => some ({ s with interrupted := true }.setClient c .joining)
  | .joining =>
    if ∀ w, s.worker w matches .exited then some (s.setClient c .idle) else none

/-- `io_service::run` returns when the service is stopped or has nothing left to do. -/
def runReturns [Fintype ω] (s : State ω κ T) : Bool :=
  s.stopped ||
    (!s.workPtr.alive && s.waits.isEmpty && decide (∀ w, ¬s.worker w matches .handling _ _))

/-- Whether a wait can complete with `ec`. With `spurious`, a completion may report an error though
nobody cancelled the timer. -/
def completes (spurious : Bool) (s : State ω κ T) (x : Wait) (ec : Bool) : Bool :=
  !s.stopped && if ec then x.aborted || spurious else decide (s.expiry x.index ≤ s.clock)

def step [Fintype ω] (spurious : Bool) (s : State ω κ T) : Action ω κ T → Option (State ω κ T)
  | .advance now => if s.clock ≤ now then some { s with clock := now } else none
  | .dispatch w n ec =>
    match s.worker w, s.waits[n]? with
    | .idle, some x =>
      if s.completes spurious x ec then
        some ({ s with waits := s.waits.eraseIdx n }.setWorker w
          (.handling x.index (.entered ec)))
      else none
    | _, _ => none
  | .work w eec =>
    match s.worker w with
    | .handling index pc => s.handlerStep w eec index pc
    | _ => none
  | .unwind w =>
    match s.worker w with
    | .handling _ (.running _) => if s.interrupted then some (s.setWorker w .exited) else none
    | _ => none
  | .exit w =>
    match s.worker w with
    | .idle => if s.runReturns then some (s.setWorker w .exited) else none
    | _ => none
  | .schedule c task period fixedRate =>
    match s.client c with
    | .idle => some (s.setClient c (.scheduling ⟨task, period, fixedRate⟩))
    | _ => none
  | .shutdown c now =>
    match s.client c with
    | .idle => some (s.setClient c (.leaving now))
    | _ => none
  | .client c => s.clientStep c (s.client c)

/-! ### What a step does -/

inductive Taken [Fintype ω] (spurious : Bool) (s : State ω κ T) :
    Action ω κ T → State ω κ T → Prop
  | advance {now : ℤ} (hnow : s.clock ≤ now) :
    Taken spurious s (.advance now) { s with clock := now }
  | dispatch {w : ω} {n : ℕ} {ec : Bool} {x : Wait} (hw : s.worker w = .idle)
      (hx : s.waits[n]? = some x) (hec : s.completes spurious x ec) :
    Taken spurious s (.dispatch w n ec)
      ({ s with waits := s.waits.eraseIdx n }.setWorker w (.handling x.index (.entered ec)))
  | work {w : ω} {eec : Bool} {i : ℕ} {pc : HandlerPc T} {t : State ω κ T}
      (hw : s.worker w = .handling i pc) (ht : s.handlerStep w eec i pc = some t) :
    Taken spurious s (.work w eec) t
  | unwind {w : ω} {i : ℕ} {e : TimerTask T} (hw : s.worker w = .handling i (.running e))
      (hinterrupted : s.interrupted) : Taken spurious s (.unwind w) (s.setWorker w .exited)
  | exit {w : ω} (hw : s.worker w = .idle) (hreturns : s.runReturns) :
    Taken spurious s (.exit w) (s.setWorker w .exited)
  | schedule {c : κ} {task : T} {period : ℤ} {fixedRate : Bool} (hc : s.client c = .idle) :
    Taken spurious s (.schedule c task period fixedRate)
      (s.setClient c (.scheduling ⟨task, period, fixedRate⟩))
  | shutdown {c : κ} {now : Bool} (hc : s.client c = .idle) :
    Taken spurious s (.shutdown c now) (s.setClient c (.leaving now))
  | client {c : κ} {t : State ω κ T} (ht : s.clientStep c (s.client c) = some t) :
    Taken spurious s (.client c) t

theorem taken_of_step [Fintype ω] {spurious : Bool} {s t : State ω κ T} {a : Action ω κ T}
    (h : s.step spurious a = some t) : s.Taken spurious a t := by
  cases a with
  | advance now =>
    simp only [step] at h
    split_ifs at h with hnow
    cases h
    exact .advance hnow
  | dispatch w n ec =>
    simp only [step] at h
    split at h
    case h_1 x hw hx =>
      split_ifs at h with hec
      cases h
      exact .dispatch hw hx hec
    case h_2 => cases h
  | work w eec =>
    simp only [step] at h
    split at h
    case h_1 i pc hw => exact .work hw h
    case h_2 => cases h
  | unwind w =>
    simp only [step] at h
    split at h
    case h_1 i e hw =>
      split_ifs at h with hinterrupted
      cases h
      exact .unwind hw hinterrupted
    case h_2 => cases h
  | exit w =>
    simp only [step] at h
    split at h
    case h_1 hw =>
      split_ifs at h with hreturns
      cases h
      exact .exit hw hreturns
    case h_2 => cases h
  | schedule c task period fixedRate =>
    simp only [step] at h
    split at h
    case h_1 hc =>
      cases h
      exact .schedule hc
    case h_2 => cases h
  | shutdown c now =>
    simp only [step] at h
    split at h
    case h_1 hc =>
      cases h
      exact .shutdown hc
    case h_2 => cases h
  | client c => exact .client h

omit [DecidableEq κ] in
inductive HandlerTaken (s : State ω κ T) (w : ω) (i : ℕ) :
    Bool → HandlerPc T → State ω κ T → Prop
  | leave {eec ec : Bool} (hleave : (!s.running || ec) = true) :
    HandlerTaken s w i eec (.entered ec) (s.setWorker w .idle)
  | check {eec ec : Bool} (hrunning : s.running) (hec : ec = false) :
    HandlerTaken s w i eec (.entered ec) (s.setWorker w (.handling i .checked))
  | missing {eec : Bool} (he : s.timerTasks[i]? = none) :
    HandlerTaken s w i eec .checked (s.setWorker w .idle)
  | copy {eec : Bool} {e : TimerTask T} (he : s.timerTasks[i]? = some e) :
    HandlerTaken s w i eec .checked (s.setWorker w (.handling i (.copied e)))
  | start {eec : Bool} {e : TimerTask T} :
    HandlerTaken s w i eec (.copied e) (s.setWorker w (.handling i (.running e)))
  | finish {eec : Bool} {e : TimerTask T} :
    HandlerTaken s w i eec (.running e) (s.setWorker w (.handling i (.ran e)))
  | rearm {e : TimerTask T} : HandlerTaken s w i false (.ran e)
      ((s.rearm i e).setWorker w (.handling i (.rearmed e)))
  | rearmError {e : TimerTask T} : HandlerTaken s w i true (.ran e)
      (s.setWorker w (.handling i (.rearmed e)))
  | wait {eec : Bool} {e : TimerTask T} :
    HandlerTaken s w i eec (.rearmed e) ((s.asyncWait i).setWorker w .idle)

omit [DecidableEq κ] in
theorem handlerTaken_of_step {s t : State ω κ T} {w : ω} {i : ℕ} {eec : Bool} {pc : HandlerPc T}
    (h : s.handlerStep w eec i pc = some t) : s.HandlerTaken w i eec pc t := by
  cases pc with
  | entered ec =>
    simp only [handlerStep] at h
    split_ifs at h with hleave
    · cases h
      exact .leave hleave
    · cases h
      simp only [Bool.or_eq_true, not_or, Bool.not_eq_true, Bool.not_eq_false'] at hleave
      exact .check hleave.1 hleave.2
  | checked =>
    simp only [handlerStep] at h
    split_ifs at h
    split at h
    case h_1 he =>
      cases h
      exact .missing he
    case h_2 e he =>
      cases h
      exact .copy he
  | copied e =>
    cases h
    exact .start
  | running e =>
    cases h
    exact .finish
  | ran e =>
    cases h
    cases eec with
    | true => exact .rearmError
    | false => exact .rearm
  | rearmed e =>
    cases h
    exact .wait

omit [DecidableEq ω] in
inductive ClientTaken (s : State ω κ T) (c : κ) : ClientPc T → State ω κ T → Prop
  | construct {e : TimerTask T} : ClientTaken s c (.scheduling e)
      (s.setClient c (.constructed e (s.clock + e.period)))
  | push {e : TimerTask T} {expiry : ℤ} : ClientTaken s c (.constructed e expiry)
      ({ s with
        timerTasks := s.timerTasks ++ [e]
        expiry := Function.update s.expiry s.timerTasks.length expiry }.setClient c
          (.pushed s.timerTasks.length))
  | wait {i : ℕ} : ClientTaken s c (.pushed i) ((s.asyncWait i).setClient c .idle)
  | proceed {now : Bool} (hrunning : s.running) : ClientTaken s c (.leaving now)
      (s.setClient c (.clearing now))
  | giveUp {now : Bool} (hrunning : s.running = false) : ClientTaken s c (.leaving now)
      (s.setClient c .idle)
  | clearNow : ClientTaken s c (.clearing true) ({ s with running := false }.setClient c .locking)
  | clear : ClientTaken s c (.clearing false)
      ({ s with running := false }.setClient c (.releasingWork .reading))
  | lock : ClientTaken s c .locking ({ s with locked := true }.setClient c (.cancelling 0))
  | cancel {i : ℕ} : ClientTaken s c (.cancelling i) ((s.abort i).setClient c (.cancelling (i + 1)))
  | unlock {i : ℕ} : ClientTaken s c (.cancelling i)
      ({ s with locked := false }.setClient c .stoppingService)
  | stopService : ClientTaken s c .stoppingService
      ({ s with stopped := true }.setClient c .interrupting)
  | releaseWork {stage : ScopedPtr.Stage} {workPtr : ScopedPtr} {next : Option ScopedPtr.Stage}
      (hreset : s.workPtr.step stage = some (workPtr, next)) :
    ClientTaken s c (.releasingWork stage)
      ({ s with workPtr := workPtr }.setClient c (next.elim .interrupting .releasingWork))
  | interrupt : ClientTaken s c .interrupting ({ s with interrupted := true }.setClient c .joining)
  | join (hexited : ∀ w, s.worker w = .exited) : ClientTaken s c .joining (s.setClient c .idle)

omit [DecidableEq ω] in
theorem clientTaken_of_step [Fintype ω] {s t : State ω κ T} {c : κ} {pc : ClientPc T}
    (h : s.clientStep c pc = some t) : s.ClientTaken c pc t := by
  cases pc with
  | idle => cases h
  | scheduling e =>
    cases h
    exact .construct
  | constructed e expiry =>
    simp only [clientStep] at h
    split_ifs at h
    cases h
    exact .push
  | pushed i =>
    cases h
    exact .wait
  | leaving now =>
    cases h
    split_ifs with hrunning
    · exact .proceed hrunning
    · exact .giveUp (Bool.eq_false_iff.mpr hrunning)
  | clearing now =>
    cases h
    cases now with
    | true => exact .clearNow
    | false => exact .clear
  | locking =>
    simp only [clientStep] at h
    split_ifs at h
    cases h
    exact .lock
  | cancelling i =>
    simp only [clientStep] at h
    split_ifs at h
    · cases h
      exact .cancel
    · cases h
      exact .unlock
  | stoppingService =>
    cases h
    exact .stopService
  | releasingWork stage =>
    obtain ⟨⟨workPtr, next⟩, hreset, rfl⟩ := Option.map_eq_some_iff.mp h
    exact .releaseWork hreset
  | interrupting =>
    cases h
    exact .interrupt
  | joining =>
    simp only [clientStep] at h
    split_ifs at h with hexited
    cases h
    refine .join fun w => ?_
    have hw := hexited w
    cases hpc : s.worker w <;> simp [hpc] at hw ⊢

end State

end CppMetrics.SimpleScheduledThreadPoolExecutor
