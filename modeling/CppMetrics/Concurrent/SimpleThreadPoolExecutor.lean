import Mathlib.Data.Fintype.Basic
import CppMetrics.Lib.Machine
import CppMetrics.Lib.ScopedPtr

/-! The plain pool: commands posted to an `io_service`, the threads that run them, and callers
that shut it down. Each access to shared state is one step, by any number of pool threads and
callers in any order, and a thread takes any of the posted commands. -/

namespace CppMetrics.SimpleThreadPoolExecutor

/-- A thread of the pool; idle means inside `io_service::run` without a command. -/
inductive WorkerPc (T : Type*)
  | idle
  | running (command : T)
  | exited

def WorkerPc.isRunning {T : Type*} : WorkerPc T → Bool
  | .running _ => true
  | _ => false

inductive ClientPc
  | idle
  | leaving (now : Bool)
  | clearing (now : Bool)
  | releasingWork (stage : ScopedPtr.Stage)
  | stoppingService
  | interrupting
  | joining

def ClientPc.stage : ClientPc → Option ScopedPtr.Stage
  | .releasingWork stage => some stage
  | _ => none

theorem ClientPc.stage_eq_some_iff {pc : ClientPc} {stage : ScopedPtr.Stage} :
    pc.stage = some stage ↔ pc = .releasingWork stage := by
  cases pc <;> simp [ClientPc.stage]

structure State (ω κ T : Type*) where
  running : Bool
  workPtr : ScopedPtr
  stopped : Bool
  interrupted : Bool
  queue : List T
  worker : ω → WorkerPc T
  client : κ → ClientPc

inductive Action (ω κ T : Type*)
  | execute (c : κ) (command : T)
  | post (w : ω) (command : T)
  | dispatch (w : ω) (n : ℕ)
  | finish (w : ω)
  | unwind (w : ω)
  | exit (w : ω)
  | shutdown (c : κ) (now : Bool)
  | client (c : κ)

namespace State

variable {ω κ T : Type*} [DecidableEq ω] [DecidableEq κ]

def init : State ω κ T where
  running := true
  workPtr := .new
  stopped := false
  interrupted := false
  queue := []
  worker _ := .idle
  client _ := .idle

def setWorker (w : ω) (pc : WorkerPc T) (s : State ω κ T) : State ω κ T :=
  { s with worker := Function.update s.worker w pc }

def setClient (c : κ) (pc : ClientPc) (s : State ω κ T) : State ω κ T :=
  { s with client := Function.update s.client c pc }

/-- The service counts its outstanding work and stops by itself when none is left. -/
def dry [Fintype ω] (s : State ω κ T) : Bool :=
  !s.workPtr.alive && s.queue.isEmpty && decide (∀ w, (s.worker w).isRunning = false)

def settle [Fintype ω] (s : State ω κ T) : State ω κ T :=
  { s with stopped := s.stopped || s.dry }

def clientStep [Fintype ω] (s : State ω κ T) (c : κ) : ClientPc → Option (State ω κ T)
  | .idle => none
  | .leaving now => some (s.setClient c (if s.running then .clearing now else .idle))
  | .clearing now =>
    some ({ s with running := false }.setClient c
      (if now then .stoppingService else .releasingWork .reading))
  | .releasingWork stage =>
    (s.workPtr.step stage).map fun (workPtr, next) =>
      { s with workPtr := workPtr }.settle.setClient c (next.elim .interrupting .releasingWork)
  | .stoppingService => some ({ s with stopped := true }.setClient c .interrupting)
  | .interrupting => some ({ s with interrupted := true }.setClient c .joining)
  | .joining =>
    if ∀ w, s.worker w matches .exited then some (s.setClient c .idle) else none

def step [Fintype ω] (s : State ω κ T) : Action ω κ T → Option (State ω κ T)
  | .execute c command =>
    match s.client c with
    | .idle => some { s with queue := s.queue ++ [command] }
    | _ => none
  -- a command may itself call `execute`
  | .post w command =>
    match s.worker w with
    | .running _ => some { s with queue := s.queue ++ [command] }
    | _ => none
  | .dispatch w n =>
    match s.worker w, s.queue[n]? with
    | .idle, some command =>
      if s.stopped then none
      else some ({ s with queue := s.queue.eraseIdx n }.setWorker w (.running command))
    | _, _ => none
  | .finish w =>
    match s.worker w with
    | .running _ => some (s.setWorker w .idle).settle
    | _ => none
  -- an interruption point inside the command ends the thread
  | .unwind w =>
    match s.worker w with
    | .running _ => if s.interrupted then some (s.setWorker w .exited).settle else none
    | _ => none
  | .exit w =>
    match s.worker w with
    | .idle => if s.stopped then some (s.setWorker w .exited) else none
    | _ => none
  | .shutdown c now =>
    match s.client c with
    | .idle => some (s.setClient c (.leaving now))
    | _ => none
  | .client c => s.clientStep c (s.client c)

/-! ### What a step does -/

inductive ClientTaken [Fintype ω] (s : State ω κ T) (c : κ) : ClientPc → State ω κ T → Prop
  | proceed {now : Bool} (hrunning : s.running) :
    ClientTaken s c (.leaving now) (s.setClient c (.clearing now))
  | giveUp {now : Bool} (hrunning : s.running = false) :
    ClientTaken s c (.leaving now) (s.setClient c .idle)
  | clear {now : Bool} : ClientTaken s c (.clearing now)
      ({ s with running := false }.setClient c
        (if now then .stoppingService else .releasingWork .reading))
  | releaseWork {stage : ScopedPtr.Stage} {workPtr : ScopedPtr} {next : Option ScopedPtr.Stage}
      (hreset : s.workPtr.step stage = some (workPtr, next)) :
    ClientTaken s c (.releasingWork stage)
      ({ s with workPtr := workPtr }.settle.setClient c (next.elim .interrupting .releasingWork))
  | stopService : ClientTaken s c .stoppingService
      ({ s with stopped := true }.setClient c .interrupting)
  | interrupt : ClientTaken s c .interrupting ({ s with interrupted := true }.setClient c .joining)
  | join (hexited : ∀ w, s.worker w = .exited) : ClientTaken s c .joining (s.setClient c .idle)

inductive Taken [Fintype ω] (s : State ω κ T) : Action ω κ T → State ω κ T → Prop
  | execute {c : κ} {command : T} (hc : s.client c = .idle) :
    Taken s (.execute c command) { s with queue := s.queue ++ [command] }
  | post {w : ω} {command e : T} (hw : s.worker w = .running e) :
    Taken s (.post w command) { s with queue := s.queue ++ [command] }
  | dispatch {w : ω} {n : ℕ} {command : T} (hw : s.worker w = .idle)
      (hn : s.queue[n]? = some command) (hstopped : s.stopped = false) :
    Taken s (.dispatch w n)
      ({ s with queue := s.queue.eraseIdx n }.setWorker w (.running command))
  | finish {w : ω} {command : T} (hw : s.worker w = .running command) :
    Taken s (.finish w) (s.setWorker w .idle).settle
  | unwind {w : ω} {command : T} (hw : s.worker w = .running command)
      (hinterrupted : s.interrupted) : Taken s (.unwind w) (s.setWorker w .exited).settle
  | exit {w : ω} (hw : s.worker w = .idle) (hstopped : s.stopped) :
    Taken s (.exit w) (s.setWorker w .exited)
  | shutdown {c : κ} {now : Bool} (hc : s.client c = .idle) :
    Taken s (.shutdown c now) (s.setClient c (.leaving now))
  | client {c : κ} {t : State ω κ T} (ht : s.ClientTaken c (s.client c) t) : Taken s (.client c) t

omit [DecidableEq ω] in
theorem clientTaken_of_step [Fintype ω] {s t : State ω κ T} {c : κ} {pc : ClientPc}
    (h : s.clientStep c pc = some t) : s.ClientTaken c pc t := by
  cases pc with
  | idle => cases h
  | leaving now =>
    cases h
    split_ifs with hrunning
    · exact .proceed hrunning
    · exact .giveUp (Bool.eq_false_iff.mpr hrunning)
  | clearing now =>
    cases h
    exact .clear
  | releasingWork stage =>
    obtain ⟨⟨workPtr, next⟩, hreset, rfl⟩ := Option.map_eq_some_iff.mp h
    exact .releaseWork hreset
  | stoppingService =>
    cases h
    exact .stopService
  | interrupting =>
    cases h
    exact .interrupt
  | joining =>
    simp only [clientStep] at h
    split_ifs at h with hexited
    cases h
    refine .join fun w => ?_
    have hw := hexited w
    cases hpc : s.worker w <;> simp [hpc] at hw ⊢

theorem taken_of_step [Fintype ω] {s t : State ω κ T} {a : Action ω κ T}
    (h : s.step a = some t) : s.Taken a t := by
  cases a with
  | execute c command =>
    simp only [step] at h
    split at h
    case h_1 hc => cases h; exact .execute hc
    case h_2 => cases h
  | post w command =>
    simp only [step] at h
    split at h
    case h_1 e hw => cases h; exact .post hw
    case h_2 => cases h
  | dispatch w n =>
    simp only [step] at h
    split at h
    case h_1 command hw hn =>
      split_ifs at h with hstopped
      cases h
      exact .dispatch hw hn (Bool.eq_false_iff.mpr hstopped)
    case h_2 => cases h
  | finish w =>
    simp only [step] at h
    split at h
    case h_1 command hw => cases h; exact .finish hw
    case h_2 => cases h
  | unwind w =>
    simp only [step] at h
    split at h
    case h_1 command hw =>
      split_ifs at h with hinterrupted
      cases h
      exact .unwind hw hinterrupted
    case h_2 => cases h
  | exit w =>
    simp only [step] at h
    split at h
    case h_1 hw =>
      split_ifs at h with hstopped
      cases h
      exact .exit hw hstopped
    case h_2 => cases h
  | shutdown c now =>
    simp only [step] at h
    split at h
    case h_1 hc => cases h; exact .shutdown hc
    case h_2 => cases h
  | client c => exact .client (clientTaken_of_step h)

/-! ### Callers that reset the work pointer -/

def stages (s : State ω κ T) : κ → Option ScopedPtr.Stage := ClientPc.stage ∘ s.client

omit [DecidableEq ω] in
theorem resets_client [Fintype ω] {s t : State ω κ T} {c : κ}
    (h : s.ClientTaken c (s.client c) t) :
    ScopedPtr.Taken s.workPtr s.stages t.workPtr t.stages := by
  generalize hpc : s.client c = pc at h
  have hc : (s.client c).stage = pc.stage := congrArg ClientPc.stage hpc
  cases h with
  | proceed | giveUp | stopService | interrupt | join =>
    exact ScopedPtr.taken_outside _ rfl hc (.inl rfl)
  | @clear now =>
    exact ScopedPtr.taken_outside _ rfl hc (by cases now <;> simp [ClientPc.stage])
  | @releaseWork stage workPtr next hreset =>
    have hnext : (next.elim ClientPc.interrupting .releasingWork).stage = next := by
      cases next <;> rfl
    exact ScopedPtr.taken_access _ rfl hc (hnext.symm ▸ hreset)

theorem resets_of_taken [Fintype ω] {s t : State ω κ T} {a : Action ω κ T} (h : s.Taken a t) :
    ScopedPtr.Taken s.workPtr s.stages t.workPtr t.stages := by
  cases h with
  | execute | post | dispatch | finish | unwind | exit => exact .other
  | shutdown hc => exact ScopedPtr.taken_outside _ rfl (congrArg ClientPc.stage hc) (.inl rfl)
  | client ht => exact resets_client ht

theorem never_deletedTwice [Fintype ω] {as : List (Action ω κ T)}
    (halone : Machine.Always step (fun s => ScopedPtr.Alone s.stages) (init : State ω κ T) as) :
    Machine.Always step (fun s => ¬ScopedPtr.DeletedTwice s.workPtr s.stages)
      (init : State ω κ T) as := by
  have howned : Machine.Always step (fun s => ScopedPtr.Owned s.workPtr s.stages)
      (init : State ω κ T) as :=
    Machine.always_of_along
      (fun hs hs' ht => hs.step hs' (resets_of_taken (taken_of_step ht)))
      (ScopedPtr.owned_new fun _ => rfl)
      (Machine.along_of_always (C := fun s _ => ScopedPtr.Alone s.stages) (fun hs _ => hs) halone)
  exact howned.imp fun s hs => hs.not_deletedTwice

end State

end CppMetrics.SimpleThreadPoolExecutor
