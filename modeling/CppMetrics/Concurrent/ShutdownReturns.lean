import Mathlib.Algebra.BigOperators.Group.Finset.Basic
import CppMetrics.Concurrent.SimpleScheduledThreadPoolExecutor

/-! A shutdown of the scheduled executor comes back: once `running_` is cleared the pool and the
callers can take only finitely many steps, and none of them blocks for good. -/

namespace CppMetrics.SimpleScheduledThreadPoolExecutor

variable {ω κ T : Type*}

def Action.goesOn : Action ω κ T → Bool
  | .dispatch .. | .work .. | .unwind _ | .exit _ | .client _ => true
  | .advance _ | .schedule .. | .shutdown .. => false

def Action.isCall : Action ω κ T → Bool
  | .schedule .. | .shutdown .. => true
  | _ => false

/-- A handler past the check waits once more on its timer before it is done. -/
def HandlerPc.rank : HandlerPc T → ℕ
  | .entered _ => 2
  | .rearmed _ => 4
  | .ran _ => 5
  | .running _ => 6
  | .copied _ => 7
  | .checked => 8

def WorkerPc.rank : WorkerPc T → ℕ
  | .idle => 1
  | .handling _ pc => pc.rank
  | .exited => 0

def ClientPc.appends : ClientPc T → ℕ
  | .scheduling _ | .constructed .. => 1
  | _ => 0

/-- `bound` is what `timer_tasks_` can grow to while the caller goes through it. -/
def ClientPc.rank (bound : ℕ) : ClientPc T → ℕ
  | .idle => 0
  | .scheduling _ => 5
  | .constructed .. => 4
  | .pushed _ => 3
  | .leaving _ => bound + 8
  | .clearing _ => bound + 7
  | .locking => bound + 5
  | .cancelling i => bound - i + 4
  | .stoppingService => 3
  | .releasingWork stage => stage.rank + 2
  | .interrupting => 2
  | .joining => 1

section

variable [Fintype ω] [Fintype κ]

def State.bound (s : State ω κ T) : ℕ := s.timerTasks.length + ∑ c, (s.client c).appends

def State.rank (s : State ω κ T) : ℕ :=
  2 * s.waits.length + ∑ w, (s.worker w).rank + ∑ c, (s.client c).rank s.bound

variable [DecidableEq ω] [DecidableEq κ] {s t : State ω κ T}

omit [DecidableEq κ] in
theorem rank_of_worker {w : ω} {x : WorkerPc T} (hworker : t.worker = Function.update s.worker w x)
    (hclient : t.client = s.client) (htasks : t.timerTasks = s.timerTasks) :
    t.rank + 2 * s.waits.length + (s.worker w).rank =
      s.rank + 2 * t.waits.length + x.rank := by
  have hsum := Machine.sum_update_add WorkerPc.rank s.worker w x
  simp only [State.rank, State.bound, hworker, hclient, htasks]
  omega

omit [DecidableEq ω] in
theorem rank_of_client {c : κ} {x : ClientPc T} (hclient : t.client = Function.update s.client c x)
    (hworker : t.worker = s.worker) (hbound : t.bound = s.bound) :
    t.rank + 2 * s.waits.length + (s.client c).rank s.bound =
      s.rank + 2 * t.waits.length + x.rank s.bound := by
  have hsum := Machine.sum_update_add (ClientPc.rank s.bound) s.client c x
  simp only [State.rank, hbound, hworker, hclient]
  omega

omit [Fintype ω] [DecidableEq ω] in
theorem bound_of_client {c : κ} {x : ClientPc T} (hclient : t.client = Function.update s.client c x)
    (htasks : t.timerTasks.length + x.appends = s.timerTasks.length + (s.client c).appends) :
    t.bound = s.bound := by
  have hsum := Machine.sum_update_add ClientPc.appends s.client c x
  simp only [State.bound, hclient]
  omega

omit [DecidableEq κ] in
theorem rank_handler_lt {w : ω} {i : ℕ} {eec : Bool} {pc : HandlerPc T}
    (hrunning : s.running = false) (hw : s.worker w = .handling i pc)
    (h : s.HandlerTaken w i eec pc t) : t.rank < s.rank := by
  have hlt : ∀ {x : WorkerPc T}, t.worker = Function.update s.worker w x → t.client = s.client →
      t.timerTasks = s.timerTasks → 2 * t.waits.length + x.rank < 2 * s.waits.length + pc.rank →
      t.rank < s.rank := by
    intro x hworker hclient htasks hx
    have hset := rank_of_worker hworker hclient htasks
    rw [hw, WorkerPc.rank] at hset
    omega
  cases h with
  | check hopen => cases hrunning.symm.trans hopen
  | leave | missing | copy | start | finish | rearmError =>
    exact hlt rfl rfl rfl (by simp [WorkerPc.rank, HandlerPc.rank, State.setWorker])
  | rearm =>
    refine hlt rfl rfl rfl ?_
    simp [WorkerPc.rank, HandlerPc.rank, State.setWorker, State.rearm, State.abort]
  | wait =>
    refine hlt rfl rfl rfl ?_
    simp only [WorkerPc.rank, HandlerPc.rank, State.setWorker, State.asyncWait, List.length_append,
      List.length_singleton]
    omega

omit [DecidableEq ω] in
theorem rank_client_lt {c : κ} (h : s.clientStep c (s.client c) = some t) : t.rank < s.rank := by
  have hlt : ∀ {x : ClientPc T}, t.client = Function.update s.client c x → t.worker = s.worker →
      t.timerTasks.length + x.appends = s.timerTasks.length + (s.client c).appends →
      2 * t.waits.length + x.rank s.bound < 2 * s.waits.length + (s.client c).rank s.bound →
      t.rank < s.rank := by
    intro x hclient hworker htasks hx
    have hset := rank_of_client hclient hworker (bound_of_client hclient htasks)
    omega
  have hlength : s.timerTasks.length ≤ s.bound := Nat.le_add_right _ _
  generalize hpc : s.client c = pc at h hlt
  cases pc with
  | cancelling i =>
    simp only [State.clientStep] at h
    split_ifs at h with hi
    · cases h
      refine hlt rfl rfl rfl ?_
      simp only [ClientPc.rank, State.setClient, State.abort, List.length_map]
      omega
    · cases h
      refine hlt rfl rfl rfl ?_
      simp only [ClientPc.rank, State.setClient]
      omega
  | pushed i =>
    cases State.clientTaken_of_step h with
    | wait =>
      refine hlt rfl rfl rfl ?_
      simp only [ClientPc.rank, State.setClient, State.asyncWait, List.length_append,
        List.length_singleton]
      omega
  | constructed e expiry =>
    cases State.clientTaken_of_step h with
    | push =>
      refine hlt rfl rfl ?_ ?_
      · simp [ClientPc.appends, State.setClient]
      · simp [ClientPc.rank, State.setClient]
  | releasingWork stage =>
    cases State.clientTaken_of_step h with
    | @releaseWork stage workPtr next hreset =>
      have hstage := ScopedPtr.rank_step hreset
      cases next with
      | none =>
        refine hlt rfl rfl rfl ?_
        simpa [ClientPc.rank, State.setClient] using hstage
      | some next =>
        refine hlt rfl rfl rfl ?_
        simpa [ClientPc.rank, State.setClient] using hstage
  | _ =>
    cases State.clientTaken_of_step h <;>
      exact hlt rfl rfl rfl (by simp [ClientPc.rank, ScopedPtr.Stage.rank, State.setClient])

variable {spurious : Bool} {a : Action ω κ T}

theorem rank_add_le (hrunning : s.running = false) (ha : a.isCall = false)
    (h : s.step spurious a = some t) : t.rank + (if a.goesOn then 1 else 0) ≤ s.rank := by
  cases State.taken_of_step h with
  | advance => exact le_rfl
  | schedule | shutdown => cases ha
  | @dispatch w n ec x hw hx hec =>
    have hset := rank_of_worker (s := s)
      (t := { s with waits := s.waits.eraseIdx n }.setWorker w (.handling x.index (.entered ec)))
      rfl rfl rfl
    obtain ⟨hlt, -⟩ := List.getElem?_eq_some_iff.mp hx
    have hlength := List.length_eraseIdx_of_lt hlt
    simp only [hw, WorkerPc.rank, HandlerPc.rank, State.setWorker] at hset
    simp only [Action.goesOn, if_true, State.setWorker]
    omega
  | work hw ht => exact rank_handler_lt hrunning hw (State.handlerTaken_of_step ht)
  | @unwind w i e hw hinterrupted =>
    have hset := rank_of_worker (s := s) (t := s.setWorker w .exited) rfl rfl rfl
    simp only [hw, WorkerPc.rank, HandlerPc.rank, State.setWorker] at hset
    simp only [Action.goesOn, if_true, State.setWorker]
    omega
  | @exit w hw hreturns =>
    have hset := rank_of_worker (s := s) (t := s.setWorker w .exited) rfl rfl rfl
    simp only [hw, WorkerPc.rank, State.setWorker] at hset
    simp only [Action.goesOn, if_true, State.setWorker]
    omega
  | client ht => exact rank_client_lt ht

end

/-! ### A closed executor -/

section

variable [Fintype ω] [DecidableEq ω] [DecidableEq κ] {s t : State ω κ T} {spurious : Bool}
  {a : Action ω κ T}

theorem closed_step (hrunning : s.running = false) (h : s.step spurious a = some t) :
    t.running = false := by
  cases State.taken_of_step h with
  | advance | dispatch | unwind | exit | schedule | shutdown => exact hrunning
  | work hw ht => cases State.handlerTaken_of_step ht <;> exact hrunning
  | @client c t ht =>
    generalize s.client c = pc at ht
    cases State.clientTaken_of_step ht <;> first | exact hrunning | rfl

/-! ### Callers that reset the work pointer -/

def State.stages (s : State ω κ T) : κ → Option ScopedPtr.Stage := ClientPc.stage ∘ s.client

omit [Fintype ω] [DecidableEq ω] in
theorem resets_client {c : κ} (h : s.ClientTaken c (s.client c) t) :
    ScopedPtr.Taken s.workPtr s.stages t.workPtr t.stages := by
  generalize hpc : s.client c = pc at h
  have hc : (s.client c).stage = pc.stage := congrArg ClientPc.stage hpc
  cases h with
  | @releaseWork stage workPtr next hreset =>
    have hnext : (next.elim (ClientPc.interrupting (T := T)) .releasingWork).stage = next := by
      cases next <;> rfl
    exact ScopedPtr.taken_access _ rfl hc (hnext.symm ▸ hreset)
  | clear => exact ScopedPtr.taken_outside _ rfl hc (.inr rfl)
  | _ => exact ScopedPtr.taken_outside _ rfl hc (.inl rfl)

theorem resets_of_step (h : s.step spurious a = some t) :
    ScopedPtr.Taken s.workPtr s.stages t.workPtr t.stages := by
  cases State.taken_of_step h with
  | advance | dispatch | unwind | exit => exact .other
  | work hw ht => cases State.handlerTaken_of_step ht <;> exact .other
  | schedule hc | shutdown hc =>
    exact ScopedPtr.taken_outside _ rfl (congrArg ClientPc.stage hc) (.inl rfl)
  | client ht => exact resets_client (State.clientTaken_of_step ht)

theorem never_deletedTwice {clock : ℤ} {as : List (Action ω κ T)}
    (halone : Machine.Always (State.step spurious) (fun s => ScopedPtr.Alone s.stages)
      (State.init clock : State ω κ T) as) :
    Machine.Always (State.step spurious)
      (fun s => ¬ScopedPtr.DeletedTwice s.workPtr s.stages)
      (State.init clock : State ω κ T) as := by
  have howned : Machine.Always (State.step spurious)
      (fun s => ScopedPtr.Owned s.workPtr s.stages) (State.init clock : State ω κ T) as :=
    Machine.always_of_along (fun hs hs' ht => hs.step hs' (resets_of_step ht))
      (ScopedPtr.owned_new fun _ => rfl)
      (Machine.along_of_always (C := fun s _ => ScopedPtr.Alone s.stages) (fun hs _ => hs) halone)
  exact howned.imp fun s hs => hs.not_deletedTwice

/-! ### Nobody blocks for good -/

/-- The mutex is held by a caller that cancels the timers, and a caller about to join the threads
has reset the work pointer or stopped the service. -/
structure Shutting (s : State ω κ T) : Prop where
  holder : s.locked → ∃ c i, s.client c = .cancelling i
  past : ∀ c, s.client c = .interrupting ∨ s.client c = .joining →
    s.workPtr.set = false ∨ s.stopped
  released : ScopedPtr.Released s.workPtr s.stages

omit [Fintype ω] [DecidableEq ω] [DecidableEq κ] in
theorem Shutting.init (clock : ℤ) : Shutting (State.init clock : State ω κ T) := by
  refine ⟨fun h => (nomatch h), fun c h => ?_, ScopedPtr.released_new fun _ => rfl⟩
  rcases h with h | h <;> cases h

omit [Fintype ω] [DecidableEq ω] [DecidableEq κ] in
theorem Shutting.frame (hs : Shutting s) (hclient : t.client = s.client)
    (hlocked : t.locked = s.locked) (hwork : t.workPtr = s.workPtr)
    (hstopped : t.stopped = s.stopped) : Shutting t := by
  refine ⟨?_, ?_, ?_⟩
  · rw [hlocked, hclient]
    exact hs.holder
  · rw [hclient, hwork, hstopped]
    exact hs.past
  · rw [State.stages, hclient, hwork]
    exact hs.released

omit [Fintype ω] [DecidableEq ω] in
theorem Shutting.client (hs : Shutting s) {c : κ} {x : ClientPc T}
    (hreleased : ScopedPtr.Released t.workPtr t.stages)
    (hclient : t.client = Function.update s.client c x)
    (hlocked : t.locked → (s.locked ∧ ∀ i, s.client c ≠ .cancelling i) ∨ ∃ i, x = .cancelling i)
    (hx : x = .interrupting ∨ x = .joining → t.workPtr.set = false ∨ t.stopped)
    (hwork : s.workPtr.set = false → t.workPtr.set = false) (hstopped : s.stopped → t.stopped) :
    Shutting t := by
  refine ⟨fun h => ?_, fun d hd => ?_, hreleased⟩
  · rcases hlocked h with ⟨hl, hc⟩ | ⟨i, rfl⟩
    · obtain ⟨d, i, hd⟩ := hs.holder hl
      have hdc : d ≠ c := by
        rintro rfl
        exact hc i hd
      exact ⟨d, i, by rw [hclient, Function.update_of_ne hdc, hd]⟩
    · exact ⟨c, i, by rw [hclient, Function.update_self]⟩
  · rw [hclient, Function.update_apply] at hd
    split_ifs at hd
    · exact hx hd
    · exact (hs.past d hd).imp hwork hstopped

theorem Shutting.step (hs : Shutting s) (h : s.step spurious a = some t) : Shutting t := by
  have hreleased := hs.released.step (resets_of_step h)
  cases State.taken_of_step h with
  | advance | dispatch | unwind | exit => exact hs.frame rfl rfl rfl rfl
  | work hw ht => cases State.handlerTaken_of_step ht <;> exact hs.frame rfl rfl rfl rfl
  | schedule hc | shutdown hc =>
    exact hs.client hreleased rfl (fun h => .inl ⟨h, by simp [hc]⟩) (by simp) id id
  | @client c t ht =>
    generalize hpc : s.client c = pc at ht
    have hstage : s.stages c = pc.stage := congrArg ClientPc.stage hpc
    cases State.clientTaken_of_step ht with
    | construct | push | wait | proceed | giveUp | join | clearNow | clear =>
      exact hs.client hreleased rfl (fun h => .inl ⟨h, by simp [hpc]⟩) (by simp) id id
    | lock | cancel => exact hs.client hreleased rfl (fun _ => .inr ⟨_, rfl⟩) (by simp) id id
    | unlock => exact hs.client hreleased rfl (fun h => (nomatch h)) (by simp) id id
    | stopService =>
      exact hs.client hreleased rfl (fun h => .inl ⟨h, by simp [hpc]⟩) (fun _ => .inr rfl) id
        fun _ => rfl
    | @releaseWork stage workPtr next hreset =>
      refine hs.client hreleased rfl (fun h => .inl ⟨h, by simp [hpc]⟩) (fun hnext => .inl ?_)
        (ScopedPtr.set_step hreset) id
      cases next with
      | none => exact hs.released.set_of_through hstage hreset
      | some next => simp at hnext
    | interrupt =>
      exact hs.client hreleased rfl (fun h => .inl ⟨h, by simp [hpc]⟩)
        (fun _ => hs.past c (.inl hpc)) id id

theorem client_idle_of_stuck (hs : Shutting s) (hrunning : s.running = false)
    (hstuck : ∀ a, a.goesOn → s.step spurious a = none)
    (honce : ¬ScopedPtr.DeletedTwice s.workPtr s.stages)
    (hdue : ∀ x ∈ s.waits, s.expiry x.index ≤ s.clock) (c : κ) : s.client c = .idle := by
  have hlocked : s.locked = false := by
    by_contra h
    obtain ⟨d, i, hd⟩ := hs.holder (Bool.eq_true_of_not_eq_false h)
    have hnone := hstuck (.client d) rfl
    simp only [State.step, State.clientStep, hd] at hnone
    split_ifs at hnone
  have hreset : ∀ d st, s.stages d = some st → s.workPtr.step st = none := fun d st hd => by
    have hnone := hstuck (.client d) rfl
    simpa only [State.step, State.clientStep, ClientPc.stage_eq_some_iff.mp hd,
      Option.map_eq_none_iff] using hnone
  cases hpc : s.client c with
  | idle => rfl
  | releasingWork stage =>
    have hstage : s.stages c = some stage := ClientPc.stage_eq_some_iff.mpr hpc
    exact absurd (ScopedPtr.deletedTwice_of_stuck hstage (hreset c stage hstage)) honce
  | scheduling | constructed | pushed | leaving | clearing | locking | stoppingService
  | interrupting =>
    have hnone := hstuck (.client c) rfl
    simp [State.step, State.clientStep, hpc, hlocked] at hnone
  | cancelling i =>
    have hnone := hstuck (.client c) rfl
    simp only [State.step, State.clientStep, hpc] at hnone
    split_ifs at hnone
  | joining =>
    have hquiet : ∀ w i pc, s.worker w ≠ .handling i pc := fun w i pc hw => by
      have hnone := hstuck (.work w false) rfl
      cases pc with
      | checked =>
        cases he : s.timerTasks[i]? <;>
          simp [State.step, State.handlerStep, hw, hlocked, he] at hnone
      | entered | copied | running | ran | rearmed =>
        simp [State.step, State.handlerStep, hw, hrunning] at hnone
    have hexited : ∀ w, s.worker w = .exited := fun w => by
      cases hw : s.worker w with
      | handling i pc => exact absurd hw (hquiet w i pc)
      | exited => rfl
      | idle =>
        -- the thread returns from `run` unless a wait is left, and a wait left can complete
        have hexit := hstuck (.exit w) rfl
        simp only [State.step, hw, ite_eq_right_iff, reduceCtorEq, imp_false,
          Bool.not_eq_true] at hexit
        simp only [State.runReturns, Bool.or_eq_false_iff, Bool.and_eq_false_iff,
          Bool.not_eq_false', decide_eq_false_iff_not] at hexit
        obtain ⟨hstopped, hleft⟩ := hexit
        have hset : s.workPtr.set = false :=
          (hs.past c (.inr hpc)).resolve_right (by simp [hstopped])
        have hwork : s.workPtr.alive = false := hs.released.gone hset hreset
        rcases hleft with (hleft | hleft) | hleft
        · cases hwork.symm.trans hleft
        · obtain ⟨x, rest, hwaits⟩ := List.ne_nil_iff_exists_cons.mp
            (List.isEmpty_eq_false_iff.mp hleft)
          have hx : s.waits[0]? = some x := by rw [hwaits]; rfl
          have hdispatch := hstuck (.dispatch w 0 false) rfl
          have hexpiry := hdue x (by rw [hwaits]; exact List.mem_cons_self)
          simp [State.step, hw, hx, State.completes, hstopped, hexpiry] at hdispatch
        · refine absurd (fun v => ?_) hleft
          cases hv : s.worker v with
          | handling i pc => exact absurd hv (hquiet v i pc)
          | idle | exited => simp
    have hnone := hstuck (.client c) rfl
    simp [State.step, State.clientStep, hpc, hexited] at hnone

end

/-- Every shutdown of the scheduled executor comes back. From the moment `running_` is cleared, and
whatever the schedule, the pool and all callers take boundedly many steps more, beside the clock,
if no new call is made; and when none of them can go on although the timers still waited on are
due, every caller has returned. What may stop them is a second deletion of the work object, and only
where two callers reset the pointer at the same time. -/
theorem scheduled_shutdown_returns [Fintype ω] [Fintype κ] [DecidableEq ω] [DecidableEq κ]
    (spurious : Bool) (clock : ℤ) (as : List (Action ω κ T)) :
    Machine.Always (State.step spurious)
      (fun s => s.running = false → ∀ bs t, Machine.run (State.step spurious) s bs = some t →
        (∀ a ∈ bs, a.isCall = false) →
        bs.countP Action.goesOn ≤ s.rank ∧
          ((∀ a, a.goesOn → t.step spurious a = none) →
            (∀ x ∈ t.waits, t.expiry x.index ≤ t.clock) →
            ¬ScopedPtr.DeletedTwice t.workPtr t.stages → ∀ c, t.client c = .idle))
      (State.init clock : State ω κ T) as ∧
    (Machine.Always (State.step spurious) (fun s => ScopedPtr.Alone s.stages)
        (State.init clock : State ω κ T) as →
      Machine.Always (State.step spurious)
        (fun s => ¬ScopedPtr.DeletedTwice s.workPtr s.stages)
        (State.init clock : State ω κ T) as) := by
  refine ⟨?_, never_deletedTwice⟩
  have hshutting : Machine.Always (State.step spurious) Shutting (State.init clock : State ω κ T)
      as := Machine.always_of_invariant (fun hs ht => hs.step ht) (.init clock) as
  refine hshutting.imp fun s hs hrunning bs t hrun hcalls => ⟨?_, fun hstuck hdue honce => ?_⟩
  · have hcount := Machine.countP_add_rank_le (A := fun a => a.isCall = false)
      (P := fun s => s.running = false) State.rank Action.goesOn
      (fun hs _ ht => closed_step hs ht) (fun hs ha ht => rank_add_le hs ha ht) hrunning hcalls hrun
    omega
  · have ht : Shutting t ∧ t.running = false :=
      (Machine.always_of_invariant (P := fun s => Shutting s ∧ s.running = false)
        (fun hs ht => ⟨hs.1.step ht, closed_step hs.2 ht⟩) ⟨hs, hrunning⟩ bs).last hrun
    exact client_idle_of_stuck ht.1 ht.2 hstuck honce hdue

end CppMetrics.SimpleScheduledThreadPoolExecutor
