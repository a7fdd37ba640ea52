import Mathlib.Data.Fintype.Card
import CppMetrics.Concurrent.ScheduledTasks

/-! Runs of the executor: one flight of a task at a time, always the task that was registered, and
on the deadlines that were asked for. -/

namespace CppMetrics.SimpleScheduledThreadPoolExecutor

variable {ω κ T : Type*}
variable {g : ℕ → Record} {s t : State ω κ T} {spurious : Bool}

/-! ### What the tasks are promised -/

section

variable [Fintype ω]

def WorkerPc.handles (i : ℕ) : WorkerPc T → Bool
  | .handling j _ => j = i
  | _ => false

def State.flights (s : State ω κ T) (i : ℕ) : ℕ :=
  (s.waits.map Wait.index).count i + (Finset.univ.filter fun w => (s.worker w).handles i).card

def HandlerPc.timerTask? : HandlerPc T → Option (TimerTask T)
  | .entered _ | .checked => none
  | .copied e | .running e | .ran e | .rearmed e => some e

structure SingleFlight (g : ℕ → Record) (s : State ω κ T) : Prop where
  single : ∀ i, s.flights i ≤ 1
  same : ∀ w i pc e, s.worker w = .handling i pc → pc.timerTask? = some e →
    s.timerTasks[i]? = some e
  rate : ∀ i e, s.timerTasks[i]? = some e → e.fixedRate → (g i).faultless →
    ∀ (m : ℕ) d, (g i).deadlines[m]? = some d → d = (g i).first + m * e.period

def Delayed (g : ℕ → Record) (s : State ω κ T) : Prop :=
  ∀ i e, s.timerTasks[i]? = some e → e.fixedRate = false → ∀ gap ∈ (g i).gaps, e.period ≤ gap

/-- The action is no re-arm of a fixed-delay timer that reports an error. -/
def RearmsDelay (s : State ω κ T) : Action ω κ T → Prop
  | .work w true => ∀ i e, s.worker w = .handling i (.ran e) → e.fixedRate
  | _ => True

theorem WorkerPc.handles_iff {x : WorkerPc T} {i : ℕ} :
    x.handles i ↔ ∃ pc, x = .handling i pc := by
  cases x <;> simp [WorkerPc.handles]

theorem Invariant.flights_le_one (h : Invariant g s) (i : ℕ) : s.flights i ≤ 1 := by
  have hwaits : (s.waits.map Wait.index).count i ≤ 1 :=
    List.nodup_iff_count_le_one.mp h.waits_nodup i
  have hhandles : ∀ w ∈ Finset.univ.filter fun w => (s.worker w).handles i, Holds s (.worker w) i :=
    fun w hw => WorkerPc.handles_iff.mp (Finset.mem_filter.mp hw).2
  rcases Finset.eq_empty_or_nonempty (Finset.univ.filter fun w => (s.worker w).handles i) with
    hnone | ⟨w, hw⟩
  · rw [State.flights, hnone, Finset.card_empty]
    exact hwaits
  · -- a handler excludes a wait, and any two handlers of the index are the same thread
    have hwait : i ∉ s.waits.map Wait.index := h.not_wait (hhandles w hw) (by simp)
    rw [State.flights, List.count_eq_zero_of_not_mem hwait, Nat.zero_add, Finset.card_le_one]
    intro w' hw' w'' hw''
    exact Holder.worker.inj (h.exclusive (hhandles w' hw') (hhandles w'' hw''))

theorem Invariant.singleFlight (h : Invariant g s) : SingleFlight g s where
  single := h.flights_le_one
  same w i pc e hw he := by
    have hok := h.handler w i pc hw
    cases pc with
    | entered => cases he
    | checked => cases he
    | _ =>
      cases he
      exact hok.1
  rate i e he hrate hok := (h.onTime i e he).rate hok hrate

end

/-! ### One step of a handler -/

theorem abort_waits (index : ℕ) (s : State ω κ T) :
    (s.abort index).waits.map Wait.index = s.waits.map Wait.index := by
  rw [State.abort, List.map_map]
  refine List.map_congr_left fun x _ => ?_
  rw [Function.comp_apply]
  split_ifs <;> rfl

theorem Invariant.work [DecidableEq ω] (h : Invariant g s) {w : ω} {i : ℕ} {pc : HandlerPc T}
    {eec : Bool} (hw : s.worker w = .handling i pc) (hstep : s.handlerStep w eec i pc = some t) :
    Invariant (Function.update g i (noteHandler s eec i (g i) pc)) t := by
  have hok := h.handler w i pc hw
  cases State.handlerTaken_of_step hstep with
  | leave =>
    refine h.handlerStep hw rfl rfl (fun _ _ => rfl) rfl rfl rfl ?_ (h.ended i) (h.onTime i)
    rintro j pc' ⟨⟩
  | check _ hnone =>
    -- only a completion without an error tells that the expiry has come
    obtain ⟨e, he, harmed, hec⟩ := hok
    refine h.handlerStep hw rfl rfl (fun _ _ => rfl) rfl rfl rfl ?_ (h.ended i) (h.onTime i)
    rintro j pc' ⟨⟩
    exact ⟨rfl, e, he, harmed, hec hnone⟩
  | missing hmissing =>
    obtain ⟨e, he, -⟩ := hok
    cases he.symm.trans hmissing
  | copy hcopy =>
    obtain ⟨e, he, hok⟩ := hok
    cases he.symm.trans hcopy
    refine h.handlerStep hw rfl rfl (fun _ _ => rfl) rfl rfl rfl ?_ (h.ended i) (h.onTime i)
    rintro j pc' ⟨⟩
    exact ⟨rfl, he, hok⟩
  | @start _ e =>
    obtain ⟨he, harmed, hclock⟩ := hok
    refine h.handlerStep hw rfl rfl (fun _ _ => rfl) rfl rfl rfl ?_ (h.ended i) fun e' he' => ?_
    · rintro j pc' ⟨⟩
      exact ⟨rfl, he, harmed.noteStart⟩
    · cases he.symm.trans he'
      exact (h.onTime i e he).noteStart harmed hclock
  | finish =>
    obtain ⟨he, hstarted⟩ := hok
    refine h.handlerStep hw rfl rfl (fun _ _ => rfl) rfl rfl rfl ?_ ?_
      fun e' he' => (h.onTime i e' he').noteEnd
    · rintro j pc' ⟨⟩
      exact ⟨rfl, he, hstarted.noteEnd⟩
    · rintro d ⟨⟩
      exact le_rfl
  | rearmError =>
    obtain ⟨he, hstarted⟩ := hok
    refine h.handlerStep hw rfl rfl (fun _ _ => rfl) rfl rfl rfl ?_ (h.ended i)
      fun e' he' => (h.onTime i e' he').noteRearm true
    rintro j pc' ⟨⟩
    exact ⟨rfl, he, Armed.noteRearm_error⟩
  | @rearm e =>
    obtain ⟨he, hstarted⟩ := hok
    refine h.handlerStep hw (abort_waits i s) rfl
      (fun j hj => Function.update_of_ne hj _ _) rfl rfl rfl ?_ (h.ended i)
      fun e' he' => (h.onTime i e' he').noteRearm false
    rintro j pc' ⟨⟩
    refine ⟨rfl, he, ?_⟩
    show Armed _ e (Function.update s.expiry i _ i)
    rw [Function.update_self]
    exact hstarted.noteRearm (h.ended i)
  | @wait _ e =>
    simp only [noteHandler, Function.update_eq_self]
    refine h.asyncWait (k := .worker w) ⟨_, hw⟩ (by simp) ⟨e, hok⟩ List.map_append rfl rfl rfl ?_
      fun c j hc => ⟨hc, by simp⟩
    intro w' j pc' hpc
    simp only [State.setWorker, Function.update_apply] at hpc
    split_ifs at hpc with heq
    exact ⟨hpc, fun hk => heq (Holder.worker.inj hk.1)⟩

/-! ### The other steps -/

theorem Invariant.setWorker [DecidableEq ω] (h : Invariant g s) (w : ω) {x : WorkerPc T}
    (hx : ∀ i pc, x ≠ .handling i pc) : Invariant g (s.setWorker w x) := by
  refine h.neutral rfl rfl rfl le_rfl (fun w' i pc hpc => ?_) fun _ _ hc => hc
  simp only [State.setWorker, Function.update_apply] at hpc
  split_ifs at hpc
  · exact absurd hpc (hx i pc)
  · exact hpc

theorem Invariant.setClient [DecidableEq κ] (h : Invariant g s) (c : κ) {x : ClientPc T}
    (hx : ∀ i, x ≠ .pushed i) : Invariant g (s.setClient c x) := by
  refine h.neutral rfl rfl rfl le_rfl (fun _ _ _ hw => hw) fun c' i hc => ?_
  simp only [State.setClient, Function.update_apply] at hc
  split_ifs at hc
  · exact absurd hc (hx i)
  · exact hc

theorem Invariant.flags (h : Invariant g s) (running stopped interrupted locked : Bool)
    (workPtr : ScopedPtr) : Invariant g { s with
      running := running
      workPtr := workPtr
      stopped := stopped
      interrupted := interrupted
      locked := locked } :=
  h.neutral rfl rfl rfl le_rfl (fun _ _ _ hw => hw) fun _ _ hc => hc

theorem Invariant.abort (h : Invariant g s) (index : ℕ) : Invariant g (s.abort index) :=
  h.neutral (abort_waits index s) rfl rfl le_rfl (fun _ _ _ hw => hw) fun _ _ hc => hc

theorem Invariant.init (clock : ℤ) :
    Invariant (fun _ => Record.new 0) (State.init clock : State ω κ T) := by
  constructor
  case exclusive =>
    intro i k k' hk
    cases k with
    | wait => cases hk
    | worker w => exact absurd hk.choose_spec (by simp [State.init])
    | client c => cases hk
  case waits_nodup => exact List.nodup_nil
  case wait => rintro i ⟨⟩
  case handler => rintro w i pc ⟨⟩
  case client => rintro c i ⟨⟩
  case ended => rintro i d ⟨⟩
  case onTime => rintro i e ⟨⟩

theorem note_faultless {a : Action ω κ T} {i : ℕ} (hg : (g i).faultless)
    (ha : ∀ w e, a = .work w true → s.worker w ≠ .handling i (.ran e)) :
    (note g s a i).faultless := by
  cases a with
  | work w eec =>
    simp only [note]
    generalize hw : s.worker w = x
    cases x with
    | handling j pc =>
      simp only [Function.update_apply]
      split_ifs with heq
      · subst heq
        cases pc with
        | ran e =>
          cases eec with
          | true => exact absurd hw (ha w e rfl)
          | false => simpa [noteHandler, Record.noteRearm] using hg
        | _ => exact hg
      · exact hg
    | _ => exact hg
  | unwind w =>
    simp only [note]
    generalize s.worker w = x
    cases x with
    | handling j pc =>
      cases pc with
      | running e =>
        simp only [Function.update_apply]
        split_ifs with heq
        · subst heq
          exact hg
        · exact hg
      | _ => exact hg
    | _ => exact hg
  | client c =>
    simp only [note]
    generalize s.client c = x
    cases x with
    | constructed e expiry =>
      simp only [Function.update_apply]
      split_ifs
      · rfl
      · exact hg
    | _ => exact hg
  | _ => exact hg

variable [Fintype ω] [DecidableEq κ]

theorem Invariant.clientStep (h : Invariant g s) {c : κ}
    (hstep : s.clientStep c (s.client c) = some t) : Invariant (note g s (.client c)) t := by
  simp only [note]
  generalize hpc : s.client c = pc at hstep
  cases State.clientTaken_of_step hstep with
  | construct => exact h.setClient c (by simp)
  | @push e expiry => exact h.push c e expiry
  | @wait i =>
    refine h.asyncWait (k := .client c) hpc (by simp) (h.client c i hpc) List.map_append rfl rfl
      rfl (fun w j pc hw => ⟨hw, by simp⟩) ?_
    intro c' j hc'
    simp only [State.setClient, Function.update_apply] at hc'
    split_ifs at hc' with heq
    exact ⟨hc', fun hk => heq (Holder.client.inj hk.1)⟩
  | proceed | giveUp | join => exact h.setClient c (by simp)
  | clearNow | clear =>
    exact (h.flags false s.stopped s.interrupted s.locked s.workPtr).setClient c (by simp)
  | lock => exact (h.flags s.running s.stopped s.interrupted true s.workPtr).setClient c (by simp)
  | @cancel i => exact (h.abort i).setClient c (by simp)
  | unlock =>
    exact (h.flags s.running s.stopped s.interrupted false s.workPtr).setClient c (by simp)
  | stopService =>
    exact (h.flags s.running true s.interrupted s.locked s.workPtr).setClient c (by simp)
  | @releaseWork stage workPtr next hreset =>
    exact (h.flags s.running s.stopped s.interrupted s.locked workPtr).setClient c
      (by cases next <;> simp)
  | interrupt => exact (h.flags s.running s.stopped true s.locked s.workPtr).setClient c (by simp)

theorem Invariant.step [DecidableEq ω] (h : Invariant g s) {a : Action ω κ T}
    (hstep : s.step spurious a = some t) : Invariant (note g s a) t := by
  cases State.taken_of_step hstep with
  | advance hnow => exact h.neutral rfl rfl rfl hnow (fun _ _ _ hw => hw) fun _ _ hc => hc
  | dispatch hw hx hec =>
    refine h.dispatch hx hw ?_
    rintro rfl
    simpa using (Bool.and_eq_true_iff.mp hec).2
  | work hw ht =>
    simp only [note, hw]
    exact h.work hw ht
  | unwind hw =>
    simp only [note, hw]
    refine h.handlerStep hw rfl rfl (fun _ _ => rfl) rfl rfl rfl (by simp) ?_
      fun e' he' => (h.onTime _ e' he').noteEnd
    rintro d ⟨⟩
    exact le_rfl
  | exit => exact h.setWorker _ (by simp)
  | schedule => exact h.setClient _ (by simp)
  | shutdown => exact h.setClient _ (by simp)
  | client ht => exact h.clientStep ht

/-! ### Entries and errors -/

theorem step_timerTasks [DecidableEq ω] {a : Action ω κ T} (hstep : s.step spurious a = some t) :
    t.timerTasks = s.timerTasks ∨ ∃ c e expiry, a = .client c ∧
      s.client c = .constructed e expiry ∧ t.timerTasks = s.timerTasks ++ [e] := by
  cases State.taken_of_step hstep with
  | @client c t ht =>
    generalize hpc : s.client c = pc at ht
    cases State.clientTaken_of_step ht with
    | @push e expiry => exact Or.inr ⟨c, e, expiry, rfl, hpc, rfl⟩
    | _ => exact Or.inl rfl
  | @work w eec i pc t hw ht =>
    left
    cases State.handlerTaken_of_step ht <;> rfl
  | _ => exact Or.inl rfl

theorem entries_grow [DecidableEq ω] {a : Action ω κ T} (hstep : s.step spurious a = some t) :
    s.timerTasks <+: t.timerTasks := by
  rcases step_timerTasks hstep with heq | ⟨c, e, expiry, -, -, heq⟩
  · rw [heq]
  · rw [heq]
    exact List.prefix_append _ _

def DelaysFaultless (g : ℕ → Record) (s : State ω κ T) : Prop :=
  ∀ i e, s.timerTasks[i]? = some e → e.fixedRate = false → (g i).faultless

theorem DelaysFaultless.step [DecidableEq ω] {a : Action ω κ T} (hg : DelaysFaultless g s)
    (h : Invariant g s) (ha : RearmsDelay s a) (hstep : s.step spurious a = some t) :
    DelaysFaultless (note g s a) t := by
  have hkeep : ∀ i e, s.timerTasks[i]? = some e → e.fixedRate = false →
      (note g s a i).faultless := by
    intro i e he hdelay
    refine note_faultless (hg i e he hdelay) ?_
    rintro w e' rfl hw
    -- the handler works with the registered entry, which is of a fixed rate
    cases (h.handler w i _ hw).1.symm.trans he
    rw [ha i e hw] at hdelay
    cases hdelay
  intro i e he hdelay
  rcases step_timerTasks hstep with heq | ⟨c, e', expiry, rfl, hc, heq⟩
  · exact hkeep i e (heq ▸ he) hdelay
  · rw [heq, List.getElem?_append] at he
    split_ifs at he with hlt
    · exact hkeep i e he hdelay
    · have hlen : i = s.timerTasks.length := by
        have := (List.getElem?_eq_some_iff.mp he).1
        simp at this
        omega
      simp only [note, hc, hlen, Function.update_self]
      rfl

/-- Every task is in one flight at a time, runs as it was registered and, as long as its timer is
re-armed without an error, on its deadlines. A fixed-delay task keeps its delay in every run that
re-arms all fixed-delay timers without an error. -/
theorem tasks_keep_schedule [DecidableEq ω] (spurious : Bool) (clock : ℤ)
    (actions : List (Action ω κ T)) :
    Machine.Always (Machine.observe (State.step spurious) note) (fun x => SingleFlight x.1 x.2)
        (fun _ => Record.new 0, State.init clock) actions ∧
      (∀ s : State ω κ T, Machine.Always (State.step spurious)
        (fun t => s.timerTasks <+: t.timerTasks) s actions) ∧
      (Machine.Along (State.step spurious) RearmsDelay (State.init clock) actions →
        Machine.Always (Machine.observe (State.step spurious) note) (fun x => Delayed x.1 x.2)
          (fun _ => Record.new 0, State.init clock) actions) := by
  refine ⟨?_, fun s => ?_, fun hC => ?_⟩
  · refine (Machine.always_observe_of_invariant (P := Invariant) ?_ (Invariant.init clock)
      actions).imp fun _ h => h.singleFlight
    exact fun h hstep => h.step hstep
  · refine Machine.always_of_invariant
      (P := fun t : State ω κ T => s.timerTasks <+: t.timerTasks) ?_
      (List.prefix_refl s.timerTasks) actions
    exact fun h hstep => h.trans (entries_grow hstep)
  · refine (Machine.always_observe_of_along (P := fun g s => Invariant g s ∧ DelaysFaultless g s)
      ?_ ⟨Invariant.init clock, ?_⟩ hC).imp ?_
    · exact fun h ha hstep => ⟨h.1.step hstep, h.2.step h.1 ha hstep⟩
    · rintro i e ⟨⟩
    · rintro ⟨g, s⟩ ⟨h, hg⟩ i e he hdelay
      exact (h.onTime i e he).delay (hg i e he hdelay) hdelay

def startsAgain (eec : Bool) (now : ℤ) : List (Action (Fin 1) (Fin 1) Unit) :=
  List.flatten [[.schedule 0 () 5 false], List.replicate 3 (.client 0),
    [.advance 5, .dispatch 0 0 false], List.replicate 3 (.work 0 false),
    [.advance 6, .work 0 false, .work 0 eec, .work 0 false],
    [.advance now, .dispatch 0 0 false], List.replicate 3 (.work 0 false)]

theorem tasks_keep_schedule_startsAgain :
    Machine.Along (State.step false) RearmsDelay (State.init 0) (startsAgain false 11) ∧
      Machine.Always (Machine.observe (State.step false) note) (fun x => Delayed x.1 x.2)
        (fun _ => Record.new 0, State.init 0) (startsAgain false 11) := by
  have hC : Machine.Along (State.step false) RearmsDelay (State.init 0) (startsAgain false 11) := by
    refine Machine.along_of_forall fun a ha s => ?_
    simp only [startsAgain, List.flatten_cons, List.mem_append, List.mem_cons, List.mem_replicate,
      List.flatten_nil, List.not_mem_nil, or_false] at ha
    rcases ha with rfl | ⟨-, rfl⟩ | (rfl | rfl) | ⟨-, rfl⟩ | (rfl | rfl | rfl | rfl) |
      (rfl | rfl) | ⟨-, rfl⟩ <;> trivial
  exact ⟨hC, (tasks_keep_schedule false 0 (startsAgain false 11)).2.2 hC⟩

/-- Nobody cancelled anything, and the second run starts when the first has just ended. -/
theorem delay_is_skipped :
    ¬Machine.Always (Machine.observe (State.step false) note)
      (fun x => SingleFlight x.1 x.2 ∧ Delayed x.1 x.2)
      (fun _ => Record.new 0, State.init 0) (startsAgain true 6) := by
  intro h
  have hrun : (Machine.run (Machine.observe (State.step false) note)
      (fun _ => Record.new 0, State.init 0) (startsAgain true 6)).map
        (fun x => (x.2.timerTasks[0]?.map fun e => (e.period, e.fixedRate), (x.1 0).gaps)) =
      some (some (5, false), [0]) := by decide +kernel
  obtain ⟨x, hx, hend⟩ := Option.map_eq_some_iff.mp hrun
  obtain ⟨htask, hgaps⟩ := Prod.mk.inj hend
  obtain ⟨e, he, hperiod⟩ := Option.map_eq_some_iff.mp htask
  obtain ⟨hperiod, hdelay⟩ := Prod.mk.inj hperiod
  have hgap := (h.last hx).2 0 e he hdelay 0 (by rw [hgaps]; exact List.mem_singleton_self 0)
  rw [hperiod] at hgap
  exact absurd hgap (by decide)

end CppMetrics.SimpleScheduledThreadPoolExecutor
