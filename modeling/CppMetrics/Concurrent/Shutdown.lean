import CppMetrics.Concurrent.SingleFlight

/-! Shutting the executor down: what still starts once `running_` is cleared, and that nothing
starts once the call has returned. -/

namespace CppMetrics.SimpleScheduledThreadPoolExecutor

section

variable {ω κ T : Type*}

def WorkerPc.Past (x : WorkerPc T) (i : ℕ) : Prop :=
  x = .handling i .checked ∨ ∃ e, x = .handling i (.copied e)

def State.Past (s : State ω κ T) (i : ℕ) : Prop := ∃ w, (s.worker w).Past i

def ClientPc.inShutdown : ClientPc T → Bool
  | .idle | .scheduling _ | .constructed .. | .pushed _ => false
  | _ => true

end

/-- The calls made, the handlers that were past the check when `running_` was cleared, the starts
of each task since then, whether a call has returned, and the starts since then. -/
structure ShutdownLog where
  calls : ℕ
  passed : ℕ → Prop
  late : ℕ → ℕ
  returned : Bool
  afterReturn : ℕ → ℕ

namespace ShutdownLog

variable {ω κ T : Type*}

def init : ShutdownLog := ⟨0, fun _ => False, fun _ => 0, false, fun _ => 0⟩

def noteStart (g : ShutdownLog) (running : Bool) (i : ℕ) : ShutdownLog :=
  { g with
    late := if running then g.late else Function.update g.late i (g.late i + 1)
    afterReturn :=
      if g.returned then Function.update g.afterReturn i (g.afterReturn i + 1)
      else g.afterReturn }

def note (g : ShutdownLog) (s : State ω κ T) : Action ω κ T → ShutdownLog
  | .shutdown .. => { g with calls := g.calls + 1 }
  | .work w _ =>
    match s.worker w with
    | .handling i (.copied _) => g.noteStart s.running i
    | _ => g
  | .client c =>
    match s.client c with
    | .leaving _ => if s.running then g else { g with returned := true }
    | .clearing _ => if s.running then { g with passed := s.Past } else g
    | .joining => { g with returned := true }
    | _ => g
  | _ => g

/-- A task starts at most once more after `running_` was cleared, and only in a handler that was
past the check by then. -/
def LastStarts (g : ShutdownLog) : Prop := ∀ i, g.late i ≤ 1 ∧ (g.late i ≠ 0 → g.passed i)

/-- No task starts once the one call has returned. -/
def NoneAfterReturn (g : ShutdownLog) : Prop := g.calls ≤ 1 → ∀ i, g.afterReturn i = 0

end ShutdownLog

/-! ### What a handler does, and a caller does not -/

section

variable {ω κ T : Type*} [DecidableEq ω] {s t : State ω κ T} {w : ω} {i : ℕ} {pc : HandlerPc T}
variable {eec : Bool}

theorem handlerStep_spec (ht : s.handlerStep w eec i pc = some t) :
    t.running = s.running ∧ t.client = s.client ∧
      ∃ x, t.worker = Function.update s.worker w x ∧
        ∀ j, x.Past j → j = i ∧ (pc = .checked ∨ s.running) ∧ ∀ e, pc ≠ .copied e := by
  cases State.handlerTaken_of_step ht with
  | check hrunning =>
    refine ⟨rfl, rfl, _, rfl, ?_⟩
    rintro j (hpast | ⟨e, hpast⟩)
    · cases hpast
      exact ⟨rfl, Or.inr hrunning, by simp⟩
    · cases hpast
  | copy =>
    refine ⟨rfl, rfl, _, rfl, ?_⟩
    rintro j (hpast | ⟨e, hpast⟩)
    · cases hpast
    · cases hpast
      exact ⟨rfl, Or.inl rfl, by simp⟩
  | _ => exact ⟨rfl, rfl, _, rfl, by simp [WorkerPc.Past]⟩

omit [DecidableEq ω] in
theorem clientStep_worker {κ : Type*} [Fintype ω] [DecidableEq κ] {s t : State ω κ T} {c : κ}
    {x : ClientPc T} (ht : s.clientStep c x = some t) : t.worker = s.worker := by
  cases State.clientTaken_of_step ht <;> rfl

end

/-! ### The starts after `running_` is cleared -/

section

variable {ω κ T : Type*} {s t : State ω κ T} {g : ShutdownLog} {i : ℕ}

structure Stopping (g : ShutdownLog) (s : State ω κ T) : Prop where
  opened : s.running → ∀ i, g.late i = 0
  bound : g.LastStarts
  pending : s.running = false → ∀ i, s.Past i → g.late i = 0 ∧ g.passed i

theorem Stopping.init (clock : ℤ) : Stopping .init (State.init clock : State ω κ T) where
  opened _ _ := rfl
  bound _ := ⟨Nat.zero_le 1, fun h => absurd rfl h⟩
  pending h := by cases h

theorem Stopping.frame (h : Stopping g s) (hrunning : t.running = s.running)
    (hpast : s.running = false → ∀ i, t.Past i → s.Past i) : Stopping g t where
  opened ht := h.opened (hrunning ▸ ht)
  bound := h.bound
  pending ht i hi := h.pending (hrunning ▸ ht) i (hpast (hrunning ▸ ht) i hi)

theorem Stopping.congr {g' : ShutdownLog} (h : Stopping g s) (hpassed : g'.passed = g.passed)
    (hlate : g'.late = g.late) : Stopping g' s := by
  obtain ⟨hopened, hbound, hpending⟩ := h
  constructor
  case opened => rwa [hlate]
  case bound =>
    intro i
    rw [hlate, hpassed]
    exact hbound i
  case pending => rwa [hlate, hpassed]

theorem WorkerPc.Past.holds {x : WorkerPc T} (h : x.Past i) : ∃ pc, x = .handling i pc := by
  rcases h with rfl | ⟨e, rfl⟩ <;> exact ⟨_, rfl⟩

variable [DecidableEq ω] {w : ω}

theorem past_of_update {x : WorkerPc T} (hworker : t.worker = Function.update s.worker w x)
    (h : t.Past i) : x.Past i ∨ ∃ w' ≠ w, (s.worker w').Past i := by
  obtain ⟨w', h⟩ := h
  rw [hworker, Function.update_apply] at h
  split_ifs at h with heq
  · exact Or.inl h
  · exact Or.inr ⟨w', heq, h⟩

omit [DecidableEq ω] in
theorem Stopping.start (h : Stopping g s) {r : ℕ → Record} (hr : Invariant r s) {e : TimerTask T}
    (hw : s.worker w = .handling i (.copied e)) (hrunning : t.running = s.running)
    (hpast : ∀ j, t.Past j → ∃ w' ≠ w, (s.worker w').Past j) :
    Stopping (g.noteStart s.running i) t := by
  by_cases hopen : s.running
  · refine Stopping.congr (h.frame hrunning fun hclosed => ?_) rfl (if_pos hopen)
    cases hopen.symm.trans hclosed
  · have hclosed : s.running = false := Bool.eq_false_iff.mpr hopen
    have hlate : (g.noteStart s.running i).late = Function.update g.late i (g.late i + 1) :=
      if_neg hopen
    obtain ⟨hnone, hpassed⟩ := h.pending hclosed i ⟨w, Or.inr ⟨e, hw⟩⟩
    constructor
    case opened => exact fun ht => absurd (hrunning ▸ ht) hopen
    case bound =>
      intro j
      rw [hlate]
      rcases eq_or_ne j i with rfl | hne
      · rw [Function.update_self, hnone]
        exact ⟨le_rfl, fun _ => hpassed⟩
      · rw [Function.update_of_ne hne]
        exact h.bound j
    case pending =>
      intro _ j hj
      obtain ⟨w', hne, hw'⟩ := hpast j hj
      have hother : j ≠ i := by
        rintro rfl
        have hholds : Holds s (.worker w') j := hw'.holds
        exact hne (Holder.worker.inj (hr.exclusive hholds (k := .worker w) ⟨_, hw⟩))
      rw [hlate, Function.update_of_ne hother]
      exact h.pending hclosed j ⟨w', hw'⟩

theorem Stopping.work (h : Stopping g s) {r : ℕ → Record} (hr : Invariant r s)
    {pc : HandlerPc T} {eec : Bool} (hw : s.worker w = .handling i pc)
    (ht : s.handlerStep w eec i pc = some t) : Stopping (g.note s (.work w eec)) t := by
  obtain ⟨hrunning, -, x, hworker, hx⟩ := handlerStep_spec ht
  simp only [ShutdownLog.note, hw]
  by_cases hcopied : ∃ e, pc = .copied e
  · obtain ⟨e, rfl⟩ := hcopied
    refine h.start hr hw hrunning fun j hj => (past_of_update hworker hj).resolve_left fun hxj => ?_
    exact (hx j hxj).2.2 e rfl
  · have hpast : s.running = false → ∀ j, t.Past j → s.Past j := by
      intro hclosed j hj
      rcases past_of_update hworker hj with hxj | ⟨w', -, hw'⟩
      · -- it was at the entry of the table already
        obtain ⟨rfl, hchecked | hopen, -⟩ := hx j hxj
        · exact ⟨w, Or.inl (hchecked ▸ hw)⟩
        · cases hopen.symm.trans hclosed
      · exact ⟨w', hw'⟩
    have hframe := h.frame hrunning hpast
    cases pc with
    | copied e => exact absurd ⟨e, rfl⟩ hcopied
    | _ => exact hframe

theorem past_of_setWorker {x : WorkerPc T} (hx : ∀ i, ¬x.Past i) {u : State ω κ T}
    (hworker : u.worker = s.worker) (h : (u.setWorker w x).Past i) : s.Past i := by
  have hupdate : (u.setWorker w x).worker = Function.update s.worker w x := by rw [← hworker]; rfl
  rcases past_of_update hupdate h with hxi | ⟨w', -, hw'⟩
  · exact absurd hxi (hx i)
  · exact ⟨w', hw'⟩

variable [Fintype ω] [DecidableEq κ] {spurious : Bool}

omit [DecidableEq ω] in
theorem Stopping.clientStep (h : Stopping g s) {c : κ}
    (ht : s.clientStep c (s.client c) = some t) : Stopping (g.note s (.client c)) t := by
  have hframe : ∀ {u : State ω κ T}, u.running = s.running → u.worker = s.worker →
      Stopping g u := by
    intro u hrunning hworker
    refine h.frame hrunning fun _ i ⟨w, hw⟩ => ⟨w, hworker ▸ hw⟩
  simp only [ShutdownLog.note]
  generalize hpc : s.client c = pc at ht
  cases State.clientTaken_of_step ht with
  | proceed hrunning =>
    dsimp only
    rw [if_pos hrunning]
    exact hframe rfl rfl
  | giveUp hclosed =>
    dsimp only
    rw [if_neg (Bool.eq_false_iff.mp hclosed)]
    exact Stopping.congr (g := g) (hframe rfl rfl) rfl rfl
  | join => exact Stopping.congr (g := g) (hframe rfl rfl) rfl rfl
  | clearNow | clear =>
    dsimp only
    by_cases hopen : s.running
    · have hnone := h.opened hopen
      rw [if_pos hopen]
      refine ⟨fun hrunning => (by cases hrunning), fun i => ?_, fun _ i hi => ⟨hnone i, hi⟩⟩
      exact ⟨(hnone i).trans_le (Nat.zero_le 1), fun hne => absurd (hnone i) hne⟩
    · rw [if_neg hopen]
      exact hframe (Bool.eq_false_iff.mpr hopen).symm rfl
  | _ => exact hframe rfl rfl

theorem Stopping.step (h : Stopping g s) {r : ℕ → Record} (hr : Invariant r s)
    {a : Action ω κ T} (hstep : s.step spurious a = some t) : Stopping (g.note s a) t := by
  cases State.taken_of_step hstep with
  | advance => exact h.frame rfl fun _ _ hi => hi
  | dispatch =>
    exact h.frame rfl fun _ _ hi => past_of_setWorker (by simp [WorkerPc.Past]) rfl hi
  | work hw ht => exact h.work hr hw ht
  | unwind | exit =>
    exact h.frame rfl fun _ _ hi => past_of_setWorker (by simp [WorkerPc.Past]) rfl hi
  | schedule => exact h.frame rfl fun _ _ hi => hi
  | shutdown => exact Stopping.congr (g := g) (h.frame rfl fun _ _ hi => hi) rfl rfl
  | client ht => exact h.clientStep ht

end

/-! ### After the return -/

section

variable {ω κ T : Type*} {s t : State ω κ T} {g : ShutdownLog}

/-- The one call: not made, made by `c`, or returned when all threads of the pool were gone. -/
inductive OneCall (g : ShutdownLog) (s : State ω κ T) : Prop
  | notYet (hcalls : g.calls = 0) (hreturned : g.returned = false) (hrunning : s.running)
      (hclient : ∀ c, (s.client c).inShutdown = false)
  | inside (c : κ) (hcalls : g.calls = 1) (hreturned : g.returned = false)
      (hc : (s.client c).inShutdown) (hleaving : ∀ now, s.client c = .leaving now → s.running)
      (hclient : ∀ c' ≠ c, (s.client c').inShutdown = false)
  | returned (hcalls : g.calls = 1) (hexited : ∀ w, s.worker w = .exited)
      (hclient : ∀ c, (s.client c).inShutdown = false)

theorem OneCall.init (clock : ℤ) : OneCall .init (State.init clock : State ω κ T) :=
  .notYet rfl rfl rfl fun _ => rfl

theorem OneCall.frame (h : OneCall g s) {g' : ShutdownLog} (hcalls : g'.calls = g.calls)
    (hreturned : g'.returned = g.returned) (hrunning : t.running = s.running)
    (hexited : ∀ w, s.worker w = .exited → t.worker w = .exited)
    (hclient : ∀ c, t.client c = s.client c ∨
      (s.client c).inShutdown = false ∧ (t.client c).inShutdown = false) : OneCall g' t := by
  have hkeep : ∀ c, (t.client c).inShutdown = (s.client c).inShutdown := by
    intro c
    rcases hclient c with heq | ⟨hs, ht⟩
    · rw [heq]
    · rw [hs, ht]
  cases h with
  | notYet h0 hr hrun hc =>
    exact .notYet (hcalls.trans h0) (hreturned.trans hr) (hrunning ▸ hrun)
      fun c => (hkeep c).trans (hc c)
  | inside c h1 hr hin hleaving hc =>
    refine .inside c (hcalls.trans h1) (hreturned.trans hr) ((hkeep c).trans hin) ?_
      fun c' hne => (hkeep c').trans (hc c' hne)
    intro now hnow
    rcases hclient c with heq | ⟨hs, -⟩
    · exact hrunning ▸ hleaving now (heq ▸ hnow)
    · cases hin.symm.trans hs
  | returned h1 hw hc =>
    exact .returned (hcalls.trans h1) (fun w => hexited w (hw w)) fun c => (hkeep c).trans (hc c)

theorem exited_of_setWorker [DecidableEq ω] {w w' : ω} {x : WorkerPc T} {u : State ω κ T}
    (hworker : u.worker = s.worker) (hw : s.worker w ≠ .exited ∨ x = .exited)
    (h : s.worker w' = .exited) : (u.setWorker w x).worker w' = .exited := by
  show Function.update u.worker w x w' = _
  rw [hworker, Function.update_apply]
  split_ifs with heq
  · exact hw.resolve_left (not_not.mpr (heq ▸ h))
  · exact h

variable [DecidableEq κ]

theorem inShutdown_of_setClient {c c' : κ} {x : ClientPc T} {u : State ω κ T}
    (hclient : u.client = s.client) (hc : (s.client c).inShutdown = false)
    (hx : x.inShutdown = false) :
    (u.setClient c x).client c' = s.client c' ∨
      (s.client c').inShutdown = false ∧ ((u.setClient c x).client c').inShutdown = false := by
  show Function.update u.client c x c' = _ ∨ _ ∧ (Function.update u.client c x c').inShutdown = _
  rw [hclient, Function.update_apply]
  split_ifs with heq
  · exact Or.inr ⟨heq ▸ hc, hx⟩
  · exact Or.inl rfl

theorem OneCall.goOn {c : κ} {x : ClientPc T} {u : State ω κ T} (hcalls : g.calls = 1)
    (hreturned : g.returned = false) (hclient : ∀ c' ≠ c, (s.client c').inShutdown = false)
    (hu : u.client = s.client) (hx : x.inShutdown)
    (hleaving : ∀ now, x = .leaving now → u.running) : OneCall g (u.setClient c x) := by
  refine .inside c hcalls hreturned ?_ (fun now hnow => hleaving now ?_) fun c' hne => ?_
  · rwa [State.setClient_self]
  · rwa [State.setClient_self] at hnow
  · show (Function.update u.client c x c').inShutdown = false
    rw [Function.update_of_ne hne, hu]
    exact hclient c' hne

variable [Fintype ω]

theorem OneCall.call (h : OneCall g s) {c : κ} (hin : (s.client c).inShutdown)
    (ht : s.clientStep c (s.client c) = some t) : OneCall (g.note s (.client c)) t := by
  cases h with
  | notYet _ _ _ hc => cases hin.symm.trans (hc c)
  | returned _ _ hc => cases hin.symm.trans (hc c)
  | inside c' h1 hr _ hleaving hc =>
    have heq : c = c' := by
      by_contra hne
      cases hin.symm.trans (hc c hne)
    subst heq
    simp only [ShutdownLog.note]
    generalize hpc : s.client c = pc at hin ht hleaving
    cases State.clientTaken_of_step ht with
    | construct | push | wait => cases hin
    | proceed hrunning =>
      dsimp only
      rw [if_pos hrunning]
      exact .goOn h1 hr hc rfl rfl (by simp)
    | giveUp hclosed => cases hclosed.symm.trans (hleaving _ rfl)
    | clearNow | clear =>
      dsimp only
      by_cases hopen : s.running
      · rw [if_pos hopen]
        exact .goOn (s := s) h1 hr hc rfl rfl (by simp)
      · rw [if_neg hopen]
        exact .goOn (s := s) h1 hr hc rfl rfl (by simp)
    | join hexited =>
      refine .returned h1 hexited fun c' => ?_
      show (Function.update s.client c .idle c').inShutdown = false
      rw [Function.update_apply]
      split_ifs with heq
      · rfl
      · exact hc c' heq
    | @releaseWork stage workPtr next =>
      cases next <;> exact .goOn (s := s) h1 hr hc rfl rfl (by simp)
    | _ => exact .goOn h1 hr hc rfl rfl (by simp)

def Returned (g : ShutdownLog) (s : State ω κ T) : Prop :=
  g.calls ≤ 1 → OneCall g s ∧ ∀ i, g.afterReturn i = 0

theorem Returned.clientStep (h : Returned g s) {c : κ}
    (ht : s.clientStep c (s.client c) = some t) : Returned (g.note s (.client c)) t := by
  have hcalls : (g.note s (.client c)).calls = g.calls := by
    simp only [ShutdownLog.note]
    split <;> (try split_ifs) <;> rfl
  have hafter : (g.note s (.client c)).afterReturn = g.afterReturn := by
    simp only [ShutdownLog.note]
    split <;> (try split_ifs) <;> rfl
  intro hone
  obtain ⟨hcall, hnone⟩ := h (hcalls ▸ hone)
  rw [hafter]
  refine ⟨?_, hnone⟩
  by_cases hin : (s.client c).inShutdown
  · exact hcall.call hin ht
  · rw [Bool.not_eq_true] at hin
    generalize hpc : s.client c = pc at ht
    have hstays : g.note s (.client c) = g := by
      rw [hpc] at hin
      simp only [ShutdownLog.note, hpc]
      cases pc <;> first | rfl | cases hin
    rw [hstays]
    have hstep := State.clientTaken_of_step ht
    rw [hpc] at hin
    cases hstep with
    | construct | push | wait =>
      exact hcall.frame rfl rfl rfl (fun _ hw => hw) fun _ =>
        inShutdown_of_setClient rfl (hpc ▸ hin) rfl
    | _ => cases hin

omit [DecidableEq κ] [Fintype ω] in
theorem Returned.work [DecidableEq ω] {w : ω} {eec : Bool} {i : ℕ} {pc : HandlerPc T}
    (h : Returned g s) (hw : s.worker w = .handling i pc)
    (ht : s.handlerStep w eec i pc = some t) : Returned (g.note s (.work w eec)) t := by
  obtain ⟨hrunning, hclient, x, hworker, -⟩ := handlerStep_spec ht
  obtain ⟨hcalls, hreturned, hafter⟩ : (g.note s (.work w eec)).calls = g.calls ∧
      (g.note s (.work w eec)).returned = g.returned ∧
      (g.returned = false → (g.note s (.work w eec)).afterReturn = g.afterReturn) := by
    simp only [ShutdownLog.note, hw]
    cases pc with
    | copied e => exact ⟨rfl, rfl, fun hr => if_neg (by simp [hr])⟩
    | _ => exact ⟨rfl, rfl, fun _ => rfl⟩
  intro hone
  obtain ⟨hcall, hnone⟩ := h (hcalls ▸ hone)
  have hopen : g.returned = false := by
    cases hcall with
    | notYet _ hr => exact hr
    | inside _ _ hr => exact hr
    | returned _ hexited => cases (hexited w).symm.trans hw
  refine ⟨hcall.frame hcalls hreturned hrunning (fun w' hw' => ?_) fun c => Or.inl ?_, ?_⟩
  · have hne : w' ≠ w := by
      rintro rfl
      cases hw'.symm.trans hw
    rwa [hworker, Function.update_of_ne hne]
  · rw [hclient]
  · rwa [hafter hopen]

theorem Returned.step [DecidableEq ω] {spurious : Bool} (h : Returned g s) {a : Action ω κ T}
    (hstep : s.step spurious a = some t) : Returned (g.note s a) t := by
  cases State.taken_of_step hstep with
  | advance =>
    exact fun hone => (h hone).imp_left fun hcall =>
      hcall.frame rfl rfl rfl (fun _ hw => hw) fun _ => Or.inl rfl
  | dispatch hw =>
    exact fun hone => (h hone).imp_left fun hcall => hcall.frame rfl rfl rfl
      (fun _ => exited_of_setWorker rfl (Or.inl (by rw [hw]; simp))) fun _ => Or.inl rfl
  | work hw ht => exact h.work hw ht
  | unwind | exit =>
    exact fun hone => (h hone).imp_left fun hcall => hcall.frame rfl rfl rfl
      (fun _ => exited_of_setWorker rfl (Or.inr rfl)) fun _ => Or.inl rfl
  | schedule hc =>
    refine fun hone => (h hone).imp_left fun hcall => hcall.frame rfl rfl rfl (fun _ hw => hw)
      fun _ => inShutdown_of_setClient rfl (by rw [hc]; rfl) rfl
  | @shutdown c now hc =>
    intro hone
    have hcalls : g.calls = 0 := Nat.le_zero.mp (Nat.succ_le_succ_iff.mp hone)
    obtain ⟨hcall, hnone⟩ := h (hcalls ▸ Nat.zero_le 1)
    refine ⟨?_, hnone⟩
    cases hcall with
    | notYet _ hr hrunning hclient =>
      exact .goOn (s := s) (congrArg (· + 1) hcalls) hr (fun c' _ => hclient c') rfl rfl
        fun _ _ => hrunning
    | inside _ h1 | returned h1 => cases hcalls.symm.trans h1
  | client ht => exact h.clientStep ht

/-- Shutting down stops every task, in every run of any pool and callers. After `running_` is
cleared each task starts at most once more, in a handler that was past the check. With one call of
`shutdown` or `shutdownNow`, nothing starts after it has returned. -/
theorem shutdown_stops_tasks [DecidableEq ω] (spurious : Bool) (clock : ℤ)
    (actions : List (Action ω κ T)) :
    Machine.Always (Machine.observe (State.step spurious) ShutdownLog.note)
      (fun x => x.1.LastStarts ∧ x.1.NoneAfterReturn) (.init, State.init clock) actions := by
  refine (Machine.always_observe_of_invariant
    (P := fun g s => (∃ r, Invariant r s) ∧ Stopping g s ∧ Returned g s) ?_
    ⟨⟨_, Invariant.init clock⟩, Stopping.init clock, fun _ => ⟨OneCall.init clock, fun _ => rfl⟩⟩
    actions).imp ?_
  · rintro g s a t ⟨⟨r, hr⟩, hstopping, hreturned⟩ hstep
    exact ⟨⟨_, hr.step hstep⟩, hstopping.step hr hstep, hreturned.step hstep⟩
  · rintro ⟨g, s⟩ ⟨-, hstopping, hreturned⟩
    exact ⟨hstopping.bound, fun hone => (hreturned hone).2⟩

/-- The last start happens: the flag is cleared while a handler is past the check. -/
example : (Machine.run (Machine.observe (State.step false) ShutdownLog.note)
    (.init, (State.init 0 : State (Fin 1) (Fin 1) Unit))
    (List.flatten [[.schedule 0 () 5 false], List.replicate 3 (.client 0),
      [.advance 5, .dispatch 0 0 false, .work 0 false, .shutdown 0 false],
      List.replicate 2 (.client 0), List.replicate 2 (.work 0 false)])).map
      (fun x => (x.2.running, x.1.late 0)) = some (false, 1) := by
  decide +kernel

end

end CppMetrics.SimpleScheduledThreadPoolExecutor
