import CppMetrics.Concurrent.ShutdownReturns
import CppMetrics.Concurrent.SingleFlight

/-! While the executor is open no scheduled task gets lost: until its timer completes with an
error, a task is held by a wait, a handler or its caller, and each thread of the pool can be brought
to run it. -/

namespace CppMetrics.SimpleScheduledThreadPoolExecutor

variable {ω κ T : Type*}

def noteFailed (failed : ℕ → Bool) (s : State ω κ T) : Action ω κ T → ℕ → Bool
  | .dispatch _ n true =>
    match s.waits[n]? with
    | some x => Function.update failed x.index true
    | none => failed
  | _ => failed

def Action.isInternal : Action ω κ T → Bool
  | .advance _ | .dispatch _ _ false | .work _ false | .client _ => true
  | _ => false

def ClientPc.leavesOpen : ClientPc T → Bool
  | .idle | .scheduling _ | .constructed .. | .pushed _ | .leaving _ | .clearing _ => true
  | _ => false

/-! ### Timers that have failed -/

/-- Of a failed timer there is at most the handler that is about to leave. -/
structure Failing (failed : ℕ → Bool) (s : State ω κ T) : Prop where
  noted : ∀ w i, s.worker w = .handling i (.entered true) → failed i = true
  registered : ∀ i, failed i = true → i < s.timerTasks.length
  leaves : ∀ i k, failed i = true → Holds s k i →
    ∃ w, k = .worker w ∧ s.worker w = .handling i (.entered true)

variable {failed failed' : ℕ → Bool} {g : ℕ → Record} {s t : State ω κ T} {spurious : Bool}

theorem Failing.not_failed (h : Failing failed s) {i : ℕ} {k : Holder ω κ} (hk : Holds s k i)
    (hleaves : ∀ w, k = .worker w → s.worker w ≠ .handling i (.entered true)) :
    failed i = false := by
  by_contra hfailed
  obtain ⟨w, hkw, hw⟩ := h.leaves i k (Bool.not_eq_false _ ▸ hfailed) hk
  exact hleaves w hkw hw

theorem Failing.frame (h : Failing failed s) (htasks : s.timerTasks.length ≤ t.timerTasks.length)
    (hholds : ∀ k i, failed i = true → Holds t k i → Holds s k i)
    (hworker : ∀ w i pc, t.worker w = .handling i pc →
      s.worker w = .handling i pc ∨ pc ≠ .entered true ∧ failed i = false) : Failing failed t where
  noted w i hw := by
    rcases hworker w i _ hw with hold | ⟨hne, -⟩
    · exact h.noted w i hold
    · exact absurd rfl hne
  registered i hi := (h.registered i hi).trans_le htasks
  leaves i k hi hk := by
    obtain ⟨w, rfl, hw⟩ := h.leaves i k hi (hholds k i hi hk)
    obtain ⟨pc, hpc⟩ := hk
    refine ⟨w, rfl, ?_⟩
    rcases hworker w i pc hpc with hold | ⟨-, hnot⟩
    · rw [hpc, ← hold, hw]
    · exact absurd hi (by simp [hnot])

section

variable [DecidableEq ω]

theorem Failing.setWorker (h : Failing failed s) {w : ω} {x : WorkerPc T} {waits : List Wait}
    {expiry : ℕ → ℤ}
    (hwaits : ∀ i ∈ waits.map Wait.index, i ∈ s.waits.map Wait.index ∨ failed i = false)
    (hx : ∀ i pc, x = .handling i pc → pc ≠ .entered true ∧ failed i = false) :
    Failing failed ({ s with waits := waits, expiry := expiry }.setWorker w x) := by
  have hworker : ∀ w' i pc, Function.update s.worker w x w' = .handling i pc →
      s.worker w' = .handling i pc ∨ pc ≠ .entered true ∧ failed i = false := by
    intro w' i pc hpc
    rw [Function.update_apply] at hpc
    split_ifs at hpc
    · exact Or.inr (hx i pc hpc)
    · exact Or.inl hpc
  refine h.frame le_rfl (fun k i hi hk => ?_) hworker
  cases k with
  | wait =>
    rcases hwaits i hk with hold | hnot
    · exact hold
    · cases hi.symm.trans hnot
  | worker w' =>
    obtain ⟨pc, hpc⟩ := hk
    rcases hworker w' i pc hpc with hold | ⟨-, hnot⟩
    · exact ⟨pc, hold⟩
    · cases hi.symm.trans hnot
  | client c => exact hk

theorem Failing.work (h : Failing failed s) {w : ω} {i : ℕ} {pc : HandlerPc T} {eec : Bool}
    (hw : s.worker w = .handling i pc) (ht : s.HandlerTaken w i eec pc t) : Failing failed t := by
  have hholds : Holds s (.worker w) i := ⟨pc, hw⟩
  -- a failed timer's handler can only leave
  have hnot : pc ≠ .entered true → failed i = false := fun hne =>
    h.not_failed hholds fun w' hk hw' => by
      cases hk
      rw [hw] at hw'
      cases hw'
      exact hne rfl
  cases ht with
  | leave | missing => exact h.setWorker (fun _ hi => Or.inl hi) (by simp)
  | check _ hec =>
    refine h.setWorker (fun _ hi => Or.inl hi) ?_
    rintro j pc' ⟨⟩
    exact ⟨by simp, hnot (by simp [hec])⟩
  | copy | start | finish | rearmError =>
    refine h.setWorker (fun _ hi => Or.inl hi) ?_
    rintro j pc' ⟨⟩
    exact ⟨by simp, hnot (by simp)⟩
  | rearm =>
    refine h.setWorker (fun j hj => Or.inl ?_) ?_
    · rwa [abort_waits] at hj
    · rintro j pc' ⟨⟩
      exact ⟨by simp, hnot (by simp)⟩
  | wait =>
    refine h.setWorker (fun j hj => ?_) (by simp)
    rw [List.map_append, List.mem_append] at hj
    refine hj.imp id fun hj => ?_
    rw [List.map_singleton, List.mem_singleton] at hj
    exact hj ▸ hnot (by simp)

theorem Failing.dispatch (h : Failing failed s) (hs : Invariant g s) {w : ω} {n : ℕ} {ec : Bool}
    {x : Wait} (hw : s.worker w = .idle) (hx : s.waits[n]? = some x)
    (ht : Exclusive (Holds ({ s with waits := s.waits.eraseIdx n }.setWorker w
      (.handling x.index (.entered ec))))) :
    Failing (noteFailed failed s (.dispatch w n ec))
      ({ s with waits := s.waits.eraseIdx n }.setWorker w
        (.handling x.index (.entered ec))) := by
  have hwaits : ∀ i ∈ (s.waits.eraseIdx n).map Wait.index, i ∈ s.waits.map Wait.index :=
    fun i hi => (List.Sublist.map Wait.index (List.eraseIdx_sublist _ n)).subset hi
  have hwait : Holds s .wait x.index :=
    List.mem_map.mpr ⟨x, List.mem_of_getElem? hx, rfl⟩
  have hnot : failed x.index = false := h.not_failed hwait (by simp)
  have hworker : ∀ w' i pc, Function.update s.worker w (.handling x.index (.entered ec)) w' =
      .handling i pc → w' = w ∧ i = x.index ∧ pc = .entered ec ∨ s.worker w' = .handling i pc := by
    intro w' i pc hpc
    rw [Function.update_apply] at hpc
    split_ifs at hpc with heq
    · cases hpc
      exact Or.inl ⟨heq, rfl, rfl⟩
    · exact Or.inr hpc
  cases ec with
  | false =>
    refine h.setWorker (fun i hi => Or.inl (hwaits i hi)) ?_
    rintro i pc ⟨⟩
    exact ⟨by simp, hnot⟩
  | true =>
    have hfailed : ∀ i, noteFailed failed s (.dispatch w n true : Action ω κ T) i =
        if i = x.index then true else failed i := by
      intro i
      simp only [noteFailed, hx, Function.update_apply]
    obtain ⟨e, he⟩ := hs.registered hwait
    constructor
    case noted =>
      intro w' i hw'
      rw [hfailed]
      split_ifs with heq
      · rfl
      · rcases hworker w' i _ hw' with ⟨-, hi, -⟩ | hold
        · exact absurd hi heq
        · exact h.noted w' i hold
    case registered =>
      intro i hi
      rw [hfailed] at hi
      split_ifs at hi with heq
      · exact heq ▸ (List.getElem?_eq_some_iff.mp he).1
      · exact h.registered i hi
    case leaves =>
      intro i k hi hk
      by_cases heq : i = x.index
      · -- the handler is the only holder
        subst heq
        refine ⟨w, ht hk ⟨.entered true, Function.update_self ..⟩, Function.update_self ..⟩
      · rw [hfailed, if_neg heq] at hi
        have hold : Holds s k i := by
          cases k with
          | wait => exact hwaits i hk
          | worker w' =>
            obtain ⟨pc, hpc⟩ := hk
            rcases hworker w' i pc hpc with ⟨-, hi', -⟩ | hold
            · exact absurd hi' heq
            · exact ⟨pc, hold⟩
          | client c => exact hk
        obtain ⟨w', rfl, hw'⟩ := h.leaves i k hi hold
        have hne : w' ≠ w := by
          rintro rfl
          rw [hw] at hw'
          cases hw'
        exact ⟨w', rfl, (Function.update_of_ne hne ..).trans hw'⟩

end

section

variable [DecidableEq κ] {c : κ} {x : ClientPc T}

theorem Failing.setClient (h : Failing failed s) (hclient : t.client = Function.update s.client c x)
    (hworker : t.worker = s.worker) (htasks : s.timerTasks.length ≤ t.timerTasks.length)
    (hwaits : ∀ i ∈ t.waits.map Wait.index, i ∈ s.waits.map Wait.index ∨ failed i = false)
    (hx : ∀ i, x = .pushed i → failed i = false) : Failing failed t := by
  refine h.frame htasks (fun k i hi hk => ?_) fun w i pc hpc => Or.inl (by rwa [← hworker])
  cases k with
  | wait =>
    rcases hwaits i hk with hold | hnot
    · exact hold
    · cases hi.symm.trans hnot
  | worker w =>
    show ∃ pc, s.worker w = .handling i pc
    rw [← hworker]
    exact hk
  | client c' =>
    change t.client c' = .pushed i at hk
    rw [hclient, Function.update_apply] at hk
    split_ifs at hk
    · cases hi.symm.trans (hx i hk)
    · exact hk

omit [DecidableEq κ] in
theorem Failing.pushed (h : Failing failed s) {i : ℕ} (hc : s.client c = .pushed i) :
    failed i = false :=
  h.not_failed (k := .client c) hc (by simp)

theorem Failing.clientStep (h : Failing failed s) (ht : s.ClientTaken c (s.client c) t) :
    Failing failed t := by
  generalize hpc : s.client c = pc at ht
  cases ht with
  | push =>
    refine h.setClient rfl rfl (by simp [State.setClient]) (fun _ hi => Or.inl hi) ?_
    rintro i ⟨⟩
    -- only registered timers fail
    by_contra hfailed
    exact absurd (h.registered _ (Bool.not_eq_false _ ▸ hfailed)) (lt_irrefl _)
  | @wait i =>
    refine h.setClient rfl rfl le_rfl (fun j hj => ?_) (by simp)
    change j ∈ (s.waits ++ [(⟨i, false⟩ : Wait)]).map Wait.index at hj
    rw [List.map_append, List.mem_append, List.map_singleton, List.mem_singleton] at hj
    rcases hj with hj | rfl
    · exact Or.inl hj
    · exact Or.inr (h.pushed hpc)
  | @cancel i =>
    refine h.setClient rfl rfl le_rfl (fun j hj => Or.inl ?_) (by simp)
    rwa [← abort_waits i s]
  | @releaseWork stage workPtr next =>
    exact h.setClient rfl rfl le_rfl (fun _ hi => Or.inl hi) (by cases next <;> simp)
  | _ => exact h.setClient rfl rfl le_rfl (fun _ hi => Or.inl hi) (by simp)

end

theorem Failing.step [Fintype ω] [DecidableEq ω] [DecidableEq κ] {a : Action ω κ T}
    (h : Failing failed s) (hs : Invariant g s) (hstep : s.step spurious a = some t) :
    Failing (noteFailed failed s a) t := by
  have hex : Exclusive (Holds t) := (hs.step hstep).exclusive
  cases State.taken_of_step hstep with
  | advance => exact h.frame le_rfl (fun _ _ _ hk => hk) fun _ _ _ hpc => Or.inl hpc
  | dispatch hw hx => exact h.dispatch hs hw hx hex
  | work hw ht => exact h.work hw (State.handlerTaken_of_step ht)
  | unwind | exit => exact h.setWorker (fun _ hi => Or.inl hi) (by simp)
  | schedule | shutdown =>
    exact h.setClient rfl rfl le_rfl (fun _ hi => Or.inl hi) (by simp)
  | client ht => exact h.clientStep (State.clientTaken_of_step ht)

/-! ### The executor before it is shut down -/

structure Open (failed : ℕ → Bool) (s : State ω κ T) : Prop where
  running : s.running = true
  work : s.workPtr.alive = true
  stopped : s.stopped = false
  interrupted : s.interrupted = false
  locked : s.locked = false
  clients : ∀ c, (s.client c).leavesOpen
  workers : ∀ w, s.worker w ≠ .exited
  unaborted : ∀ x ∈ s.waits, x.aborted = false
  held : ∀ i < s.timerTasks.length, failed i = false → ∃ k, Holds s k i

theorem Open.init (clock : ℤ) : Open failed (State.init clock : State ω κ T) where
  running := rfl
  work := rfl
  stopped := rfl
  interrupted := rfl
  locked := rfl
  clients _ := rfl
  workers _ := by simp [State.init]
  unaborted := by simp [State.init]
  held _ hi := absurd hi (Nat.not_lt_zero _)

theorem Open.setWorker [DecidableEq ω] (h : Open failed s) {w : ω} {x : WorkerPc T}
    {waits : List Wait} {expiry : ℕ → ℤ} (hx : x ≠ .exited)
    (hunaborted : ∀ y ∈ waits, y.aborted = false)
    (hfailed : ∀ i, failed' i = false → failed i = false)
    (hwait : ∀ i ∈ s.waits.map Wait.index, failed' i = false →
      i ∈ waits.map Wait.index ∨ ∃ pc, x = .handling i pc)
    (hworker : ∀ i pc, s.worker w = .handling i pc → failed' i = false →
      i ∈ waits.map Wait.index ∨ ∃ pc, x = .handling i pc) :
    Open failed' ({ s with waits := waits, expiry := expiry }.setWorker w x) where
  running := h.running
  work := h.work
  stopped := h.stopped
  interrupted := h.interrupted
  locked := h.locked
  clients := h.clients
  workers w' := by
    show Function.update s.worker w x w' ≠ .exited
    rw [Function.update_apply]
    split_ifs
    · exact hx
    · exact h.workers w'
  unaborted := hunaborted
  held i hi hnot := by
    have hnew : (i ∈ waits.map Wait.index ∨ ∃ pc, x = .handling i pc) →
        ∃ k, Holds ({ s with waits := waits, expiry := expiry }.setWorker w x) k i := by
      rintro (hi | ⟨pc, rfl⟩)
      · exact ⟨.wait, hi⟩
      · exact ⟨.worker w, pc, Function.update_self ..⟩
    obtain ⟨k, hk⟩ := h.held i hi (hfailed i hnot)
    cases k with
    | wait => exact hnew (hwait i hk hnot)
    | worker w' =>
      obtain ⟨pc, hpc⟩ := hk
      by_cases heq : w' = w
      · exact hnew (hworker i pc (heq ▸ hpc) hnot)
      · exact ⟨.worker w', pc, (Function.update_of_ne heq ..).trans hpc⟩
    | client c => exact ⟨.client c, hk⟩

theorem Open.setClient [DecidableEq κ] (h : Open failed s) {c : κ} {x : ClientPc T}
    {timerTasks : List (TimerTask T)} {waits : List Wait} {expiry : ℕ → ℤ} (hx : x.leavesOpen)
    (hunaborted : ∀ y ∈ waits, y.aborted = false)
    (hwait : ∀ i ∈ s.waits.map Wait.index, i ∈ waits.map Wait.index)
    (hclient : ∀ i, s.client c = .pushed i → i ∈ waits.map Wait.index)
    (hnew : ∀ i < timerTasks.length, i < s.timerTasks.length ∨ x = .pushed i) :
    Open failed ({ s with timerTasks := timerTasks, waits := waits, expiry := expiry }.setClient
      c x) where
  running := h.running
  work := h.work
  stopped := h.stopped
  interrupted := h.interrupted
  locked := h.locked
  clients c' := by
    show (Function.update s.client c x c').leavesOpen
    rw [Function.update_apply]
    split_ifs
    · exact hx
    · exact h.clients c'
  workers := h.workers
  unaborted := hunaborted
  held i hi hnot := by
    rcases hnew i hi with hlt | hx
    · obtain ⟨k, hk⟩ := h.held i hlt hnot
      cases k with
      | wait => exact ⟨.wait, hwait i hk⟩
      | worker w => exact ⟨.worker w, hk⟩
      | client c' =>
        by_cases heq : c' = c
        · exact ⟨.wait, hclient i (heq ▸ hk)⟩
        · exact ⟨.client c', (Function.update_of_ne heq ..).trans hk⟩
    · exact ⟨.client c, (Function.update_self ..).trans hx⟩

theorem noteFailed_false {a : Action ω κ T} {i : ℕ} (h : noteFailed failed s a i = false) :
    failed i = false := by
  cases a with
  | dispatch w n ec =>
    cases ec with
    | false => exact h
    | true =>
      cases hx : s.waits[n]? with
      | none => simpa only [noteFailed, hx] using h
      | some x =>
        simp only [noteFailed, hx, Function.update_apply] at h
        split_ifs at h
        exact h
  | _ => exact h

theorem Invariant.abort_eq (h : Invariant g s) {w : ω} {i : ℕ} {pc : HandlerPc T}
    (hw : s.worker w = .handling i pc) : s.abort i = s := by
  have hnot : i ∉ s.waits.map Wait.index := h.not_wait (k := .worker w) ⟨pc, hw⟩ (by simp)
  have hwaits : (s.waits.map fun x => if x.index = i then { x with aborted := true } else x) =
      s.waits := by
    refine (List.map_congr_left fun x hx => if_neg fun heq => hnot ?_).trans (List.map_id _)
    exact List.mem_map.mpr ⟨x, hx, heq⟩
  rw [State.abort, hwaits]

section

variable [DecidableEq ω]

theorem Open.dispatch (h : Open failed s) {w : ω} {n : ℕ} {ec : Bool} {x : Wait}
    (hw : s.worker w = .idle) (hx : s.waits[n]? = some x) :
    Open (noteFailed failed s (.dispatch w n ec : Action ω κ T))
      ({ s with waits := s.waits.eraseIdx n }.setWorker w (.handling x.index (.entered ec))) := by
  refine h.setWorker (by simp) (fun y hy => ?_) (fun _ => noteFailed_false) ?_ (by simp [hw])
  · exact h.unaborted y ((List.eraseIdx_sublist _ n).subset hy)
  · intro i hi _
    obtain ⟨y, hy, rfl⟩ := List.mem_map.mp hi
    obtain ⟨m, hm⟩ := List.mem_iff_getElem?.mp hy
    by_cases heq : m = n
    · rw [heq, hx] at hm
      cases hm
      exact Or.inr ⟨_, rfl⟩
    · refine Or.inl (List.mem_map.mpr ⟨y, ?_, rfl⟩)
      exact List.mem_eraseIdx_iff_getElem?.mpr ⟨m, heq, hm⟩

theorem Open.handlerStep (h : Open failed s) (hs : Invariant g s) (hnoted : Failing failed s)
    {w : ω} {i : ℕ} {pc : HandlerPc T} {eec : Bool} (hw : s.worker w = .handling i pc)
    (ht : s.HandlerTaken w i eec pc t) : Open failed t := by
  -- the handler goes on with its timer, or has added a wait for it
  have hgo : ∀ {pc' : HandlerPc T} {expiry : ℕ → ℤ},
      Open failed ({ s with expiry := expiry }.setWorker w (.handling i pc')) := by
    intro pc' expiry
    refine h.setWorker (by simp) h.unaborted (fun _ hi => hi) (fun _ hi _ => Or.inl hi) ?_
    intro j pc'' hpc _
    rw [hw] at hpc
    cases hpc
    exact Or.inr ⟨_, rfl⟩
  cases ht with
  | @leave _ ec hleave =>
    rw [h.running, Bool.not_true, Bool.false_or] at hleave
    subst hleave
    refine h.setWorker (by simp) h.unaborted (fun _ hi => hi) (fun _ hi _ => Or.inl hi) ?_
    intro j pc' hpc hnot
    rw [hw] at hpc
    cases hpc
    cases hnot.symm.trans (hnoted.noted w i hw)
  | missing hmissing =>
    obtain ⟨e, he⟩ := hs.registered (k := .worker w) ⟨_, hw⟩
    cases he.symm.trans hmissing
  | check | copy | start | finish | rearmError => exact hgo
  | @rearm e =>
    rw [State.rearm, hs.abort_eq hw]
    exact hgo
  | wait =>
    refine h.setWorker (by simp) (fun y hy => ?_) (fun _ hi => hi) (fun j hj _ => ?_) ?_
    · rcases List.mem_append.mp hy with hy | hy
      · exact h.unaborted y hy
      · rw [List.mem_singleton.mp hy]
    · rw [List.map_append]
      exact Or.inl (List.mem_append_left _ hj)
    · intro j pc' hpc _
      rw [hw] at hpc
      cases hpc
      exact Or.inl (by simp)

end

theorem Open.clientStep [DecidableEq κ] {c : κ} (h : Open failed s)
    (ht : s.ClientTaken c (s.client c) t) (hrunning : t.running = true) : Open failed t := by
  have hopen := h.clients c
  generalize hpc : s.client c = pc at ht hopen
  cases ht with
  | construct | proceed =>
    exact h.setClient rfl h.unaborted (fun _ hi => hi) (by simp [hpc]) fun _ hi => Or.inl hi
  | giveUp hclosed => cases hclosed.symm.trans h.running
  | push =>
    refine h.setClient rfl h.unaborted (fun _ hi => hi) (by simp [hpc]) fun i hi => ?_
    rw [List.length_append, List.length_singleton] at hi
    rcases Nat.lt_succ_iff_lt_or_eq.mp hi with hlt | rfl
    · exact Or.inl hlt
    · exact Or.inr rfl
  | @wait i =>
    refine h.setClient rfl (fun y hy => ?_) (fun j hj => ?_) ?_ fun _ hi => Or.inl hi
    · rcases List.mem_append.mp hy with hy | hy
      · exact h.unaborted y hy
      · rw [List.mem_singleton.mp hy]
    · rw [List.map_append]
      exact List.mem_append_left _ hj
    · intro j hj
      rw [hpc] at hj
      cases hj
      simp
  | clearNow | clear => cases hrunning
  | lock | cancel | unlock | stopService | releaseWork | interrupt | join => cases hopen

variable [Fintype ω] [DecidableEq ω] [DecidableEq κ] {a : Action ω κ T}

theorem Open.step (h : Open failed s) (hs : Invariant g s) (hnoted : Failing failed s)
    (hstep : s.step spurious a = some t) (hrunning : t.running = true) :
    Open (noteFailed failed s a) t := by
  cases State.taken_of_step hstep with
  | advance =>
    exact ⟨h.running, h.work, h.stopped, h.interrupted, h.locked, h.clients, h.workers,
      h.unaborted, h.held⟩
  | dispatch hw hx => exact h.dispatch hw hx
  | work hw ht => exact h.handlerStep hs hnoted hw (State.handlerTaken_of_step ht)
  | unwind hw hinterrupted => simp [h.interrupted] at hinterrupted
  | exit hw hreturns => simp [State.runReturns, h.stopped, h.work] at hreturns
  | schedule hc | shutdown hc =>
    exact h.setClient rfl h.unaborted (fun _ hi => hi) (by simp [hc]) fun _ hi => Or.inl hi
  | client ht => exact h.clientStep (State.clientTaken_of_step ht) hrunning

theorem Open.noteFailed_eq (h : Open failed s) (hstep : s.step false a = some t) :
    noteFailed failed s a = failed := by
  cases State.taken_of_step hstep with
  | @dispatch w n ec x hw hx hec =>
    cases ec with
    | false => rfl
    | true =>
      have hunaborted := h.unaborted x (List.mem_of_getElem? hx)
      simp [State.completes, hunaborted] at hec
  | _ => rfl

/-! ### Whole runs -/

structure Tracked (spurious : Bool) (failed : ℕ → Bool) (s : State ω κ T) : Prop where
  tasks : ∃ g, Invariant g s
  failing : Failing failed s
  isOpen : s.running = true → Open failed s
  unfailed : spurious = false → s.running = true → ∀ i, failed i = false

omit [Fintype ω] [DecidableEq ω] [DecidableEq κ] in
theorem Tracked.init (clock : ℤ) :
    Tracked spurious (fun _ => false) (State.init clock : State ω κ T) where
  tasks := ⟨_, Invariant.init clock⟩
  failing := ⟨by rintro w i ⟨⟩, by rintro i ⟨⟩, by rintro i k ⟨⟩⟩
  isOpen _ := Open.init clock
  unfailed _ _ _ := rfl

theorem Tracked.step (h : Tracked spurious failed s) (hstep : s.step spurious a = some t) :
    Tracked spurious (noteFailed failed s a) t := by
  obtain ⟨g, hs⟩ := h.tasks
  have hbefore : t.running = true → s.running = true := by
    intro hrunning
    by_contra hclosed
    rw [closed_step (Bool.eq_false_iff.mpr hclosed) hstep] at hrunning
    cases hrunning
  constructor
  case tasks => exact ⟨_, hs.step hstep⟩
  case failing => exact h.failing.step hs hstep
  case isOpen =>
    exact fun hrunning => (h.isOpen (hbefore hrunning)).step hs h.failing hstep hrunning
  case unfailed =>
    rintro rfl hrunning
    rw [(h.isOpen (hbefore hrunning)).noteFailed_eq hstep]
    exact h.unfailed rfl (hbefore hrunning)

omit [Fintype ω] [DecidableEq ω] [DecidableEq κ] in
theorem noteFailed_internal (ha : a.isInternal) : noteFailed failed s a = failed := by
  cases a with
  | dispatch w n ec =>
    cases ec with
    | false => rfl
    | true => cases ha
  | _ => rfl

theorem Tracked.internal (h : Tracked spurious failed s) (ha : a.isInternal)
    (hstep : s.step spurious a = some t) : Tracked spurious failed t := by
  have hnext := h.step hstep
  rwa [noteFailed_internal ha] at hnext

/-! ### The next run of a task -/

def State.RunsOn (s : State ω κ T) (w : ω) (i : ℕ) : Prop :=
  ∃ e, s.worker w = .handling i (.running e)

/-- The thread can come to the task without a further call, before the executor is shut down. -/
def State.CanRunOn (spurious : Bool) (s : State ω κ T) (w : ω) (i : ℕ) : Prop :=
  Machine.Reaches (State.step spurious) (fun a => a.isInternal)
    (fun t => t.running = true ∧ t.RunsOn w i) s

def HandlerPc.left : HandlerPc T → ℕ
  | .entered _ => 6
  | .checked => 5
  | .copied _ => 4
  | .running _ => 3
  | .ran _ => 2
  | .rearmed _ => 1

def WorkerPc.left : WorkerPc T → ℕ
  | .handling _ pc => pc.left
  | .idle | .exited => 0

theorem Tracked.handlerStep (h : Tracked spurious failed s) (hrunning : s.running = true) {w : ω}
    {i : ℕ} {pc : HandlerPc T} (hw : s.worker w = .handling i pc) :
    ∃ t, s.step spurious (.work w false) = some t ∧ t.running = true ∧
      s.waits.map Wait.index ⊆ t.waits.map Wait.index ∧
      (t.worker w).left < (s.worker w).left ∧
      (t.worker w = .idle ∧ (failed i = false → i ∈ t.waits.map Wait.index) ∨
        ∃ pc', t.worker w = .handling i pc') := by
  have hopen := h.isOpen hrunning
  obtain ⟨g, hs⟩ := h.tasks
  obtain ⟨e, he⟩ := hs.registered (k := .worker w) ⟨pc, hw⟩
  have hgo : ∀ {u : State ω κ T} {pc' : HandlerPc T}, u.running = true →
      s.waits.map Wait.index ⊆ u.waits.map Wait.index → pc'.left < pc.left →
      s.handlerStep w false i pc = some (u.setWorker w (.handling i pc')) →
      ∃ t, s.handlerStep w false i pc = some t ∧ t.running = true ∧
        s.waits.map Wait.index ⊆ t.waits.map Wait.index ∧ (t.worker w).left < pc.left ∧
        (t.worker w = .idle ∧ (failed i = false → i ∈ t.waits.map Wait.index) ∨
          ∃ pc', t.worker w = .handling i pc') := by
    intro u pc' hu hsub hlt hstep
    refine ⟨_, hstep, hu, hsub, ?_, Or.inr ⟨pc', State.setWorker_self ..⟩⟩
    rwa [State.setWorker_self]
  simp only [State.step, hw]
  cases pc with
  | entered ec =>
    cases ec with
    | true =>
      refine ⟨s.setWorker w .idle, by simp [State.handlerStep], hrunning, List.Subset.refl _, ?_,
        Or.inl ⟨State.setWorker_self .., fun hnot => ?_⟩⟩
      · simp [WorkerPc.left, HandlerPc.left]
      · cases hnot.symm.trans (h.failing.noted w i hw)
    | false =>
      exact @hgo s .checked hrunning (List.Subset.refl _) (by simp [HandlerPc.left])
        (by simp [State.handlerStep, hrunning])
  | checked =>
    exact @hgo s (.copied e) hrunning (List.Subset.refl _) (by simp [HandlerPc.left])
      (by simp [State.handlerStep, hopen.locked, he])
  | copied e =>
    exact @hgo s (.running e) hrunning (List.Subset.refl _) (by simp [HandlerPc.left]) rfl
  | running e =>
    exact @hgo s (.ran e) hrunning (List.Subset.refl _) (by simp [HandlerPc.left]) rfl
  | ran e =>
    refine @hgo (s.rearm i e) (.rearmed e) hrunning ?_ (by simp [HandlerPc.left]) rfl
    show _ ⊆ (s.abort i).waits.map Wait.index
    rw [abort_waits]
    exact List.Subset.refl _
  | rearmed e =>
    refine ⟨(s.asyncWait i).setWorker w .idle, rfl, hrunning, ?_, ?_,
      Or.inl ⟨State.setWorker_self .., fun _ => ?_⟩⟩
    · show _ ⊆ (s.waits ++ [(⟨i, false⟩ : Wait)]).map Wait.index
      rw [List.map_append]
      exact List.subset_append_left _ _
    · simp [WorkerPc.left, HandlerPc.left]
    · simp [State.asyncWait, State.setWorker]

theorem Tracked.reaches_idle (h : Tracked spurious failed s) (hrunning : s.running = true) {w : ω}
    {i : ℕ} {pc : HandlerPc T} (hw : s.worker w = .handling i pc) :
    Machine.Reaches (State.step spurious) (fun a : Action ω κ T => a.isInternal)
      (fun t => Tracked spurious failed t ∧ t.running = true ∧
        s.waits.map Wait.index ⊆ t.waits.map Wait.index ∧ t.worker w = .idle ∧
        (failed i = false → i ∈ t.waits.map Wait.index)) s := by
  refine Machine.reaches_of_rank (P := fun u => Tracked spurious failed u ∧ u.running = true ∧
    s.waits.map Wait.index ⊆ u.waits.map Wait.index ∧
    (u.worker w = .idle ∧ (failed i = false → i ∈ u.waits.map Wait.index) ∨
      ∃ pc', u.worker w = .handling i pc')) (fun u => (u.worker w).left) ?_
    ⟨h, hrunning, List.Subset.refl _, Or.inr ⟨pc, hw⟩⟩
  rintro u ⟨hu, hrunning, hsub, ⟨hidle, hi⟩ | ⟨pc', hw⟩⟩
  · exact Or.inl ⟨hu, hrunning, hsub, hidle, hi⟩
  · obtain ⟨t, ht, hrunning, hsub', hlt, hend⟩ := hu.handlerStep hrunning hw
    exact Or.inr ⟨.work w false, t, rfl, ht,
      ⟨hu.internal rfl ht, hrunning, List.Subset.trans hsub hsub', hend⟩, hlt⟩

theorem step_setWorker (s : State ω κ T) (w : ω) (i : ℕ) (pc : HandlerPc T) :
    (s.setWorker w (.handling i pc)).step spurious (.work w false) =
      (s.setWorker w (.handling i pc)).handlerStep w false i pc := by
  simp only [State.step, State.setWorker_self]

omit [Fintype ω] [DecidableEq κ] in
theorem handlerStep_entered {w : ω} {i : ℕ} (hrunning : s.running = true) :
    s.handlerStep w false i (.entered false) = some (s.setWorker w (.handling i .checked)) := by
  simp [State.handlerStep, hrunning]

omit [Fintype ω] [DecidableEq κ] in
theorem handlerStep_checked {w : ω} {i : ℕ} {e : TimerTask T} (hlocked : s.locked = false)
    (he : s.timerTasks[i]? = some e) :
    s.handlerStep w false i .checked = some (s.setWorker w (.handling i (.copied e))) := by
  simp [State.handlerStep, hlocked, he]

theorem reaches_run_of_entered (s : State ω κ T) {w : ω} {i : ℕ} {e : TimerTask T}
    (hrunning : s.running = true) (hlocked : s.locked = false) (he : s.timerTasks[i]? = some e) :
    (s.setWorker w (.handling i (.entered false))).CanRunOn spurious w i := by
  let entered := s.setWorker w (.handling i (.entered false))
  let checked := entered.setWorker w (.handling i .checked)
  have hcheck : entered.step spurious (.work w false) = some checked :=
    (step_setWorker ..).trans (handlerStep_entered hrunning)
  let copied := checked.setWorker w (.handling i (.copied e))
  have hcopy : checked.step spurious (.work w false) = some copied :=
    (step_setWorker ..).trans (handlerStep_checked hlocked he)
  have hstart : copied.step spurious (.work w false) =
      some (copied.setWorker w (.handling i (.running e))) := step_setWorker ..
  refine .of_step (a := .work w false) rfl hcheck ?_
  refine .of_step (a := .work w false) rfl hcopy ?_
  refine .of_step (a := .work w false) rfl hstart (.here ⟨?_, e, State.setWorker_self ..⟩)
  exact hrunning

theorem Tracked.reaches_run (h : Tracked spurious failed s) (hrunning : s.running = true) {w : ω}
    {i : ℕ} (hw : s.worker w = .idle) (hi : i ∈ s.waits.map Wait.index) :
    s.CanRunOn spurious w i := by
  have hopen := h.isOpen hrunning
  obtain ⟨g, hs⟩ := h.tasks
  obtain ⟨e, he⟩ := hs.registered (k := .wait) hi
  obtain ⟨x, hx, rfl⟩ := List.mem_map.mp hi
  obtain ⟨n, hn⟩ := List.mem_iff_getElem?.mp hx
  let late : State ω κ T := { s with clock := max s.clock (s.expiry x.index) }
  have hadvance : s.step spurious (.advance late.clock) = some late := by
    simp [State.step, late]
  let taken : State ω κ T := { late with waits := s.waits.eraseIdx n }
  have hdispatch : late.step spurious (.dispatch w n false) =
      some (taken.setWorker w (.handling x.index (.entered false))) := by
    simp [State.step, State.completes, late, taken, hw, hn, hopen.stopped]
  exact .of_step (a := .advance late.clock) rfl hadvance
    (.of_step (a := .dispatch w n false) rfl hdispatch
      (reaches_run_of_entered taken hrunning hopen.locked he))

/-- Every thread of the pool can be the next to run a task whose timer has not failed. -/
theorem Tracked.runs_again (h : Tracked spurious failed s) (hrunning : s.running = true) {i : ℕ}
    (hi : i < s.timerTasks.length) (hnot : failed i = false) (w : ω) :
    s.CanRunOn spurious w i := by
  have hwait : ∀ u : State ω κ T, Tracked spurious failed u → u.running = true →
      i ∈ u.waits.map Wait.index → u.CanRunOn spurious w i := by
    intro u hu hrunning hi
    cases hw : u.worker w with
    | idle => exact hu.reaches_run hrunning hw hi
    | handling j pc =>
      refine (hu.reaches_idle hrunning hw).trans ?_
      rintro t ⟨ht, hrunning, hsub, hidle, -⟩
      exact ht.reaches_run hrunning hidle (hsub hi)
    | exited => exact absurd hw ((hu.isOpen hrunning).workers w)
  obtain ⟨k, hk⟩ := (h.isOpen hrunning).held i hi hnot
  cases k with
  | wait => exact hwait s h hrunning hk
  | worker w' =>
    obtain ⟨pc, hpc⟩ := hk
    refine (h.reaches_idle hrunning hpc).trans ?_
    rintro t ⟨ht, hrunning, -, -, hi⟩
    exact hwait t ht hrunning (hi hnot)
  | client c =>
    change s.client c = .pushed i at hk
    have hstep : s.step spurious (.client c) = some ((s.asyncWait i).setClient c .idle) := by
      simp only [State.step, hk, State.clientStep]
    refine .of_step (a := .client c) rfl hstep (hwait _ (h.internal rfl hstep) hrunning ?_)
    simp [State.asyncWait, State.setClient]

theorem Tracked.always_failed (h : Tracked spurious failed s) {i : ℕ} (hi : failed i = true)
    (more : List (Action ω κ T)) :
    Machine.Always (State.step spurious)
      (fun t => ∃ failed, Tracked spurious failed t ∧ failed i = true) s more := by
  refine Machine.always_of_invariant ?_ ⟨failed, h, hi⟩ more
  rintro s a t ⟨failed, h, hi⟩ hstep
  refine ⟨noteFailed failed s a, h.step hstep, ?_⟩
  by_contra hnot
  rw [noteFailed_false (Bool.eq_false_iff.mpr hnot)] at hi
  cases hi

theorem Tracked.not_runsOn (h : Tracked spurious failed s) {i : ℕ} (hi : failed i = true)
    {more : List (Action ω κ T)} (hrun : Machine.run (State.step spurious) s more = some t)
    (w : ω) : ¬t.RunsOn w i := by
  obtain ⟨failed, ht, hi⟩ := (h.always_failed hi more).last hrun
  rintro ⟨e, hw⟩
  have hnot : failed i = false := by
    refine ht.failing.not_failed (k := .worker w) ⟨_, hw⟩ ?_
    rintro w' ⟨⟩ hw'
    rw [hw] at hw'
    cases hw'
  cases hnot.symm.trans hi

/-- What an open executor does for its tasks. A task whose timer has completed with an error is
lost, any other can run again, on each of the threads, without a further call. -/
structure KeepsTasks (spurious : Bool) (failed : ℕ → Bool) (s : State ω κ T) : Prop where
  again : ∀ i < s.timerTasks.length, failed i = false → ∀ w, s.CanRunOn spurious w i
  lost : ∀ i, failed i = true → ∀ more t, Machine.run (State.step spurious) s more = some t →
    ∀ w, ¬t.RunsOn w i
  unfailed : spurious = false → ∀ i, failed i = false

/-- While the executor is open, exactly those of its tasks can run again whose timers have not
completed with an error, and if only cancelled timers do, these are all its tasks. -/
theorem tasks_run_again (spurious : Bool) (clock : ℤ) (actions : List (Action ω κ T)) :
    Machine.Always (Machine.observe (State.step spurious) noteFailed)
      (fun x => x.2.running = true → KeepsTasks spurious x.1 x.2)
      (fun _ => false, State.init clock) actions := by
  refine (Machine.always_observe_of_invariant (P := Tracked spurious) ?_ (Tracked.init clock)
    actions).imp ?_
  · exact fun h hstep => h.step hstep
  · rintro ⟨failed, s⟩ h hrunning
    constructor
    case again => exact fun i hi hnot w => h.runs_again hrunning hi hnot w
    case lost => exact fun i hi more t hrun w => h.not_runsOn hi hrun w
    case unfailed => exact fun hspurious => h.unfailed hspurious hrunning

end CppMetrics.SimpleScheduledThreadPoolExecutor
