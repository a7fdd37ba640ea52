import Mathlib.Algebra.Order.BigOperators.Group.Finset
import Mathlib.Algebra.Order.Group.Multiset
import CppMetrics.Concurrent.SimpleThreadPoolExecutor

/-! Where the commands posted to the pool are: none is lost, none starts twice, and what a
shutdown leaves behind. -/

namespace CppMetrics.SimpleThreadPoolExecutor

/-- What has happened to commands so far. `late` are those posted to a stopped service, `cut` is
set once `shutdownNow` has stopped it, and `joined` once a call has returned from `join_all`. -/
structure Log (T : Type*) where
  posted : List T
  started : List T
  completed : List T
  unwound : List T
  late : List T
  cut : Bool
  joined : Bool

def Log.empty {T : Type*} : Log T := ⟨[], [], [], [], [], false, false⟩

section

variable {ω κ T : Type*}

def Log.post (g : Log T) (stopped : Bool) (command : T) : Log T :=
  { g with
    posted := g.posted ++ [command]
    late := if stopped then g.late ++ [command] else g.late }

def Log.note (g : Log T) (s : State ω κ T) : Action ω κ T → Log T
  | .execute _ command => g.post s.stopped command
  | .post _ command => g.post s.stopped command
  | .dispatch _ n =>
    match s.queue[n]? with
    | some command => { g with started := g.started ++ [command] }
    | none => g
  | .finish w =>
    match s.worker w with
    | .running command => { g with completed := g.completed ++ [command] }
    | _ => g
  | .unwind w =>
    match s.worker w with
    | .running command => { g with unwound := g.unwound ++ [command] }
    | _ => g
  | .client c =>
    match s.client c with
    | .stoppingService => { g with cut := true }
    | .joining => { g with joined := true }
    | _ => g
  | _ => g

def WorkerPc.inHand : WorkerPc T → Multiset T
  | .running command => {command}
  | _ => 0

def WorkerPc.hasExited : WorkerPc T → ℕ
  | .exited => 1
  | _ => 0

variable [Fintype ω]

def State.inHands (s : State ω κ T) : Multiset T := ∑ w, (s.worker w).inHand

def State.exits (s : State ω κ T) : ℕ := ∑ w, (s.worker w).hasExited

/-! ### The books -/

structure Accounted (g : Log T) (s : State ω κ T) : Prop where
  queued : (g.posted : Multiset T) = g.started + s.queue
  begun : (g.started : Multiset T) = s.inHands + g.completed + g.unwound

/-- What is known of a pool that only `shutdown` has stopped: it had run dry. -/
structure Drained (g : Log T) (s : State ω κ T) : Prop where
  rest : s.stopped → g.cut = false → s.queue = g.late ∧ s.inHands = 0
  late : s.stopped = false → g.late = []
  exits : s.stopped = false → s.exits = g.unwound.length
  joined : g.joined → ∀ w, s.worker w = .exited

variable {g : Log T} {s t : State ω κ T} {a : Action ω κ T}

theorem inHands_eq_zero_iff : s.inHands = 0 ↔ ∀ w, (s.worker w).isRunning = false := by
  rw [State.inHands, Finset.sum_eq_zero_iff]
  refine ⟨fun h w => ?_, fun h w _ => ?_⟩
  · have hw := h w (Finset.mem_univ w)
    cases hpc : s.worker w with
    | running command => simp [hpc, WorkerPc.inHand] at hw
    | idle | exited => rfl
  · have hw := h w
    cases hpc : s.worker w with
    | running command => simp [hpc, WorkerPc.isRunning] at hw
    | idle | exited => rfl

theorem dry_iff : s.dry ↔ s.workPtr.alive = false ∧ s.queue = [] ∧ s.inHands = 0 := by
  simp [State.dry, inHands_eq_zero_iff, and_assoc]

variable [DecidableEq ω] [DecidableEq κ]

omit [DecidableEq κ] in
theorem inHands_setWorker (s : State ω κ T) (w : ω) (pc : WorkerPc T) :
    (s.setWorker w pc).inHands + (s.worker w).inHand = s.inHands + pc.inHand :=
  Machine.sum_update_add WorkerPc.inHand s.worker w pc

omit [DecidableEq κ] in
theorem exits_setWorker (s : State ω κ T) (w : ω) (pc : WorkerPc T) :
    (s.setWorker w pc).exits + (s.worker w).hasExited = s.exits + pc.hasExited :=
  Machine.sum_update_add WorkerPc.hasExited s.worker w pc

omit [DecidableEq κ] in
theorem inHands_begin {w : ω} {command : T} {q : List T} (hw : s.worker w = .idle) :
    ({ s with queue := q }.setWorker w (.running command)).inHands = s.inHands + {command} := by
  have h := inHands_setWorker { s with queue := q } w (.running command)
  simp only [hw, WorkerPc.inHand, add_zero] at h
  exact h

omit [DecidableEq κ] in
theorem inHands_end {w : ω} {command : T} (hw : s.worker w = .running command) (pc : WorkerPc T)
    (hpc : pc.inHand = 0) : s.inHands = (s.setWorker w pc).settle.inHands + {command} := by
  have h := inHands_setWorker s w pc
  rw [hw, hpc, add_zero] at h
  exact h.symm

theorem coe_concat (l : List T) (command : T) :
    ((l ++ [command] : List T) : Multiset T) = l + {command} := by
  rw [← Multiset.coe_add, Multiset.coe_singleton]

theorem coe_eraseIdx {l : List T} {n : ℕ} {command : T} (hn : l[n]? = some command) :
    (l : Multiset T) = {command} + (l.eraseIdx n : List T) := by
  obtain ⟨hlt, rfl⟩ := List.getElem?_eq_some_iff.mp hn
  rw [← Multiset.coe_singleton, Multiset.coe_add]
  exact Multiset.coe_eq_coe.mpr (List.getElem_cons_eraseIdx_perm hlt).symm

omit [DecidableEq ω] [DecidableEq κ] in
theorem Accounted.of_eq (hs : Accounted g s) (hqueue : t.queue = s.queue)
    (hinHands : t.inHands = s.inHands) : Accounted g t := by
  refine ⟨?_, ?_⟩
  · rw [hqueue]
    exact hs.queued
  · rw [hinHands]
    exact hs.begun

omit [DecidableEq ω] [DecidableEq κ] in
theorem Accounted.post (hs : Accounted g s) (command : T) (stopped : Bool) :
    Accounted (g.post stopped command) { s with queue := s.queue ++ [command] } := by
  refine ⟨?_, hs.begun⟩
  simp only [Log.post, coe_concat]
  rw [hs.queued, add_assoc]

omit [DecidableEq ω] [DecidableEq κ] in
/-- Every command posted is in exactly one place: queued, in the hands of one thread, completed,
or ended by an interruption. -/
theorem commands_accounted (hs : Accounted g s) :
    (g.posted : Multiset T) = s.queue + s.inHands + g.completed + g.unwound := by
  rw [hs.queued, hs.begun]
  ac_rfl

theorem Accounted.step (hs : Accounted g s) (h : s.Taken a t) : Accounted (g.note s a) t := by
  cases h with
  | execute hc => exact hs.post _ _
  | post hw => exact hs.post _ _
  | @dispatch w n command hw hn hstopped =>
    simp only [Log.note, hn]
    refine ⟨?_, ?_⟩
    · simp only [coe_concat]
      rw [hs.queued, coe_eraseIdx hn, add_assoc]
      rfl
    · simp only [coe_concat]
      rw [hs.begun, inHands_begin hw]
      ac_rfl
  | @finish w command hw =>
    simp only [Log.note, hw]
    refine ⟨hs.queued, ?_⟩
    simp only [coe_concat]
    rw [hs.begun, inHands_end hw .idle rfl]
    ac_rfl
  | @unwind w command hw hinterrupted =>
    simp only [Log.note, hw]
    refine ⟨hs.queued, ?_⟩
    simp only [coe_concat]
    rw [hs.begun, inHands_end hw .exited rfl]
    ac_rfl
  | @exit w hw hstopped =>
    have hinHands := inHands_setWorker s w .exited
    simp only [hw, WorkerPc.inHand, add_zero] at hinHands
    exact hs.of_eq rfl hinHands
  | shutdown hc => exact hs.of_eq rfl rfl
  | @client c t ht =>
    have hcommands : ∀ {g' : Log T}, g'.posted = g.posted → g'.started = g.started →
        g'.completed = g.completed → g'.unwound = g.unwound → t.queue = s.queue →
        t.inHands = s.inHands → Accounted g' t := by
      intro g' hp hst hco hu hq hw
      have ht := hs.of_eq hq hw
      refine ⟨?_, ?_⟩
      · rw [hp, hst]
        exact ht.queued
      · rw [hst, hco, hu]
        exact ht.begun
    simp only [Log.note]
    generalize hpc : s.client c = pc at ht
    cases ht <;> exact hcommands rfl rfl rfl rfl rfl rfl

omit [DecidableEq ω] [DecidableEq κ] in
theorem Drained.settle (hs : Drained g s) : Drained g s.settle := by
  have hstopped : s.settle.stopped = false → s.stopped = false := fun h => by
    simp only [State.settle, Bool.or_eq_false_iff] at h
    exact h.1
  refine ⟨fun h hcut => ?_, fun h => hs.late (hstopped h), fun h => hs.exits (hstopped h),
    hs.joined⟩
  cases hst : s.stopped with
  | true => exact hs.rest hst hcut
  | false =>
    simp only [State.settle, hst, Bool.false_or] at h
    obtain ⟨-, hqueue, hinHands⟩ := dry_iff.mp h
    exact ⟨hqueue.trans (hs.late hst).symm, hinHands⟩

omit [DecidableEq ω] [DecidableEq κ] in
theorem Drained.post (hs : Drained g s) (command : T) :
    Drained (g.post s.stopped command) { s with queue := s.queue ++ [command] } := by
  refine ⟨fun hstopped hcut => ?_, fun hstopped => ?_, hs.exits, hs.joined⟩
  · obtain ⟨hqueue, hinHands⟩ := hs.rest hstopped hcut
    simp only [Log.post, if_pos hstopped, hqueue]
    exact ⟨trivial, hinHands⟩
  · have hfalse : s.stopped = false := hstopped
    simp only [Log.post, hfalse, Bool.false_eq_true, if_false]
    exact hs.late hfalse

omit [DecidableEq ω] [DecidableEq κ] in
theorem Drained.busy (hs : Drained g s) {w : ω} {command : T} (hw : s.worker w = .running command) :
    (s.stopped → g.cut = true) ∧ g.joined = false := by
  refine ⟨fun hstopped => ?_, ?_⟩
  · by_contra hcut
    have hnone := inHands_eq_zero_iff.mp (hs.rest hstopped (Bool.eq_false_iff.mpr hcut)).2 w
    rw [hw] at hnone
    cases hnone
  · by_contra hjoined
    rw [Bool.not_eq_false] at hjoined
    cases hw.symm.trans (hs.joined hjoined w)

theorem Drained.step (hs : Drained g s) (h : s.Taken a t) : Drained (g.note s a) t := by
  cases h with
  | execute hc => exact hs.post _
  | post hw => exact hs.post _
  | @dispatch w n command hw hn hstopped =>
    have hexits := exits_setWorker { s with queue := s.queue.eraseIdx n } w (.running command)
    simp only [hw, WorkerPc.hasExited, add_zero] at hexits
    simp only [Log.note, hn]
    refine ⟨fun h => ?_, hs.late, fun h => hexits.trans (hs.exits h), fun h => ?_⟩
    · cases hstopped.symm.trans h
    · cases hw.symm.trans (hs.joined h w)
  | @finish w command hw =>
    obtain ⟨hcut, hjoined⟩ := hs.busy hw
    have hexits := exits_setWorker s w .idle
    simp only [hw, WorkerPc.hasExited, add_zero] at hexits
    simp only [Log.note, hw]
    refine Drained.settle ⟨fun h hc => ?_, hs.late, fun h => hexits.trans (hs.exits h), fun h => ?_⟩
    · cases (hcut h).symm.trans hc
    · cases hjoined.symm.trans h
  | @unwind w command hw hinterrupted =>
    obtain ⟨hcut, hjoined⟩ := hs.busy hw
    have hexits := exits_setWorker s w .exited
    simp only [hw, WorkerPc.hasExited, add_zero] at hexits
    simp only [Log.note, hw]
    refine Drained.settle ⟨fun h hc => ?_, hs.late, fun h => ?_, fun h => ?_⟩
    · cases (hcut h).symm.trans hc
    · rw [hexits, hs.exits h, List.length_append, List.length_singleton]
    · cases hjoined.symm.trans h
  | @exit w hw hstopped =>
    have hinHands := inHands_setWorker s w .exited
    simp only [hw, WorkerPc.inHand, add_zero] at hinHands
    refine ⟨fun _ hcut => ?_, hs.late, fun h => ?_, fun h v => ?_⟩
    · rw [hinHands]
      exact hs.rest hstopped hcut
    · cases hstopped.symm.trans h
    · cases hw.symm.trans (hs.joined h w)
  | shutdown hc => exact ⟨hs.rest, hs.late, hs.exits, hs.joined⟩
  | @client c t ht =>
    have hsame : ∀ {g' : Log T}, g' = g → t.queue = s.queue → t.stopped = s.stopped →
        t.worker = s.worker → Drained g' t := by
      intro g' hg hq hst hw
      refine ⟨?_, ?_, ?_, ?_⟩
      · rw [hg, hq, hst, State.inHands, hw]
        exact hs.rest
      · rw [hg, hst]
        exact hs.late
      · rw [hg, hst, State.exits, hw]
        exact hs.exits
      · rw [hg, hw]
        exact hs.joined
    simp only [Log.note]
    generalize hpc : s.client c = pc at ht
    cases ht with
    | proceed | giveUp | clear | interrupt => exact hsame rfl rfl rfl rfl
    | @releaseWork stage workPtr next hreset =>
      have hwork : Drained g ({ s with workPtr := workPtr } : State ω κ T) :=
        ⟨hs.rest, hs.late, hs.exits, hs.joined⟩
      exact ⟨hwork.settle.rest, hwork.settle.late, hwork.settle.exits, hwork.settle.joined⟩
    | stopService =>
      exact ⟨fun _ h => (nomatch h), fun h => (nomatch h), fun h => (nomatch h), hs.joined⟩
    | join hexited => exact ⟨hs.rest, hs.late, hs.exits, fun _ => hexited⟩

/-! ### Whole runs -/

omit [DecidableEq ω] [DecidableEq κ] in
theorem Accounted.init : Accounted Log.empty (State.init : State ω κ T) := by
  have hinHands : (State.init : State ω κ T).inHands = 0 :=
    inHands_eq_zero_iff.mpr fun _ => rfl
  refine ⟨rfl, ?_⟩
  rw [hinHands]
  rfl

omit [DecidableEq ω] [DecidableEq κ] in
theorem Drained.init : Drained Log.empty (State.init : State ω κ T) := by
  refine ⟨fun h => (nomatch h), fun _ => rfl, fun _ => ?_, fun h => (nomatch h)⟩
  exact Finset.sum_eq_zero fun _ _ => rfl

theorem always_drained (as : List (Action ω κ T)) :
    Machine.Always (Machine.observe State.step Log.note)
      (fun x => Accounted x.1 x.2 ∧ Drained x.1 x.2) (Log.empty, State.init) as := by
  refine Machine.always_observe_of_invariant
    (P := fun (g : Log T) (s : State ω κ T) => Accounted g s ∧ Drained g s) (fun hs ht => ?_)
    ⟨.init, .init⟩ as
  have ha := State.taken_of_step ht
  exact ⟨hs.1.step ha, hs.2.step ha⟩

/-- Once a shutdown has joined the threads none of them runs anything. If only `shutdown` was
called, all that had been posted when the service ran dry was run to its end or interrupted,
except where every thread was lost to an interruption before that. -/
theorem shutdown_completes_posted (as : List (Action ω κ T)) :
    Machine.Always (Machine.observe State.step Log.note)
      (fun (x : Log T × State ω κ T) => x.1.joined → (∀ w, x.2.worker w = .exited) ∧
        (x.1.cut = false →
          (x.1.posted : Multiset T) = x.1.completed + x.1.unwound + x.1.late ∨
            x.2.stopped = false ∧ x.1.unwound.length = Fintype.card ω))
      (Log.empty, State.init) as := by
  refine (always_drained as).imp ?_
  rintro ⟨g, s⟩ ⟨hbooks, hdrained⟩ hjoined
  have hexited := hdrained.joined hjoined
  refine ⟨hexited, fun hcut => ?_⟩
  cases hst : s.stopped with
  | true =>
    left
    obtain ⟨hqueue, hinHands⟩ := hdrained.rest hst hcut
    rw [commands_accounted hbooks, hinHands, hqueue, add_zero]
    ac_rfl
  | false =>
    right
    have hcount : s.exits = Fintype.card ω := by
      rw [State.exits, Finset.sum_congr rfl fun w _ => congrArg WorkerPc.hasExited (hexited w)]
      simp [WorkerPc.hasExited]
    exact ⟨rfl, (hdrained.exits hst).symm.trans hcount⟩

/-! ### Shutdowns return -/

def Action.goesOn : Action ω κ T → Bool
  | .dispatch _ _ | .finish _ | .unwind _ | .exit _ | .client _ => true
  | .execute _ _ | .post _ _ | .shutdown _ _ => false

def WorkerPc.rank : WorkerPc T → ℕ
  | .running _ => 2
  | .idle => 1
  | .exited => 0

def ClientPc.rank : ClientPc → ℕ
  | .leaving _ => 7
  | .clearing _ => 6
  | .releasingWork stage => stage.rank + 2
  | .stoppingService => 3
  | .interrupting => 2
  | .joining => 1
  | .idle => 0

variable [Fintype κ]

def State.rank (s : State ω κ T) : ℕ :=
  3 * s.queue.length + ∑ w, (s.worker w).rank + ∑ c, (s.client c).rank

omit [DecidableEq κ] in
theorem rank_setWorker (s : State ω κ T) (w : ω) (pc : WorkerPc T) :
    (s.setWorker w pc).rank + (s.worker w).rank = s.rank + pc.rank := by
  have h := Machine.sum_update_add WorkerPc.rank s.worker w pc
  simp only [State.rank, State.setWorker]
  omega

omit [DecidableEq ω] in
theorem rank_setClient (s : State ω κ T) (c : κ) (pc : ClientPc) :
    (s.setClient c pc).rank + (s.client c).rank = s.rank + pc.rank := by
  have h := Machine.sum_update_add ClientPc.rank s.client c pc
  simp only [State.rank, State.setClient]
  omega

omit [DecidableEq ω] in
theorem rank_client_lt {c : κ} (h : s.ClientTaken c (s.client c) t) : t.rank < s.rank := by
  have hset := rank_setClient s c
  generalize hpc : s.client c = pc at h hset
  have hlt : ∀ {pc' : ClientPc}, t.rank = (s.setClient c pc').rank → pc'.rank < pc.rank →
      t.rank < s.rank := by
    intro pc' heq hpc'
    have := hset pc'
    omega
  cases h with
  | proceed | giveUp | stopService | interrupt | join => exact hlt rfl (by simp [ClientPc.rank])
  | @clear now => cases now <;> exact hlt rfl (by simp [ClientPc.rank, ScopedPtr.Stage.rank])
  | @releaseWork stage workPtr next hreset =>
    have hstage := ScopedPtr.rank_step hreset
    refine hlt rfl ?_
    cases next with
    | none => exact Nat.lt_add_of_pos_left hstage
    | some next => exact Nat.add_lt_add_right hstage 2

theorem rank_lt (h : s.Taken a t) (ha : a.goesOn) : t.rank < s.rank := by
  cases h with
  | execute | post | shutdown => cases ha
  | @dispatch w n command hw hn hstopped =>
    have hset := rank_setWorker { s with queue := s.queue.eraseIdx n } w (.running command)
    obtain ⟨hlt, -⟩ := List.getElem?_eq_some_iff.mp hn
    have hlength := List.length_eraseIdx_of_lt hlt
    simp only [hw, WorkerPc.rank] at hset
    have hrank : ({ s with queue := s.queue.eraseIdx n } : State ω κ T).rank + 3 = s.rank := by
      simp only [State.rank]
      omega
    omega
  | @finish w command hw | @unwind w command hw =>
    have hset := rank_setWorker s w
    rw [hw] at hset
    have hidle := hset .idle
    have hexited := hset .exited
    simp only [WorkerPc.rank] at hidle hexited
    first
    | exact (show (s.setWorker w .idle).rank < s.rank by omega)
    | exact (show (s.setWorker w .exited).rank < s.rank by omega)
  | @exit w hw hstopped =>
    have hset := rank_setWorker s w .exited
    simp only [hw, WorkerPc.rank] at hset
    omega
  | client ht => exact rank_client_lt ht

/-- A service with nothing left to do has stopped, and a caller about to join the threads has
reset the work pointer or stopped the service. -/
structure Settled (s : State ω κ T) : Prop where
  dry : s.dry → s.stopped
  past : ∀ c, s.client c = .interrupting ∨ s.client c = .joining →
    s.workPtr.set = false ∨ s.stopped
  released : ScopedPtr.Released s.workPtr s.stages

omit [Fintype κ] [DecidableEq ω] [DecidableEq κ] in
theorem Settled.init : Settled (State.init : State ω κ T) := by
  refine ⟨fun h => ?_, fun c h => ?_, ScopedPtr.released_new fun _ => rfl⟩
  · obtain ⟨hwork, -⟩ := dry_iff.mp h
    cases hwork
  · rcases h with h | h <;> cases h

omit [Fintype κ] [DecidableEq ω] [DecidableEq κ] in
theorem Settled.settle (hpast : ∀ c, s.client c = .interrupting ∨ s.client c = .joining →
    s.workPtr.set = false ∨ s.stopped) (hreleased : ScopedPtr.Released s.workPtr s.stages) :
    Settled s.settle := by
  refine ⟨fun h => ?_, fun c hc => (hpast c hc).imp_right fun h => ?_, hreleased⟩
  · have hdry : s.dry := h
    simp [State.settle, hdry]
  · simp [State.settle, h]

omit [Fintype κ] [DecidableEq ω] in
theorem Settled.client (hs : Settled s) {c : κ} (h : s.ClientTaken c (s.client c) t) :
    Settled t := by
  -- the caller's own new place aside, `past` only needs that nothing is taken back
  have hpast : ∀ {pc : ClientPc} {u : State ω κ T}, u.client = Function.update s.client c pc →
      (pc = .interrupting ∨ pc = .joining → u.workPtr.set = false ∨ u.stopped) →
      (s.workPtr.set = false → u.workPtr.set = false) → (s.stopped → u.stopped) →
      ∀ d, u.client d = .interrupting ∨ u.client d = .joining →
        u.workPtr.set = false ∨ u.stopped := by
    intro pc u hu hpc hwork hst d hd
    rw [hu, Function.update_apply] at hd
    split_ifs at hd
    · exact hpc hd
    · exact (hs.past d hd).imp hwork hst
  have hreleased := hs.released.step (State.resets_client h)
  generalize hpc : s.client c = pc at h
  have hstage : s.stages c = pc.stage := congrArg ClientPc.stage hpc
  cases h with
  | proceed | giveUp => exact ⟨hs.dry, hpast rfl (by simp) id id, hreleased⟩
  | @clear now => exact ⟨hs.dry, hpast rfl (by cases now <;> simp) id id, hreleased⟩
  | interrupt => exact ⟨hs.dry, hpast rfl (fun _ => hs.past c (.inl hpc)) id id, hreleased⟩
  | join => exact ⟨hs.dry, hpast rfl (by simp) id id, hreleased⟩
  | stopService => exact ⟨fun _ => rfl, hpast rfl (fun _ => .inr rfl) id fun _ => rfl, hreleased⟩
  | @releaseWork stage workPtr next hreset =>
    have hset := ScopedPtr.set_step hreset
    refine ⟨fun h => ?_, hpast rfl (fun hnext => .inl ?_) hset fun h => ?_, hreleased⟩
    · have hdry : ({ s with workPtr := workPtr } : State ω κ T).dry := h
      simp [State.settle, State.setClient, hdry]
    · cases next with
      | none => exact hs.released.set_of_through hstage hreset
      | some next => simp at hnext
    · simp [State.settle, State.setClient, h]

omit [Fintype κ] in
theorem Settled.step (hs : Settled s) (h : s.Taken a t) : Settled t := by
  cases h with
  | execute | post =>
    refine ⟨fun h => ?_, hs.past, hs.released⟩
    obtain ⟨-, hqueue, -⟩ := dry_iff.mp h
    simp at hqueue
  | @dispatch w n command hw hn hstopped =>
    refine ⟨fun h => ?_, hs.past, hs.released⟩
    obtain ⟨-, -, hinHands⟩ := dry_iff.mp h
    have hnone := inHands_eq_zero_iff.mp hinHands w
    simp [State.setWorker, WorkerPc.isRunning] at hnone
  | finish hw | unwind hw => exact Settled.settle hs.past hs.released
  | exit hw hstopped => exact ⟨fun _ => hstopped, hs.past, hs.released⟩
  | @shutdown c now hc =>
    refine ⟨hs.dry, fun d hd => hs.past d ?_,
      hs.released.step (State.resets_of_taken (a := .shutdown c now) (.shutdown hc))⟩
    simp only [State.setClient, Function.update_apply] at hd
    split_ifs at hd
    · rcases hd with hd | hd <;> cases hd
    · exact hd
  | client ht => exact hs.client ht

omit [Fintype κ] in
theorem client_idle_of_stuck (hs : Settled s) (hstuck : ∀ a, a.goesOn → s.step a = none)
    (honce : ¬ScopedPtr.DeletedTwice s.workPtr s.stages) (c : κ) : s.client c = .idle := by
  have hreset : ∀ d st, s.stages d = some st → s.workPtr.step st = none := fun d st hd => by
    have h := hstuck (.client d) rfl
    simpa only [State.step, State.clientStep, ClientPc.stage_eq_some_iff.mp hd,
      Option.map_eq_none_iff] using h
  cases hpc : s.client c with
  | idle => rfl
  | releasingWork stage =>
    have hstage : s.stages c = some stage := ClientPc.stage_eq_some_iff.mpr hpc
    exact absurd (ScopedPtr.deletedTwice_of_stuck hstage (hreset c stage hstage)) honce
  | leaving | clearing | stoppingService | interrupting =>
    have h := hstuck (.client c) rfl
    simp [State.step, State.clientStep, hpc] at h
  | joining =>
    have hrunning : ∀ w, (s.worker w).isRunning = false := fun w => by
      have h := hstuck (.finish w) rfl
      cases hw : s.worker w with
      | running command => simp [State.step, hw] at h
      | idle | exited => rfl
    have hexited : ∀ w, s.worker w = .exited := fun w => by
      cases hw : s.worker w with
      | running command =>
        have h := hrunning w
        rw [hw] at h
        cases h
      | exited => rfl
      | idle =>
        -- an idle thread leaves a stopped service and takes what is queued in a running one
        have hexit := hstuck (.exit w) rfl
        simp only [State.step, hw, ite_eq_right_iff, reduceCtorEq, imp_false,
          Bool.not_eq_true] at hexit
        have hset : s.workPtr.set = false := (hs.past c (.inr hpc)).resolve_right (by simp [hexit])
        have hwork : s.workPtr.alive = false := hs.released.gone hset hreset
        have hqueue : s.queue ≠ [] := fun hqueue => by
          have hdry := hs.dry (dry_iff.mpr ⟨hwork, hqueue, inHands_eq_zero_iff.mpr hrunning⟩)
          cases hexit.symm.trans hdry
        have hdispatch := hstuck (.dispatch w 0) rfl
        have hhead := List.getElem?_eq_getElem (List.length_pos_iff.mpr hqueue)
        simp [State.step, hw, hhead, hexit] at hdispatch
    have h := hstuck (.client c) rfl
    simp [State.step, State.clientStep, hpc, hexited] at h

/-- Every shutdown comes back, whatever the schedule and however many callers race: if no new
command is posted and no new shutdown begun, only finitely many steps can be taken, and when none
is left every caller has returned. What may stop them is a second deletion of the work object, and
only where two callers reset the pointer at the same time. -/
theorem pool_shutdown_returns (as : List (Action ω κ T)) :
    Machine.Always State.step
      (fun s => ∀ bs t, Machine.run State.step s bs = some t → (∀ a ∈ bs, a.goesOn) →
        bs.length ≤ s.rank ∧ ((∀ a, a.goesOn → t.step a = none) →
          ¬ScopedPtr.DeletedTwice t.workPtr t.stages → ∀ c, t.client c = .idle))
      (State.init : State ω κ T) as ∧
    (Machine.Always State.step (fun s => ScopedPtr.Alone s.stages) (State.init : State ω κ T) as →
      Machine.Always State.step (fun s => ¬ScopedPtr.DeletedTwice s.workPtr s.stages)
        (State.init : State ω κ T) as) := by
  refine ⟨?_, State.never_deletedTwice⟩
  have hsettled : Machine.Always State.step Settled (State.init : State ω κ T) as :=
    Machine.always_of_invariant (fun hs ht => hs.step (State.taken_of_step ht)) .init as
  refine hsettled.imp fun s hs bs t hrun hgo => ⟨?_, fun hstuck honce => ?_⟩
  · have hcount := Machine.countP_add_rank_le (A := fun a => a.goesOn = true) (P := fun _ => True)
      State.rank (fun _ => true) (fun _ _ _ => trivial)
      (fun _ ha ht => rank_lt (State.taken_of_step ht) ha) trivial hgo hrun
    rw [List.countP_true] at hcount
    omega
  · have ht : Settled t :=
      (Machine.always_of_invariant (fun hs ht => hs.step (State.taken_of_step ht)) hs bs).last hrun
    exact client_idle_of_stuck ht hstuck honce

/-- Two callers inside `reset` at the same time, and the second is about to delete the work object
that the first has deleted. -/
example : (Machine.run State.step (State.init : State (Fin 1) (Fin 2) Unit)
    (List.flatten [[.shutdown 0 false, .shutdown 1 false, .client 0, .client 1],
      List.replicate 2 (.client 0), List.replicate 2 (.client 1), List.replicate 2 (.client 0),
      [.client 1]])).map
      (fun s => (s.workPtr.alive, s.client 1 matches .releasingWork (.deleting true))) =
        some (false, true) := by
  decide +kernel

end

end CppMetrics.SimpleThreadPoolExecutor
