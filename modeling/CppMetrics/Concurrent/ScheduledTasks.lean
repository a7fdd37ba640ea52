import CppMetrics.Concurrent.SimpleScheduledThreadPoolExecutor
import CppMetrics.Lib.Exclusive

/-! The tasks of the executor over a run. Every timer index is held by one wait, one handler or one
caller at most, and is passed from one to the next; with it go the expiry of its timer and a record
of the runs of its task. -/

namespace CppMetrics.SimpleScheduledThreadPoolExecutor

/-- The runs of one task: its first deadline, the deadlines of the runs that have started, the time
from the end of each run to the start of the next, the end of the last run, and whether no re-arm
has reported an error. -/
structure Record where
  first : ℤ
  deadlines : List ℤ
  gaps : List ℤ
  lastEnd : Option ℤ
  faultless : Bool

namespace Record

def new (first : ℤ) : Record := ⟨first, [], [], none, true⟩

def noteStart (now deadline : ℤ) (r : Record) : Record :=
  { r with
    deadlines := r.deadlines ++ [deadline]
    gaps := r.gaps ++ (r.lastEnd.map fun d => now - d).toList }

def noteEnd (now : ℤ) (r : Record) : Record := { r with lastEnd := some now }

def noteRearm (eec : Bool) (r : Record) : Record := { r with faultless := r.faultless && !eec }

end Record

section

variable {ω κ T : Type*}

def noteHandler (s : State ω κ T) (eec : Bool) (index : ℕ) (r : Record) :
    HandlerPc T → Record
  | .copied _ => r.noteStart s.clock (s.expiry index)
  | .running _ => r.noteEnd s.clock
  | .ran _ => r.noteRearm eec
  | _ => r

def note (g : ℕ → Record) (s : State ω κ T) : Action ω κ T → ℕ → Record
  | .work w eec =>
    match s.worker w with
    | .handling index pc => Function.update g index (noteHandler s eec index (g index) pc)
    | _ => g
  | .unwind w =>
    match s.worker w with
    | .handling index (.running _) => Function.update g index ((g index).noteEnd s.clock)
    | _ => g
  | .client c =>
    match s.client c with
    | .constructed _ expiry => Function.update g s.timerTasks.length (Record.new expiry)
    | _ => g
  | _ => g

inductive Holder (ω κ : Type*)
  | wait
  | worker (w : ω)
  | client (c : κ)

def Holds (s : State ω κ T) : Holder ω κ → ℕ → Prop
  | .wait, i => i ∈ s.waits.map Wait.index
  | .worker w, i => ∃ pc, s.worker w = .handling i pc
  | .client c, i => s.client c = .pushed i

/-! ### One task -/

structure Armed (r : Record) (e : TimerTask T) (expiry : ℤ) : Prop where
  rate : r.faultless → e.fixedRate → expiry = r.first + r.deadlines.length * e.period
  delay : r.faultless → e.fixedRate = false → ∀ d, r.lastEnd = some d → d + e.period ≤ expiry

def Started (r : Record) (e : TimerTask T) (expiry : ℤ) : Prop :=
  r.faultless → e.fixedRate → expiry + e.period = r.first + r.deadlines.length * e.period

structure OnTime (r : Record) (e : TimerTask T) : Prop where
  rate : r.faultless → e.fixedRate →
    ∀ (m : ℕ) d, r.deadlines[m]? = some d → d = r.first + m * e.period
  delay : r.faultless → e.fixedRate = false → ∀ gap ∈ r.gaps, e.period ≤ gap

def HandlerOk (r : Record) (e : Option (TimerTask T)) (expiry clock : ℤ) : HandlerPc T → Prop
  | .entered ec => ∃ e', e = some e' ∧ Armed r e' expiry ∧ (ec = false → expiry ≤ clock)
  | .checked => ∃ e', e = some e' ∧ Armed r e' expiry ∧ expiry ≤ clock
  | .copied e' => e = some e' ∧ Armed r e' expiry ∧ expiry ≤ clock
  | .running e' | .ran e' => e = some e' ∧ Started r e' expiry
  | .rearmed e' => e = some e' ∧ Armed r e' expiry

/-! ### The record of a task from one point of its handler to the next -/

section

variable {r : Record} {e : TimerTask T} {expiry now : ℤ}

theorem Armed.new (e : TimerTask T) (first : ℤ) : Armed (Record.new first) e first where
  rate _ _ := by simp [Record.new]
  delay _ _ _ hd := by cases hd

theorem OnTime.new (e : TimerTask T) (first : ℤ) : OnTime (Record.new first) e where
  rate _ _ _ _ hd := by simp [Record.new] at hd
  delay _ _ _ hgap := by simp [Record.new] at hgap

theorem Armed.noteStart (h : Armed r e expiry) : Started (r.noteStart now expiry) e expiry := by
  intro hok hrate
  rw [h.rate hok hrate]
  simp only [Record.noteStart, List.length_append, List.length_singleton]
  rw [Int.natCast_succ, Int.add_mul, Int.one_mul, Int.add_assoc]

theorem OnTime.noteStart (h : OnTime r e) (harmed : Armed r e expiry) (hnow : expiry ≤ now) :
    OnTime (r.noteStart now expiry) e := by
  constructor
  case rate =>
    intro hok hrate m d hd
    rw [Record.noteStart, List.getElem?_append] at hd
    split_ifs at hd with hm
    · exact h.rate hok hrate m d hd
    · -- the run that starts now
      rw [List.getElem?_singleton] at hd
      split_ifs at hd with hlast
      cases hd
      rw [harmed.rate hok hrate, Nat.le_antisymm (Nat.sub_eq_zero_iff_le.mp hlast) (not_lt.mp hm)]
      rfl
  case delay =>
    intro hok hrate gap hgap
    rw [Record.noteStart, List.mem_append, Option.mem_toList,
      Option.map_eq_some_iff] at hgap
    rcases hgap with hgap | ⟨d, hd, rfl⟩
    · exact h.delay hok hrate gap hgap
    · have := harmed.delay hok hrate d hd
      omega

theorem OnTime.noteEnd (h : OnTime r e) : OnTime (r.noteEnd now) e := ⟨h.rate, h.delay⟩

theorem Started.noteEnd (h : Started r e expiry) : Started (r.noteEnd now) e expiry := h

theorem OnTime.noteRearm (h : OnTime r e) (eec : Bool) : OnTime (r.noteRearm eec) e where
  rate hok := h.rate (Bool.and_eq_true_iff.mp hok).1
  delay hok := h.delay (Bool.and_eq_true_iff.mp hok).1

theorem Armed.noteRearm_error : Armed (r.noteRearm true) e expiry := by
  have hfault : ¬(r.noteRearm true).faultless := by simp [Record.noteRearm]
  exact ⟨fun hok => absurd hok hfault, fun hok => absurd hok hfault⟩

theorem Started.noteRearm (h : Started r e expiry) (hended : ∀ d, r.lastEnd = some d → d ≤ now) :
    Armed (r.noteRearm false) e
      (if e.fixedRate then expiry + e.period else now + e.period) := by
  have hfaultless : (r.noteRearm false).faultless = r.faultless := by simp [Record.noteRearm]
  constructor
  case rate =>
    intro hok hrate
    rw [if_pos hrate]
    exact h (hfaultless ▸ hok) hrate
  case delay =>
    intro _ hdelay d hd
    rw [if_neg (by simp [hdelay])]
    have := hended d hd
    omega

end

/-! ### All tasks -/

structure Invariant (g : ℕ → Record) (s : State ω κ T) : Prop where
  exclusive : Exclusive (Holds s)
  waits_nodup : (s.waits.map Wait.index).Nodup
  wait : ∀ i ∈ s.waits.map Wait.index, ∃ e, s.timerTasks[i]? = some e ∧ Armed (g i) e (s.expiry i)
  handler : ∀ w i pc, s.worker w = .handling i pc →
    HandlerOk (g i) s.timerTasks[i]? (s.expiry i) s.clock pc
  client : ∀ c i, s.client c = .pushed i →
    ∃ e, s.timerTasks[i]? = some e ∧ Armed (g i) e (s.expiry i)
  ended : ∀ i d, (g i).lastEnd = some d → d ≤ s.clock
  onTime : ∀ i e, s.timerTasks[i]? = some e → OnTime (g i) e

variable {g : ℕ → Record} {s t : State ω κ T} {i : ℕ} {w : ω} {pc : HandlerPc T} {r : Record}

theorem Invariant.not_wait (h : Invariant g s) {k : Holder ω κ} (hk : Holds s k i)
    (hne : k ≠ .wait) : i ∉ s.waits.map Wait.index :=
  fun hwait => hne (h.exclusive hk (k := .wait) hwait)

theorem Invariant.neutral (h : Invariant g s) (hwaits : t.waits.map Wait.index =
      s.waits.map Wait.index) (htasks : t.timerTasks = s.timerTasks) (hexpiry : t.expiry = s.expiry)
    (hclock : s.clock ≤ t.clock)
    (hworker : ∀ w i pc, t.worker w = .handling i pc → s.worker w = .handling i pc)
    (hclient : ∀ c i, t.client c = .pushed i → s.client c = .pushed i) : Invariant g t := by
  constructor
  case exclusive =>
    refine h.exclusive.mono fun k j hk => ?_
    cases k with
    | wait =>
      show j ∈ s.waits.map Wait.index
      rw [← hwaits]
      exact hk
    | worker w => exact hk.imp fun pc hpc => hworker w j pc hpc
    | client c => exact hclient c j hk
  case waits_nodup => exact hwaits ▸ h.waits_nodup
  case wait =>
    rw [hwaits, htasks, hexpiry]
    exact h.wait
  case handler =>
    intro w i pc hpc
    have hok := h.handler w i pc (hworker w i pc hpc)
    rw [htasks, hexpiry]
    cases pc with
    | entered ec => exact hok.imp fun e he => ⟨he.1, he.2.1, fun hec => (he.2.2 hec).trans hclock⟩
    | checked => exact hok.imp fun e he => ⟨he.1, he.2.1, he.2.2.trans hclock⟩
    | copied e => exact ⟨hok.1, hok.2.1, hok.2.2.trans hclock⟩
    | _ => exact hok
  case client =>
    intro c i hc
    rw [htasks, hexpiry]
    exact h.client c i (hclient c i hc)
  case ended => exact fun i d hd => (h.ended i d hd).trans hclock
  case onTime =>
    rw [htasks]
    exact h.onTime

theorem Invariant.handlerStep [DecidableEq ω] (h : Invariant g s) (hw : s.worker w = .handling i pc)
    {x : WorkerPc T} (hwaits : t.waits.map Wait.index = s.waits.map Wait.index)
    (htasks : t.timerTasks = s.timerTasks) (hexpiry : ∀ j, j ≠ i → t.expiry j = s.expiry j)
    (hclock : t.clock = s.clock) (hworker : t.worker = Function.update s.worker w x)
    (hclient : t.client = s.client)
    (hx : ∀ j pc', x = .handling j pc' →
      j = i ∧ HandlerOk r s.timerTasks[i]? (t.expiry i) s.clock pc')
    (hended : ∀ d, r.lastEnd = some d → d ≤ s.clock)
    (hontime : ∀ e, s.timerTasks[i]? = some e → OnTime r e) :
    Invariant (Function.update g i r) t := by
  have hholds : Holds s (.worker w) i := ⟨pc, hw⟩
  -- whoever holds an index and is not `w` holds another one
  have hother : ∀ k j, Holds s k j → k ≠ .worker w → j ≠ i := by
    rintro k j hk hne rfl
    exact hne (h.exclusive hk hholds)
  have hhandles : ∀ w' j pc', t.worker w' = .handling j pc' →
      (w' = w ∧ j = i ∧ HandlerOk r s.timerTasks[i]? (t.expiry i) s.clock pc') ∨
        (j ≠ i ∧ s.worker w' = .handling j pc') := by
    intro w' j pc' hpc
    rw [hworker, Function.update_apply] at hpc
    split_ifs at hpc with heq
    · exact Or.inl ⟨heq, hx j pc' hpc⟩
    · exact Or.inr ⟨hother (.worker w') j ⟨pc', hpc⟩ fun hk => heq (Holder.worker.inj hk), hpc⟩
  constructor
  case exclusive =>
    refine h.exclusive.mono fun k j hk => ?_
    cases k with
    | wait =>
      show j ∈ s.waits.map Wait.index
      rw [← hwaits]
      exact hk
    | worker w' =>
      obtain ⟨pc', hpc⟩ := hk
      rcases hhandles w' j pc' hpc with ⟨rfl, rfl, -⟩ | ⟨-, hpc⟩
      · exact hholds
      · exact ⟨pc', hpc⟩
    | client c =>
      show s.client c = .pushed j
      rw [← hclient]
      exact hk
  case waits_nodup => exact hwaits ▸ h.waits_nodup
  case wait =>
    intro j hj
    rw [hwaits] at hj
    have hne : j ≠ i := hother .wait j hj (by simp)
    rw [htasks, Function.update_of_ne hne, hexpiry j hne]
    exact h.wait j hj
  case handler =>
    intro w' j pc' hpc
    rw [htasks, hclock]
    rcases hhandles w' j pc' hpc with ⟨rfl, rfl, hok⟩ | ⟨hne, hpc⟩
    · rwa [Function.update_self]
    · rw [Function.update_of_ne hne, hexpiry j hne]
      exact h.handler w' j pc' hpc
  case client =>
    intro c j hc
    rw [hclient] at hc
    have hne : j ≠ i := hother (.client c) j hc (by simp)
    rw [htasks, Function.update_of_ne hne, hexpiry j hne]
    exact h.client c j hc
  case ended =>
    intro j d hd
    rw [hclock]
    rcases eq_or_ne j i with rfl | hne
    · rw [Function.update_self] at hd
      exact hended d hd
    · rw [Function.update_of_ne hne] at hd
      exact h.ended j d hd
  case onTime =>
    intro j e he
    rw [htasks] at he
    rcases eq_or_ne j i with rfl | hne
    · rw [Function.update_self]
      exact hontime e he
    · rw [Function.update_of_ne hne]
      exact h.onTime j e he

theorem Invariant.asyncWait (h : Invariant g s) {k : Holder ω κ} (hk : Holds s k i)
    (hne : k ≠ .wait) (harmed : ∃ e, s.timerTasks[i]? = some e ∧ Armed (g i) e (s.expiry i))
    (hwaits : t.waits.map Wait.index = s.waits.map Wait.index ++ [i])
    (htasks : t.timerTasks = s.timerTasks) (hexpiry : t.expiry = s.expiry)
    (hclock : t.clock = s.clock)
    (hworker : ∀ w j pc, t.worker w = .handling j pc →
      s.worker w = .handling j pc ∧ ¬(Holder.worker w = k ∧ j = i))
    (hclient : ∀ c j, t.client c = .pushed j →
      s.client c = .pushed j ∧ ¬(Holder.client c = k ∧ j = i)) : Invariant g t := by
  constructor
  case exclusive =>
    refine h.exclusive.move (k := .wait) hk fun k' j hk' => ?_
    cases k' with
    | wait =>
      change j ∈ t.waits.map Wait.index at hk'
      rw [hwaits, List.mem_append, List.mem_singleton] at hk'
      rcases hk' with hk' | rfl
      · exact Or.inl ⟨hk', fun heq => hne heq.1.symm⟩
      · exact Or.inr ⟨rfl, rfl⟩
    | worker w =>
      obtain ⟨pc, hpc⟩ := hk'
      obtain ⟨hold, hleft⟩ := hworker w j pc hpc
      exact Or.inl ⟨⟨pc, hold⟩, hleft⟩
    | client c => exact Or.inl (hclient c j hk')
  case waits_nodup =>
    rw [hwaits, List.nodup_append]
    refine ⟨h.waits_nodup, List.nodup_singleton i, ?_⟩
    rintro j hj _ hi rfl
    rw [List.mem_singleton] at hi
    exact h.not_wait hk hne (hi ▸ hj)
  case wait =>
    intro j hj
    rw [hwaits, List.mem_append, List.mem_singleton] at hj
    rw [htasks, hexpiry]
    rcases hj with hj | rfl
    · exact h.wait j hj
    · exact harmed
  case handler =>
    intro w j pc hpc
    rw [htasks, hexpiry, hclock]
    exact h.handler w j pc (hworker w j pc hpc).1
  case client =>
    intro c j hc
    rw [htasks, hexpiry]
    exact h.client c j (hclient c j hc).1
  case ended =>
    rw [hclock]
    exact h.ended
  case onTime =>
    rw [htasks]
    exact h.onTime

theorem Invariant.registered (h : Invariant g s) {k : Holder ω κ} (hk : Holds s k i) :
    ∃ e, s.timerTasks[i]? = some e := by
  cases k with
  | wait => exact (h.wait i hk).imp fun _ he => he.1
  | worker w =>
    obtain ⟨pc, hpc⟩ := hk
    have hok := h.handler w i pc hpc
    cases pc with
    | entered => exact hok.imp fun _ he => he.1
    | checked => exact hok.imp fun _ he => he.1
    | _ => exact ⟨_, hok.1⟩
  | client c => exact (h.client c i hk).imp fun _ he => he.1

omit i in
theorem Invariant.dispatch [DecidableEq ω] (h : Invariant g s) {n : ℕ} {x : Wait} {ec : Bool}
    (hx : s.waits[n]? = some x) (hidle : s.worker w = .idle)
    (hec : ec = false → s.expiry x.index ≤ s.clock) :
    Invariant g ({ s with waits := s.waits.eraseIdx n }.setWorker w
      (.handling x.index (.entered ec))) := by
  -- no other wait has this index, so erasing the position erases the index
  have hn : (s.waits.map Wait.index)[n]? = some x.index := by rw [List.getElem?_map, hx]; rfl
  have hholds : Holds s .wait x.index := List.mem_of_getElem? hn
  have hwaits : (s.waits.eraseIdx n).map Wait.index =
      (s.waits.map Wait.index).erase x.index := by
    obtain ⟨hlt, hget⟩ := List.getElem?_eq_some_iff.mp hn
    rw [← List.eraseIdx_map, ← h.waits_nodup.erase_getElem n hlt, hget]
  have hmem : ∀ j, j ∈ (s.waits.eraseIdx n).map Wait.index ↔
      j ≠ x.index ∧ j ∈ s.waits.map Wait.index := by
    intro j
    rw [hwaits, h.waits_nodup.mem_erase_iff]
  have hhandles : ∀ w' j pc, Function.update s.worker w (.handling x.index (.entered ec)) w' =
      .handling j pc → (w' = w ∧ j = x.index ∧ pc = .entered ec) ∨
        s.worker w' = .handling j pc := by
    intro w' j pc hpc
    rw [Function.update_apply] at hpc
    split_ifs at hpc with heq
    · cases hpc
      exact Or.inl ⟨heq, rfl, rfl⟩
    · exact Or.inr hpc
  constructor
  case exclusive =>
    refine h.exclusive.move (k := .worker w) hholds fun k j hk => ?_
    cases k with
    | wait =>
      obtain ⟨hne, hj⟩ := (hmem j).mp hk
      exact Or.inl ⟨hj, fun heq => hne heq.2⟩
    | worker w' =>
      obtain ⟨pc, hpc⟩ := hk
      rcases hhandles w' j pc hpc with ⟨rfl, rfl, -⟩ | hpc
      · exact Or.inr ⟨rfl, rfl⟩
      · exact Or.inl ⟨⟨pc, hpc⟩, by simp⟩
    | client c => exact Or.inl ⟨hk, by simp⟩
  case waits_nodup =>
    show ((s.waits.eraseIdx n).map Wait.index).Nodup
    rw [hwaits]
    exact h.waits_nodup.erase x.index
  case wait => exact fun j hj => h.wait j ((hmem j).mp hj).2
  case handler =>
    intro w' j pc hpc
    rcases hhandles w' j pc hpc with ⟨-, rfl, rfl⟩ | hpc
    · exact (h.wait _ hholds).imp fun e he => ⟨he.1, he.2, hec⟩
    · exact h.handler w' j pc hpc
  case client => exact h.client
  case ended => exact h.ended
  case onTime => exact h.onTime

omit i in
theorem Invariant.push [DecidableEq κ] (h : Invariant g s) (c : κ) (e : TimerTask T) (expiry : ℤ) :
    Invariant (Function.update g s.timerTasks.length (Record.new expiry))
      ({ s with
        timerTasks := s.timerTasks ++ [e]
        expiry := Function.update s.expiry s.timerTasks.length expiry }.setClient c
          (.pushed s.timerTasks.length)) := by
  set n := s.timerTasks.length with hn
  -- what is held is registered, and the next index is not
  have hfresh : ∀ k, ¬Holds s k n := by
    intro k hk
    obtain ⟨e', he'⟩ := h.registered hk
    rw [hn, List.getElem?_eq_none le_rfl] at he'
    cases he'
  have hold : ∀ k j, Holds s k j → j ≠ n ∧ (s.timerTasks ++ [e])[j]? = s.timerTasks[j]? := by
    intro k j hk
    obtain ⟨e', he'⟩ := h.registered hk
    have hlt : j < n := (List.getElem?_eq_some_iff.mp he').1
    exact ⟨hlt.ne, List.getElem?_append_left hlt⟩
  have hclients : ∀ c' j, Function.update s.client c (.pushed n) c' = .pushed j →
      (c' = c ∧ j = n) ∨ s.client c' = .pushed j := by
    intro c' j hc'
    rw [Function.update_apply] at hc'
    split_ifs at hc' with heq
    · cases hc'
      exact Or.inl ⟨heq, rfl⟩
    · exact Or.inr hc'
  constructor
  case exclusive =>
    refine h.exclusive.create (h := .client c) hfresh fun k j hk => ?_
    cases k with
    | wait => exact Or.inl hk
    | worker w => exact Or.inl hk
    | client c' =>
      rcases hclients c' j hk with ⟨rfl, rfl⟩ | hk
      · exact Or.inr ⟨rfl, rfl⟩
      · exact Or.inl hk
  case waits_nodup => exact h.waits_nodup
  case wait =>
    intro j hj
    obtain ⟨hne, heq⟩ := hold .wait j hj
    show ∃ e', (s.timerTasks ++ [e])[j]? = some e' ∧
      Armed _ e' (Function.update s.expiry n expiry j)
    rw [heq, Function.update_of_ne hne, Function.update_of_ne hne]
    exact h.wait j hj
  case handler =>
    intro w j pc hpc
    obtain ⟨hne, heq⟩ := hold (.worker w) j ⟨pc, hpc⟩
    show HandlerOk _ (s.timerTasks ++ [e])[j]? (Function.update s.expiry n expiry j) s.clock pc
    rw [heq, Function.update_of_ne hne, Function.update_of_ne hne]
    exact h.handler w j pc hpc
  case client =>
    intro c' j hc'
    show ∃ e', (s.timerTasks ++ [e])[j]? = some e' ∧
      Armed _ e' (Function.update s.expiry n expiry j)
    rcases hclients c' j hc' with ⟨-, rfl⟩ | hc'
    · refine ⟨e, List.getElem?_concat_length, ?_⟩
      rw [Function.update_self, Function.update_self]
      exact Armed.new e expiry
    · obtain ⟨hne, heq⟩ := hold (.client c') j hc'
      rw [heq, Function.update_of_ne hne, Function.update_of_ne hne]
      exact h.client c' j hc'
  case ended =>
    intro j d hd
    rcases eq_or_ne j n with rfl | hne
    · rw [Function.update_self] at hd
      cases hd
    · rw [Function.update_of_ne hne] at hd
      exact h.ended j d hd
  case onTime =>
    intro j e' he'
    rcases eq_or_ne j n with rfl | hne
    · rw [Function.update_self]
      exact OnTime.new e' expiry
    · rw [Function.update_of_ne hne]
      refine h.onTime j e' ?_
      have hlt : j < (s.timerTasks ++ [e]).length := (List.getElem?_eq_some_iff.mp he').1
      rw [List.length_append, List.length_singleton] at hlt
      rwa [← List.getElem?_append_left (by omega)]

end

end CppMetrics.SimpleScheduledThreadPoolExecutor
