import CppMetrics.Core.Histogram

/-! The histogram as many threads run it. Both calls come to the count and to the sample one after
the other and under no common lock, so a clear can come between the two halves of an update. -/

namespace CppMetrics.Histogram

inductive Pc
  | idle
  /-- In `update`, after `++count_`. -/
  | counted (value : Int64)
  /-- In the `update` of a uniform sample, which counts too before it takes its mutex. -/
  | storing (count : UInt64) (value : Int64)
  /-- In `clear`, after `count_ = 0`. -/
  | reset

inductive Operation (D : Type*)
  | update (value : Int64)
  | sampleUpdate (e : Surroundings D)
  | store (uniform : Uniform)
  | clear
  | sampleClear (now : Int64)

structure State (k : UInt32) (P ι : Type*) [Less P] where
  histogram : Histogram k P
  pc : ι → Pc

variable {k : UInt32} {D P ι : Type*} [Less P]

def sampleUpdate (w : Weights D P) (value : Int64) (e : Surroundings D) :
    Sample k P → Option (Sample k P × Pc)
  | .uniform s =>
    let count := s.count + 1
    some (.uniform { s with count := count }, .storing count value)
  | .biased s =>
    match s.update w value e.now e.draws with
    | .ok s => some (.biased s, .idle)
    | .error _ => none

def sampleStore (uniform : Uniform) (count : UInt64) (value : Int64) : Sample k P → Sample k P
  | .uniform s => .uniform { s with values := UniformSample.store uniform count value s.values }
  | .biased s => .biased s

/-- One operation of a thread. `UniformSample::clear` takes no mutex; it is one step because of all
it writes only `count_`, the last, is part of the size of a snapshot. -/
def threadStep (w : Weights D P) (h : Histogram k P) :
    Pc → Operation D → Option (Histogram k P × Pc)
  | .idle, .update value => some (⟨h.count + 1, h.sample⟩, .counted value)
  | .counted value, .sampleUpdate e =>
    (sampleUpdate w value e h.sample).map fun x => (⟨h.count, x.1⟩, x.2)
  | .storing count value, .store uniform =>
    some (⟨h.count, sampleStore uniform count value h.sample⟩, .idle)
  | .idle, .clear => some (⟨0, h.sample⟩, .reset)
  | .reset, .sampleClear now => some (⟨h.count, h.sample.clear now⟩, .idle)
  | _, _ => none

variable [DecidableEq ι]

def State.step (w : Weights D P) (s : State k P ι) : ι × Operation D → Option (State k P ι)
  | (i, op) => (threadStep w s.histogram (s.pc i) op).map fun x =>
      ⟨x.1, Function.update s.pc i x.2⟩

def State.new (type : SampleType) (now : Int64) (count : UInt64) : State k P ι :=
  ⟨Histogram.new type now count, fun _ => .idle⟩

def Quiescent (s : State k P ι) : Prop := ∀ i, s.pc i = .idle

/-- Between calls a snapshot holds no more values than are counted. -/
def Consistent (s : State k P ι) : Prop :=
  Quiescent s → s.histogram.getSnapshot.size ≤ s.histogram.getCount.toNat

variable {w : Weights D P} {s t : State k P ι} {i : ι}

/-! ### Calls that no other thread comes into -/

def runThread (w : Weights D P) (x : Histogram k P × Pc) (ops : List (Operation D)) :
    Option (Histogram k P × Pc) := Machine.run (fun x op => threadStep w x.1 x.2 op) x ops

theorem step_eq_some {op : Operation D} {h : Histogram k P} {pc : Pc}
    (hstep : threadStep w s.histogram (s.pc i) op = some (h, pc)) :
    s.step w (i, op) = some ⟨h, Function.update s.pc i pc⟩ := by
  show (threadStep w s.histogram (s.pc i) op).map _ = _
  rw [hstep, Option.map_some]

theorem run_of_runThread {ops : List (Operation D)} {x y : Histogram k P × Pc}
    (hs : (s.histogram, s.pc i) = x) (hrun : runThread w x ops = some y) :
    Machine.run (State.step w) s (ops.map (Prod.mk i)) =
      some ⟨y.1, Function.update s.pc i y.2⟩ := by
  induction ops generalizing s x with
  | nil =>
    cases hs
    cases hrun
    rw [Function.update_eq_self]
    rfl
  | cons op ops ih =>
    cases hs
    obtain ⟨⟨h, pc⟩, hstep, hrest⟩ := Machine.run_cons_eq_some.mp hrun
    have hpc : Function.update s.pc i pc i = pc := Function.update_self ..
    have hrun := ih (s := ⟨h, Function.update s.pc i pc⟩) (congrArg (Prod.mk h) hpc) hrest
    rw [Function.update_idem] at hrun
    exact Machine.run_cons_eq_some.mpr ⟨_, step_eq_some hstep, hrun⟩

theorem runThread_clear (h : Histogram k P) (now : Int64) :
    runThread w (h, .idle) [.clear, .sampleClear now] = some (h.clear now, .idle) := rfl

/-- The operations of an `update`; the uniform sample has one more. -/
def updateOperations (value : Int64) (e : Surroundings D) : Sample k P → List (Operation D)
  | .uniform _ => [.update value, .sampleUpdate e, .store e.uniform]
  | .biased _ => [.update value, .sampleUpdate e]

theorem runThread_update {h h' : Histogram k P} {value : Int64} {e : Surroundings D}
    (hok : h.update w value e = .ok h') :
    runThread w (h, .idle) (updateOperations value e h.sample) = some (h', .idle) := by
  obtain ⟨count, sample⟩ := h
  cases sample with
  | uniform sample =>
    cases hok
    rfl
  | biased sample =>
    unfold Histogram.update Sample.update at hok
    dsimp only at hok
    cases hsample : sample.update w value e.now e.draws with
    | error fault =>
      rw [hsample] at hok
      cases hok
    | ok sample' =>
      rw [hsample] at hok
      cases hok
      simp only [updateOperations, runThread, Machine.run, threadStep, sampleUpdate, hsample,
        Option.map_some, Option.bind_some]

theorem run_call {ops : List (Operation D)} {h : Histogram k P} (hi : s.pc i = .idle)
    (hrun : runThread w (s.histogram, .idle) ops = some (h, .idle)) :
    Machine.run (State.step w) s (ops.map (Prod.mk i)) = some ⟨h, s.pc⟩ := by
  have hcall := run_of_runThread (congrArg (Prod.mk s.histogram) hi) hrun
  rwa [← hi, Function.update_eq_self] at hcall

/-! ### Clears that overtake updates -/

/-- How often the count was set to zero, how often it had been when each thread last changed it, and
the last of these times whose `clear` has emptied the sample too. -/
structure History (ι : Type*) where
  resets : ℕ
  began : ι → ℕ
  cleared : ℕ

def History.new : History ι := ⟨0, fun _ => 0, 0⟩

def History.note (h : History ι) (_ : State k P ι) : ι × Operation D → History ι
  | (i, .update _) => { h with began := Function.update h.began i h.resets }
  | (i, .clear) => { h with
      resets := h.resets + 1
      began := Function.update h.began i (h.resets + 1) }
  | (i, .sampleClear _) => { h with cleared := max h.cleared (h.began i) }
  | (_, .sampleUpdate _) | (_, .store _) => h

/-- The sample gets a value before any `clear` that has set the count to zero since the value was
counted has emptied the sample; and the count does not wrap. -/
def InTime (x : History ι × State k P ι) : ι × Operation D → Prop
  | (i, .sampleUpdate _) => x.1.cleared ≤ x.1.began i
  | (_, .update _) => x.2.histogram.count.toNat + 1 < UInt64.size
  | _ => True

/-! ### The invariant -/

theorem sampleUpdate_spec {sample sample' : Sample k P} {value : Int64} {e : Surroundings D}
    {pc : Pc} (h : sampleUpdate w value e sample = some (sample', pc)) :
    (∀ v, pc ≠ .counted v) ∧ sample'.getSnapshot.size ≤ sample.getSnapshot.size + 1 := by
  cases sample with
  | uniform sample =>
    cases h
    refine ⟨nofun, ?_⟩
    -- the count of the sample grows by one, or wraps to zero
    have hcount : (sample.count + 1).toNat ≤ sample.count.toNat + 1 := by
      rw [UInt64.toNat_add, UInt64.toNat_one]
      exact Nat.mod_le _ _
    show (UniformSample.getSnapshot _).size ≤ sample.getSnapshot.size + 1
    rw [UniformSample.getSnapshot_size, UniformSample.getSnapshot_size]
    dsimp only
    omega
  | biased sample =>
    unfold sampleUpdate at h
    dsimp only at h
    cases hok : sample.update w value e.now e.draws with
    | error fault =>
      rw [hok] at h
      cases h
    | ok sample'' =>
      rw [hok] at h
      cases h
      exact ⟨nofun, ExpDecaySample.update_size_le hok⟩

theorem sampleStore_size (uniform : Uniform) (count : UInt64) (value : Int64)
    (sample : Sample k P) :
    (sampleStore uniform count value sample).getSnapshot.size = sample.getSnapshot.size := by
  cases sample with
  | uniform sample =>
    show (UniformSample.getSnapshot _).size = sample.getSnapshot.size
    rw [UniformSample.getSnapshot_size, UniformSample.getSnapshot_size]
  | biased sample => rfl

theorem threadStep_cases {h h' : Histogram k P} {pc pc' : Pc} {op : Operation D}
    (hstep : threadStep w h pc op = some (h', pc')) :
    (∃ value, op = .update value ∧ pc = .idle ∧ pc' = .counted value ∧
      h' = ⟨h.count + 1, h.sample⟩) ∨
    (∃ e value, op = .sampleUpdate e ∧ pc = .counted value ∧ (∀ v, pc' ≠ .counted v) ∧
      h'.count = h.count ∧ h'.getSnapshot.size ≤ h.getSnapshot.size + 1) ∨
    (∃ uniform count value, op = .store uniform ∧ pc = .storing count value ∧ pc' = .idle ∧
      h'.count = h.count ∧ h'.getSnapshot.size = h.getSnapshot.size) ∨
    (op = .clear ∧ pc = .idle ∧ pc' = .reset ∧ h' = ⟨0, h.sample⟩) ∨
    (∃ now, op = .sampleClear now ∧ pc = .reset ∧ pc' = .idle ∧ h'.count = h.count ∧
      h'.getSnapshot.size = 0) := by
  cases op with
  | update value =>
    cases pc <;> cases hstep
    exact Or.inl ⟨value, rfl, rfl, rfl, rfl⟩
  | sampleUpdate e =>
    cases pc with
    | counted value =>
      obtain ⟨⟨sample, pc⟩, hsample, heq⟩ := Option.map_eq_some_iff.mp hstep
      cases heq
      obtain ⟨hpc, hsize⟩ := sampleUpdate_spec hsample
      exact Or.inr (Or.inl ⟨e, value, rfl, rfl, hpc, rfl, hsize⟩)
    | _ => cases hstep
  | store uniform =>
    cases pc <;> cases hstep
    exact Or.inr (Or.inr (Or.inl ⟨uniform, _, _, rfl, rfl, rfl, rfl, sampleStore_size _ _ _ _⟩))
  | clear =>
    cases pc <;> cases hstep
    exact Or.inr (Or.inr (Or.inr (Or.inl ⟨rfl, rfl, rfl, rfl⟩)))
  | sampleClear now =>
    cases pc <;> cases hstep
    exact Or.inr (Or.inr (Or.inr (Or.inr ⟨now, rfl, rfl, rfl, rfl,
      Sample.clear_getSnapshot_size now _⟩)))

/-- The values in the sample are no more than `fresh` and `stale`. The fresh ones were counted since
the count was last set to zero, as were the values that the threads in `waiting` still hold; a
`clear` that will empty the sample is on its way if there are stale ones. -/
structure Balanced (h : History ι) (s : State k P ι) (fresh stale : ℕ) (waiting : Finset ι) :
    Prop where
  size_le : s.histogram.getSnapshot.size ≤ fresh + stale
  count_ge : fresh + waiting.card ≤ s.histogram.count.toNat
  mem_waiting : ∀ {i value}, s.pc i = .counted value → h.began i = h.resets → i ∈ waiting
  cleared_lt : stale ≠ 0 → h.cleared < h.resets
  cleared_le : h.cleared ≤ h.resets
  began_le : ∀ i, h.began i ≤ h.resets
  last : h.cleared = h.resets ∨ ∃ i, s.pc i = .reset ∧ h.began i = h.resets

variable {h : History ι} {fresh stale : ℕ} {waiting : Finset ι}

omit [DecidableEq ι] in
theorem Balanced.consistent (hb : Balanced h s fresh stale waiting) : Consistent s := by
  intro hq
  have hcleared : h.cleared = h.resets := by
    refine hb.last.resolve_right ?_
    rintro ⟨i, hi, -⟩
    cases (hq i).symm.trans hi
  have hstale : stale = 0 := by
    by_contra hne
    exact (hb.cleared_lt hne).ne hcleared
  have hsize := hb.size_le
  have hcount := hb.count_ge
  unfold getCount
  omega

omit [DecidableEq ι] in
theorem balanced_new (type : SampleType) (now : Int64) (count : UInt64) :
    Balanced History.new (State.new type now count : State k P ι) 0 0 ∅ where
  size_le := (Sample.clear_getSnapshot_size now _).le
  count_ge := Nat.zero_le _
  mem_waiting hi := nomatch hi
  cleared_lt hne := absurd rfl hne
  cleared_le := le_rfl
  began_le _ := le_rfl
  last := Or.inl rfl

theorem pc_of_ne {pc pc' : Pc} {j : ι} (hj : Function.update s.pc i pc j = pc') (hpc : pc ≠ pc') :
    j ≠ i ∧ s.pc j = pc' := by
  have hne : j ≠ i := by
    rintro rfl
    exact hpc ((Function.update_self ..).symm.trans hj)
  rw [Function.update_of_ne hne] at hj
  exact ⟨hne, hj⟩

theorem Balanced.counted (hb : Balanced h s fresh stale waiting) {value : Int64}
    (hi : s.pc i = .idle) (hroom : s.histogram.count.toNat + 1 < UInt64.size) :
    Balanced { h with began := Function.update h.began i h.resets }
      ⟨⟨s.histogram.count + 1, s.histogram.sample⟩, Function.update s.pc i (.counted value)⟩
      fresh stale (insert i waiting) := by
  have hcount : (s.histogram.count + 1).toNat = s.histogram.count.toNat + 1 := toNat_succ rfl hroom
  constructor
  case size_le => exact hb.size_le
  case count_ge =>
    have hcard := Finset.card_insert_le i waiting
    have hge := hb.count_ge
    show fresh + (insert i waiting).card ≤ (s.histogram.count + 1).toNat
    omega
  case mem_waiting =>
    intro j value' hj hbegan
    dsimp only at hj hbegan
    rcases eq_or_ne j i with rfl | hne
    · exact Finset.mem_insert_self _ _
    · rw [Function.update_of_ne hne] at hj hbegan
      exact Finset.mem_insert_of_mem (hb.mem_waiting hj hbegan)
  case cleared_lt => exact hb.cleared_lt
  case cleared_le => exact hb.cleared_le
  case began_le =>
    exact (Function.forall_update_iff h.began fun _ n => n ≤ h.resets).mpr
      ⟨le_rfl, fun j _ => hb.began_le j⟩
  case last =>
    refine hb.last.imp_right ?_
    rintro ⟨j, hj, hbegan⟩
    have hne : j ≠ i := by
      rintro rfl
      cases hi.symm.trans hj
    exact ⟨j, (Function.update_of_ne hne _ _).trans hj,
      (Function.update_of_ne hne _ _).trans hbegan⟩

theorem Balanced.goto (hb : Balanced h s fresh stale waiting) {histogram : Histogram k P} {pc : Pc}
    {fresh' stale' : ℕ} {waiting' : Finset ι}
    (hi : s.pc i ≠ .reset) (hpc : ∀ v, pc ≠ .counted v)
    (hcount : histogram.count = s.histogram.count)
    (hsize : histogram.getSnapshot.size ≤ fresh' + stale')
    (hfresh : fresh' + waiting'.card ≤ fresh + waiting.card)
    (hstale : stale' ≠ 0 → h.cleared < h.resets) (hwaiting : ∀ j ∈ waiting, j ≠ i → j ∈ waiting') :
    Balanced h ⟨histogram, Function.update s.pc i pc⟩ fresh' stale' waiting' := by
  constructor
  case size_le => exact hsize
  case count_ge =>
    show fresh' + waiting'.card ≤ histogram.count.toNat
    rw [hcount]
    exact hfresh.trans hb.count_ge
  case mem_waiting =>
    intro j value hj hbegan
    obtain ⟨hne, hj⟩ := pc_of_ne hj (hpc value)
    exact hwaiting j (hb.mem_waiting hj hbegan) hne
  case cleared_lt => exact hstale
  case cleared_le => exact hb.cleared_le
  case began_le => exact hb.began_le
  case last =>
    refine hb.last.imp_right ?_
    rintro ⟨j, hj, hbegan⟩
    have hne : j ≠ i := by
      rintro rfl
      exact hi hj
    exact ⟨j, (Function.update_of_ne hne _ _).trans hj, hbegan⟩

theorem Balanced.sampled (hb : Balanced h s fresh stale waiting) {value : Int64}
    (hi : s.pc i = .counted value) (hin : h.cleared ≤ h.began i) {histogram : Histogram k P}
    {pc : Pc} (hpc : ∀ v, pc ≠ .counted v) (hcount : histogram.count = s.histogram.count)
    (hsize : histogram.getSnapshot.size ≤ s.histogram.getSnapshot.size + 1) :
    ∃ fresh stale waiting,
      Balanced h ⟨histogram, Function.update s.pc i pc⟩ fresh stale waiting := by
  have hreset : s.pc i ≠ .reset := by
    rw [hi]
    exact nofun
  have hle := hb.size_le
  rcases eq_or_ne (h.began i) h.resets with heq | hne
  · -- the thread waits no more, and its value is in the sample
    have hmem := hb.mem_waiting hi heq
    have hcard := Finset.card_erase_add_one hmem
    refine ⟨fresh + 1, stale, waiting.erase i, hb.goto hreset hpc hcount ?_ ?_ hb.cleared_lt ?_⟩
    · omega
    · omega
    · exact fun j hj hji => Finset.mem_erase.mpr ⟨hji, hj⟩
  · refine ⟨fresh, stale + 1, waiting, hb.goto hreset hpc hcount ?_ le_rfl ?_ fun j hj _ => hj⟩
    · omega
    · exact fun _ => hin.trans_lt (lt_of_le_of_ne (hb.began_le i) hne)

theorem Balanced.reset (hb : Balanced h s fresh stale waiting) (i : ι) :
    Balanced ⟨h.resets + 1, Function.update h.began i (h.resets + 1), h.cleared⟩
      ⟨⟨0, s.histogram.sample⟩, Function.update s.pc i .reset⟩ 0 (fresh + stale) ∅ := by
  constructor
  case size_le => exact (hb.size_le).trans (Nat.zero_add _).ge
  case count_ge => exact Nat.zero_le _
  case mem_waiting =>
    -- no thread has counted a value since the count was set to zero just now
    intro j value hj hbegan
    obtain ⟨hne, -⟩ := pc_of_ne hj nofun
    dsimp only at hbegan
    rw [Function.update_of_ne hne] at hbegan
    have hle := hb.began_le j
    omega
  case cleared_lt => exact fun _ => Nat.lt_succ_of_le hb.cleared_le
  case cleared_le => exact Nat.le_succ_of_le hb.cleared_le
  case began_le =>
    exact (Function.forall_update_iff h.began fun _ n => n ≤ h.resets + 1).mpr
      ⟨le_rfl, fun j _ => Nat.le_succ_of_le (hb.began_le j)⟩
  case last => exact Or.inr ⟨i, Function.update_self .., Function.update_self ..⟩

theorem Balanced.emptied (hb : Balanced h s fresh stale waiting) (i : ι) {histogram : Histogram k P}
    (hcount : histogram.count = s.histogram.count) (hsize : histogram.getSnapshot.size = 0) :
    Balanced { h with cleared := max h.cleared (h.began i) }
      ⟨histogram, Function.update s.pc i .idle⟩ 0 0 waiting := by
  constructor
  case size_le => exact hsize.le
  case count_ge =>
    have hge := hb.count_ge
    show 0 + waiting.card ≤ histogram.count.toNat
    rw [hcount]
    omega
  case mem_waiting =>
    intro j value hj hbegan
    exact hb.mem_waiting (pc_of_ne hj nofun).2 hbegan
  case cleared_lt => exact fun hne => absurd rfl hne
  case cleared_le => exact max_le hb.cleared_le (hb.began_le i)
  case began_le => exact hb.began_le
  case last =>
    rcases hb.last with heq | ⟨j, hj, hbegan⟩
    · refine Or.inl ?_
      show max h.cleared (h.began i) = h.resets
      rw [heq]
      exact max_eq_left (hb.began_le i)
    · rcases eq_or_ne j i with rfl | hne
      · refine Or.inl ?_
        show max h.cleared (h.began j) = h.resets
        rw [hbegan]
        exact max_eq_right hb.cleared_le
      · exact Or.inr ⟨j, (Function.update_of_ne hne _ _).trans hj, hbegan⟩

theorem Balanced.step {a : ι × Operation D}
    (hb : ∃ fresh stale waiting, Balanced h s fresh stale waiting) (hin : InTime (h, s) a)
    (hstep : s.step w a = some t) :
    ∃ fresh stale waiting, Balanced (h.note s a) t fresh stale waiting := by
  obtain ⟨i, op⟩ := a
  obtain ⟨fresh, stale, waiting, hb⟩ := hb
  obtain ⟨⟨histogram, pc⟩, hthread, rfl⟩ := Option.map_eq_some_iff.mp hstep
  generalize hi : s.pc i = pc₀ at hthread
  rcases threadStep_cases hthread with ⟨value, rfl, rfl, rfl, rfl⟩ |
    ⟨e, value, rfl, rfl, hpc, hcount, hsize⟩ |
    ⟨uniform, count, value, rfl, rfl, rfl, hcount, hsize⟩ | ⟨rfl, rfl, rfl, rfl⟩ |
    ⟨now, rfl, rfl, rfl, hcount, hsize⟩
  · exact ⟨fresh, stale, insert i waiting, hb.counted hi hin⟩
  · exact hb.sampled hi hin hpc hcount hsize
  · have hreset : s.pc i ≠ .reset := by
      rw [hi]
      exact nofun
    exact ⟨fresh, stale, waiting, hb.goto hreset nofun hcount (hsize.trans_le hb.size_le) le_rfl
      hb.cleared_lt fun j hj _ => hj⟩
  · exact ⟨0, fresh + stale, ∅, hb.reset i⟩
  · exact ⟨0, 0, waiting, hb.emptied i hcount hsize⟩

/-- In every run in which the sample gets no value after a `clear` that its count was set to zero by
has emptied it, a snapshot holds no more values than are counted whenever no thread is in a
call. -/
theorem size_le_count_of_inTime (w : Weights D P) (type : SampleType) (now : Int64) (count : UInt64)
    (as : List (ι × Operation D))
    (halong : Machine.Along (Machine.observe (State.step w) History.note) InTime
      (History.new, (State.new type now count : State k P ι)) as) :
    Machine.Always (State.step w) Consistent (State.new type now count : State k P ι) as := by
  have hbalanced : Machine.Always (Machine.observe (State.step w) History.note)
      (fun x => ∃ fresh stale waiting, Balanced x.1 x.2 fresh stale waiting)
      (History.new, (State.new type now count : State k P ι)) as := by
    refine Machine.always_of_along (fun {x a y} hx hin hy => ?_)
      ⟨0, 0, ∅, balanced_new type now count⟩ halong
    obtain ⟨hstep, hnote⟩ := Machine.observe_eq_some.mp hy
    rw [hnote]
    exact Balanced.step hx hin hstep
  refine Machine.Always.of_observe (hbalanced.imp fun x hx => ?_)
  obtain ⟨fresh, stale, waiting, hb⟩ := hx
  exact hb.consistent

def recordedTwice : List (ℕ × Operation ℝ) :=
  [(0, .update 7), (0, .sampleUpdate ⟨0, [], UniformSample.drawn 0⟩),
    (0, .store (UniformSample.drawn 0)), (1, .clear), (1, .sampleClear 0), (0, .update 8)]

theorem size_le_count_of_inTime_recordedTwice :
    Machine.Always (State.step Weights.source) Consistent
      (State.new .kUniform 0 0 : State 1028 (WithTop ℝ) ℕ) recordedTwice := by
  refine size_le_count_of_inTime Weights.source .kUniform 0 0 recordedTwice ?_
  unfold recordedTwice
  rw [Machine.along_cons rfl, Machine.along_cons rfl, Machine.along_cons rfl,
    Machine.along_cons rfl, Machine.along_cons rfl, Machine.along_cons rfl]
  exact ⟨show (0 : ℕ) + 1 < UInt64.size by decide, Nat.le_refl 0, trivial, trivial, trivial,
    show (0 : ℕ) + 1 < UInt64.size by decide, trivial⟩

/-- A value is counted; the count and the sample are cleared; the sample gets the value. -/
noncomputable def overtaken : List (ℕ × Operation ℝ) :=
  [(0, .update 7), (1, .clear), (1, .sampleClear 0),
    (0, .sampleUpdate ⟨0, [0.5], UniformSample.drawn 0⟩)]

theorem uncounted_value : ¬∀ as, Machine.Always (State.step Weights.source) Consistent
    (State.new .kBiased 0 0 : State 1024 (WithTop ℝ) ℕ) as := by
  intro h
  obtain ⟨one, hupdate, hsize⟩ : ∃ one, ExpDecaySample.update Weights.source 7 0 [0.5]
      (.new 1024 0) = .ok one ∧ one.getSnapshot.size = 1 :=
    ExpDecaySample.update_new (by decide) (by decide) rfl 7
  have hthread : threadStep Weights.source (⟨0, .biased (.new 1024 0)⟩ : Histogram 1024 (WithTop ℝ))
      (.counted 7) (.sampleUpdate ⟨0, [0.5], UniformSample.drawn 0⟩) =
        some (⟨0, .biased one⟩, .idle) := by
    rw [threadStep, sampleUpdate]
    dsimp only
    rw [hupdate]
    rfl
  have hrun : Machine.run (State.step Weights.source)
      (State.new .kBiased 0 0 : State 1024 (WithTop ℝ) ℕ) overtaken = some _ :=
    Machine.run_cons_eq_some.mpr ⟨_, rfl, Machine.run_cons_eq_some.mpr ⟨_, rfl,
      Machine.run_cons_eq_some.mpr ⟨_, rfl, Machine.run_cons_eq_some.mpr
        ⟨_, step_eq_some hthread, rfl⟩⟩⟩⟩
  have hle : one.getSnapshot.size ≤ 0 := by
    refine (h overtaken).last hrun fun i => ?_
    -- both threads have returned
    match i with
    | 0 => rfl
    | 1 => rfl
    | i + 2 => rfl
  omega

end CppMetrics.Histogram
