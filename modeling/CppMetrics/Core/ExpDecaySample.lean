import Mathlib.Analysis.SpecialFunctions.Exp
import CppMetrics.Core.Snapshot
import CppMetrics.Lib.OrderedMap

/-! The exponentially decaying sample. Where the code computes with doubles it forms a priority
from the age in seconds and a random draw, multiplies a key by a rescale factor, and compares
keys; the sample is over any type of keys with these. Times are nanoseconds in 64 bits and a sign,
which wrap around. -/

namespace CppMetrics

/-- The arithmetic on keys. A `priority` of `none` is NaN. -/
structure Weights (D P : Type*) where
  priority : ℤ → D → Option P
  rescaled : ℤ → P → P

/-- Exact arithmetic: `std::exp(alpha_ * secs) / draw`, infinite for a draw of zero, and
`key * std::exp(-alpha_ * secs)`. -/
def Weights.exact {K : Type*} [Field K] [LinearOrder K] (exp : K → K) (alpha : K) :
    Weights K (WithTop K) where
  priority secs draw := some (if draw = 0 then ⊤ else ↑(exp (alpha * secs) / draw))
  rescaled secs key := key.map (· * exp (-alpha * secs))

/-- The same with an `exp` that may underflow to zero, which makes NaN of an infinite key. -/
def Weights.underflowing {K : Type*} [Field K] [LinearOrder K] (exp : K → K) (alpha : K) :
    Weights K (Double K) where
  priority secs draw :=
    match (.finite (exp (alpha * secs)) / .finite draw : Double K) with
    | .nan => none
    | priority => some priority
  rescaled secs key := key * .finite (exp (-alpha * secs))

def DEFAULT_ALPHA : ℚ := 0.015

noncomputable def Weights.source : Weights ℝ (WithTop ℝ) := Weights.exact Real.exp DEFAULT_ALPHA

structure ExpDecaySample (P : Type*) [Less P] where
  reservoirSize : UInt32
  count : UInt64
  startTime : Int64
  nextScaleTime : Int64
  values : OrderedMap P Int64

namespace ExpDecaySample

/-- What can stop an `update`: its random draws give out while every priority was NaN, or
`values_.begin()` is dereferenced in an empty map, which the language leaves undefined. -/
inductive Fault
  | outOfDraws
  | emptyReservoir
  deriving DecidableEq, Repr

def RESCALE_THRESHOLD : Int64 := 3600000000000

def toSeconds (d : Int64) : ℤ := d.toInt.tdiv nanosPerSecond

variable {D P : Type*} [Less P]

def clear (now : Int64) (s : ExpDecaySample P) : ExpDecaySample P :=
  { s with
    values := OrderedMap.empty
    count := 0
    startTime := now
    nextScaleTime := now + RESCALE_THRESHOLD }

def new (reservoirSize : UInt32) (now : Int64) : ExpDecaySample P :=
  clear now ⟨reservoirSize, 0, 0, 0, OrderedMap.empty⟩

def size (s : ExpDecaySample P) : UInt64 := min s.reservoirSize.toUInt64 s.count

def rescale (w : Weights D P) (prevStartTime : Int64) (s : ExpDecaySample P) : ExpDecaySample P :=
  let oldValues := s.values.entries
  let dur := toSeconds (s.startTime - prevStartTime)
  let values := OrderedMap.empty.assignAll (oldValues.map fun kv => (w.rescaled dur kv.1, kv.2))
  { s with values := values, count := UInt64.ofNat values.size }

def rescaleIfNeeded (w : Weights D P) (now : Int64) (s : ExpDecaySample P) : ExpDecaySample P :=
  if s.nextScaleTime < now then
    rescale w s.startTime { s with nextScaleTime := now + RESCALE_THRESHOLD, startTime := now }
  else
    s

/-- The `do … while (std::isnan(priority))` loop on the draws it gets. -/
def drawPriority (w : Weights D P) (secs : ℤ) (draws : List D) : Option P :=
  draws.findSome? (w.priority secs)

/-- `update` from the increment of `count_` on. -/
def offer (priority : P) (value : Int64) (s : ExpDecaySample P) :
    Except Fault (ExpDecaySample P) :=
  let count := s.count + 1
  if count ≤ s.reservoirSize.toUInt64 then
    .ok { s with count := count, values := s.values.assign priority value }
  else
    match s.values.begin? with
    | none => .error .emptyReservoir
    | some (first, _) =>
      if less first priority then
        match s.values.insert priority value with
        | (values, true) => .ok { s with count := count, values := values.erase first }
        | (values, false) => .ok { s with count := count, values := values }
      else
        .ok { s with count := count }

def update (w : Weights D P) (value : Int64) (timestamp : Int64) (draws : List D)
    (s : ExpDecaySample P) : Except Fault (ExpDecaySample P) :=
  let s := s.rescaleIfNeeded w timestamp
  let dur := toSeconds (timestamp - s.startTime)
  match drawPriority w dur draws with
  | none => .error .outOfDraws
  | some priority => s.offer priority value

def getSnapshot (s : ExpDecaySample P) : Snapshot := .new (s.values.entries.map Prod.snd)

inductive Call (D : Type*)
  | update (value : Int64) (timestamp : Int64) (draws : List D)
  | clear (now : Int64)

def perform (w : Weights D P) (s : ExpDecaySample P) : Call D → Except Fault (ExpDecaySample P)
  | .update value timestamp draws => s.update w value timestamp draws
  | .clear now => .ok (s.clear now)

def step (w : Weights D P) (s : ExpDecaySample P) (c : Call D) : Option (ExpDecaySample P) :=
  (s.perform w c).toOption

/-! ### What the operations do -/

variable {w : Weights D P} {s t : ExpDecaySample P} {priority : P} {value : Int64}

theorem getSnapshot_size (s : ExpDecaySample P) : s.getSnapshot.size = s.values.size := by
  rw [getSnapshot, Snapshot.size_new, List.length_map, OrderedMap.size]

theorem getSnapshot_perm (s : ExpDecaySample P) :
    s.getSnapshot.getValues.Perm (s.values.entries.map Prod.snd) :=
  Snapshot.getValues_new_perm _

@[simp] theorem rescaleIfNeeded_reservoirSize (w : Weights D P) (now : Int64)
    (s : ExpDecaySample P) : (s.rescaleIfNeeded w now).reservoirSize = s.reservoirSize := by
  unfold rescaleIfNeeded
  split_ifs <;> rfl

theorem rescaleIfNeeded_of_not_lt {now : Int64} (h : ¬s.nextScaleTime < now) :
    s.rescaleIfNeeded w now = s :=
  if_neg h

theorem rescaleIfNeeded_of_lt {now : Int64} (h : s.nextScaleTime < now) :
    s.rescaleIfNeeded w now =
      rescale w s.startTime { s with nextScaleTime := now + RESCALE_THRESHOLD, startTime := now } :=
  if_pos h

theorem rescaleIfNeeded_count_of_lt {now : Int64} (h : s.nextScaleTime < now) :
    (s.rescaleIfNeeded w now).count = UInt64.ofNat (s.rescaleIfNeeded w now).values.size := by
  rw [rescaleIfNeeded_of_lt h]
  rfl

theorem rescaleIfNeeded_size_le (w : Weights D P) (now : Int64) (s : ExpDecaySample P) :
    (s.rescaleIfNeeded w now).values.size ≤ s.values.size := by
  unfold rescaleIfNeeded
  split_ifs
  · refine (OrderedMap.size_assignAll_le _).trans ?_
    rw [List.length_map, OrderedMap.size, OrderedMap.empty, List.length_nil, Nat.zero_add]
    exact le_rfl
  · exact le_rfl

abbrev Fills (s : ExpDecaySample P) : Prop := s.count + 1 ≤ s.reservoirSize.toUInt64

theorem offer_fill (h : s.Fills) :
    s.offer priority value =
      .ok { s with count := s.count + 1, values := s.values.assign priority value } :=
  if_pos h

theorem offer_full (h : ¬s.Fills) {first : P × Int64} (hfirst : s.values.begin? = some first) :
    s.offer priority value = .ok { s with
      count := s.count + 1
      values :=
        if less first.1 priority ∧ s.values.Fresh priority then
          (s.values.assign priority value).erase first.1
        else s.values } := by
  unfold offer
  dsimp only
  rw [if_neg h, hfirst]
  dsimp only
  by_cases hlt : less first.1 priority
  · by_cases hfresh : s.values.Fresh priority
    · rw [if_pos hlt, OrderedMap.insert_of_fresh hfresh, if_pos ⟨hlt, hfresh⟩]
    · rw [if_pos hlt, OrderedMap.insert_of_not_fresh hfresh, if_neg fun h => hfresh h.2]
  · rw [if_neg hlt, if_neg fun h => hlt h.1]

theorem offer_eq_ok (h : s.offer priority value = .ok t) :
    (s.Fills ∧ t = { s with count := s.count + 1, values := s.values.assign priority value }) ∨
    (¬s.Fills ∧ ∃ first, s.values.begin? = some first ∧ t = { s with
      count := s.count + 1
      values :=
        if less first.1 priority ∧ s.values.Fresh priority then
          (s.values.assign priority value).erase first.1
        else s.values }) := by
  by_cases hfill : s.Fills
  · rw [offer_fill hfill] at h
    exact Or.inl ⟨hfill, (Except.ok.inj h).symm⟩
  · cases hfirst : s.values.begin? with
    | none =>
      unfold offer at h
      dsimp only at h
      rw [if_neg hfill, hfirst] at h
      cases h
    | some first =>
      rw [offer_full hfill hfirst] at h
      exact Or.inr ⟨hfill, first, rfl, (Except.ok.inj h).symm⟩

theorem offer_count (h : s.offer priority value = .ok t) : t.count = s.count + 1 := by
  rcases offer_eq_ok h with ⟨-, rfl⟩ | ⟨-, first, -, rfl⟩ <;> rfl

theorem offer_times (h : s.offer priority value = .ok t) :
    t.startTime = s.startTime ∧ t.nextScaleTime = s.nextScaleTime := by
  rcases offer_eq_ok h with ⟨-, rfl⟩ | ⟨-, first, -, rfl⟩ <;> exact ⟨rfl, rfl⟩

theorem offer_ne_outOfDraws : s.offer priority value ≠ .error .outOfDraws := by
  by_cases hfill : s.Fills
  · rw [offer_fill hfill]
    exact nofun
  · cases hfirst : s.values.begin? with
    | none =>
      unfold offer
      dsimp only
      rw [if_neg hfill, hfirst]
      exact nofun
    | some first =>
      rw [offer_full hfill hfirst]
      exact nofun

theorem priority_of_outOfDraws {timestamp : Int64} {draws : List D}
    (h : s.update w value timestamp draws = .error .outOfDraws) :
    ∃ secs, ∀ draw ∈ draws, w.priority secs draw = none := by
  unfold update at h
  dsimp only at h
  split at h
  next hdraw => exact ⟨_, List.findSome?_eq_none_iff.mp hdraw⟩
  next => exact absurd h offer_ne_outOfDraws

theorem step_clear {now : Int64} : step w s (.clear now) = some t ↔ t = s.clear now := by
  rw [step, perform, Except.toOption, Option.some.injEq, eq_comm]

theorem step_update {timestamp : Int64} {draws : List D} :
    step w s (.update value timestamp draws) = some t ↔
      ∃ priority,
        drawPriority w (toSeconds (timestamp - (s.rescaleIfNeeded w timestamp).startTime)) draws =
          some priority ∧
        (s.rescaleIfNeeded w timestamp).offer priority value = .ok t := by
  unfold step perform update
  dsimp only
  split <;> rename_i hdraw
  · simp [hdraw, Except.toOption]
  · simp only [hdraw, Option.some.injEq, exists_eq_left']
    cases (s.rescaleIfNeeded w timestamp).offer _ value <;> simp [Except.toOption]

theorem step_update_fill {timestamp : Int64} {draws : List D} (hle : ¬s.nextScaleTime < timestamp)
    (hdraw : drawPriority w (toSeconds (timestamp - s.startTime)) draws = some priority)
    (hfill : s.Fills) :
    step w s (.update value timestamp draws) =
      some { s with count := s.count + 1, values := s.values.assign priority value } := by
  rw [step_update, rescaleIfNeeded_of_not_lt hle]
  exact ⟨priority, hdraw, offer_fill hfill⟩

def Stocked (s : ExpDecaySample P) : Prop := s.count ≠ 0 → 0 < s.values.size

theorem Stocked.rescaleIfNeeded (h : s.Stocked) (w : Weights D P) (now : Int64) :
    (s.rescaleIfNeeded w now).Stocked := by
  intro hcount
  by_cases hlt : s.nextScaleTime < now
  · rw [rescaleIfNeeded_count_of_lt hlt] at hcount
    refine Nat.pos_of_ne_zero fun hzero => hcount ?_
    rw [hzero]
    rfl
  · rw [rescaleIfNeeded_of_not_lt hlt] at hcount ⊢
    exact h hcount

theorem Stocked.size_pos (h : s.Stocked) (hk : 0 < s.reservoirSize.toNat) (hfull : ¬s.Fills) :
    0 < s.values.size := by
  refine h fun hzero => hfull ?_
  rw [Fills, hzero, le_toUInt64_iff]
  exact hk

theorem Stocked.exists_begin? (h : s.Stocked) (hk : 0 < s.reservoirSize.toNat)
    (hfull : ¬s.Fills) : ∃ first, s.values.begin? = some first := by
  have hsize := h.size_pos hk hfull
  rw [← Option.ne_none_iff_exists', ne_eq, OrderedMap.begin?_eq_none_iff]
  exact hsize.ne'

theorem size_replace_first {first : P × Int64} (hfirst : s.values.begin? = some first)
    (hnew : s.values.Fresh priority) :
    ((s.values.assign priority value).erase first.1).size = s.values.size := by
  have hmem : first ∈ (s.values.assign priority value).entries :=
    (OrderedMap.assign_perm hnew).mem_iff.mpr
      (List.mem_cons_of_mem _ (OrderedMap.begin?_eq_some hfirst).1)
  have herase := OrderedMap.size_erase hmem
  rw [OrderedMap.size_assign_of_fresh hnew] at herase
  exact Nat.succ.inj herase

theorem Stocked.offer (h : s.Stocked) (hk : 0 < s.reservoirSize.toNat) (priority : P)
    (value : Int64) :
    ∃ t, s.offer priority value = .ok t ∧ t.reservoirSize = s.reservoirSize ∧
      0 < t.values.size := by
  by_cases hfill : s.Fills
  · exact ⟨_, offer_fill hfill, rfl, OrderedMap.size_assign_pos⟩
  · obtain ⟨first, hfirst⟩ := h.exists_begin? hk hfill
    refine ⟨_, offer_full hfill hfirst, rfl, ?_⟩
    have hsize := h.size_pos hk hfill
    dsimp only
    split_ifs with hput
    · rwa [size_replace_first hfirst hput.2]
    · exact hsize

theorem Stocked.perform (h : s.Stocked) (hk : 0 < s.reservoirSize.toNat) (c : Call D) :
    s.perform w c = .error .outOfDraws ∨
      ∃ t, s.perform w c = .ok t ∧ t.reservoirSize = s.reservoirSize ∧ t.Stocked := by
  cases c with
  | clear now => exact Or.inr ⟨_, rfl, rfl, fun hcount => absurd rfl hcount⟩
  | update value timestamp draws =>
    have hs := h.rescaleIfNeeded w timestamp
    rw [← rescaleIfNeeded_reservoirSize w timestamp s] at hk ⊢
    unfold ExpDecaySample.perform ExpDecaySample.update
    dsimp only
    split
    · exact Or.inl rfl
    · obtain ⟨t, hok, hsize, hpos⟩ := hs.offer hk _ value
      exact Or.inr ⟨t, hok, hsize, fun _ => hpos⟩

theorem new_stocked (k : UInt32) (now : Int64) : (new k now : ExpDecaySample P).Stocked :=
  fun hcount => absurd rfl hcount

theorem Stocked.step {c : Call D} (h : s.Stocked) (hk : 0 < s.reservoirSize.toNat)
    (hstep : step w s c = some t) : t.reservoirSize = s.reservoirSize ∧ t.Stocked := by
  unfold ExpDecaySample.step at hstep
  rcases h.perform hk c with herror | ⟨u, hu, hsize, hu'⟩
  · rw [herror] at hstep
    cases hstep
  · rw [hu] at hstep
    cases hstep
    exact ⟨hsize, hu'⟩

end ExpDecaySample
end CppMetrics
