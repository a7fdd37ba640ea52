import CppMetrics.Core.ExpDecaySizes
import CppMetrics.Lib.Machine
import CppMetrics.Lib.TopK

/-! The exponentially decaying sample keeps the samples of greatest current key. A rescale moves
every key by one strictly increasing function, so the order of the samples it holds and of those
it has evicted stays what it was. -/

namespace CppMetrics.ExpDecaySample

variable {D P : Type*} [LinearOrder P]

def currentKeys (w : Weights D P) (s : ExpDecaySample P) (timestamp : Int64)
    (recorded : List (P × Int64)) : List (P × Int64) :=
  if s.nextScaleTime < timestamp then
    recorded.map fun kv => (w.rescaled (toSeconds (timestamp - s.startTime)) kv.1, kv.2)
  else
    recorded

/-- The samples recorded since the last `clear`, each with its current key. -/
def noteSamples (w : Weights D P) (recorded : List (P × Int64)) (s : ExpDecaySample P) :
    Call D → List (P × Int64)
  | .update value timestamp draws =>
    let secs := toSeconds (timestamp - (s.rescaleIfNeeded w timestamp).startTime)
    match drawPriority w secs draws with
    | some priority => currentKeys w s timestamp recorded ++ [(priority, value)]
    | none => currentKeys w s timestamp recorded
  | .clear _ => []

def valuesSinceClear : List Int64 → List (Call D) → List Int64
  | vs, [] => vs
  | vs, .update value _ _ :: cs => valuesSinceClear (vs ++ [value]) cs
  | _, .clear _ :: cs => valuesSinceClear [] cs

def CountFits (w : Weights D P) (s : ExpDecaySample P) : Call D → Prop
  | .update _ timestamp _ => (s.rescaleIfNeeded w timestamp).count + 1 ≠ 0
  | .clear _ => True

instance (w : Weights D P) (s : ExpDecaySample P) (c : Call D) : Decidable (CountFits w s c) :=
  match c with
  | .update _ timestamp _ =>
    inferInstanceAs (Decidable ((s.rescaleIfNeeded w timestamp).count + 1 ≠ 0))
  | .clear _ => isTrue trivial

variable {w : Weights D P} {s t : ExpDecaySample P} {priority : P} {value : Int64}
  {recorded : List (P × Int64)} {k : UInt32}

/-- The map holds the samples of greatest key, and `count_` knows whether there is room. -/
structure Keeps (k : UInt32) (recorded : List (P × Int64)) (s : ExpDecaySample P) : Prop where
  reservoirSize : s.reservoirSize = k
  stocked : s.Stocked
  topK : TopK k.toNat recorded s.values
  count : min k.toNat s.count.toNat = min k.toNat recorded.length

theorem Keeps.clear (now : Int64) (hsize : s.reservoirSize = k) : Keeps k [] (s.clear now) where
  reservoirSize := hsize
  stocked hcount := absurd rfl hcount
  topK := TopK.nil
  count := rfl

theorem Keeps.rescaleIfNeeded (h : Keeps k recorded s)
    (hw : ∀ secs, StrictMono (w.rescaled secs)) (timestamp : Int64) :
    Keeps k (currentKeys w s timestamp recorded) (s.rescaleIfNeeded w timestamp) := by
  unfold currentKeys
  split_ifs with hlt
  · have hmono := hw (toSeconds (timestamp - s.startTime))
    have hkeys : TopK k.toNat
        (recorded.map fun kv => (w.rescaled (toSeconds (timestamp - s.startTime)) kv.1, kv.2))
        (s.rescaleIfNeeded w timestamp).values := by
      rw [rescaleIfNeeded_of_lt hlt]
      exact h.topK.map hmono (OrderedMap.entries_assignAll_map hmono s.values)
    constructor
    case reservoirSize => rw [rescaleIfNeeded_reservoirSize, h.reservoirSize]
    case stocked => exact h.stocked.rescaleIfNeeded w timestamp
    case topK => exact hkeys
    case count =>
      have hsize := hkeys.size
      have hbound : (s.rescaleIfNeeded w timestamp).values.size < UInt64.size :=
        (hsize.trans_le (min_le_right _ _)).trans_lt (k.toNat_lt.trans (by decide))
      rw [rescaleIfNeeded_count_of_lt hlt, UInt64.toNat_ofNat_of_lt' hbound, hsize]
      omega
  · rw [rescaleIfNeeded_of_not_lt hlt]
    exact h

theorem Keeps.offer (h : Keeps k recorded s) (hk : 0 < k.toNat) (hcount : s.count + 1 ≠ 0)
    (hnew : priority ∉ recorded.map Prod.fst) (hok : s.offer priority value = .ok t) :
    Keeps k (recorded ++ [(priority, value)]) t := by
  have hsame := h.count
  have hnext := offer_count hok
  obtain ⟨u, hu, hsize, hpos⟩ := h.stocked.offer (h.reservoirSize ▸ hk) priority value
  obtain rfl : u = t := Except.ok.inj (hu.symm.trans hok)
  have hlen : (recorded ++ [(priority, value)]).length = recorded.length + 1 := List.length_append
  have hroom : s.Fills ↔ recorded.length < k.toNat := by
    rw [Fills, le_toUInt64_iff, toNat_add_one hcount, h.reservoirSize]
    omega
  refine ⟨hsize.trans h.reservoirSize, fun _ => hpos, ?_, ?_⟩
  · rcases offer_eq_ok hok with ⟨hfill, rfl⟩ | ⟨hfull, first, hfirst, rfl⟩
    · exact h.topK.fill (hroom.mp hfill) hnew
    · have hge : k.toNat ≤ recorded.length := not_lt.mp (mt hroom.mpr hfull)
      dsimp only
      split_ifs with hput
      · exact h.topK.evict hge hfirst (less_iff.mp hput.1) hnew
      · -- the sample stays out: its key is below the least one of the map
        have hne : priority ≠ first.1 := by
          rintro rfl
          exact hnew (List.mem_map_of_mem (h.topK.mem _ (OrderedMap.begin?_eq_some hfirst).1))
        have hnot : ¬first.1 < priority := fun hlt => hput ⟨less_iff.mpr hlt, h.topK.fresh hnew⟩
        exact h.topK.skip hge hfirst (lt_of_le_of_ne (not_lt.mp hnot) hne)
  · rw [hnext, toNat_add_one hcount]
    omega

theorem currentKeys_snd (w : Weights D P) (s : ExpDecaySample P) (timestamp : Int64)
    (recorded : List (P × Int64)) :
    (currentKeys w s timestamp recorded).map Prod.snd = recorded.map Prod.snd := by
  unfold currentKeys
  split_ifs
  · rw [List.map_map]
    rfl
  · rfl

theorem noteSamples_update {timestamp : Int64} {draws : List D}
    (hdraw : drawPriority w (toSeconds (timestamp - (s.rescaleIfNeeded w timestamp).startTime))
      draws = some priority) :
    noteSamples w recorded s (.update value timestamp draws) =
      currentKeys w s timestamp recorded ++ [(priority, value)] := by
  simp only [noteSamples, hdraw]

theorem noteSamples_update_of_not_lt {timestamp : Int64} {draws : List D}
    (hle : ¬s.nextScaleTime < timestamp)
    (hdraw : drawPriority w (toSeconds (timestamp - s.startTime)) draws = some priority) :
    noteSamples w recorded s (.update value timestamp draws) = recorded ++ [(priority, value)] := by
  rw [← rescaleIfNeeded_of_not_lt (w := w) hle] at hdraw
  rw [noteSamples_update hdraw, currentKeys, if_neg hle]

theorem Keeps.step (h : Keeps k recorded s) (hw : ∀ secs, StrictMono (w.rescaled secs))
    (hk : 0 < k.toNat) {c : Call D}
    (hdraws : ∀ value timestamp draws, c = .update value timestamp draws →
      ∀ secs, drawPriority w secs draws ≠ none)
    (hfits : CountFits w s c)
    (hdistinct : ∀ t, step w s c = some t → ((noteSamples w recorded s c).map Prod.fst).Nodup) :
    ∃ t, step w s c = some t ∧ Keeps k (noteSamples w recorded s c) t ∧
      ∀ cs, valuesSinceClear ((noteSamples w recorded s c).map Prod.snd) cs =
        valuesSinceClear (recorded.map Prod.snd) (c :: cs) := by
  cases c with
  | clear now => exact ⟨_, rfl, Keeps.clear now h.reservoirSize, fun _ => rfl⟩
  | update value timestamp draws =>
    have hs := h.rescaleIfNeeded hw timestamp
    obtain ⟨priority, hdraw⟩ := Option.ne_none_iff_exists'.mp (hdraws _ _ _ rfl
      (toSeconds (timestamp - (s.rescaleIfNeeded w timestamp).startTime)))
    obtain ⟨t, hok, -⟩ := hs.stocked.offer (hs.reservoirSize ▸ hk) priority value
    have hstep := step_update.mpr ⟨priority, hdraw, hok⟩
    have hnodup := hdistinct t hstep
    rw [noteSamples_update hdraw] at hnodup ⊢
    rw [List.map_append, List.nodup_append] at hnodup
    have hnew : priority ∉ (currentKeys w s timestamp recorded).map Prod.fst := fun hmem =>
      hnodup.2.2 _ hmem _ List.mem_cons_self rfl
    refine ⟨t, hstep, hs.offer hk hfits hnew hok, fun cs => ?_⟩
    rw [List.map_append, currentKeys_snd]
    rfl

theorem run_keeps (hw : ∀ secs, StrictMono (w.rescaled secs)) (hk : 0 < k.toNat)
    {cs : List (Call D)} (hdraws : ∀ value timestamp draws, .update value timestamp draws ∈ cs →
      ∀ secs, drawPriority w secs draws ≠ none)
    (hdistinct : Machine.Always (Machine.observe (step w) (noteSamples w))
      (fun x => (x.1.map Prod.fst).Nodup) (recorded, s) cs)
    (hfits : Machine.Along (step w) (CountFits w) s cs) (h : Keeps k recorded s) :
    ∃ recorded' s', Machine.run (Machine.observe (step w) (noteSamples w)) (recorded, s) cs =
        some (recorded', s') ∧ Keeps k recorded' s' ∧
      recorded'.map Prod.snd = valuesSinceClear (recorded.map Prod.snd) cs := by
  -- the invariant is `Keeps`; that keys are distinct is known of every state to come
  induction cs generalizing recorded s with
  | nil => exact ⟨recorded, s, rfl, h, rfl⟩
  | cons c cs ih =>
    have hobs : ∀ t, step w s c = some t → Machine.observe (step w) (noteSamples w)
        (recorded, s) c = some (noteSamples w recorded s c, t) :=
      fun t ht => Machine.observe_eq_some.mpr ⟨ht, rfl⟩
    obtain ⟨t, hstep, ht, hvalues⟩ := h.step hw hk
      (fun value timestamp draws hc =>
        hdraws value timestamp draws (hc ▸ List.mem_cons_self))
      hfits.1 (fun t ht => (hdistinct.2 _ (hobs t ht)).here)
    obtain ⟨recorded', s', hrun, hkeeps, hsnd⟩ :=
      ih (fun value timestamp draws hmem =>
        hdraws value timestamp draws (List.mem_cons_of_mem c hmem))
        (hdistinct.2 _ (hobs t hstep)) (hfits.2 t hstep) ht
    exact ⟨recorded', s', Machine.run_cons_eq_some.mpr ⟨_, hobs t hstep, hrun⟩, hkeeps,
      hsnd.trans (hvalues cs)⟩

theorem strictMono_rescaled {K : Type*} [Field K] [LinearOrder K] [IsStrictOrderedRing K]
    {exp : K → K} (hexp : ∀ x, 0 < exp x) (alpha : K) (secs : ℤ) :
    StrictMono ((Weights.exact exp alpha).rescaled secs) :=
  WithTop.strictMono_map_iff.mpr fun _ _ hab => mul_lt_mul_of_pos_right hab (hexp _)

/-- Of the samples recorded since the last `clear` the map holds the `min n k` of greatest current
key, each under that key with its own value, and both sizes are `min n k`, as long as `count_` does
not wrap around. -/
theorem keeps_greatest {K : Type*} [Field K] [LinearOrder K] [IsStrictOrderedRing K]
    (exp : K → K) (hexp : ∀ x, 0 < exp x) (alpha : K) (k : UInt32) (hk : 1 ≤ k.toNat) (now : Int64)
    (cs : List (Call K)) (hdraws : ∀ value timestamp, .update value timestamp [] ∉ cs)
    (hdistinct : Machine.Always
      (Machine.observe (step (.exact exp alpha)) (noteSamples (.exact exp alpha)))
      (fun x => (x.1.map Prod.fst).Nodup) ([], new k now) cs)
    (hfits : Machine.Along (step (.exact exp alpha)) (CountFits (.exact exp alpha)) (new k now)
      cs) :
    ∃ recorded s,
      Machine.run (Machine.observe (step (.exact exp alpha)) (noteSamples (.exact exp alpha)))
        ([], new k now) cs = some (recorded, s) ∧
      recorded.map Prod.snd = valuesSinceClear [] cs ∧
      TopK k.toNat recorded s.values ∧
      s.size.toNat = min recorded.length k.toNat ∧
      s.getSnapshot.size = min recorded.length k.toNat := by
  have hpriority : ∀ value timestamp draws, .update value timestamp draws ∈ cs →
      ∀ secs, drawPriority (.exact exp alpha) secs draws ≠ none := by
    intro value timestamp draws hmem secs
    cases draws with
    | nil => exact absurd hmem (hdraws value timestamp)
    | cons draw draws => exact Option.some_ne_none _
  have hnew : Keeps k [] (new k now : ExpDecaySample (WithTop K)) := Keeps.clear now rfl
  obtain ⟨recorded, s, hrun, hkeeps, hvalues⟩ :=
    run_keeps (strictMono_rescaled hexp alpha) hk hpriority hdistinct hfits hnew
  have hsize := hkeeps.topK.size
  refine ⟨recorded, s, hrun, hvalues, hkeeps.topK, ?_, (getSnapshot_size s).trans hsize⟩
  rw [size_toNat, hkeeps.reservoirSize, hkeeps.count, Nat.min_comm]

/-- Two slots and four samples. The last one comes an hour later, with a rescale. -/
def fourSamples : List (Call ℚ) :=
  [.update 7 0 [1 / 2], .update 8 1 [1 / 4], .update 9 2 [1 / 3], .update 10 3600000000001 [2 / 5]]

theorem keeps_greatest_fourSamples :
    ∃ recorded s, Machine.run (Machine.observe (step (.exact coarseExp DEFAULT_ALPHA))
        (noteSamples (.exact coarseExp DEFAULT_ALPHA))) ([], new 2 0) fourSamples =
          some (recorded, s) ∧
      recorded.map Prod.snd = [7, 8, 9, 10] ∧ TopK 2 recorded s.values ∧ s.size.toNat = 2 := by
  have hpos : ∀ x, 0 < coarseExp x := by
    intro x
    unfold coarseExp
    split_ifs <;> norm_num
  obtain ⟨recorded, s, hrun, hvalues, htop, hsize, -⟩ := keeps_greatest coarseExp hpos DEFAULT_ALPHA
    2 (by decide) 0 fourSamples (by simp [fourSamples]) (by decide +kernel) (by decide +kernel)
  refine ⟨recorded, s, hrun, hvalues, htop, hsize.trans ?_⟩
  rw [← List.length_map (f := Prod.snd), hvalues]
  rfl

/-! ### A count that wraps around -/

/-- The updates from number `i` on, all in the first second. Number `j` gets the key `j + 2`. -/
noncomputable def distinctUpdates (i n : ℕ) : List (Call ℝ) :=
  (List.range' i n).map fun j : ℕ => .update 7 0 [1 / ((j + 2 : ℕ) : ℝ)]

noncomputable def distinctSamples (n : ℕ) : List (WithTop ℝ × Int64) :=
  (List.range n).map fun j : ℕ => (↑((j + 2 : ℕ) : ℝ), 7)

theorem nodup_distinctSamples (n : ℕ) : ((distinctSamples n).map Prod.fst).Nodup := by
  rw [distinctSamples, List.map_map]
  refine List.nodup_range.map fun i j heq => ?_
  have hkey : ((i + 2 : ℕ) : ℝ) = (j + 2 : ℕ) := WithTop.coe_injective heq
  exact Nat.add_right_cancel (Nat.cast_injective hkey)

theorem drawPriority_distinct (j : ℕ) :
    drawPriority Weights.source (toSeconds (0 - 0)) [1 / ((j + 2 : ℕ) : ℝ)] =
      some (((j + 2 : ℕ) : ℝ) : WithTop ℝ) := by
  have hpos : (0 : ℝ) < (j + 2 : ℕ) := Nat.cast_pos.mpr (Nat.succ_pos _)
  have hne : 1 / ((j + 2 : ℕ) : ℝ) ≠ 0 := (one_div_pos.mpr hpos).ne'
  have hzero : toSeconds (0 - 0) = 0 := by decide
  rw [hzero, drawPriority, List.findSome?_singleton]
  simp only [Weights.source, Weights.exact, if_neg hne, Int.cast_zero, mul_zero, Real.exp_zero,
    one_div_one_div]

theorem run_distinctUpdates (n : ℕ) {i : ℕ} {s : ExpDecaySample (WithTop ℝ)}
    (hcount : s.count = UInt64.ofNat i) (hsize : s.reservoirSize = 1) (hstocked : s.Stocked)
    (hstart : s.startTime = 0) (hnext : s.nextScaleTime = RESCALE_THRESHOLD) :
    Machine.Always (Machine.observe (step .source) (noteSamples .source))
        (fun x => (x.1.map Prod.fst).Nodup) (distinctSamples i, s) (distinctUpdates i n) ∧
      ∃ t, Machine.run (Machine.observe (step .source) (noteSamples .source))
          (distinctSamples i, s) (distinctUpdates i n) = some (distinctSamples (i + n), t) ∧
        t.count = UInt64.ofNat (i + n) ∧ t.reservoirSize = 1 := by
  induction n generalizing i s with
  | zero => exact ⟨nodup_distinctSamples i, s, rfl, hcount, hsize⟩
  | succ n ih =>
    have hearly : ¬s.nextScaleTime < 0 := by
      rw [hnext]
      decide
    have hdraw : drawPriority .source (toSeconds (0 - s.startTime)) [1 / ((i + 2 : ℕ) : ℝ)] =
        some (((i + 2 : ℕ) : ℝ) : WithTop ℝ) := by
      rw [hstart]
      exact drawPriority_distinct i
    have hslot : 0 < s.reservoirSize.toNat := by
      rw [hsize]
      decide
    obtain ⟨t, hok, hsize', hpos⟩ := hstocked.offer hslot (((i + 2 : ℕ) : ℝ) : WithTop ℝ) 7
    obtain ⟨hstart', hnext'⟩ := offer_times hok
    have hstep : step .source s (.update 7 0 [1 / ((i + 2 : ℕ) : ℝ)]) = some t := by
      rw [step_update, rescaleIfNeeded_of_not_lt hearly]
      exact ⟨_, hdraw, hok⟩
    have hnote : noteSamples .source (distinctSamples i) s (.update 7 0 [1 / ((i + 2 : ℕ) : ℝ)]) =
        distinctSamples (i + 1) := by
      rw [noteSamples_update_of_not_lt hearly hdraw, distinctSamples, distinctSamples,
        List.range_succ, List.map_append]
      rfl
    have hobs := Machine.observe_eq_some.mpr ⟨hstep, hnote.symm⟩
    have hcount' : t.count = UInt64.ofNat (i + 1) := by
      rw [offer_count hok, hcount, UInt64.ofNat_add]
      rfl
    obtain ⟨hall, u, hrun, hu⟩ := ih hcount' (hsize'.trans hsize) (fun _ => hpos)
      (hstart'.trans hstart) (hnext'.trans hnext)
    have hlen : i + (n + 1) = i + 1 + n := by omega
    rw [hlen]
    exact ⟨(Machine.always_cons hobs).mpr ⟨nodup_distinctSamples i, hall⟩, u,
      Machine.run_cons_eq_some.mpr ⟨_, hobs, hrun⟩, hu⟩

/-- So many samples with different keys have been recorded, and `size()` is zero. -/
theorem size_zero_after_wrap :
    Machine.Always (Machine.observe (step .source) (noteSamples .source))
        (fun x => (x.1.map Prod.fst).Nodup) ([], new 1 0) (distinctUpdates 0 (2 ^ 64)) ∧
      ∃ recorded s, Machine.run (Machine.observe (step .source) (noteSamples .source))
          ([], new 1 0) (distinctUpdates 0 (2 ^ 64)) = some (recorded, s) ∧
        recorded.length = 2 ^ 64 ∧ s.size = 0 := by
  obtain ⟨hall, s, hrun, hcount, hsize⟩ := run_distinctUpdates (2 ^ 64) (i := 0)
    (s := new 1 0) rfl rfl (new_stocked 1 0) rfl rfl
  refine ⟨hall, _, s, hrun, ?_, ?_⟩
  · rw [distinctSamples, List.length_map, List.length_range, Nat.zero_add]
  · rw [size, hcount, hsize]
    decide

end CppMetrics.ExpDecaySample
