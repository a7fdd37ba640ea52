import CppMetrics.Core.ExpDecayTopK

/-! The drift of the keys. A priority and each rescale factor take a time in whole seconds, so that
the exponent in a key moves away from the age of its sample; each rescale adds less than a second,
and the age is never underestimated by one. -/

namespace CppMetrics.ExpDecaySample

/-- A sample as it was recorded, the rescales it has gone through, and its key after them. -/
structure Record (D P : Type*) where
  value : Int64
  time : Int64
  draw : D
  rescales : ℕ
  key : P

section

variable {D P : Type*} [LinearOrder P]

def Record.rescale (w : Weights D P) (dur : ℤ) (r : Record D P) : Record D P :=
  { r with rescales := r.rescales + 1, key := w.rescaled dur r.key }

def rescaleRecords (w : Weights D P) (s : ExpDecaySample P) (timestamp : Int64)
    (records : List (Record D P)) : List (Record D P) :=
  if s.nextScaleTime < timestamp then
    records.map (Record.rescale w (toSeconds (timestamp - s.startTime)))
  else
    records

def noteRecords (w : Weights D P) (records : List (Record D P)) (s : ExpDecaySample P) :
    Call D → List (Record D P)
  | .update value timestamp draws =>
    let secs := toSeconds (timestamp - (s.rescaleIfNeeded w timestamp).startTime)
    -- the draw that ends the loop, and its priority
    match draws.findSome? fun draw => (w.priority secs draw).map (draw, ·) with
    | some (draw, priority) =>
      rescaleRecords w s timestamp records ++ [⟨value, timestamp, draw, 0, priority⟩]
    | none => rescaleRecords w s timestamp records
  | .clear _ => []

end

/-! ### Seconds -/

/-- The seconds by which an exponent exceeds the age of a sample. -/
def excess (e time startTime : ℤ) : ℚ := e - ((time - startTime : ℤ) : ℚ) / nanosPerSecond

theorem toSeconds_lt (d : Int64) :
    -1000000000 < toSeconds d * 1000000000 - d.toInt ∧
      toSeconds d * 1000000000 - d.toInt < 1000000000 := by
  have hsplit := Int.tmod_add_tdiv_mul d.toInt 1000000000
  have hlower := Int.lt_tmod_of_pos d.toInt (show (0 : ℤ) < 1000000000 by decide)
  have hupper := Int.tmod_lt_of_pos d.toInt (show (0 : ℤ) < 1000000000 by decide)
  change d.toInt.tmod 1000000000 + toSeconds d * 1000000000 = d.toInt at hsplit
  omega

theorem toSeconds_le {d : Int64} (hd : 0 ≤ d.toInt) : toSeconds d * 1000000000 ≤ d.toInt := by
  have hsplit := Int.tmod_add_tdiv_mul d.toInt 1000000000
  have hnonneg := Int.tmod_nonneg 1000000000 hd
  change d.toInt.tmod 1000000000 + toSeconds d * 1000000000 = d.toInt at hsplit
  omega

theorem excess_eq (e time startTime : ℤ) : excess e time startTime =
    ((e * 1000000000 - (time - startTime) : ℤ) : ℚ) / 1000000000 := by
  have hunit : (nanosPerSecond : ℚ) = 1000000000 := by norm_num [nanosPerSecond]
  rw [excess, hunit]
  push_cast
  field_simp

theorem excess_bounds_iff {e time startTime : ℤ} {m : ℕ} :
    (-1 < excess e time startTime ∧ excess e time startTime < m + 1) ↔
      -1000000000 < e * 1000000000 - (time - startTime) ∧
        e * 1000000000 - (time - startTime) < (m + 1) * 1000000000 := by
  rw [excess_eq, lt_div_iff₀ (by norm_num), div_lt_iff₀ (by norm_num), neg_one_mul]
  exact_mod_cast Iff.rfl

theorem excess_fresh {time startTime : Int64} (hfits : FitsInt64 (time.toInt - startTime.toInt)) :
    -1 < excess (toSeconds (time - startTime)) time.toInt startTime.toInt ∧
      excess (toSeconds (time - startTime)) time.toInt startTime.toInt < (0 : ℕ) + 1 := by
  rw [excess_bounds_iff]
  have hlt := toSeconds_lt (time - startTime)
  rw [toInt_sub_of_fits hfits] at hlt
  omega

theorem excess_rescale {e : ℤ} {time startTime now : Int64} {m : ℕ}
    (hnow : startTime.toInt ≤ now.toInt) (hfits : FitsInt64 (now.toInt - startTime.toInt))
    (h : -1 < excess e time.toInt startTime.toInt ∧ excess e time.toInt startTime.toInt < m + 1) :
    -1 < excess (e - toSeconds (now - startTime)) time.toInt now.toInt ∧
      excess (e - toSeconds (now - startTime)) time.toInt now.toInt < (m + 1 : ℕ) + 1 := by
  have hsub := toInt_sub_of_fits hfits
  have hlt := toSeconds_lt (now - startTime)
  have hle : toSeconds (now - startTime) * 1000000000 ≤ (now - startTime).toInt :=
    toSeconds_le (by omega)
  rw [excess_bounds_iff] at h ⊢
  rw [hsub] at hlt hle
  push_cast
  omega

/-! ### The keys of a run -/

variable {alpha : ℝ} {records : List (Record ℝ (WithTop ℝ))}
  {s t : ExpDecaySample (WithTop ℝ)} {timestamp : Int64} {draw : ℝ}

/-- The exponent of the key exceeds the age of the sample by more than `-1`, and by less than one
second more than the number of its rescales. -/
def Aged (alpha : ℝ) (startTime : Int64) (r : Record ℝ (WithTop ℝ)) : Prop :=
  0 < r.draw → ∃ e : ℤ, r.key = (Real.exp (alpha * e) / r.draw : ℝ) ∧
    -1 < excess e r.time.toInt startTime.toInt ∧
    excess e r.time.toInt startTime.toInt < r.rescales + 1

/-- The landmarks are an hour apart, what the map holds was recorded, and the keys are aged. -/
structure Drifts (alpha : ℝ) (records : List (Record ℝ (WithTop ℝ)))
    (s : ExpDecaySample (WithTop ℝ)) : Prop where
  next : s.nextScaleTime.toInt = s.startTime.toInt + RESCALE_THRESHOLD.toInt
  recorded : ∀ kv ∈ s.values.entries, ∃ r ∈ records, r.key = kv.1 ∧ r.value = kv.2
  aged : ∀ r ∈ records, Aged alpha s.startTime r

/-- No time that the call computes leaves the 64 bits. -/
def TimesFit {D P : Type*} [Less P] (s : ExpDecaySample P) : Call D → Prop
  | .update _ timestamp _ =>
    FitsInt64 (timestamp.toInt - s.startTime.toInt) ∧
      (s.nextScaleTime < timestamp → FitsInt64 (timestamp.toInt + RESCALE_THRESHOLD.toInt))
  | .clear now => FitsInt64 (now.toInt + RESCALE_THRESHOLD.toInt)

instance {D P : Type*} [Less P] (s : ExpDecaySample P) (c : Call D) : Decidable (TimesFit s c) :=
  match c with
  | .update _ timestamp _ =>
    inferInstanceAs (Decidable (FitsInt64 (timestamp.toInt - s.startTime.toInt) ∧
      (s.nextScaleTime < timestamp → FitsInt64 (timestamp.toInt + RESCALE_THRESHOLD.toInt))))
  | .clear now => inferInstanceAs (Decidable (FitsInt64 (now.toInt + RESCALE_THRESHOLD.toInt)))

theorem drifts_clear (alpha : ℝ) {now : Int64}
    (hfits : FitsInt64 (now.toInt + RESCALE_THRESHOLD.toInt)) (s : ExpDecaySample (WithTop ℝ)) :
    Drifts alpha [] (s.clear now) where
  next := toInt_add_of_fits hfits
  recorded _ hkv := absurd hkv List.not_mem_nil
  aged _ hr := absurd hr List.not_mem_nil

theorem rescaled_key (alpha : ℝ) (e dur : ℤ) (draw : ℝ) :
    (Weights.exact Real.exp alpha).rescaled dur (Real.exp (alpha * e) / draw : ℝ) =
      ((Real.exp (alpha * (e - dur : ℤ)) / draw : ℝ) : WithTop ℝ) := by
  have hexp : Real.exp (alpha * e) / draw * Real.exp (-alpha * dur) =
      Real.exp (alpha * (e - dur : ℤ)) / draw := by
    rw [div_mul_eq_mul_div, ← Real.exp_add]
    congr 2
    push_cast
    ring
  exact (WithTop.map_coe _ _).trans (congrArg _ hexp)

theorem Aged.rescale {startTime now : Int64} {r : Record ℝ (WithTop ℝ)}
    (h : Aged alpha startTime r) (hnow : startTime.toInt ≤ now.toInt)
    (hfits : FitsInt64 (now.toInt - startTime.toInt)) :
    Aged alpha now (r.rescale (.exact Real.exp alpha) (toSeconds (now - startTime))) := by
  intro hdraw
  obtain ⟨e, hkey, hexcess⟩ := h hdraw
  refine ⟨e - toSeconds (now - startTime), ?_, excess_rescale hnow hfits hexcess⟩
  rw [Record.rescale, hkey, rescaled_key]

theorem aged_fresh (alpha : ℝ) (value : Int64) {time startTime : Int64} (draw : ℝ)
    (hfits : FitsInt64 (time.toInt - startTime.toInt)) :
    Aged alpha startTime ⟨value, time, draw, 0,
      if draw = 0 then ⊤
      else ↑(Real.exp (alpha * (toSeconds (time - startTime) : ℤ)) / draw)⟩ := by
  intro hdraw
  exact ⟨toSeconds (time - startTime), if_neg hdraw.ne', excess_fresh hfits⟩

theorem Drifts.startTime_lt (h : Drifts alpha records s) (hlt : s.nextScaleTime < timestamp) :
    s.startTime.toInt + RESCALE_THRESHOLD.toInt < timestamp.toInt :=
  h.next ▸ Int64.lt_iff_toInt_lt.mp hlt

theorem startTime_of_lt {D P : Type*} [Less P] {w : Weights D P} {s : ExpDecaySample P}
    (hlt : s.nextScaleTime < timestamp) :
    (s.rescaleIfNeeded w timestamp).startTime = timestamp := by
  rw [rescaleIfNeeded_of_lt hlt]
  rfl

theorem Drifts.rescaleIfNeeded (h : Drifts alpha records s) (timestamp : Int64)
    (hfits : FitsInt64 (timestamp.toInt - s.startTime.toInt) ∧
      (s.nextScaleTime < timestamp → FitsInt64 (timestamp.toInt + RESCALE_THRESHOLD.toInt))) :
    Drifts alpha (rescaleRecords (.exact Real.exp alpha) s timestamp records)
      (s.rescaleIfNeeded (.exact Real.exp alpha) timestamp) := by
  by_cases hlt : s.nextScaleTime < timestamp
  · have hforward := h.startTime_lt hlt
    have hnow : s.startTime.toInt ≤ timestamp.toInt :=
      (le_add_of_nonneg_right (by decide)).trans hforward.le
    have hentries : (s.rescaleIfNeeded (.exact Real.exp alpha) timestamp).values.entries =
        s.values.entries.map fun kv => ((Weights.exact Real.exp alpha).rescaled
          (toSeconds (timestamp - s.startTime)) kv.1, kv.2) := by
      rw [rescaleIfNeeded_of_lt hlt]
      exact OrderedMap.entries_assignAll_map (strictMono_rescaled Real.exp_pos alpha _) s.values
    rw [rescaleRecords, if_pos hlt]
    constructor
    case next =>
      rw [rescaleIfNeeded_of_lt hlt]
      exact toInt_add_of_fits (hfits.2 hlt)
    case recorded =>
      intro kv hkv
      rw [hentries] at hkv
      obtain ⟨kv', hkv', rfl⟩ := List.mem_map.mp hkv
      obtain ⟨r, hr, hkey, hvalue⟩ := h.recorded kv' hkv'
      refine ⟨_, List.mem_map_of_mem hr, ?_, hvalue⟩
      rw [Record.rescale, hkey]
    case aged =>
      intro r hr
      obtain ⟨r', hr', rfl⟩ := List.mem_map.mp hr
      rw [startTime_of_lt hlt]
      exact (h.aged r' hr').rescale hnow hfits.1
  · rw [rescaleRecords, if_neg hlt, rescaleIfNeeded_of_not_lt hlt]
    exact h

theorem mem_offer {P : Type*} [LinearOrder P] {s t : ExpDecaySample P} {priority : P}
    {value : Int64} (h : s.offer priority value = .ok t) {kv : P × Int64}
    (hkv : kv ∈ t.values.entries) : kv = (priority, value) ∨ kv ∈ s.values.entries := by
  rcases offer_eq_ok h with ⟨-, rfl⟩ | ⟨-, first, -, rfl⟩
  · exact (OrderedMap.mem_assign.mp hkv).imp_right And.left
  · dsimp only at hkv
    split_ifs at hkv
    · exact (OrderedMap.mem_assign.mp (OrderedMap.mem_erase_iff_ne.mp hkv).1).imp_right And.left
    · exact Or.inr hkv

theorem Drifts.offer (h : Drifts alpha records s) {r : Record ℝ (WithTop ℝ)}
    (hr : Aged alpha s.startTime r) (hok : s.offer r.key r.value = .ok t) :
    Drifts alpha (records ++ [r]) t := by
  obtain ⟨hstart, hnext⟩ := offer_times hok
  constructor
  case next => rw [hnext, hstart, h.next]
  case recorded =>
    intro kv hkv
    rcases mem_offer hok hkv with rfl | hold
    · exact ⟨r, List.mem_append_right _ List.mem_cons_self, rfl, rfl⟩
    · obtain ⟨r', hr', hkey⟩ := h.recorded kv hold
      exact ⟨r', List.mem_append_left _ hr', hkey⟩
  case aged =>
    intro r' hr'
    rw [hstart]
    rcases List.mem_append.mp hr' with hold | hnew
    · exact h.aged r' hold
    · rw [List.mem_singleton.mp hnew]
      exact hr

theorem Drifts.step (h : Drifts alpha records s) {c : Call ℝ} (hfits : TimesFit s c)
    (hstep : step (.exact Real.exp alpha) s c = some t) :
    Drifts alpha (noteRecords (.exact Real.exp alpha) records s c) t := by
  cases c with
  | clear now =>
    rw [step_clear.mp hstep]
    exact drifts_clear alpha hfits s
  | update value timestamp draws =>
    obtain ⟨priority, hdraw, hok⟩ := step_update.mp hstep
    cases draws with
    | nil => exact nomatch hdraw
    | cons draw draws =>
      -- no priority is NaN, so that the first draw is taken
      cases hdraw
      refine (h.rescaleIfNeeded timestamp hfits).offer (aged_fresh alpha value draw ?_) hok
      by_cases hlt : s.nextScaleTime < timestamp
      · rw [startTime_of_lt hlt, sub_self]
        decide
      · rw [rescaleIfNeeded_of_not_lt hlt]
        exact hfits.1

/-- What a step does to the landmark, and the exponent it gives a fresh sample. -/
def Timely {D P : Type*} [Less P] (w : Weights D P) (s : ExpDecaySample P) :
    Call D → Prop
  | .update _ timestamp _ =>
    (s.nextScaleTime < timestamp → s.startTime.toInt + 3600 * nanosPerSecond <
      (s.rescaleIfNeeded w timestamp).startTime.toInt) ∧
    toSeconds (timestamp - (s.rescaleIfNeeded w timestamp).startTime) ≤ 3600
  | .clear _ => True

theorem Drifts.timely (h : Drifts alpha records s) {c : Call ℝ} (hfits : TimesFit s c) :
    Timely (.exact Real.exp alpha) s c := by
  cases c with
  | clear now => trivial
  | update value timestamp draws =>
    by_cases hlt : s.nextScaleTime < timestamp
    · have hforward := h.startTime_lt hlt
      have hzero : toSeconds (timestamp - timestamp) = 0 := by
        rw [Int64.sub_self]
        rfl
      rw [Timely, startTime_of_lt hlt, hzero]
      exact ⟨fun _ => hforward, by decide⟩
    · rw [Timely, rescaleIfNeeded_of_not_lt hlt]
      refine ⟨fun h => absurd h hlt, ?_⟩
      have hage : timestamp.toInt - s.startTime.toInt ≤ 3600000000000 := by
        have hle := Int64.le_iff_toInt_le.mp (Int64.not_lt.mp hlt)
        rw [h.next] at hle
        exact sub_le_iff_le_add'.mpr hle
      have hseconds := toSeconds_lt (timestamp - s.startTime)
      rw [toInt_sub_of_fits hfits.1] at hseconds
      rcases le_total 0 (timestamp.toInt - s.startTime.toInt) with hpos | hneg
      · have hfloor : toSeconds (timestamp - s.startTime) * 1000000000 ≤
            (timestamp - s.startTime).toInt :=
          toSeconds_le (by rwa [toInt_sub_of_fits hfits.1])
        rw [toInt_sub_of_fits hfits.1] at hfloor
        omega
      · omega

/-- Where no time leaves the 64 bits, the drift of every key is bounded by its rescales, and the
landmark moves forward by more than an hour at each of these. -/
theorem rescale_bounded_drift (alpha : ℝ) (k : UInt32) (now : Int64)
    (hnow : FitsInt64 (now.toInt + RESCALE_THRESHOLD.toInt)) (cs : List (Call ℝ))
    (hfits : Machine.Along (step (.exact Real.exp alpha)) TimesFit (new k now) cs) :
    Machine.Always (Machine.observe (step (.exact Real.exp alpha))
        (noteRecords (.exact Real.exp alpha))) (fun x => Drifts alpha x.1 x.2) ([], new k now) cs ∧
      Machine.Along (step (.exact Real.exp alpha)) (Timely (.exact Real.exp alpha)) (new k now)
        cs := by
  have hdrifts : Machine.Always (Machine.observe (step (.exact Real.exp alpha))
      (noteRecords (.exact Real.exp alpha))) (fun x => Drifts alpha x.1 x.2) ([], new k now) cs :=
    Machine.always_observe_of_along (fun h hc ht => h.step hc ht) (drifts_clear alpha hnow _) hfits
  refine ⟨hdrifts, ?_⟩
  exact Machine.along_observe.mp
    ((Machine.along_observe.mpr hfits).imp hdrifts fun x c h hc => h.timely hc)

/-! ### Times that fit -/

def Call.time {D : Type*} : Call D → Int64
  | .update _ timestamp _ => timestamp
  | .clear now => now

/-- The time is less than 146 years away from the epoch. -/
def Moderate (time : Int64) : Prop := -2 ^ 62 ≤ time.toInt ∧ time.toInt < 2 ^ 62

theorem fits_of_moderate {time : Int64} (h : Moderate time) :
    FitsInt64 (time.toInt + RESCALE_THRESHOLD.toInt) := by
  obtain ⟨hlower, hupper⟩ := h
  have hhour : RESCALE_THRESHOLD.toInt = 3600000000000 := by decide
  rw [hhour]
  constructor <;> omega

theorem startTime_of_step {D P : Type*} [Less P] {w : Weights D P} {s t : ExpDecaySample P}
    {c : Call D} (h : step w s c = some t) : t.startTime = s.startTime ∨ t.startTime = c.time := by
  cases c with
  | clear now =>
    rw [step_clear.mp h]
    exact Or.inr rfl
  | update value timestamp draws =>
    obtain ⟨priority, -, hok⟩ := step_update.mp h
    rw [(offer_times hok).1]
    by_cases hlt : s.nextScaleTime < timestamp
    · exact Or.inr (startTime_of_lt hlt)
    · rw [rescaleIfNeeded_of_not_lt hlt]
      exact Or.inl rfl

theorem along_timesFit {D P : Type*} [Less P] {w : Weights D P} {s : ExpDecaySample P}
    {cs : List (Call D)} (hs : Moderate s.startTime) (hcs : ∀ c ∈ cs, Moderate c.time) :
    Machine.Along (step w) TimesFit s cs := by
  induction cs generalizing s with
  | nil => trivial
  | cons c cs ih =>
    obtain ⟨hc, hrest⟩ := List.forall_mem_cons.mp hcs
    refine ⟨?_, fun t ht => ih ?_ hrest⟩
    · cases c with
      | clear now => exact fits_of_moderate hc
      | update value timestamp draws =>
        refine ⟨?_, fun _ => fits_of_moderate hc⟩
        obtain ⟨hlower, hupper⟩ := hs
        obtain ⟨hlower', hupper'⟩ := hc
        constructor <;> dsimp only [Call.time] at * <;> omega
    · rcases startTime_of_step ht with heq | heq
      · exact heq ▸ hs
      · exact heq ▸ hc

/-- The second update comes two hours after the first one, the third is late by a second. -/
noncomputable def twoHours : List (Call ℝ) :=
  [.update 7 1400000000000000000 [0.5], .update 8 1400007200000000000 [0.25],
    .update 9 1400007199000000000 [0.3]]

theorem rescale_bounded_drift_twoHours :
    Machine.Always (Machine.observe (step (.exact Real.exp 0.015))
        (noteRecords (.exact Real.exp 0.015))) (fun x => Drifts 0.015 x.1 x.2)
        ([], new 2 1400000000000000000) twoHours ∧
      Machine.Along (step (.exact Real.exp 0.015)) (Timely (.exact Real.exp 0.015))
        (new 2 1400000000000000000) twoHours := by
  refine rescale_bounded_drift 0.015 2 1400000000000000000 (by decide) twoHours
    (along_timesFit ⟨by decide, by decide⟩ ?_)
  simp only [twoHours, List.forall_mem_cons, Call.time]
  exact ⟨⟨by decide, by decide⟩, ⟨by decide, by decide⟩, ⟨by decide, by decide⟩, nofun⟩

/-- After an update at the last time of the clock the landmark moves back. -/
theorem landmark_moves_back :
    ¬Machine.Along (step Weights.source) (Timely Weights.source) (new 1 0)
      [.update 7 Int64.maxValue [1 / 2], .update 8 0 [1 / 2]] := by
  rintro ⟨-, hrest⟩
  have hlate : (new 1 0 : ExpDecaySample (WithTop ℝ)).nextScaleTime < Int64.maxValue := by decide
  obtain ⟨p, hp⟩ : ∃ p, drawPriority Weights.source (toSeconds (Int64.maxValue -
      ((new 1 0).rescaleIfNeeded Weights.source Int64.maxValue).startTime)) [1 / 2] = some p :=
    ⟨_, rfl⟩
  obtain ⟨t, hok, -⟩ := ((new_stocked 1 0).rescaleIfNeeded Weights.source Int64.maxValue).offer
    (by rw [rescaleIfNeeded_reservoirSize]; decide) p 7
  obtain ⟨hstart, hnext⟩ := offer_times hok
  rw [startTime_of_lt hlate] at hstart
  rw [rescaleIfNeeded_of_lt hlate] at hnext
  have hagain : t.nextScaleTime < 0 := by
    rw [hnext]
    decide
  have hforward := ((hrest t (step_update.mpr ⟨p, hp, hok⟩)).1).1 hagain
  rw [startTime_of_lt hagain, hstart] at hforward
  exact absurd hforward (by decide)

end CppMetrics.ExpDecaySample
