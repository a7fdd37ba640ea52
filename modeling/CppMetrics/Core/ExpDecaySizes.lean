import CppMetrics.Core.ExpDecaySample
import CppMetrics.Lib.Machine

/-! The two sizes of an exponentially decaying sample. `update` counts every value it is offered
while the reservoir fills, but the map keeps one entry a key: a priority that the map takes for a
key it has overwrites a value. Apart from that, and from a count that wraps around, the sizes agree
and no early value is lost. -/

namespace CppMetrics.ExpDecaySample

variable {D P : Type*} [Less P]

/-- The values recorded since the last `clear`, and whether there was a rescale since. -/
structure History where
  recorded : List Int64
  rescaled : Bool

def History.note (h : History) (s : ExpDecaySample P) : Call D → History
  | .update value timestamp _ =>
    ⟨h.recorded ++ [value], h.rescaled || decide (s.nextScaleTime < timestamp)⟩
  | .clear _ => ⟨[], false⟩

/-- The sizes agree, and the snapshot holds all values recorded since the last `clear` while they
fit and no rescale has happened. -/
def Faithful (x : History × ExpDecaySample P) : Prop :=
  x.2.size.toNat = x.2.getSnapshot.size ∧
    (x.1.recorded.length ≤ x.2.reservoirSize.toNat → x.1.rescaled = false →
      x.2.getSnapshot.getValues.Perm x.1.recorded)

/-- No update wraps `count_` around, and none that finds room draws a priority that is the same as a
key to the map. -/
def FillsFresh (w : Weights D P) (s : ExpDecaySample P) : Call D → Prop
  | .update _ timestamp draws =>
    let s' := s.rescaleIfNeeded w timestamp
    ∀ priority, drawPriority w (toSeconds (timestamp - s'.startTime)) draws = some priority →
      s'.count + 1 ≠ 0 ∧ (s'.Fills → s'.values.Fresh priority)
  | .clear _ => True

instance (w : Weights D P) (s : ExpDecaySample P) (c : Call D) : Decidable (FillsFresh w s c) :=
  match c with
  | .update _ timestamp draws =>
    let s' := s.rescaleIfNeeded w timestamp
    match h : drawPriority w (toSeconds (timestamp - s'.startTime)) draws with
    | none => isTrue fun _ hdraw => nomatch h.symm.trans hdraw
    | some priority =>
      decidable_of_iff (s'.count + 1 ≠ 0 ∧ (s'.Fills → s'.values.Fresh priority))
        ⟨fun hfresh _ hdraw => Option.some.inj (h.symm.trans hdraw) ▸ hfresh, fun hall => hall _ h⟩
  | .clear _ => isTrue trivial

variable {w : Weights D P} {s t : ExpDecaySample P} {priority : P} {value : Int64}

theorem size_toNat (s : ExpDecaySample P) :
    s.size.toNat = min s.reservoirSize.toNat s.count.toNat := by
  have hmin : s.size.toNat = min s.reservoirSize.toUInt64.toNat s.count.toNat :=
    (apply_ite UInt64.toNat _ _ _).trans rfl
  rw [hmin, UInt32.toNat_toUInt64]

theorem count_lt_of_fills (hfill : s.Fills) (hwrap : s.count + 1 ≠ 0) :
    (s.count + 1).toNat = s.count.toNat + 1 ∧ s.count.toNat < s.reservoirSize.toNat := by
  have hnext : (s.count + 1).toNat = s.count.toNat + 1 := toNat_add_one hwrap
  rw [Fills, le_toUInt64_iff, hnext] at hfill
  exact ⟨hnext, hfill⟩

theorem not_wraps_of_not_fills (hfull : ¬s.Fills) : s.count + 1 ≠ 0 := by
  intro hzero
  rw [Fills, hzero] at hfull
  exact hfull UInt64.zero_le

theorem le_count_of_not_fills (hfull : ¬s.Fills) :
    (s.count + 1).toNat = s.count.toNat + 1 ∧ s.reservoirSize.toNat ≤ s.count.toNat := by
  have hnext := toNat_add_one (not_wraps_of_not_fills hfull)
  rw [Fills, le_toUInt64_iff, hnext] at hfull
  exact ⟨hnext, Nat.lt_succ_iff.mp (not_le.mp hfull)⟩

def Sized (s : ExpDecaySample P) : Prop := s.size.toNat = s.values.size

theorem Sized.le (h : s.Sized) : s.values.size ≤ s.reservoirSize.toNat := by
  rw [← h, size_toNat]
  exact Nat.min_le_left _ _

theorem Sized.rescaleIfNeeded (h : s.Sized) (w : Weights D P) (now : Int64) :
    (s.rescaleIfNeeded w now).Sized := by
  by_cases hlt : s.nextScaleTime < now
  · have hsize := (rescaleIfNeeded_size_le w now s).trans h.le
    have hbound := s.reservoirSize.toNat_lt
    rw [Sized, size_toNat, rescaleIfNeeded_reservoirSize, rescaleIfNeeded_count_of_lt hlt,
      UInt64.toNat_ofNat_of_lt' (hsize.trans_lt (hbound.trans (by decide)))]
    exact Nat.min_eq_right hsize
  · rwa [rescaleIfNeeded_of_not_lt hlt]

theorem Sized.count_eq (h : s.Sized) (hlt : s.count.toNat < s.reservoirSize.toNat) :
    s.count.toNat = s.values.size := by
  rw [← h, size_toNat, Nat.min_eq_right hlt.le]

def Recalls (h : History) (s : ExpDecaySample P) : Prop :=
  h.rescaled = false → s.count.toNat = h.recorded.length ∧
    (h.recorded.length ≤ s.reservoirSize.toNat →
      (s.values.entries.map Prod.snd).Perm h.recorded)

theorem faithful_iff {h : History} (hrec : Recalls h s) : Faithful (h, s) ↔ s.Sized := by
  rw [Faithful, getSnapshot_size, Sized]
  refine and_iff_left fun hlen hres => ?_
  exact (getSnapshot_perm s).trans ((hrec hres).2 hlen)

theorem Sized.offer (h : s.Sized) (hok : s.offer priority value = .ok t)
    (hwrap : s.count + 1 ≠ 0) (hfresh : s.Fills → s.values.Fresh priority) : t.Sized := by
  rcases offer_eq_ok hok with ⟨hfill, rfl⟩ | ⟨hfull, first, hfirst, rfl⟩
  · obtain ⟨hnext, hlt⟩ := count_lt_of_fills hfill hwrap
    rw [Sized, size_toNat, OrderedMap.size_assign_of_fresh (hfresh hfill), ← h.count_eq hlt]
    dsimp only
    rw [hnext, Nat.min_eq_right hlt]
  · -- the reservoir is full, and the eviction branch puts one entry in the place of another
    obtain ⟨hnext, hge⟩ := le_count_of_not_fills hfull
    have hsize : s.values.size = s.reservoirSize.toNat := by
      rw [← h, size_toNat, Nat.min_eq_left hge]
    rw [Sized, size_toNat]
    dsimp only
    rw [hnext, Nat.min_eq_left (hge.trans (Nat.le_succ _)), ← hsize]
    split_ifs with hput
    · rw [size_replace_first hfirst hput.2]
    · rfl

theorem fresh_of_sized (h : s.Sized) (hfill : s.Fills)
    (hnext : ∀ t, s.offer priority value = .ok t → t.Sized) :
    s.count + 1 ≠ 0 ∧ s.values.Fresh priority := by
  have hsized := hnext _ (offer_fill hfill)
  rw [Sized, size_toNat] at hsized
  dsimp only at hsized
  have hwrap : s.count + 1 ≠ 0 := by
    intro hzero
    rw [hzero, UInt64.toNat_zero, Nat.min_zero] at hsized
    exact OrderedMap.size_assign_pos.ne hsized
  refine ⟨hwrap, ?_⟩
  obtain ⟨hcount, hlt⟩ := count_lt_of_fills hfill hwrap
  by_contra hsame
  rw [hcount, OrderedMap.size_assign_of_not_fresh hsame, Nat.min_eq_right hlt, h.count_eq hlt]
    at hsized
  exact Nat.succ_ne_self _ hsized

theorem Recalls.offer {recorded : List Int64} (hrec : Recalls ⟨recorded, false⟩ s)
    (hok : s.offer priority value = .ok t) (hwrap : s.count + 1 ≠ 0)
    (hfresh : s.Fills → s.values.Fresh priority) :
    Recalls ⟨recorded ++ [value], false⟩ t := by
  intro _
  obtain ⟨hcount, hperm⟩ := hrec rfl
  dsimp only at hcount hperm ⊢
  rw [List.length_append, List.length_singleton, offer_count hok, toNat_add_one hwrap, hcount]
  refine ⟨rfl, fun hlen => ?_⟩
  rcases offer_eq_ok hok with ⟨hfill, rfl⟩ | ⟨hfull, first, hfirst, rfl⟩
  · have hassign := (OrderedMap.assign_perm (v := value) (hfresh hfill)).map Prod.snd
    refine hassign.trans ?_
    exact ((hperm ((Nat.le_succ _).trans hlen)).cons value).trans
      (List.perm_append_singleton _ _).symm
  · have hge := (le_count_of_not_fills hfull).2
    dsimp only at hlen
    omega

theorem sized_recalls_step {h : History} {c : Call D} (hs : s.Sized) (hrec : Recalls h s)
    (hfresh : FillsFresh w s c) (hstep : step w s c = some t) :
    t.Sized ∧ Recalls (h.note s c) t := by
  cases c with
  | clear now =>
    rw [step_clear] at hstep
    subst hstep
    refine ⟨?_, fun _ => ⟨rfl, fun _ => List.Perm.nil⟩⟩
    rw [Sized, size_toNat]
    exact Nat.min_zero _
  | update value timestamp draws =>
    obtain ⟨priority, hdraw, hok⟩ := step_update.mp hstep
    obtain ⟨hwrap, hnew⟩ := hfresh priority hdraw
    refine ⟨(hs.rescaleIfNeeded w timestamp).offer hok hwrap hnew, fun hres => ?_⟩
    obtain ⟨hno, hle⟩ := Bool.or_eq_false_iff.mp hres
    rw [decide_eq_false_iff_not] at hle
    rw [rescaleIfNeeded_of_not_lt hle] at hok hwrap hnew
    have hrec' : Recalls ⟨h.recorded, false⟩ s := fun _ => hrec hno
    exact hrec'.offer hok hwrap hnew rfl

theorem fillsFresh_of_faithful {h : History} {c : Call D} (hs : Faithful (h, s))
    (hnext : ∀ t, step w s c = some t → Faithful (h.note s c, t)) : FillsFresh w s c := by
  cases c with
  | clear now => trivial
  | update value timestamp draws =>
    intro priority hdraw
    have hsized : s.Sized := hs.1.trans (getSnapshot_size s)
    by_cases hfill : (s.rescaleIfNeeded w timestamp).Fills
    · obtain ⟨hwrap, hfresh⟩ := fresh_of_sized (hsized.rescaleIfNeeded w timestamp) hfill
        fun t hok => (hnext t (step_update.mpr ⟨priority, hdraw, hok⟩)).1.trans (getSnapshot_size t)
      exact ⟨hwrap, fun _ => hfresh⟩
    · exact ⟨not_wraps_of_not_fills hfill, fun h => absurd h hfill⟩

theorem sized_new (k : UInt32) (now : Int64) : (new k now : ExpDecaySample P).Sized := by
  rw [Sized, size_toNat]
  exact Nat.min_zero _

theorem always_sized_recalls {k : UInt32} {now : Int64} {cs : List (Call D)}
    (halong : Machine.Along (step w) (FillsFresh w) (new k now) cs) :
    Machine.Always (Machine.observe (step w) History.note)
      (fun x => x.2.Sized ∧ Recalls x.1 x.2) (⟨[], false⟩, new k now) cs := by
  refine Machine.always_observe_of_along (P := fun h s => s.Sized ∧ Recalls h s) ?_ ?_ halong
  · exact fun hx hc hstep => sized_recalls_step hx.1 hx.2 hc hstep
  · exact ⟨sized_new k now, fun _ => ⟨rfl, fun _ => List.Perm.nil⟩⟩

theorem always_stocked {k : UInt32} (hk : 1 ≤ k.toNat) (now : Int64) (cs : List (Call D)) :
    Machine.Always (step w) (fun s => 0 < s.reservoirSize.toNat ∧ s.Stocked) (new k now) cs := by
  refine Machine.always_of_invariant (fun {s c t} hs hstep => ?_) ⟨hk, new_stocked k now⟩ cs
  obtain ⟨hsize, hstocked⟩ := hs.2.step hs.1 hstep
  exact ⟨hsize ▸ hs.1, hstocked⟩

/-- In every state of a run both sizes agree and the early values are all in the snapshot, if and
only if no update made while the reservoir fills draws a priority that the map takes for one of its
keys, and none wraps the count around; and no run meets an empty map in the eviction branch. -/
theorem sizes_agree_iff (w : Weights D P) (k : UInt32) (hk : 1 ≤ k.toNat) (now : Int64)
    (cs : List (Call D)) :
    (Machine.Always (Machine.observe (step w) History.note) Faithful (⟨[], false⟩, new k now) cs ↔
      Machine.Along (step w) (FillsFresh w) (new k now) cs) ∧
    Machine.Always (step w) (fun s => ∀ c, s.perform w c ≠ .error .emptyReservoir) (new k now)
      cs := by
  refine ⟨⟨fun hall => ?_, fun halong => ?_⟩, ?_⟩
  · refine Machine.along_observe.mp (Machine.along_of_always (fun {x c} hx hnext => ?_) hall)
    obtain ⟨h, s⟩ := x
    exact fillsFresh_of_faithful hx fun t ht =>
      hnext (h.note s c, t) (Machine.observe_eq_some.mpr ⟨ht, rfl⟩)
  · exact (always_sized_recalls halong).imp fun x hx => (faithful_iff hx.2).mpr hx.1
  · refine (always_stocked hk now cs).imp fun s hs c herror => ?_
    rcases hs.2.perform hs.1 c with h | ⟨t, h, -⟩ <;>
      rw [h] at herror <;> cases herror

def coarseExp (x : ℚ) : ℚ := if x < 0 then 1 / 2 else 1

/-- The third update meets an equal key in the full reservoir, and the last one comes with a
rescale. -/
def fullReservoir : List (Call ℚ) :=
  [.update 7 0 [1 / 2], .update 8 1 [1 / 4], .update 9 2 [1 / 4], .update 10 3600000000001 [1 / 5]]

theorem sizes_agree_iff_fullReservoir :
    Machine.Always (Machine.observe (step (.exact coarseExp DEFAULT_ALPHA)) History.note) Faithful
      (⟨[], false⟩, new 2 0) fullReservoir :=
  (sizes_agree_iff (.exact coarseExp DEFAULT_ALPHA) 2 (by decide) 0 fullReservoir).1.mpr
    (by decide +kernel)

/-! An infinite key becomes NaN in a late rescale, and the next value takes its entry. -/

example : (Machine.run
    (step (.underflowing (fun x => if x < -700 then 0 else coarseExp x) DEFAULT_ALPHA)) (new 2 0)
    [.update 1 0 [0], .update 2 50400000000000 [1 / 2]]).map
      (fun s => (s.size, s.values.size)) = some (2, 1) := by decide +kernel

noncomputable def equalDraws : List (Call ℝ) := [.update 1 0 [1 / 2], .update 2 0 [1 / 2]]

theorem sizes_disagree : ∃ t, Machine.run (step Weights.source) (new 2 0) equalDraws = some t ∧
    t.size = 2 ∧ t.getSnapshot.size = 1 := by
  obtain ⟨p, hp⟩ : ∃ p, drawPriority Weights.source (toSeconds (0 - 0)) [1 / 2] = some p :=
    ⟨_, rfl⟩
  let one : ExpDecaySample (WithTop ℝ) := ⟨2, 1, 0, 0 + RESCALE_THRESHOLD, .assign p 1 .empty⟩
  have hearly : ¬(0 + RESCALE_THRESHOLD : Int64) < 0 := by decide
  have hone : (0 : UInt64) + 1 ≤ (2 : UInt32).toUInt64 := by decide
  have htwo : (1 : UInt64) + 1 ≤ (2 : UInt32).toUInt64 := by decide
  have hsize : min (2 : UInt32).toUInt64 (1 + 1 : UInt64) = 2 := by decide
  have hfirst : step Weights.source (new 2 0) (.update 1 0 [1 / 2]) = some one :=
    step_update_fill hearly hp hone
  have hsecond : step Weights.source one (.update 2 0 [1 / 2]) = some _ :=
    step_update_fill hearly hp htwo
  refine ⟨_, Machine.run_cons_eq_some.mpr ⟨_, hfirst, Machine.run_cons_eq_some.mpr
    ⟨_, hsecond, Machine.run_nil⟩⟩, hsize, ?_⟩
  rw [getSnapshot_size, OrderedMap.size_assign_of_not_fresh OrderedMap.not_fresh_assign]
  rfl

end CppMetrics.ExpDecaySample
