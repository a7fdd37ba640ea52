import CppMetrics.Core.ExpDecaySizes
import CppMetrics.Core.ExpDecayEviction
import CppMetrics.Core.Histogram
import CppMetrics.Core.SnapshotMoments
import CppMetrics.Core.SnapshotQuantiles
import CppMetrics.Core.UniformRuns

/-! A histogram over whole runs of updates and clears, with either of its samples: what a snapshot
shows is made of values that were recorded, and no statistic leaves their range. -/

namespace CppMetrics

variable {k : UInt32} {D P : Type*} [Less P]

/-! ### The values of the samples -/

namespace UniformSample

variable {sources : List (Option ℕ)} {vs : List Int64} {s : UniformSample k Int64}

theorem Stored.snapshot_le (h : Stored sources vs s) :
    (s.getSnapshot.getValues : Multiset Int64) ≤ vs := by
  obtain ⟨source, hsource⟩ := h.exists_embedding
  have hslots : s.values.toList.take s.size.toNat =
      List.ofFn fun i : Fin (min vs.length k.toNat) => vs.get (source i) := by
    rw [h.size]
    refine List.ext_getElem ?_ fun i hi hi' => ?_
    · simp
    · rw [List.getElem_take, List.getElem_ofFn, ← hsource]
      rfl
  have hvalues : (s.getSnapshot.getValues : Multiset Int64) =
      (Finset.univ.map source).val.map vs.get := by
    rw [getSnapshot, Multiset.coe_eq_coe.mpr (Snapshot.getValues_new_perm _), hslots,
      ← Fin.univ_val_map, Finset.map_val, Multiset.map_map]
    rfl
  have hall : (Finset.univ : Finset (Fin vs.length)).val.map vs.get = vs := by
    rw [Fin.univ_val_map, List.ofFn_get]
  rw [hvalues]
  exact (Multiset.map_le_map (Finset.val_le_iff.mpr (Finset.subset_univ _))).trans_eq hall

theorem exists_stored_clear (s : UniformSample k Int64) :
    ∃ sources, Stored sources [] s.clear :=
  ⟨List.replicate k.toNat none, s.clear_eq_new ▸ stored_new⟩

end UniformSample

namespace ExpDecaySample

variable {w : Weights D P} {s t : ExpDecaySample P} {value : Int64}

theorem getSnapshot_values (s : ExpDecaySample P) :
    (s.getSnapshot.getValues : Multiset Int64) = s.values.values :=
  Multiset.coe_eq_coe.mpr s.getSnapshot_perm

theorem rescaleIfNeeded_values_le (w : Weights D P) (now : Int64) (s : ExpDecaySample P) :
    (s.rescaleIfNeeded w now).values.values ≤ s.values.values := by
  by_cases hlt : s.nextScaleTime < now
  · rw [rescaleIfNeeded_of_lt hlt, rescale]
    refine (OrderedMap.values_assignAll_le _).trans_eq ?_
    rw [List.map_map]
    exact zero_add _
  · rw [rescaleIfNeeded_of_not_lt hlt]

theorem offer_values_le {priority : P} (h : s.offer priority value = .ok t) :
    t.values.values ≤ value ::ₘ s.values.values := by
  rcases offer_eq_ok h with ⟨-, rfl⟩ | ⟨-, first, -, rfl⟩
  · exact OrderedMap.values_assign_le
  · dsimp only
    split_ifs
    · exact OrderedMap.values_erase_le.trans OrderedMap.values_assign_le
    · exact Multiset.le_cons_self _ _

theorem offer_size_pos {priority : P} (h : s.offer priority value = .ok t) :
    0 < t.values.size := by
  rcases offer_eq_ok h with ⟨-, rfl⟩ | ⟨-, first, hfirst, rfl⟩
  · exact OrderedMap.size_assign_pos
  · have hpos : 0 < s.values.size :=
      List.length_pos_of_mem (OrderedMap.begin?_eq_some hfirst).1
    dsimp only
    split_ifs with hput
    · rwa [size_replace_first hfirst hput.2]
    · exact hpos

theorem offer_size_le_count {priority : P} (h : s.offer priority value = .ok t)
    (hcount : s.count + 1 ≠ 0) (hsize : s.values.size ≤ min s.reservoirSize.toNat s.count.toNat) :
    t.values.size ≤ min s.reservoirSize.toNat t.count.toNat := by
  rw [offer_count h, toNat_add_one hcount]
  rcases offer_eq_ok h with ⟨hfill, rfl⟩ | ⟨hfull, first, hfirst, rfl⟩
  · have hassign : (s.values.assign priority value).size ≤ s.values.size + 1 :=
      OrderedMap.size_assign_le
    have hlt := (count_lt_of_fills hfill hcount).2
    dsimp only
    omega
  · dsimp only
    split_ifs with hput
    · rw [size_replace_first hfirst hput.2]
      omega
    · omega

structure Records (k : UInt32) (recorded : List Int64) (s : ExpDecaySample P) : Prop where
  slotted : Slotted k s
  values_le : s.values.values ≤ recorded
  held : recorded ≠ [] → 0 < s.values.size
  count_le : s.count.toNat ≤ recorded.length
  size_le : recorded.length < 2 ^ 64 → s.values.size ≤ min k.toNat s.count.toNat

theorem records_clear {now : Int64} (h : s.reservoirSize = k) : Records k [] (s.clear now) where
  slotted := Slotted.clear now h
  values_le := le_rfl
  held h := absurd rfl h
  count_le := le_rfl
  size_le _ := Nat.zero_le _

variable {recorded : List Int64}

theorem size_le_of_values_le (h : s.values.values ≤ recorded) :
    s.values.size ≤ recorded.length := by
  have hcard := Multiset.card_le_card h
  rwa [Multiset.coe_card, OrderedMap.values, Multiset.coe_card, List.length_map] at hcard

theorem Records.rescaleIfNeeded (h : Records k recorded s) (w : Weights D P) (now : Int64) :
    (s.rescaleIfNeeded w now).values.values ≤ recorded ∧
      (s.rescaleIfNeeded w now).count.toNat ≤ recorded.length ∧
      (recorded.length < 2 ^ 64 → (s.rescaleIfNeeded w now).values.size ≤
        min k.toNat (s.rescaleIfNeeded w now).count.toNat) := by
  have hvalues := (rescaleIfNeeded_values_le w now s).trans h.values_le
  refine ⟨hvalues, ?_⟩
  by_cases hlt : s.nextScaleTime < now
  · have hlen := size_le_of_values_le hvalues
    rw [rescaleIfNeeded_count_of_lt hlt]
    refine ⟨(UInt64.toNat_ofNat'.trans_le (Nat.mod_le _ _)).trans hlen, fun hfits => ?_⟩
    rw [UInt64.toNat_ofNat_of_lt' (hlen.trans_lt hfits)]
    have hsize := (rescaleIfNeeded_size_le w now s).trans (h.size_le hfits)
    exact le_min (hsize.trans (min_le_left _ _)) le_rfl
  · rw [rescaleIfNeeded_of_not_lt hlt]
    exact ⟨h.count_le, h.size_le⟩

theorem Records.update (h : Records k recorded s) {now : Int64} {draws : List D}
    (hok : s.update w value now draws = .ok t) : Records k (recorded ++ [value]) t := by
  have hstep := update_eq_ok.mp hok
  obtain ⟨priority, -, hoffer⟩ := step_update.mp hstep
  obtain ⟨hvalues, hcount, hsize⟩ := h.rescaleIfNeeded w now
  have hreservoir := (h.slotted.rescaleIfNeeded w now).reservoirSize
  generalize s.rescaleIfNeeded w now = s' at hoffer hvalues hcount hsize hreservoir
  have hcons : (↑(recorded ++ [value]) : Multiset Int64) = value ::ₘ ↑recorded :=
    Multiset.coe_eq_coe.mpr List.perm_append_comm
  have hlen : (recorded ++ [value]).length = recorded.length + 1 := List.length_append
  constructor
  case slotted => exact h.slotted.step hstep
  case values_le =>
    rw [hcons]
    exact (offer_values_le hoffer).trans (Multiset.cons_le_cons value hvalues)
  case held => exact fun _ => offer_size_pos hoffer
  case count_le =>
    rw [hlen, offer_count hoffer, UInt64.toNat_add, UInt64.toNat_one]
    exact (Nat.mod_le _ _).trans (Nat.succ_le_succ hcount)
  case size_le =>
    rw [hlen]
    intro hfits
    have hwrap : s'.count + 1 ≠ 0 := by
      intro hzero
      have hnext : (s'.count + 1).toNat = s'.count.toNat + 1 :=
        toNat_succ rfl ((Nat.succ_le_succ hcount).trans_lt hfits)
      rw [hzero] at hnext
      exact absurd hnext (Nat.succ_ne_zero _).symm
    rw [← hreservoir] at hsize ⊢
    exact offer_size_le_count hoffer hwrap (hsize ((Nat.lt_succ_self _).trans hfits))

end ExpDecaySample

def Sample.Records (recorded : List Int64) : Sample k P → Prop
  | .uniform s => recorded.length < 2 ^ 64 → ∃ sources, UniformSample.Stored sources recorded s
  | .biased s => ExpDecaySample.Records k recorded s

variable {recorded : List Int64} {sample sample' : Sample k P}

theorem Sample.records_clear (type : SampleType) (now : Int64) :
    Sample.Records [] ((Sample.new now type : Sample k P).clear now) := by
  cases type with
  | kUniform => exact fun _ => UniformSample.exists_stored_clear _
  | kBiased => exact ExpDecaySample.records_clear rfl

theorem Sample.Records.clear (h : sample.Records recorded) (now : Int64) :
    (sample.clear now).Records [] := by
  cases sample with
  | uniform s => exact fun _ => s.exists_stored_clear
  | biased s => exact ExpDecaySample.records_clear h.slotted.reservoirSize

theorem Sample.Records.update {w : Weights D P} {value : Int64} {e : Surroundings D}
    (h : sample.Records recorded) (hok : sample.update w value e = .ok sample') :
    sample'.Records (recorded ++ [value]) := by
  cases sample with
  | uniform s =>
    cases hok
    intro hlt
    rw [List.length_append, List.length_singleton] at hlt
    obtain ⟨sources, h⟩ := h ((Nat.lt_succ_self _).trans hlt)
    exact h.update hlt value e.uniform
  | biased s =>
    unfold Sample.update at hok
    dsimp only at hok
    cases hs : s.update w value e.now e.draws with
    | error fault =>
      rw [hs] at hok
      cases hok
    | ok t =>
      rw [hs] at hok
      cases hok
      exact ExpDecaySample.Records.update h hs

theorem Sample.Records.snapshot_le (h : sample.Records recorded) (hlt : recorded.length < 2 ^ 64) :
    (sample.getSnapshot.getValues : Multiset Int64) ≤ recorded := by
  cases sample with
  | uniform s =>
    obtain ⟨sources, h⟩ := h hlt
    exact h.snapshot_le
  | biased s => exact s.getSnapshot_values.trans_le h.values_le

theorem Sample.Records.snapshot_size (h : sample.Records recorded)
    (hlt : recorded.length < 2 ^ 64) :
    sample.getSnapshot.size ≤ k.toNat ∧
      (0 < k.toNat → recorded ≠ [] → 0 < sample.getSnapshot.size) := by
  cases sample with
  | uniform s =>
    obtain ⟨sources, h⟩ := h hlt
    show s.getSnapshot.size ≤ _ ∧ (_ → _ → 0 < s.getSnapshot.size)
    rw [h.snapshot_size]
    exact ⟨min_le_right _ _, fun hk hne => lt_min (List.length_pos_iff.mpr hne) hk⟩
  | biased s =>
    show s.getSnapshot.size ≤ _ ∧ (_ → _ → 0 < s.getSnapshot.size)
    rw [s.getSnapshot_size]
    exact ⟨(h.size_le hlt).trans (min_le_left _ _), fun _ hne => h.held hne⟩

/-! ### The statistics of a snapshot -/

namespace Snapshot

/-- Doubles hold every integer of this size. -/
def Exact (v : Int64) : Prop := v.toInt.natAbs ≤ 2 ^ 53

instance (v : Int64) : Decidable (Exact v) := inferInstanceAs (Decidable (_ ≤ _))

/-- All statistics that a reporter shows lie between the least value and the greatest, and the
percentiles are in order; the mean is one of them where its sum does not overflow. The least value
and the greatest are taken to doubles and back, and the arithmetic of the others is exact. -/
structure Statistics (s : Snapshot) (least greatest : Int64) : Prop where
  getMin : s.getMin Double.nearest = .ok least
  getMax : s.getMax Double.nearest = .ok greatest
  percentiles : ∃ median p75 p95 p98 p99 p999 : ℝ,
    s.getMedian = .ok (.finite median) ∧ s.get75thPercentile = .ok (.finite p75) ∧
    s.get95thPercentile = .ok (.finite p95) ∧ s.get98thPercentile = .ok (.finite p98) ∧
    s.get99thPercentile = .ok (.finite p99) ∧ s.get999thPercentile = .ok (.finite p999) ∧
    (least.toInt : ℝ) ≤ median ∧ median ≤ p75 ∧ p75 ≤ p95 ∧ p95 ≤ p98 ∧ p98 ≤ p99 ∧
    p99 ≤ p999 ∧ p999 ≤ (greatest.toInt : ℝ)
  mean : ∀ mean : ℝ, s.getMean = some mean →
    (least.toInt : ℝ) ≤ mean ∧ mean ≤ (greatest.toInt : ℝ)

variable {s : Snapshot} {least greatest : Int64}

theorem Statistics.of_monotone {f : ℝ → ℝ} (hmono : Monotone f)
    (hvalue : ∀ q, 0 ≤ q → q ≤ 1 → s.getValue (.finite q) = .ok (.finite (f q)))
    (hbounds : ∀ q, (least.toInt : ℝ) ≤ f q ∧ f q ≤ (greatest.toInt : ℝ))
    (hmin : s.getMin Double.nearest = .ok least) (hmax : s.getMax Double.nearest = .ok greatest)
    (hmean : ∀ mean : ℝ, s.getMean = some mean →
      (least.toInt : ℝ) ≤ mean ∧ mean ≤ (greatest.toInt : ℝ)) :
    Statistics s least greatest := by
  refine ⟨hmin, hmax, ⟨_, _, _, _, _, _, hvalue 0.5 ?_ ?_, hvalue 0.75 ?_ ?_, hvalue 0.95 ?_ ?_,
    hvalue 0.98 ?_ ?_, hvalue 0.99 ?_ ?_, hvalue 0.999 ?_ ?_, (hbounds _).1, hmono ?_, hmono ?_,
    hmono ?_, hmono ?_, hmono ?_, (hbounds _).2⟩, hmean⟩ <;> norm_num

theorem statistics_of_empty (h : s.values = []) : Statistics s 0 0 := by
  have hempty : s.values.isEmpty = true := List.isEmpty_iff.mpr h
  refine .of_monotone (f := fun _ => 0) monotone_const (fun q h0 h1 => ?_) (fun _ => ?_)
    (if_pos hempty) (if_pos hempty) fun mean hmean => ?_
  · rw [getValue, not_refused h0 h1, if_neg Bool.false_ne_true, if_pos hempty]
  · simp
  · rw [getMean, if_pos hempty, Option.some.injEq] at hmean
    simp [← hmean]

theorem exists_statistics (h : s.values ≠ []) (hexact : ∀ v ∈ s.values, Exact v) :
    ∃ least ∈ s.values, ∃ greatest ∈ s.values, Statistics s least greatest := by
  have hround : ∀ v ∈ s.values, Double.nearest v.toInt = v.toInt :=
    fun v hv => Double.nearest_of_le (hexact v hv)
  obtain ⟨least, hmin, hhead, hleast⟩ := exists_getMin h hround
  obtain ⟨greatest, hmax, hlast, hgreatest⟩ := exists_getMax h hround
  refine ⟨least, List.mem_of_mem_head? hhead, greatest, List.mem_of_getLast? hlast, ?_⟩
  refine .of_monotone s.quantileValue_mono (fun q h0 h1 => getValue_eq h h0 h1) (fun q => ?_)
    hmin hmax fun mean hmean => ?_
  · rw [hleast, hgreatest]
    exact s.quantileValue_bounds q
  · have hreals : (reals s.values : List ℝ) ≠ [] := mt List.map_eq_nil_iff.mp h
    rw [getMean_eq (fits_of_getMean hmean), Option.some.injEq] at hmean
    rw [← hmean, hleast, hgreatest]
    exact ⟨Moments.le_mean hreals fun x hx => (mem_bounds hx).1,
      Moments.mean_le hreals fun x hx => (mem_bounds hx).2⟩

/-- What a snapshot with `k` slots shows of the values that were recorded. -/
structure Shows (k : UInt32) (recorded : List Int64) (s : Snapshot) : Prop where
  values : (s.getValues : Multiset Int64) ≤ recorded
  size : s.size ≤ k.toNat
  statistics : (∀ v ∈ recorded, Exact v) → ∃ least greatest, s.Statistics least greatest ∧
    (recorded ≠ [] → least ∈ recorded ∧ greatest ∈ recorded) ∧
    (recorded = [] → least = 0 ∧ greatest = 0)

theorem Shows.of_le (hle : (s.getValues : Multiset Int64) ≤ recorded) (hsize : s.size ≤ k.toNat)
    (hpos : recorded ≠ [] → 0 < s.size) : s.Shows k recorded := by
  have hmem : ∀ v ∈ s.values, v ∈ recorded := fun v hv =>
    Multiset.mem_coe.mp (Multiset.mem_of_le hle (Multiset.mem_coe.mpr hv))
  refine ⟨hle, hsize, fun hexact => ?_⟩
  rcases eq_or_ne recorded [] with rfl | hne
  · have hnone : s.values = [] := List.eq_nil_iff_forall_not_mem.mpr fun v hv =>
      absurd (hmem v hv) List.not_mem_nil
    exact ⟨0, 0, statistics_of_empty hnone, fun h => absurd rfl h, fun _ => ⟨rfl, rfl⟩⟩
  · have hsome : s.values ≠ [] := List.length_pos_iff.mp (hpos hne)
    obtain ⟨least, hleast, greatest, hgreatest, hstatistics⟩  :=
      exists_statistics hsome fun v hv => hexact v (hmem v hv)
    exact ⟨least, greatest, hstatistics, fun _ => ⟨hmem _ hleast, hmem _ hgreatest⟩,
      fun h => absurd h hne⟩

end Snapshot

theorem ExpDecaySample.Records.shows {s : ExpDecaySample P} (h : Records k recorded s)
    (hlt : recorded.length < 2 ^ 64) : s.getSnapshot.Shows k recorded := by
  refine .of_le (s.getSnapshot_values.trans_le h.values_le) ?_ ?_
  · rw [s.getSnapshot_size]
    exact (h.size_le hlt).trans (min_le_left _ _)
  · rw [s.getSnapshot_size]
    exact h.held

/-! ### Whole runs -/

namespace Histogram

inductive Call (D : Type*)
  | update (value : Int64) (e : Surroundings D)
  | clear (now : Int64)

def perform (w : Weights D P) (h : Histogram k P) :
    Call D → Except ExpDecaySample.Fault (Histogram k P)
  | .update value e => h.update w value e
  | .clear now => .ok (h.clear now)

def step (w : Weights D P) (h : Histogram k P) (c : Call D) : Option (Histogram k P) :=
  (perform w h c).toOption

def note (recorded : List Int64) (_ : Histogram k P) : Call D → List Int64
  | .update value _ => recorded ++ [value]
  | .clear _ => []

structure Shows (recorded : List Int64) (h : Histogram k P) : Prop where
  count : h.getCount.toNat = recorded.length
  snapshot : h.getSnapshot.Shows k recorded

/-- The count and the sample have seen the same updates. -/
structure Records (recorded : List Int64) (h : Histogram k P) : Prop where
  count : h.count.toNat = recorded.length % 2 ^ 64
  sample : h.sample.Records recorded

variable {w : Weights D P} {h h' : Histogram k P} {c : Call D}

theorem update_eq_ok {value : Int64} {e : Surroundings D} (hok : h.update w value e = .ok h') :
    h'.count = h.count + 1 ∧ h.sample.update w value e = .ok h'.sample := by
  refine ⟨update_count hok, ?_⟩
  unfold update at hok
  cases hsample : h.sample.update w value e with
  | error fault =>
    rw [hsample] at hok
    cases hok
  | ok sample =>
    rw [hsample] at hok
    cases hok
    rfl

theorem Records.step (hr : Records recorded h) (hstep : step w h c = some h') :
    Records (note recorded h c) h' := by
  cases c with
  | clear now =>
    cases hstep
    exact ⟨rfl, hr.sample.clear now⟩
  | update value e =>
    have hok : h.update w value e = .ok h' := by
      unfold Histogram.step perform at hstep
      dsimp only at hstep
      cases hupdate : h.update w value e with
      | error fault =>
        rw [hupdate] at hstep
        cases hstep
      | ok h'' =>
        rw [hupdate] at hstep
        exact congrArg Except.ok (Option.some.inj hstep)
    obtain ⟨hcount, hsample⟩ := update_eq_ok hok
    refine ⟨?_, hr.sample.update hsample⟩
    have hlen : (recorded ++ [value]).length = recorded.length + 1 := List.length_append
    rw [note, hlen, hcount, UInt64.toNat_add, hr.count, UInt64.toNat_one, Nat.mod_add_mod]

theorem Records.shows (hr : Records recorded h) (hk : 0 < k.toNat)
    (hlt : recorded.length < 2 ^ 64) : Shows recorded h where
  count := hr.count.trans (Nat.mod_eq_of_lt hlt)
  snapshot := by
    obtain ⟨hsize, hpos⟩ := hr.sample.snapshot_size hlt
    exact .of_le (hr.sample.snapshot_le hlt) hsize (hpos hk)

/-- After any updates and clears, whatever the random draws and the times, the count is that of the
updates since the last `clear`, the snapshot holds some of their values, each at most as often as it
was recorded, and no statistic leaves the range of these values as long as doubles hold them. -/
theorem shows_recorded (w : Weights D P) (hk : 0 < k.toNat) (type : SampleType) (now : Int64)
    (count : UInt64) (cs : List (Call D)) :
    Machine.Always (Machine.observe (step w) note)
      (fun x : List Int64 × Histogram k P => x.1.length < 2 ^ 64 → Shows x.1 x.2)
      ([], new type now count) cs := by
  have hrecords : Machine.Always (Machine.observe (step w) note)
      (fun x : List Int64 × Histogram k P => Records x.1 x.2) ([], new type now count) cs := by
    refine Machine.always_observe_of_invariant
      (P := fun (recorded : List Int64) (h : Histogram k P) => Records recorded h) ?_ ?_ cs
    · exact fun hr hstep => hr.step hstep
    · exact ⟨rfl, Sample.records_clear type now⟩
  exact hrecords.imp fun x hx hlt => hx.shows hk hlt

noncomputable def clearedBetween : List (Call ℝ) :=
  [.update 7 ⟨0, [0.5], UniformSample.drawn 0⟩, .update 3 ⟨1, [0.25], UniformSample.drawn 0⟩,
    .clear 2, .update 5 ⟨3, [0.5], UniformSample.drawn 0⟩]

theorem shows_recorded_clearedBetween :
    Machine.Always (Machine.observe (step Weights.source) note)
      (fun x : List Int64 × Histogram 1028 (WithTop ℝ) => x.1.length < 2 ^ 64 → Shows x.1 x.2)
      ([], new .kBiased 0 0) clearedBetween :=
  shows_recorded Weights.source (by decide) .kBiased 0 0 clearedBetween

end Histogram

end CppMetrics
