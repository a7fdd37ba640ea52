import CppMetrics.Core.ExpDecaySample
import CppMetrics.Lib.Machine

/-! The branch that evicts. It is taken once the count is past the reservoir size, and asks the map
for its first entry. Keys may collide in any way here: nothing is assumed of the arithmetic. -/

namespace CppMetrics.ExpDecaySample

variable {D P : Type*} [Less P] {w : Weights D P} {s t : ExpDecaySample P}
  {priority : P} {value : Int64} {timestamp : Int64} {draws : List D}

/-- The map has a first entry, which is the least one, and a sample that is inserted takes the place
of this entry. -/
structure Evicts (s : ExpDecaySample P) (priority : P) (value : Int64) (first : P × Int64) :
    Prop where
  begins : s.values.begin? = some first
  least : ∀ kv ∈ s.values.entries, kv = first ∨ less first.1 kv.1
  erased : less first.1 priority → (s.values.insert priority value).2 = true →
    ∃ t, s.offer priority value = .ok t ∧ ∀ kv, kv ∈ t.values.entries ↔
      kv = (priority, value) ∨ kv ∈ s.values.entries ∧ kv ≠ first

/-- An update that has drawn its priority, and evicts if the sample is full. -/
def EvictsSafely (w : Weights D P) (s : ExpDecaySample P) : Call D → Prop
  | .update value timestamp draws =>
    ∀ priority, drawPriority w
        (toSeconds (timestamp - (s.rescaleIfNeeded w timestamp).startTime)) draws =
          some priority →
      s.reservoirSize.toUInt64 < (s.rescaleIfNeeded w timestamp).count + 1 →
        ∃ first, Evicts (s.rescaleIfNeeded w timestamp) priority value first
  | .clear _ => True

def Draws (w : Weights D P) (s : ExpDecaySample P) : Call D → Prop
  | .update _ timestamp draws => drawPriority w
      (toSeconds (timestamp - (s.rescaleIfNeeded w timestamp).startTime)) draws ≠ none
  | .clear _ => False

theorem fresh_of_insert (h : (s.values.insert priority value).2 = true) :
    s.values.Fresh priority := by
  by_contra hsame
  rw [OrderedMap.insert_of_not_fresh hsame] at h
  exact Bool.false_ne_true h

theorem evicts_of_begin? {first : P × Int64} (hfirst : s.values.begin? = some first)
    (hfull : ¬s.Fills) (priority : P) (value : Int64) :
    Evicts s priority value first := by
  obtain ⟨hmem, hleast⟩ := OrderedMap.begin?_eq_some hfirst
  refine ⟨hfirst, hleast, fun hlt hinsert => ⟨_, offer_full hfull hfirst, fun kv => ?_⟩⟩
  have hfresh := fresh_of_insert hinsert
  dsimp only
  rw [if_pos ⟨hlt, hfresh⟩, OrderedMap.mem_erase, (OrderedMap.assign_perm hfresh).mem_iff,
    List.mem_cons]
  constructor
  · rintro ⟨rfl | hkv, hother⟩
    · exact Or.inl rfl
    · refine Or.inr ⟨hkv, ?_⟩
      rintro rfl
      simp only [Less.irrefl, Bool.false_eq_true, or_self] at hother
  · rintro (rfl | ⟨hkv, hne⟩)
    · exact ⟨Or.inl rfl, Or.inr hlt⟩
    · exact ⟨Or.inr hkv, Or.inr ((hleast kv hkv).resolve_left hne)⟩

/-! ### The invariant -/

/-- A sample that counts something holds something, and one without slots holds nothing. -/
structure Slotted (k : UInt32) (s : ExpDecaySample P) : Prop where
  reservoirSize : s.reservoirSize = k
  stocked : s.Stocked
  empty : k.toNat = 0 → s.values.size = 0 ∧ s.count = 0

theorem Slotted.clear {k : UInt32} (now : Int64) (hsize : s.reservoirSize = k) :
    Slotted k (s.clear now) where
  reservoirSize := hsize
  stocked hcount := absurd rfl hcount
  empty _ := ⟨rfl, rfl⟩

theorem Slotted.rescaleIfNeeded {k : UInt32} (h : Slotted k s) (w : Weights D P)
    (timestamp : Int64) : Slotted k (s.rescaleIfNeeded w timestamp) where
  reservoirSize := (rescaleIfNeeded_reservoirSize w timestamp s).trans h.reservoirSize
  stocked := h.stocked.rescaleIfNeeded w timestamp
  empty hk := by
    have hsize : (s.rescaleIfNeeded w timestamp).values.size = 0 :=
      Nat.le_zero.mp ((rescaleIfNeeded_size_le w timestamp s).trans_eq (h.empty hk).1)
    refine ⟨hsize, ?_⟩
    by_cases hlt : s.nextScaleTime < timestamp
    · rw [rescaleIfNeeded_count_of_lt hlt, hsize]
      rfl
    · rw [rescaleIfNeeded_of_not_lt hlt]
      exact (h.empty hk).2

theorem Slotted.not_fills {k : UInt32} (h : Slotted k s) (hk : k.toNat = 0) : ¬s.Fills := by
  rw [Fills, (h.empty hk).2, le_toUInt64_iff, h.reservoirSize, hk]
  decide

theorem Slotted.not_evicts {k : UInt32} (h : Slotted k s) (hk : k.toNat = 0) (first : P × Int64) :
    ¬Evicts s priority value first := by
  intro he
  have hnone := OrderedMap.begin?_eq_none_iff.mpr (h.empty hk).1
  rw [he.begins] at hnone
  exact nomatch hnone

theorem Slotted.step {k : UInt32} {c : Call D} (h : Slotted k s) (hstep : step w s c = some t) :
    Slotted k t := by
  rcases Nat.eq_zero_or_pos k.toNat with hk | hk
  · cases c with
    | clear now =>
      rw [step_clear.mp hstep]
      exact Slotted.clear now h.reservoirSize
    | update value timestamp draws =>
      obtain ⟨priority, -, hok⟩ := step_update.mp hstep
      have hs := h.rescaleIfNeeded w timestamp
      rcases offer_eq_ok hok with ⟨hfill, -⟩ | ⟨hfull, first, hfirst, -⟩
      · exact absurd hfill (hs.not_fills hk)
      · exact absurd (evicts_of_begin? hfirst hfull priority value) (hs.not_evicts hk first)
  · obtain ⟨hsize, hstocked⟩ := h.stocked.step (h.reservoirSize ▸ hk) hstep
    exact ⟨hsize.trans h.reservoirSize, hstocked, fun hzero => absurd hzero hk.ne'⟩

theorem Slotted.evictsSafely_iff {k : UInt32} (h : Slotted k s) (c : Call D) :
    EvictsSafely w s c ↔ (Draws w s c → 0 < k.toNat) := by
  cases c with
  | clear now => exact iff_of_true trivial fun hdraws => hdraws.elim
  | update value timestamp draws =>
    have hs := h.rescaleIfNeeded w timestamp
    have hfull_iff : s.reservoirSize.toUInt64 < (s.rescaleIfNeeded w timestamp).count + 1 ↔
        ¬(s.rescaleIfNeeded w timestamp).Fills := by
      rw [Fills, rescaleIfNeeded_reservoirSize, UInt64.not_le]
    constructor
    · intro hsafe hdraws
      obtain ⟨priority, hpriority⟩ := Option.ne_none_iff_exists'.mp hdraws
      rcases Nat.eq_zero_or_pos k.toNat with hk | hk
      · obtain ⟨first, hfirst⟩ := hsafe priority hpriority (hfull_iff.mpr (hs.not_fills hk))
        exact absurd hfirst (hs.not_evicts hk first)
      · exact hk
    · intro hpos priority hpriority hfull
      have hk : 0 < k.toNat := hpos (Option.ne_none_iff_exists'.mpr ⟨priority, hpriority⟩)
      have hfull := hfull_iff.mp hfull
      obtain ⟨first, hfirst⟩ := hs.stocked.exists_begin? (hs.reservoirSize ▸ hk) hfull
      exact ⟨first, evicts_of_begin? hfirst hfull priority value⟩

/-- In every run, whatever the arithmetic, every eviction is safe if and only if no update has its
priority drawn for a sample without slots. -/
theorem evicts_safely_iff (w : Weights D P) (k : UInt32) (now : Int64) (cs : List (Call D)) :
    Machine.Along (step w) (EvictsSafely w) (new k now) cs ↔
      Machine.Along (step w) (fun s c => Draws w s c → 0 < s.reservoirSize.toNat) (new k now)
        cs := by
  have hnew : Slotted k (new k now : ExpDecaySample P) := Slotted.clear now rfl
  have hslotted : Machine.Always (step w) (Slotted k) (new k now) cs :=
    Machine.always_of_invariant (fun h hstep => h.step hstep) hnew cs
  refine Machine.along_congr hslotted fun s c hs => ?_
  rw [hs.evictsSafely_iff c, hs.reservoirSize]

theorem evicts_from_empty :
    ¬Machine.Along (step Weights.source) (EvictsSafely Weights.source) (new 0 0)
      [.update 7 0 [1 / 2]] := by
  rintro ⟨hsafe, -⟩
  have hnew : Slotted 0 (new 0 0 : ExpDecaySample (WithTop ℝ)) := Slotted.clear 0 rfl
  have hpos := hnew.evictsSafely_iff (.update 7 0 [1 / 2]) |>.mp hsafe (Option.some_ne_none _)
  exact absurd hpos (by decide)

end CppMetrics.ExpDecaySample
