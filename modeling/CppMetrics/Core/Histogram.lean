import CppMetrics.Core.ExpDecaySample
import CppMetrics.Core.UniformThreads

/-! The histogram: a count, and a sample of one of the two types. -/

namespace CppMetrics

inductive SampleType
  | kUniform
  | kBiased

inductive Sample (k : UInt32) (P : Type*) [Less P]
  | uniform (s : UniformSample k Int64)
  | biased (s : ExpDecaySample P)

structure Surroundings (D : Type*) where
  now : Int64
  draws : List D
  uniform : Uniform

variable {k : UInt32} {D P : Type*} [Less P]

namespace Sample

def new (now : Int64) : SampleType → Sample k P
  | .kUniform => .uniform .new
  | .kBiased => .biased (.new k now)

def clear (now : Int64) : Sample k P → Sample k P
  | .uniform s => .uniform s.clear
  | .biased s => .biased (s.clear now)

def update (w : Weights D P) (value : Int64) (e : Surroundings D) :
    Sample k P → Except ExpDecaySample.Fault (Sample k P)
  | .uniform s => .ok (.uniform (s.update e.uniform value))
  | .biased s => (s.update w value e.now e.draws).map .biased

def getSnapshot : Sample k P → Snapshot
  | .uniform s => s.getSnapshot
  | .biased s => s.getSnapshot

end Sample

structure Histogram (k : UInt32) (P : Type*) [Less P] where
  count : UInt64
  sample : Sample k P

namespace Histogram

def clear (now : Int64) (h : Histogram k P) : Histogram k P := ⟨0, h.sample.clear now⟩

/-- What `count_` holds before the constructor calls `clear` is arbitrary. -/
def new (type : SampleType) (now : Int64) (count : UInt64) : Histogram k P :=
  clear now ⟨count, .new now type⟩

def getCount (h : Histogram k P) : UInt64 := h.count

def getSnapshot (h : Histogram k P) : Snapshot := h.sample.getSnapshot

def update (w : Weights D P) (value : Int64) (e : Surroundings D) (h : Histogram k P) :
    Except ExpDecaySample.Fault (Histogram k P) :=
  let count := h.count + 1
  (h.sample.update w value e).map (Histogram.mk count)

theorem update_count {w : Weights D P} {value : Int64} {e : Surroundings D} {h h' : Histogram k P}
    (hok : h.update w value e = .ok h') : h'.count = h.count + 1 := by
  unfold update at hok
  cases hsample : h.sample.update w value e with
  | error fault =>
    rw [hsample] at hok
    cases hok
  | ok sample =>
    rw [hsample] at hok
    cases hok
    rfl

end Histogram

/-! ### The size of a snapshot -/

theorem UniformSample.getSnapshot_size (s : UniformSample k Int64) :
    s.getSnapshot.size = min s.count.toNat k.toNat := by
  have hsize : s.size.toNat = min s.count.toNat k.toNat := by
    unfold UniformSample.size
    rw [← k.toNat_toUInt64]
    exact (apply_ite UInt64.toNat _ _ _).trans rfl
  rw [UniformSample.getSnapshot, Snapshot.size_new, List.length_take, Vector.length_toList, hsize]
  omega

namespace ExpDecaySample

variable {w : Weights D P} {s t : ExpDecaySample P}

theorem offer_size_le {priority : P} {value : Int64} (h : s.offer priority value = .ok t) :
    t.values.size ≤ s.values.size + 1 := by
  rcases offer_eq_ok h with ⟨-, rfl⟩ | ⟨-, first, hfirst, rfl⟩
  · exact OrderedMap.size_assign_le
  · dsimp only
    split_ifs with hput
    · rw [size_replace_first hfirst hput.2]
      exact Nat.le_succ _
    · exact Nat.le_succ _

theorem update_eq_ok {value : Int64} {timestamp : Int64} {draws : List D} :
    s.update w value timestamp draws = .ok t ↔
      step w s (.update value timestamp draws) = some t := by
  unfold step perform
  dsimp only
  cases s.update w value timestamp draws with
  | error fault => exact ⟨nofun, nofun⟩
  | ok u => rw [Except.ok.injEq, Except.toOption, Option.some.injEq]

theorem update_size_le {value : Int64} {timestamp : Int64} {draws : List D}
    (h : s.update w value timestamp draws = .ok t) :
    t.getSnapshot.size ≤ s.getSnapshot.size + 1 := by
  obtain ⟨priority, -, hok⟩ := step_update.mp (update_eq_ok.mp h)
  have hrescale := rescaleIfNeeded_size_le w timestamp s
  rw [getSnapshot_size, getSnapshot_size]
  exact (offer_size_le hok).trans (Nat.succ_le_succ hrescale)

theorem update_new (hk : 0 < k.toNat) {now : Int64} (hnow : ¬now + RESCALE_THRESHOLD < now)
    {draws : List D} {priority : P}
    (hdraw : drawPriority w (toSeconds (now - now)) draws = some priority) (value : Int64) :
    ∃ t, (new k now).update w value now draws = .ok t ∧ t.getSnapshot.size = 1 := by
  have hfill : (new k now : ExpDecaySample P).Fills := by
    show 0 + 1 ≤ k.toUInt64
    rw [le_toUInt64_iff]
    exact hk
  refine ⟨_, update_eq_ok.mpr (step_update_fill hnow hdraw hfill), ?_⟩
  rw [getSnapshot_size]
  exact OrderedMap.size_assign_of_fresh nofun

theorem clear_getSnapshot_size (now : Int64) (s : ExpDecaySample P) :
    (s.clear now).getSnapshot.size = 0 := by
  rw [getSnapshot_size]
  rfl

end ExpDecaySample

theorem Sample.clear_getSnapshot_size (now : Int64) (s : Sample k P) :
    (s.clear now).getSnapshot.size = 0 := by
  cases s with
  | uniform s =>
    refine s.clear.getSnapshot_size.trans ?_
    exact Nat.zero_min _
  | biased s => exact s.clear_getSnapshot_size now

end CppMetrics
