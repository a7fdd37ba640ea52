import Mathlib.Logic.Embedding.Basic
import CppMetrics.Core.UniformThreads

/-! The uniform sample over whole runs of one thread, which clear and refill it. Every slot that is
counted holds the value of an update since the last `clear`, and no update has two slots. -/

namespace CppMetrics.UniformSample

open Sourced

variable {k : UInt32}

inductive Call
  | update (value : Int64) (uniform : Uniform)
  | clear

def perform (s : UniformSample k Int64) : Call → UniformSample k Int64
  | .update value uniform => s.update uniform value
  | .clear => s.clear

def performAll (cs : List Call) (s : UniformSample k Int64) : UniformSample k Int64 :=
  cs.foldl perform s

def note (vs : List Int64) : Call → List Int64
  | .update value _ => vs ++ [value]
  | .clear => []

def recorded (cs : List Call) : List Int64 := cs.foldl note []

variable {uniform : Uniform} {count d : UInt64} {n : ℕ}

theorem written_lt (hcount : count.toNat = n + 1) (h : written k uniform count = some d) :
    d.toNat < k.toNat ∧ ∀ i < min (n + 1) k.toNat, i = d.toNat ∨ i < min n k.toNat := by
  simp only [written] at h
  split_ifs at h with hfill hslot
  · have hone : (1 : UInt64) ≤ count := by
      rw [UInt64.le_iff_toNat_le, hcount]
      exact Nat.le_add_left 1 n
    have hd : d.toNat = n := by
      rw [← Option.some.inj h, UInt64.toNat_sub_of_le _ _ hone, hcount]
      rfl
    rw [le_toUInt64_iff, hcount] at hfill
    refine ⟨hd ▸ hfill, fun i hi => ?_⟩
    rw [hd]
    omega
  · rw [le_toUInt64_iff, hcount] at hfill
    rw [Option.some.inj h, lt_toUInt64_iff] at hslot
    exact ⟨hslot, fun i hi => Or.inr (by omega)⟩

theorem le_of_not_written (hcount : count.toNat = n + 1) (h : written k uniform count = none) :
    k.toNat ≤ n := by
  simp only [written] at h
  split_ifs at h with hfill
  rw [le_toUInt64_iff, hcount] at hfill
  exact Nat.le_of_not_lt hfill

/-! ### The invariant -/

/-- The slots of `s` hold the values of their sources, and those that are counted have one. -/
structure Stored (sources : List (Option ℕ)) (vs : List Int64) (s : UniformSample k Int64) :
    Prop where
  count : s.count.toNat = vs.length
  values : s.values.toList = sources.map (valueOf 0 vs)
  distinct : Distinct sources
  lt : ∀ c, some c ∈ sources → c < vs.length
  filled : ∀ i < min vs.length k.toNat, ∃ c, sources[i]? = some (some c)

variable {sources : List (Option ℕ)} {vs : List Int64} {s : UniformSample k Int64}

theorem stored_new : Stored (List.replicate k.toNat none) [] (new : UniformSample k Int64) where
  count := rfl
  values := by
    rw [List.map_replicate]
    exact Vector.toList_replicate
  distinct := distinct_replicate_none _
  lt c hc := nomatch (List.mem_replicate.mp hc).2
  filled i hi := absurd hi (by simp)

theorem Stored.values_append (h : Stored sources vs s) (value : Int64) :
    s.values.toList = sources.map (valueOf 0 (vs ++ [value])) := by
  rw [h.values]
  apply List.map_congr_left
  intro o ho
  exact (valueOf_append (fun c hc => h.lt c (hc ▸ ho)) _).symm

theorem Stored.length_sources (h : Stored sources vs s) : sources.length = k.toNat := by
  have hlen := congrArg List.length h.values
  rw [Vector.length_toList, List.length_map] at hlen
  exact hlen.symm

theorem Stored.write (h : Stored sources vs s) (hcount : count.toNat = vs.length + 1)
    (hw : written k uniform count = some d) (value : Int64) :
    Stored (sources.set d.toNat (some vs.length)) (vs ++ [value])
      ⟨count, s.values.setIfInBounds d.toNat value⟩ := by
  obtain ⟨hd, hcover⟩ := written_lt hcount hw
  have hfresh : some vs.length ∉ sources := fun hmem => lt_irrefl _ (h.lt _ hmem)
  have hlen : (vs ++ [value]).length = vs.length + 1 := List.length_append
  constructor
  case count =>
    rw [hlen]
    exact hcount
  case values =>
    have hvalue : valueOf 0 (vs ++ [value]) (some vs.length) = value := by
      rw [valueOf, List.getD_eq_getElem?_getD, List.getElem?_concat_length, Option.getD_some]
    show (s.values.setIfInBounds d.toNat value).toList = _
    rw [Vector.toList_setIfInBounds, h.values_append value, List.map_set, hvalue]
  case distinct => exact h.distinct.set hfresh _
  case lt =>
    intro c hc
    rw [hlen]
    rcases List.mem_or_eq_of_mem_set hc with hold | hnew
    · exact (h.lt c hold).trans (Nat.lt_succ_self _)
    · exact (Option.some.inj hnew).trans_lt (Nat.lt_succ_self _)
  case filled =>
    intro i hi
    rw [hlen] at hi
    by_cases hid : i = d.toNat
    · refine ⟨vs.length, ?_⟩
      rw [hid, List.getElem?_set_self (h.length_sources ▸ hd)]
    · obtain ⟨c, hc⟩ := h.filled i ((hcover i hi).resolve_left hid)
      exact ⟨c, (List.getElem?_set_ne (Ne.symm hid)).trans hc⟩

theorem Stored.skip (h : Stored sources vs s) (hcount : count.toNat = vs.length + 1)
    (hw : written k uniform count = none) (value : Int64) :
    Stored sources (vs ++ [value]) ⟨count, s.values⟩ := by
  have hfull := le_of_not_written hcount hw
  have hlen : (vs ++ [value]).length = vs.length + 1 := List.length_append
  constructor
  case count =>
    rw [hlen]
    exact hcount
  case values => exact h.values_append value
  case distinct => exact h.distinct
  case lt =>
    intro c hc
    rw [hlen]
    exact (h.lt c hc).trans (Nat.lt_succ_self _)
  case filled =>
    intro i hi
    exact h.filled i (lt_min ((lt_min_iff.mp hi).2.trans_le hfull) (lt_min_iff.mp hi).2)

theorem Stored.update (h : Stored sources vs s) (hlt : vs.length + 1 < 2 ^ 64) (value : Int64)
    (uniform : Uniform) :
    ∃ sources', Stored sources' (vs ++ [value]) (s.update uniform value) := by
  have hcount : (s.count + 1).toNat = vs.length + 1 := toNat_succ h.count hlt
  unfold UniformSample.update
  dsimp only
  cases hw : written k uniform (s.count + 1) with
  | none =>
    rw [store, hw]
    exact ⟨_, h.skip hcount hw value⟩
  | some d =>
    rw [store, hw]
    exact ⟨_, h.write hcount hw value⟩

theorem exists_stored (cs : List Call) (hlt : (recorded cs).length < 2 ^ 64) :
    ∃ sources, Stored sources (recorded cs) ((new : UniformSample k Int64).performAll cs) := by
  induction cs using List.reverseRecOn with
  | nil => exact ⟨_, stored_new⟩
  | append_singleton cs c ih =>
    have hstate : (new : UniformSample k Int64).performAll (cs ++ [c]) =
        (new.performAll cs).perform c := List.foldl_concat _ _ _ _
    have hrecorded : recorded (cs ++ [c]) = note (recorded cs) c := List.foldl_concat _ _ _ _
    rw [hrecorded] at hlt
    rw [hstate, hrecorded]
    cases c with
    | update value uniform =>
      have hlen : (note (recorded cs) (.update value uniform)).length = (recorded cs).length + 1 :=
        List.length_append
      rw [hlen] at hlt
      obtain ⟨sources, h⟩ := ih ((Nat.lt_succ_self _).trans hlt)
      exact h.update hlt value uniform
    | clear =>
      refine ⟨List.replicate k.toNat none, ?_⟩
      show Stored _ [] (new.performAll cs).clear
      rw [clear_eq_new]
      exact stored_new

/-! ### What a run leaves -/

theorem Stored.size (h : Stored sources vs s) : s.size.toNat = min vs.length k.toNat := by
  have hle : s.count ≤ k.toUInt64 ↔ vs.length ≤ k.toNat := by
    rw [le_toUInt64_iff, h.count]
  show (if s.count ≤ k.toUInt64 then s.count else k.toUInt64).toNat = _
  split
  next hfill => rw [h.count, min_eq_left (hle.mp hfill)]
  next hfull => rw [UInt32.toNat_toUInt64, min_eq_right (not_le.mp (mt hle.mpr hfull)).le]

theorem Stored.snapshot_size (h : Stored sources vs s) :
    s.getSnapshot.size = min vs.length k.toNat := by
  rw [getSnapshot, Snapshot.size_new, List.length_take, Vector.length_toList, h.size]
  exact min_eq_left (min_le_right _ _)

theorem Stored.exists_embedding (h : Stored sources vs s) :
    ∃ source : Fin (min vs.length k.toNat) ↪ Fin vs.length,
      ∀ i, s.values.get (Fin.castLE (min_le_right _ _) i) = vs.get (source i) := by
  choose c hc using fun i : Fin (min vs.length k.toNat) => h.filled i i.isLt
  have hlt : ∀ i, c i < vs.length := fun i => h.lt _ (List.mem_of_getElem? (hc i))
  have hinj : Function.Injective fun i => (⟨c i, hlt i⟩ : Fin vs.length) := by
    intro i j hij
    have heq : c i = c j := congrArg Fin.val hij
    exact Fin.ext (h.distinct.eq_of_getElem? (hc i) (heq ▸ hc j))
  refine ⟨⟨_, hinj⟩, fun i => ?_⟩
  have hslot : s.values.toList[(i : ℕ)]? = some (vs.getD (c i) 0) := by
    rw [h.values, List.getElem?_map, hc i]
    rfl
  rw [List.getD_eq_getElem _ _ (hlt i)] at hslot
  exact (List.getElem?_eq_some_iff.mp hslot).2

theorem Stored.snapshot_perm (h : Stored sources vs s) (hle : vs.length ≤ k.toNat) :
    s.getSnapshot.getValues.Perm vs := by
  have hsize := h.size
  rw [min_eq_left hle] at hsize
  have hlt : ∀ c, some c ∈ sources.take vs.length → c < vs.length :=
    fun c hc => h.lt c (List.mem_of_mem_take hc)
  have hnone : (sources.take vs.length).count none = 0 := by
    rw [List.count_eq_zero]
    intro hmem
    obtain ⟨i, hi, hnone⟩ := List.mem_iff_getElem.mp hmem
    have hin : i < vs.length := hi.trans_le (List.length_take_le _ _)
    obtain ⟨c, hc⟩ := h.filled i (lt_min hin (hin.trans_le hle))
    rw [List.getElem_take] at hnone
    obtain ⟨_, hsome⟩ := List.getElem?_eq_some_iff.mp hc
    rw [hnone] at hsome
    exact nomatch hsome
  have hsub := (subperm_iff (z := 0) (h.distinct.take vs.length) hlt).mpr (hnone ▸ Nat.zero_le _)
  have hlen : vs.length ≤ ((sources.take vs.length).map (valueOf 0 vs)).length := by
    rw [List.length_map, List.length_take, h.length_sources]
    exact le_min le_rfl hle
  have hperm := hsub.perm_of_length_le hlen
  rw [getSnapshot, hsize, h.values, ← List.map_take]
  exact (Snapshot.getValues_new_perm _).trans hperm

/-- What the slots of a sample are after the updates `vs`. -/
structure Holds (s : UniformSample k Int64) (vs : List Int64) : Prop where
  size : s.size.toNat = min vs.length k.toNat
  snapshotSize : s.getSnapshot.size = min vs.length k.toNat
  inside : ∀ uniform d, written k uniform (s.count + 1) = some d → d.toNat < k.toNat
  sources : ∃ source : Fin (min vs.length k.toNat) ↪ Fin vs.length,
    ∀ i, s.values.get (Fin.castLE (min_le_right _ _) i) = vs.get (source i)
  sorted : s.getSnapshot.getValues.Pairwise (· ≤ ·)
  snapshot : vs.length ≤ k.toNat → s.getSnapshot.getValues.Perm vs

theorem slots_hold_recorded (k : UInt32) (cs : List Call) (hlt : (recorded cs).length < 2 ^ 31) :
    Holds ((new : UniformSample k Int64).performAll cs) (recorded cs) := by
  obtain ⟨sources, h⟩ := exists_stored (k := k) cs (hlt.trans (by decide))
  constructor
  case size => exact h.size
  case snapshotSize => exact h.snapshot_size
  case inside =>
    intro uniform d hw
    have hfits : (recorded cs).length + 1 < 2 ^ 64 := (Nat.succ_lt_succ hlt).trans (by decide)
    exact (written_lt (toNat_succ h.count hfits) hw).1
  case sources => exact h.exists_embedding
  case sorted => exact (performAll cs new).getSnapshot.sorted
  case snapshot => exact h.snapshot_perm

def clearedOnce : List Call :=
  [.update 7 (drawn 0), .clear, .update 1 (drawn 0), .update 2 (drawn 0), .update 3 (drawn 1)]

theorem slots_hold_recorded_clearedOnce :
    (recorded clearedOnce).length < 2 ^ 31 ∧
      Holds ((new : UniformSample 2 Int64).performAll clearedOnce) [1, 2, 3] :=
  ⟨by decide, slots_hold_recorded 2 clearedOnce (by decide)⟩

end CppMetrics.UniformSample
