import Mathlib.Algebra.BigOperators.Intervals
import CppMetrics.Core.Types
import CppMetrics.Lib.AlgorithmR

/-! The uniform sample. The code never looks at the values it samples, so they are of any type
with a zero; each call of the random distribution is a function of the bounds it is asked for. -/

namespace CppMetrics

/-- A reservoir of `k` slots: `values_` keeps the length the constructor gave it. -/
structure UniformSample (k : UInt32) (V : Type*) where
  count : UInt64
  values : Vector V k.toNat

/-- What `uniform_int_distribution<>` returns for the bounds it was constructed with. -/
abbrev Uniform := Int32 → Int32 → Int32

namespace UniformSample

variable {V W : Type*} {k : UInt32}

def new [Zero V] : UniformSample k V := ⟨0, Vector.replicate _ 0⟩

def clear [Zero V] (s : UniformSample k V) : UniformSample k V := ⟨0, s.values.map fun _ => 0⟩

def size (s : UniformSample k V) : UInt64 := min s.count k.toUInt64

/-- The bounds as the constructor of the distribution gets them: `count - 1` narrowed to `int`. -/
def getRandomRange (count : UInt64) : Int32 × Int32 := (0, (count - 1).toUInt32.toInt32)

def getRandom (uniform : Uniform) (count : UInt64) : UInt64 :=
  (uniform (getRandomRange count).1 (getRandomRange count).2).toInt64.toUInt64

/-- The index that `update` writes to, if it does. -/
def written (k : UInt32) (uniform : Uniform) (count : UInt64) : Option UInt64 :=
  let size := k.toUInt64
  if count ≤ size then some (count - 1)
  else
    let rand := getRandom uniform count
    if rand < size then some rand else none

/-- The part of `update` that holds the mutex. -/
def store (uniform : Uniform) (count : UInt64) (value : V) (values : Vector V k.toNat) :
    Vector V k.toNat :=
  match written k uniform count with
  | some d => values.setIfInBounds d.toNat value
  | none => values

def update (uniform : Uniform) (value : V) (s : UniformSample k V) : UniformSample k V :=
  let count := s.count + 1
  ⟨count, store uniform count value s.values⟩

def updateAll (calls : List (V × Uniform)) (s : UniformSample k V) : UniformSample k V :=
  calls.foldl (fun s c => s.update c.2 c.1) s

theorem updateAll_append (cs ds : List (V × Uniform)) (s : UniformSample k V) :
    s.updateAll (cs ++ ds) = (s.updateAll cs).updateAll ds := List.foldl_append

theorem clear_eq_new [Zero V] (s : UniformSample k V) : s.clear = new := by
  have hzero : s.values.map (fun _ => (0 : V)) = Vector.replicate _ 0 := by
    ext i hi
    simp
  rw [clear, hzero, new]

/-! ### The bounds of a draw -/

theorem getRandomRange_fst (count : UInt64) : (getRandomRange count).1.toInt = 0 := rfl

theorem getRandomRange_snd {i : ℕ} (hpos : 1 ≤ i) (hle : i ≤ 2 ^ 31) :
    (getRandomRange (UInt64.ofNat i)).2.toInt = i - 1 := by
  have hone : (1 : UInt64) ≤ UInt64.ofNat i := by
    rw [UInt64.le_iff_toNat_le, UInt64.toNat_ofNat', UInt64.toNat_one]
    omega
  have hsub : (UInt64.ofNat i - 1).toNat = i - 1 := by
    rw [UInt64.toNat_sub_of_le _ _ hone, UInt64.toNat_ofNat', UInt64.toNat_one]
    omega
  -- `i - 1` is below `2 ^ 31`, so that the 32 bits hold it and the sign bit is clear
  have hnarrow : (UInt64.ofNat i - 1).toUInt32.toNat = i - 1 := by
    rw [UInt64.toNat_toUInt32, hsub]
    omega
  show (UInt64.ofNat i - 1).toUInt32.toBitVec.toInt = _
  rw [BitVec.toInt_eq_toNat_cond, UInt32.toNat_toBitVec, hnarrow]
  split_ifs <;> omega

theorem getRandom_of_uniform {uniform : Uniform} {count : UInt64} {d : ℕ} (hd : d < 2 ^ 31)
    (h : uniform (getRandomRange count).1 (getRandomRange count).2 = Int32.ofNat d) :
    (getRandom uniform count).toNat = d := by
  have hint : (Int32.ofNat d).toInt64.toInt = d := by
    rw [Int32.toInt_toInt64, Int32.toInt_ofNat_of_lt hd]
  have hround := toNat_toUInt64 (Int32.ofNat d).toInt64
  rw [hint, Int.emod_eq_of_lt (Int.natCast_nonneg d) (by omega)] at hround
  rw [getRandom, h]
  exact_mod_cast hround

def drawn (d : ℕ) : Uniform := fun _ _ => Int32.ofNat d

/-- The draw for item number `i`: it gives `d` for the bounds `0` and `i - 1`, and for other bounds
what `other` gives. -/
def answering (other : Uniform) (i d : ℕ) : Uniform := fun lo hi =>
  if lo.toInt = 0 ∧ hi.toInt = i - 1 then Int32.ofNat d else other lo hi

theorem getRandom_answering (other : Uniform) {i d : ℕ} (hd : d < i) (hle : i ≤ 2 ^ 31) :
    (getRandom (answering other i d) (UInt64.ofNat i)).toNat = d := by
  refine getRandom_of_uniform (hd.trans_le hle) (if_pos ⟨getRandomRange_fst _, ?_⟩)
  exact getRandomRange_snd (Nat.one_le_of_lt hd) hle

/-! ### The run of a draw sequence -/

/-- The calls that record `v 1, …, v (k + m)`. The first `k` of them ask for no draw, and the later
ones get their draw for the bounds of Algorithm R only. -/
def calls (v : ℕ → V) (other : Uniform) {m : ℕ} (r : AlgorithmR.Draws k.toNat m) :
    List (V × Uniform) :=
  (List.range k.toNat).map (fun i => (v (i + 1), other)) ++
    List.ofFn fun i : Fin m =>
      (v (k.toNat + i + 1), answering other (k.toNat + i + 1) (r i))

theorem calls_succ (v : ℕ → V) (other : Uniform) {m : ℕ} (r : AlgorithmR.Draws k.toNat (m + 1)) :
    calls v other r = calls v other (Fin.init r) ++
      [(v (k.toNat + m + 1), answering other (k.toNat + m + 1) (r (Fin.last m)))] := by
  unfold calls
  rw [List.ofFn_succ', List.concat_eq_append, ← List.append_assoc]
  rfl

def slots (s : UniformSample k V) : Fin k.toNat → V := fun i => s.values[i]

theorem slots_setIfInBounds (values : Vector V k.toNat) (count : UInt64) (d : ℕ) (value : V) :
    slots ⟨count, values.setIfInBounds d value⟩ =
      AlgorithmR.place d value (slots ⟨count, values⟩) := by
  funext i
  show (values.setIfInBounds d value)[(i : ℕ)] = _
  rw [Vector.getElem_setIfInBounds]
  exact if_congr eq_comm rfl rfl

variable {s : UniformSample k V} {c : ℕ}

theorem update_count (hc : s.count.toNat = c) (hle : c < 2 ^ 31) (uniform : Uniform) (value : V) :
    (s.update uniform value).count.toNat = c + 1 := by
  exact toNat_succ hc ((Nat.succ_lt_succ hle).trans (by decide))

theorem written_fill (hc : s.count.toNat = c) (hfree : c < k.toNat) (uniform : Uniform) :
    written k uniform (s.count + 1) = some s.count := by
  have hlt : c + 1 < 2 ^ 64 := (Nat.succ_le_of_lt hfree).trans_lt (k.toNat_lt.trans (by decide))
  have hfill : s.count + 1 ≤ k.toUInt64 := by
    rw [le_toUInt64_iff, toNat_succ hc hlt]
    exact hfree
  rw [written, if_pos hfill, UInt64.add_sub_cancel]

theorem slots_update_fill (hc : s.count.toNat = c) (hfree : c < k.toNat) (uniform : Uniform)
    (value : V) : (s.update uniform value).slots = AlgorithmR.place c value s.slots := by
  simp only [update, store, written_fill hc hfree, hc]
  exact slots_setIfInBounds _ _ _ _

theorem slots_update_drawn (hc : s.count.toNat = c) (hfull : k.toNat ≤ c) (hle : c < 2 ^ 31)
    {d : ℕ} (hd : d ≤ c) (other : Uniform) (value : V) :
    (s.update (answering other (c + 1) d) value).slots = AlgorithmR.place d value s.slots := by
  have hlt : c + 1 < 2 ^ 64 := (Nat.succ_lt_succ hle).trans (by decide)
  have hcount : s.count + 1 = UInt64.ofNat (c + 1) := by
    rw [← UInt64.toNat_inj, toNat_succ hc hlt, UInt64.toNat_ofNat_of_lt' hlt]
  have hfill : ¬s.count + 1 ≤ k.toUInt64 := by
    rw [le_toUInt64_iff, toNat_succ hc hlt]
    exact (Nat.lt_succ_of_le hfull).not_ge
  have hrand : (getRandom (answering other (c + 1) d) (s.count + 1)).toNat = d :=
    hcount ▸ getRandom_answering other (Nat.lt_succ_of_le hd) hle
  simp only [update, store, written, if_neg hfill]
  split_ifs with hslot
  · refine (slots_setIfInBounds _ _ _ _).trans ?_
    rw [hrand]
    rfl
  · rw [lt_toUInt64_iff, hrand] at hslot
    funext i
    exact (if_neg (fun h : (i : ℕ) = d => hslot (h ▸ i.isLt))).symm

theorem updateAll_fill (hs : s.count = 0) (v : ℕ → V) (idle : Uniform) (hle : c ≤ k.toNat)
    (hbound : k.toNat ≤ 2 ^ 31) :
    (s.updateAll ((List.range c).map fun i => (v (i + 1), idle))).count.toNat = c ∧
      ∀ i : Fin k.toNat, (i : ℕ) < c →
        (s.updateAll ((List.range c).map fun i => (v (i + 1), idle))).slots i = v (i + 1) := by
  induction c with
  | zero =>
    refine ⟨?_, fun i hi => absurd hi (Nat.not_lt_zero _)⟩
    show s.count.toNat = 0
    rw [hs, UInt64.toNat_zero]
  | succ c ih =>
    obtain ⟨hcount, hslots⟩ := ih (by omega)
    rw [List.range_succ, List.map_append, updateAll_append]
    refine ⟨update_count hcount (by omega) idle _, fun i hi => ?_⟩
    show (update idle (v (c + 1)) _).slots i = _
    rw [slots_update_fill hcount hle, AlgorithmR.place]
    split_ifs with hic
    · rw [hic]
    · exact hslots i (by omega)

theorem updateAll_calls (hs : s.count = 0) (v : ℕ → V) (other : Uniform) {m : ℕ}
    (r : AlgorithmR.Draws k.toNat m) (hle : k.toNat + m ≤ 2 ^ 31) :
    (s.updateAll (calls v other r)).count.toNat = k.toNat + m ∧
      (s.updateAll (calls v other r)).slots = AlgorithmR.reservoir v m r := by
  induction m with
  | zero =>
    obtain ⟨hcount, hslots⟩ := updateAll_fill hs v other le_rfl (by omega)
    have hcalls : calls v other r = (List.range k.toNat).map fun i => (v (i + 1), other) := by
      rw [calls, List.ofFn_zero, List.append_nil]
    rw [hcalls]
    exact ⟨hcount, funext fun i => hslots i i.isLt⟩
  | succ m ih =>
    obtain ⟨hcount, hslots⟩ := ih (Fin.init r) (by omega)
    have hd : (r (Fin.last m) : ℕ) < k.toNat + 1 + m := (r (Fin.last m)).isLt
    rw [calls_succ, updateAll_append]
    refine ⟨update_count hcount (by omega) _ _, ?_⟩
    show (update (answering other _ (r (Fin.last m))) (v (k.toNat + m + 1)) _).slots = _
    rw [slots_update_drawn hcount (by omega) (by omega) (by omega), hslots, AlgorithmR.reservoir]

theorem mem_values_iff (x : V) : x ∈ s.values ↔ ∃ i, s.slots i = x := by
  rw [Vector.mem_iff_getElem]
  exact ⟨fun ⟨i, hi, h⟩ => ⟨⟨i, hi⟩, h⟩, fun ⟨i, h⟩ => ⟨i, i.isLt, h⟩⟩

/-- Every recorded value is retained equally often, whatever the distribution gives for bounds that
Algorithm R does not ask for. The slots of a run on the values `v` are those of the run on the
positions `1, …, n`, with the values put in. Of the sequences of draws, each from the whole range
that `getRandom` asks for, the share that leaves position `j` in a slot is `k / n`. -/
theorem retained_equally [Zero V] (hk : 1 ≤ k.toNat) {n : ℕ} (hkn : k.toNat ≤ n)
    (hn : n ≤ 2 ^ 31) (s : UniformSample k V) (hs : s = new ∨ ∃ t : UniformSample k V, s = t.clear)
    (v : ℕ → V) (other : Uniform) (j : ℕ) (hpos : 1 ≤ j) (hj : j ≤ n) :
    let positions (r : AlgorithmR.Draws k.toNat (n - k.toNat)) :=
      ((new : UniformSample k ℕ).updateAll (calls id other r)).values
    (∀ r, (s.updateAll (calls v other r)).values = (positions r).map v) ∧
      (∀ i, k.toNat < i → i ≤ n → (getRandomRange (UInt64.ofNat i)).1.toInt = 0 ∧
        (getRandomRange (UInt64.ofNat i)).2.toInt = i - 1 ∧
        ∀ d < i, (getRandom (answering other i d) (UInt64.ofNat i)).toNat = d) ∧
      Fintype.card (AlgorithmR.Draws k.toNat (n - k.toNat)) = ∏ i ∈ Finset.Ioc k.toNat n, i ∧
      (Fintype.card {r // j ∈ positions r} : ℚ) =
        k.toNat / n * Fintype.card (AlgorithmR.Draws k.toNat (n - k.toNat)) := by
  generalize hm : n - k.toNat = m
  obtain rfl : n = k.toNat + m := by omega
  intro positions
  have hzero : s.count = 0 := by
    obtain rfl | ⟨t, rfl⟩ := hs <;> rfl
  have hslots : ∀ r, (new.updateAll (calls id other r)).slots = AlgorithmR.reservoir id m r :=
    fun r => (updateAll_calls rfl id other r hn).2
  have hretained : ∀ r, j ∈ positions r ↔ AlgorithmR.Retained j m r := by
    intro r
    rw [mem_values_iff, hslots, AlgorithmR.Retained]
  refine ⟨fun r => ?_, fun i hi hin => ?_, AlgorithmR.card_draws _ m, ?_⟩
  · ext i hi
    have hrun : (s.updateAll (calls v other r)).slots =
        v ∘ (new.updateAll (calls id other r)).slots := by
      rw [(updateAll_calls hzero v other r hn).2, hslots, AlgorithmR.comp_reservoir,
        Function.comp_id]
    rw [Vector.getElem_map]
    exact congrFun hrun ⟨i, hi⟩
  · exact ⟨getRandomRange_fst _, getRandomRange_snd (by omega) (by omega),
      fun d hd => getRandom_answering other hd (by omega)⟩
  · have hcard := AlgorithmR.card_retained j m hpos hj
    have hn0 : ((k.toNat + m : ℕ) : ℚ) ≠ 0 := Nat.cast_ne_zero.mpr (by omega)
    rw [Fintype.card_congr (Equiv.subtypeEquivRight hretained), div_mul_eq_mul_div,
      eq_div_iff hn0]
    exact_mod_cast hcard

theorem retained_equally_three :
    (Fintype.card {r : AlgorithmR.Draws (2 : UInt32).toNat (3 - (2 : UInt32).toNat) //
      1 ∈ ((new : UniformSample 2 ℕ).updateAll (calls id (drawn 7) r)).values} : ℚ) = 2 := by
  obtain ⟨-, -, htotal, hshare⟩ := retained_equally (k := 2) (n := 3) (by decide) (by decide)
    (by decide) (new : UniformSample 2 Int64) (.inl rfl) (fun _ => 7) (drawn 7) 1 (by decide)
    (by decide)
  have hprod : ∏ i ∈ Finset.Ioc (2 : UInt32).toNat 3, i = 3 := by decide
  have hk : (2 : UInt32).toNat = 2 := by decide
  rw [hshare, htotal, hprod, hk]
  norm_num

end UniformSample
end CppMetrics
