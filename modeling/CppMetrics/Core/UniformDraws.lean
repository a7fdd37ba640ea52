import CppMetrics.Core.UniformRuns

/-! The range that `getRandom` asks for. The distribution is one of `int`, so that `count - 1` is
narrowed to 32 bits and a sign. -/

namespace CppMetrics.UniformSample

variable {k : UInt32} {count : UInt64} {uniform : Uniform}

/-- What the documentation of `uniform_int_distribution` promises of a draw. -/
def Respects (uniform : Uniform) : Prop :=
  ∀ lo hi : Int32, lo.toInt ≤ hi.toInt →
    lo.toInt ≤ (uniform lo hi).toInt ∧ (uniform lo hi).toInt ≤ hi.toInt

/-- `update` with a distribution that is called in any monad. -/
def updateM {m : Type → Type} [Monad m] (uniform : Int32 → Int32 → m Int32) (value : Int64)
    (s : UniformSample k Int64) : m (UniformSample k Int64) := do
  let count := s.count + 1
  let size := k.toUInt64
  if count ≤ size then
    return ⟨count, s.values.setIfInBounds (count - 1).toNat value⟩
  else
    let rand := (← uniform (getRandomRange count).1 (getRandomRange count).2).toInt64.toUInt64
    return ⟨count, if rand < size then s.values.setIfInBounds rand.toNat value else s.values⟩

theorem updateM_id (uniform : Uniform) (value : Int64) (s : UniformSample k Int64) :
    updateM (m := Id) uniform value s = s.update uniform value := by
  simp only [updateM, update, store, written]
  split_ifs with hfill hslot
  · rfl
  · exact congrArg _ (if_pos hslot)
  · exact congrArg _ (if_neg hslot)

/-- The bounds that a call asks the distribution for, if it asks: those at which it stops where the
distribution throws them. -/
def requested (s : UniformSample k Int64) : Call → Option (Int32 × Int32)
  | .update value _ =>
    match updateM (m := Except (Int32 × Int32)) (fun lo hi => .error (lo, hi)) value s with
    | .error bounds => some bounds
    | .ok _ => none
  | .clear => none

/-- The draw asks for the whole range below the count, and the value offered may be left out. -/
structure FullRange (k : UInt32) (bounds : Int32 × Int32) (count : UInt64) : Prop where
  lower : bounds.1.toInt = 0
  upper : bounds.2.toInt = count.toNat - 1
  ordered : bounds.1.toInt ≤ bounds.2.toInt
  possible : ∀ d < count.toNat, ∃ uniform, Respects uniform ∧ (getRandom uniform count).toNat = d
  inside : ∀ uniform, Respects uniform → (getRandom uniform count).toNat < count.toNat
  uncertain : ∃ uniform, Respects uniform ∧ written k uniform count = none

/-- `P` holds of the bounds of every draw and of the count that the call leaves. -/
def EveryDraw (k : UInt32) (P : Int32 × Int32 → UInt64 → Prop) (cs : List Call) : Prop :=
  Machine.Along (fun s c => some (perform s c))
    (fun s c => ∀ bounds, requested s c = some bounds → P bounds (s.perform c).count)
    (new : UniformSample k Int64) cs

theorem requested_update (s : UniformSample k Int64) (value : Int64) (uniform : Uniform) :
    requested s (.update value uniform) =
      if k.toUInt64 < s.count + 1 then some (getRandomRange (s.count + 1)) else none := by
  simp only [requested, updateM]
  by_cases hfill : s.count + 1 ≤ k.toUInt64
  · rw [if_pos hfill, if_neg (UInt64.not_lt.mpr hfill)]
    rfl
  · rw [if_neg hfill, if_pos (UInt64.not_le.mp hfill)]
    rfl

def leaning (d : ℕ) : Uniform := fun lo hi =>
  if lo.toInt ≤ (Int32.ofNat d).toInt ∧ (Int32.ofNat d).toInt ≤ hi.toInt then Int32.ofNat d else lo

theorem respects_leaning (d : ℕ) : Respects (leaning d) := by
  intro lo hi hle
  unfold leaning
  split
  next h => exact h
  next => exact ⟨le_rfl, hle⟩

theorem getRandom_toNat (uniform : Uniform) (count : UInt64)
    (h : 0 ≤ (uniform (getRandomRange count).1 (getRandomRange count).2).toInt) :
    ((getRandom uniform count).toNat : ℤ) =
      (uniform (getRandomRange count).1 (getRandomRange count).2).toInt := by
  have hlt := Int32.toInt_lt (uniform (getRandomRange count).1 (getRandomRange count).2)
  rw [getRandom, toNat_toUInt64, Int32.toInt_toInt64]
  exact Int.emod_eq_of_lt h (hlt.trans (by decide))

theorem getRandomRange_upper (hpos : 1 ≤ count.toNat) (hle : count.toNat ≤ 2 ^ 31) :
    (getRandomRange count).2.toInt = count.toNat - 1 := by
  have hround := getRandomRange_snd hpos hle
  rwa [UInt64.ofNat_toNat] at hround

theorem le_of_upper (h : (getRandomRange count).2.toInt = count.toNat - 1) :
    count.toNat ≤ 2 ^ 31 := by
  have hlt := Int32.toInt_lt (getRandomRange count).2
  rw [h] at hlt
  omega

theorem getRandom_leaning {d : ℕ} (hd : d < count.toNat) (hle : count.toNat ≤ 2 ^ 31) :
    (getRandom (leaning d) count).toNat = d := by
  have hint : (Int32.ofNat d).toInt = d := Int32.toInt_ofNat_of_lt (hd.trans_le hle)
  have hupper := getRandomRange_upper (Nat.one_le_of_lt hd) hle
  have hin : (getRandomRange count).1.toInt ≤ (Int32.ofNat d).toInt ∧
      (Int32.ofNat d).toInt ≤ (getRandomRange count).2.toInt := by
    rw [getRandomRange_fst, hupper, hint]
    omega
  have hdraw : leaning d (getRandomRange count).1 (getRandomRange count).2 = Int32.ofNat d :=
    if_pos hin
  have hrandom := getRandom_toNat (leaning d) count
  rw [hdraw, hint] at hrandom
  exact_mod_cast hrandom (Int.natCast_nonneg d)

theorem fullRange_of_le (hk : k.toUInt64 < count) (hle : count.toNat ≤ 2 ^ 31) :
    FullRange k (getRandomRange count) count := by
  rw [toUInt64_lt_iff] at hk
  have hpos : 1 ≤ count.toNat := Nat.one_le_of_lt hk
  have hupper := getRandomRange_upper hpos hle
  have hordered : (getRandomRange count).1.toInt ≤ (getRandomRange count).2.toInt := by
    rw [getRandomRange_fst, hupper]
    omega
  constructor
  case lower => exact getRandomRange_fst count
  case upper => exact hupper
  case ordered => exact hordered
  case possible => exact fun d hd => ⟨leaning d, respects_leaning d, getRandom_leaning hd hle⟩
  case inside =>
    intro uniform hrespects
    have hdraw := hrespects _ _ hordered
    rw [getRandomRange_fst, hupper] at hdraw
    have hrandom := getRandom_toNat uniform count hdraw.1
    omega
  case uncertain =>
    -- the last index of the range has no slot
    have hlast := getRandom_leaning (Nat.sub_one_lt_of_le hpos le_rfl) hle
    refine ⟨leaning (count.toNat - 1), respects_leaning _, ?_⟩
    have hfill : ¬count ≤ k.toUInt64 := by
      rw [le_toUInt64_iff]
      exact hk.not_ge
    have hslot : ¬getRandom (leaning (count.toNat - 1)) count < k.toUInt64 := by
      rw [lt_toUInt64_iff, hlast]
      exact (Nat.le_sub_one_of_lt hk).not_gt
    rw [written, if_neg hfill, if_neg hslot]

theorem fullRange_iff (hk : k.toUInt64 < count) :
    FullRange k (getRandomRange count) count ↔ count.toNat ≤ 2 ^ 31 :=
  ⟨fun h => le_of_upper h.upper, fullRange_of_le hk⟩

/-- In every run, every draw is from the whole range if and only if no draw is made for a count
above `2 ^ 31`. -/
theorem every_draw_fullRange_iff (k : UInt32) (cs : List Call) :
    EveryDraw k (FullRange k) cs ↔ EveryDraw k (fun _ count => count.toNat ≤ 2 ^ 31) cs := by
  refine Machine.along_congr (P := fun _ => True) ?_ fun s c _ => ?_
  · exact Machine.always_of_invariant (fun _ _ => trivial) trivial cs
  · refine forall_congr' fun bounds => imp_congr_right fun hbounds => ?_
    cases c with
    | clear => cases hbounds
    | update value uniform =>
      rw [requested_update, Option.ite_none_right_eq_some, Option.some.injEq] at hbounds
      obtain ⟨hk, rfl⟩ := hbounds
      exact fullRange_iff hk

theorem recorded_replicate (n : ℕ) (value : Int64) (uniform : Uniform) :
    recorded (List.replicate n (.update value uniform)) = List.replicate n value := by
  induction n with
  | zero => rfl
  | succ n ih =>
    rw [List.replicate_succ', List.replicate_succ', ← ih]
    exact List.foldl_concat _ _ _ _

theorem count_replicate {n : ℕ} (hlt : n < 2 ^ 64) (value : Int64) (uniform : Uniform) :
    ((new : UniformSample k Int64).performAll
      (List.replicate n (.update value uniform))).count.toNat = n := by
  have hrecorded := recorded_replicate n value uniform
  obtain ⟨_, h⟩ := exists_stored (k := k) (List.replicate n (.update value uniform))
    (by rwa [hrecorded, List.length_replicate])
  rw [h.count, hrecorded, List.length_replicate]

theorem EveryDraw.last {P : Int32 × Int32 → UInt64 → Prop} {cs : List Call} {value : Int64}
    (h : EveryDraw k P (cs ++ [.update value uniform])) :
    let count := ((new : UniformSample k Int64).performAll cs).count + 1
    k.toUInt64 < count → P (getRandomRange count) count := by
  intro count hk
  refine (h.of_append (Machine.run_total perform _ _)).1 _ ?_
  rw [requested_update]
  exact if_pos hk

theorem not_every_draw {n : ℕ} (hk : k.toNat ≤ n) (hlow : 2 ^ 31 ≤ n) (hhigh : n + 1 < 2 ^ 64)
    (value : Int64) (uniform : Uniform) :
    ¬EveryDraw k (FullRange k) (List.replicate (n + 1) (.update value uniform)) := by
  intro h
  have hcount := count_replicate (k := k) ((Nat.lt_succ_self n).trans hhigh) value uniform
  rw [List.replicate_succ'] at h
  have hlast := h.last
  generalize ((new : UniformSample k Int64).performAll
    (List.replicate n (.update value uniform))).count = c at hcount hlast
  have hnext : (c + 1).toNat = n + 1 := toNat_succ hcount hhigh
  have hdraw : k.toUInt64 < c + 1 := by
    rw [toUInt64_lt_iff, hnext]
    exact Nat.lt_succ_of_le hk
  have hle := le_of_upper (hlast hdraw).upper
  rw [hnext] at hle
  exact absurd hle (Nat.lt_succ_of_le hlow).not_ge

/-- The last of these updates asks for a draw from `0` to `-2 ^ 31`. -/
theorem narrowed_to_negative :
    ¬EveryDraw 1 (FullRange 1) (List.replicate (2 ^ 31 + 1) (.update 0 (drawn 0))) :=
  not_every_draw (by decide) le_rfl (by decide) 0 (drawn 0)

end CppMetrics.UniformSample
