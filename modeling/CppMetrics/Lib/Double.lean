import Mathlib.Algebra.Order.Floor.Ring
import Mathlib.Algebra.Order.Field.Basic
import Mathlib.Tactic.Positivity

/-! Doubles without rounding: a number, an infinity or NaN. Zero has one sign. Where the rounding of
integers matters, it is a function of its own. -/

inductive Double (K : Type*)
  | finite (x : K)
  | infinite (negative : Bool)
  | nan

namespace Double

variable {K : Type*} [Field K]

def neg : Double K → Double K
  | .finite x => .finite (-x)
  | .infinite negative => .infinite !negative
  | .nan => .nan

def add : Double K → Double K → Double K
  | .finite x, .finite y => .finite (x + y)
  | .finite _, .infinite negative | .infinite negative, .finite _ => .infinite negative
  | .infinite negative, .infinite negative' =>
    if negative = negative' then .infinite negative else .nan
  | .nan, _ | _, .nan => .nan

def sub (a b : Double K) : Double K := add a (neg b)

instance : Add (Double K) := ⟨add⟩

instance : Sub (Double K) := ⟨sub⟩

theorem finite_add (x y : K) : finite x + finite y = finite (x + y) := rfl

theorem finite_sub (x y : K) : finite x - finite y = finite (x - y) :=
  congrArg finite (sub_eq_add_neg x y).symm

variable [LinearOrder K]

/-- Every comparison with NaN is false. -/
def lt : Double K → Double K → Bool
  | .finite x, .finite y => x < y
  | .finite _, .infinite negative => !negative
  | .infinite negative, .finite _ => negative
  | .infinite negative, .infinite negative' => negative && !negative'
  | .nan, _ | _, .nan => false

def le : Double K → Double K → Bool
  | .finite x, .finite y => x ≤ y
  | .finite _, .infinite negative => !negative
  | .infinite negative, .finite _ => negative
  | .infinite negative, .infinite negative' => negative || !negative'
  | .nan, _ | _, .nan => false

def mul : Double K → Double K → Double K
  | .finite x, .finite y => .finite (x * y)
  | .finite x, .infinite negative | .infinite negative, .finite x =>
    if x = 0 then .nan else .infinite (negative ^^ decide (x < 0))
  | .infinite negative, .infinite negative' => .infinite (negative ^^ negative')
  | .nan, _ | _, .nan => .nan

def div : Double K → Double K → Double K
  | .finite x, .finite y =>
    if y = 0 then if x = 0 then .nan else .infinite (x < 0) else .finite (x / y)
  | .finite _, .infinite _ => .finite 0
  | .infinite negative, .finite y => .infinite (negative ^^ decide (y < 0))
  | .infinite _, .infinite _ => .nan
  | .nan, _ | _, .nan => .nan

instance : Mul (Double K) := ⟨mul⟩

instance : Div (Double K) := ⟨div⟩

omit [Field K] in
theorem finite_lt {x y : K} : (finite x).lt (finite y) = true ↔ x < y := decide_eq_true_iff

omit [Field K] in
theorem finite_le {x y : K} : (finite x).le (finite y) = true ↔ x ≤ y := decide_eq_true_iff

omit [Field K] in
protected theorem lt_irrefl (a : Double K) : a.lt a = false := by
  cases a with
  | finite x => exact decide_eq_false (lt_irrefl x)
  | infinite negative => exact Bool.and_not_self negative
  | nan => rfl

omit [Field K] in
protected theorem lt_trans {a b c : Double K} (hab : a.lt b = true) (hbc : b.lt c = true) :
    a.lt c = true := by
  rcases a with x | _ | _ <;> rcases b with y | _ | _ <;> rcases c with z | _ | _ <;>
    simp_all only [lt, decide_eq_true_eq, Bool.and_eq_true, Bool.not_eq_true', Bool.false_eq_true,
      false_and, and_self]
  exact hab.trans hbc

theorem finite_mul (x y : K) : finite x * finite y = finite (x * y) := rfl

theorem finite_div (x y : K) : finite x / finite y =
    if y = 0 then if x = 0 then nan else infinite (x < 0) else finite (x / y) := rfl

variable [FloorRing K]

def floor : Double K → Double K
  | .finite x => .finite ⌊x⌋
  | a => a

/-- The conversion to an unsigned integer; it is undefined where the result is not one. -/
def toSize : Double K → Option ℕ
  | .finite x => if -1 < x then some ⌊x⌋.toNat else none
  | _ => none

theorem finite_toSize {x : K} (h : -1 < x) : (finite x).toSize = some ⌊x⌋.toNat := if_pos h

/-! ### Rounded integers -/

/-- The double next to an integer, with 53 bits and ties to even. It is an integer again. -/
def nearest (x : ℤ) : ℤ :=
  let ulp : ℤ := 2 ^ (x.natAbs.log2 - 52)
  let below := x / ulp
  let rest := x % ulp
  if 2 * rest < ulp ∨ 2 * rest = ulp ∧ below % 2 = 0 then below * ulp else (below + 1) * ulp

theorem nearest_of_le {x : ℤ} (h : x.natAbs ≤ 2 ^ 53) : nearest x = x := by
  have hdivides : x / 2 ^ (x.natAbs.log2 - 52) * 2 ^ (x.natAbs.log2 - 52) = x ∧
      x % 2 ^ (x.natAbs.log2 - 52) = 0 := by
    rcases h.lt_or_eq with hlt | heq
    · have hlog : x.natAbs.log2 - 52 = 0 := by
        rcases Nat.eq_zero_or_pos x.natAbs with hzero | hpos
        · rw [hzero, Nat.log2_zero]
        · exact Nat.sub_eq_zero_of_le (Nat.le_of_lt_succ ((Nat.log2_lt hpos.ne').mpr hlt))
      rw [hlog, pow_zero, Int.ediv_one, mul_one, Int.emod_one]
      exact ⟨rfl, rfl⟩
    · have hlog : x.natAbs.log2 - 52 = 1 := by
        rw [heq, Nat.log2_two_pow]
      rw [hlog, pow_one]
      omega
  obtain ⟨hbelow, hrest⟩ := hdivides
  unfold nearest
  dsimp only
  rw [hrest, if_pos (Or.inl (by rw [mul_zero]; positivity)), hbelow]

example : nearest (2 ^ 53 + 1) = 2 ^ 53 := by decide

end Double
