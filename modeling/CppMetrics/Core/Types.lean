import Mathlib.Data.UInt

/-! Strings and time units shared by the metrics. -/

namespace CppMetrics

/-- A `std::string`: any sequence of bytes, not only valid text. -/
abbrev Str := List UInt8

def str (s : String) : Str := s.toList.map fun c => UInt8.ofNat c.toNat

def nanosPerSecond : ℕ := 1000000000

theorem toNat_toUInt64 (x : Int64) : (x.toUInt64.toNat : ℤ) = x.toInt % 2 ^ 64 := by
  have hbits : x.toBitVec.toNat = (x.toBitVec.toInt % 2 ^ 64).toNat := by
    have hround := BitVec.toNat_ofInt (n := 64) x.toBitVec.toInt
    rw [BitVec.ofInt_toInt] at hround
    exact hround
  exact (congrArg Nat.cast hbits).trans (Int.toNat_of_nonneg (Int.emod_nonneg _ (by decide)))

theorem toNat_succ {count : UInt64} {c : ℕ} (hc : count.toNat = c) (hlt : c + 1 < 2 ^ 64) :
    (count + 1).toNat = c + 1 := by
  rw [UInt64.toNat_add, hc, UInt64.toNat_one]
  exact Nat.mod_eq_of_lt hlt

theorem toNat_add_one {count : UInt64} (h : count + 1 ≠ 0) :
    (count + 1).toNat = count.toNat + 1 := by
  refine toNat_succ rfl (lt_of_le_of_ne count.toNat_lt fun hmax => h ?_)
  rw [← UInt64.toNat_inj, UInt64.toNat_add, UInt64.toNat_one, hmax]
  rfl

/-! Signed sums and differences that do not wrap around. -/

def FitsInt64 (x : ℤ) : Prop := -2 ^ 63 ≤ x ∧ x < 2 ^ 63

instance (x : ℤ) : Decidable (FitsInt64 x) :=
  inferInstanceAs (Decidable (-2 ^ 63 ≤ x ∧ x < 2 ^ 63))

theorem toInt_add_of_fits {x y : Int64} (h : FitsInt64 (x.toInt + y.toInt)) :
    (x + y).toInt = x.toInt + y.toInt := by
  obtain ⟨hlower, hupper⟩ := h
  rw [Int64.toInt_add]
  exact Int.bmod_eq_of_le (by omega) (by omega)

theorem toInt_sub_of_fits {x y : Int64} (h : FitsInt64 (x.toInt - y.toInt)) :
    (x - y).toInt = x.toInt - y.toInt := by
  obtain ⟨hlower, hupper⟩ := h
  rw [Int64.toInt_sub]
  exact Int.bmod_eq_of_le (by omega) (by omega)

/-! A number of 64 bits beside one of 32. -/

variable {n : UInt64} {k : UInt32}

theorem le_toUInt64_iff : n ≤ k.toUInt64 ↔ n.toNat ≤ k.toNat := by
  rw [UInt64.le_iff_toNat_le, UInt32.toNat_toUInt64]

theorem lt_toUInt64_iff : n < k.toUInt64 ↔ n.toNat < k.toNat := by
  rw [UInt64.lt_iff_toNat_lt, UInt32.toNat_toUInt64]

theorem toUInt64_lt_iff : k.toUInt64 < n ↔ k.toNat < n.toNat := by
  rw [UInt64.lt_iff_toNat_lt, UInt32.toNat_toUInt64]

end CppMetrics
