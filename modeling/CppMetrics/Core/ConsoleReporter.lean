import Mathlib.Algebra.Field.Basic
import Mathlib.Data.Int.Cast.Field
import Mathlib.Tactic.Linarith
import Mathlib.Tactic.NormNum
import CppMetrics.Graphite.GraphiteReporter

/-! The units of a report, and the meters and timers as the console shows them. The rate factor is a
quotient of integers, and it is both the number that a rate is multiplied by and the number of
seconds that the label names. -/

namespace CppMetrics

variable {K : Type} [Field K]

namespace ScheduledReporter

structure Conversion (K : Type) where
  rateFactor : K
  durationFactor : K

namespace Conversion

/-- The rate unit is a count of milliseconds; dividing by zero is undefined. -/
def create (rateUnit : Int64) : Option (Conversion K) :=
  if rateUnit = 0 then
    none
  else
    some { rateFactor := ((1000 / rateUnit : Int64).toInt : K), durationFactor := 1 / 1000000 }

def convertDurationUnit (conversion : Conversion K) (duration : K) : K :=
  duration * conversion.durationFactor

def convertRateUnit (conversion : Conversion K) (rate : K) : K := rate * conversion.rateFactor

/-- `format` writes a number to a new stream. -/
def rateUnitInSec (conversion : Conversion K) (format : K → Str) : Str :=
  format conversion.rateFactor ++ str " Seconds"

def graphite (conversion : Conversion K) (r : GraphiteReporter.Reporter K) :
    GraphiteReporter.Reporter K :=
  { r with
    convertDurationUnit := conversion.convertDurationUnit
    convertRateUnit := conversion.convertRateUnit }

end Conversion

end ScheduledReporter

namespace ConsoleReporter

open ScheduledReporter GraphiteReporter

structure Stream (K : Type) where
  formatDouble : K → Str
  formatInt : ℤ → Str
  formatNew : K → Str

def endl : Str := str "\n"

def countLine (s : Stream K) (count : ℕ) : Str :=
  str "             count = " ++ s.formatInt count ++ endl

def rateLine (s : Stream K) (conversion : Conversion K) (title : String) (rate : K) (per : String) :
    Str :=
  str title ++ s.formatDouble (conversion.convertRateUnit rate) ++ str per ++
    conversion.rateUnitInSec s.formatNew ++ endl

def rateLines (s : Stream K) (conversion : Conversion K) (meter : MeteredValues K) (per : String) :
    Str :=
  rateLine s conversion "         mean rate = " meter.meanRate per ++
  rateLine s conversion "     1-minute rate = " meter.oneMinuteRate per ++
  rateLine s conversion "     5-minute rate = " meter.fiveMinuteRate per ++
  rateLine s conversion "    15-minute rate = " meter.fifteenMinuteRate per

def durationLine (s : Stream K) (conversion : Conversion K) (title : String) (duration : K) : Str :=
  str title ++ s.formatDouble (conversion.convertDurationUnit duration) ++ str " millis " ++ endl

def printMeter (s : Stream K) (conversion : Conversion K) (meter : MeteredValues K) : Str :=
  countLine s meter.count ++ rateLines s conversion meter " events per "

def printTimer (s : Stream K) (conversion : Conversion K)
    (timer : SnapshotValues K × MeteredValues K) : Str :=
  let snapshot := timer.1
  countLine s timer.2.count ++ rateLines s conversion timer.2 " calls per " ++
  durationLine s conversion "               min = " (snapshot.min : K) ++
  durationLine s conversion "               max = " (snapshot.max : K) ++
  durationLine s conversion "              mean = " snapshot.mean ++
  durationLine s conversion "            stddev = " snapshot.stdDev ++
  durationLine s conversion "            median = " snapshot.median ++
  durationLine s conversion "              75% <= " snapshot.p75 ++
  durationLine s conversion "              95% <= " snapshot.p95 ++
  durationLine s conversion "              98% <= " snapshot.p98 ++
  durationLine s conversion "              99% <= " snapshot.p99 ++
  durationLine s conversion "            99.9% <= " snapshot.p999

end ConsoleReporter

namespace ScheduledReporter

open GraphiteReporter

/-! ### The unit of the rates -/

def Conversion.perUnit (rateUnit : ℤ) : Conversion K where
  rateFactor := (rateUnit : K) / 1000
  durationFactor := 1 / 1000000

/-- Rates are multiplied by the unit and labelled with it, in everything that the two reporters
show of meters and timers. -/
structure ShowsUnit (rateUnit : ℤ) (conversion : Conversion K) : Prop where
  value : ∀ rate, conversion.convertRateUnit rate = rate * (rateUnit : K) / 1000
  nonzero : ∀ rate, rate ≠ 0 → conversion.convertRateUnit rate ≠ 0
  distinct : Function.Injective conversion.convertRateUnit
  label : ∀ format,
    conversion.rateUnitInSec format = format ((rateUnit : K) / 1000) ++ str " Seconds"
  meters : ∀ (s : ConsoleReporter.Stream K) meter,
    ConsoleReporter.printMeter s conversion meter =
      ConsoleReporter.printMeter s (.perUnit rateUnit) meter
  timers : ∀ (s : ConsoleReporter.Stream K) timer,
    ConsoleReporter.printTimer s conversion timer =
      ConsoleReporter.printTimer s (.perUnit rateUnit) timer
  fields : ∀ (r : GraphiteReporter.Reporter K) meter,
    (conversion.graphite r).meterFields meter =
      ((Conversion.perUnit rateUnit).graphite r).meterFields meter

variable {rateUnit : Int64} {conversion : Conversion K}

theorem quotient_toInt (rateUnit : Int64) :
    (1000 / rateUnit : Int64).toInt = 1000 / rateUnit.toInt := by
  have hdiv := Int64.toInt_div_of_ne_left 1000 rateUnit (by decide)
  rw [hdiv]
  exact Int.tdiv_eq_ediv_of_nonneg (by decide)

theorem create_eq (h : 1 ≤ rateUnit.toInt) : Conversion.create rateUnit =
    some (⟨((1000 / rateUnit.toInt : ℤ) : K), 1 / 1000000⟩ : Conversion K) := by
  have hne : rateUnit ≠ 0 := by
    rintro rfl
    exact absurd h (by decide)
  rw [Conversion.create, if_neg hne, quotient_toInt]

variable [CharZero K]

/-- Above a second the quotient is zero, and so is every rate. -/
theorem convertRateUnit_injective_iff (h : 1 ≤ rateUnit.toInt)
    (hconversion : Conversion.create rateUnit = some conversion) :
    Function.Injective conversion.convertRateUnit ↔ rateUnit.toInt ≤ 1000 := by
  obtain rfl := Option.some.inj ((create_eq h).symm.trans hconversion)
  have hpos : 0 < rateUnit.toInt := h
  constructor
  · intro hinj
    by_contra hgt
    have hzero : 1000 / rateUnit.toInt = 0 := Int.ediv_eq_zero_of_lt (by decide) (not_le.mp hgt)
    have hsame : (1 : K) = 0 := hinj (by
      simp only [Conversion.convertRateUnit, hzero, Int.cast_zero, mul_zero])
    exact one_ne_zero hsame
  · intro hle
    have hone : 1 ≤ 1000 / rateUnit.toInt := (Int.le_ediv_iff_mul_le hpos).mpr (by rwa [one_mul])
    have hfactor : ((1000 / rateUnit.toInt : ℤ) : K) ≠ 0 := Int.cast_ne_zero.mpr (by omega)
    exact mul_left_injective₀ hfactor

theorem unit_of_value (h : 1 ≤ rateUnit.toInt)
    (hconversion : Conversion.create rateUnit = some conversion)
    (hvalue : ∀ rate, conversion.convertRateUnit rate = rate * (rateUnit.toInt : K) / 1000) :
    rateUnit.toInt = 1000 := by
  obtain rfl := Option.some.inj ((create_eq h).symm.trans hconversion)
  have hone : ((1000 / rateUnit.toInt : ℤ) : K) = (rateUnit.toInt : K) / 1000 := by
    have hrate := hvalue 1
    rwa [Conversion.convertRateUnit, one_mul, one_mul] at hrate
  rw [eq_div_iff (by norm_num)] at hone
  have hexact : 1000 / rateUnit.toInt * 1000 = rateUnit.toInt := by exact_mod_cast hone
  have hle : 1000 / rateUnit.toInt * rateUnit.toInt ≤ 1000 := Int.ediv_mul_le 1000 (by omega)
  have hlt : 1000 / rateUnit.toInt < 2 := by
    by_contra hge
    nlinarith
  omega

/-- The reporters show the rates in the unit they were given exactly for a unit of one second. -/
theorem shows_unit_iff (rateUnit : Int64) (h : 1 ≤ rateUnit.toInt) :
    (∃ conversion : Conversion K, Conversion.create rateUnit = some conversion ∧
      ShowsUnit rateUnit.toInt conversion) ↔ rateUnit.toInt = 1000 := by
  constructor
  · rintro ⟨conversion, hconversion, hshows⟩
    exact unit_of_value h hconversion hshows.value
  intro hsecond
  have hthousand : (1000 : K) ≠ 0 := by norm_num
  have hfactor : (rateUnit.toInt : K) / 1000 = 1 := by
    rw [hsecond, Int.cast_ofNat, div_self hthousand]
  have hcreate : Conversion.create rateUnit =
      some (.perUnit rateUnit.toInt : Conversion K) := by
    rw [create_eq h, Conversion.perUnit, hfactor, hsecond, Int.ediv_self (by decide), Int.cast_one]
  refine ⟨_, hcreate, ?_⟩
  have hvalue : ∀ rate : K, (Conversion.perUnit rateUnit.toInt).convertRateUnit rate = rate := by
    intro rate
    rw [Conversion.convertRateUnit, Conversion.perUnit, hfactor, mul_one]
  constructor
  case value =>
    intro rate
    rw [hvalue, mul_div_assoc, hfactor, mul_one]
  case nonzero =>
    intro rate hrate
    rwa [hvalue]
  case distinct =>
    intro rate rate' heq
    rwa [hvalue, hvalue] at heq
  case label => exact fun _ => rfl
  case meters => exact fun _ _ => rfl
  case timers => exact fun _ _ => rfl
  case fields => exact fun _ _ => rfl

theorem shows_unit_iff_second : (∃ conversion : Conversion ℚ,
    Conversion.create 1000 = some conversion ∧ ShowsUnit (1000 : Int64).toInt conversion) ↔
      (1000 : Int64).toInt = 1000 :=
  shows_unit_iff 1000 (by decide)

/-- For a unit of a minute every rate comes out as zero, "per 0 Seconds". -/
theorem minute_not_shown : ¬∃ conversion : Conversion ℚ,
    Conversion.create 60000 = some conversion ∧ ShowsUnit (60000 : Int64).toInt conversion := by
  rintro ⟨conversion, hconversion, hshows⟩
  have hsecond := unit_of_value (by decide) hconversion hshows.value
  exact absurd hsecond (by decide)

end ScheduledReporter
end CppMetrics
