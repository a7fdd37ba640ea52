import CppMetrics.Graphite.ConnectionProtocol

/-! The timestamps of the reports. `get_seconds_from_epoch` subtracts the epoch, which is in UTC,
from the local time, so that the offset of the host's time zone goes into every line. -/

namespace CppMetrics

/-! ### The clock -/

/-- A time of day and date, and a difference of two, as a number of microseconds; a time is counted
from the first of January 1970. -/
abbrev Ticks := Int64

/-- The time zone of a host: `local_time()` shows its offset beside the time in UTC. -/
structure Zone where
  offset : Ticks → ℤ
  localTime : Ticks → Ticks
  shifts : ∀ t, (localTime t).toInt = t.toInt + offset t

def timeTEpoch : Ticks := 0

def getDurationFromEpoch (z : Zone) (now : Ticks) : Ticks := z.localTime now - timeTEpoch

def totalSeconds (d : Ticks) : Int64 := d / 1000000

def getSecondsFromEpoch (z : Zone) (now : Ticks) : UInt64 :=
  (totalSeconds (getDurationFromEpoch z now)).toUInt64

/-- The offset does not reach another second. Seconds truncate towards zero, and so the last second
before 1970 counts as the first one after. -/
structure WithinSecond (now offset : ℤ) : Prop where
  epoch : 0 ≤ now
  back : -(now % 1000000) ≤ offset ∨ now < 1000000 ∧ -1000000 < now + offset
  ahead : offset < 1000000 - now % 1000000

theorem getSecondsFromEpoch_toNat (z : Zone) (now : Ticks) :
    ((getSecondsFromEpoch z now).toNat : ℤ) =
      (now.toInt + z.offset now).tdiv 1000000 % 2 ^ 64 := by
  have hduration : getDurationFromEpoch z now = z.localTime now := Int64.sub_zero _
  have hdiv := Int64.toInt_div_of_ne_right (z.localTime now) 1000000 (by decide)
  rw [getSecondsFromEpoch, toNat_toUInt64, totalSeconds, hduration, hdiv, z.shifts]
  rfl

theorem tdiv_million (x : ℤ) :
    0 ≤ x ∧ x.tdiv 1000000 = x / 1000000 ∨ x < 0 ∧ x.tdiv 1000000 = -(-x / 1000000) := by
  rcases le_or_gt 0 x with hpos | hneg
  · exact Or.inl ⟨hpos, Int.tdiv_eq_ediv_of_nonneg hpos⟩
  · have hflip : (-x).tdiv 1000000 = -x / 1000000 := Int.tdiv_eq_ediv_of_nonneg (by omega)
    rw [Int.neg_tdiv] at hflip
    exact Or.inr ⟨hneg, by omega⟩

/-- The seconds are those since 1970 just where the offset is within the second. -/
theorem seconds_exact_iff (z : Zone) (now : Ticks) :
    ((getSecondsFromEpoch z now).toNat : ℤ) = now.toInt / 1000000 ↔
      WithinSecond now.toInt (z.offset now) := by
  have hlower := Int64.le_toInt (z.localTime now)
  have hupper := Int64.toInt_lt (z.localTime now)
  have hlow := Int64.le_toInt now
  have hup := Int64.toInt_lt now
  rw [z.shifts] at hlower hupper
  rw [getSecondsFromEpoch_toNat]
  generalize now.toInt = t at *
  generalize z.offset now = offset at *
  have hdiv := tdiv_million (t + offset)
  generalize (t + offset).tdiv 1000000 = q at *
  constructor
  · intro h
    constructor <;> omega
  · rintro ⟨hepoch, hback, hahead⟩
    omega

/-! ### The reports -/

namespace GraphiteReporter

open MetricRegistry ScheduledReporter.Report Fallible

def Operation.timestamp : Operation → Option ℕ
  | .send _ _ timestamp => some timestamp
  | _ => none

def sentTimestamps (journal : List (Operation × Option Exception)) : List ℕ :=
  (journal.map Prod.fst).filterMap Operation.timestamp

structure TimedRun (D : Type) where
  now : Ticks
  objects : Objects D
  maps : Maps
  faults : ℕ → Option Exception

variable {D : Type}

def TimedRun.run (z : Zone) (x : TimedRun D) : Run D :=
  ⟨x.objects, x.maps, (getSecondsFromEpoch z x.now).toNat, x.faults⟩

/-- The timestamps are those of UTC, whichever of the two zones the host is in. -/
structure Unzoned (r : Reporter D) (z z' : Zone) (xs : List (TimedRun D)) : Prop where
  attached : ∀ x ∈ xs, ∀ t ∈ sentTimestamps (r.journalOf (x.run z)), t = (x.run z).timestamp
  same : ∀ x ∈ xs, (x.run z).timestamp = (x.run z').timestamp
  seconds : ∀ x ∈ xs, ((x.run z).timestamp : ℤ) = x.now.toInt / 1000000
  ordered : (xs.map fun x => (x.run z).timestamp).Pairwise (· ≤ ·)

def Stamped (timestamp : ℕ) (op : Operation) : Prop := ∀ t, op.timestamp = some t → t = timestamp

theorem stamped_fieldOps (r : Reporter D) (name : Str) (fields : List (Str × Str))
    (timestamp : ℕ) : ∀ op ∈ r.fieldOps name fields timestamp, Stamped timestamp op := by
  intro op hop t ht
  obtain ⟨field, -, hop⟩ := List.mem_flatMap.mp hop
  rcases List.mem_pair.mp hop with rfl | rfl
  · exact nomatch ht
  · exact (Option.some.inj ht).symm

theorem stamped_operations (r : Reporter D) (objects : Objects D) (maps : Maps) (timestamp : ℕ) :
    ∀ op ∈ r.operations objects maps timestamp, Stamped timestamp op := by
  have hread : ∀ name, Stamped timestamp (.read name) := fun _ _ ht => nomatch ht
  have hmap : ∀ (map : MetricMap) (ops : Str × MetricPtr → List Operation),
      (∀ kv, ∀ op ∈ ops kv, Stamped timestamp op) →
        ∀ op ∈ (entries map).flatMap ops, Stamped timestamp op := by
    intro map ops h op hop
    obtain ⟨kv, -, hop⟩ := List.mem_flatMap.mp hop
    exact h kv op hop
  have hcounter := hmap maps.counterMap (r.counterOps objects timestamp) fun kv =>
    stamped_fieldOps r kv.1 _ timestamp
  have hhistogram := hmap maps.histogramMap (r.histogramOps objects timestamp) fun kv op hop => by
    rcases List.mem_cons.mp hop with rfl | hop
    · exact hread kv.1
    · exact stamped_fieldOps r kv.1 _ timestamp op hop
  have hmeter := hmap maps.meterMap (r.meterOps objects timestamp) fun kv =>
    stamped_fieldOps r kv.1 _ timestamp
  have htimer := hmap maps.timerMap (r.timerOps objects timestamp) fun kv op hop => by
    rcases List.mem_cons.mp hop with rfl | hop
    · exact hread kv.1
    · rcases List.mem_append.mp hop with hop | hop
      · exact stamped_fieldOps r kv.1 _ timestamp op hop
      · exact stamped_fieldOps r kv.1 _ timestamp op hop
  have hgauge := hmap maps.gaugeMap (r.gaugeOps objects timestamp) fun kv op hop => by
    rcases List.mem_pair.mp hop with rfl | rfl
    · exact hread kv.1
    · exact fun t ht => (Option.some.inj ht).symm
  intro op hop
  rcases List.mem_cons.mp hop with rfl | hop
  · exact fun t ht => nomatch ht
  · simp only [List.mem_append] at hop
    rcases hop with hop | hop | hop | hop | hop
    · exact hcounter op hop
    · exact hhistogram op hop
    · exact hmeter op hop
    · exact htimer op hop
    · exact hgauge op hop

theorem sentTimestamps_eq (r : Reporter D) (x : Run D) :
    ∀ t ∈ sentTimestamps (r.journalOf x), t = x.timestamp := by
  intro t ht
  obtain ⟨op, hop, ht⟩ := List.mem_filterMap.mp ht
  rw [Reporter.journalOf, r.journal_eq, List.map_append] at hop
  rcases List.mem_append.mp hop with hop | hop
  · have hmem := (performed_begins x.faults _).subset hop
    exact stamped_operations r x.objects x.maps x.timestamp op hmem t ht
  · have hclosing : ∀ fault, op ∈ (Reporter.closing fault).map Prod.fst → op = .close := by
      intro fault h
      unfold Reporter.closing at h
      split at h
      · exact nomatch h
      · exact List.mem_singleton.mp h
    rw [hclosing _ hop] at ht
    exact nomatch ht

theorem unzoned_iff (r : Reporter D) (z z' : Zone) (xs : List (TimedRun D))
    (hordered : (xs.map TimedRun.now).Pairwise (· ≤ ·)) :
    Unzoned r z z' xs ↔ ∀ x ∈ xs, WithinSecond x.now.toInt (z.offset x.now) ∧
      WithinSecond x.now.toInt (z'.offset x.now) := by
  constructor
  · intro h x hx
    have hseconds := h.seconds x hx
    have hseconds' : ((x.run z').timestamp : ℤ) = x.now.toInt / 1000000 := by
      rw [← h.same x hx, hseconds]
    exact ⟨(seconds_exact_iff z x.now).mp hseconds, (seconds_exact_iff z' x.now).mp hseconds'⟩
  intro hwithin
  have hseconds : ∀ x ∈ xs, ((x.run z).timestamp : ℤ) = x.now.toInt / 1000000 :=
    fun x hx => (seconds_exact_iff z x.now).mpr (hwithin x hx).1
  have hseconds' : ∀ x ∈ xs, ((x.run z').timestamp : ℤ) = x.now.toInt / 1000000 :=
    fun x hx => (seconds_exact_iff z' x.now).mpr (hwithin x hx).2
  constructor
  case attached => exact fun x _ => sentTimestamps_eq r (x.run z)
  case same =>
    intro x hx
    have heq := (hseconds x hx).trans (hseconds' x hx).symm
    exact_mod_cast heq
  case seconds => exact hseconds
  case ordered =>
    rw [List.pairwise_map] at hordered ⊢
    refine hordered.imp_of_mem fun {x y} hx hy hle => ?_
    have hdiv : x.now.toInt / 1000000 ≤ y.now.toInt / 1000000 :=
      Int.ediv_le_ediv (by decide) (Int64.le_iff_toInt_le.mp hle)
    rw [← hseconds x hx, ← hseconds y hy] at hdiv
    exact_mod_cast hdiv

def utc : Zone := ⟨fun _ => 0, fun t => t, fun _ => (add_zero _).symm⟩

/-- One o'clock UTC on the 26th of October 2014, when summer time ends. -/
def summerEnds : Ticks := 1414285200000000

def summerTime : Zone where
  offset t := if t < summerEnds then 3600000000 else 0
  localTime t := if t < summerEnds then t + 3600000000 else t
  shifts t := by
    split
    next h =>
      have hlt : t.toInt < summerEnds.toInt := Int64.lt_iff_toInt_lt.mp h
      have hlow := Int64.le_toInt t
      have hend : summerEnds.toInt = 1414285200000000 := rfl
      have hhour : (3600000000 : Int64).toInt = 3600000000 := rfl
      rw [Int64.toInt_add, hhour]
      exact Int.bmod_eq_of_le (by omega) (by omega)
    next => exact (add_zero _).symm

/-- The last second of summer time, and the next one. -/
def aroundTheChange : List (TimedRun Unit) :=
  [1414285199000000, 1414285200000000].map fun now =>
    ⟨now, throwingGauge.objects, throwingGauge.maps, fun _ => none⟩

theorem unzoned_iff_utc :
    (aroundTheChange.map TimedRun.now).Pairwise (· ≤ ·) ∧
      (Unzoned plain utc utc aroundTheChange ↔ ∀ x ∈ aroundTheChange,
        WithinSecond x.now.toInt (utc.offset x.now) ∧
          WithinSecond x.now.toInt (utc.offset x.now)) :=
  ⟨by decide, unzoned_iff plain utc utc aroundTheChange (by decide)⟩

/-- The second report is an hour before the first. -/
theorem goes_back_an_hour :
    (aroundTheChange.map TimedRun.now).Pairwise (· ≤ ·) ∧
      ¬Unzoned plain summerTime utc aroundTheChange := by
  refine ⟨by decide, fun h => ?_⟩
  have hordered : [1414288799, 1414285200].Pairwise (· ≤ ·) := h.ordered
  exact absurd hordered (by decide)

end GraphiteReporter
end CppMetrics
