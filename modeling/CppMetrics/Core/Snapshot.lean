import CppMetrics.Core.Types

/-! The snapshot of a sample: its values, sorted. -/

namespace CppMetrics

abbrev ValueVector := List Int64

structure Snapshot where
  values : ValueVector
  sorted : values.Pairwise (· ≤ ·)

namespace Snapshot

def new (values : ValueVector) : Snapshot where
  values := values.mergeSort fun a b => a ≤ b
  sorted := by
    have htrans : ∀ a b c : Int64, decide (a ≤ b) = true → decide (b ≤ c) = true →
        decide (a ≤ c) = true := by
      intro a b c hab hbc
      exact decide_eq_true (Int64.le_trans (of_decide_eq_true hab) (of_decide_eq_true hbc))
    have htotal : ∀ a b : Int64, (decide (a ≤ b) || decide (b ≤ a)) = true := by
      intro a b
      simpa using Int64.le_total a b
    exact (List.pairwise_mergeSort htrans htotal values).imp of_decide_eq_true

def size (s : Snapshot) : ℕ := s.values.length

def getValues (s : Snapshot) : ValueVector := s.values

theorem getValues_new_perm (values : ValueVector) : (new values).getValues.Perm values :=
  List.mergeSort_perm _ _

theorem isEmpty_new (values : ValueVector) : (new values).values.isEmpty = values.isEmpty :=
  (getValues_new_perm values).isEmpty_eq

theorem size_new (values : ValueVector) : (new values).size = values.length :=
  (getValues_new_perm values).length_eq

end Snapshot
end CppMetrics
