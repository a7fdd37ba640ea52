import Mathlib.Data.List.GetD
import Mathlib.Data.List.Perm.Subperm
import Mathlib.Data.List.ReduceOption

/-! Cells that hold an entry of a list or a default. Such a cell has the position of its entry as
its source. -/

namespace Sourced

variable {α : Type*} {z : α} {xs : List α} {sources : List (Option ℕ)}

def valueOf (z : α) (xs : List α) : Option ℕ → α
  | none => z
  | some c => xs.getD c z

def Distinct (sources : List (Option ℕ)) : Prop :=
  sources.Pairwise fun o o' => ∀ c, o = some c → o' ≠ some c

/-- The positions of the default in the list that are the source of no cell. -/
def spare [DecidableEq α] (z : α) (xs : List α) (sources : List (Option ℕ)) : ℕ :=
  (List.range xs.length).countP fun c => some c ∉ sources ∧ xs.getD c z = z

theorem distinct_replicate_none (n : ℕ) : Distinct (List.replicate n none) :=
  List.pairwise_replicate.mpr (Or.inr fun _ hc => nomatch hc)

theorem Distinct.nodup_reduceOption (h : Distinct sources) : sources.reduceOption.Nodup := by
  unfold List.reduceOption List.Nodup
  rw [List.pairwise_filterMap]
  refine h.imp fun {o o'} hne c hc c' hc' heq => ?_
  exact hne c hc (heq ▸ hc')

theorem Distinct.take (h : Distinct sources) (n : ℕ) : Distinct (sources.take n) :=
  List.Pairwise.sublist (List.take_sublist n sources) h

theorem Distinct.set (h : Distinct sources) {c : ℕ} (hc : some c ∉ sources) (d : ℕ) :
    Distinct (sources.set d (some c)) := by
  unfold Distinct at h ⊢
  rw [List.pairwise_iff_getElem] at h ⊢
  intro a b ha hb hab c' hac hbc
  rw [List.length_set] at ha hb
  rw [List.getElem_set] at hac hbc
  split_ifs at hac with hda
  · rw [if_neg (by omega)] at hbc
    exact hc (hac.trans hbc.symm ▸ List.getElem_mem hb)
  · split_ifs at hbc with hdb
    · exact hc (hbc.trans hac.symm ▸ List.getElem_mem ha)
    · exact h a b ha hb hab c' hac hbc

theorem Distinct.eq_of_getElem? (h : Distinct sources) {c i j : ℕ}
    (hi : sources[i]? = some (some c)) (hj : sources[j]? = some (some c)) : i = j := by
  unfold Distinct at h
  rw [List.pairwise_iff_getElem] at h
  obtain ⟨hilt, hi⟩ := List.getElem?_eq_some_iff.mp hi
  obtain ⟨hjlt, hj⟩ := List.getElem?_eq_some_iff.mp hj
  rcases Nat.lt_trichotomy i j with hlt | heq | hgt
  · exact absurd hj (h i j hilt hjlt hlt c hi)
  · exact heq
  · exact absurd hi (h j i hjlt hilt hgt c hj)

theorem valueOf_append {o : Option ℕ} (h : ∀ c, o = some c → c < xs.length) (ys : List α) :
    valueOf z (xs ++ ys) o = valueOf z xs o := by
  cases o with
  | none => rfl
  | some c => exact List.getD_append _ _ _ _ (h c rfl)

/-- The cells are the entries at their sources, and a default for each cell without. -/
theorem map_valueOf_perm (z : α) (xs : List α) (sources : List (Option ℕ)) :
    (sources.map (valueOf z xs)).Perm
      (sources.reduceOption.map (xs.getD · z) ++ List.replicate (sources.count none) z) := by
  induction sources with
  | nil => exact List.Perm.nil
  | cons o sources ih =>
    cases o with
    | none =>
      rw [List.map_cons, List.reduceOption_cons_of_none, List.count_cons_self,
        List.replicate_succ]
      exact (ih.cons z).trans List.perm_middle.symm
    | some c =>
      rw [List.map_cons, List.reduceOption_cons_of_some, List.map_cons,
        List.count_cons_of_ne (by simp)]
      exact ih.cons _

theorem map_getD_range (z : α) (xs : List α) : (List.range xs.length).map (xs.getD · z) = xs := by
  apply List.ext_getElem
  · rw [List.length_map, List.length_range]
  · intro c hc hc'
    rw [List.getElem_map, List.getElem_range, List.getD_eq_getElem _ _ hc']

theorem sources_append_perm (h : Distinct sources) (hlt : ∀ c, some c ∈ sources → c < xs.length) :
    (sources.reduceOption ++ (List.range xs.length).filter (some · ∉ sources)).Perm
      (List.range xs.length) := by
  refine (List.perm_ext_iff_of_nodup ?_ List.nodup_range).mpr fun c => ?_
  · refine List.nodup_append.mpr ⟨h.nodup_reduceOption, List.nodup_range.filter _, ?_⟩
    rintro c hc c' hc' rfl
    rw [List.reduceOption_mem_iff] at hc
    exact of_decide_eq_true (List.mem_filter.mp hc').2 hc
  · rw [List.mem_append, List.reduceOption_mem_iff, List.mem_filter, decide_eq_true_iff]
    constructor
    · rintro (hc | ⟨hc, -⟩)
      · exact List.mem_range.mpr (hlt c hc)
      · exact hc
    · intro hc
      exact (Classical.em (some c ∈ sources)).imp_right fun hsource => ⟨hc, hsource⟩

/-- The cells hold different entries if and only if the cells without a source find entries of the
default's value that no other cell has as its source. -/
theorem subperm_iff [DecidableEq α] (h : Distinct sources)
    (hlt : ∀ c, some c ∈ sources → c < xs.length) :
    (sources.map (valueOf z xs)).Subperm xs ↔ sources.count none ≤ spare z xs sources := by
  have hcells := map_valueOf_perm z xs sources
  have hlist := (sources_append_perm h hlt).map (xs.getD · z)
  rw [map_getD_range, List.map_append] at hlist
  rw [hcells.subperm_right, hlist.symm.subperm_left, List.subperm_append_left]
  have hcount : (((List.range xs.length).filter (some · ∉ sources)).map (xs.getD · z)).count z =
      spare z xs sources := by
    rw [List.count_eq_countP, List.countP_map, List.countP_filter, spare]
    congr 1
    funext c
    rw [Function.comp_apply, beq_eq_decide, Bool.decide_and, Bool.and_comm]
  rw [← hcount]
  constructor
  · intro hsub
    have hle := hsub.count_le z
    rwa [List.count_replicate_self] at hle
  · intro hle
    exact (List.replicate_sublist_iff.mpr hle).subperm

end Sourced
