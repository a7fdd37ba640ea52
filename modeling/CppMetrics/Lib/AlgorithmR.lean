import Mathlib.Algebra.BigOperators.Fin
import Mathlib.Algebra.BigOperators.Intervals
import Mathlib.Algebra.BigOperators.Ring.Finset
import Mathlib.Data.Fintype.Fin
import Mathlib.Tactic.Ring

/-! Sampling by Algorithm R, over items of any type. The first `k` items fill `k` slots; item
number `i > k` comes with a draw from `[0, i - 1]` and takes the slot of that number, if there is
one. Counting over all sequences of draws, every item is retained in the same share of them. -/

namespace AlgorithmR

variable {α β : Type*} {k : ℕ}

/-- Put `x` in slot number `d`, if there is such a slot. -/
def place (d : ℕ) (x : α) (slots : Fin k → α) : Fin k → α :=
  fun i => if (i : ℕ) = d then x else slots i

/-- One draw for each of the items `k + 1, …, k + m`. -/
abbrev Draws (k m : ℕ) := (i : Fin m) → Fin (k + 1 + i)

/-- The slots after `k + m` items. -/
def reservoir (x : ℕ → α) : (m : ℕ) → Draws k m → Fin k → α
  | 0, _ => fun i => x (i + 1)
  | m + 1, r => place (r (Fin.last m)) (x (k + m + 1)) (reservoir x m (Fin.init r))

theorem reservoir_snoc (x : ℕ → α) (m : ℕ) (d : Fin (k + 1 + m)) (r : Draws k m) :
    reservoir x (m + 1) (Fin.snocEquiv (fun i : Fin (m + 1) => Fin (k + 1 + i)) (d, r)) =
      place d (x (k + m + 1)) (reservoir x m r) := by
  simp [reservoir, Fin.snocEquiv]

theorem comp_place (f : α → β) (d : ℕ) (x : α) (slots : Fin k → α) :
    f ∘ place d x slots = place d (f x) (f ∘ slots) := by
  funext i
  simp only [place, Function.comp_apply, apply_ite f]

theorem comp_reservoir (f : α → β) (x : ℕ → α) (m : ℕ) (r : Draws k m) :
    f ∘ reservoir x m r = reservoir (f ∘ x) m r := by
  induction m with
  | zero => rfl
  | succ m ih => rw [reservoir, comp_place, ih, reservoir, Function.comp_apply]

/-! ### Positions -/

theorem reservoir_le (m : ℕ) (r : Draws k m) (i : Fin k) : reservoir id m r i ≤ k + m := by
  induction m with
  | zero => exact i.isLt
  | succ m ih =>
    rw [reservoir, place]
    split_ifs
    · exact le_rfl
    · exact (ih _).trans (Nat.le_succ _)

theorem reservoir_injective (m : ℕ) (r : Draws k m) : Function.Injective (reservoir id m r) := by
  induction m with
  | zero => exact fun i j h => Fin.ext (Nat.succ.inj h)
  | succ m ih =>
    intro i j h
    have hi := reservoir_le m (Fin.init r) i
    have hj := reservoir_le m (Fin.init r) j
    rw [reservoir, place, place, id] at h
    split_ifs at h with hdi hdj hdj
    · exact Fin.ext (hdi.trans hdj.symm)
    · omega
    · omega
    · exact ih _ h

def Retained (j m : ℕ) (r : Draws k m) : Prop := ∃ i, reservoir id m r i = j

instance (j m : ℕ) (r : Draws k m) : Decidable (Retained j m r) :=
  inferInstanceAs (Decidable (∃ i, reservoir id m r i = j))

def keeping (j m : ℕ) (r : Draws k m) : Finset (Fin (k + 1 + m)) :=
  {d | ∃ i, place d (k + m + 1) (reservoir id m r) i = j}

theorem card_keeping_new (m : ℕ) (r : Draws k m) : (keeping (k + m + 1) m r).card = k := by
  have heq : keeping (k + m + 1) m r = ({d | (d : ℕ) < k} : Finset (Fin (k + 1 + m))) := by
    ext d
    simp only [keeping, Finset.mem_filter, Finset.mem_univ, true_and]
    constructor
    · rintro ⟨i, hi⟩
      have hle := reservoir_le m r i
      rw [place] at hi
      split_ifs at hi with hd
      · exact hd ▸ i.isLt
      · omega
    · intro hd
      exact ⟨⟨d, hd⟩, if_pos rfl⟩
  rw [heq, Fin.card_filter_val_lt]
  omega

theorem card_keeping_retained {j m : ℕ} {r : Draws k m} (h : Retained j m r) :
    (keeping j m r).card = k + m := by
  obtain ⟨i, hi⟩ := h
  have hle := reservoir_le m r i
  have heq : keeping j m r = Finset.univ.erase ⟨i, by omega⟩ := by
    ext d
    simp only [keeping, Finset.mem_filter, Finset.mem_univ, true_and, Finset.mem_erase, and_true]
    constructor
    · rintro ⟨i', hi'⟩ rfl
      rw [place] at hi'
      split_ifs at hi' with hd
      · omega
      · exact hd (congrArg Fin.val (reservoir_injective m r (hi'.trans hi.symm)))
    · intro hd
      refine ⟨i, ?_⟩
      rw [place, if_neg (fun hid => hd (Fin.ext hid.symm))]
      exact hi
  rw [heq, Finset.card_erase_of_mem (Finset.mem_univ _), Finset.card_univ, Fintype.card_fin]
  omega

theorem card_keeping_lost {j m : ℕ} {r : Draws k m} (hj : j ≤ k + m) (h : ¬Retained j m r) :
    (keeping j m r).card = 0 := by
  rw [Finset.card_eq_zero, keeping, Finset.filter_eq_empty_iff]
  rintro d - ⟨i, hi⟩
  rw [place] at hi
  split_ifs at hi
  · omega
  · exact h ⟨i, hi⟩

theorem card_retained_succ (j m : ℕ) :
    Fintype.card {r : Draws k (m + 1) // Retained j (m + 1) r} =
      ∑ r : Draws k m, (keeping j m r).card := by
  have hsum : Fintype.card {r : Draws k (m + 1) // Retained j (m + 1) r} =
      ∑ p : Fin (k + 1 + m) × Draws k m,
        if ∃ i, place p.1 (k + m + 1) (reservoir id m p.2) i = j then 1 else 0 := by
    rw [Fintype.card_subtype, Finset.card_filter,
      ← Equiv.sum_comp (Fin.snocEquiv fun i : Fin (m + 1) => Fin (k + 1 + i))]
    refine Finset.sum_congr rfl fun p _ => if_congr ?_ rfl rfl
    have hsnoc := reservoir_snoc id m p.1 p.2
    rw [Prod.mk.eta, id] at hsnoc
    unfold Retained
    rw [hsnoc]
  -- sum over the draw for the last item inside, over the earlier draws outside
  rw [hsum, Fintype.sum_prod_type_right]
  exact Finset.sum_congr rfl fun r _ => (Finset.card_filter _ _).symm

theorem card_draws_succ (m : ℕ) :
    Fintype.card (Draws k (m + 1)) = Fintype.card (Draws k m) * (k + 1 + m) := by
  simp only [Draws, Fintype.card_pi, Fintype.card_fin, Fin.prod_univ_castSucc, Fin.val_castSucc,
    Fin.val_last]

theorem card_draws (k m : ℕ) : Fintype.card (Draws k m) = ∏ i ∈ Finset.Ioc k (k + m), i := by
  induction m with
  | zero => simp
  | succ m ih =>
    rw [card_draws_succ, ih, ← Nat.add_assoc, Finset.prod_Ioc_succ_top (Nat.le_add_right k m)]
    congr 1
    omega

/-- Each of the first `k + m` items is retained by the share `k / (k + m)` of the draws. -/
theorem card_retained (j m : ℕ) (hpos : 1 ≤ j) (hle : j ≤ k + m) :
    Fintype.card {r : Draws k m // Retained j m r} * (k + m) =
      k * Fintype.card (Draws k m) := by
  induction m with
  | zero =>
    have hall : ∀ r : Draws k 0, Retained j 0 r := fun r =>
      ⟨⟨j - 1, by omega⟩, Nat.sub_add_cancel hpos⟩
    rw [Fintype.card_congr (Equiv.subtypeUnivEquiv hall)]
    exact Nat.mul_comm _ _
  | succ m ih =>
    rw [card_retained_succ, card_draws_succ]
    rcases Nat.lt_or_ge (k + m) j with hnew | hold
    · -- the last item itself: `k` of its draws put it in a slot
      obtain rfl : j = k + m + 1 := by omega
      simp only [card_keeping_new, Finset.sum_const, Finset.card_univ, smul_eq_mul]
      ring
    · -- an earlier item: all but one of the last draws keep it, if it was there
      have hkeep : ∀ r : Draws k m, (keeping j m r).card =
          (if Retained j m r then 1 else 0) * (k + m) := by
        intro r
        split_ifs with h
        · rw [card_keeping_retained h, Nat.one_mul]
        · rw [card_keeping_lost hold h, Nat.zero_mul]
      have hcount : ∑ r : Draws k m, (keeping j m r).card = k * Fintype.card (Draws k m) := by
        rw [← ih hold, Fintype.card_subtype, Finset.card_filter, Finset.sum_mul]
        exact Finset.sum_congr rfl fun r _ => hkeep r
      rw [hcount]
      ring

end AlgorithmR
