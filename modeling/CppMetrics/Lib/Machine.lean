import Mathlib.Algebra.BigOperators.Group.Finset.Basic
import Mathlib.Algebra.Order.Group.Nat

/-! Machines given by a partial step function: runs over lists of actions, the rules that carry
an invariant or a history through a run, observers that record what a run did, and sums over
the local states of finitely many threads. -/

namespace Machine

variable {σ α γ : Type*}

/-- Perform the actions in order; `none` as soon as one of them is not enabled. -/
def run (step : σ → α → Option σ) : σ → List α → Option σ
  | s, [] => some s
  | s, a :: as => (step s a).bind fun t => run step t as

variable {step : σ → α → Option σ} {s t u : σ} {a : α} {as : List α}

@[simp] theorem run_nil : run step s [] = some s := rfl

theorem run_cons : run step s (a :: as) = (step s a).bind fun t => run step t as := rfl

theorem run_singleton (s : σ) (a : α) : run step s [a] = step s a := Option.bind_fun_some _

theorem run_cons_eq_some :
    run step s (a :: as) = some u ↔ ∃ t, step s a = some t ∧ run step t as = some u := by
  simp only [run_cons, Option.bind_eq_some_iff]

theorem run_append (as bs : List α) :
    run step s (as ++ bs) = (run step s as).bind fun t => run step t bs := by
  induction as generalizing s with
  | nil => rfl
  | cons a as ih =>
    rw [List.cons_append, run_cons, run_cons, Option.bind_assoc]
    exact congrArg (Option.bind (step s a)) (funext fun t => ih)

theorem run_append_eq_some {bs : List α} :
    run step s (as ++ bs) = some u ↔ ∃ t, run step s as = some t ∧ run step t bs = some u := by
  rw [run_append, Option.bind_eq_some_iff]

theorem run_total (f : σ → α → σ) (s : σ) (as : List α) :
    run (fun s a => some (f s a)) s as = some (as.foldl f s) := by
  induction as generalizing s with
  | nil => rfl
  | cons a as ih => exact ih (f s a)

/-- Every step of the run is taken from a state and by an action that satisfy `C`. -/
def Along (step : σ → α → Option σ) (C : σ → α → Prop) : σ → List α → Prop
  | _, [] => True
  | s, a :: as => C s a ∧ ∀ t, step s a = some t → Along step C t as

theorem along_cons {C : σ → α → Prop} (hstep : step s a = some t) :
    Along step C s (a :: as) ↔ C s a ∧ Along step C t as := by
  simp only [Along, hstep, Option.some.injEq, forall_eq']

instance decidableAlong {C : σ → α → Prop} [∀ s a, Decidable (C s a)] (s : σ) :
    (as : List α) → Decidable (Along step C s as)
  | [] => isTrue trivial
  | a :: as =>
    match hstep : step s a with
    | none =>
      decidable_of_iff (C s a) ⟨fun h => ⟨h, fun _ ht => nomatch hstep.symm.trans ht⟩, And.left⟩
    | some t =>
      have := decidableAlong (C := C) t as
      decidable_of_iff (C s a ∧ Along step C t as) (along_cons hstep).symm

theorem along_of_forall {C : σ → α → Prop} (h : ∀ a ∈ as, ∀ s, C s a) : Along step C s as := by
  induction as generalizing s with
  | nil => trivial
  | cons a as ih =>
    exact ⟨h a List.mem_cons_self s, fun t _ => ih fun b hb => h b (List.mem_cons_of_mem a hb)⟩

theorem Along.of_append {C : σ → α → Prop} {bs : List α} (h : Along step C s (as ++ bs))
    (hrun : run step s as = some t) : Along step C t bs := by
  induction as generalizing s with
  | nil => exact Option.some.inj hrun ▸ h
  | cons a as ih =>
    obtain ⟨u, hu, hrun⟩ := run_cons_eq_some.mp hrun
    exact ih (h.2 u hu) hrun

theorem along_concat {C : σ → α → Prop} (h : Along step C s as)
    (hlast : ∀ t, run step s as = some t → C t a) : Along step C s (as ++ [a]) := by
  induction as generalizing s with
  | nil => exact ⟨hlast s rfl, fun _ _ => trivial⟩
  | cons b as ih =>
    exact ⟨h.1, fun t ht => ih (h.2 t ht) fun u hu => hlast u (run_cons_eq_some.mpr ⟨t, ht, hu⟩)⟩

theorem run_invariant_along {P : σ → Prop} {C : σ → α → Prop}
    (hstep : ∀ {s a t}, P s → C s a → step s a = some t → P t)
    (hs : P s) (hC : Along step C s as) (h : run step s as = some t) : P t := by
  induction as generalizing s with
  | nil => exact Option.some.inj h ▸ hs
  | cons a as ih =>
    obtain ⟨u, hu, h⟩ := run_cons_eq_some.mp h
    obtain ⟨hCa, hC⟩ := (along_cons hu).mp hC
    exact ih (hstep hs hCa hu) hC h

/-- Every state of the run satisfies `P`. -/
def Always (step : σ → α → Option σ) (P : σ → Prop) : σ → List α → Prop
  | s, [] => P s
  | s, a :: as => P s ∧ ∀ t, step s a = some t → Always step P t as

theorem Always.here {P : σ → Prop} (h : Always step P s as) : P s := by
  cases as with
  | nil => exact h
  | cons a as => exact h.1

theorem always_cons {P : σ → Prop} (hstep : step s a = some t) :
    Always step P s (a :: as) ↔ P s ∧ Always step P t as := by
  simp only [Always, hstep, Option.some.injEq, forall_eq']

instance decidableAlways {P : σ → Prop} [DecidablePred P] (s : σ) :
    (as : List α) → Decidable (Always step P s as)
  | [] => inferInstanceAs (Decidable (P s))
  | a :: as =>
    match hstep : step s a with
    | none =>
      decidable_of_iff (P s) ⟨fun h => ⟨h, fun _ ht => nomatch hstep.symm.trans ht⟩, And.left⟩
    | some t =>
      have := decidableAlways (P := P) t as
      decidable_of_iff (P s ∧ Always step P t as) (always_cons hstep).symm

theorem Always.last {P : σ → Prop} (h : Always step P s as) (hrun : run step s as = some t) :
    P t := by
  induction as generalizing s with
  | nil => exact Option.some.inj hrun ▸ h
  | cons a as ih =>
    obtain ⟨u, hu, hrun⟩ := run_cons_eq_some.mp hrun
    exact ih ((always_cons hu).mp h).2 hrun

theorem always_of_along {P : σ → Prop} {C : σ → α → Prop}
    (hstep : ∀ {s a t}, P s → C s a → step s a = some t → P t)
    (hs : P s) (hC : Along step C s as) : Always step P s as := by
  induction as generalizing s with
  | nil => exact hs
  | cons a as ih => exact ⟨hs, fun t ht => ih (hstep hs hC.1 ht) (hC.2 t ht)⟩

theorem always_of_invariant {P : σ → Prop} (hstep : ∀ {s a t}, P s → step s a = some t → P t)
    (hs : P s) (as : List α) : Always step P s as := by
  induction as generalizing s with
  | nil => exact hs
  | cons a as ih => exact ⟨hs, fun t ht => ih (hstep hs ht)⟩

theorem Always.imp {P Q : σ → Prop} (h : Always step P s as) (hPQ : ∀ s, P s → Q s) :
    Always step Q s as := by
  induction as generalizing s with
  | nil => exact hPQ s h
  | cons a as ih => exact ⟨hPQ s h.1, fun t ht => ih (h.2 t ht)⟩

theorem Always.and {P Q : σ → Prop} (hP : Always step P s as) (hQ : Always step Q s as) :
    Always step (fun s => P s ∧ Q s) s as := by
  induction as generalizing s with
  | nil => exact ⟨hP, hQ⟩
  | cons a as ih => exact ⟨⟨hP.1, hQ.1⟩, fun t ht => ih (hP.2 t ht) (hQ.2 t ht)⟩

/-- A condition on steps that can be told from the states on both sides of them. -/
theorem along_of_always {P : σ → Prop} {C : σ → α → Prop}
    (hC : ∀ {s a}, P s → (∀ t, step s a = some t → P t) → C s a) (hP : Always step P s as) :
    Along step C s as := by
  induction as generalizing s with
  | nil => trivial
  | cons a as ih => exact ⟨hC hP.1 fun t ht => (hP.2 t ht).here, fun t ht => ih (hP.2 t ht)⟩

theorem along_of_always_of_invariant {P Q : σ → Prop} {C : σ → α → Prop}
    (hC : ∀ {s a}, Q s → (∀ t, step s a = some t → P t) → C s a)
    (hQ : ∀ {s a t}, Q s → C s a → step s a = some t → Q t)
    (hs : Q s) (hP : Always step P s as) : Along step C s as := by
  induction as generalizing s with
  | nil => trivial
  | cons a as ih =>
    have hCa : C s a := hC hs fun t ht => (hP.2 t ht).here
    exact ⟨hCa, fun t ht => ih (hQ hs hCa ht) (hP.2 t ht)⟩

/-- In the states that a run reaches, an invariant can be used to trade conditions on its steps. -/
theorem Along.imp {P : σ → Prop} {C C' : σ → α → Prop} (hC : Along step C s as)
    (hP : Always step P s as) (h : ∀ s a, P s → C s a → C' s a) : Along step C' s as := by
  induction as generalizing s with
  | nil => trivial
  | cons a as ih => exact ⟨h s a hP.1 hC.1, fun t ht => ih (hC.2 t ht) (hP.2 t ht)⟩

theorem along_congr {P : σ → Prop} {C C' : σ → α → Prop} (hP : Always step P s as)
    (h : ∀ s a, P s → (C s a ↔ C' s a)) : Along step C s as ↔ Along step C' s as :=
  ⟨fun hC => hC.imp hP fun s a hs => (h s a hs).mp,
    fun hC' => hC'.imp hP fun s a hs => (h s a hs).mpr⟩

/-- The same with an invariant that steps which meet the second condition keep: up to the first
step that does not, both conditions are met. -/
theorem along_congr_of_invariant {P : σ → Prop} {C C' : σ → α → Prop}
    (h : ∀ s a, P s → (C s a ↔ C' s a))
    (hstep : ∀ {s a t}, P s → C' s a → step s a = some t → P t) (hs : P s) :
    Along step C s as ↔ Along step C' s as := by
  induction as generalizing s with
  | nil => rfl
  | cons a as ih =>
    have hhere := h s a hs
    constructor
    · intro hC
      have hCa' := hhere.mp hC.1
      exact ⟨hCa', fun t ht => (ih (hstep hs hCa' ht)).mp (hC.2 t ht)⟩
    · intro hC'
      exact ⟨hhere.mpr hC'.1, fun t ht => (ih (hstep hs hC'.1 ht)).mpr (hC'.2 t ht)⟩

/-! ### Runs that end -/

/-- Some steps lower a rank and no other step of the run raises it: the run takes no more of them
than the rank at its start. -/
theorem countP_add_rank_le {A : α → Prop} {P : σ → Prop} (rank : σ → ℕ) (counts : α → Bool)
    (hP : ∀ {s a t}, P s → A a → step s a = some t → P t)
    (hrank : ∀ {s a t}, P s → A a → step s a = some t →
      rank t + (if counts a then 1 else 0) ≤ rank s)
    (hs : P s) (hA : ∀ a ∈ as, A a) (h : run step s as = some t) :
    as.countP counts + rank t ≤ rank s := by
  induction as generalizing s with
  | nil =>
    cases h
    rw [List.countP_nil, Nat.zero_add]
  | cons a as ih =>
    obtain ⟨u, hu, h⟩ := run_cons_eq_some.mp h
    have hAa : A a := hA a List.mem_cons_self
    have hlt := hrank hs hAa hu
    have hle := ih (hP hs hAa hu) (fun b hb => hA b (List.mem_cons_of_mem a hb)) h
    rw [List.countP_cons]
    omega

/-! ### States that can be reached -/

/-- Some run of actions that satisfy `A` ends in a state that satisfies `G`. -/
def Reaches (step : σ → α → Option σ) (A : α → Prop) (G : σ → Prop) (s : σ) : Prop :=
  ∃ as t, (∀ a ∈ as, A a) ∧ run step s as = some t ∧ G t

theorem Reaches.here {A : α → Prop} {G : σ → Prop} (h : G s) : Reaches step A G s :=
  ⟨[], s, fun _ ha => absurd ha List.not_mem_nil, rfl, h⟩

theorem Reaches.of_step {A : α → Prop} {G : σ → Prop} (ha : A a) (hstep : step s a = some t)
    (h : Reaches step A G t) : Reaches step A G s := by
  obtain ⟨as, u, has, hrun, hG⟩ := h
  exact ⟨a :: as, u, List.forall_mem_cons.mpr ⟨ha, has⟩,
    run_cons_eq_some.mpr ⟨t, hstep, hrun⟩, hG⟩

theorem Reaches.trans {A : α → Prop} {G H : σ → Prop} (h : Reaches step A H s)
    (hG : ∀ t, H t → Reaches step A G t) : Reaches step A G s := by
  obtain ⟨as, t, has, hrun, hH⟩ := h
  obtain ⟨bs, u, hbs, hrun', hGu⟩ := hG t hH
  exact ⟨as ++ bs, u, List.forall_mem_append.mpr ⟨has, hbs⟩,
    run_append_eq_some.mpr ⟨t, hrun, hrun'⟩, hGu⟩

/-- From where the goal is not met, a step lowers a rank. -/
theorem reaches_of_rank {A : α → Prop} {P G : σ → Prop} (rank : σ → ℕ)
    (hstep : ∀ s, P s → G s ∨ ∃ a t, A a ∧ step s a = some t ∧ P t ∧ rank t < rank s)
    (hs : P s) : Reaches step A G s := by
  induction hn : rank s using Nat.strong_induction_on generalizing s with
  | _ n ih =>
    subst hn
    rcases hstep s hs with hG | ⟨a, t, ha, ht, hP, hlt⟩
    · exact .here hG
    · exact .of_step ha ht (ih (rank t) hlt hP rfl)

/-! ### Observers -/

/-- The machine with a record beside its state. `note` sees each step before it is taken and
cannot influence it. -/
def observe (step : σ → α → Option σ) (note : γ → σ → α → γ) : γ × σ → α → Option (γ × σ)
  | (g, s), a => (step s a).map fun t => (note g s a, t)

variable {note : γ → σ → α → γ} {g g' : γ}

theorem observe_eq_some :
    observe step note (g, s) a = some (g', t) ↔ step s a = some t ∧ g' = note g s a := by
  simp only [observe, Option.map_eq_some_iff, Prod.mk.injEq]
  constructor
  · rintro ⟨_, h, rfl, rfl⟩
    exact ⟨h, rfl⟩
  · rintro ⟨h, rfl⟩
    exact ⟨t, h, rfl, rfl⟩

theorem along_observe {C : σ → α → Prop} :
    Along (observe step note) (fun x a => C x.2 a) (g, s) as ↔ Along step C s as := by
  induction as generalizing g s with
  | nil => rfl
  | cons a as ih =>
    refine and_congr_right fun _ => ⟨fun h t ht => ?_, fun h x hx => ?_⟩
    · exact ih.mp (h (note g s a, t) (observe_eq_some.mpr ⟨ht, rfl⟩))
    · obtain ⟨g₁, t⟩ := x
      exact ih.mpr (h t (observe_eq_some.mp hx).1)

theorem Always.of_observe {P : σ → Prop}
    (h : Always (observe step note) (fun x => P x.2) (g, s) as) : Always step P s as := by
  induction as generalizing g s with
  | nil => exact h
  | cons a as ih =>
    refine ⟨h.1, fun t ht => ?_⟩
    exact ih (h.2 (note g s a, t) (observe_eq_some.mpr ⟨ht, rfl⟩))

theorem always_observe_of_along {P : γ → σ → Prop} {C : σ → α → Prop}
    (hstep : ∀ {g s a t}, P g s → C s a → step s a = some t → P (note g s a) t)
    (hs : P g s) (hC : Along step C s as) :
    Always (observe step note) (fun x => P x.1 x.2) (g, s) as := by
  refine always_of_along (fun {x a y} hx hCa hy => ?_) hs (along_observe.mpr hC)
  obtain ⟨g, s⟩ := x
  obtain ⟨g', t⟩ := y
  obtain ⟨ht, rfl⟩ := observe_eq_some.mp hy
  exact hstep hx hCa ht

theorem always_observe_of_invariant {P : γ → σ → Prop}
    (hstep : ∀ {g s a t}, P g s → step s a = some t → P (note g s a) t)
    (hs : P g s) (as : List α) :
    Always (observe step note) (fun x => P x.1 x.2) (g, s) as :=
  always_observe_of_along (C := fun _ _ => True) (fun h _ ht => hstep h ht) hs
    (along_of_forall fun _ _ _ => trivial)

/-! ### One machine inside another -/

theorem Always.of_append {P : σ → Prop} {bs : List α} (h : Always step P s (as ++ bs))
    (hrun : run step s as = some t) : Always step P t bs := by
  induction as generalizing s with
  | nil => exact Option.some.inj hrun ▸ h
  | cons a as ih =>
    obtain ⟨u, hu, hrun⟩ := run_cons_eq_some.mp hrun
    exact ih (h.2 u hu) hrun

/-- Every step is some steps of another machine, seen through `f`: what holds in all runs of that
machine holds in all runs of this one. -/
theorem Always.of_simulates {τ β : Type*} {step' : τ → β → Option τ} {P : τ → Prop} (f : σ → τ)
    (acts : α → List β)
    (hsim : ∀ {s a t}, step s a = some t → run step' (f s) (acts a) = some (f t))
    (hP : ∀ bs, Always step' P (f s) bs) (as : List α) : Always step (fun s => P (f s)) s as := by
  induction as generalizing s with
  | nil => exact hP []
  | cons a as ih =>
    exact ⟨hP [], fun t ht => ih fun bs => (hP (acts a ++ bs)).of_append (hsim ht)⟩

/-! ### Threads -/

variable {ι β : Type*} [Fintype ι] [DecidableEq ι]

theorem exists_sum_eq {M : Type*} [AddCommMonoid M] (w : β → M) (l : ι → β) (i : ι) :
    ∃ rest, ∑ j, w (l j) = w (l i) + rest ∧
      ∀ x, ∑ j, w (Function.update l i x j) = w x + rest := by
  refine ⟨∑ j ∈ Finset.univ.erase i, w (l j),
    (Finset.add_sum_erase _ _ (Finset.mem_univ i)).symm, fun x => ?_⟩
  have hrest : ∑ j ∈ Finset.univ.erase i, w (Function.update l i x j) =
      ∑ j ∈ Finset.univ.erase i, w (l j) :=
    Finset.sum_congr rfl fun j hj => by rw [Function.update_of_ne (Finset.ne_of_mem_erase hj)]
  rw [← Finset.add_sum_erase _ _ (Finset.mem_univ i), hrest, Function.update_self]

theorem sum_update_add {M : Type*} [AddCommMonoid M] (w : β → M) (l : ι → β) (i : ι) (x : β) :
    ∑ j, w (Function.update l i x j) + w (l i) = ∑ j, w (l j) + w x := by
  obtain ⟨rest, hsum, hupdate⟩ := exists_sum_eq w l i
  rw [hsum, hupdate, add_right_comm (w (l i)), add_assoc (w (l i)), add_comm (w (l i))]

end Machine
