import Mathlib.Data.List.Basic

/-! Code that performs operations, each of which may throw. What an operation throws is decided from
outside; the journal keeps every operation with what it threw. Code without branches of its own is
a list of operations, of which those up to the first that throws are performed. -/

namespace Fallible

variable {ι ε : Type} {α β : Type}

/-- What the operations from now on throw, and the operations so far. -/
structure Journal (ι ε : Type) where
  faults : ℕ → Option ε
  done : List (ι × Option ε)

def start (faults : ℕ → Option ε) : Journal ι ε := ⟨faults, []⟩

abbrev Code (ι ε α : Type) := ExceptT ε (StateM (Journal ι ε)) α

def operate (i : ι) : Code ι ε Unit := fun j =>
  (match j.faults 0 with
    | none => .ok ()
    | some e => .error e,
  ⟨fun n => j.faults (n + 1), j.done ++ [(i, j.faults 0)]⟩)

def note (i : ι) : Code ι ε Unit := fun j => (.ok (), { j with done := j.done ++ [(i, none)] })

/-- The operations up to the first that throws. -/
def performed (faults : ℕ → Option ε) : List ι → List (ι × Option ε)
  | [] => []
  | i :: is =>
    match faults 0 with
    | none => (i, none) :: performed (fun n => faults (n + 1)) is
    | some e => [(i, some e)]

def firstFault (faults : ℕ → Option ε) : ℕ → Option ε
  | 0 => none
  | n + 1 => (faults 0).or (firstFault (fun m => faults (m + 1)) n)

def Journal.after (j : Journal ι ε) (is : List ι) : Journal ι ε where
  faults n := j.faults (n + (performed j.faults is).length)
  done := j.done ++ performed j.faults is

/-- The code performs the list and returns `a`, unless one of the operations throws. -/
def Performs (m : Code ι ε α) (is : List ι) (a : α) : Prop :=
  ∀ j, m.run.run j =
    (match firstFault j.faults is.length with
      | none => .ok a
      | some e => .error e,
    j.after is)

variable {faults : ℕ → Option ε} {is is' : List ι} {i : ι} {e : ε}

theorem performed_of_none (h : firstFault faults is.length = none) :
    performed faults is = is.map fun i => (i, none) := by
  induction is generalizing faults with
  | nil => rfl
  | cons i is ih =>
    obtain ⟨h0, h⟩ := Option.or_eq_none_iff.mp h
    simp only [performed, h0, ih h, List.map_cons]

theorem performed_begins (faults : ℕ → Option ε) (is : List ι) :
    (performed faults is).map Prod.fst <+: is := by
  induction is generalizing faults with
  | nil => exact List.prefix_refl []
  | cons i is ih =>
    cases h0 : faults 0 with
    | none =>
      simp only [performed, h0, List.map_cons]
      exact List.cons_prefix_cons.mpr ⟨rfl, ih _⟩
    | some e =>
      simp only [performed, h0, List.map_cons, List.map_nil]
      exact List.cons_prefix_cons.mpr ⟨rfl, List.nil_prefix⟩

theorem performed_pairwise (faults : ℕ → Option ε) (is : List ι) :
    (performed faults is).Pairwise fun x _ => x.2 = none := by
  induction is generalizing faults with
  | nil => exact List.Pairwise.nil
  | cons i is ih =>
    cases h0 : faults 0 with
    | none =>
      simp only [performed, h0]
      exact List.Pairwise.cons (fun _ _ => rfl) (ih _)
    | some e =>
      simp only [performed, h0]
      exact List.pairwise_singleton _ _

theorem firstFault_add (m n : ℕ) : firstFault faults (m + n) =
    (firstFault faults m).or (firstFault (fun k => faults (k + m)) n) := by
  induction m generalizing faults with
  | zero => simp only [Nat.zero_add, firstFault, Option.none_or, Nat.add_zero]
  | succ m ih =>
    rw [Nat.succ_add]
    simp only [firstFault]
    rw [ih, Option.or_assoc]
    simp only [Nat.add_assoc]

theorem performed_append_of_none (h : firstFault faults is.length = none) :
    performed faults (is ++ is') =
      performed faults is ++ performed (fun n => faults (n + is.length)) is' := by
  induction is generalizing faults with
  | nil => rfl
  | cons i is ih =>
    obtain ⟨h0, h⟩ := Option.or_eq_none_iff.mp h
    simp only [List.cons_append, performed, h0, ih h, List.length_cons, Nat.add_assoc]

theorem performed_append_of_some (h : firstFault faults is.length = some e) :
    performed faults (is ++ is') = performed faults is := by
  induction is generalizing faults with
  | nil => cases h
  | cons i is ih =>
    cases h0 : faults 0 with
    | some e' => simp only [List.cons_append, performed, h0]
    | none =>
      simp only [List.length_cons, firstFault, h0, Option.none_or] at h
      simp only [List.cons_append, performed, h0, ih h]

/-! ### Rules -/

theorem Performs.pure (a : α) : Performs (pure a : Code ι ε α) [] a := by
  intro j
  show (_, _) = _
  simp only [Journal.after, performed, List.append_nil]
  rfl

theorem Performs.operate (i : ι) : Performs (operate i : Code ι ε Unit) [i] () := by
  intro j
  show (_, _) = _
  cases h0 : j.faults 0 with
  | none => simp [Journal.after, performed, firstFault, h0]
  | some e => simp [Journal.after, performed, firstFault, h0]

theorem Journal.after_append {j : Journal ι ε} (h : firstFault j.faults is.length = none) :
    j.after (is ++ is') = (j.after is).after is' := by
  have hlen : (performed j.faults is).length = is.length := by
    rw [performed_of_none h, List.length_map]
  simp only [Journal.after, performed_append_of_none h, hlen, List.length_append, List.append_assoc,
    Nat.add_assoc, Nat.add_comm is.length]

theorem Performs.bind {m : Code ι ε α} {f : α → Code ι ε β} {a : α} {b : β}
    (hm : Performs m is a) (hf : Performs (f a) is' b) : Performs (m >>= f) (is ++ is') b := by
  intro j
  rw [List.length_append, firstFault_add]
  simp only [ExceptT.run_bind, StateT.run_bind, hm j]
  cases hfault : firstFault j.faults is.length with
  | none =>
    have hlen : (performed j.faults is).length = is.length := by
      rw [performed_of_none hfault, List.length_map]
    rw [Option.none_or, Journal.after_append hfault]
    have hnext := hf (j.after is)
    simp only [Journal.after, hlen] at hnext ⊢
    exact hnext
  | some e =>
    have hafter : j.after (is ++ is') = j.after is := by
      simp only [Journal.after, performed_append_of_some hfault]
    rw [Option.some_or, hafter]
    rfl

theorem Performs.forM {κ : Type} {f : κ → Code ι ε Unit} {ops : κ → List ι} {xs : List κ}
    (hf : ∀ x ∈ xs, Performs (f x) (ops x) ()) : Performs (xs.forM f) (xs.flatMap ops) () := by
  induction xs with
  | nil => exact Performs.pure ()
  | cons x xs ih =>
    show Performs (f x >>= fun _ => xs.forM f) (ops x ++ xs.flatMap ops) ()
    exact (hf x List.mem_cons_self).bind (ih fun y hy => hf y (List.mem_cons_of_mem x hy))

theorem Performs.run_note {m : Code ι ε α} {a : α} (hm : Performs m is a) (i : ι)
    (j : Journal ι ε) : (m >>= fun _ => note i).run.run j =
      match firstFault j.faults is.length with
      | none => (.ok (), { j.after is with done := (j.after is).done ++ [(i, none)] })
      | some e => (.error e, j.after is) := by
  simp only [ExceptT.run_bind, StateT.run_bind, hm j]
  cases firstFault j.faults is.length <;> rfl

theorem run_tryCatch (m : Code ι ε α) (handler : ε → Code ι ε α) (j : Journal ι ε) :
    (tryCatch m handler).run.run j =
      match (m.run.run j).1 with
      | .ok a => (.ok a, (m.run.run j).2)
      | .error e => (handler e).run.run (m.run.run j).2 := by
  show (match (m.run.run j).1 with
    | .ok a => (Pure.pure (Except.ok a) : StateM (Journal ι ε) (Except ε α))
    | .error e => (handler e).run).run (m.run.run j).2 = _
  cases (m.run.run j).1 <;> rfl

end Fallible
