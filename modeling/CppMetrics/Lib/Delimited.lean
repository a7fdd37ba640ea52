import Mathlib.Data.List.Basic

/-! Texts made of records: what the last separator cuts off, when a concatenation of records tells
the records, and what is read of one that breaks off. -/

namespace Delimited

variable {α β : Type*}

/-- The last separator cuts a text into what is before it and after it. -/
theorem append_cons_inj {a : α} {xs ys zs ws : List α} (hzs : a ∉ zs) (hws : a ∉ ws) :
    xs ++ a :: zs = ys ++ a :: ws ↔ xs = ys ∧ zs = ws := by
  constructor
  · intro heq
    rcases List.append_eq_append_iff.mp heq with ⟨us, rfl, hus⟩ | ⟨us, rfl, hus⟩
    · cases us with
      | nil => simpa using hus
      | cons u us =>
        rw [List.cons_append, List.cons.injEq] at hus
        exact absurd (hus.2 ▸ List.mem_append_right us List.mem_cons_self) hzs
    · cases us with
      | nil => simpa [eq_comm] using hus
      | cons u us =>
        rw [List.cons_append, List.cons.injEq] at hus
        exact absurd (hus.2 ▸ List.mem_append_right us List.mem_cons_self) hws
  · rintro ⟨rfl, rfl⟩
    rfl

def Told (ok : β → Prop) (record : β → List α) : Prop :=
  ∀ x y rest rest', ok x → ok y → record x ++ rest = record y ++ rest' → x = y ∧ rest = rest'

theorem Told.flatMap_inj {ok : β → Prop} {record : β → List α} (h : Told ok record)
    (hne : ∀ x, record x ≠ []) {xs ys : List β} (hxs : ∀ x ∈ xs, ok x) (hys : ∀ y ∈ ys, ok y)
    (heq : xs.flatMap record = ys.flatMap record) : xs = ys := by
  induction xs generalizing ys with
  | nil =>
    cases ys with
    | nil => rfl
    | cons y ys =>
      rw [List.flatMap_nil, List.flatMap_cons] at heq
      exact absurd (List.append_eq_nil_iff.mp heq.symm).1 (hne y)
  | cons x xs ih =>
    cases ys with
    | nil =>
      rw [List.flatMap_nil, List.flatMap_cons] at heq
      exact absurd (List.append_eq_nil_iff.mp heq).1 (hne x)
    | cons y ys =>
      rw [List.flatMap_cons, List.flatMap_cons] at heq
      obtain ⟨rfl, hrest⟩ :=
        h x y _ _ (hxs x List.mem_cons_self) (hys y List.mem_cons_self) heq
      rw [ih (fun z hz => hxs z (List.mem_cons_of_mem x hz))
        (fun z hz => hys z (List.mem_cons_of_mem x hz)) hrest]

/-! ### Reading -/

section

variable [DecidableEq α]

/-- The records that a terminator ends. A record that is not ended is dropped. -/
def terminated (a : α) : List α → List α → List (List α)
  | _, [] => []
  | started, b :: text =>
    if b = a then started :: terminated a [] text else terminated a (started ++ [b]) text

def cutLast (a : α) : List α → Option (List α × List α)
  | [] => none
  | b :: text =>
    match cutLast a text with
    | some (xs, zs) => some (b :: xs, zs)
    | none => if b = a then some ([], text) else none

variable {a : α}

theorem terminated_append {xs : List α} (hxs : a ∉ xs) (started rest : List α) :
    terminated a started (xs ++ rest) = terminated a (started ++ xs) rest := by
  induction xs generalizing started with
  | nil => rw [List.nil_append, List.append_nil]
  | cons x xs ih =>
    rw [List.mem_cons, not_or] at hxs
    rw [List.cons_append, terminated, if_neg (Ne.symm hxs.1), ih hxs.2, List.append_assoc,
      List.singleton_append]

theorem terminated_of_notMem {xs : List α} (hxs : a ∉ xs) (started : List α) :
    terminated a started xs = [] := by
  have h := terminated_append hxs started []
  rw [List.append_nil] at h
  rw [h, terminated]

theorem terminated_record {xs : List α} (hxs : a ∉ xs) (rest : List α) :
    terminated a [] (xs ++ a :: rest) = xs :: terminated a [] rest := by
  rw [terminated_append hxs, List.nil_append, terminated, if_pos rfl]

theorem terminated_flatMap {record : β → List α} {xs : List β} (hxs : ∀ x ∈ xs, a ∉ record x) :
    terminated a [] (xs.flatMap fun x => record x ++ [a]) = xs.map record := by
  induction xs with
  | nil => rfl
  | cons x xs ih =>
    rw [List.flatMap_cons, List.append_assoc, List.singleton_append,
      terminated_record (hxs x List.mem_cons_self),
      ih fun y hy => hxs y (List.mem_cons_of_mem x hy), List.map_cons]

theorem terminated_begins {record : β → List α} {xs : List β} (hxs : ∀ x ∈ xs, a ∉ record x)
    {text : List α} (h : text <+: xs.flatMap fun x => record x ++ [a]) :
    terminated a [] text <+: xs.map record := by
  induction xs generalizing text with
  | nil =>
    rw [List.flatMap_nil, List.prefix_nil] at h
    rw [h]
    exact List.nil_prefix
  | cons x xs ih =>
    obtain ⟨missing, h⟩ := h
    have hx : a ∉ record x := hxs x List.mem_cons_self
    rw [List.flatMap_cons, List.append_assoc, List.singleton_append] at h
    rcases List.append_eq_append_iff.mp h with ⟨us, hus, -⟩ | ⟨us, rfl, hus⟩
    · -- the text ends before the first terminator
      have htext : a ∉ text := fun hmem => hx (hus ▸ List.mem_append_left us hmem)
      rw [terminated_of_notMem htext]
      exact List.nil_prefix
    · cases us with
      | nil =>
        rw [List.append_nil, terminated_of_notMem hx]
        exact List.nil_prefix
      | cons u us =>
        rw [List.cons_append, List.cons.injEq] at hus
        obtain ⟨rfl, hrest⟩ := hus
        rw [terminated_record hx, List.map_cons, List.cons_prefix_cons]
        exact ⟨rfl, ih (fun y hy => hxs y (List.mem_cons_of_mem x hy)) ⟨missing, hrest.symm⟩⟩

theorem flatMap_terminated_inj {xs ys : List (List α)} (hxs : ∀ x ∈ xs, a ∉ x)
    (hys : ∀ y ∈ ys, a ∉ y)
    (h : (xs.flatMap fun x => x ++ [a]) = ys.flatMap fun y => y ++ [a]) : xs = ys := by
  have hx : terminated a [] (xs.flatMap fun x => x ++ [a]) = xs.map id := terminated_flatMap hxs
  have hy : terminated a [] (ys.flatMap fun y => y ++ [a]) = ys.map id := terminated_flatMap hys
  rw [h, hy, List.map_id, List.map_id] at hx
  exact hx.symm

theorem cutLast_of_notMem {zs : List α} (hzs : a ∉ zs) : cutLast a zs = none := by
  induction zs with
  | nil => rfl
  | cons z zs ih =>
    rw [List.mem_cons, not_or] at hzs
    rw [cutLast, ih hzs.2]
    exact if_neg (Ne.symm hzs.1)

theorem cutLast_append_cons {zs : List α} (hzs : a ∉ zs) (xs : List α) :
    cutLast a (xs ++ a :: zs) = some (xs, zs) := by
  induction xs with
  | nil =>
    rw [List.nil_append, cutLast, cutLast_of_notMem hzs]
    exact if_pos rfl
  | cons x xs ih => rw [List.cons_append, cutLast, ih]

end

/-! ### Forms -/

def fill (form : List (List α × List α)) (fields : List (List α)) : List (List α) :=
  List.zipWith (fun around field => around.1 ++ field ++ around.2) form fields

theorem length_fill {form : List (List α × List α)} {fields : List (List α)}
    (h : fields.length = form.length) : (fill form fields).length = form.length := by
  rw [fill, List.length_zipWith, h, Nat.min_self]

theorem fill_inj {form : List (List α × List α)} {fields fields' : List (List α)}
    (h : fields.length = form.length) (h' : fields'.length = form.length)
    (heq : fill form fields = fill form fields') : fields = fields' := by
  induction form generalizing fields fields' with
  | nil => rw [List.length_eq_zero_iff.mp h, List.length_eq_zero_iff.mp h']
  | cons around form ih =>
    cases fields with
    | nil => cases h
    | cons field fields =>
      cases fields' with
      | nil => cases h'
      | cons field' fields' =>
        rw [fill, fill, List.zipWith_cons_cons, List.zipWith_cons_cons, List.cons.injEq,
          List.append_left_inj, List.append_right_inj] at heq
        rw [heq.1, ih (Nat.succ.inj h) (Nat.succ.inj h') heq.2]

theorem notMem_fill {a : α} {form : List (List α × List α)} {fields : List (List α)}
    (hform : ∀ around ∈ form, a ∉ around.1 ∧ a ∉ around.2) (hfields : ∀ field ∈ fields, a ∉ field) :
    ∀ x ∈ fill form fields, a ∉ x := by
  induction form generalizing fields with
  | nil => exact fun x hx => absurd hx List.not_mem_nil
  | cons around form ih =>
    cases fields with
    | nil => exact fun x hx => absurd hx List.not_mem_nil
    | cons field fields =>
      rw [List.forall_mem_cons] at hform hfields
      rw [fill, List.zipWith_cons_cons, List.forall_mem_cons]
      refine ⟨?_, ih hform.2 hfields.2⟩
      simp only [List.mem_append, not_or]
      exact ⟨⟨hform.1.1, hfields.1⟩, hform.1.2⟩

end Delimited
