import Mathlib.Algebra.Order.Group.Multiset
import Mathlib.Algebra.Order.Group.Nat
import Mathlib.Data.List.Nodup
import Mathlib.Data.List.Pairwise
import CppMetrics.Lib.Double

/-! Ordered maps in the interface of `std::map`: entries in strictly increasing order of key,
assignment through `operator[]`, `insert` that keeps an entry with the same key, the first entry,
and `erase`. Two keys are the same to a map if neither is less than the other. -/

/-- The comparison of the keys. Not all keys need be comparable: among doubles NaN is less than no
key, and no key less than it. -/
class Less (P : Type*) where
  less : P → P → Bool
  irrefl (p : P) : less p p = false
  trans {p q r : P} : less p q = true → less q r = true → less p r = true

export Less (less)

instance Less.ofLinearOrder {P : Type*} [LinearOrder P] : Less P where
  less p q := p < q
  irrefl p := decide_eq_false (lt_irrefl p)
  trans hpq hqr := decide_eq_true ((of_decide_eq_true hpq).trans (of_decide_eq_true hqr))

@[simp] theorem less_iff {P : Type*} [LinearOrder P] {p q : P} : less p q = true ↔ p < q :=
  decide_eq_true_iff

instance Less.double {K : Type*} [LinearOrder K] : Less (Double K) where
  less := Double.lt
  irrefl := Double.lt_irrefl
  trans := Double.lt_trans

structure OrderedMap (P V : Type*) [Less P] where
  entries : List (P × V)
  sorted : entries.Pairwise fun a b => less a.1 b.1

namespace OrderedMap

variable {P V : Type*} [Less P]

/-- The entry that is written to is the first one whose key is not less than `p`, unless `p` is less
than that key. -/
def assignEntries (p : P) (v : V) : List (P × V) → List (P × V)
  | [] => [(p, v)]
  | kv :: l =>
    if less kv.1 p then kv :: assignEntries p v l
    else if less p kv.1 then (p, v) :: kv :: l
    else (kv.1, v) :: l

/-- Either `p` comes in between keys that are all comparable with it, or it is the same as one. -/
theorem assignEntries_cases (p : P) (v : V) {l : List (P × V)}
    (h : l.Pairwise fun a b => less a.1 b.1) :
    (∃ l₁ l₂, l = l₁ ++ l₂ ∧ assignEntries p v l = l₁ ++ (p, v) :: l₂ ∧
      (∀ kv ∈ l₁, less kv.1 p) ∧ ∀ kv ∈ l₂, less p kv.1) ∨
    ∃ l₁ kv l₂, l = l₁ ++ kv :: l₂ ∧ assignEntries p v l = l₁ ++ (kv.1, v) :: l₂ ∧
      ¬less kv.1 p ∧ ¬less p kv.1 := by
  induction l with
  | nil => exact Or.inl ⟨[], [], rfl, rfl, nofun, nofun⟩
  | cons kv l ih =>
    obtain ⟨hkv, hl⟩ := List.pairwise_cons.mp h
    rw [assignEntries]
    split_ifs with hlt hgt
    · rcases ih hl with ⟨l₁, l₂, rfl, heq, hless, hgreater⟩ | ⟨l₁, x, l₂, rfl, heq, hsame⟩
      · exact Or.inl ⟨kv :: l₁, l₂, rfl, congrArg _ heq, List.forall_mem_cons.mpr ⟨hlt, hless⟩,
          hgreater⟩
      · exact Or.inr ⟨kv :: l₁, x, l₂, rfl, congrArg _ heq, hsame⟩
    · have hgreater : ∀ x ∈ l, less p x.1 := fun x hx => Less.trans hgt (hkv x hx)
      exact Or.inl ⟨[], kv :: l, rfl, rfl, nofun, List.forall_mem_cons.mpr ⟨hgt, hgreater⟩⟩
    · exact Or.inr ⟨[], kv, l, rfl, rfl, hlt, hgt⟩

theorem sorted_assignEntries (p : P) (v : V) {l : List (P × V)}
    (h : l.Pairwise fun a b => less a.1 b.1) :
    (assignEntries p v l).Pairwise fun a b => less a.1 b.1 := by
  rcases assignEntries_cases p v h with
    ⟨l₁, l₂, rfl, heq, hless, hgreater⟩ | ⟨l₁, kv, l₂, rfl, heq, -⟩
  · rw [heq, List.pairwise_append, List.pairwise_cons]
    obtain ⟨h₁, h₂, hcross⟩ := List.pairwise_append.mp h
    refine ⟨h₁, ⟨hgreater, h₂⟩, fun x hx y hy => ?_⟩
    rcases List.mem_cons.mp hy with rfl | hy
    · exact hless x hx
    · exact hcross x hx y hy
  · rw [heq]
    -- the keys are what they were
    rw [← List.pairwise_map (f := Prod.fst) (R := fun a b => less a b = true)] at h ⊢
    simpa only [List.map_append, List.map_cons] using h

def assign (p : P) (v : V) (m : OrderedMap P V) : OrderedMap P V :=
  ⟨assignEntries p v m.entries, sorted_assignEntries p v m.sorted⟩

def empty : OrderedMap P V := ⟨[], List.Pairwise.nil⟩

def size (m : OrderedMap P V) : ℕ := m.entries.length

def begin? (m : OrderedMap P V) : Option (P × V) := m.entries.head?

def Fresh (p : P) (m : OrderedMap P V) : Prop :=
  ∀ kv ∈ m.entries, less kv.1 p = true ∨ less p kv.1 = true

instance (p : P) (m : OrderedMap P V) : Decidable (m.Fresh p) :=
  inferInstanceAs (Decidable (∀ kv ∈ m.entries, less kv.1 p = true ∨ less p kv.1 = true))

def insert (p : P) (v : V) (m : OrderedMap P V) : OrderedMap P V × Bool :=
  if m.Fresh p then (m.assign p v, true) else (m, false)

def erase (p : P) (m : OrderedMap P V) : OrderedMap P V :=
  ⟨m.entries.filter fun kv => less kv.1 p || less p kv.1, m.sorted.filter _⟩

def assignAll (l : List (P × V)) (m : OrderedMap P V) : OrderedMap P V :=
  l.foldl (fun m kv => m.assign kv.1 kv.2) m

variable {m : OrderedMap P V} {p : P} {v : V} {kv : P × V}

/-! ### Entries -/

theorem entries_nodup (m : OrderedMap P V) : m.entries.Nodup :=
  m.sorted.imp fun {a b} hlt heq => by
    rw [heq, Less.irrefl] at hlt
    exact Bool.false_ne_true hlt

theorem assign_cases (p : P) (v : V) (m : OrderedMap P V) :
    (m.Fresh p ∧ (m.assign p v).entries.Perm ((p, v) :: m.entries)) ∨
    ¬m.Fresh p ∧ ∃ l₁ kv l₂, m.entries = l₁ ++ kv :: l₂ ∧ ¬less kv.1 p ∧ ¬less p kv.1 ∧
      (m.assign p v).entries = l₁ ++ (kv.1, v) :: l₂ := by
  rcases assignEntries_cases p v m.sorted with
    ⟨l₁, l₂, hl, heq, hless, hgreater⟩ | ⟨l₁, kv, l₂, hl, heq, hlt, hgt⟩
  · refine Or.inl ⟨fun kv hkv => ?_, ?_⟩
    · rw [hl] at hkv
      exact (List.mem_append.mp hkv).imp (hless kv) (hgreater kv)
    · rw [hl]
      exact (List.Perm.of_eq heq).trans List.perm_middle
  · refine Or.inr ⟨fun hfresh => ?_, l₁, kv, l₂, hl, hlt, hgt, heq⟩
    have hmem : kv ∈ m.entries := hl ▸ List.mem_append_right _ List.mem_cons_self
    exact (hfresh kv hmem).elim hlt hgt

theorem assign_perm (h : m.Fresh p) : (m.assign p v).entries.Perm ((p, v) :: m.entries) :=
  (assign_cases p v m).elim And.right fun hnot => absurd h hnot.1

theorem size_assign_of_fresh (h : m.Fresh p) : (m.assign p v).size = m.size + 1 :=
  (assign_perm h).length_eq

theorem size_assign_of_not_fresh (h : ¬m.Fresh p) : (m.assign p v).size = m.size := by
  rcases assign_cases p v m with ⟨hfresh, -⟩ | ⟨-, l₁, kv, l₂, hl, -, -, heq⟩
  · exact absurd hfresh h
  · rw [size, size, heq, hl, List.length_append, List.length_append]
    rfl

theorem size_assign_le : (m.assign p v).size ≤ m.size + 1 := by
  by_cases h : m.Fresh p
  · exact (size_assign_of_fresh h).le
  · rw [size_assign_of_not_fresh h]
    exact Nat.le_succ _

theorem size_assign_pos : 0 < (m.assign p v).size := by
  rcases assign_cases p v m with ⟨hfresh, -⟩ | ⟨-, l₁, kv, l₂, -, -, -, heq⟩
  · rw [size_assign_of_fresh hfresh]
    exact Nat.succ_pos _
  · rw [size, heq, List.length_append, List.length_cons]
    exact Nat.succ_pos _

theorem not_fresh_assign : ¬(m.assign p v).Fresh p := by
  intro h
  rcases assign_cases p v m with ⟨-, hperm⟩ | ⟨-, l₁, kv, l₂, -, hlt, hgt, heq⟩
  · have hself := h (p, v) (hperm.mem_iff.mpr List.mem_cons_self)
    simp only [Less.irrefl, Bool.false_eq_true, or_self] at hself
  · exact (h (kv.1, v) (heq ▸ List.mem_append_right _ List.mem_cons_self)).elim hlt hgt

/-! ### First entry and erasure -/

theorem begin?_eq_none_iff : m.begin? = none ↔ m.size = 0 := by
  rw [begin?, List.head?_eq_none_iff, size, List.length_eq_zero_iff]

theorem begin?_eq_some {first : P × V} (h : m.begin? = some first) :
    first ∈ m.entries ∧ ∀ kv ∈ m.entries, kv = first ∨ less first.1 kv.1 := by
  obtain ⟨l, hl⟩ := List.head?_eq_some_iff.mp h
  have hsorted := m.sorted
  rw [hl] at hsorted ⊢
  obtain ⟨hfirst, -⟩ := List.pairwise_cons.mp hsorted
  refine ⟨List.mem_cons_self, fun kv hkv => ?_⟩
  exact (List.mem_cons.mp hkv).imp_right (hfirst kv)

theorem mem_erase :
    kv ∈ (m.erase p).entries ↔ kv ∈ m.entries ∧ (less kv.1 p ∨ less p kv.1) := by
  simp [erase]

theorem size_erase (h : kv ∈ m.entries) : (m.erase kv.1).size + 1 = m.size := by
  obtain ⟨l₁, l₂, hl⟩ := List.append_of_mem h
  have hsorted := m.sorted
  rw [hl, List.pairwise_append, List.pairwise_cons] at hsorted
  obtain ⟨-, ⟨hgreater, -⟩, hless⟩ := hsorted
  have h₁ : l₁.filter (fun x => less x.1 kv.1 || less kv.1 x.1) = l₁ :=
    List.filter_eq_self.mpr fun x hx => by rw [hless x hx kv List.mem_cons_self, Bool.true_or]
  have h₂ : l₂.filter (fun x => less x.1 kv.1 || less kv.1 x.1) = l₂ :=
    List.filter_eq_self.mpr fun x hx => by rw [hgreater x hx, Bool.or_true]
  have herase : (m.erase kv.1).entries = l₁ ++ l₂ := by
    simp only [erase, hl, List.filter_append, List.filter_cons, h₁, h₂, Less.irrefl, Bool.or_self,
      Bool.false_eq_true, if_false]
  rw [size, size, herase, hl, List.length_append, List.length_append, List.length_cons]
  rfl

theorem insert_of_fresh (h : m.Fresh p) : m.insert p v = (m.assign p v, true) := if_pos h

theorem insert_of_not_fresh (h : ¬m.Fresh p) : m.insert p v = (m, false) := if_neg h

/-! ### Assigning a list of entries -/

theorem size_assignAll_le (l : List (P × V)) : (m.assignAll l).size ≤ m.size + l.length := by
  induction l generalizing m with
  | nil => exact le_rfl
  | cons kv l ih =>
    have hle : ((m.assign kv.1 kv.2).assignAll l).size ≤ (m.assign kv.1 kv.2).size + l.length := ih
    have hassign : (m.assign kv.1 kv.2).size ≤ m.size + 1 := size_assign_le
    rw [assignAll, List.foldl_cons, List.length_cons]
    exact hle.trans (by omega)

theorem assignEntries_of_less {l : List (P × V)} (h : ∀ kv ∈ l, less kv.1 p) :
    assignEntries p v l = l ++ [(p, v)] := by
  induction l with
  | nil => rfl
  | cons kv l ih =>
    have hl : ∀ x ∈ l, less x.1 p := fun x hx => h x (List.mem_cons_of_mem _ hx)
    rw [assignEntries, if_pos (h kv List.mem_cons_self), ih hl, List.cons_append]

theorem entries_assignAll {l : List (P × V)}
    (h : (m.entries ++ l).Pairwise fun a b => less a.1 b.1) :
    (m.assignAll l).entries = m.entries ++ l := by
  induction l generalizing m with
  | nil => exact (List.append_nil _).symm
  | cons kv l ih =>
    have hlt : ∀ x ∈ m.entries, less x.1 kv.1 := fun x hx =>
      (List.pairwise_append.mp h).2.2 x hx kv List.mem_cons_self
    have hassign : (m.assign kv.1 kv.2).entries = m.entries ++ [kv] := assignEntries_of_less hlt
    rw [List.append_cons, ← hassign] at h
    rw [List.append_cons, ← hassign]
    exact ih h

/-! ### The values, however often each occurs -/

def values (m : OrderedMap P V) : Multiset V := ↑(m.entries.map Prod.snd)

theorem values_assign_le : (m.assign p v).values ≤ v ::ₘ m.values := by
  rcases assign_cases p v m with ⟨-, hperm⟩ | ⟨-, l₁, kv, l₂, hl, -, -, heq⟩
  · exact (Multiset.coe_eq_coe.mpr (hperm.map Prod.snd)).le
  · have hsub : (l₁ ++ (kv.1, v) :: l₂).Subperm ((kv.1, v) :: (l₁ ++ kv :: l₂)) := by
      refine (List.perm_middle.subperm).trans ?_
      exact (List.subperm_cons _).mpr ((List.sublist_cons_self kv l₂).append_left l₁).subperm
    rw [values, values, heq, hl]
    exact Multiset.map_le_map (f := Prod.snd) (Multiset.coe_le.mpr hsub)

theorem values_erase_le : (m.erase p).values ≤ m.values :=
  Multiset.coe_le.mpr ((List.filter_sublist.map Prod.snd).subperm)

theorem values_assignAll_le (l : List (P × V)) :
    (m.assignAll l).values ≤ m.values + ↑(l.map Prod.snd) := by
  induction l generalizing m with
  | nil => exact (add_zero m.values).ge
  | cons kv l ih =>
    have hassign : (m.assign kv.1 kv.2).values ≤ kv.2 ::ₘ m.values := values_assign_le
    have hrest : ((m.assign kv.1 kv.2).assignAll l).values ≤
        (m.assign kv.1 kv.2).values + ↑(l.map Prod.snd) := ih
    refine hrest.trans ((add_le_add_left hassign _).trans_eq ?_)
    rw [List.map_cons, ← Multiset.cons_coe, Multiset.cons_add, Multiset.add_cons]

/-! ### Keys in a linear order -/

section Linear

variable {P : Type*} [LinearOrder P] {m : OrderedMap P V} {p : P} {kv : P × V}

theorem fresh_iff : m.Fresh p ↔ ∀ kv ∈ m.entries, kv.1 ≠ p := by
  simp only [Fresh, less_iff, ne_iff_lt_or_gt]

theorem mem_assign : kv ∈ (m.assign p v).entries ↔ kv = (p, v) ∨ kv ∈ m.entries ∧ kv.1 ≠ p := by
  rcases assign_cases p v m with ⟨hfresh, hperm⟩ | ⟨-, l₁, x, l₂, hl, hlt, hgt, heq⟩
  · rw [hperm.mem_iff, List.mem_cons]
    exact or_congr_right ⟨fun hkv => ⟨hkv, fresh_iff.mp hfresh kv hkv⟩, And.left⟩
  · have hsorted := m.sorted
    rw [hl, List.pairwise_append, List.pairwise_cons] at hsorted
    obtain ⟨-, ⟨hgreater, -⟩, hless⟩ := hsorted
    obtain rfl : x.1 = p :=
      le_antisymm (not_lt.mp (mt less_iff.mpr hgt)) (not_lt.mp (mt less_iff.mpr hlt))
    have h₁ : ∀ kv ∈ l₁, kv.1 ≠ x.1 := fun kv hkv =>
      (less_iff.mp (hless kv hkv x List.mem_cons_self)).ne
    have h₂ : ∀ kv ∈ l₂, kv.1 ≠ x.1 := fun kv hkv => (less_iff.mp (hgreater kv hkv)).ne'
    rw [heq, hl]
    simp only [List.mem_append, List.mem_cons]
    constructor
    · rintro (hkv | rfl | hkv)
      · exact Or.inr ⟨Or.inl hkv, h₁ kv hkv⟩
      · exact Or.inl rfl
      · exact Or.inr ⟨Or.inr (Or.inr hkv), h₂ kv hkv⟩
    · rintro (rfl | ⟨hkv | rfl | hkv, hne⟩)
      · exact Or.inr (Or.inl rfl)
      · exact Or.inl hkv
      · exact absurd rfl hne
      · exact Or.inr (Or.inr hkv)

theorem mem_erase_iff_ne : kv ∈ (m.erase p).entries ↔ kv ∈ m.entries ∧ kv.1 ≠ p := by
  rw [mem_erase, less_iff, less_iff, ne_iff_lt_or_gt]

theorem entries_assignAll_map {f : P → P} (hf : StrictMono f) (m : OrderedMap P V) :
    (empty.assignAll (m.entries.map fun kv => (f kv.1, kv.2))).entries =
      m.entries.map fun kv => (f kv.1, kv.2) :=
  entries_assignAll (m := empty) (List.pairwise_map.mpr
    (m.sorted.imp fun hab => less_iff.mpr (hf (less_iff.mp hab))))

end Linear

end OrderedMap
