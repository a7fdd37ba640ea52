import Mathlib.Data.List.Perm.Subperm
import CppMetrics.Lib.OrderedMap

/-! The entries of greatest key among a history of recorded entries, and how a map that holds them
follows the history: fill it while there is room, replace the first entry when a greater one
comes, skip a smaller one, and move all keys by a strictly increasing function. -/

variable {P V : Type*} [LinearOrder P]

/-- `m` holds the `k` entries of greatest key among the recorded ones, all of them if there are
no more than `k`. -/
structure TopK (k : ℕ) (recorded : List (P × V)) (m : OrderedMap P V) : Prop where
  mem : ∀ kv ∈ m.entries, kv ∈ recorded
  size : m.size = min recorded.length k
  greatest : ∀ kv ∈ recorded, kv ∉ m.entries → ∀ kv' ∈ m.entries, kv.1 < kv'.1

namespace TopK

variable {k : ℕ} {recorded : List (P × V)} {m : OrderedMap P V} {p : P} {v : V} {first : P × V}

theorem nil : TopK k ([] : List (P × V)) OrderedMap.empty where
  mem _ h := h
  size := (Nat.zero_min k).symm
  greatest _ h := absurd h List.not_mem_nil

theorem fresh (h : TopK k recorded m) (hp : p ∉ recorded.map Prod.fst) : m.Fresh p := by
  refine OrderedMap.fresh_iff.mpr fun kv hkv => ?_
  rintro rfl
  exact hp (List.mem_map_of_mem (h.mem kv hkv))

theorem first_lt (hfirst : m.begin? = some first) {kv : P × V} (hkv : kv ∈ m.entries) :
    kv = first ∨ first.1 < kv.1 :=
  ((OrderedMap.begin?_eq_some hfirst).2 kv hkv).imp_right less_iff.mp

theorem perm_of_length_le (h : TopK k recorded m) (hk : recorded.length ≤ k) :
    m.entries.Perm recorded := by
  have hsize : m.entries.length = recorded.length := h.size.trans (Nat.min_eq_left hk)
  exact (List.subperm_of_subset m.entries_nodup h.mem).perm_of_length_le hsize.ge

theorem fill (h : TopK k recorded m) (hk : recorded.length < k)
    (hp : p ∉ recorded.map Prod.fst) : TopK k (recorded ++ [(p, v)]) (m.assign p v) where
  mem kv hkv := by
    rw [List.mem_append, List.mem_singleton]
    rcases OrderedMap.mem_assign.mp hkv with hkv | ⟨hkv, -⟩
    · exact Or.inr hkv
    · exact Or.inl (h.mem kv hkv)
  size := by
    rw [OrderedMap.size_assign_of_fresh (h.fresh hp), h.size, List.length_append,
      List.length_singleton]
    omega
  greatest kv hkv hout := by
    refine absurd (OrderedMap.mem_assign.mpr ?_) hout
    rcases List.mem_append.mp hkv with hin | hin
    · refine Or.inr ⟨(h.perm_of_length_le hk.le).mem_iff.mpr hin, ?_⟩
      rintro rfl
      exact hp (List.mem_map_of_mem hin)
    · exact Or.inl (List.mem_singleton.mp hin)

theorem skip (h : TopK k recorded m) (hk : k ≤ recorded.length) (hfirst : m.begin? = some first)
    (hlt : p < first.1) : TopK k (recorded ++ [(p, v)]) m where
  mem kv hkv := List.mem_append_left _ (h.mem kv hkv)
  size := by
    rw [h.size, List.length_append]
    omega
  greatest kv hkv hout kv' hkv' := by
    rcases List.mem_append.mp hkv with hkv | hkv
    · exact h.greatest kv hkv hout kv' hkv'
    · rw [List.mem_singleton.mp hkv]
      rcases first_lt hfirst hkv' with rfl | hle
      · exact hlt
      · exact hlt.trans hle

theorem evict (h : TopK k recorded m) (hk : k ≤ recorded.length) (hfirst : m.begin? = some first)
    (hlt : first.1 < p) (hp : p ∉ recorded.map Prod.fst) :
    TopK k (recorded ++ [(p, v)]) ((m.assign p v).erase first.1) := by
  obtain ⟨hmem, -⟩ := OrderedMap.begin?_eq_some hfirst
  have hfresh := h.fresh hp
  constructor
  case mem =>
    intro kv hkv
    rw [List.mem_append, List.mem_singleton]
    rcases OrderedMap.mem_assign.mp (OrderedMap.mem_erase_iff_ne.mp hkv).1 with hkv | ⟨hkv, -⟩
    · exact Or.inr hkv
    · exact Or.inl (h.mem kv hkv)
  case size =>
    have hkept : first ∈ (m.assign p v).entries :=
      (OrderedMap.assign_perm hfresh).mem_iff.mpr (List.mem_cons_of_mem _ hmem)
    have herase := OrderedMap.size_erase hkept
    rw [OrderedMap.size_assign_of_fresh hfresh, h.size] at herase
    rw [List.length_append]
    omega
  case greatest =>
    intro kv hkv hout kv' hkv'
    -- what is out was out before or is the evicted entry
    have hle : kv.1 ≤ first.1 := by
      rw [OrderedMap.mem_erase_iff_ne, OrderedMap.mem_assign] at hout
      rcases List.mem_append.mp hkv with hkv | hkv
      · by_cases hin : kv ∈ m.entries
        · have hne : kv.1 ≠ p := fun heq => hp (heq ▸ List.mem_map_of_mem hkv)
          by_contra hgt
          exact hout ⟨Or.inr ⟨hin, hne⟩, fun heq => hgt heq.le⟩
        · exact (h.greatest kv hkv hin first hmem).le
      · rw [List.mem_singleton] at hkv
        subst hkv
        exact absurd ⟨Or.inl rfl, hlt.ne'⟩ hout
    obtain ⟨hkv', hne⟩ := OrderedMap.mem_erase_iff_ne.mp hkv'
    rcases OrderedMap.mem_assign.mp hkv' with rfl | ⟨hkv', -⟩
    · exact hle.trans_lt hlt
    · rcases first_lt hfirst hkv' with rfl | hgt
      · exact absurd rfl hne
      · exact hle.trans_lt hgt

theorem map (h : TopK k recorded m) {f : P → P} (hf : StrictMono f) {m' : OrderedMap P V}
    (hm' : m'.entries = m.entries.map fun kv => (f kv.1, kv.2)) :
    TopK k (recorded.map fun kv => (f kv.1, kv.2)) m' where
  mem kv hkv := by
    rw [hm'] at hkv
    obtain ⟨x, hx, rfl⟩ := List.mem_map.mp hkv
    exact List.mem_map_of_mem (h.mem x hx)
  size := by
    have hsize : m'.size = m.size := by
      rw [OrderedMap.size, hm', List.length_map, OrderedMap.size]
    rw [hsize, h.size, List.length_map]
  greatest kv hkv hout kv' hkv' := by
    rw [hm'] at hout hkv'
    obtain ⟨x, hx, rfl⟩ := List.mem_map.mp hkv
    obtain ⟨y, hy, rfl⟩ := List.mem_map.mp hkv'
    exact hf (h.greatest x hx (fun hin => hout (List.mem_map_of_mem hin)) y hy)

end TopK
