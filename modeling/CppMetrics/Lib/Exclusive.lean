import Mathlib.Logic.Basic

/-! Things with at most one holder, and how a step can move them: give up, hand over, create. -/

def Exclusive {H I : Type*} (holds : H → I → Prop) : Prop :=
  ∀ ⦃i h k⦄, holds h i → holds k i → h = k

namespace Exclusive

variable {H I : Type*} {holds holds' : H → I → Prop} {h k : H} {i : I}

theorem mono (hex : Exclusive holds) (hsub : ∀ k j, holds' k j → holds k j) : Exclusive holds' :=
  fun _ _ _ hk hk' => hex (hsub _ _ hk) (hsub _ _ hk')

theorem move (hex : Exclusive holds) (hi : holds h i)
    (hsub : ∀ l j, holds' l j → holds l j ∧ ¬(l = h ∧ j = i) ∨ l = k ∧ j = i) :
    Exclusive holds' := by
  intro j l l' hl hl'
  rcases hsub l j hl with ⟨hold, hne⟩ | ⟨rfl, rfl⟩
  · rcases hsub l' j hl' with ⟨hold', -⟩ | ⟨rfl, rfl⟩
    · exact hex hold hold'
    · exact absurd ⟨hex hold hi, rfl⟩ hne
  · rcases hsub l' _ hl' with ⟨hold', hne'⟩ | ⟨rfl, -⟩
    · exact absurd ⟨hex hold' hi, rfl⟩ hne'
    · rfl

theorem create (hex : Exclusive holds) (hfresh : ∀ k, ¬holds k i)
    (hsub : ∀ k j, holds' k j → holds k j ∨ k = h ∧ j = i) : Exclusive holds' := by
  intro j k k' hk hk'
  rcases hsub k j hk with hold | ⟨rfl, rfl⟩
  · rcases hsub k' j hk' with hold' | ⟨rfl, rfl⟩
    · exact hex hold hold'
    · exact absurd hold (hfresh k)
  · rcases hsub k' _ hk' with hold' | ⟨rfl, -⟩
    · exact absurd hold' (hfresh k')
    · rfl

end Exclusive
