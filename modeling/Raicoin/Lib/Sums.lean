import Mathlib.Algebra.Ring.Nat
import Mathlib.Algebra.Order.BigOperators.Group.Finset

-- Sums over items that are matched with others.
namespace Raicoin.Lib

variable {α β : Type} {s : Finset α} {t : Finset β}

-- Items that each have a match of their own add up to no more than the matches.
theorem sum_le_of_matched [DecidableEq β] (R : α → β → Prop) {f : α → Nat} {g : β → Nat}
    (hmatch : ∀ a ∈ s, ∃ b ∈ t, R a b ∧ f a ≤ g b)
    (honce : ∀ a ∈ s, ∀ a' ∈ s, ∀ b ∈ t, R a b → R a' b → a = a') :
    ∑ a ∈ s, f a ≤ ∑ b ∈ t, g b := by
  rcases s.eq_empty_or_nonempty with rfl | ⟨a₀, ha₀⟩
  · simp
  obtain ⟨b₀, -⟩ := hmatch a₀ ha₀
  have : Nonempty β := ⟨b₀⟩
  choose! e hmem hR hle using hmatch
  have hinj : Set.InjOn e s := fun a ha a' ha' he =>
    honce a ha a' ha' (e a) (hmem a ha) (hR a ha) (he ▸ hR a' ha')
  calc
    ∑ a ∈ s, f a ≤ ∑ a ∈ s, g (e a) := Finset.sum_le_sum hle
    _ = ∑ b ∈ s.image e, g b := (Finset.sum_image hinj).symm
    _ ≤ ∑ b ∈ t, g b := Finset.sum_le_sum_of_subset fun b hb => by
      obtain ⟨a, ha, rfl⟩ := Finset.mem_image.mp hb
      exact hmem a ha

-- Where no item has two matches, summing by match is summing the items with one.
theorem sum_by_match (R : α → β → Prop) [DecidableRel R] (g : α → Nat)
    (hone : ∀ a ∈ s, ∀ b ∈ t, ∀ b' ∈ t, R a b → R a b' → b = b') :
    ∑ b ∈ t, ∑ a ∈ s with R a b, g a = ∑ a ∈ s with ∃ b ∈ t, R a b, g a := by
  simp only [Finset.sum_filter]
  rw [Finset.sum_comm]
  refine Finset.sum_congr rfl fun a ha => ?_
  split
  · rename_i hex
    obtain ⟨b, hb, hab⟩ := hex
    rw [Finset.sum_eq_single_of_mem b hb fun b' hb' hne => ?_, if_pos hab]
    exact if_neg fun hab' => hne (hone a ha b' hb' b hb hab' hab)
  · rename_i hnone
    exact Finset.sum_eq_zero fun b hb => if_neg fun hab => hnone ⟨b, hb, hab⟩

end Raicoin.Lib
