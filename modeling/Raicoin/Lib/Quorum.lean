import Mathlib.Algebra.Ring.Nat
import Mathlib.Algebra.BigOperators.Group.Finset.Basic
import Mathlib.Algebra.Order.BigOperators.Group.Finset

-- Weighted quorums.
namespace Raicoin.Lib

variable {α : Type} [DecidableEq α] {s t u : Finset α} {f : α → Nat}

-- What two sets have in common weighs at least what they have too much together.
theorem sum_add_sum_le_inter (hs : s ⊆ u) (ht : t ⊆ u) :
    ∑ a ∈ s, f a + ∑ a ∈ t, f a ≤ ∑ a ∈ u, f a + ∑ a ∈ s ∩ t, f a := by
  have hunion : ∑ a ∈ s ∪ t, f a ≤ ∑ a ∈ u, f a :=
    Finset.sum_le_sum_of_subset (Finset.union_subset hs ht)
  have hsplit := @Finset.sum_union_inter α Nat s t _ f _
  omega

-- Two quorums of more than `percent` percent of a total share more than twice that
-- percentage, less the whole.
theorem quorums_intersect {total percent : Nat} (hs : s ⊆ u) (ht : t ⊆ u)
    (htotal : ∑ a ∈ u, f a ≤ total) (hfirst : total * percent < (∑ a ∈ s, f a) * 100)
    (hsecond : total * percent < (∑ a ∈ t, f a) * 100) :
    total * percent + total * percent < (∑ a ∈ s ∩ t, f a) * 100 + total * 100 := by
  have hinter := @sum_add_sum_le_inter α _ s t u f hs ht
  omega

-- So disjoint quorums of half the total or more cannot both exist.
theorem quorums_not_disjoint {total percent : Nat} (hhalf : 50 ≤ percent) (hs : s ⊆ u) (ht : t ⊆ u)
    (htotal : ∑ a ∈ u, f a ≤ total) (hfirst : total * percent < (∑ a ∈ s, f a) * 100)
    (hsecond : total * percent < (∑ a ∈ t, f a) * 100) : ¬Disjoint s t := by
  intro hdisjoint
  have hinter := quorums_intersect hs ht htotal hfirst hsecond
  rw [Finset.disjoint_iff_inter_eq_empty.mp hdisjoint, Finset.sum_empty] at hinter
  have hle : total * 50 ≤ total * percent := Nat.mul_le_mul_left total hhalf
  omega

end Raicoin.Lib
