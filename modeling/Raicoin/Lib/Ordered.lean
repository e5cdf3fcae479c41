import Mathlib.Data.List.Sort
import Mathlib.Data.Finset.Basic

namespace Raicoin.Lib

variable {α : Type} (r : α → α → Prop) [DecidableRel r] [IsTrans α r] [Std.Antisymm r] [Std.Total r]

-- The elements of a finite set as an iteration in the order `r` visits them.
-- The sort is a structural recursion, so that it computes in the kernel.
def inOrder (s : Finset α) : List α :=
  Quot.liftOn s.val (List.insertionSort r) fun first second h =>
    ((List.perm_insertionSort r first).trans
      (h.trans (List.perm_insertionSort r second).symm)).eq_of_pairwise' (r := r)
      (List.pairwise_insertionSort r first) (List.pairwise_insertionSort r second)

theorem inOrder_coe (s : Finset α) : (inOrder r s : Multiset α) = s.val := by
  obtain ⟨entries, hnodup⟩ := s
  induction entries using Quot.inductionOn with
  | h list => exact Quot.sound (List.perm_insertionSort r list)

@[simp] theorem mem_inOrder {s : Finset α} {a : α} : a ∈ inOrder r s ↔ a ∈ s := by
  rw [← Multiset.mem_coe, inOrder_coe, Finset.mem_val]

theorem nodup_inOrder (s : Finset α) : (inOrder r s).Nodup := by
  rw [← Multiset.coe_nodup, inOrder_coe]
  exact s.nodup

theorem pairwise_inOrder (s : Finset α) : (inOrder r s).Pairwise r := by
  obtain ⟨entries, hnodup⟩ := s
  induction entries using Quot.inductionOn with
  | h list => exact List.pairwise_insertionSort r list

end Raicoin.Lib
