import Raicoin.Lattice.Change
import Mathlib.Algebra.BigOperators.Group.Finset.Basic

namespace Raicoin

instance (p b : Block) : Decidable (Follows p b) := inferInstanceAs (Decidable (_ ∧ _))

namespace Lattice

variable {env : Env} (A : Lattice env) {b p : Block}

-- The blocks that nothing stands on, one for each account.
def heads : Finset Block := A.blocks.filter fun b => ∀ c ∈ A.blocks, ¬Follows b c

theorem mem_heads : b ∈ A.heads ↔ b ∈ A.blocks ∧ ∀ c ∈ A.blocks, ¬Follows b c :=
  Finset.mem_filter

theorem mem_heads_push {h : A.Extends b} {x : Block} :
    x ∈ (A.push b h).heads ↔ x = b ∨ x ∈ A.heads ∧ ¬Follows x b := by
  simp only [mem_heads, push_blocks]
  constructor
  · rintro ⟨hx, htop⟩
    rcases Finset.mem_insert.mp hx with rfl | hx
    · exact .inl rfl
    · exact .inr ⟨⟨hx, fun c hc => htop c (Finset.mem_insert_of_mem hc)⟩,
        htop b (Finset.mem_insert_self _ _)⟩
  · rintro (rfl | ⟨⟨hx, htop⟩, hf⟩)
    · exact ⟨Finset.mem_insert_self _ _,
        Finset.forall_mem_insert _ _ _ |>.mpr ⟨Follows.irrefl _, h.top⟩⟩
    · exact ⟨Finset.mem_insert_of_mem hx, Finset.forall_mem_insert _ _ _ |>.mpr ⟨hf, htop⟩⟩

theorem not_mem_heads (h : A.Extends b) : b ∉ A.heads := fun hb => h.not_mem (A.mem_heads.mp hb).1

theorem heads_push_first (h : A.Extends b) (hz : b.height = 0) :
    (A.push b h).heads = insert b A.heads := by
  ext x
  rw [mem_heads_push, Finset.mem_insert, and_iff_left]
  unfold Follows
  omega

theorem heads_push_next (h : A.Extends b) (hp : p ∈ A.blocks) (hf : Follows p b) :
    (A.push b h).heads = insert b (A.heads.erase p) := by
  ext x
  rw [mem_heads_push, Finset.mem_insert, Finset.mem_erase, and_comm (a := x ≠ p)]
  refine or_congr_right (and_congr_right fun hx => not_congr ⟨fun hxb => ?_, ?_⟩)
  · exact Option.some.inj
      (A.before_unique (o := some x) ⟨(A.mem_heads.mp hx).1, hxb⟩
        (show Before A.blocks (some p) b from ⟨hp, hf⟩))
  · rintro rfl
    exact hf

-- The head of one account moves, the others stay.
theorem sum_heads_push {o : Option Block} (h : A.Extends b) (ho : Before A.blocks o b)
    (g : Block → Nat) :
    ∑ x ∈ (A.push b h).heads, g x + o.elim 0 g = ∑ x ∈ A.heads, g x + g b := by
  have hb := A.not_mem_heads h
  cases o with
  | none =>
      rw [A.heads_push_first h ho, Finset.sum_insert hb]
      simp [Nat.add_comm]
  | some p =>
      obtain ⟨hp, hf⟩ := ho
      have hhead : p ∈ A.heads :=
        A.mem_heads.mpr ⟨hp, fun c hc hpc => by
          obtain ⟨haccount, hheight⟩ := hpc.unique_right hf
          exact h.vacant c hc haccount hheight⟩
      rw [A.heads_push_next h hp hf, Finset.sum_insert (fun hmem => hb (Finset.mem_of_mem_erase hmem)),
        ← Finset.sum_erase_add _ _ hhead, Option.elim_some]
      omega

theorem sum_heads_pop {o : Option Block} (h : A.Removable b) (ho : Before A.blocks o b)
    (g : Block → Nat) :
    ∑ x ∈ A.heads, g x + o.elim 0 g = ∑ x ∈ (A.pop b h).heads, g x + g b := by
  have hpush := sum_heads_push _ h.extends (h.before ho) g
  rwa [h.push_pop] at hpush

end Lattice

end Raicoin
