import Raicoin.Lattice.Heads
import Raicoin.Node.BlockProcessor.Dynamic
import Raicoin.Refinement.Represents

-- The heads that the account infos point to are the heads of the lattice.
namespace Raicoin

open Lib

-- The sum of a measure of the head blocks of all accounts.
def Store.sumHeads (s : Store) (g : Block → Nat) : Nat :=
  s.accounts.sum fun _ info => (s.blockGet info.head).elim 0 g

variable {env : Env} {A : Lattice env} {s : Store}

namespace Represents

theorem head_info (h : Represents s A) {b : Block} (hb : b ∈ A.heads) :
    ∃ info, s.accounts.get b.account = some info ∧ info.head = env.hash b := by
  obtain ⟨hmem, htop⟩ := A.mem_heads.mp hb
  obtain ⟨info, hinfo⟩ := Option.isSome_iff_exists.mp (h.accounts.opened b hmem)
  obtain ⟨c, hc, haccount, -, hhash, -, hctop, -⟩ := h.head hinfo
  obtain rfl := A.top_unique hc hmem haccount hctop htop
  exact ⟨info, hinfo, hhash.symm⟩

theorem headOf_eq_some (h : Represents s A) {account : Account} {b : Block} :
    headOf s account = some b ↔ b ∈ A.heads ∧ b.account = account := by
  constructor
  · intro hhead
    simp only [headOf, Option.bind_eq_bind, Option.bind_eq_some_iff, Store.accountInfoGet] at hhead
    obtain ⟨info, hinfo, hget⟩ := hhead
    obtain ⟨c, hc, haccount, -, -, -, htop, hcget⟩ := h.head hinfo
    obtain rfl := Option.some.inj (hget.symm.trans hcget)
    exact ⟨A.mem_heads.mpr ⟨hc, htop⟩, haccount⟩
  · rintro ⟨hb, rfl⟩
    obtain ⟨info, hinfo, hhash⟩ := h.head_info hb
    simp [headOf, Store.accountInfoGet, hinfo, hhash, h.blockGet (A.mem_heads.mp hb).1]

theorem sumHeads_eq (h : Represents s A) (g : Block → Nat) :
    s.sumHeads g = ∑ b ∈ A.heads, g b := by
  symm
  refine Finset.sum_nbij Block.account ?_ ?_ ?_ ?_
  · intro b hb
    obtain ⟨info, hinfo, -⟩ := h.head_info hb
    exact (Table.mem_keys _ _).mpr ⟨info, hinfo⟩
  · intro b hb c hc haccount
    obtain ⟨hbmem, hbtop⟩ := A.mem_heads.mp hb
    obtain ⟨hcmem, hctop⟩ := A.mem_heads.mp hc
    exact A.top_unique hbmem hcmem haccount hbtop hctop
  · intro account haccount
    obtain ⟨info, hinfo⟩ := (Table.mem_keys _ _).mp haccount
    obtain ⟨b, hb, rfl, -, -, -, htop, -⟩ := h.head hinfo
    exact ⟨b, A.mem_heads.mpr ⟨hb, htop⟩, rfl⟩
  · intro b hb
    obtain ⟨info, hinfo, hhash⟩ := h.head_info hb
    simp [hinfo, hhash, h.blockGet (A.mem_heads.mp hb).1]

theorem headOf_eq (h : Represents s A) {s' : Store} (h' : Represents s' A) (account : Account) :
    headOf s' account = headOf s account := by
  ext x
  rw [h'.headOf_eq_some, h.headOf_eq_some]

-- An append moves the head of one account up to the new block.
theorem headOf_push (h : Represents s A) {b : Block} {hext : A.Extends b} {s' : Store}
    (h' : Represents s' (A.push b hext)) (account : Account) :
    headOf s' account = if account = b.account then some b else headOf s account := by
  split
  · rename_i he
    exact h'.headOf_eq_some.mpr ⟨A.mem_heads_push.mpr (.inl rfl), he.symm⟩
  · rename_i hne
    ext x
    rw [h'.headOf_eq_some, h.headOf_eq_some, A.mem_heads_push]
    constructor
    · rintro ⟨rfl | ⟨hx, -⟩, haccount⟩
      · exact absurd haccount.symm hne
      · exact ⟨hx, haccount⟩
    · rintro ⟨hx, haccount⟩
      exact ⟨.inr ⟨hx, fun hf => hne (haccount.symm.trans hf.1.symm)⟩, haccount⟩

-- A rollback moves it down to what stood below.
theorem headOf_pop (h : Represents s A) {b : Block} {hrem : A.Removable b} {s' : Store}
    (h' : Represents s' (A.pop b hrem)) {previous : Option Block}
    (hbefore : Before A.blocks previous b) (account : Account) :
    headOf s' account = if account = b.account then previous else headOf s account := by
  have hafter := hrem.before hbefore
  have hback : Represents s ((A.pop b hrem).push b hrem.extends) := by
    rw [hrem.push_pop]
    exact h
  split
  · rename_i he
    subst he
    cases previous with
    | none =>
        rw [Option.eq_none_iff_forall_ne_some]
        intro x hx
        obtain ⟨hhead, haccount⟩ := h'.headOf_eq_some.mp hx
        have hmem := ((A.pop b hrem).mem_heads.mp hhead).1
        have hxA := Finset.mem_of_mem_erase hmem
        have hle := A.le_top hrem.top hxA haccount
        have hz : b.height = 0 := hbefore
        exact Finset.ne_of_mem_erase hmem (A.unique x hxA b hrem.mem haccount (by omega))
    | some p =>
        obtain ⟨hp, hf⟩ := hafter
        refine h'.headOf_eq_some.mpr ⟨(A.pop b hrem).mem_heads.mpr ⟨hp, fun c hc hpc => ?_⟩, hf.1.symm⟩
        exact Finset.ne_of_mem_erase hc
          (A.follower_unique (Finset.mem_of_mem_erase hc) hrem.mem hpc hf)
  · rename_i hne
    rw [h'.headOf_push hback, if_neg hne]

end Represents

end Raicoin
