import Mathlib.Data.List.Basic
import Mathlib.Logic.Function.Basic

-- Chains of nodes in a table that is keyed by the hashes of the nodes: every owner has at most
-- one chain, and an entry is a node with the hash of the node above it.
namespace Raicoin.Lib

structure Shape (α κ ι : Type) where
  hash : α → κ
  previous : α → κ
  owner : α → ι
  height : α → Nat

namespace Shape

variable {α κ ι : Type} (S : Shape α κ ι)

-- A chain, the highest node first.
def Chain (owner : ι) : List α → Prop
  | [] => True
  | b :: rest => S.owner b = owner ∧ S.height b = rest.length ∧
      (∀ p ∈ rest.head?, S.previous b = S.hash p) ∧ Chain owner rest

-- The entries of a chain whose highest node has `next` above it.
def entries (next : κ) : List α → List (α × κ)
  | [] => []
  | b :: rest => (b, next) :: entries (S.hash b) rest

-- The hash of a node tells its owner and its height.
def Apart (nodes : Set α) : Prop :=
  ∀ b ∈ nodes, ∀ c ∈ nodes, S.hash b = S.hash c → S.owner b = S.owner c ∧ S.height b = S.height c

variable {S} {owner : ι} {chain rest : List α} {b c : α} {next : κ}

theorem Chain.owner_eq (h : S.Chain owner chain) (hb : b ∈ chain) : S.owner b = owner := by
  induction chain with
  | nil => cases hb
  | cons head rest ih =>
      rcases List.mem_cons.mp hb with rfl | hb
      · exact h.1
      · exact ih h.2.2.2 hb

theorem Chain.height_lt (h : S.Chain owner chain) (hb : b ∈ chain) :
    S.height b < chain.length := by
  induction chain with
  | nil => cases hb
  | cons head rest ih =>
      rw [List.length_cons]
      rcases List.mem_cons.mp hb with rfl | hb
      · rw [h.2.1]
        exact Nat.lt_succ_self _
      · exact Nat.lt_succ_of_lt (ih h.2.2.2 hb)

theorem Chain.tail (h : S.Chain owner (b :: rest)) : S.Chain owner rest := h.2.2.2

theorem Chain.lower {above : List α} (h : S.Chain owner (above ++ rest)) : S.Chain owner rest := by
  induction above with
  | nil => exact h
  | cons head above ih => exact ih h.tail

theorem Chain.height_middle {above : List α} (h : S.Chain owner (above ++ b :: rest)) :
    S.height b = rest.length := h.lower.2.1

theorem mem_of_entry {entry : α × κ} (h : entry ∈ S.entries next chain) : entry.1 ∈ chain := by
  induction chain generalizing next with
  | nil => cases h
  | cons head rest ih =>
      rcases List.mem_cons.mp h with rfl | h
      · exact List.mem_cons_self
      · exact List.mem_cons_of_mem _ (ih h)

theorem entry_of_mem (h : b ∈ chain) : ∃ above, (b, above) ∈ S.entries next chain := by
  induction chain generalizing next with
  | nil => cases h
  | cons head rest ih =>
      rcases List.mem_cons.mp h with rfl | h
      · exact ⟨next, List.mem_cons_self⟩
      · obtain ⟨above, habove⟩ := ih h
        exact ⟨above, List.mem_cons_of_mem _ habove⟩

-- A chain has one entry for each height.
theorem Chain.entry_unique (h : S.Chain owner chain) {e f : α × κ} (he : e ∈ S.entries next chain)
    (hf : f ∈ S.entries next chain) (hheight : S.height e.1 = S.height f.1) : e = f := by
  induction chain generalizing next with
  | nil => cases he
  | cons head rest ih =>
      have hhead := h.2.1
      rcases List.mem_cons.mp he with rfl | he
      · rcases List.mem_cons.mp hf with rfl | hf
        · rfl
        · have hlt := h.tail.height_lt (mem_of_entry hf)
          dsimp only at hheight
          omega
      · rcases List.mem_cons.mp hf with rfl | hf
        · have hlt := h.tail.height_lt (mem_of_entry he)
          dsimp only at hheight
          omega
        · exact ih h.tail he hf

theorem Chain.unique (h : S.Chain owner chain) (hb : b ∈ chain) (hc : c ∈ chain)
    (hheight : S.height b = S.height c) : b = c := by
  obtain ⟨above, hbe⟩ := @entry_of_mem _ _ _ S _ _ (S.hash b) hb
  obtain ⟨above', hce⟩ := @entry_of_mem _ _ _ S _ _ (S.hash b) hc
  exact congrArg Prod.fst (h.entry_unique hbe hce hheight)

-- Every height below the length has a node, and every node but the first has the one before it.
theorem Chain.exists_height (h : S.Chain owner chain) {height : Nat} (hlt : height < chain.length) :
    ∃ b ∈ chain, S.height b = height := by
  induction chain with
  | nil => cases hlt
  | cons head rest ih =>
      rw [List.length_cons] at hlt
      by_cases htop : height = rest.length
      · exact ⟨head, List.mem_cons_self, h.2.1.trans htop.symm⟩
      · obtain ⟨b, hb, hheight⟩ := ih h.tail (by omega)
        exact ⟨b, List.mem_cons_of_mem _ hb, hheight⟩

theorem Chain.exists_previous (h : S.Chain owner chain) (hb : b ∈ chain) (hne : S.height b ≠ 0) :
    ∃ p, (p, S.hash b) ∈ S.entries next chain ∧ S.previous b = S.hash p ∧
      S.height b = S.height p + 1 := by
  induction chain generalizing next with
  | nil => cases hb
  | cons head rest ih =>
      rcases List.mem_cons.mp hb with rfl | hb
      · cases rest with
        | nil => exact absurd h.2.1 hne
        | cons p rest =>
            refine ⟨p, List.mem_cons_of_mem _ List.mem_cons_self, h.2.2.1 p rfl, ?_⟩
            rw [h.2.1, h.tail.2.1, List.length_cons]
      · obtain ⟨p, hp, hprevious⟩ := ih h.tail hb
        exact ⟨p, List.mem_cons_of_mem _ hp, hprevious⟩

-- The table has the chains and nothing else.
structure Stores (S : Shape α κ ι) (nodes : Set α) (top : κ) (chains : ι → List α)
    (table : κ → Option (α × κ)) : Prop where
  mem : ∀ i, ∀ b ∈ chains i, b ∈ nodes
  chain : ∀ i, S.Chain i (chains i)
  stored : ∀ k entry, table k = some entry ↔
    S.hash entry.1 = k ∧ ∃ i, entry ∈ S.entries top (chains i)

variable [DecidableEq κ]

-- The table after a node has come on top of a chain.
def pushed (top : κ) (table : κ → Option (α × κ)) (b : α) : List α → κ → Option (α × κ)
  | [] => Function.update table (S.hash b) (some (b, top))
  | p :: _ => Function.update (Function.update table (S.hash b) (some (b, top))) (S.hash p)
      (some (p, S.hash b))

-- The table after the highest node of a chain has gone.
def popped (top : κ) (table : κ → Option (α × κ)) (b : α) : List α → κ → Option (α × κ)
  | [] => Function.update table (S.hash b) none
  | p :: _ => Function.update (Function.update table (S.hash b) none) (S.hash p) (some (p, top))

namespace Stores

variable {nodes : Set α} {top : κ} {chains : ι → List α} {table : κ → Option (α × κ)} {i j : ι}
  {p : α}

omit [DecidableEq κ]

theorem empty : S.Stores nodes top (fun _ => []) (fun _ => none) where
  mem := fun _ _ h => by cases h
  chain := fun _ => trivial
  stored := fun _ _ => ⟨fun h => (by cases h), fun ⟨_, _, h⟩ => (by cases h)⟩

-- Two nodes of the chains with one hash are one node.
theorem unique (h : S.Stores nodes top chains table) (hapart : S.Apart nodes) (hb : b ∈ chains i)
    (hc : c ∈ chains j) (hhash : S.hash b = S.hash c) : i = j ∧ b = c := by
  obtain ⟨howner, hheight⟩ := hapart b (h.mem i b hb) c (h.mem j c hc) hhash
  rw [(h.chain i).owner_eq hb, (h.chain j).owner_eq hc] at howner
  subst howner
  exact ⟨rfl, (h.chain i).unique hb hc hheight⟩

theorem get_of_entry (h : S.Stores nodes top chains table) {entry : α × κ}
    (hentry : entry ∈ S.entries top (chains i)) : table (S.hash entry.1) = some entry :=
  (h.stored _ _).mpr ⟨rfl, i, hentry⟩

-- A node that would come on top of a chain is not stored.
theorem fresh (h : S.Stores nodes top chains table) (hapart : S.Apart nodes) (hb : b ∈ nodes)
    (hheight : S.height b = (chains (S.owner b)).length) : ∀ j, ∀ c ∈ chains j, S.hash c ≠ S.hash b := by
  intro j c hc hhash
  obtain ⟨howner, hsame⟩ := hapart c (h.mem j c hc) b hb hhash
  rw [(h.chain j).owner_eq hc] at howner
  subst howner
  have hlt := (h.chain _).height_lt hc
  omega

-- No other entry has the hash of the first node of a chain.
theorem alone (h : S.Stores nodes top chains table) (hapart : S.Apart nodes)
    (hchain : chains i = b :: rest) :
    (∀ e ∈ S.entries next rest, S.hash e.1 ≠ S.hash b) ∧
      ∀ j, j ≠ i → ∀ e ∈ S.entries next (chains j), S.hash e.1 ≠ S.hash b := by
  have hb : b ∈ chains i := by
    rw [hchain]
    exact List.mem_cons_self
  constructor
  · intro e he hhash
    have hmem := mem_of_entry he
    have hsame := (h.unique hapart hb (hchain ▸ List.mem_cons_of_mem _ hmem) hhash.symm).2
    have hc := h.chain i
    rw [hchain] at hc
    have hlt := hc.tail.height_lt hmem
    rw [← hsame, hc.2.1] at hlt
    exact Nat.lt_irrefl _ hlt
  · intro j hj e he hhash
    exact hj (h.unique hapart hb (mem_of_entry he) hhash.symm).1.symm

variable [DecidableEq ι]

theorem exists_entry_update (chains : ι → List α) (i : ι) {l : List α} {entry : α × κ} :
    (∃ j, entry ∈ S.entries top (Function.update chains i l j)) ↔
      entry ∈ S.entries top l ∨ ∃ j, j ≠ i ∧ entry ∈ S.entries top (chains j) := by
  constructor
  · rintro ⟨j, hj⟩
    by_cases hji : j = i
    · rw [hji, Function.update_self] at hj
      exact .inl hj
    · rw [Function.update_of_ne hji] at hj
      exact .inr ⟨j, hji, hj⟩
  · rintro (hl | ⟨j, hji, hj⟩)
    · exact ⟨i, by rwa [Function.update_self]⟩
    · exact ⟨j, by rwa [Function.update_of_ne hji]⟩

theorem exists_entry_at (chains : ι → List α) (i : ι) {entry : α × κ} : (∃ j, entry ∈ S.entries top (chains j)) ↔
    entry ∈ S.entries top (chains i) ∨ ∃ j, j ≠ i ∧ entry ∈ S.entries top (chains j) := by
  rw [← exists_entry_update chains i, Function.update_eq_self]

variable [DecidableEq κ]

theorem push (h : S.Stores nodes top chains table) (hapart : S.Apart nodes) (hb : b ∈ nodes)
    (hheight : S.height b = (chains (S.owner b)).length)
    (hprevious : ∀ p ∈ (chains (S.owner b)).head?, S.previous b = S.hash p) :
    S.Stores nodes top (Function.update chains (S.owner b) (b :: chains (S.owner b)))
      (S.pushed top table b (chains (S.owner b))) := by
  have hfresh := h.fresh hapart hb hheight
  refine ⟨fun j c hc => ?_, fun j => ?_, fun k entry => ?_⟩
  · by_cases hj : j = S.owner b
    · rw [hj, Function.update_self] at hc
      rcases List.mem_cons.mp hc with rfl | hc
      · exact hb
      · exact h.mem _ c hc
    · rw [Function.update_of_ne hj] at hc
      exact h.mem j c hc
  · by_cases hj : j = S.owner b
    · rw [hj, Function.update_self]
      exact ⟨rfl, hheight, hprevious, h.chain _⟩
    · rw [Function.update_of_ne hj]
      exact h.chain j
  · rw [exists_entry_update]
    have hother : ∀ {j e}, e ∈ S.entries top (chains j) → S.hash e.1 ≠ S.hash b :=
      fun he => hfresh _ _ (mem_of_entry he)
    have hold := h.stored k entry
    rw [exists_entry_at chains (S.owner b)] at hold
    cases hchain : chains (S.owner b) with
    | nil =>
        rw [hchain] at hold
        simp only [pushed, entries, List.mem_singleton, List.not_mem_nil, false_or] at hold ⊢
        rw [Function.update_apply]
        split_ifs with hk
        · constructor
          · rintro heq
            cases heq
            exact ⟨hk.symm, .inl rfl⟩
          · rintro ⟨hhash, rfl | ⟨j, -, hj⟩⟩
            · rfl
            · exact absurd (hhash.trans hk) (hother hj)
        · rw [hold]
          refine and_congr_right fun hhash => ⟨.inr, ?_⟩
          rintro (rfl | hj)
          · exact absurd hhash.symm hk
          · exact hj
    | cons p rest =>
        have hp : p ∈ chains (S.owner b) := by
          rw [hchain]
          exact List.mem_cons_self
        have hne : S.hash p ≠ S.hash b := hfresh _ p hp
        have hrest := (@alone _ _ _ S _ _ (S.hash p) _ _ _ _ _ h hapart hchain).1
        have hforeign := (@alone _ _ _ S _ _ top _ _ _ _ _ h hapart hchain).2
        rw [hchain] at hold
        simp only [pushed, entries, List.mem_cons] at hold ⊢
        rw [Function.update_apply, Function.update_apply]
        split_ifs with hkp hkb
        · constructor
          · rintro heq
            cases heq
            exact ⟨hkp.symm, .inl (.inr (.inl rfl))⟩
          · rintro ⟨hhash, (rfl | rfl | he) | ⟨j, hj, he⟩⟩
            · exact absurd (hhash.trans hkp).symm hne
            · rfl
            · exact absurd (hhash.trans hkp) (hrest entry he)
            · exact absurd (hhash.trans hkp) (hforeign j hj entry he)
        · constructor
          · rintro heq
            cases heq
            exact ⟨hkb.symm, .inl (.inl rfl)⟩
          · rintro ⟨hhash, (rfl | rfl | he) | ⟨j, hj, he⟩⟩
            · rfl
            · exact absurd (hhash.trans hkb) hne
            · have hmem : entry.1 ∈ chains (S.owner b) := by
                rw [hchain]
                exact List.mem_cons_of_mem _ (mem_of_entry he)
              exact absurd (hhash.trans hkb) (hfresh _ _ hmem)
            · exact absurd (hhash.trans hkb) (hother he)
        · rw [hold]
          refine and_congr_right fun hhash => ⟨?_, ?_⟩
          · rintro ((rfl | he) | hj)
            · exact absurd hhash.symm hkp
            · exact .inl (.inr (.inr he))
            · exact .inr hj
          · rintro ((rfl | rfl | he) | hj)
            · exact absurd hhash.symm hkb
            · exact absurd hhash.symm hkp
            · exact .inl (.inr he)
            · exact .inr hj

theorem pop (h : S.Stores nodes top chains table) (hapart : S.Apart nodes)
    (hchain : chains i = b :: rest) :
    S.Stores nodes top (Function.update chains i rest) (S.popped top table b rest) := by
  have hc := h.chain i
  rw [hchain] at hc
  refine ⟨fun j c hj => ?_, fun j => ?_, fun k entry => ?_⟩
  · by_cases hji : j = i
    · rw [hji, Function.update_self] at hj
      exact h.mem i c (hchain ▸ List.mem_cons_of_mem _ hj)
    · rw [Function.update_of_ne hji] at hj
      exact h.mem j c hj
  · by_cases hji : j = i
    · rw [hji, Function.update_self]
      exact hc.tail
    · rw [Function.update_of_ne hji]
      exact h.chain j
  · rw [exists_entry_update]
    have hold := h.stored k entry
    rw [exists_entry_at chains i, hchain] at hold
    have hforeign := (@alone _ _ _ S _ _ top _ _ _ _ _ h hapart hchain).2
    have hbelow := (@alone _ _ _ S _ _ top _ _ _ _ _ h hapart hchain).1
    cases rest with
    | nil =>
        simp only [popped, entries, List.mem_singleton, List.not_mem_nil, false_or] at hold ⊢
        rw [Function.update_apply]
        split_ifs with hk
        · refine iff_of_false (by simp) ?_
          rintro ⟨hhash, j, hj, he⟩
          exact hforeign j hj entry he (hhash.trans hk)
        · rw [hold]
          refine and_congr_right fun hhash => ⟨?_, .inr⟩
          rintro (rfl | hj)
          · exact absurd hhash.symm hk
          · exact hj
    | cons p rest =>
        have hp : p ∈ chains i := by
          rw [hchain]
          exact List.mem_cons_of_mem _ List.mem_cons_self
        have hpb : S.hash p ≠ S.hash b := hbelow (p, top) List.mem_cons_self
        have hpRest : ∀ e ∈ S.entries (S.hash p) rest, S.hash e.1 ≠ S.hash p := by
          intro e he hhash
          have hmem := mem_of_entry he
          have hin : e.1 ∈ chains i := by
            rw [hchain]
            exact List.mem_cons_of_mem _ (List.mem_cons_of_mem _ hmem)
          have hsame := (h.unique hapart hp hin hhash.symm).2
          have hlt := hc.tail.tail.height_lt hmem
          rw [← hsame, hc.tail.2.1] at hlt
          exact Nat.lt_irrefl _ hlt
        simp only [popped, entries, List.mem_cons] at hold ⊢
        rw [Function.update_apply, Function.update_apply]
        split_ifs with hkp hkb
        · constructor
          · rintro heq
            cases heq
            exact ⟨hkp.symm, .inl (.inl rfl)⟩
          · rintro ⟨hhash, (rfl | he) | ⟨j, hj, he⟩⟩
            · rfl
            · exact absurd (hhash.trans hkp) (hpRest entry he)
            · exact absurd (h.unique hapart hp (mem_of_entry he) (hhash.trans hkp).symm).1.symm hj
        · refine iff_of_false (by simp) ?_
          rintro ⟨hhash, he | ⟨j, hj, he⟩⟩
          · exact hbelow entry (List.mem_cons.mpr he) (hhash.trans hkb)
          · exact hforeign j hj entry he (hhash.trans hkb)
        · rw [hold]
          refine and_congr_right fun hhash => ⟨?_, ?_⟩
          · rintro ((rfl | rfl | he) | hj)
            · exact absurd hhash.symm hkb
            · exact absurd hhash.symm hkp
            · exact .inl (.inr he)
            · exact .inr hj
          · rintro ((rfl | he) | hj)
            · exact absurd hhash.symm hkp
            · exact .inl (.inr (.inr he))
            · exact .inr hj

end Stores

end Shape

end Raicoin.Lib
