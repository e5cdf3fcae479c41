import Mathlib.Data.Finset.Max
import Mathlib.Data.Finset.Card
import Mathlib.Tactic.Common

-- The lowest elements of a finite set, up to a number of them, and how they follow from
-- one element to the next when a set of bounded size evicts its highest.
namespace Raicoin.Lib

variable {α : Type} [LinearOrder α] {count : Nat} {s kept : Finset α} {a b : α}

def lowest (count : Nat) (s : Finset α) : Finset α :=
  s.filter fun a => (s.filter (· < a)).card < count

theorem mem_lowest : a ∈ lowest count s ↔ a ∈ s ∧ (s.filter (· < a)).card < count :=
  Finset.mem_filter

theorem lowest_subset (count : Nat) (s : Finset α) : lowest count s ⊆ s := Finset.filter_subset _ _

-- What is above every other element changes nothing for them.
private theorem lowest_insert_above (habove : ∀ b ∈ s, b < a) :
    lowest count (insert a s) = if s.card < count then insert a (lowest count s) else lowest count s := by
  have hbelow : (insert a s).filter (· < a) = s := by
    rw [Finset.filter_insert, if_neg (lt_irrefl a), Finset.filter_true_of_mem habove]
  have hother (b : α) (hb : b ∈ s) : (insert a s).filter (· < b) = s.filter (· < b) := by
    rw [Finset.filter_insert, if_neg (not_lt.mpr (habove b hb).le)]
  have hrest : s.filter (fun b => ((insert a s).filter (· < b)).card < count) = lowest count s := by
    apply Finset.filter_congr
    intro b hb
    rw [hother b hb]
  rw [lowest, Finset.filter_insert, hbelow, hrest]

theorem card_lowest (count : Nat) (s : Finset α) : (lowest count s).card = min count s.card := by
  induction s using Finset.induction_on_max with
  | empty => simp [lowest]
  | insert a s habove ih =>
      have hnew : a ∉ s := fun ha => lt_irrefl a (habove a ha)
      rw [lowest_insert_above habove, Finset.card_insert_of_notMem hnew]
      split
      · rw [Finset.card_insert_of_notMem fun ha => hnew (lowest_subset count s ha), ih]
        omega
      · rw [ih]
        omega

-- Being below every other element, and having the right number, says it all.
theorem eq_lowest (hsub : kept ⊆ s) (hcard : kept.card = min count s.card)
    (hbelow : ∀ a ∈ kept, ∀ b ∈ s, b ∉ kept → a < b) : kept = lowest count s := by
  apply Finset.eq_of_subset_of_card_le
  · intro a ha
    refine mem_lowest.mpr ⟨hsub ha, ?_⟩
    have hlower : s.filter (· < a) ⊆ kept.erase a := by
      intro b hb
      obtain ⟨hbs, hlt⟩ := Finset.mem_filter.mp hb
      refine Finset.mem_erase.mpr ⟨hlt.ne, ?_⟩
      by_contra hout
      exact lt_asymm hlt (hbelow a ha b hbs hout)
    have hle := Finset.card_le_card hlower
    have hpos := Finset.card_pos.mpr ⟨a, ha⟩
    rw [Finset.card_erase_of_mem ha] at hle
    omega
  · rw [card_lowest, hcard]

theorem lowest_lt (ha : a ∈ lowest count s) (hb : b ∈ s) (hout : b ∉ lowest count s) : a < b := by
  by_contra hle
  have hsub : s.filter (· < b) ⊆ s.filter (· < a) := by
    intro c hc
    obtain ⟨hcs, hlt⟩ := Finset.mem_filter.mp hc
    exact Finset.mem_filter.mpr ⟨hcs, hlt.trans_le (not_lt.mp hle)⟩
  exact hout (mem_lowest.mpr ⟨hb, (Finset.card_le_card hsub).trans_lt (mem_lowest.mp ha).2⟩)

theorem lowest_eq_self_iff : lowest count s = s ↔ s.card ≤ count := by
  constructor
  · intro heq
    have hcard := card_lowest count s
    rw [heq] at hcard
    omega
  · intro hle
    apply Finset.eq_of_subset_of_card_le (lowest_subset count s)
    rw [card_lowest]
    omega

section Insert

-- A new element while there is room for it.
theorem insert_lowest (hroom : (lowest count s).card < count) :
    insert a (lowest count s) = lowest count (insert a s) := by
  rw [card_lowest] at hroom
  rw [lowest_eq_self_iff.mpr (show s.card ≤ count by omega)]
  exact (lowest_eq_self_iff.mpr ((Finset.card_insert_le a s).trans (by omega))).symm

-- A new element above all that are kept, when there is no room.
theorem lowest_insert_high (hfull : count ≤ (lowest count s).card)
    (hhigh : ∀ b ∈ lowest count s, b < a) : lowest count (insert a s) = lowest count s := by
  have hcard := card_lowest count s
  have hle := Finset.card_le_card (Finset.subset_insert a s)
  refine (eq_lowest ((lowest_subset count s).trans (Finset.subset_insert a s)) (by omega) ?_).symm
  intro b hb c hc hout
  rcases Finset.mem_insert.mp hc with rfl | hc
  · exact hhigh b hb
  · exact lowest_lt hb hc hout

-- A new element below the highest that is kept takes its place.
theorem lowest_insert_evict (hfull : count ≤ (lowest count s).card) (hnew : a ∉ s)
    (hb : b ∈ lowest count s) (hmax : ∀ c ∈ lowest count s, c ≤ b) (hlt : a < b) :
    insert a ((lowest count s).erase b) = lowest count (insert a s) := by
  have hcard := card_lowest count s
  have hpos := Finset.card_pos.mpr ⟨b, hb⟩
  have hout : a ∉ (lowest count s).erase b := fun ha =>
    hnew (lowest_subset count s (Finset.mem_of_mem_erase ha))
  refine eq_lowest ?_ ?_ ?_
  · exact Finset.insert_subset_insert a ((Finset.erase_subset b _).trans (lowest_subset count s))
  · rw [Finset.card_insert_of_notMem hout, Finset.card_erase_of_mem hb,
      Finset.card_insert_of_notMem hnew]
    omega
  · intro c hc d hd hdout
    obtain ⟨hda, hdkept⟩ : d ≠ a ∧ d ∉ (lowest count s).erase b := by
      simpa only [Finset.mem_insert, not_or] using hdout
    have hds : d ∈ s := (Finset.mem_insert.mp hd).resolve_left hda
    -- what is not kept is the evicted element or above everything that was kept
    have hbd : b ≤ d := by
      by_cases hdb : d = b
      · exact hdb.ge
      · exact (lowest_lt hb hds fun hd => hdkept (Finset.mem_erase.mpr ⟨hdb, hd⟩)).le
    rcases Finset.mem_insert.mp hc with rfl | hc
    · exact hlt.trans_le hbd
    · obtain ⟨hcb, hclow⟩ := Finset.mem_erase.mp hc
      exact (lt_of_le_of_ne (hmax c hclow) hcb).trans_le hbd

end Insert

end Raicoin.Lib
