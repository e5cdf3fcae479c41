import Mathlib.Algebra.Ring.Nat
import Mathlib.Algebra.BigOperators.Group.List.Basic
import Mathlib.Tactic.Common

-- The heaviest of a list that together have enough.
namespace Raicoin.Lib

variable {α : Type} (weight : α → Nat) (enough : Nat → Prop) [DecidablePred enough]

-- Takes from the front until there is enough, or nothing with a weight is left.
def heaviest : Nat → List α → List α
  | _, [] => []
  | held, a :: rest =>
    if weight a = 0 then []
    else a :: if enough (held + weight a) then [] else heaviest (held + weight a) rest

-- The weight of the last one that makes it enough.
def lastWeight : Nat → List α → Nat
  | _, [] => 0
  | held, a :: rest =>
    if weight a = 0 then 0
    else if enough (held + weight a) then weight a else lastWeight (held + weight a) rest

variable {weight enough} {held : Nat} {list : List α}

theorem heaviest_subset {a : α} (h : a ∈ heaviest weight enough held list) : a ∈ list := by
  induction list generalizing held with
  | nil => cases h
  | cons b rest ih =>
      unfold heaviest at h
      split_ifs at h
      · cases h
      · rw [List.mem_singleton.mp h]
        exact List.mem_cons_self
      · rcases List.mem_cons.mp h with rfl | h
        · exact List.mem_cons_self
        · exact List.mem_cons_of_mem _ (ih h)

-- What is taken ends with the one that makes it enough.
theorem heaviest_of_enough (hnot : ¬enough held) (henough : enough (held + (list.map weight).sum))
    (hsorted : list.Pairwise fun first second => weight second ≤ weight first) :
    ∃ front last rest, list = front ++ last :: rest ∧
      heaviest weight enough held list = front ++ [last] ∧
      lastWeight weight enough held list = weight last ∧ 0 < weight last ∧
      ¬enough (held + (front.map weight).sum) ∧
      enough (held + ((front ++ [last]).map weight).sum) := by
  induction list generalizing held with
  | nil => exact absurd henough hnot
  | cons a rest ih =>
      rw [List.pairwise_cons] at hsorted
      have hpos : weight a ≠ 0 := by
        intro hzero
        have hrest : (rest.map weight).sum = 0 := by
          rw [List.sum_eq_zero]
          intro w hw
          obtain ⟨b, hb, rfl⟩ := List.mem_map.mp hw
          have hle := hsorted.1 b hb
          omega
        rw [List.map_cons, List.sum_cons, hzero, hrest] at henough
        exact hnot henough
      unfold heaviest lastWeight
      rw [if_neg hpos, if_neg hpos]
      by_cases hstop : enough (held + weight a)
      · rw [if_pos hstop, if_pos hstop]
        refine ⟨[], a, rest, rfl, rfl, rfl, Nat.pos_of_ne_zero hpos, hnot, ?_⟩
        simpa using hstop
      · rw [if_neg hstop, if_neg hstop]
        rw [List.map_cons, List.sum_cons, ← Nat.add_assoc] at henough
        obtain ⟨front, last, after, rfl, htaken, hlast, hlastPos, hbefore, hafter⟩ :=
          ih hstop henough hsorted.2
        refine ⟨a :: front, last, after, rfl, by rw [htaken]; rfl, hlast, hlastPos, ?_, ?_⟩
        · rw [List.map_cons, List.sum_cons, ← Nat.add_assoc]
          exact hbefore
        · rw [List.cons_append, List.map_cons, List.sum_cons, ← Nat.add_assoc]
          exact hafter

-- Where there is never enough, everything with a weight is taken.
theorem heaviest_of_not_enough (hmono : ∀ n m, n ≤ m → enough n → enough m)
    (hnot : ¬enough (held + (list.map weight).sum))
    (hsorted : list.Pairwise fun first second => weight second ≤ weight first) :
    ((heaviest weight enough held list).map weight).sum = (list.map weight).sum ∧
      lastWeight weight enough held list = 0 := by
  induction list generalizing held with
  | nil => exact ⟨rfl, rfl⟩
  | cons a rest ih =>
      rw [List.pairwise_cons] at hsorted
      rw [List.map_cons, List.sum_cons] at hnot ⊢
      unfold heaviest lastWeight
      by_cases hzero : weight a = 0
      · rw [if_pos hzero, if_pos hzero]
        have hrest : (rest.map weight).sum = 0 := by
          rw [List.sum_eq_zero]
          intro w hw
          obtain ⟨b, hb, rfl⟩ := List.mem_map.mp hw
          have hle := hsorted.1 b hb
          omega
        rw [hzero, hrest]
        exact ⟨rfl, rfl⟩
      · have hstop : ¬enough (held + weight a) := fun h => hnot (hmono _ _ (by omega) h)
        rw [if_neg hzero, if_neg hzero, if_neg hstop, if_neg hstop]
        obtain ⟨hsum, hlast⟩ := ih (by rwa [Nat.add_assoc]) hsorted.2
        rw [List.map_cons, List.sum_cons, hsum]
        exact ⟨rfl, hlast⟩

end Raicoin.Lib
