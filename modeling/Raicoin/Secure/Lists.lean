import Raicoin.Secure.Ledger

-- The rich list and the delegator list, apart from the rest of a ledger.
namespace Raicoin

open Lib

structure Lists where
  richList : RichList
  delegatorList : DelegatorList
  enableRichList : Bool
  enableDelegatorList : Bool

def Ledger.lists (l : Ledger) : Lists :=
  ⟨l.richList, l.delegatorList, l.enableRichList, l.enableDelegatorList⟩

-- The entries of the two lists for a head.
def richEntry (b : Block) : Option Amount :=
  if b.type = .txBlock ∧ RICH_LIST_MINIMUM ≤ b.balance then some b.balance else none

def delegatorEntry (b : Block) : Option DelegatorListEntry :=
  if b.hasRepresentative = true then some ⟨b.representative, b.balance, b.type⟩ else none

namespace Lists

section Update

variable (x : Lists) (b : Block)

def updateRich : Lists :=
  if x.enableRichList = true ∧ b.type = .txBlock then
    { x with richList := updateRichList_ x.richList b.account b.balance }
  else x

def updateDelegators : Lists :=
  if x.enableDelegatorList = true ∧ b.hasRepresentative = true then
    { x with
      delegatorList := updateDelegatorList_ x.delegatorList b.account b.representative b.balance
        b.type }
  else x

-- The lists after `b` became the head of its account.
def follow : Lists := (x.updateRich b).updateDelegators b

theorem updateRich_updateDelegators : (x.updateDelegators b).updateRich b = x.follow b := by
  unfold follow updateRich updateDelegators
  split_ifs <;> simp_all

theorem follow_repBlock (h : b.type = .repBlock) : x.follow b = x := by
  have hrep : b.hasRepresentative = false := by
    cases b <;> simp_all [Block.type, Block.hasRepresentative]
  simp [follow, updateRich, updateDelegators, h, hrep]

@[simp] theorem follow_enableRichList : (x.follow b).enableRichList = x.enableRichList := by
  unfold follow updateRich updateDelegators
  split_ifs <;> rfl

@[simp] theorem follow_enableDelegatorList :
    (x.follow b).enableDelegatorList = x.enableDelegatorList := by
  unfold follow updateRich updateDelegators
  split_ifs <;> rfl

end Update

variable {x : Lists} {b : Block} {account : Account}

theorem updateRichList_get {list : RichList} {balance : Amount} {other : Account} :
    (updateRichList_ list account balance).get other =
      if other = account then if balance < RICH_LIST_MINIMUM then none else some balance
      else list.get other := by
  unfold updateRichList_
  cases hget : list.get account <;> split_ifs <;> simp_all

-- An account that is in no list gets the entries of its head.
theorem follow_richList (hx : x.enableRichList = true)
    (htype : b.type ≠ .txBlock → x.richList.get b.account = none) :
    (x.follow b).richList.get account =
      if account = b.account then richEntry b else x.richList.get account := by
  have hfollow : (x.follow b).richList = (x.updateRich b).richList := by
    unfold follow updateDelegators
    split_ifs <;> rfl
  rw [hfollow]
  unfold updateRich richEntry
  by_cases htx : b.type = .txBlock
  · simp only [hx, htx, true_and, if_true, updateRichList_get, ← BitVec.not_lt, ite_not]
  · simp only [htx, and_false, false_and, if_false]
    split
    · rename_i he
      rw [he, htype htx]
    · rfl

theorem follow_delegatorList (hx : x.enableDelegatorList = true)
    (htype : b.hasRepresentative = false → x.delegatorList.get b.account = none) :
    (x.follow b).delegatorList.get account =
      if account = b.account then delegatorEntry b else x.delegatorList.get account := by
  have hrich : (x.updateRich b).enableDelegatorList = x.enableDelegatorList ∧
      (x.updateRich b).delegatorList = x.delegatorList := by
    unfold updateRich
    split_ifs <;> exact ⟨rfl, rfl⟩
  unfold follow updateDelegators delegatorEntry
  cases hrep : b.hasRepresentative with
  | true =>
      simp only [hrich, hx, and_self, if_true, updateDelegatorList_, Table.get_put]
  | false =>
      simp only [Bool.false_eq_true, and_false, if_false, hrich]
      split
      · rename_i he
        rw [he, htype hrep]
      · rfl

end Lists

@[simp] theorem Ledger.updateRichList_lists (l : Ledger) (b : Block) :
    (l.updateRichList b).lists = l.lists.updateRich b := by
  unfold updateRichList Lists.updateRich lists
  split_ifs <;> simp_all

@[simp] theorem Ledger.updateDelegatorList_lists (l : Ledger) (b : Block) :
    (l.updateDelegatorList b).lists = l.lists.updateDelegators b := by
  unfold updateDelegatorList Lists.updateDelegators lists
  split_ifs <;> simp_all

end Raicoin
