import Raicoin.Secure.Ledger
import Mathlib.Logic.Function.Basic

-- What `RepWeightsCommit_` makes of weights that fit into 128 bits.
namespace Raicoin

open Lib

-- The weight that a head block gives to a representative, and to all of them.
def Block.weight (b : Block) (representative : Account) : Nat :=
  if b.hasRepresentative = true ∧ b.representative = representative then b.balance.toNat else 0

def Block.totalWeight (b : Block) : Nat :=
  if b.hasRepresentative = true then b.balance.toNat else 0

theorem Block.weight_le (b : Block) (representative : Account) :
    b.weight representative ≤ b.totalWeight := by
  unfold weight totalWeight
  split <;> simp_all

theorem Block.totalWeight_lt (b : Block) : b.totalWeight < 2 ^ 128 := by
  unfold totalWeight
  split
  · exact b.balance.isLt
  · decide

-- The operations that take the weight of one head away and bring that of another.
def exchangeOps (old new : Option Block) : List RepWeightOpration :=
  (old.toList.map fun b => ⟨false, b.representative, b.balance⟩) ++
    new.toList.map fun b => ⟨true, b.representative, b.balance⟩

namespace RepWeights

-- The weights are those of a function on natural numbers: nothing has wrapped, and
-- no assertion was met.
structure Shows (w : RepWeights) (weight : Account → Nat) (total : Nat) : Prop where
  get : ∀ r, w.weights.get r = if weight r = 0 then none else some (BitVec.ofNat 128 (weight r))
  lt : ∀ r, weight r < 2 ^ 128
  total : w.total.toNat = total
  asserted : w.asserted = false

variable {w w' : RepWeights} {weight weight' : Account → Nat} {total total' : Nat}

theorem shows_empty : empty.Shows (fun _ => 0) 0 :=
  ⟨fun _ => by simp [empty], fun _ => by decide, rfl, rfl⟩

-- The function determines the weights.
theorem Shows.unique (h : w.Shows weight total) (h' : w'.Shows weight total) : w = w' := by
  have hweights : w.weights = w'.weights := by
    ext1 r
    rw [h.get, h'.get]
  have htotal : w.total = w'.total := BitVec.eq_of_toNat_eq (h.total.trans h'.total.symm)
  have hasserted := h.asserted.trans h'.asserted.symm
  cases w
  cases w'
  simp_all

private theorem shows_put (h : w.Shows weight total) (r : Account) (amount : Amount) {old : Nat}
    (hold : weight r = old) (hne : amount ≠ 0) (hfits : old + amount.toNat < 2 ^ 128)
    (htotal : total + amount.toNat < 2 ^ 128) :
    ({ w with
      weights := w.weights.put r (BitVec.ofNat 128 (old + amount.toNat))
      total := w.total + amount } : RepWeights).Shows
      (Function.update weight r (old + amount.toNat)) (total + amount.toNat) := by
  have hpos : amount.toNat ≠ 0 := fun hz => hne (BitVec.eq_of_toNat_eq hz)
  constructor
  · intro q
    by_cases hq : q = r
    · subst hq
      simp [hpos]
    · simp [hq, h.get q]
  · intro q
    by_cases hq : q = r
    · subst hq
      simpa using hfits
    · simpa [hq] using h.lt q
  · simp only [BitVec.toNat_add, h.total]
    exact Nat.mod_eq_of_lt htotal
  · exact h.asserted

theorem Shows.increase (h : w.Shows weight total) (r : Account) (amount : Amount)
    (hne : amount ≠ 0) (hfits : weight r + amount.toNat < 2 ^ 128)
    (htotal : total + amount.toNat < 2 ^ 128) :
    (w.increase r amount).Shows (Function.update weight r (weight r + amount.toNat))
      (total + amount.toNat) := by
  have hput := shows_put h r amount rfl hne hfits htotal
  have hsum : (w.weights.get r).getD 0 + amount = BitVec.ofNat 128 (weight r + amount.toNat) := by
    rw [h.get r]
    split <;> rename_i hz
    · simp [hz]
    · simp [BitVec.ofNat_add]
  unfold RepWeights.increase
  rwa [hsum]

theorem Shows.add (h : w.Shows weight total) (r : Account) (amount : Amount)
    (hfits : weight r + amount.toNat < 2 ^ 128) (htotal : total + amount.toNat < 2 ^ 128) :
    (w.commitOne ⟨true, r, amount⟩).Shows (Function.update weight r (weight r + amount.toNat))
      (total + amount.toNat) := by
  by_cases hz : amount = 0
  · subst hz
    simpa [commitOne] using h
  · have hincrease := h.increase r amount hz hfits htotal
    have hget := h.get r
    simp only [commitOne, hz, if_false, if_true]
    split
    · rename_i hentry
      simpa [RepWeights.increase, hentry] using hincrease
    · rename_i old hentry
      rw [hentry] at hget
      have hpos : weight r ≠ 0 := fun h => by rw [if_pos h] at hget; cases hget
      rw [if_neg hpos] at hget
      have hmore : old + amount > amount := by
        rw [Option.some.inj hget, gt_iff_lt, BitVec.lt_def, BitVec.toNat_add, BitVec.toNat_ofNat]
        omega
      refine ⟨hincrease.get, hincrease.lt, hincrease.total, ?_⟩
      dsimp only
      rw [h.asserted, decide_eq_true hmore]
      rfl

theorem Shows.sub (h : w.Shows weight total) (r : Account) (amount : Amount)
    (hle : amount.toNat ≤ weight r) (htotal : amount.toNat ≤ total) :
    (w.commitOne ⟨false, r, amount⟩).Shows (Function.update weight r (weight r - amount.toNat))
      (total - amount.toNat) := by
  by_cases hz : amount = 0
  · subst hz
    simpa [commitOne] using h
  · have hpos : amount.toNat ≠ 0 := fun h => hz (BitVec.eq_of_toNat_eq h)
    have hlt := h.lt r
    have hsub : (w.total - amount).toNat = total - amount.toNat := by
      rw [BitVec.toNat_sub_of_le (BitVec.le_def.mpr (h.total ▸ htotal)), h.total]
    have hentry := h.get r
    rw [if_neg (by omega)] at hentry
    have hvalue : (BitVec.ofNat 128 (weight r)).toNat = weight r := by
      rw [BitVec.toNat_ofNat, Nat.mod_eq_of_lt hlt]
    have hothers (q : Account) (hq : q ≠ r) : Function.update weight r (weight r - amount.toNat) q =
        weight q := Function.update_of_ne hq _ _
    have hlts (q : Account) : Function.update weight r (weight r - amount.toNat) q < 2 ^ 128 := by
      by_cases hq : q = r
      · subst hq
        rw [Function.update_self]
        omega
      · rw [hothers q hq]
        exact h.lt q
    simp only [commitOne, hz, if_false, Bool.false_eq_true, hentry]
    rw [if_neg (by simp only [gt_iff_lt, BitVec.lt_def, hvalue]; omega)]
    by_cases hall : amount.toNat = weight r
    · rw [if_pos (BitVec.eq_of_toNat_eq (hall.trans hvalue.symm))]
      refine ⟨fun q => ?_, hlts, hsub, h.asserted⟩
      by_cases hq : q = r
      · subst hq
        simp [hall]
      · simp [hq, h.get q]
    · rw [if_neg (fun he => hall (by rw [he, hvalue]))]
      refine ⟨fun q => ?_, hlts, hsub, h.asserted⟩
      by_cases hq : q = r
      · subst hq
        have hdiff : BitVec.ofNat 128 (weight q) - amount =
            BitVec.ofNat 128 (weight q - amount.toNat) := by
          apply BitVec.eq_of_toNat_eq
          rw [BitVec.toNat_sub_of_le (BitVec.le_def.mpr (by omega)), hvalue, BitVec.toNat_ofNat,
            Nat.mod_eq_of_lt (by omega)]
        rw [Table.get_put, if_pos rfl, Function.update_self, if_neg (by omega), hdiff]
      · simp [hq, h.get q]

-- A head whose weight is in the sums.
def Counted (weight : Account → Nat) (total : Nat) (b : Block) : Prop :=
  b.hasRepresentative = true ∧ (∀ r, b.weight r ≤ weight r) ∧ b.totalWeight ≤ total

theorem Shows.withdraw (h : w.Shows weight total) {old : Option Block}
    (hold : ∀ b ∈ old, Counted weight total b) :
    (repWeightsCommit_ w (exchangeOps old none)).Shows
      (fun r => weight r - old.elim 0 (·.weight r)) (total - old.elim 0 Block.totalWeight) := by
  cases old with
  | none => exact h
  | some b =>
      obtain ⟨hrep, hb, hbt⟩ := hold b rfl
      have hself : b.weight b.representative = b.balance.toNat := by simp [Block.weight, hrep]
      have hall : b.totalWeight = b.balance.toNat := by simp [Block.totalWeight, hrep]
      have hsub := h.sub b.representative b.balance (hself ▸ hb _) (hall ▸ hbt)
      have hfun : Function.update weight b.representative
          (weight b.representative - b.balance.toNat) = fun r => weight r - b.weight r := by
        funext r
        by_cases hr : r = b.representative
        · subst hr
          simp [hself]
        · simp [hr, Block.weight, Ne.symm hr]
      rw [hfun] at hsub
      simpa [repWeightsCommit_, exchangeOps, hall] using hsub

theorem Shows.deposit (h : w.Shows weight total) {new : Option Block}
    (hnew : ∀ b ∈ new, b.hasRepresentative = true)
    (hfits : ∀ r, weight r + new.elim 0 (·.weight r) < 2 ^ 128)
    (htotal : total + new.elim 0 Block.totalWeight < 2 ^ 128) :
    (repWeightsCommit_ w (exchangeOps none new)).Shows
      (fun r => weight r + new.elim 0 (·.weight r)) (total + new.elim 0 Block.totalWeight) := by
  cases new with
  | none => exact h
  | some b =>
      have hrep := hnew b rfl
      have hself : b.weight b.representative = b.balance.toNat := by simp [Block.weight, hrep]
      have hall : b.totalWeight = b.balance.toNat := by simp [Block.totalWeight, hrep]
      have hadd := h.add b.representative b.balance (hself ▸ hfits _) (hall ▸ htotal)
      have hfun : Function.update weight b.representative
          (weight b.representative + b.balance.toNat) = fun r => weight r + b.weight r := by
        funext r
        by_cases hr : r = b.representative
        · subst hr
          simp [hself]
        · simp [hr, Block.weight, Ne.symm hr]
      rw [hfun] at hadd
      simpa [repWeightsCommit_, exchangeOps, hall] using hadd

-- Exchanging the weight of one head for that of another.
theorem Shows.exchange (h : w.Shows weight total) {old new : Option Block}
    (hold : ∀ b ∈ old, Counted weight total b) (hnew : ∀ b ∈ new, b.hasRepresentative = true)
    (hweight : ∀ r, weight' r + old.elim 0 (·.weight r) = weight r + new.elim 0 (·.weight r))
    (htotal : total' + old.elim 0 Block.totalWeight = total + new.elim 0 Block.totalWeight)
    (hle : ∀ r, weight' r ≤ total') (hfits : total' < 2 ^ 128) :
    (repWeightsCommit_ w (exchangeOps old new)).Shows weight' total' := by
  have hin : (∀ r, old.elim 0 (·.weight r) ≤ weight r) ∧
      old.elim 0 Block.totalWeight ≤ total := by
    cases old with
    | none => simp
    | some b => exact (hold b rfl).2
  have hsplit : repWeightsCommit_ w (exchangeOps old new) =
      repWeightsCommit_ (repWeightsCommit_ w (exchangeOps old none)) (exchangeOps none new) := by
    simp [repWeightsCommit_, exchangeOps]
  have hfun : weight' = fun r => weight r - old.elim 0 (·.weight r) +
      new.elim 0 (·.weight r) := by
    funext r
    have hr := hweight r
    have hless := hin.1 r
    omega
  have hsum : total' = total - old.elim 0 Block.totalWeight + new.elim 0 Block.totalWeight := by
    omega
  rw [hsplit, hfun, hsum]
  refine (h.withdraw hold).deposit hnew (fun r => ?_) (by omega)
  have hr := congrFun hfun r
  have hbound := hle r
  omega

end RepWeights

end Raicoin
