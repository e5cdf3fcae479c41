import Mathlib.Algebra.Order.Field.Rat
import Raicoin.Lib.Shares
import Raicoin.Validator.SyncSpec

-- The validators that weigh enough to be asked.
namespace Raicoin.Validator

open Lib

namespace EvmChainSync

section Loops

variable (genesis : Uint256) (genesisWeight totalWeight : Nat) (percent : ℚ)

-- `weight / self.total_weight >= percent`
def Reaches (weight : Nat) : Prop := percent ≤ (weight : ℚ) / totalWeight

instance : DecidablePred (Reaches totalWeight percent) := fun _ => inferInstanceAs (Decidable (_ ≤ _))

-- The loop of `top_validators`, which puts the genesis validator in before the first one that is
-- lighter.
def topLoop : Bool → Nat → List ValidatorFullInfo → List Uint256
  | _, _, [] => []
  | included, weight, i :: rest =>
    if i.weight < genesisWeight ∧ included = false then
      genesis ::
        if Reaches totalWeight percent (weight + genesisWeight) then []
        else if i.weight = 0 then []
        else i.validator ::
          if Reaches totalWeight percent (weight + genesisWeight + i.weight) then []
          else topLoop true (weight + genesisWeight + i.weight) rest
    else if i.weight = 0 then []
    else i.validator ::
      if Reaches totalWeight percent (weight + i.weight) then []
      else topLoop included (weight + i.weight) rest

-- The loop of `weight_threshold`.
def thresholdLoop : Bool → Nat → List ValidatorFullInfo → Nat
  | _, _, [] => 0
  | included, weight, i :: rest =>
    if i.weight < genesisWeight ∧ included = false then
      if Reaches totalWeight percent (weight + genesisWeight) then genesisWeight
      else if i.weight = 0 then 0
      else if Reaches totalWeight percent (weight + genesisWeight + i.weight) then i.weight
      else thresholdLoop true (weight + genesisWeight + i.weight) rest
    else if i.weight = 0 then 0
    else if Reaches totalWeight percent (weight + i.weight) then i.weight
    else thresholdLoop included (weight + i.weight) rest

end Loops

variable (self : EvmChainSync) (genesis : Uint256)

def topValidators (percent : ℚ) : List Uint256 :=
  match self.validators with
  | none => []
  | some [] => [genesis]
  | some validators =>
    topLoop genesis self.genesisWeight (self.totalWeight.getD 0) percent false 0 validators

def weightThreshold (percent : ℚ) : Nat :=
  match self.validators with
  | none => self.genesisWeight
  | some [] => self.genesisWeight
  | some validators =>
    thresholdLoop self.genesisWeight (self.totalWeight.getD 0) percent false 0 validators

def weightOfValidator (validator : Uint256) : Nat :=
  if validator = genesis then self.genesisWeight
  else ((self.validators.bind fun validators => find validators validator).map
    ValidatorFullInfo.weight).getD 0

-- `check_validator` returns whether there is an error.
def checkValidator (validator : Uint256) : Bool :=
  if validator ≠ genesis then
    match self.validators.bind fun validators => find validators validator with
    | none => true
    | some info => decide (info.weight < self.weightThreshold (99 / 100))
  else decide (self.genesisWeight < self.weightThreshold (99 / 100))

end EvmChainSync

end Raicoin.Validator
