import Mathlib.Data.List.Sort
import Raicoin.Lib.Machine
import Raicoin.Lib.Process
import Raicoin.Validator.Messages

-- How a bridge validator keeps up with the list of validators that a contract of a foreign chain
-- holds.
namespace Raicoin.Validator

open Lib

abbrev ForeignAddress := BitVec 160

-- What `getValidatorInfo` returns.
structure ValidatorInfo where
  gasPrice : Nat
  signer : ForeignAddress
  lastSubmit : Nat
  epoch : Nat
  deriving DecidableEq

structure ValidatorFullInfo where
  validator : Uint256
  signer : ForeignAddress
  weight : Nat
  gasPrice : Nat
  lastSubmit : Nat
  epoch : Nat
  deriving DecidableEq

-- The validator contract as a block leaves it. A validator that it does not list has no values.
structure ContractState where
  validators : List ValidatorFullInfo
  weight : ForeignAddress → Nat
  totalWeight : Nat
  fee : Nat

namespace ContractState

def names (state : ContractState) : List Uint256 := state.validators.map ValidatorFullInfo.validator

def info (state : ContractState) (validator : Uint256) : ValidatorInfo :=
  match state.validators.find? fun entry => entry.validator = validator with
  | some entry => ⟨entry.gasPrice, entry.signer, entry.lastSubmit, entry.epoch⟩
  | none => ⟨0, 0, 0, 0⟩

-- No weight is asked for the signer that is not there.
def signerWeight (state : ContractState) (signer : ForeignAddress) : Nat :=
  if signer = 0 then 0 else state.weight signer

end ContractState

-- `logs` are the validators that a `ValidatorSubmitted` or `ValidatorPurged` of the block names.
structure ForeignBlock where
  logs : List Uint256
  state : ContractState

structure ForeignChain where
  height : Nat
  block : Nat → ForeignBlock

namespace ForeignChain

def state (chain : ForeignChain) (height : Nat) : ContractState := (chain.block height).state

-- The values of a validator, taken from two answers: its weight is asked for last.
def reading (chain weighed : ForeignChain) (height : Nat) (validator : Uint256) :
    ValidatorFullInfo :=
  let info := (chain.state height).info validator
  ⟨validator, info.signer, (weighed.state height).signerWeight info.signer, info.gasPrice,
    info.lastSubmit, info.epoch⟩

-- `get_validator_logs`
def logsBetween (chain : ForeignChain) (from_ : Int) (to_ : Nat) : List (Uint256 × Nat) :=
  ((List.range (to_ + 1)).filter fun height : Nat => from_ ≤ (height : Int)).flatMap
    fun height : Nat => (chain.block height).logs.map fun validator => (validator, height)

end ForeignChain

structure ValidatorActivity where
  logHeight : Nat
  syncHeight : Nat

-- The fields of `EvmChainValidator` that a round brings up to date. `contractWeight` is the source's
-- `__total_weight`; a dictionary is a list in the order of its keys. `rawSigners` has the `signer_raw`
-- of the entries: it is set when an entry is made, and `update` leaves it.
structure EvmChainSync where
  fee : Option Nat
  syncedHeight : Option Nat
  validators : Option (List ValidatorFullInfo)
  rawSigners : List (Uint256 × ForeignAddress)
  contractWeight : Option Nat
  totalWeight : Option Nat
  activities : List (Uint256 × ValidatorActivity)

namespace EvmChainSync

def empty : EvmChainSync := ⟨none, none, none, [], none, none, []⟩

-- `validators.sort(reverse=True)`
def sorted (validators : List ValidatorFullInfo) : List ValidatorFullInfo :=
  validators.insertionSort fun first second => second.weight ≤ first.weight

def find (validators : List ValidatorFullInfo) (validator : Uint256) : Option ValidatorFullInfo :=
  validators.find? fun entry => entry.validator = validator

-- What an entry adds when it is made.
def rawSigner (entry : ValidatorFullInfo) : Uint256 × ForeignAddress :=
  (entry.validator, entry.signer)

-- The local entry of a validator; one that is absent has no values.
def entry (self : EvmChainSync) (validator : Uint256) : ValidatorFullInfo :=
  ((self.validators.bind fun validators => find validators validator)).getD
    ⟨validator, 0, 0, 0, 0, 0⟩

-- What the total weight has more than the contract tells.
def genesisWeight (self : EvmChainSync) : Nat :=
  match self.totalWeight, self.contractWeight with
  | some total, some weight => if total ≤ weight then 0 else total - weight
  | _, _ => 0

-- `update_validator`, with what it returns.
def updateValidator (validators : List ValidatorFullInfo) (entry : ValidatorFullInfo) :
    Bool × List ValidatorFullInfo :=
  match find validators entry.validator with
  | some existing =>
    if entry = existing then (false, validators)
    else (true, sorted (validators.replaceF fun other =>
      if other.validator = entry.validator then some entry else none))
  | none => (true, sorted (validators ++ [entry]))

def updateRawSigners (validators : List ValidatorFullInfo)
    (rawSigners : List (Uint256 × ForeignAddress)) (entry : ValidatorFullInfo) :
    List (Uint256 × ForeignAddress) :=
  if (find validators entry.validator).isSome then rawSigners else rawSigners ++ [rawSigner entry]

def activity (activities : List (Uint256 × ValidatorActivity)) (validator : Uint256) :
    Option ValidatorActivity :=
  (activities.find? fun item => item.1 = validator).map Prod.snd

def changeActivity (activities : List (Uint256 × ValidatorActivity)) (validator : Uint256)
    (f : ValidatorActivity → ValidatorActivity) : List (Uint256 × ValidatorActivity) :=
  activities.map fun item => if item.1 = validator then (item.1, f item.2) else item

def updateActivity (activities : List (Uint256 × ValidatorActivity)) (log : Uint256 × Nat) :
    List (Uint256 × ValidatorActivity) :=
  if (activity activities log.1).isSome then
    changeActivity activities log.1 fun activity => { activity with logHeight := log.2 }
  else activities ++ [(log.1, ⟨log.2, 0⟩)]

end EvmChainSync

-- A chain that has answered, with the highest block number that had been answered by then.
structure Seen where
  chain : ForeignChain
  highest : Nat

-- When the list was loaded, and the chains that answered.
structure Load where
  height : Nat
  chains : List ForeignChain

-- `replies` are what the calls to come are answered with: the chain that is current then, or a
-- failure. `seen`, `load` and `read` are not in the source: `read` has the chains that answered
-- when `sync_activities` last asked for the values of a validator.
structure SyncState where
  self : EvmChainSync
  replies : List (Option ForeignChain)
  seen : List Seen
  load : Option Load
  read : Uint256 → Option (List ForeignChain)

namespace SyncState

def empty : SyncState := ⟨.empty, [], [], none, fun _ => none⟩

-- The chains that have answered since an earlier state, the latest first.
def answersSince (s before : SyncState) : List ForeignChain :=
  (s.seen.take (s.seen.length - before.seen.length)).map Seen.chain

end SyncState

def highestSeen : List Seen → Nat
  | [] => 0
  | last :: _ => last.highest

-- A call that fails ends the round, which keeps what it has done.
abbrev RpcM (α : Type) : Type := Process Unit SyncState α

namespace RpcM

-- A call that asks for the state at a height.
def ask {α : Type} (height : Nat) (answer : ForeignChain → α) : RpcM α := fun s =>
  match s.replies with
  | some chain :: rest =>
    if height ≤ chain.height then
      .ok (answer chain) { s with
        replies := rest, seen := ⟨chain, highestSeen s.seen⟩ :: s.seen }
    else .error () { s with replies := rest }
  | _ :: rest => .error () { s with replies := rest }
  | [] => .error () s

def getBlockNumber : RpcM Nat := fun s =>
  match s.replies with
  | some chain :: rest =>
    .ok chain.height { s with
      replies := rest, seen := ⟨chain, max (highestSeen s.seen) chain.height⟩ :: s.seen }
  | _ :: rest => .error () { s with replies := rest }
  | [] => .error () s

def modifySelf (f : EvmChainSync → EvmChainSync) : RpcM PUnit :=
  modify fun s => { s with self := f s.self }

def syncFee (blockNumber : Nat) : RpcM Bool := do
  let fee ← ask blockNumber fun chain => (chain.state blockNumber).fee
  let s ← get
  modifySelf fun self => { self with fee := some fee }
  return s.self.fee ≠ some fee

-- The loop over the pages; each takes 1000 entries or those that are left.
def loadPages (blockNumber count : Nat) :
    Nat → Nat → List ValidatorFullInfo → RpcM (List ValidatorFullInfo)
  | 0, _, validators => pure validators
  | pages + 1, begin_, validators =>
    if begin_ ≥ count then pure validators
    else do
      let end_ := min (begin_ + 1000) count
      let array ← ask blockNumber fun chain =>
        ((chain.state blockNumber).validators.drop begin_).take (end_ - begin_)
      loadPages blockNumber count pages end_ (validators ++ array)

def initializeValidators (blockNumber : Nat) : RpcM Bool := do
  let before ← get
  let count ← ask blockNumber fun chain => (chain.state blockNumber).validators.length
  let validators ← loadPages blockNumber count count 0 []
  modify fun s => { s with
    self := { s.self with
      validators := some (EvmChainSync.sorted validators)
      rawSigners := validators.map EvmChainSync.rawSigner }
    load := some ⟨blockNumber, s.answersSince before⟩ }
  return true

-- The weight of a signer that is not there is not asked for.
def getSignerWeight (signer : ForeignAddress) (blockNumber : Nat) : RpcM Nat :=
  if signer = 0 then pure 0
  else ask blockNumber fun chain => (chain.state blockNumber).weight signer

def updateValidator (entry : ValidatorFullInfo) : RpcM Bool := fun s =>
  match s.self.validators with
  | some validators =>
    let result := EvmChainSync.updateValidator validators entry
    .ok result.1 { s with self := { s.self with
      validators := some result.2
      rawSigners := EvmChainSync.updateRawSigners validators s.self.rawSigners entry } }
  | none => .error () s

section Rounds

variable (confirmations : Nat)

-- What the loop of `sync_activities` does for a validator: whether its entry has changed, and
-- whether its activity is done with.
def syncActivity (blockNumber : Nat) (validator : Uint256) : RpcM (Bool × Bool) := do
  let s ← get
  match EvmChainSync.activity s.self.activities validator with
  | none => pure (false, false)
  | some activity =>
    if activity.syncHeight ≥ activity.logHeight ∧
        blockNumber < activity.logHeight + confirmations then
      pure (false, false)
    else do
      let info ← ask blockNumber fun chain => (chain.state blockNumber).info validator
      let weight ← getSignerWeight info.signer blockNumber
      let updated ← updateValidator
        ⟨validator, info.signer, weight, info.gasPrice, info.lastSubmit, info.epoch⟩
      modify fun after => { after with
        self := { after.self with
          activities := EvmChainSync.changeActivity after.self.activities validator fun activity =>
            { activity with syncHeight := blockNumber } }
        read := Function.update after.read validator (some (after.answersSince s)) }
      return (updated, blockNumber ≥ activity.logHeight + confirmations)

def syncEach (blockNumber : Nat) : List Uint256 → RpcM (Bool × List Uint256)
  | [] => pure (false, [])
  | validator :: rest => do
    let result ← syncActivity confirmations blockNumber validator
    let others ← syncEach blockNumber rest
    return (result.1 || others.1, if result.2 then validator :: others.2 else others.2)

def syncActivities (blockNumber : Nat) : RpcM Bool := do
  let s ← get
  let result ← syncEach confirmations blockNumber (s.self.activities.map Prod.fst)
  modifySelf fun self => { self with
    activities := self.activities.filter fun item => !(result.2.contains item.1) }
  return result.1

def syncTotalWeight (blockNumber : Nat) : RpcM PUnit := do
  let total ← ask blockNumber fun chain => (chain.state blockNumber).totalWeight
  modifySelf fun self =>
    if self.contractWeight = some total then self
    else { self with contractWeight := some total, totalWeight := some (max total (2 * 10 ^ 16)) }

def loadOnce (blockNumber : Nat) : RpcM PUnit := do
  let s ← get
  if s.self.validators.isNone then discard (initializeValidators blockNumber)

-- `synced_height if synced_height else block_number`: zero is as good as none.
def previousHeight (self : EvmChainSync) (blockNumber : Nat) : Nat :=
  match self.syncedHeight with
  | some (height + 1) => height + 1
  | _ => blockNumber

def readLogs (blockNumber : Nat) : RpcM PUnit := do
  let s ← get
  let logs ← ask blockNumber fun chain =>
    chain.logsBetween ((previousHeight s.self blockNumber : Int) - confirmations) blockNumber
  modifySelf fun self => { self with
    activities := logs.foldl EvmChainSync.updateActivity self.activities }

def syncValidators (blockNumber : Nat) : RpcM Bool := do
  syncTotalWeight blockNumber
  loadOnce blockNumber
  readLogs confirmations blockNumber
  syncActivities confirmations blockNumber

-- `__call__` from where it asks for the block number to where it sets `synced_height`; the result
-- is whether the node is told of a change. A round that ends before leaves these fields alone.
def round : RpcM Bool := do
  let answered ← getBlockNumber
  let s ← get
  if s.self.syncedHeight.any fun height => decide (answered ≤ height) then return false
  else
    let blockNumber := (s.self.syncedHeight.map fun height => min answered (height + 4000)).getD
      answered
    let feeUpdated ← syncFee blockNumber
    let updated ← syncValidators confirmations blockNumber
    modifySelf fun self => { self with syncedHeight := some blockNumber }
    return feeUpdated || updated

end Rounds

end RpcM

namespace ContractState

-- The entries that the contract lists have names of their own, and the weights it tells of their
-- signers.
structure Sound (state : ContractState) : Prop where
  nodup : state.names.Nodup
  weights : ∀ entry ∈ state.validators, state.signerWeight entry.signer = entry.weight

end ContractState

namespace ForeignChain

-- The values of a validator change only in the blocks that name it.
structure Logged (chain : ForeignChain) : Prop where
  sound : ∀ height, (chain.state height).Sound
  first : ∀ validator, validator ∉ (chain.block 0).logs →
    reading chain chain 0 validator = ⟨validator, 0, 0, 0, 0, 0⟩
  changes : ∀ height validator, validator ∉ (chain.block (height + 1)).logs →
    reading chain chain (height + 1) validator = reading chain chain height validator

def AgreesUpTo (chain other : ForeignChain) (height : Nat) : Prop :=
  ∀ n ≤ height, chain.block n = other.block n

-- A chain that can be current after another one has answered.
def Follows (confirmations : Nat) (chain : ForeignChain) (earlier : Seen) : Prop :=
  (∀ n, n + confirmations ≤ earlier.highest → chain.block n = earlier.chain.block n) ∧
    earlier.highest ≤ chain.height + confirmations

end ForeignChain

namespace SyncState

def chains (s : SyncState) : List ForeignChain := s.seen.map Seen.chain

-- Reorganisations reach no deeper than `confirmations` blocks.
structure Truthful (confirmations : Nat) (s : SyncState) : Prop where
  logged : ∀ chain ∈ s.chains, chain.Logged
  follow : s.seen.Pairwise fun later earlier => later.chain.Follows confirmations earlier

def take (confirmations : Nat) (s : SyncState) (replies : List (Option ForeignChain)) : SyncState :=
  match RpcM.round confirmations { s with replies } with
  | .ok _ next => next
  | .error _ next => next

end SyncState

@[reducible] def syncMachine (confirmations : Nat) :
    Machine SyncState (List (Option ForeignChain)) where
  start s := s = .empty
  fits s replies := (s.take confirmations replies).Truthful confirmations
  step s replies := s.take confirmations replies

end Raicoin.Validator
