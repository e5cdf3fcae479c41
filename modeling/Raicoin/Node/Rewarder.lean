import Raicoin.Common.BlockBuilder
import Raicoin.Secure.Ledger

-- The blocks that a node builds for its own account.
namespace Raicoin

open Lib BlockBuilder

-- No transaction is left for the day.
def Block.limited (b : Block) (now : Nat) : Bool :=
  SameDay b.timestamp now && b.counter ≥ b.credit * TRANSACTIONS_PER_CREDIT

-- The account and the key of the node, its ledger, and the one time that all calls of
-- `CurrentTimestamp` return.
structure Rewarder where
  account : Account
  key : RawKey
  store : Store
  now : UInt64

namespace Rewarder

variable (env : Env) (signMessage : SignMessage) (r : Rewarder)

-- The info of an account, if it has a valid one.
def infoOf (account : Account) : Option AccountInfo :=
  (r.store.accountInfoGet account).filter AccountInfo.valid

-- The constructor of a block without a chain, which signs it.
def repBlock (opcode : BlockOpcode) (credit counter timestamp height : Nat) (previous : BlockHash)
    (balance : Amount) (link : Uint256) : Block :=
  let block : RepBlock := {
    opcode
    credit := UInt16.ofNat credit
    counter := UInt32.ofNat counter
    timestamp := UInt64.ofNat timestamp
    height := UInt64.ofNat height
    account := r.account
    previous, balance, link
    chain := Chain.INVALID
    signature := 0
    chain_eq := fun _ => rfl }
  .rep { block with signature := signMessage r.key r.account (env.hash (.rep block)) }

def builderOn (previous : Option Block) : RepBlockBuilder := ⟨some r.key, r.account, previous⟩

-- `.ok none` stands for `SUCCESS` without a block.
def processReward_ (amount : Amount) (hash : BlockHash) : Except ErrorCode (Option Block) := do
  let rewardable ← orReturn (r.store.rewardableInfoGet r.account hash) .LEDGER_REWARDABLE_INFO_GET
  returnIf (amount ≠ rewardable.amount) .REWARDER_AMOUNT
  let timestamp := r.now.toNat
  match r.infoOf r.account with
  | none => do
    returnIf (timestamp < rewardable.validTimestamp) .REWARDER_TIMESTAMP
    let price := creditPrice env.network timestamp
    returnIf (amount.toNat < price) .REWARDER_REWARDABLE_LESS_THAN_CREDIT
    return some (r.repBlock env signMessage .reward 1 0 timestamp 0 0
      (amount - BitVec.ofNat 128 price) hash)
  | some info => do
    let head ← orReturn (r.store.blockGet info.head) .LEDGER_BLOCK_GET
    returnIf (timestamp < rewardable.validTimestamp) .REWARDER_TIMESTAMP
    returnIf (timestamp < head.timestamp) .BLOCK_TIMESTAMP
    returnIf (info.restricted env.network r.now.toNat head.credit) .ACCOUNT_RESTRICTED
    let counter := if SameDay timestamp head.timestamp then head.counter else 0
    return some (r.repBlock env signMessage .reward head.credit counter timestamp (head.height + 1)
      info.head (head.balance + rewardable.amount) hash)

-- All of the balance is sent.
def processSend_ (destination : Account) : Except ErrorCode (Option Block) := do
  returnIf (destination = 0) .REWARD_TO_ACCOUNT
  returnIf (∃ info ∈ r.infoOf destination, info.type ≠ .txBlock) .REWARD_TO_ACCOUNT
  match r.infoOf r.account with
  | none => return none
  | some info => do
    let head ← orReturn (r.store.blockGet info.head) .LEDGER_BLOCK_GET
    returnIf (head.balance = 0) .ACCOUNT_ZERO_BALANCE
    let timestamp := laterOf r.now.toNat head.timestamp
    returnIf (timestamp > (r.now.toNat + 60) % 2 ^ 64) .ACCOUNT_ACTION_TOO_QUICKLY
    returnIf (info.restricted env.network r.now.toNat head.credit) .ACCOUNT_RESTRICTED
    let counter := nextCounter timestamp head
    checkCounter head.credit counter .ACCOUNT_ACTION_CREDIT
    return some (r.repBlock env signMessage .send head.credit counter timestamp (head.height + 1)
      info.head 0 destination)

def processReceive_ (hash : BlockHash) : Except ErrorCode (Option Block) :=
  match r.store.receivableInfoGet r.account hash with
  | none => return none
  | some receivable =>
    match r.infoOf r.account with
    | none =>
      if receivable.amount.toNat < creditPrice env.network r.now.toNat then return none
      else do
        let (block, _) ← (r.builderOn none).receive env signMessage hash receivable.amount
          (UInt64.ofNat receivable.timestamp) r.now
        return some block
    | some info => do
      let head ← orReturn (r.store.blockGet info.head) .LEDGER_BLOCK_GET
      returnIf (info.restricted env.network r.now.toNat head.credit) .ACCOUNT_RESTRICTED
      let (block, _) ← (r.builderOn (some head)).receive env signMessage hash receivable.amount
        (UInt64.ofNat receivable.timestamp) r.now
      return some block

-- `bound` is what `BindingQuery` returns for the chain.
def processBind_ (chain : Chain) (signer : SignerAddress) (bound : Option SignerAddress) :
    Except ErrorCode (Option Block) := do
  returnIf (bound = some signer) .BINDING_IGNORED
  let info ← orReturn (r.infoOf r.account) .LEDGER_ACCOUNT_INFO_GET
  let head ← orReturn (r.store.blockGet info.head) .LEDGER_BLOCK_GET
  returnIf (info.restricted env.network r.now.toNat head.credit) .ACCOUNT_RESTRICTED
  let (block, _) ← (r.builderOn (some head)).bind env signMessage chain signer r.now
  return some block

-- Credit is bought only where the account has come to a limit.
def needsCredit (info : AccountInfo) (head : Block) : Prop :=
  info.restricted env.network r.now.toNat head.credit = true ∨ head.limited r.now.toNat = true ∨
    ∃ count ∈ r.store.bindingCountGet r.account, count ≥ allowedBindings head.credit

instance (info : AccountInfo) (head : Block) : Decidable (r.needsCredit env info head) :=
  inferInstanceAs (Decidable (info.restricted env.network r.now.toNat head.credit = true ∨
    head.limited r.now.toNat = true ∨
      ∃ count ∈ r.store.bindingCountGet r.account, count ≥ allowedBindings head.credit))

def processCredit_ : Except ErrorCode (Option Block) :=
  match r.infoOf r.account with
  | none => return none
  | some info => do
    let head ← orReturn (r.store.blockGet info.head) .LEDGER_BLOCK_GET
    if r.needsCredit env info head then do
      returnIf (head.balance.toNat < creditPrice env.network r.now.toNat) .ACCOUNT_ACTION_BALANCE
      let (block, _) ← (r.builderOn (some head)).credit env signMessage 1 r.now
      return some block
    else return none

end Rewarder

end Raicoin
