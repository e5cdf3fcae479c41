import Raicoin.App.Waiting

-- The chains that an application follows, with the ledger that it derives from them.
namespace Raicoin

open Lib

-- What an application adds to the chains: the types of the blocks that it follows, and what it
-- does before and after a block enters its chain and before one leaves it. `φ` stands for the
-- writes that a transaction refuses it.
structure AppHooks (φ σ : Type) where
  accountTypes : List BlockType
  preBlockAppend : Block → Bool → σ → Except ErrorCode Unit
  afterBlockAppend : φ → Store → Block → Bool → σ → Except ErrorCode σ
  preBlockRollback : Block → σ → Except ErrorCode Unit

structure App (σ : Type) where
  store : Store
  ledger : σ

namespace App

variable {φ σ : Type} (env : Env) (hooks : AppHooks φ σ) (fails : StoreCall → Bool) (refused : φ)

-- The part of `AppendBlock_` that a new head comes to.
def appendHead_ (block : Block) (confirmed : Bool) (info : AccountInfo) (linked : Bool)
    (s : App σ) : Except ErrorCode (App σ) := do
  hooks.preBlockAppend block confirmed s.ledger
  let store ← orReturn (s.store.accountInfoPut fails block.account info)
    .APP_PROCESS_LEDGER_ACCOUNT_PUT
  let store ← orReturn (store.blockPut fails (env.hash block) block 0)
    .APP_PROCESS_LEDGER_BLOCK_PUT
  let store ← if linked then
      orReturn (store.blockSuccessorSet fails block.previous (env.hash block))
        .APP_PROCESS_LEDGER_SUCCESSOR_SET
    else .ok store
  let ledger ← hooks.afterBlockAppend refused store block confirmed s.ledger
  return ⟨store, ledger⟩

-- A block that is in its chain already may still become confirmed.
def confirmBlock_ (block : Block) (confirmed : Bool) (info : AccountInfo) (s : App σ) :
    Except ErrorCode (App σ) :=
  if s.store.blockExists (env.hash block) then do
    returnIf (info.confirmed block.height = true) .APP_PROCESS_CONFIRMED
    returnIf (confirmed = false) .APP_PROCESS_EXIST
    let store ← orReturn
      (s.store.accountInfoPut fails block.account { info with confirmedHeight := block.height })
      .APP_PROCESS_LEDGER_ACCOUNT_PUT
    return { s with store }
  else if info.confirmed block.height then throw .APP_PROCESS_CONFIRMED_FORK
  else throw .APP_PROCESS_FORK

def appendBlock_ (block : Block) (confirmed : Bool) (s : App σ) : Except ErrorCode (App σ) :=
  match (s.store.accountInfoGet block.account).filter AccountInfo.valid with
  | none => do
    returnIf (block.height ≠ 0) .APP_PROCESS_GAP_PREVIOUS
    let info := AccountInfo.first block.type (env.hash block)
    appendHead_ env hooks fails refused block confirmed
      (if confirmed then { info with confirmedHeight := 0 } else info) false s
  | some info =>
    if block.height > info.headHeight + 1 then throw .APP_PROCESS_GAP_PREVIOUS
    else if block.height = info.headHeight + 1 then do
      returnIf (block.previous ≠ info.head) .APP_PROCESS_PREVIOUS_MISMATCH
      appendHead_ env hooks fails refused block confirmed
        { info with
          headHeight := block.height
          head := env.hash block
          confirmedHeight := if confirmed then block.height else info.confirmedHeight } true s
    else if block.height ≥ info.tailHeight then confirmBlock_ env fails block confirmed info s
    else throw .APP_PROCESS_PRUNED

-- The account's info once its head is gone.
def unheadInfo_ (block : Block) (info : AccountInfo) : AccountInfo :=
  let head := info.headHeight - 1
  { info with
    head := block.previous
    headHeight := head
    confirmedHeight := if info.confirmedHeight ≠ INVALID_HEIGHT ∧ info.confirmedHeight > head then
        head
      else info.confirmedHeight }

def rollbackBlock_ (block : Block) (s : App σ) : Except ErrorCode (App σ) := do
  let info ← orReturn ((s.store.accountInfoGet block.account).filter AccountInfo.valid)
    .APP_PROCESS_ROLLBACK_ACCOUNT_MISS
  returnIf (info.head ≠ env.hash block) .APP_PROCESS_ROLLBACK_NON_HEAD
  returnIf (info.confirmed block.height = true) .APP_PROCESS_ROLLBACK_CONFIRMED
  hooks.preBlockRollback block s.ledger
  let store ← orReturn (s.store.rollbackBlockPut fails info.head block)
    .APP_PROCESS_ROLLBACK_BLOCK_PUT
  let store ← orReturn (store.blockDel fails info.head) .APP_PROCESS_LEDGER_BLOCK_DEL
  let store ← if block.height ≠ 0 then
      orReturn (store.blockSuccessorSet fails block.previous 0) .APP_PROCESS_LEDGER_SUCCESSOR_SET
    else .ok store
  let store ← if info.headHeight = 0 then
      orReturn (store.accountInfoDel fails block.account) .APP_PROCESS_LEDGER_ACCOUNT_DEL
    else
      orReturn (store.accountInfoPut fails block.account (unheadInfo_ block info))
        .APP_PROCESS_LEDGER_ACCOUNT_PUT
  return { s with store }

-- A transaction that ends with an error is aborted.
def committed (s : App σ) : Except ErrorCode (App σ) → App σ
  | .ok s' => s'
  | .error _ => s

-- `waiting` says that the block's position is in the queue of the positions that others wait for:
-- an unconfirmed block is kept from it.
def processBlock (s : App σ) (block : Block) (confirmed waiting : Bool) : App σ :=
  if block.type ∉ hooks.accountTypes ∨ confirmed = false ∧ waiting = true then s
  else s.committed (appendBlock_ env hooks fails refused block confirmed s)

def processBlockRollback (s : App σ) (block : Block) : App σ :=
  if block.type ∉ hooks.accountTypes then s
  else s.committed (rollbackBlock_ env hooks fails block s)

end App

end Raicoin
