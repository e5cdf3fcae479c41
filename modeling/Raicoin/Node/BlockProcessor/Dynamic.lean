import Raicoin.Node.BlockProcessor.Append
import Raicoin.Node.BlockProcessor.Rollback
import Raicoin.Secure.BlockWalk

namespace Raicoin

open Lib

variable (env : Env)

def checkPrepend (s : Store) (block : Block) : Except ErrorCode AccountInfo := do
  returnIf (env.checkSignature block) .BLOCK_PROCESS_SIGNATURE
  let info ← orReturn (s.accountInfoGet block.account) .BLOCK_PROCESS_PREPEND_IGNORE
  returnIf (info.tailHeight ≠ (block.height + 1) % 2 ^ 64) .BLOCK_PROCESS_PREPEND_IGNORE
  let tail ← orReturn (s.blockGet info.tail) .BLOCK_PROCESS_LEDGER_BLOCK_GET
  returnIf (tail.previous ≠ env.hash block) .BLOCK_PROCESS_PREPEND_IGNORE
  return info

def prependBlock_ (block : Block) : TransactionM Unit := do
  let info ← examine fun s => checkPrepend env s block
  write (fun fails s => s.blockPut fails (env.hash block) block info.tail)
    .BLOCK_PROCESS_LEDGER_BLOCK_PUT
  write (fun fails s => s.accountInfoPut fails block.account
    { info with tail := env.hash block, tailHeight := block.height })
    .BLOCK_PROCESS_LEDGER_ACCOUNT_INFO_PUT

def checkConfirm (s : Store) (block : Block) : Except ErrorCode AccountInfo := do
  returnIf (s.blockExists (env.hash block) = false) .BLOCK_PROCESS_CONFIRM_BLOCK_MISS
  orReturn (s.accountInfoGet block.account) .BLOCK_PROCESS_LEDGER_INCONSISTENT

-- The height that was confirmed before goes to the observers.
def confirmBlock_ (block : Block) : TransactionM Nat := do
  let info ← examine fun s => checkConfirm env s block
  if info.confirmedHeight = INVALID_HEIGHT ∨ block.height > info.confirmedHeight then
    write (fun fails s => s.accountInfoPut fails block.account
      { info with confirmedHeight := block.height }) .BLOCK_PROCESS_LEDGER_ACCOUNT_INFO_PUT
  return info.confirmedHeight

inductive BlockOperation where
  | invalid
  | append
  | prepend
  | rollback
  | drop
  | confirm
  deriving DecidableEq, Repr

-- The block is missing while a query for it is on its way.
structure BlockDynamic where
  operation : BlockOperation
  block : Option Block
  deriving DecidableEq

-- A ledger and the stack of one dynamic operation, with the code that the last
-- call returned; `.ok ()` is `SUCCESS`.
structure Dynamic where
  ledger : Ledger
  stack : List BlockDynamic
  code : Except ErrorCode Unit

-- `ProcessBlock_`: only a success is committed.
def processBlock_ (now : Nat) (fails : StoreCall → Bool) (l : Ledger) (block : Block) : Ledger :=
  match appendBlock_ env now block (.begin_ l fails) with
  | .ok _ t => t.commit
  | .error _ t => t.abort l

-- Whether the block before the tail cannot be asked for.
def queryPrevious_ (s : Store) (account : Account) : Bool :=
  match s.accountInfoGet account with
  | none => true
  | some info =>
    if info.tailHeight = INVALID_HEIGHT ∨ info.tailHeight = 0 then true
    else (s.blockGet info.tail).isNone

-- Commits, and asks the network for a block that is pushed once it comes.
def Dynamic.wait (t : Transaction) (stack : List BlockDynamic) (operation : BlockOperation) :
    Dynamic :=
  ⟨t.commit, ⟨operation, none⟩ :: stack, .error .BLOCK_PROCESS_WAIT⟩

-- Commits, and pushes a block that is in the ledger; if it is not, `code` is returned.
def Dynamic.push (t : Transaction) (stack : List BlockDynamic) (found : Option Block)
    (code : ErrorCode) : Dynamic :=
  match found with
  | none => ⟨t.commit, stack, .error code⟩
  | some block => ⟨t.commit, ⟨.rollback, some block⟩ :: stack, .error .BLOCK_PROCESS_CONTINUE⟩

def processBlockDynamicAppend_ (now : Nat) (fails : StoreCall → Bool) (l : Ledger)
    (stack : List BlockDynamic) (block : Block) : Dynamic :=
  match appendBlock_ env now block (.begin_ l fails) with
  | .ok _ t => ⟨t.commit, stack, .ok ()⟩
  | .error code t =>
    match code with
    | .BLOCK_PROCESS_PREVIOUS | .BLOCK_PROCESS_GAP_PREVIOUS | .BLOCK_PROCESS_TYPE_MISMATCH =>
      if block.height = 0 then ⟨t.commit, stack, .error code⟩ else .wait t stack .append
    | .BLOCK_PROCESS_PRUNED =>
      if queryPrevious_ t.store block.account then ⟨t.commit, stack, .error code⟩
      else .wait t stack .prepend
    | .BLOCK_PROCESS_GAP_RECEIVE_SOURCE | .BLOCK_PROCESS_GAP_REWARD_SOURCE =>
      .wait t stack .append
    | .BLOCK_PROCESS_FORK =>
      .push t stack (t.store.blockGetAt block.account block.height)
        .BLOCK_PROCESS_LEDGER_BLOCK_GET
    | .BLOCK_PROCESS_EXISTS => ⟨t.commit, stack, .error code⟩
    | _ => ⟨t.abort l, stack, .error code⟩

def processBlockDynamicPrepend_ (fails : StoreCall → Bool) (l : Ledger)
    (stack : List BlockDynamic) (block : Block) : Dynamic :=
  match prependBlock_ env block (.begin_ l fails) with
  | .ok _ t => ⟨t.commit, stack, .ok ()⟩
  | .error code t =>
    match code with
    | .BLOCK_PROCESS_PREPEND_IGNORE => ⟨t.commit, stack, .error code⟩
    | _ => ⟨t.abort l, stack, .error code⟩

def headOf (s : Store) (account : Account) : Option Block := do
  let info ← s.accountInfoGet account
  s.blockGet info.head

def processBlockDynamicRollback_ (fails : StoreCall → Bool) (l : Ledger)
    (stack : List BlockDynamic) (block : Block) : Dynamic :=
  match rollbackBlock_ env block (.begin_ l fails) with
  | .ok _ t => ⟨t.commit, stack, .ok ()⟩
  | .error code t =>
    match code with
    | .BLOCK_PROCESS_ROLLBACK_IGNORE => ⟨t.commit, stack, .error code⟩
    | .BLOCK_PROCESS_ROLLBACK_TAIL =>
      if queryPrevious_ t.store block.account then ⟨t.commit, stack, .error code⟩
      else .wait t stack .prepend
    | .BLOCK_PROCESS_ROLLBACK_NON_HEAD =>
      .push t stack ((t.store.blockSuccessorGet (env.hash block)).bind t.store.blockGet) code
    | .BLOCK_PROCESS_ROLLBACK_REWARDED =>
      .push t stack
        ((t.store.blockGet block.previous).bind fun previous =>
          headOf t.store previous.representative) code
    | .BLOCK_PROCESS_ROLLBACK_RECEIVED => .push t stack (headOf t.store block.link) code
    | .BLOCK_PROCESS_ROLLBACK_SOURCE_PRUNED => .wait t stack .append
    | _ => ⟨t.abort l, stack, .error code⟩

def processBlockDynamicConfirm_ (fails : StoreCall → Bool) (l : Ledger)
    (stack : List BlockDynamic) (block : Block) : Dynamic :=
  match confirmBlock_ env block (.begin_ l fails) with
  | .ok _ t => ⟨t.commit, stack, .ok ()⟩
  | .error code t =>
    match code with
    | .BLOCK_PROCESS_CONFIRM_BLOCK_MISS =>
      ⟨t.commit, ⟨.append, some block⟩ :: stack, .error .BLOCK_PROCESS_CONTINUE⟩
    | _ => ⟨t.abort l, stack, .error code⟩

-- The call that the operation on the top of the stack asks for.
def processBlockDynamicTop (now : Nat) (fails : StoreCall → Bool) (l : Ledger)
    (stack : List BlockDynamic) (operation : BlockOperation) (block : Block) : Dynamic :=
  match operation with
  | .append => processBlockDynamicAppend_ env now fails l stack block
  | .confirm => processBlockDynamicConfirm_ env fails l stack block
  | .prepend => processBlockDynamicPrepend_ env fails l stack block
  | .rollback => processBlockDynamicRollback_ env fails l stack block
  | _ => ⟨l, stack, .error .BLOCK_PROCESS_UNKNOWN_OPERATION⟩

-- How a round of the loop ends.
inductive Round where
  | next (ledger : Ledger) (stack : List BlockDynamic)
  | wait (ledger : Ledger) (stack : List BlockDynamic)
  | finish (ledger : Ledger)

-- One round of the loop of `ProcessBlockDynamic_`. The loop never meets a block
-- that is still missing: it has returned, and is entered again with the answer.
def processBlockDynamicRound (now : Nat) (fails : StoreCall → Bool) (l : Ledger)
    (stack : List BlockDynamic) : Round :=
  match stack with
  | [] => .finish l
  | ⟨_, none⟩ :: _ => .wait l stack
  | ⟨operation, some block⟩ :: _ =>
    let result := processBlockDynamicTop env now fails l stack operation block
    match result.code with
    | .ok () => .next result.ledger result.stack.tail
    | .error .BLOCK_PROCESS_CONTINUE => .next result.ledger result.stack
    | .error .BLOCK_PROCESS_WAIT => .wait result.ledger result.stack
    | .error .BLOCK_PROCESS_EXISTS =>
      if operation = .append ∨ operation = .prepend then .next result.ledger result.stack.tail
      else .finish result.ledger
    | .error .BLOCK_PROCESS_PREPEND_IGNORE => .next result.ledger result.stack.tail
    | .error .BLOCK_PROCESS_ROLLBACK_IGNORE => .next result.ledger result.stack.tail
    | .error _ => .finish result.ledger

end Raicoin
