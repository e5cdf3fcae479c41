import Raicoin.Node.BlockProcessor.Forks
import Raicoin.Secure.Genesis

-- The thread of the block processor: blocks, forks and forced blocks, one after the other.
namespace Raicoin

open Lib

-- A dynamic operation that is not over: `blocks_dynamic_` and `accounts_dynamic_` have
-- their entries under the same numbers.
structure Pending where
  stack : List BlockDynamic
  accounts : List Account

structure Processor where
  ledger : Ledger
  forks : ForkTable
  operation : UInt64
  dynamic : Table UInt64 Pending

-- What follows the operations in `BlockOperation`.
def DYNAMIC_BEGIN : UInt64 := 6

namespace Processor

-- The number of a new operation, and the next state of the counter.
def dynamicOpration_ (operation : UInt64) : UInt64 × UInt64 :=
  if operation < DYNAMIC_BEGIN then (DYNAMIC_BEGIN, DYNAMIC_BEGIN + 1)
  else (operation, operation + 1)

-- `APPEND` and `CONFIRM` by number; the others are not forced.
def forcedOperation (operation : UInt64) : Option BlockOperation :=
  if operation = 1 then some .append
  else if operation = 5 then some .confirm
  else none

-- The block that was asked for takes its place on the stack.
def answer (stack : List BlockDynamic) (block : Block) : List BlockDynamic :=
  match stack with
  | [] => []
  | top :: rest => ⟨top.operation, some block⟩ :: rest

-- `ProcessBlockForced_` up to its call of `ProcessBlockDynamic_`: the number of the
-- operation, what is pending under it, and the next state of the counter.
def processBlockForced_ (p : Processor) (operation : UInt64) (block : Block) :
    Option (UInt64 × Pending × UInt64) :=
  if operation ≥ DYNAMIC_BEGIN then
    (p.dynamic.get operation).map fun pending =>
      (operation, ⟨answer pending.stack block, pending.accounts.insert block.account⟩, p.operation)
  else
    (forcedOperation operation).map fun forced =>
      ((dynamicOpration_ p.operation).1, ⟨[⟨forced, some block⟩], [block.account]⟩,
        (dynamicOpration_ p.operation).2)

section Dynamic

variable (env : Env)

-- The accounts after a round: one that continues has pushed a block of this account.
def recordedAccounts (now : Nat) (fails : StoreCall → Bool) (l : Ledger) (pending : Pending) :
    List Account :=
  match pending.stack with
  | ⟨operation, some block⟩ :: _ =>
    let result := processBlockDynamicTop env now fails l pending.stack operation block
    match result.code, result.stack with
    | .error .BLOCK_PROCESS_CONTINUE, ⟨_, some pushed⟩ :: _ =>
      pending.accounts.insert pushed.account
    | _, _ => pending.accounts
  | _ => pending.accounts

-- How `ProcessBlockDynamic_` returns.
inductive DynamicEnd where
  | wait (ledger : Ledger) (pending : Pending)
  | finish (ledger : Ledger) (accounts : List Account)

-- The rounds of `ProcessBlockDynamic_`, each at its own time. LMDB may refuse to begin the
-- transaction of a round, which ends the operation.
inductive ProcessBlockDynamic_ : Ledger → Pending → DynamicEnd → Prop where
  | next {now : Nat} {fails : StoreCall → Bool} {l l' : Ledger} {pending : Pending}
      {stack : List BlockDynamic} {result : DynamicEnd}
      (hround : processBlockDynamicRound env now fails l pending.stack = .next l' stack)
      (hrest : ProcessBlockDynamic_ l' ⟨stack, recordedAccounts env now fails l pending⟩ result) :
      ProcessBlockDynamic_ l pending result
  | wait {now : Nat} {fails : StoreCall → Bool} {l l' : Ledger} {pending : Pending}
      {stack : List BlockDynamic}
      (hround : processBlockDynamicRound env now fails l pending.stack = .wait l' stack) :
      ProcessBlockDynamic_ l pending
        (.wait l' ⟨stack, recordedAccounts env now fails l pending⟩)
  | finish {now : Nat} {fails : StoreCall → Bool} {l l' : Ledger} {pending : Pending}
      (hround : processBlockDynamicRound env now fails l pending.stack = .finish l') :
      ProcessBlockDynamic_ l pending
        (.finish l' (recordedAccounts env now fails l pending))
  | refused {l : Ledger} {pending : Pending} (hstack : pending.stack ≠ []) :
      ProcessBlockDynamic_ l pending (.finish l pending.accounts)

end Dynamic

-- What the thread takes from its queues. `fails` is what LMDB refuses to the transaction
-- on the forks.
inductive Action where
  | block (now : Nat) (fails : StoreCall → Bool) (block : Block)
  | fork (now : Nat) (fails : ForkCall → Bool) (first second : Block)
  | forced (operation : UInt64) (fails : ForkCall → Bool) (block : Block)

inductive Step (env : Env) (p : Processor) : Action → Processor → Prop where
  | block {now : Nat} {fails : StoreCall → Bool} {block : Block} :
      Step env p (.block now fails block)
        { p with ledger := processBlock_ env now fails p.ledger block }
  | blockRefused {now : Nat} {fails : StoreCall → Bool} {block : Block} :
      Step env p (.block now fails block) p
  | fork {now : Nat} {fails : ForkCall → Bool} {first second : Block} {result : ForkResult}
      (hresult : processBlockFork_ env now fails p.ledger p.forks first second = result) :
      Step env p (.fork now fails first second)
        { p with ledger := result.ledger, forks := result.forks }
  | ignored {operation : UInt64} {fails : ForkCall → Bool} {block : Block}
      (hforced : p.processBlockForced_ operation block = none) :
      Step env p (.forced operation fails block) p
  | waits {operation number next : UInt64} {fails : ForkCall → Bool} {block : Block}
      {pending pending' : Pending} {l : Ledger}
      (hforced : p.processBlockForced_ operation block = some (number, pending, next))
      (hrun : ProcessBlockDynamic_ env p.ledger pending (.wait l pending')) :
      Step env p (.forced operation fails block)
        { p with ledger := l, operation := next, dynamic := p.dynamic.put number pending' }
  | finishes {operation number next : UInt64} {fails : ForkCall → Bool} {block : Block}
      {pending : Pending} {l : Ledger} {accounts : List Account}
      (hforced : p.processBlockForced_ operation block = some (number, pending, next))
      (hrun : ProcessBlockDynamic_ env p.ledger pending (.finish l accounts)) :
      Step env p (.forced operation fails block) {
        ledger := (updateForks_ fails l p.forks accounts).1
        forks := (updateForks_ fails l p.forks accounts).2
        operation := next
        dynamic := p.dynamic.del number }

def start (env : Env) (enableRichList enableDelegatorList : Bool) : Processor where
  ledger := genesisLedger env enableRichList enableDelegatorList
  forks := .empty
  operation := DYNAMIC_BEGIN
  dynamic := .empty

def Action.Within (blocks : Set Block) : Action → Prop
  | .block _ _ b => b ∈ blocks
  | .fork .. => True
  | .forced _ _ b => b ∈ blocks

-- The states after any sequence of such steps, each of them allowed where it is taken.
inductive Reachable (env : Env) (blocks : Set Block) (allowed : Processor → Action → Prop) :
    Processor → Prop where
  | start (enableRichList enableDelegatorList : Bool) :
      Reachable env blocks allowed (start env enableRichList enableDelegatorList)
  | step {p p' : Processor} {action : Action} (hp : Reachable env blocks allowed p)
      (hmem : action.Within blocks) (hallowed : allowed p action) (hstep : Step env p action p') :
      Reachable env blocks allowed p'

end Processor

end Raicoin
