import Raicoin.Node.BlockProcessor.Dynamic
import Raicoin.Secure.Genesis
import Mathlib.Data.Set.Basic
import Mathlib.Logic.Relation

namespace Raicoin

open Lib

-- The four calls that change a ledger, at a time of the node's clock.
inductive BlockCall where
  | append (now : Nat) (block : Block)
  | prepend (block : Block)
  | rollback (block : Block)
  | confirm (block : Block)

namespace BlockCall

def block : BlockCall → Block
  | .append _ block => block
  | .prepend block => block
  | .rollback block => block
  | .confirm block => block

def run (env : Env) : BlockCall → TransactionM Unit
  | .append now block => appendBlock_ env now block
  | .prepend block => prependBlock_ env block
  | .rollback block => rollbackBlock_ env block
  | .confirm block => do
    let _ ← confirmBlock_ env block

-- The errors after which `ProcessBlockDynamic*_` still commits.
def keeps : BlockCall → ErrorCode → Bool
  | .append _ _, code => code ∈ [.BLOCK_PROCESS_PREVIOUS, .BLOCK_PROCESS_GAP_PREVIOUS,
      .BLOCK_PROCESS_TYPE_MISMATCH, .BLOCK_PROCESS_PRUNED, .BLOCK_PROCESS_GAP_RECEIVE_SOURCE,
      .BLOCK_PROCESS_GAP_REWARD_SOURCE, .BLOCK_PROCESS_FORK, .BLOCK_PROCESS_EXISTS]
  | .prepend _, code => code = .BLOCK_PROCESS_PREPEND_IGNORE
  | .rollback _, code => code ∈ [.BLOCK_PROCESS_ROLLBACK_IGNORE, .BLOCK_PROCESS_ROLLBACK_TAIL,
      .BLOCK_PROCESS_ROLLBACK_NON_HEAD, .BLOCK_PROCESS_ROLLBACK_REWARDED,
      .BLOCK_PROCESS_ROLLBACK_RECEIVED, .BLOCK_PROCESS_ROLLBACK_SOURCE_PRUNED]
  | .confirm _, code => code = .BLOCK_PROCESS_CONFIRM_BLOCK_MISS

end BlockCall

-- How a transaction of the block processor ends. `fails` are the writes that LMDB
-- refuses in it.
inductive Outcome (env : Env) (call : BlockCall) (fails : StoreCall → Bool) (l : Ledger) :
    Ledger → Prop where
  | commit {t : Transaction} (hrun : call.run env (.begin_ l fails) = .ok () t) :
      Outcome env call fails l t.commit
  | keep {t : Transaction} (code : ErrorCode)
      (hrun : call.run env (.begin_ l fails) = .error code t) (hkeeps : call.keeps code = true) :
      Outcome env call fails l t.commit
  | abort {t : Transaction} (code : ErrorCode)
      (hrun : call.run env (.begin_ l fails) = .error code t) :
      Outcome env call fails l (t.abort l)

def Step (env : Env) (blocks : Set Block) (l l' : Ledger) : Prop :=
  ∃ call fails, call.block ∈ blocks ∧ Outcome env call fails l l'

-- What a sequence of transactions makes of the ledger that has only the genesis block.
inductive Reachable (env : Env) (blocks : Set Block) : Ledger → Prop where
  | genesis (enableRichList enableDelegatorList : Bool) :
      Reachable env blocks (genesisLedger env enableRichList enableDelegatorList)
  | step {l l' : Ledger} (hl : Reachable env blocks l) (hstep : Step env blocks l l') :
      Reachable env blocks l'

-- The same for the sequences that keep to ledgers with a property.
inductive ReachableWithin (env : Env) (blocks : Set Block) (bound : Ledger → Prop) :
    Ledger → Prop where
  | genesis (enableRichList enableDelegatorList : Bool)
      (hbound : bound (genesisLedger env enableRichList enableDelegatorList)) :
      ReachableWithin env blocks bound (genesisLedger env enableRichList enableDelegatorList)
  | step {l l' : Ledger} (hl : ReachableWithin env blocks bound l)
      (hstep : Step env blocks l l') (hbound : bound l') : ReachableWithin env blocks bound l'

theorem ReachableWithin.reachable {env : Env} {blocks : Set Block} {bound : Ledger → Prop}
    {l : Ledger} (h : ReachableWithin env blocks bound l) : Reachable env blocks l := by
  induction h with
  | genesis enableRichList enableDelegatorList _ => exact .genesis _ _
  | step _ hstep _ ih => exact .step ih hstep

theorem ReachableWithin.within {env : Env} {blocks : Set Block} {bound : Ledger → Prop}
    {l : Ledger} (h : ReachableWithin env blocks bound l) : bound l := by
  cases h with
  | genesis _ _ hbound => exact hbound
  | step _ _ hbound => exact hbound

-- The hash function as far as a run sees it: blocks with one hash differ at most
-- in their signatures, and no hash is one of the two numbers with a meaning of
-- their own, the hash zero of "no block" and the link of the genesis block. Nor
-- does a chain get as long as the number that stands for "no height".
structure CollisionFree (env : Env) (blocks : Set Block) : Prop where
  hashInput : ∀ a ∈ blocks, ∀ b ∈ blocks, env.hash a = env.hash b → a.hashInput = b.hashInput
  ne_zero : ∀ b ∈ blocks, env.hash b ≠ 0
  ne_genesis_link : ∀ b ∈ blocks, env.hash b ≠ (genesisBlock env.network).link
  height_ne : ∀ b ∈ blocks, b.height ≠ INVALID_HEIGHT
  genesis_mem : genesisBlock env.network ∈ blocks

end Raicoin
