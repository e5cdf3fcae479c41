import Raicoin.Node.BlockProcessor.Dynamic
import Mathlib.Data.Finset.Sort

-- The forks that are recorded against an account.
namespace Raicoin

open Lib

-- The `forks` table: two blocks for an account and a height.
abbrev ForkTable := Table (Account × Nat) (Block × Block)

-- What LMDB may refuse in a transaction on this table: to begin it, or one of its writes.
inductive ForkCall where
  | begin_
  | forkPut
  | forkDel (account : Account) (height : Nat)
  | accountInfoPut (account : Account)
  deriving DecidableEq

def ForkCall.never (_ : ForkCall) : Bool := false

def Block.forkWith (block other : Block) : Bool :=
  !(block.account ≠ other.account || block.height ≠ other.height || block = other)

namespace ForkTable

variable (fails : ForkCall → Bool) (forks : ForkTable)

-- What the iterators from `ForkLowerBound` to `ForkUpperBound` visit, in the order of the
-- heights. The upper bound is the key of the last height.
def heights (account : Account) : List Nat :=
  ((forks.keys.filter fun key => key.1 = account ∧ key.2 < 2 ^ 64 - 1).image Prod.snd).sort (· ≤ ·)

def entries (account : Account) : List (Block × Block) :=
  (heights forks account).filterMap fun height => forks.get (account, height)

-- Deleting a missing key is an error.
def forkDel (account : Account) (height : Nat) : Option ForkTable :=
  if fails (.forkDel account height) ∨ forks.get (account, height) = none then none
  else some (forks.del (account, height))

-- The second loop of `ForkDel` without a height: it ends at its first error.
def forkDelEach (account : Account) : List Nat → ForkTable → ForkTable
  | [], forks => forks
  | height :: rest, forks =>
    match forkDel fails forks account height with
    | none => forks
    | some forks' => forkDelEach account rest forks'

def forkDelAll (account : Account) : ForkTable :=
  if ∃ entry ∈ entries forks account, entry.1.account ≠ account then forks
  else forkDelEach fails account ((entries forks account).map fun entry => entry.1.height) forks

end ForkTable

def Ledger.putInfo (l : Ledger) (account : Account) (info : AccountInfo) : Ledger :=
  { l with store := { l.store with accounts := l.store.accounts.put account info } }

-- What `ProcessBlockFork_` leaves and tells: the fork is broadcast, an election starts, an
-- entry was deleted to make room.
structure ForkResult where
  ledger : Ledger
  forks : ForkTable
  broadcast : Bool
  election : Bool
  deleted : Option (Block × Block)

-- The entry with the greatest height above `height`.
def furthestFork (height : Nat) (entries : List (Block × Block)) : Option (Block × Block) :=
  entries.foldl (fun found entry =>
    let maxHeight := match found with
      | none => height
      | some fork => fork.1.height
    if entry.1.height > maxHeight then some entry else found) none

section ProcessBlockFork

variable (env : Env) (now : Nat) (fails : ForkCall → Bool) (l : Ledger) (forks : ForkTable)

def processBlockFork_ (first second : Block) : ForkResult :=
  let unchanged : ForkResult := ⟨l, forks, false, false, none⟩
  if first.forkWith second = false then unchanged
  else if fails .begin_ then unchanged
  else
    match (l.store.accountInfoGet first.account).filter AccountInfo.valid with
    | none => unchanged
    | some info =>
      if first.height > info.headHeight then unchanged
      else
        let election : Bool := info.confirmedHeight = INVALID_HEIGHT ∨
          info.confirmedHeight < first.height
        if forks.contains (first.account, first.height) then { unchanged with election }
        else
          match l.store.blockGet info.head with
          | none => unchanged
          | some head =>
            if info.forks < maxAllowedForks env.network now head.credit + 2 then
              if fails .forkPut ∨ fails (.accountInfoPut first.account) then unchanged
              else
                -- `++` on 16 bits
                let counted := { info with forks := (info.forks + 1) % 2 ^ 16 }
                ⟨l.putInfo first.account counted,
                  forks.put (first.account, first.height) (first, second), true, election, none⟩
            else if ∃ entry ∈ forks.entries first.account, entry.1.account ≠ first.account then
              unchanged
            else
              match furthestFork first.height (forks.entries first.account) with
              | none => unchanged
              | some fork =>
                match forks.forkDel fails first.account fork.1.height with
                | none => unchanged
                | some forks' =>
                  if fails .forkPut then unchanged
                  else ⟨l, forks'.put (first.account, first.height) (first, second), true, election,
                    some fork⟩

-- One round of the loop of `UpdateForks_`; errors are only counted.
def updateFork (l : Ledger) (forks : ForkTable) (account : Account) : Ledger × ForkTable :=
  match (l.store.accountInfoGet account).filter AccountInfo.valid with
  | none => (l, forks.forkDelAll fails account)
  | some info =>
    let entries := (forks.entries account).filter fun entry => entry.1.account = account
    let count := (entries.filter fun entry => entry.1.height ≤ info.headHeight).length % 2 ^ 16
    let heights := (entries.filter fun entry => entry.1.height > info.headHeight).map
      fun entry => entry.1.height
    let kept := heights.foldl
      (fun forks height => (forks.forkDel fails account height).getD forks) forks
    if count ≠ info.forks ∧ fails (.accountInfoPut account) = false then
      (l.putInfo account { info with forks := count }, kept)
    else (l, kept)

-- The accounts are a set; each round keeps to the entries of its own account.
def updateForks_ (accounts : List Account) : Ledger × ForkTable :=
  if fails .begin_ then (l, forks)
  else accounts.foldl (fun state account => updateFork fails state.1 state.2 account) (l, forks)

end ProcessBlockFork

end Raicoin
