import Raicoin.Secure.Store

namespace Raicoin

-- What a lookup ends in: a value, an error, or an assertion that fails.
inductive Lookup (β : Type) where
  | found (value : β)
  | error
  | aborted
  deriving DecidableEq

def Lookup.map {α β : Type} (f : α → β) : Lookup α → Lookup β
  | .found value => .found (f value)
  | .error => .error
  | .aborted => .aborted

-- For the callers that take the value only.
def Lookup.toOption {α : Type} : Lookup α → Option α
  | .found value => some value
  | .error => none
  | .aborted => none

-- The difference of two `uint64_t`.
def sub64 (a b : Nat) : Nat := (a + 2 ^ 64 - b) % 2 ^ 64

namespace Store

variable (s : Store) (account : Account)

-- A loop of `BlockGet` by height: at most `rounds` blocks are read, each found
-- from the one before. Behind the loop stands `assert(0)`.
def walk (next : StoredBlock → BlockHash) (height : Nat) :
    (rounds : Nat) → BlockHash → Lookup StoredBlock
  | 0, _ => .aborted
  | rounds + 1, hash =>
    match s.blocks.get hash with
    | none => .aborted
    | some stored =>
      if height = stored.block.height ∧ account = stored.block.account then .found stored
      else walk next height rounds (next stored)

-- The loop from one end of the chain, or from the block that the index has at `start`.
def walkFrom (next : StoredBlock → BlockHash) (height rounds start own : Nat)
    (ownHash : BlockHash) : Lookup StoredBlock :=
  if start ≠ own then
    match s.blockIndexGet_ account start with
    | none => .aborted
    | some hash => s.walk account next height rounds hash
  else s.walk account next height rounds ownHash

def walkUp (info : AccountInfo) (height start : Nat) : Lookup StoredBlock :=
  s.walkFrom account StoredBlock.successor height (height + 1 - start) start info.tailHeight
    info.tail

def walkDown (info : AccountInfo) (height end_ : Nat) : Lookup StoredBlock :=
  s.walkFrom account (fun stored => stored.block.previous) height (end_ + 1 - height) end_
    info.headHeight info.head

-- The height at or below `height` that the index covers.
def strideStart (height : Nat) : Nat := height / BLOCKS_PER_INDEX * BLOCKS_PER_INDEX

-- `start` and `end`, kept within the chain.
def walkStart (info : AccountInfo) (height : Nat) : Nat :=
  let start := strideStart height
  if start < info.tailHeight then info.tailHeight else start

def walkEnd (info : AccountInfo) (height : Nat) : Nat :=
  let end_ := (strideStart height + BLOCKS_PER_INDEX) % 2 ^ 64
  if end_ > info.headHeight then info.headHeight else end_

-- Whether the lookup takes the loop from the start of the stride.
def goesUp (info : AccountInfo) (height : Nat) : Bool :=
  sub64 height (walkStart info height) < sub64 (walkEnd info height) height

-- What the two overloads of `BlockGet` by height share.
def lookupAt (height : Nat) : Lookup StoredBlock :=
  match s.accountInfoGet account with
  | none => .error
  | some info =>
    if height < info.tailHeight ∨ height > info.headHeight then .error
    else if goesUp info height then s.walkUp account info height (walkStart info height)
    else s.walkDown account info height (walkEnd info height)

-- `BlockGet(account, height, block)`.
def blockAt (height : Nat) : Lookup Block := (s.lookupAt account height).map StoredBlock.block

def blockGetAt (height : Nat) : Option Block := (s.blockAt account height).toOption

-- `BlockGet(account, height, block, successor)`.
def blockAndSuccessorAt (height : Nat) : Lookup (Block × BlockHash) :=
  (s.lookupAt account height).map fun stored => (stored.block, stored.successor)

end Store

end Raicoin
