import Mathlib.Order.Lattice.Nat
import Raicoin.Common.Blocks
import Raicoin.Lib.Table

namespace Raicoin

open Lib

structure AccountInfo where
  type : BlockType
  forks : Nat
  headHeight : Nat
  tailHeight : Nat
  confirmedHeight : Nat
  head : BlockHash
  tail : BlockHash
  deriving DecidableEq, Repr

-- The info of an account after its first block.
def AccountInfo.first (type : BlockType) (hash : BlockHash) : AccountInfo where
  type := type
  forks := 0
  headHeight := 0
  tailHeight := 0
  confirmedHeight := INVALID_HEIGHT
  head := hash
  tail := hash

def AccountInfo.valid (info : AccountInfo) : Bool :=
  !(info.headHeight = INVALID_HEIGHT || info.tailHeight = INVALID_HEIGHT) &&
    !(info.head = 0 || info.tail = 0)

-- Too many forks for the credit of the account.
def AccountInfo.restricted (network : RaiNetworks) (now : Nat) (info : AccountInfo)
    (credit : Nat) : Bool :=
  info.forks > maxAllowedForks network now credit

structure ReceivableInfo where
  source : Account
  amount : Amount
  timestamp : Nat
  deriving DecidableEq, Repr

structure RewardableInfo where
  source : Account
  amount : Amount
  validTimestamp : Nat
  deriving DecidableEq, Repr

structure BindingKey where
  account : Account
  chain : Chain
  height : Nat
  deriving DecidableEq

-- The value of the `blocks` table: a block and the hash of the one after it, or zero.
structure StoredBlock where
  block : Block
  successor : BlockHash
  deriving DecidableEq

-- The LMDB tables that the block processor reads and writes.
structure Store where
  accounts : Table Account AccountInfo
  blocks : Table BlockHash StoredBlock
  blocksIndex : Table (Account × Nat) BlockHash
  receivables : Table (Account × BlockHash) ReceivableInfo
  rewardables : Table (Account × BlockHash) RewardableInfo
  rollbacks : Table BlockHash Block
  bindingCount : Table Account Nat
  bindingEntries : Table BindingKey SignerAddress

def Store.empty : Store where
  accounts := .empty
  blocks := .empty
  blocksIndex := .empty
  receivables := .empty
  rewardables := .empty
  rollbacks := .empty
  bindingCount := .empty
  bindingEntries := .empty

-- The writes a transaction makes. LMDB may refuse any of them (a full map, an
-- I/O error); a transaction makes each kind of write at most once.
inductive StoreCall where
  | accountInfoPut
  | accountInfoDel
  | blockPut
  | blockIndexPut
  | blockIndexDel
  | blockDel
  | blockSuccessorSet
  | receivableInfoPut
  | receivableInfoDel
  | rewardableInfoPut
  | rewardableInfoDel
  | rollbackBlockPut
  | bindingPut
  | bindingDel
  | bindingCountPut
  | bindingCountDel
  deriving DecidableEq, Repr

-- A store on which every write succeeds.
def StoreCall.never (_ : StoreCall) : Bool := false

def BLOCKS_PER_INDEX : Nat := 8

namespace Store

variable (fails : StoreCall → Bool) (s : Store)

def accountInfoGet (account : Account) : Option AccountInfo := s.accounts.get account

def accountInfoPut (account : Account) (info : AccountInfo) : Option Store :=
  if fails .accountInfoPut then none
  else some { s with accounts := s.accounts.put account info }

-- Deleting a missing key is `MDB_NOTFOUND`, an error like any other.
def accountInfoDel (account : Account) : Option Store :=
  if fails .accountInfoDel ∨ s.accounts.get account = none then none
  else some { s with accounts := s.accounts.del account }

def blockIndexPut_ (account : Account) (height : Nat) (hash : BlockHash) : Option Store :=
  if fails .blockIndexPut then none
  else some { s with blocksIndex := s.blocksIndex.put (account, height) hash }

def blockIndexDel_ (account : Account) (height : Nat) : Option Store :=
  if fails .blockIndexDel ∨ s.blocksIndex.get (account, height) = none then none
  else some { s with blocksIndex := s.blocksIndex.del (account, height) }

-- Every caller passes the block's own hash.
def blockPut (hash : BlockHash) (block : Block) (successor : BlockHash) : Option Store :=
  if fails .blockPut then none
  else
    let s := { s with blocks := s.blocks.put hash ⟨block, successor⟩ }
    if block.height % BLOCKS_PER_INDEX = 0 then
      s.blockIndexPut_ fails block.account block.height hash
    else some s

def blockGet (hash : BlockHash) : Option Block := (s.blocks.get hash).map StoredBlock.block

def blockExists (hash : BlockHash) : Bool := s.blocks.contains hash

def blockDel (hash : BlockHash) : Option Store := do
  let block ← s.blockGet hash
  let s ← if block.height % BLOCKS_PER_INDEX = 0 then
      s.blockIndexDel_ fails block.account block.height
    else some s
  if fails .blockDel then none else some { s with blocks := s.blocks.del hash }

def blockSuccessorSet (hash successor : BlockHash) : Option Store := do
  let stored ← s.blocks.get hash
  if fails .blockSuccessorSet then none
  else some { s with blocks := s.blocks.put hash { stored with successor } }

def blockSuccessorGet (hash : BlockHash) : Option BlockHash :=
  (s.blocks.get hash).map StoredBlock.successor

def blockIndexGet_ (account : Account) (height : Nat) : Option BlockHash :=
  s.blocksIndex.get (account, height)

def receivableInfoGet (destination : Account) (hash : BlockHash) : Option ReceivableInfo :=
  s.receivables.get (destination, hash)

def receivableInfoPut (destination : Account) (hash : BlockHash) (info : ReceivableInfo) :
    Option Store :=
  if fails .receivableInfoPut then none
  else some { s with receivables := s.receivables.put (destination, hash) info }

def receivableInfoDel (destination : Account) (hash : BlockHash) : Option Store :=
  if fails .receivableInfoDel ∨ s.receivables.get (destination, hash) = none then none
  else some { s with receivables := s.receivables.del (destination, hash) }

def rewardableInfoGet (representative : Account) (hash : BlockHash) : Option RewardableInfo :=
  s.rewardables.get (representative, hash)

def rewardableInfoPut (representative : Account) (hash : BlockHash) (info : RewardableInfo) :
    Option Store :=
  if fails .rewardableInfoPut then none
  else some { s with rewardables := s.rewardables.put (representative, hash) info }

def rewardableInfoDel (representative : Account) (hash : BlockHash) : Option Store :=
  if fails .rewardableInfoDel ∨ s.rewardables.get (representative, hash) = none then none
  else some { s with rewardables := s.rewardables.del (representative, hash) }

def rollbackBlockPut (hash : BlockHash) (block : Block) : Option Store :=
  if fails .rollbackBlockPut then none
  else some { s with rollbacks := s.rollbacks.put hash block }

def bindingGet (key : BindingKey) : Option SignerAddress := s.bindingEntries.get key

def bindingPut (key : BindingKey) (signer : SignerAddress) : Option Store :=
  if fails .bindingPut then none
  else some { s with bindingEntries := s.bindingEntries.put key signer }

def bindingDel (key : BindingKey) : Option Store :=
  if fails .bindingDel ∨ s.bindingEntries.get key = none then none
  else some { s with bindingEntries := s.bindingEntries.del key }

def bindingCountGet (account : Account) : Option Nat := s.bindingCount.get account

def bindingCountPut (account : Account) (count : Nat) : Option Store :=
  if fails .bindingCountPut then none
  else some { s with bindingCount := s.bindingCount.put account count }

def bindingCountDel (account : Account) : Option Store :=
  if fails .bindingCountDel ∨ s.bindingCount.get account = none then none
  else some { s with bindingCount := s.bindingCount.del account }

-- The blocks that the ledger holds, whatever they are stored under.
def blockSet : Finset Block := s.blocks.keys.biUnion fun hash => (s.blockGet hash).toFinset

theorem mem_blockSet {s : Store} {block : Block} :
    block ∈ s.blockSet ↔ ∃ hash, s.blockGet hash = some block := by
  simp only [blockSet, Finset.mem_biUnion, Table.mem_keys, Option.mem_toFinset, Option.mem_def]
  constructor
  · rintro ⟨hash, -, hget⟩
    exact ⟨hash, hget⟩
  · rintro ⟨hash, hget⟩
    obtain ⟨stored, hstored, -⟩ := Option.map_eq_some_iff.mp hget
    exact ⟨hash, ⟨stored, hstored⟩, hget⟩

-- When a write succeeds, and what it makes of the tables.
section Writes

variable {fails : StoreCall → Bool} {s s' : Store}

theorem accountInfoPut_eq_some {account : Account} {info : AccountInfo} :
    s.accountInfoPut fails account info = some s' ↔
      fails .accountInfoPut = false ∧ { s with accounts := s.accounts.put account info } = s' := by
  simp [accountInfoPut]

theorem accountInfoDel_eq_some {account : Account} :
    s.accountInfoDel fails account = some s' ↔
      fails .accountInfoDel = false ∧ (s.accounts.get account).isSome ∧
        { s with accounts := s.accounts.del account } = s' := by
  simp [accountInfoDel, Option.isSome_iff_ne_none, and_assoc]

-- The blocks table and its index after a block was put.
def withBlock (s : Store) (hash : BlockHash) (block : Block) (successor : BlockHash) : Store :=
  { s with
    blocks := s.blocks.put hash ⟨block, successor⟩
    blocksIndex := if block.height % BLOCKS_PER_INDEX = 0 then
        s.blocksIndex.put (block.account, block.height) hash
      else s.blocksIndex }

theorem blockPut_eq_some {hash successor : BlockHash} {block : Block}
    (h : s.blockPut fails hash block successor = some s') :
    s' = s.withBlock hash block successor := by
  unfold blockPut blockIndexPut_ at h
  unfold withBlock
  split at h <;> try contradiction
  split_ifs at h ⊢ <;> simp_all

theorem blockPut_never (s : Store) (block : Block) (hash : BlockHash) :
    s.blockPut StoreCall.never hash block 0 = some (s.withBlock hash block 0) := by
  unfold blockPut blockIndexPut_ withBlock
  split_ifs <;> simp_all [StoreCall.never]

theorem blockPut_allowed {hash successor : BlockHash} {block : Block}
    (h : s.blockPut fails hash block successor = some s') : fails .blockPut = false ∧
      (block.height % BLOCKS_PER_INDEX = 0 → fails .blockIndexPut = false) := by
  unfold blockPut blockIndexPut_ at h
  split_ifs at h <;> simp_all

-- The blocks table and its index after the block was deleted.
def withoutBlock (s : Store) (hash : BlockHash) (block : Block) : Store :=
  { s with
    blocks := s.blocks.del hash
    blocksIndex := if block.height % BLOCKS_PER_INDEX = 0 then
        s.blocksIndex.del (block.account, block.height)
      else s.blocksIndex }

theorem blockDel_eq_some {hash : BlockHash} (h : s.blockDel fails hash = some s') :
    ∃ block, s.blockGet hash = some block ∧ s' = s.withoutBlock hash block := by
  unfold blockDel blockIndexDel_ at h
  unfold withoutBlock
  cases hget : s.blockGet hash with
  | none => simp [hget] at h
  | some block =>
      refine ⟨block, rfl, ?_⟩
      simp only [hget, Option.bind_eq_bind, Option.bind_some] at h
      split_ifs at h ⊢ <;> simp_all

theorem blockDel_never {hash : BlockHash} {block : Block} (hget : s.blockGet hash = some block)
    (hindex : block.height % BLOCKS_PER_INDEX = 0 →
      (s.blocksIndex.get (block.account, block.height)).isSome) :
    s.blockDel StoreCall.never hash = some (s.withoutBlock hash block) := by
  unfold blockDel blockIndexDel_ withoutBlock
  simp only [hget, Option.bind_eq_bind, Option.bind_some, StoreCall.never]
  split_ifs <;> simp_all

theorem blockSuccessorSet_eq_some {hash successor : BlockHash} :
    s.blockSuccessorSet fails hash successor = some s' ↔
      fails .blockSuccessorSet = false ∧ ∃ block, s.blockGet hash = some block ∧
        { s with blocks := s.blocks.put hash ⟨block, successor⟩ } = s' := by
  unfold blockSuccessorSet blockGet
  cases s.blocks.get hash <;> simp

theorem receivableInfoPut_eq_some {destination : Account} {hash : BlockHash}
    {info : ReceivableInfo} :
    s.receivableInfoPut fails destination hash info = some s' ↔
      fails .receivableInfoPut = false ∧
        { s with receivables := s.receivables.put (destination, hash) info } = s' := by
  simp [receivableInfoPut]

theorem receivableInfoDel_eq_some {destination : Account} {hash : BlockHash} :
    s.receivableInfoDel fails destination hash = some s' ↔
      fails .receivableInfoDel = false ∧ (s.receivables.get (destination, hash)).isSome ∧
        { s with receivables := s.receivables.del (destination, hash) } = s' := by
  simp [receivableInfoDel, Option.isSome_iff_ne_none, and_assoc]

theorem rewardableInfoPut_eq_some {representative : Account} {hash : BlockHash}
    {info : RewardableInfo} :
    s.rewardableInfoPut fails representative hash info = some s' ↔
      fails .rewardableInfoPut = false ∧
        { s with rewardables := s.rewardables.put (representative, hash) info } = s' := by
  simp [rewardableInfoPut]

theorem rewardableInfoDel_eq_some {representative : Account} {hash : BlockHash} :
    s.rewardableInfoDel fails representative hash = some s' ↔
      fails .rewardableInfoDel = false ∧ (s.rewardables.get (representative, hash)).isSome ∧
        { s with rewardables := s.rewardables.del (representative, hash) } = s' := by
  simp [rewardableInfoDel, Option.isSome_iff_ne_none, and_assoc]

theorem rollbackBlockPut_eq_some {hash : BlockHash} {block : Block} :
    s.rollbackBlockPut fails hash block = some s' ↔
      fails .rollbackBlockPut = false ∧
        { s with rollbacks := s.rollbacks.put hash block } = s' := by
  simp [rollbackBlockPut]

theorem bindingPut_eq_some {key : BindingKey} {signer : SignerAddress} :
    s.bindingPut fails key signer = some s' ↔
      fails .bindingPut = false ∧
        { s with bindingEntries := s.bindingEntries.put key signer } = s' := by
  simp [bindingPut]

theorem bindingDel_eq_some {key : BindingKey} :
    s.bindingDel fails key = some s' ↔
      fails .bindingDel = false ∧ (s.bindingEntries.get key).isSome ∧
        { s with bindingEntries := s.bindingEntries.del key } = s' := by
  simp [bindingDel, Option.isSome_iff_ne_none, and_assoc]

theorem bindingCountPut_eq_some {account : Account} {count : Nat} :
    s.bindingCountPut fails account count = some s' ↔
      fails .bindingCountPut = false ∧
        { s with bindingCount := s.bindingCount.put account count } = s' := by
  simp [bindingCountPut]

theorem bindingCountDel_eq_some {account : Account} :
    s.bindingCountDel fails account = some s' ↔
      fails .bindingCountDel = false ∧ (s.bindingCount.get account).isSome ∧
        { s with bindingCount := s.bindingCount.del account } = s' := by
  simp [bindingCountDel, Option.isSome_iff_ne_none, and_assoc]

end Writes

end Store

end Raicoin
