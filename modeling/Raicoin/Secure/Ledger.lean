import Raicoin.Common.Errors
import Raicoin.Lib.Process
import Raicoin.Secure.Store

namespace Raicoin

open Lib

structure RepWeightOpration where
  add : Bool
  representative : Account
  weight : Amount
  deriving DecidableEq

-- `rep_weights_` and `total_rep_weight_`. `asserted` records that an
-- assertion of `RepWeightsCommit_` has failed; a release build runs on past it.
structure RepWeights where
  weights : Table Account Amount
  total : Amount
  asserted : Bool
  deriving DecidableEq

def RepWeights.empty : RepWeights := ⟨.empty, 0, false⟩

structure DelegatorListEntry where
  rep : Account
  weight : Amount
  type : BlockType
  deriving DecidableEq, Repr

abbrev RichList := Table Account Amount
abbrev DelegatorList := Table Account DelegatorListEntry

structure Ledger where
  store : Store
  repWeights : RepWeights
  richList : RichList
  delegatorList : DelegatorList
  enableRichList : Bool
  enableDelegatorList : Bool

def RICH_LIST_MINIMUM : Amount := BitVec.ofNat 128 (10 * RAI)

-- `rep_weights_[key] += weight`, where `[]` makes a missing entry with weight zero.
def RepWeights.increase (w : RepWeights) (key : Account) (weight : Amount) : RepWeights :=
  { w with
    weights := w.weights.put key ((w.weights.get key).getD 0 + weight)
    total := w.total + weight }

def RepWeights.commitOne (w : RepWeights) (op : RepWeightOpration) : RepWeights :=
  if op.weight = 0 then w
  else if op.add then
    match w.weights.get op.representative with
    | none =>
      { w with weights := w.weights.put op.representative op.weight, total := w.total + op.weight }
    | some weight =>
      { w.increase op.representative op.weight with
        asserted := w.asserted || !decide (weight + op.weight > op.weight) }
  else
    match w.weights.get op.representative with
    | none => { w with asserted := true }
    | some weight =>
      if op.weight > weight then
        -- the entry is erased before it is read, so `[]` makes it again with weight zero
        { weights := (w.weights.del op.representative).put op.representative 0
          total := w.total - 0
          asserted := true }
      else if op.weight = weight then
        { w with weights := w.weights.del op.representative, total := w.total - op.weight }
      else
        { w with
          weights := w.weights.put op.representative (weight - op.weight)
          total := w.total - op.weight }

def repWeightsCommit_ (w : RepWeights) (ops : List RepWeightOpration) : RepWeights :=
  ops.foldl RepWeights.commitOne w

def updateRichList_ (list : RichList) (account : Account) (balance : Amount) : RichList :=
  match list.get account with
  | none => if balance < RICH_LIST_MINIMUM then list else list.put account balance
  | some _ => if balance < RICH_LIST_MINIMUM then list.del account else list.put account balance

def updateDelegatorList_ (list : DelegatorList) (account rep : Account) (weight : Amount)
    (type : BlockType) : DelegatorList :=
  list.put account ⟨rep, weight, type⟩

namespace Ledger

def updateRichList (block : Block) (l : Ledger) : Ledger :=
  if l.enableRichList = false ∨ block.type ≠ .txBlock then l
  else { l with richList := updateRichList_ l.richList block.account block.balance }

def updateDelegatorList (block : Block) (l : Ledger) : Ledger :=
  if l.enableDelegatorList = false ∨ block.hasRepresentative = false then l
  else
    { l with
      delegatorList := updateDelegatorList_ l.delegatorList block.account block.representative
        block.balance block.type }

-- One round of the loop of `InitMemoryTables_`.
def initMemoryTable (l : Ledger) (account : Account) : Except ErrorCode Ledger := do
  match l.store.accountInfoGet account with
  | none => return l
  | some info =>
    if info.headHeight = INVALID_HEIGHT then
      return l
    let block ← orReturn (l.store.blockGet info.head) .LEDGER_BLOCK_GET
    let l := if block.hasRepresentative = true ∧ block.balance ≠ 0 then
        { l with repWeights := l.repWeights.increase block.representative block.balance }
      else l
    let l := if l.enableDelegatorList = true ∧ block.hasRepresentative = true then
        { l with
          delegatorList := updateDelegatorList_ l.delegatorList account block.representative
            block.balance block.type }
      else l
    return if l.enableRichList = true ∧ block.type = .txBlock then
        { l with richList := updateRichList_ l.richList block.account block.balance }
      else l

-- The loop runs over the keys of the accounts table. LMDB gives them in
-- increasing order; here the order is an argument.
def initMemoryTables_ (accounts : List Account) (l : Ledger) : Except ErrorCode Ledger :=
  accounts.foldlM initMemoryTable l

-- The constructor: no memory tables yet, then `InitMemoryTables_`.
def start (enableRichList enableDelegatorList : Bool) (store : Store) : Ledger where
  store := store
  repWeights := .empty
  richList := .empty
  delegatorList := .empty
  enableRichList := enableRichList
  enableDelegatorList := enableDelegatorList

end Ledger

-- A write transaction: the ledger as it is seen inside, the calls that LMDB
-- refuses, and the changes of weights that wait for the commit.
structure Transaction where
  ledger : Ledger
  fails : StoreCall → Bool
  repWeightOperations : List RepWeightOpration

namespace Transaction

def begin_ (l : Ledger) (fails : StoreCall → Bool) : Transaction := ⟨l, fails, []⟩

abbrev store (t : Transaction) : Store := t.ledger.store

def setStore (t : Transaction) (store : Store) : Transaction :=
  { t with ledger := { t.ledger with store } }

-- The destructor of a transaction that was not aborted.
def commit (t : Transaction) : Ledger :=
  { t.ledger with repWeights := repWeightsCommit_ t.ledger.repWeights t.repWeightOperations }

-- LMDB drops the writes and the queued weights are not committed, but the rich
-- list and the delegator list are not part of the transaction.
def abort (before : Ledger) (t : Transaction) : Ledger :=
  { t.ledger with store := before.store, repWeights := before.repWeights }

def repWeightAdd (representative : Account) (weight : Amount) (t : Transaction) : Transaction :=
  { t with repWeightOperations := t.repWeightOperations ++ [⟨true, representative, weight⟩] }

def repWeightSub (representative : Account) (weight : Amount) (t : Transaction) : Transaction :=
  { t with repWeightOperations := t.repWeightOperations ++ [⟨false, representative, weight⟩] }

def updateRichList (block : Block) (t : Transaction) : Transaction :=
  { t with ledger := t.ledger.updateRichList block }

def updateDelegatorList (block : Block) (t : Transaction) : Transaction :=
  { t with ledger := t.ledger.updateDelegatorList block }

-- The store is not touched by what waits for the commit, nor by the lists.
section Frame

variable (t : Transaction) (s s' : Store) (block : Block) (account : Account) (weight : Amount)

@[simp] theorem setStore_store : (t.setStore s).store = s := rfl

@[simp] theorem setStore_fails : (t.setStore s).fails = t.fails := rfl

@[simp] theorem setStore_repWeightOperations :
    (t.setStore s).repWeightOperations = t.repWeightOperations := rfl

@[simp] theorem setStore_setStore : (t.setStore s).setStore s' = t.setStore s' := rfl

@[simp] theorem repWeightAdd_store : (t.repWeightAdd account weight).store = t.store := rfl

@[simp] theorem repWeightAdd_fails : (t.repWeightAdd account weight).fails = t.fails := rfl

@[simp] theorem repWeightSub_store : (t.repWeightSub account weight).store = t.store := rfl

@[simp] theorem repWeightSub_fails : (t.repWeightSub account weight).fails = t.fails := rfl

@[simp] theorem setStore_repWeightAdd :
    (t.repWeightAdd account weight).setStore s = (t.setStore s).repWeightAdd account weight := rfl

@[simp] theorem setStore_repWeightSub :
    (t.repWeightSub account weight).setStore s = (t.setStore s).repWeightSub account weight := rfl

@[simp] theorem updateRichList_fails : (t.updateRichList block).fails = t.fails := rfl

@[simp] theorem updateDelegatorList_fails : (t.updateDelegatorList block).fails = t.fails := rfl

@[simp] theorem updateRichList_store : (t.updateRichList block).store = t.store := by
  unfold store updateRichList Ledger.updateRichList
  split <;> rfl

@[simp] theorem updateDelegatorList_store : (t.updateDelegatorList block).store = t.store := by
  unfold store updateDelegatorList Ledger.updateDelegatorList
  split <;> rfl

@[simp] theorem setStore_updateRichList :
    (t.updateRichList block).setStore s = (t.setStore s).updateRichList block := by
  by_cases h : t.ledger.enableRichList = false ∨ block.type ≠ .txBlock <;>
    simp [setStore, updateRichList, Ledger.updateRichList, h]

@[simp] theorem setStore_updateDelegatorList :
    (t.updateDelegatorList block).setStore s = (t.setStore s).updateDelegatorList block := by
  by_cases h : t.ledger.enableDelegatorList = false ∨ block.hasRepresentative = false <;>
    simp [setStore, updateDelegatorList, Ledger.updateDelegatorList, h]

@[simp] theorem updateRichList_repWeightOperations :
    (t.updateRichList block).repWeightOperations = t.repWeightOperations := rfl

@[simp] theorem updateDelegatorList_repWeightOperations :
    (t.updateDelegatorList block).repWeightOperations = t.repWeightOperations := rfl

@[simp] theorem begin_store (l : Ledger) (fails : StoreCall → Bool) :
    (begin_ l fails).store = l.store := rfl

theorem updateRichList_of_ne (h : block.type ≠ .txBlock) : t.updateRichList block = t := by
  simp [updateRichList, Ledger.updateRichList, h]

end Frame

end Transaction

-- What the visitors run in: a transaction and an error code that ends it.
abbrev TransactionM := Process ErrorCode Transaction

-- `error = ledger_.Write(...); IF_ERROR_RETURN(error, code);`
def write (f : (StoreCall → Bool) → Store → Option Store) (code : ErrorCode) :
    TransactionM Unit :=
  update (fun t => (f t.fails t.store).map t.setStore) code

-- The reads of a visitor that come before its first write.
def examine {α : Type} (f : Store → Except ErrorCode α) : TransactionM α :=
  check fun t => f t.store

theorem write_eq_ok {f : (StoreCall → Bool) → Store → Option Store} {code : ErrorCode}
    {t t' : Transaction} {u : Unit} :
    write f code t = .ok u t' ↔ ∃ s, f t.fails t.store = some s ∧ t.setStore s = t' := by
  simp [write]

@[simp] theorem examine_eq_ok {α : Type} {f : Store → Except ErrorCode α} {t t' : Transaction}
    {value : α} : examine f t = .ok value t' ↔ f t.store = .ok value ∧ t = t' := by
  simp [examine]

@[simp] theorem examine_eq_error {α : Type} {f : Store → Except ErrorCode α} {t t' : Transaction}
    {code : ErrorCode} : examine f t = .error code t' ↔ f t.store = .error code ∧ t = t' := by
  simp [examine]

end Raicoin
