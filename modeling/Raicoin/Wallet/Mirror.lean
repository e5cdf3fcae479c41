import Raicoin.Common.Blocks
import Raicoin.Lib.Machine
import Raicoin.Secure.Store

-- The wallet's own copy of the chains of its accounts, and of what they can receive. LMDB
-- refuses no write here.
namespace Raicoin

open Lib

-- The tables of the wallet's ledger. A source is the hash of a received or receivable block, and
-- the block itself if the wallet has seen it.
structure WalletLedger where
  store : Store
  sources : Table BlockHash (Option Block)

namespace WalletLedger

def empty : WalletLedger := ⟨.empty, .empty⟩

variable (env : Env)

def sourceDel (l : WalletLedger) (hash : BlockHash) : Option WalletLedger :=
  if l.sources.contains hash then some { l with sources := l.sources.del hash } else none

def sourcePut (l : WalletLedger) (hash : BlockHash) (block : Option Block) : WalletLedger :=
  { l with sources := l.sources.put hash block }

-- The info of the account without its head.
def rolledBack (info : AccountInfo) (block : Block) : AccountInfo :=
  { info with
    head := block.previous
    headHeight := info.headHeight - 1
    confirmedHeight :=
      if info.confirmedHeight ≠ INVALID_HEIGHT ∧ info.confirmedHeight > info.headHeight - 1 then
        info.headHeight - 1
      else info.confirmedHeight }

-- The writes of `Rollback_` but for the sources.
def removeHead (store : Store) (account : Account) (info : AccountInfo) (block : Block) :
    Option Store := do
  let store ← store.rollbackBlockPut StoreCall.never info.head block
  let store ← store.blockDel StoreCall.never info.head
  let store ← if block.height ≠ 0 then store.blockSuccessorSet StoreCall.never block.previous 0
    else some store
  if info.headHeight = 0 then store.accountInfoDel StoreCall.never account
  else store.accountInfoPut StoreCall.never account (rolledBack info block)

-- `Wallets::Rollback_`; on an error its caller aborts the transaction.
def rollback_ (l : WalletLedger) (account : Account) : Option WalletLedger := do
  let info ← (l.store.accountInfoGet account).filter AccountInfo.valid
  let block ← l.store.blockGet info.head
  let store ← removeHead l.store account info block
  if block.opcode = .receive then sourceDel { l with store } block.link
  else some { l with store }

-- What a RECEIVE takes in is no longer receivable; that it is not so is no error.
def receiveSource (l : WalletLedger) (block : Block) : WalletLedger :=
  if block.opcode = .receive then
    let l := { l with
      store := (l.store.receivableInfoDel StoreCall.never block.account block.link).getD l.store }
    if l.sources.contains block.link then l else l.sourcePut block.link none
  else l

-- The first block of an account.
def openAccount (l : WalletLedger) (block : Block) (confirmed : Bool) : Option WalletLedger := do
  let info := AccountInfo.first block.type (env.hash block)
  let info := if confirmed then { info with confirmedHeight := 0 } else info
  let store ← l.store.accountInfoPut StoreCall.never block.account info
  let store ← store.blockPut StoreCall.never (env.hash block) block 0
  return receiveSource { l with store } block

-- A block on top of the head.
def extend (l : WalletLedger) (info : AccountInfo) (block : Block) (confirmed : Bool) :
    Option WalletLedger := do
  let info := { info with headHeight := block.height, head := env.hash block }
  let info := if confirmed then { info with confirmedHeight := block.height } else info
  let store ← l.store.accountInfoPut StoreCall.never block.account info
  let store ← store.blockPut StoreCall.never (env.hash block) block 0
  let store ← store.blockSuccessorSet StoreCall.never block.previous (env.hash block)
  return receiveSource { l with store } block

-- The head was taken for confirmed, and a confirmed block has another one before it.
def unconfirm (l : WalletLedger) (account : Account) (info : AccountInfo) : Option WalletLedger := do
  let confirmedHeight := if info.headHeight = 0 then INVALID_HEIGHT else info.headHeight - 1
  let store ← l.store.accountInfoPut StoreCall.never account { info with confirmedHeight }
  return { l with store }

def confirm (l : WalletLedger) (info : AccountInfo) (block : Block) : Option WalletLedger := do
  let store ← l.store.accountInfoPut StoreCall.never block.account
    { info with confirmedHeight := block.height }
  return { l with store }

variable (isMyAccount : Account → Bool)

-- `Wallets::ProcessBlock`, and whether the block is queued once more. A transaction that is
-- aborted leaves the ledger as it was.
def processBlock (l : WalletLedger) (block : Block) (confirmed : Bool) : WalletLedger × Bool :=
  if isMyAccount block.account = false then (l, false)
  else
    match (l.store.accountInfoGet block.account).filter AccountInfo.valid with
    | none =>
      if block.height ≠ 0 then (l, false)
      else ((l.openAccount env block confirmed).getD l, false)
    | some info =>
      let next := (info.headHeight + 1) % 2 ^ 64
      if block.height > next then (l, false)
      else if block.height = next then
        if block.previous ≠ info.head then
          if confirmed = false ∨ info.confirmedHeight ≠ info.headHeight then (l, false)
          else ((l.unconfirm block.account info).getD l, false)
        else ((l.extend env info block confirmed).getD l, false)
      else if confirmed = false then (l, false)
      else if l.store.blockExists (env.hash block) then
        if info.confirmedHeight ≠ INVALID_HEIGHT ∧ info.confirmedHeight ≥ block.height then (l, false)
        else ((l.confirm info block).getD l, false)
      else
        match l.rollback_ block.account with
        | none => (l, false)
        | some l => (l, true)

-- The loop of `ProcessBlockRollback`, for as many rounds as the account can have blocks.
def rollbackWhile (hash : BlockHash) (account : Account) : Nat → WalletLedger → Option WalletLedger
  | 0, _ => none
  | fuel + 1, l =>
    if l.store.blockExists hash then do
      let l ← l.rollback_ account
      rollbackWhile hash account fuel l
    else some l

def rollbackRounds (l : WalletLedger) (account : Account) : Nat :=
  match l.store.accountInfoGet account with
  | some info => info.headHeight + 2
  | none => 1

def processBlockRollback (l : WalletLedger) (block : Block) : WalletLedger :=
  if isMyAccount block.account = false then l
  else (rollbackWhile (env.hash block) block.account (l.rollbackRounds block.account) l).getD l

-- `now` is what `CurrentTimestamp` returns.
def processReceivableInfo (l : WalletLedger) (account : Account) (hash : BlockHash)
    (info : ReceivableInfo) (block : Block) (now : Option Nat) : WalletLedger :=
  if isMyAccount account = false then l
  else
    match now with
    | none => l
    | some now =>
      if info.timestamp > (now + 30) % 2 ^ 64 then l
      else if hash ≠ env.hash block then l
      else if l.sources.contains hash then l
      else if (l.store.receivableInfoGet account hash).isSome then l
      else
        match l.store.receivableInfoPut StoreCall.never account hash info with
        | none => l
        | some store => sourcePut { l with store } hash (some block)

end WalletLedger

-- What reaches the wallet; a block that is queued once more comes again at some time.
inductive WalletEvent where
  | block (block : Block) (confirmed : Bool)
  | rollback (block : Block)
  | receivable (account : Account) (hash : BlockHash) (info : ReceivableInfo) (block : Block)
      (now : Option Nat)

section Runs

variable (env : Env) (isMyAccount : Account → Bool)

def WalletLedger.step (l : WalletLedger) : WalletEvent → WalletLedger
  | .block block confirmed => (l.processBlock env isMyAccount block confirmed).1
  | .rollback block => l.processBlockRollback env isMyAccount block
  | .receivable account hash info block now =>
    l.processReceivableInfo env isMyAccount account hash info block now

-- The blocks that come are among `blocks`.
def mirrorMachine (blocks : Set Block) : Machine WalletLedger WalletEvent where
  start l := l = .empty
  fits _
    | .block block _ => block ∈ blocks
    | .rollback block => block ∈ blocks
    | .receivable _ _ _ _ _ => True
  step := WalletLedger.step env isMyAccount

-- A confirmed block is handled until it is not queued again.
def WalletLedger.handle (block : Block) : Nat → WalletLedger → Option WalletLedger
  | 0, _ => none
  | fuel + 1, l =>
    match l.processBlock env isMyAccount block true with
    | (l, true) => handle block fuel l
    | (l, false) => some l

-- One block after the other.
def WalletLedger.handleAll (fuel : Nat) : WalletLedger → List Block → Option WalletLedger
  | l, [] => some l
  | l, block :: rest => do
    let l ← l.handle env isMyAccount block fuel
    handleAll fuel l rest

end Runs

end Raicoin
