import Raicoin.Lib.Machine
import Raicoin.Node.BlockProcessor.Dynamic
import Raicoin.Secure.BlockWalk

-- What a node tells its subscribers of the blocks that are confirmed.
namespace Raicoin

open Lib

-- `rai::Subscriptions`, each entry with its time.
structure Subscriptions where
  subscriptions : Table Account Nat
  confirmRequests : Table (Account × Nat) Nat
  congestions : Table Account Nat

-- The ptrees that `SendCallback` is given.
inductive Callback where
  | blockConfirm (account : Account) (block : Block)
  | receivableInfo (account : Account) (info : ReceivableInfo) (hash : BlockHash)
      (sourceBlock : Block)
  deriving DecidableEq

-- What one round of `BlockConfirm` sends, and what it starts.
structure ConfirmReport where
  subscriptions : Subscriptions
  sent : List Callback
  election : Option Block

-- How many blocks of a chain a height confirms.
def confirmedCount (confirmedHeight : Nat) : Nat :=
  if confirmedHeight = INVALID_HEIGHT then 0 else confirmedHeight + 1

namespace Subscriptions

variable (env : Env) (s : Store) (subs : Subscriptions)

def exists_ (account : Account) : Bool := subs.subscriptions.contains account

def existsBlock (block : Block) : Bool :=
  subs.confirmRequests.contains (block.account, block.height)

def eraseBlock (block : Block) : Subscriptions :=
  { subs with confirmRequests := subs.confirmRequests.del (block.account, block.height) }

def congestionExists (account : Account) : Bool := subs.congestions.contains account

def eraseCongestion (account : Account) : Subscriptions :=
  { subs with congestions := subs.congestions.del account }

def updateCongestion (account : Account) (now : Nat) : Subscriptions :=
  { subs with congestions := subs.congestions.change account fun _ => now }

-- `BlockGet(account, height, ...)` for the first block of the loop, and by hash for the others.
def nextBlock (account : Account) (height : Nat) (successor : BlockHash) :
    Lookup (Block × BlockHash) :=
  if successor = 0 then s.blockAndSuccessorAt account height
  else
    match s.blocks.get successor with
    | none => .error
    | some stored => .found (stored.block, stored.successor)

-- The loop of `BlockConfirm`. The heights of a chain go up by one, so that it makes at most one
-- round for each of them.
def successorWalk (account : Account) (top : Nat) : (rounds height : Nat) → BlockHash → List Block
  | 0, _, _ => []
  | rounds + 1, height, successor =>
    if height > top then []
    else
      match nextBlock s account height successor with
      | .error | .aborted => []
      | .found (block, next) =>
        if next = 0 then [block]
        else block :: successorWalk account top rounds ((block.height + 1) % 2 ^ 64) next

-- Where the loop begins: only enough recent blocks are gone over.
def walkHeight (block : Block) (lastConfirmHeight : Nat) : Nat :=
  let height := if lastConfirmHeight = INVALID_HEIGHT then 0 else lastConfirmHeight + 1
  if (height + 1000) % 2 ^ 64 < block.height then sub64 block.height 1000 else height

-- The blocks that `BlockConfirm` runs `BlockConfirm_` for.
def blocksOf (block : Block) (lastConfirmHeight : Nat) : List Block :=
  if lastConfirmHeight ≠ INVALID_HEIGHT ∧ block.height ≤ lastConfirmHeight then []
  else if (lastConfirmHeight = INVALID_HEIGHT ∧ block.height = 0) ∨
      (lastConfirmHeight + 1) % 2 ^ 64 = block.height then [block]
  else
    match s.accountInfoGet block.account with
    | none => []
    | some info =>
      if info.valid = false then []
      else if info.confirmedHeight = INVALID_HEIGHT ∨ info.confirmedHeight < block.height then []
      else
        let height := walkHeight block lastConfirmHeight
        successorWalk s block.account block.height (block.height + 1 - height) height 0

-- Whether `BlockConfirm_` tells of the confirmation itself.
def tellsBlock (block : Block) (headHeight : Nat) : Bool :=
  (block.height = headHeight && subs.exists_ block.account) || subs.existsBlock block

-- The receivable that it tells of.
def tellsReceivable (block : Block) : Option ReceivableInfo :=
  if block.opcode = .send ∧ subs.exists_ block.link then
    s.receivableInfoGet block.link (env.hash block)
  else none

def callbacksOf (block : Block) (headHeight : Nat) : List Callback :=
  (if subs.tellsBlock block headHeight then [.blockConfirm block.account block] else []) ++
    ((subs.tellsReceivable env s block).map fun info =>
      Callback.receivableInfo block.link info (env.hash block) block).toList

def blockConfirm_ (block : Block) (headHeight : Nat) : Subscriptions × List Callback :=
  (if subs.tellsBlock block headHeight then subs.eraseBlock block else subs,
    subs.callbacksOf env s block headHeight)

def blocksConfirm_ (headHeight : Nat) (blocks : List Block) : Subscriptions × List Callback :=
  blocks.foldl (fun done block =>
    let (subs, sent) := done.1.blockConfirm_ env s block headHeight
    (subs, done.2 ++ sent)) (subs, [])

-- The loop of `NeedConfirm_`.
def sendsAhead (confirmedHeight : Nat) : (rounds : Nat) → BlockHash → Bool
  | 0, _ => false
  | rounds + 1, hash =>
    if hash = 0 then false
    else
      match s.blockGet hash with
      | none => true
      | some block =>
        if block.opcode = .send ∧ subs.exists_ block.link then true
        else if (confirmedHeight ≠ INVALID_HEIGHT ∧ block.height = (confirmedHeight + 1) % 2 ^ 64) ∨
            block.height = 0 then false
        else sendsAhead confirmedHeight rounds block.previous

def needConfirm_ (account : Account) : Bool :=
  if subs.exists_ account ∨ subs.congestionExists account then true
  else if ∃ key ∈ subs.confirmRequests.keys, key.1 = account then true
  else
    match s.accountInfoGet account with
    | none => false
    | some info =>
      if info.valid = false ∨ info.confirmedHeight = info.headHeight then false
      else subs.sendsAhead s info.confirmedHeight 1000 info.head

-- The block whose election is started.
def startElection_ (account : Account) : Subscriptions × Option Block :=
  let congestion := subs.congestionExists account
  match s.accountInfoGet account with
  | none => (subs, none)
  | some info =>
    if info.confirmedHeight = info.headHeight then
      (if congestion then subs.eraseCongestion account else subs, none)
    else if congestion then
      let height := if info.confirmedHeight = INVALID_HEIGHT then 0 else info.confirmedHeight + 1
      match s.blockAt account height with
      | .found block => (subs, some block)
      | .error | .aborted => (subs, none)
    else (subs, s.blockGet info.head)

-- `BlockConfirm` in a read transaction that has begun.
def blockConfirm (block : Block) (lastConfirmHeight now : Nat) : ConfirmReport :=
  if lastConfirmHeight ≠ INVALID_HEIGHT ∧ block.height ≤ lastConfirmHeight then ⟨subs, [], none⟩
  else
    let (subs, sent) := (subs.updateCongestion block.account now).blocksConfirm_ env s block.height
      (blocksOf s block lastConfirmHeight)
    if subs.needConfirm_ s block.account then
      let (subs, election) := subs.startElection_ s block.account
      ⟨subs, sent, election⟩
    else ⟨subs, sent, none⟩

end Subscriptions

-- A node whose confirmations wait to be told: the blocks that were confirmed, each with the
-- height that had been confirmed before, the blocks that `BlockConfirm_` has run for, and what
-- has been sent.
structure Announcements where
  ledger : Ledger
  subscriptions : Subscriptions
  notices : List (Block × Nat)
  confirmed : List Block
  sent : List Callback

inductive AnnouncementAction where
  | confirm (block : Block) (fails : StoreCall → Bool)
  | handle (index : Nat) (now : Nat)
  -- the ledger grows by other blocks, and receivables come and go
  | grow (ledger : Ledger)
  -- clients subscribe and unsubscribe, and old entries are cut off
  | subscribe (subscriptions : Subscriptions)

namespace Announcements

variable (env : Env) (s : Announcements)

abbrev store : Store := s.ledger.store

def ofLedger (ledger : Ledger) (subscriptions : Subscriptions) : Announcements where
  ledger := ledger
  subscriptions := subscriptions
  notices := []
  confirmed := []
  sent := []

-- A transaction of `ConfirmBlock_` whose success goes to the observers.
def confirm (block : Block) (fails : StoreCall → Bool) : Announcements :=
  match confirmBlock_ env block (.begin_ s.ledger fails) with
  | .ok lastConfirmHeight t =>
    { s with ledger := t.commit, notices := s.notices ++ [(block, lastConfirmHeight)] }
  | .error _ _ => s

-- The observers run in the background, in any order.
def handle (index now : Nat) : Announcements :=
  match s.notices[index]? with
  | none => s
  | some (block, lastConfirmHeight) =>
    let result := s.subscriptions.blockConfirm env s.store block lastConfirmHeight now
    { s with
      subscriptions := result.subscriptions
      notices := s.notices.eraseIdx index
      confirmed := s.confirmed ++ Subscriptions.blocksOf s.store block lastConfirmHeight
      sent := s.sent ++ result.sent }

def take : AnnouncementAction → Announcements
  | .confirm block fails => s.confirm env block fails
  | .handle index now => s.handle env index now
  | .grow ledger => { s with ledger }
  | .subscribe subscriptions => { s with subscriptions }

end Announcements

end Raicoin
