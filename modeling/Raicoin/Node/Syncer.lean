import Raicoin.Lib.Machine
import Raicoin.Node.BlockProcessor.Dynamic
import Raicoin.Node.BlockQuery

-- How a node follows the chains of accounts: it asks its peers for one block after the other and
-- hands what they answer to the block processor.
namespace Raicoin

open Lib

inductive SyncStatus where
  | query
  | process
  deriving DecidableEq

structure SyncInfo where
  status : SyncStatus
  first : Bool
  batchId : UInt32
  height : UInt64
  previous : BlockHash
  current : BlockHash
  deriving DecidableEq

structure SyncStat where
  total : Nat
  miss : Nat

-- A query that the block queries hold, with what its callback has captured. The callback of
-- `QueryCallbackByHash_` has no account.
structure SyncQuery where
  target : QueryTarget
  account : Option Account
  queryId : UInt64
  count : Nat

-- What a thread has still to do, each under a lock of its own. `block_processor_.Add` tells the
-- observers at most.
inductive SyncTask where
  | add (account : Account) (height : UInt64) (previous : BlockHash) (stat : Bool) (batchId : UInt32)
  | blockQuery (account : Account) (info : SyncInfo) (batchId : UInt32)
  | blockQueryByHash (hash : BlockHash) (batchId : UInt32)
  | ask (query : SyncQuery)
  | queryCallback (account : Account) (status : QueryStatus) (block : Option Block)
  | processBlock (block : Option Block)
  | syncRelated (block : Block) (batchId : UInt32)
  | syncFound (queryId : UInt64) (account : Account)
  | erase (account : Account)
  | eraseQuery (queryId : UInt64)

structure Syncer where
  currentQueryId : UInt64
  stat : SyncStat
  syncs : Table Account SyncInfo
  queries : Table UInt64 UInt32
  live : List SyncQuery
  threads : List (List SyncTask)

-- What a transaction reads and the clock, if the transaction can begin.
abbrev SyncView := Option (Store × Nat)

namespace Syncer

variable (env : Env) (s : Syncer)

def DEFAULT_BATCH_ID : UInt32 := 0xFFFFFFFF

def empty : Syncer := ⟨0, ⟨0, 0⟩, .empty, .empty, [], []⟩

-- The first number from `current_query_id_` on that is no query's. Without one the loop of
-- `AddQuery` does not end.
def freeQueryId : Option UInt64 :=
  ((List.range (s.queries.keys.card + 1)).map fun n => s.currentQueryId + UInt64.ofNat n).find?
    fun queryId => s.queries.contains queryId = false

def addQuery (batchId : UInt32) (ask : UInt64 → SyncQuery) : Syncer × List SyncTask :=
  match s.freeQueryId with
  | none => (s, [])
  | some queryId =>
    ({ s with
        currentQueryId := queryId + 1
        queries := s.queries.put queryId batchId }, [.ask (ask queryId)])

def batchId (queryId : UInt64) : UInt32 := (s.queries.get queryId).getD DEFAULT_BATCH_ID

def Finished (batchId : UInt32) : Prop :=
  (∀ account info, s.syncs.get account = some info → info.batchId ≠ batchId) ∧
    ∀ queryId id, s.queries.get queryId = some id → id ≠ batchId

-- `Add` until its first lock is left.
def add (account : Account) (height : UInt64) (previous : BlockHash) (stat : Bool)
    (batchId : UInt32) : Syncer × List SyncTask :=
  let info : SyncInfo := ⟨.query, stat, batchId, height, previous, 0⟩
  match s.syncs.get account with
  | some _ => (s, [])
  | none =>
    ({ s with
        syncs := s.syncs.put account info
        stat := if stat then { s.stat with total := s.stat.total + 1 } else s.stat },
      [.blockQuery account info batchId])

def targetOf (account : Account) (height : UInt64) (previous : BlockHash) : QueryTarget :=
  if height = 0 ∨ previous = 0 then .byHeight account height
  else .byPrevious account height previous

-- `ProcessorCallback` until its lock is left. The code is none when the result is a success.
def processorCallback (operation : BlockOperation) (code : Option ErrorCode) (block : Block) :
    Syncer × List SyncTask :=
  if operation ≠ .append ∧ operation ≠ .drop then (s, [])
  else
    match s.syncs.get block.account with
    | none => (s, [])
    | some info =>
      if info.status ≠ .process then (s, [])
      else if info.current ≠ env.hash block then (s, [])
      else if operation = .drop then
        let info := { info with status := .query, current := 0 }
        ({ s with syncs := s.syncs.put block.account info },
          [.blockQuery block.account info info.batchId])
      else if code = none ∨ code = some .BLOCK_PROCESS_EXISTS then
        let info := { info with
          status := .query
          current := 0
          height := UInt64.ofNat (block.height + 1)
          previous := env.hash block }
        ({ s with syncs := s.syncs.put block.account info },
          [.blockQuery block.account info info.batchId, .syncRelated block info.batchId])
      else if code = some .BLOCK_PROCESS_GAP_RECEIVE_SOURCE ∨
          code = some .BLOCK_PROCESS_GAP_REWARD_SOURCE ∨
          code = some .BLOCK_PROCESS_UNREWARDABLE then
        ({ s with syncs := s.syncs.del block.account },
          [.blockQueryByHash block.link info.batchId])
      else ({ s with syncs := s.syncs.del block.account }, [])

-- A block that is not there would be read; no acknowledgement lacks it.
def queryCallback (account : Account) (status : QueryStatus) (block : Option Block) :
    Syncer × List SyncTask :=
  match s.syncs.get account with
  | none => (s, [])
  | some info =>
    if info.status ≠ .query then (s, [])
    else
      match status with
      | .miss =>
        ({ s with
            syncs := s.syncs.del account
            stat := if info.first then { s.stat with miss := s.stat.miss + 1 } else s.stat }, [])
      | .success =>
        let info := { info with
          first := false
          status := .process
          current := block.elim 0 env.hash }
        ({ s with syncs := s.syncs.put account info }, [.processBlock block])
      | .fork => ({ s with syncs := s.syncs.del account }, [.processBlock block])
      | _ => ({ s with syncs := s.syncs.del account }, [])

def resetStat : Syncer :=
  { s with
    stat := ⟨0, 0⟩
    syncs := s.syncs.mapValues fun info => { info with first := false } }

def syncAccount (store : Store) (account : Account) (batchId : UInt32) : SyncTask :=
  match store.accountInfoGet account with
  | none => .add account 0 0 false batchId
  | some info =>
    if info.headHeight = INVALID_HEIGHT ∨ info.tailHeight = INVALID_HEIGHT then
      .add account 0 0 false batchId
    else .add account (UInt64.ofNat (info.headHeight + 1)) info.head false batchId

-- The representative that may claim a reward for a block.
def relatedRepresentative (store : Store) (now : Nat) (block : Block) : Option Account := do
  let rep ← if block.opcode = .change then
      (store.blockGet block.previous).map Block.representative
    else some block.representative
  let info ← store.rewardableInfoGet rep block.previous
  if info.validTimestamp > now then none else some rep

def syncRelated (view : SyncView) (block : Block) (batchId : UInt32) : List SyncTask :=
  if block.hasRepresentative = false ∧ block.opcode ≠ .send then []
  else
    match view with
    | none => []
    | some (store, now) =>
      (if block.opcode = .send then [syncAccount store block.link batchId] else []) ++
        if block.hasRepresentative = true ∧ block.height > 0 then
          match relatedRepresentative store now block with
          | none => []
          | some rep => [syncAccount store rep batchId]
        else []

-- The state afterwards, and what the task makes to be done before the rest.
def runTask (view : SyncView) : SyncTask → Syncer × List SyncTask
  | .add account height previous stat batchId => s.add account height previous stat batchId
  | .blockQuery account info batchId =>
    s.addQuery batchId fun queryId =>
      ⟨targetOf account info.height info.previous, some account, queryId, 0⟩
  | .blockQueryByHash hash batchId =>
    s.addQuery batchId fun queryId =>
      ⟨.byHash 0 (UInt64.ofNat INVALID_HEIGHT) hash, none, queryId, 0⟩
  | .ask query => ({ s with live := query :: s.live }, [])
  | .queryCallback account status block => s.queryCallback env account status block
  | .processBlock _ => (s, [])
  | .syncRelated block batchId => (s, syncRelated view block batchId)
  | .syncFound queryId account =>
    match view with
    | none => (s, [])
    | some (store, _) => (s, [syncAccount store account (s.batchId queryId)])
  | .erase account => ({ s with syncs := s.syncs.del account }, [])
  | .eraseQuery queryId => ({ s with queries := s.queries.del queryId }, [])

end Syncer

namespace SyncQuery

variable (q : SyncQuery)

-- `QueryCallbackByAccount_`: the query if it goes on, or what is done when it is finished.
def answerByAccount (account : Account) (acks : List QueryAck) : SyncQuery ⊕ List SyncTask :=
  match acks with
  | [ack] =>
    match ack.status with
    | .reply .fork => .inr [.queryCallback account .fork ack.block, .eraseQuery q.queryId]
    | .reply .success => .inr [.queryCallback account .success ack.block, .eraseQuery q.queryId]
    | .reply .miss =>
      if q.count + 1 ≥ 5 then
        .inr [.queryCallback account .miss ack.block, .eraseQuery q.queryId]
      else .inl { q with count := q.count + 1 }
    | .reply .pruned | .timeout => .inl q
    | .reply .invalid | .pending => .inr [.erase account, .eraseQuery q.queryId]
  | _ => .inr [.erase account, .eraseQuery q.queryId]

-- `QueryCallbackByHash_`.
def answerByHash (acks : List QueryAck) : SyncQuery ⊕ List SyncTask :=
  match acks with
  | [ack] =>
    match ack.status with
    | .reply .success =>
      .inr [.syncFound q.queryId (ack.block.elim 0 Block.account), .eraseQuery q.queryId]
    | .reply .miss =>
      if q.count + 1 ≥ 5 then .inr [.eraseQuery q.queryId]
      else .inl { q with count := q.count + 1 }
    | .reply .fork | .reply .pruned | .timeout => .inl q
    | .reply .invalid | .pending => .inr [.eraseQuery q.queryId]
  | _ => .inr [.eraseQuery q.queryId]

def answer (acks : List QueryAck) : SyncQuery ⊕ List SyncTask :=
  match q.account with
  | some account => q.answerByAccount account acks
  | none => q.answerByHash acks

-- An acknowledgement of the query: a message that passed its checks brought it, if a node sent it.
def Acknowledges (env : Env) (ack : QueryAck) : Prop :=
  match ack.status with
  | .reply status => ∃ (extension : UInt16) (message : QueryMessage),
      message.Checked env true extension ∧ QueryMessage.queryStatus extension = status ∧
        message.block = ack.block ∧
        (BlockQuery.ofTarget 0 0 false q.target).Matches (QueryMessage.queryBy extension)
          message.account message.height message.hash
  | _ => True

end SyncQuery

-- The steps between two locks, and what they are given and read.
inductive SyncAction where
  | call (account : Account) (height : UInt64) (previous : BlockHash) (stat : Bool)
      (batchId : UInt32)
  | notify (operation : BlockOperation) (code : Option ErrorCode) (block : Block)
  | answer (index : Nat) (acks : List QueryAck)
  | run (index : Nat) (view : SyncView)
  | resetStat

namespace Syncer

variable (env : Env) (s : Syncer)

def start (threads : Syncer × List SyncTask) : Syncer :=
  { threads.1 with threads := threads.2 :: threads.1.threads }

def answerQuery (index : Nat) (acks : List QueryAck) : Syncer :=
  match s.live[index]? with
  | none => s
  | some query =>
    let rest := s.live.eraseIdx index
    match query.answer acks with
    | .inl query => { s with live := query :: rest }
    | .inr tasks => { s with live := rest, threads := tasks :: s.threads }

def runThread (index : Nat) (view : SyncView) : Syncer :=
  match s.threads[index]? with
  | some (task :: tasks) =>
    let (next, more) := { s with threads := s.threads.eraseIdx index }.runTask env view task
    start (next, more ++ tasks)
  | _ => s

def take : SyncAction → Syncer
  | .call account height previous stat batchId =>
    start (s, [.add account height previous stat batchId])
  | .notify operation code block => start (s.processorCallback env operation code block)
  | .answer index acks => s.answerQuery index acks
  | .run index view => s.runThread env index view
  | .resetStat => s.resetStat

-- What queries are answered with, and that `AddQuery` finds a number.
def Fits : SyncAction → Prop
  | .answer index acks => ∃ query, s.live[index]? = some query ∧
      ∀ ack ∈ acks, query.Acknowledges env ack
  | .run index _ => ∃ task tasks, s.threads[index]? = some (task :: tasks) ∧
      s.freeQueryId.isSome
  | _ => True

end Syncer

@[reducible] def syncMachine (env : Env) : Machine Syncer SyncAction where
  start s := s = .empty
  fits s action := s.Fits env action
  step s action := s.take env action

end Raicoin
