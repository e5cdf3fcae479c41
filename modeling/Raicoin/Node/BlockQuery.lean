import Raicoin.Lib.Machine
import Raicoin.Lib.Table
import Raicoin.Node.Message.Basic

-- The queries for blocks that a node sends to its peers.
namespace Raicoin

open Lib

-- A node that is asked: its endpoint, and that of its proxy if it is behind one.
structure QueryFrom where
  endpoint : Endpoint
  proxyEndpoint : Option Endpoint
  deriving DecidableEq

-- The statuses that a message can bring, and the two that only the node gives.
inductive AckStatus where
  | reply (status : QueryStatus)
  | pending
  | timeout
  deriving DecidableEq

structure QueryAck where
  status : AckStatus
  block : Option Block
  deriving DecidableEq

-- `QueryAck()`.
def QueryAck.pending : QueryAck := ⟨.pending, none⟩

inductive QueryCallbackStatus where
  | continue_
  | finish
  deriving DecidableEq

-- The times are seconds of the steady clock. What a callback answers comes with the actions.
structure BlockQuery where
  sequence : UInt64
  wakeup : Nat
  by_ : QueryBy
  account : Account
  height : UInt64
  hash : BlockHash
  onlyFullNode : Bool
  onlySpecifiedNode : Bool
  count : UInt32
  from_ : List QueryFrom
  ack : List QueryAck
  deriving DecidableEq

-- What `QueryByHash`, `QueryByHeight` and `QueryByPrevious` ask for.
inductive QueryTarget where
  | byHash (account : Account) (height : UInt64) (hash : BlockHash)
  | byHeight (account : Account) (height : UInt64)
  | byPrevious (account : Account) (height : UInt64) (hash : BlockHash)

namespace BlockQuery

-- The query for any node, which has not been chosen yet.
def ofTarget (sequence : UInt64) (now : Nat) (onlyFullNode : Bool) : QueryTarget → BlockQuery
  | .byHash account height hash =>
    ⟨sequence, now, .hash, account, height, hash, onlyFullNode, false, 0, [], []⟩
  | .byHeight account height =>
    ⟨sequence, now, .height, account, height, 0, onlyFullNode, false, 0, [], []⟩
  | .byPrevious account height hash =>
    ⟨sequence, now, .previous, account, height, hash, onlyFullNode, false, 0, [], []⟩

-- The query for the nodes that the caller has specified.
def ofTargetFrom (sequence : UInt64) (now : Nat) (from_ : List QueryFrom) (target : QueryTarget) :
    BlockQuery :=
  { ofTarget sequence now false target with
    onlySpecifiedNode := true
    from_
    ack := List.replicate from_.length .pending }

variable (q : BlockQuery)

-- The nodes whose acknowledgement is pending.
def pendingNodes : List QueryFrom :=
  ((q.from_.zip q.ack).filter fun node => node.2.status = .pending).map Prod.fst

-- The query afterwards, and the nodes that it was sent to. `RandomFullNodePeer` and
-- `RandomPeer` may find none.
def sendQuery_ (fullNodePeer peer : Option QueryFrom) : BlockQuery × List QueryFrom :=
  if q.onlySpecifiedNode then
    if q.from_ = [] then (q, [])
    else ({ q with count := q.count + 1 }, q.pendingNodes)
  else
    match if q.onlyFullNode then fullNodePeer else peer with
    | none => (q, [])
    | some peer => ({ q with from_ := [peer], ack := [.pending], count := q.count + 1 }, [peer])

-- The delay doubles with every third time that the query has been sent.
def updateWakeup (now size : Nat) : BlockQuery :=
  let maxDoubles := if size ≥ 256 then 8 else 4
  let doubles := q.count.toNat / 3
  { q with wakeup := now + if doubles < maxDoubles then 2 ^ doubles else 2 ^ maxDoubles }

-- What is pending when the query wakes up has timed out.
def timeOut : BlockQuery :=
  { q with
    onlyFullNode := q.onlyFullNode || q.ack.any fun ack => ack.status = .reply .pruned
    ack := q.ack.map fun ack => if ack.status = .pending then { ack with status := .timeout } else ack }

-- Whether the query is the one that an acknowledgement answers.
def Matches (by_ : QueryBy) (account : Account) (height : UInt64) (hash : BlockHash) : Prop :=
  ¬(q.by_ ≠ by_ ∨ q.account ≠ account ∨ q.height ≠ height ∨ q.hash ≠ hash)

instance (by_ : QueryBy) (account : Account) (height : UInt64) (hash : BlockHash) :
    Decidable (q.Matches by_ account height hash) :=
  inferInstanceAs (Decidable (¬(q.by_ ≠ by_ ∨ q.account ≠ account ∨ q.height ≠ height ∨
    q.hash ≠ hash)))

-- An acknowledgement stands beside each node that it is from.
def acknowledge (from_ : QueryFrom) (status : AckStatus) (block : Option Block) : BlockQuery :=
  { q with
    onlyFullNode := q.onlyFullNode || (from_ ∈ q.from_ && status = .reply .pruned)
    ack := (q.from_.zip q.ack).map fun node => if from_ = node.1 then ⟨status, block⟩ else node.2 }

-- The query that goes on after a callback, unless all is finished. `ProcessQueryAck` also
-- forgets the blocks of what goes on.
def continued (forget : Bool) (answers : List QueryCallbackStatus) : Option BlockQuery :=
  if answers.length ≠ q.ack.length ∨ ∀ answer ∈ answers, answer = .finish then none
  else some { q with ack := (answers.zip q.ack).map fun answer =>
    if answer.1 = .continue_ then
      { status := .pending, block := if forget then none else answer.2.block }
    else answer.2 }

end BlockQuery

-- Where a thread is with a query that it has taken out of the table, or not yet put in.
inductive HeldStage where
  | inserting
  | waking
  | answered
  | sending
  deriving DecidableEq

structure HeldQuery where
  query : BlockQuery
  stage : HeldStage
  deriving DecidableEq

structure BlockQueries where
  sequence : UInt64
  queries : Table UInt64 BlockQuery
  held : List HeldQuery

-- The critical sections of the threads, in any order, with what they are given and read.
inductive QueryAction where
  | query (now : Nat) (target : QueryTarget) (onlyFullNode : Bool)
  | queryFrom (now : Nat) (target : QueryTarget) (from_ : List QueryFrom)
  | insert (index : Nat)
  | wake (now : Nat) (sequence : UInt64)
  | process (index : Nat) (answers : List QueryCallbackStatus)
  | ack (sequence : UInt64) (by_ : QueryBy) (account : Account) (height : UInt64)
      (hash : BlockHash) (status : AckStatus) (block : Option Block) (endpoint : Endpoint)
      (proxy : Option Endpoint)
  | answer (index : Nat) (answers : List QueryCallbackStatus)
  | send (index : Nat) (fullNodePeer peer : Option QueryFrom) (now : Nat)

namespace BlockQueries

variable (s : BlockQueries)

def empty : BlockQueries := ⟨0, .empty, []⟩

def hold (query : BlockQuery) (stage : HeldStage) : BlockQueries :=
  { s with held := ⟨query, stage⟩ :: s.held }

def heldAt (index : Nat) (stage : HeldStage) : Option BlockQuery :=
  match s.held[index]? with
  | some held => if held.stage = stage then some held.query else none
  | none => none

def release (index : Nat) : BlockQueries := { s with held := s.held.eraseIdx index }

-- The thread goes on with the query, if there is one to go on with.
def proceed (index : Nat) (stage : HeldStage) : Option BlockQuery → BlockQueries
  | none => s.release index
  | some query => (s.release index).hold query stage

-- The index of the table is unique: a query with a number that is taken is not inserted.
def insert (query : BlockQuery) : BlockQueries :=
  if s.queries.contains query.sequence then s
  else { s with queries := s.queries.put query.sequence query }

-- `ProcessQuery`, from where the query is taken out to where it is sent again.
def processQuery (index : Nat) (answers : List QueryCallbackStatus) (query : BlockQuery) :
    BlockQueries :=
  if query.count = 0 then s.proceed index .sending (some query)
  else s.proceed index .sending (query.timeOut.continued false answers)

-- `ProcessQueryAck`, until it leaves the lock.
def processQueryAck (sequence : UInt64) (by_ : QueryBy) (account : Account) (height : UInt64)
    (hash : BlockHash) (status : AckStatus) (block : Option Block) (from_ : QueryFrom) :
    BlockQueries :=
  match s.queries.get sequence with
  | none => s
  | some query =>
    if query.Matches by_ account height hash then
      let query := query.acknowledge from_ status block
      if ∃ ack ∈ query.ack, ack.status = .pending then
        { s with queries := s.queries.put sequence query }
      else { s with queries := s.queries.del sequence }.hold query .answered
    else s

def take : QueryAction → BlockQueries
  | .query now target onlyFullNode =>
    { s with sequence := s.sequence + 1 }.hold (.ofTarget s.sequence now onlyFullNode target)
      .inserting
  | .queryFrom now target from_ =>
    if from_ = [] then s
    else { s with sequence := s.sequence + 1 }.hold (.ofTargetFrom s.sequence now from_ target)
      .inserting
  | .insert index =>
    match s.heldAt index .inserting with
    | some query => (s.release index).insert query
    | none => s
  | .wake _ sequence =>
    match s.queries.get sequence with
    | some query => { s with queries := s.queries.del sequence }.hold query .waking
    | none => s
  | .process index answers =>
    match s.heldAt index .waking with
    | some query => s.processQuery index answers query
    | none => s
  | .ack sequence by_ account height hash status block endpoint proxy =>
    s.processQueryAck sequence by_ account height hash status block ⟨endpoint, proxy⟩
  | .answer index answers =>
    match s.heldAt index .answered with
    | some query => s.proceed index .sending (query.continued true answers)
    | none => s
  | .send index fullNodePeer peer now =>
    match s.heldAt index .sending with
    | some query => s.proceed index .inserting
        (some ((query.sendQuery_ fullNodePeer peer).1.updateWakeup now s.queries.keys.card))
    | none => s

-- `Run` takes the query that wakes up first, when its time has come.
def Wakes (now : Nat) (sequence : UInt64) : Prop :=
  ∃ query ∈ s.queries.get sequence, query.wakeup ≤ now ∧
    ∀ key ∈ s.queries.keys, ∀ other ∈ s.queries.get key, query.wakeup ≤ other.wakeup

def Fits : QueryAction → Prop
  | .insert index => (s.heldAt index .inserting).isSome
  | .wake now sequence => s.Wakes now sequence
  | .process index _ => (s.heldAt index .waking).isSome
  | .answer index _ => (s.heldAt index .answered).isSome
  | .send index _ _ _ => (s.heldAt index .sending).isSome
  | .query .. | .queryFrom .. | .ack .. => True

-- Goes through the keys, not through all numbers.
instance (now : Nat) (sequence : UInt64) : Decidable (s.Wakes now sequence) :=
  haveI (query : BlockQuery) : Decidable (∀ key ∈ s.queries.keys,
      ∀ other ∈ s.queries.get key, query.wakeup ≤ other.wakeup) :=
    Finset.decidableDforallFinset
  inferInstanceAs (Decidable (∃ query ∈ s.queries.get sequence, query.wakeup ≤ now ∧
    ∀ key ∈ s.queries.keys, ∀ other ∈ s.queries.get key, query.wakeup ≤ other.wakeup))

instance (action : QueryAction) : Decidable (s.Fits action) :=
  match action with
  | .insert index => inferInstanceAs (Decidable ((s.heldAt index .inserting).isSome))
  | .wake now sequence => inferInstanceAs (Decidable (s.Wakes now sequence))
  | .process index _ => inferInstanceAs (Decidable ((s.heldAt index .waking).isSome))
  | .answer index _ => inferInstanceAs (Decidable ((s.heldAt index .answered).isSome))
  | .send index _ _ _ => inferInstanceAs (Decidable ((s.heldAt index .sending).isSome))
  | .query .. | .queryFrom .. | .ack .. => isTrue trivial

-- The query whose callback runs in an action of `ProcessQuery` or `ProcessQueryAck`.
def callbackAt : QueryAction → Option BlockQuery
  | .process index _ => (s.heldAt index .waking).bind fun query =>
    if query.count = 0 then none else some query.timeOut
  | .answer index _ => s.heldAt index .answered
  | _ => none

-- How often a query is there, in the table or with a thread.
def live (sequence : UInt64) : Nat :=
  s.held.countP (fun held => held.query.sequence = sequence) +
    if s.queries.contains sequence then 1 else 0

end BlockQueries

@[reducible] def queryMachine : Machine BlockQueries QueryAction where
  start s := s = .empty
  fits s action := s.Fits action
  step s action := s.take action

abbrev QueryHistory := History BlockQueries QueryAction

-- The nodes that a query was sent to when it was last sent.
def askedNodes (sequence : UInt64) : QueryHistory → List QueryFrom
  | [] => []
  | (s, .send index fullNodePeer peer _) :: before =>
    match s.heldAt index .sending with
    | some query =>
      let nodes := (query.sendQuery_ fullNodePeer peer).2
      if query.sequence = sequence ∧ nodes ≠ [] then nodes else askedNodes sequence before
    | none => askedNodes sequence before
  | _ :: before => askedNodes sequence before

-- The numbers of the queries that were made.
def queriesMade : QueryHistory → List UInt64
  | [] => []
  | (s, .query ..) :: before => s.sequence :: queriesMade before
  | (s, .queryFrom _ _ from_) :: before =>
    if from_ = [] then queriesMade before else s.sequence :: queriesMade before
  | _ :: before => queriesMade before

def QueryAction.answers : QueryAction → List QueryCallbackStatus
  | .process _ answers | .answer _ answers => answers
  | _ => []

-- The numbers of the queries whose callback has answered `FINISH` for every acknowledgement.
def queriesFinished : QueryHistory → List UInt64
  | [] => []
  | (s, action) :: before =>
    match s.callbackAt action with
    | some query =>
      if ∀ answer ∈ action.answers, answer = .finish then query.sequence :: queriesFinished before
      else queriesFinished before
    | none => queriesFinished before

end Raicoin
