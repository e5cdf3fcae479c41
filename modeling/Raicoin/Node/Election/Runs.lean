import Raicoin.Lib.Machine
import Raicoin.Node.Election.Process

-- The elections as a state machine, and what is remembered of one of them.
namespace Raicoin

open Lib

-- The operations in any order, with what they read. `purge` is `PurgeOutdatedVotes` alone.
inductive ElectionAction where
  | add (delay : UInt32) (steady : Int) (blocks : List Block)
  | confirm (steady : Int) (representative : Account) (timestamp : UInt64) (signature : Signature)
      (block : Block) (weight : Amount)
  | conflict (steady : Int) (representative : Account) (timestampFirst timestampSecond : UInt64)
      (signatureFirst signatureSecond : Signature) (blockFirst blockSecond : Block) (weight : Amount)
  | weights (now : UInt64) (repWeights : RepWeights) (peers : List Account)
  | purge (account : Account) (order : List Account) (clock : Account → UInt64)
  | process (account : Account) (r : Readings)

namespace Elections

variable {env : Env}

def take (s : Elections env) : ElectionAction → Processed env
  | .add delay steady blocks => ⟨s.add delay steady blocks, []⟩
  | .confirm steady representative timestamp signature block weight =>
    s.processConfirm steady representative timestamp signature block weight
  | .conflict steady representative timestampFirst timestampSecond signatureFirst signatureSecond
      blockFirst blockSecond weight =>
    s.processConflict steady representative timestampFirst timestampSecond signatureFirst
      signatureSecond blockFirst blockSecond weight
  | .weights now repWeights peers => ⟨s.updateWeightInfo_ now repWeights peers, []⟩
  | .purge account order clock =>
    match s.elections.get account with
    | none => ⟨s, []⟩
    | some e => ⟨s.modify (e.purgeOutdatedVotes order clock), []⟩
  | .process account r =>
    match s.elections.get account with
    | none => ⟨s, []⟩
    | some e => s.processElection e r

-- An iteration visits each vote of the election once.
def Fits (s : Elections env) : ElectionAction → Prop
  | .purge account order _ => ∀ e, s.elections.get account = some e → e.votes.Enumerates order
  | .process account r => ∀ e, s.elections.get account = some e → e.votes.Enumerates r.order
  | _ => True

end Elections

abbrev ElectionHistory (env : Env) := History (Elections env) ElectionAction

-- The node begins without elections, with whatever weights.
@[reducible] def electionMachine (env : Env) : Machine (Elections env) ElectionAction where
  start s := s.elections = .empty
  fits s action := s.Fits action
  step s action := (s.take action).elections

-- Which election of the account an `Add` is for: the one that is there, or a new one.
inductive Addition where
  | none
  | existing
  | fresh

section Additions

variable {env : Env}

def Elections.addition (s : Elections env) (account : Account) : List Block → Addition
  | [] => .none
  | first :: rest =>
    if (∃ b ∈ first :: rest, b.account ≠ first.account ∨ b.height ≠ first.height) ∨
      first.account ≠ account then .none
    else
      match s.elections.get account with
      | Option.none => .fresh
      | some e =>
        if e.height < first.height then .none
        else if e.height > first.height then .fresh
        else .existing

-- How often a block with the hash was added to the election that the account has now.
def addCalls (account : Account) (hash : BlockHash) : ElectionHistory env → Nat
  | [] => 0
  | (s, .add _ _ blocks) :: before =>
    match s.addition account blocks with
    | .none => addCalls account hash before
    | .existing => addCalls account hash before + (blocks.filter fun b => env.hash b = hash).length
    | .fresh => (blocks.filter fun b => env.hash b = hash).length
  | _ :: before => addCalls account hash before

-- What a call of `ProcessElection` came to: it had to wait for its turn, or reached the
-- tally, before or after it had broadcast.
inductive ElectionRound where
  | reset
  | broadcast
  | tally (forkFound : Bool) (status : ElectionStatus)

def Elections.round (s : Elections env) (e : Election env) (r : Readings) : ElectionRound :=
  let e := e.purgeOutdatedVotes r.order r.purgeClock
  let (s, waits) := s.tryConcurrency_ e
  if waits then .reset
  else if e.broadcast then .broadcast
  else .tally e.forkFound (s.tally_ e r.order r.tallyClock)

-- The rounds of the election that the account has now, the latest first.
def rounds (account : Account) : ElectionHistory env → List ElectionRound
  | [] => []
  | (s, .add _ _ blocks) :: before =>
    match s.addition account blocks with
    | .fresh => []
    | _ => rounds account before
  | (s, .process other r) :: before =>
    if other = account then
      match s.elections.get account with
      | Option.none => rounds account before
      | some e => s.round e r :: rounds account before
    else rounds account before
  | _ :: before => rounds account before

end Additions

end Raicoin
