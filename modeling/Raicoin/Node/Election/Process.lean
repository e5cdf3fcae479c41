import Raicoin.Node.Election.Elections

-- What the node's messages and the thread of the elections do to them.
namespace Raicoin

open Lib

-- What an operation asks the node to do, or reports. Requests for votes are left out.
inductive NodeCall where
  | forceConfirmBlock (block : Block)
  | forceAppendBlock (block : Block)
  | broadcastConfirm (representative : Account) (vote : Vote) (block : Block)
  | broadcastOwnConfirm (account : Account) (height : Nat)
  | broadcastConflict (representative : Account) (first second : Vote)
      (blockFirst blockSecond : Block)
  | cutoff (account : Account)
  | electionTally (account : Account) (height : Nat)
  | electionConflict (representative account : Account) (height : Nat)
  | unexpected (text : String)
  | assertion

-- The elections afterwards, and the calls in their order.
structure Processed (env : Env) where
  elections : Elections env
  calls : List NodeCall

-- What one `ProcessElection` reads beside the elections: the order in which it iterates over
-- the votes, the clocks, `rai::Random(1, n)` and whether the node is a representative.
structure Readings where
  order : List Account
  purgeClock : Account → UInt64
  tallyClock : Account → UInt64
  steady : Int
  random : Nat → Nat
  qualified : Bool

namespace Election

variable {env : Env} (e : Election env)

def getBlock_ (hash : BlockHash) : Option Block := (e.blocks.get hash).map BlockReference.block

def addRepVoteInfo_ (representative : Account) (info : RepVoteInfo) : Election env :=
  { e with votes := e.votes.put representative info }

def addConflict_ (representative : Account) (vote : Vote) : Election env :=
  { e with conflicts := e.conflicts.put representative vote }

def broadcastConfirms_ (order : List Account) : List NodeCall :=
  (e.votes.entriesIn order).flatMap fun (rep, info) =>
    if info.weight < QUALIFIED_REP_WEIGHT then []
    else
      match e.getBlock_ info.lastVote.hash with
      | none => [.unexpected "Elections::BroadcastConfirms_:get block"]
      | some block =>
        if info.conflictFound = false then [.broadcastConfirm rep info.lastVote block]
        else
          match e.conflicts.get rep with
          | none => [.unexpected "Elections::BroadcastConfirms_:get conflict"]
          | some conflict =>
            match e.getBlock_ conflict.hash with
            | none => [.unexpected "Elections::BroadcastConfirms_:get conflict block"]
            | some blockConflict =>
              [.broadcastConflict rep info.lastVote conflict block blockConflict]

def nextWakeup_ (steady : Int) (random : Nat → Nat) : Int :=
  if e.forkFound then
    if e.broadcast then steady + e.forkBroadcastDelay.toNat
    else steady + FORK_ELECTION_INTERVAL - e.forkBroadcastDelay.toNat
  else
    let shift := min (e.rounds.toNat / 5) 4
    let delay := NON_FORK_ELECTION_INTERVAL * 2 ^ shift
    steady + (if delay > 1 then random delay else delay : Nat)

end Election

namespace Elections

variable {env : Env} (s : Elections env)

def processConfirm (steady : Int) (representative : Account) (timestamp : UInt64)
    (signature : Signature) (block : Block) (weight : Amount) : Processed env :=
  match s.elections.get block.account with
  | none => ⟨s, []⟩
  | some e =>
    if e.height ≠ block.height then ⟨s, []⟩
    else
      let vote : Vote := ⟨timestamp, signature, env.hash block⟩
      match e.votes.get representative with
      | none =>
        let e := e.addRepVoteInfo_ representative ⟨false, weight, vote⟩
        let (s, e) := s.addBlock_ e steady block
        ⟨s, if e.forkFound ∧ weight ≥ QUALIFIED_REP_WEIGHT then
          [.broadcastConfirm representative vote block] else []⟩
      | some info =>
        if info.conflictFound then ⟨s, []⟩
        else if checkConflict_ info.lastVote vote then
          let e := e.addRepVoteInfo_ representative ⟨true, weight, info.lastVote⟩
          let e := e.addConflict_ representative vote
          let (s, e) := s.addBlock_ e steady block
          ⟨s, if e.forkFound ∧ weight ≥ QUALIFIED_REP_WEIGHT then
            match e.getBlock_ info.lastVote.hash with
            | none => [.assertion]
            | some lastBlock =>
              [.broadcastConflict representative info.lastVote vote lastBlock block] else []⟩
        else if info.lastVote.timestamp ≥ timestamp then ⟨s, []⟩
        else
          let e := e.delBlock info.lastVote.hash
          let e := e.addRepVoteInfo_ representative ⟨false, weight, vote⟩
          let (s, e) := s.addBlock_ e steady block
          ⟨s, if e.forkFound ∧ weight ≥ QUALIFIED_REP_WEIGHT then
            [.broadcastConfirm representative vote block] else []⟩

-- Both votes of a representative that has been found to contradict itself, in an election
-- without its vote or with an older one taken back.
def addConflictingVotes (e : Election env) (steady : Int) (representative : Account)
    (voteFirst voteSecond : Vote) (blockFirst blockSecond : Block) (weight : Amount) :
    Processed env :=
  let e := e.addRepVoteInfo_ representative ⟨true, weight, voteFirst⟩
  let (s, e) := s.addBlock_ e steady blockFirst
  let e := e.addConflict_ representative voteSecond
  let (s, e) := s.addBlock_ e steady blockSecond
  ⟨s, if e.forkFound ∧ weight ≥ QUALIFIED_REP_WEIGHT then
    [.broadcastConflict representative voteFirst voteSecond blockFirst blockSecond] else []⟩

def processConflict (steady : Int) (representative : Account) (timestampFirst timestampSecond : UInt64)
    (signatureFirst signatureSecond : Signature) (blockFirst blockSecond : Block)
    (weight : Amount) : Processed env :=
  if blockFirst.account ≠ blockSecond.account ∨ blockFirst.height ≠ blockSecond.height then ⟨s, []⟩
  else
    let voteFirst : Vote := ⟨timestampFirst, signatureFirst, env.hash blockFirst⟩
    let voteSecond : Vote := ⟨timestampSecond, signatureSecond, env.hash blockSecond⟩
    if checkConflict_ voteFirst voteSecond = false then ⟨s, []⟩
    else
      let found : NodeCall :=
        .electionConflict representative blockFirst.account blockFirst.height
      match s.elections.get blockFirst.account with
      | none => ⟨s, [found]⟩
      | some e =>
        if e.height ≠ blockFirst.height then ⟨s, [found]⟩
        else
          match e.votes.get representative with
          | none =>
            let result := s.addConflictingVotes e steady representative voteFirst voteSecond
              blockFirst blockSecond weight
            { result with calls := found :: result.calls }
          | some info =>
            if info.conflictFound then ⟨s, [found]⟩
            else
              let result := s.addConflictingVotes (e.delBlock info.lastVote.hash) steady
                representative voteFirst voteSecond blockFirst blockSecond weight
              { result with calls := found :: result.calls }

-- The election after a round without a fork that has not confirmed.
def countSingle (e : Election env) (r : Readings) : Election env :=
  if e.broadcast then { e with broadcast := false, wakeup := r.steady + 1 }
  else
    let e := { e with broadcast := true, rounds := e.rounds + 1 }
    { e with wakeup := e.nextWakeup_ r.steady r.random }

-- `ProcessElection` after the tally, while there is only one block.
def processSingle (e : Election env) (r : Readings) (status : ElectionStatus) : Processed env :=
  if status.confirm then
    ⟨s.erase_ e, status.block.toList.map NodeCall.forceConfirmBlock⟩
  else
    let e := countSingle e r
    if e.rounds ≥ CUTOFF_ROUNDS then ⟨s.erase_ e, [.cutoff e.account]⟩
    else ⟨s.modify e, []⟩

-- The counters after a round of a fork. A status that wins has a block.
def countRound (e : Election env) (status : ElectionStatus) : Election env :=
  let e := { e with broadcast := true }
  let e :=
    match status.win, status.block with
    | true, some block =>
      if env.hash block = e.winner then
        { e with wins := e.wins + 1, confirms := if status.confirm then e.confirms + 1 else 0 }
      else
        { e with
          wins := 1
          confirms := if status.confirm then 1 else 0
          winner := env.hash block }
    | _, _ => { e with wins := 0, confirms := 0 }
  { e with rounds := e.rounds + 1, roundsFork := e.roundsFork + 1 }

-- `ProcessElection` after the tally of a fork that has broadcast its votes.
def processFork (e : Election env) (r : Readings) (status : ElectionStatus) : Processed env :=
  let e := countRound e status
  if e.confirms ≥ FORK_ELECTION_ROUNDS_THRESHOLD then
    ⟨s.erase_ e, status.block.toList.map NodeCall.forceConfirmBlock⟩
  else
    ⟨s.modify { e with wakeup := e.nextWakeup_ r.steady r.random },
      if e.wins = FORK_ELECTION_ROUNDS_THRESHOLD then
        status.block.toList.map NodeCall.forceAppendBlock else []⟩

-- The election goes back to the start while others have their turn.
def resetElection (e : Election env) (r : Readings) : Election env :=
  { e with
    wins := 0
    confirms := 0
    rounds := 0
    roundsFork := 0
    broadcast := true
    wakeup := r.steady + r.random e.timeDiff.toNat }

-- `ProcessElection` after the tally.
def processTally (e : Election env) (r : Readings) (status : ElectionStatus) : Processed env :=
  if status.error then ⟨s.erase_ e, [.electionTally e.account e.height]⟩
  else if e.forkFound = false then s.processSingle e r status
  else if e.broadcast then
    let calls := e.broadcastConfirms_ r.order ++
      if r.qualified then [.broadcastOwnConfirm e.account e.height] else []
    let e := { e with broadcast := false }
    ⟨s.modify { e with wakeup := e.nextWakeup_ r.steady r.random }, calls⟩
  else s.processFork e r status

def processElection (e : Election env) (r : Readings) : Processed env :=
  let e := e.purgeOutdatedVotes r.order r.purgeClock
  let (s, waits) := s.tryConcurrency_ e
  if waits then ⟨s.modify (resetElection e r), []⟩
  else s.processTally e r (s.tally_ e r.order r.tallyClock)

end Elections

end Raicoin
