import Mathlib.Order.Lattice.Nat
import Raicoin.Node.Election.Election
import Raicoin.Secure.Ledger
import Mathlib.Data.BitVec
import Mathlib.Data.List.Sort
import Mathlib.Data.Finset.Lattice.Fold

-- All elections of a node.
namespace Raicoin

open Lib

def CONFIRM_WEIGHT_PERCENTAGE : Nat := 80
def FORK_CONCURRENCY : Nat := 4
def CUTOFF_ROUNDS : UInt32 := 10
def QUALIFIED_REP_WEIGHT : Amount := BitVec.ofNat 128 (256 * RAI)

structure ElectionStatus where
  error : Bool
  win : Bool
  confirm : Bool
  valid : Amount
  invalid : Amount
  conflict : Amount
  notVoting : Amount
  block : Option Block

-- `weights` has the representatives that are online; the totals are kept beside it.
structure Elections (env : Env) where
  lastUpdate : UInt64
  onlineReps : Finset Account
  weightTotal : Amount
  weightOnline : Amount
  weights : Table Account Amount
  elections : Table Account (Election env)
  concurrency : Nat
  actives : Finset Account
  forks : Finset Account

-- The candidates of a tally with their weights, in the order of their first vote.
abbrev Candidates := List (BlockHash × Amount)

-- `candidates[hash] += amount`
def Candidates.increase : Candidates → BlockHash → Amount → Candidates
  | [], hash, amount => [(hash, amount)]
  | (key, weight) :: rest, hash, amount =>
    if key = hash then (key, weight + amount) :: rest
    else (key, weight) :: Candidates.increase rest hash amount

-- The order of `std::sort`: the larger weight first, then the larger hash.
def Candidates.before (first second : BlockHash × Amount) : Bool :=
  if first.2 ≠ second.2 then first.2 > second.2 else first.1 > second.1

structure Tally where
  candidates : Candidates
  valid : Amount
  invalid : Amount
  conflict : Amount

-- What is left of a weight, and what is lost.
def adjustWeight (weight : Amount) (factor : UInt64) : Amount :=
  BitVec.ofNat 128 (weight.toNat * factor.toNat / 100)

def checkConflict_ (first second : Vote) : Bool :=
  if first.timestamp = second.timestamp ∧ first.hash = second.hash then false
  else
    let diff :=
      if first.timestamp > second.timestamp then first.timestamp - second.timestamp
      else second.timestamp - first.timestamp
    diff < UInt64.ofNat MIN_CONFIRM_INTERVAL

namespace Elections

variable {env : Env} (s : Elections env)

def erase_ (e : Election env) : Elections env :=
  { s with
    elections := s.elections.del e.account
    actives := s.actives.erase e.account
    forks := s.forks.erase e.account }

-- Writes back an election that is in the container.
def modify (e : Election env) : Elections env :=
  { s with elections := s.elections.put e.account e }

-- Whether the election has to wait. The forks with the smallest accounts go first.
def tryConcurrency_ (e : Election env) : Elections env × Bool :=
  if e.forkFound then
    let s := { s with actives := s.actives.erase e.account }
    if e.account ∈ s.forks then (s, false)
    else
      let inserted := insert e.account s.forks
      let last : Account := BitVec.ofNat 256 (inserted.sup BitVec.toNat)
      let forks := if inserted.card > FORK_CONCURRENCY then inserted.erase last else inserted
      ({ s with forks }, e.account ∉ forks)
  else
    let s := { s with forks := s.forks.erase e.account }
    if e.account ∈ s.actives then (s, false)
    else if s.actives.card ≥ s.concurrency then (s, true)
    else ({ s with actives := insert e.account s.actives }, false)

def addBlock_ (e : Election env) (steady : Int) (block : Block) : Elections env × Election env :=
  let data := e.addBlock steady block
  let s := if e.forkFound = false ∧ data.forkFound = true then (s.tryConcurrency_ data).1 else s
  (s.modify data, data)

-- `Elections::Add`: the blocks are of one account and one height, or nothing happens.
def add (delay : UInt32) (steady : Int) (blocks : List Block) : Elections env :=
  match blocks with
  | [] => s
  | first :: _ =>
    if ∃ b ∈ blocks, b.account ≠ first.account ∨ b.height ≠ first.height then s
    else
      let fresh := blocks.foldl (fun e b => e.addBlock steady b)
        (Election.create first.account first.height delay steady)
      let start (s : Elections env) :=
        let s := s.modify fresh
        if fresh.forkFound then (s.tryConcurrency_ fresh).1 else s
      match s.elections.get first.account with
      | none => start s
      | some e =>
        if e.height < first.height then s
        else if e.height > first.height then start (s.erase_ e)
        else (blocks.foldl (fun (s, e) b => s.addBlock_ e steady b) (s, e)).1

-- The weights of the representatives that are online, and their sum.
def onlineWeights (repWeights : RepWeights) (onlineReps : List Account) :
    Table Account Amount × Amount :=
  onlineReps.foldl (fun (weights, online) rep =>
    match repWeights.weights.get rep with
    | none => (weights, online)
    | some weight => (weights.put rep weight, online + weight)) (.empty, 0)

-- `repWeights` and the accounts of the peers are what the node had at `now`.
def updateWeightInfo_ (now : UInt64) (repWeights : RepWeights) (peers : List Account) :
    Elections env :=
  if now < s.lastUpdate + 10 then s
  else
    let (weights, online) := onlineWeights repWeights peers.dedup
    { s with
      lastUpdate := now
      onlineReps := peers.toFinset
      weightTotal := repWeights.total
      weightOnline := online
      weights }

def enoughOnlineWeight_ : Bool :=
  s.weightOnline.toNat * 100 > s.weightTotal.toNat * CONFIRM_WEIGHT_PERCENTAGE

def enoughVotingWeight_ (valid : Amount) : Bool :=
  valid.toNat * 100 > s.weightTotal.toNat * CONFIRM_WEIGHT_PERCENTAGE

-- What the first loop of `Tally_` does with a vote.
def tallyVote (timeDiff : UInt64) (clock : Account → UInt64) (t : Tally)
    (vote : Account × RepVoteInfo) : Tally :=
  match s.weights.get vote.1 with
  | none => t
  | some weight =>
    if vote.2.conflictFound then
      { t with conflict := t.conflict + weight, invalid := t.invalid + weight }
    else
      let adjust := adjustWeight weight (vote.2.weightFactor (clock vote.1) timeDiff)
      let loss := weight - adjust
      let t := if adjust = 0 then t else
        { t with
          candidates := t.candidates.increase vote.2.lastVote.hash adjust
          valid := t.valid + adjust }
      if loss = 0 then t else { t with invalid := t.invalid + loss }

def tallyVotes (e : Election env) (order : List Account) (clock : Account → UInt64) : Tally :=
  (e.votes.entriesIn order).foldl (s.tallyVote e.timeDiff clock) ⟨[], 0, 0, 0⟩

def notVoting (e : Election env) : Amount :=
  ∑ rep ∈ s.onlineReps \ e.votes.keys, (s.weights.get rep).getD 0

-- The end of `Tally_`, with the candidates in their order.
def tallyStatus (e : Election env) (t : Tally) (notVoting : Amount) : Candidates → ElectionStatus
  | [] => ⟨false, false, false, t.valid, t.invalid, t.conflict, notVoting, none⟩
  | first :: rest =>
    let second := (rest.head?.map Prod.snd).getD 0
    let confirm : Bool :=
      first.2.toNat * 100 > s.weightTotal.toNat * CONFIRM_WEIGHT_PERCENTAGE
    let win : Bool := confirm ||
      (s.enoughOnlineWeight_ && first.2.toNat > second.toNat + notVoting.toNat) ||
      (s.enoughVotingWeight_ t.valid && e.roundsFork > FORK_ELECTION_ROUNDS_THRESHOLD * 2 &&
        first.2.toNat > second.toNat)
    match e.blocks.get first.1 with
    | none => ⟨true, win, confirm, t.valid, t.invalid, t.conflict, notVoting, none⟩
    | some ref => ⟨false, win, confirm, t.valid, t.invalid, t.conflict, notVoting, some ref.block⟩

-- The iteration over the votes follows `order`, and reads the clock anew for each.
def tally_ (e : Election env) (order : List Account) (clock : Account → UInt64) : ElectionStatus :=
  let t := s.tallyVotes e order clock
  s.tallyStatus e t (s.notVoting e)
    (t.candidates.insertionSort fun first second => Candidates.before second first = false)

end Elections

end Raicoin
