import Raicoin.Common.Blocks
import Raicoin.Common.Parameters
import Raicoin.Lib.Table

-- One election: the blocks of an account at a height, and the votes for them.
namespace Raicoin

open Lib

def FORK_ELECTION_DELAY : Nat := 32
def FORK_ELECTION_INTERVAL : Nat := 32
def NON_FORK_ELECTION_DELAY : Nat := 1
def NON_FORK_ELECTION_INTERVAL : Nat := 1
def FORK_ELECTION_ROUNDS_THRESHOLD : UInt32 := 5

structure Vote where
  timestamp : UInt64
  signature : Signature
  hash : BlockHash
  deriving DecidableEq

structure RepVoteInfo where
  conflictFound : Bool
  weight : Amount
  lastVote : Vote
  deriving DecidableEq

-- How much of a vote counts, in percent, when the clock reads `now`.
def RepVoteInfo.weightFactor (info : RepVoteInfo) (now allow : UInt64) : UInt64 :=
  if allow = 0 ∨ allow > UInt64.ofNat MAX_TIMESTAMP_DIFF then 0
  else
    let last := info.lastVote.timestamp
    let result :=
      if last ≤ now - allow * 2 then 0
      else if last ≤ now - allow then (last + allow * 2 - now) * 100 / allow
      else if last ≤ now + allow then 100
      else if last ≤ now + allow * 2 then (now + allow * 2 - last) * 100 / allow
      else 0
    -- A debug build stops here with `assert(0)`.
    if result > 100 then 0 else result

structure BlockReference where
  refs : UInt32
  block : Block
  deriving DecidableEq

-- `Election::blocks_`: a block stands under its hash.
structure ElectionBlocks (env : Env) where
  table : Table BlockHash BlockReference
  keyed : ∀ hash ref, table.get hash = some ref → env.hash ref.block = hash

namespace ElectionBlocks

variable {env : Env}

def empty : ElectionBlocks env := ⟨.empty, fun _ _ h => by simp at h⟩

def get (blocks : ElectionBlocks env) (hash : BlockHash) : Option BlockReference :=
  blocks.table.get hash

def size (blocks : ElectionBlocks env) : Nat := blocks.table.keys.card

def put (blocks : ElectionBlocks env) (block : Block) (refs : UInt32) : ElectionBlocks env where
  table := blocks.table.put (env.hash block) ⟨refs, block⟩
  keyed hash ref h := by
    rw [Table.get_put] at h
    split at h
    · cases h
      exact Eq.symm ‹_›
    · exact blocks.keyed hash ref h

def erase (blocks : ElectionBlocks env) (hash : BlockHash) : ElectionBlocks env where
  table := blocks.table.del hash
  keyed other ref h := by
    rw [Table.get_del] at h
    split at h
    · cases h
    · exact blocks.keyed other ref h

@[simp] theorem get_empty (hash : BlockHash) : (empty : ElectionBlocks env).get hash = none :=
  Table.get_empty hash

@[simp] theorem get_put (blocks : ElectionBlocks env) (block : Block) (refs : UInt32)
    (hash : BlockHash) : (blocks.put block refs).get hash =
      if hash = env.hash block then some ⟨refs, block⟩ else blocks.get hash :=
  Table.get_put blocks.table (env.hash block) ⟨refs, block⟩ hash

@[simp] theorem get_erase (blocks : ElectionBlocks env) (hash other : BlockHash) :
    (blocks.erase hash).get other = if other = hash then none else blocks.get other :=
  Table.get_del blocks.table hash other

theorem get_keyed {blocks : ElectionBlocks env} {hash : BlockHash} {ref : BlockReference}
    (h : blocks.get hash = some ref) : env.hash ref.block = hash :=
  blocks.keyed hash ref h

end ElectionBlocks

-- `wakeup` is a time of the steady clock, in seconds.
structure Election (env : Env) where
  account : Account
  height : Nat
  forkFound : Bool
  broadcast : Bool
  rounds : UInt32
  roundsFork : UInt32
  wins : UInt32
  confirms : UInt32
  forkBroadcastDelay : UInt32
  winner : BlockHash
  wakeup : Int
  blocks : ElectionBlocks env
  votes : Table Account RepVoteInfo
  conflicts : Table Account Vote

namespace Election

variable {env : Env}

-- The constructor and what `Elections::Add` sets after it. `delay` is the random word.
def create (account : Account) (height : Nat) (delay : UInt32) (steady : Int) : Election env where
  account
  height
  forkFound := false
  broadcast := true
  rounds := 0
  roundsFork := 0
  wins := 0
  confirms := 0
  forkBroadcastDelay := delay
  winner := 0
  wakeup := steady - NON_FORK_ELECTION_DELAY
  blocks := .empty
  votes := .empty
  conflicts := .empty

def addBlock (e : Election env) (steady : Int) (block : Block) : Election env :=
  match e.blocks.get (env.hash block) with
  | none =>
    let blocks := e.blocks.put block 1
    if e.forkFound = false ∧ blocks.size > 1 then
      { e with
        blocks
        forkFound := true
        wakeup := steady + FORK_ELECTION_DELAY + e.forkBroadcastDelay.toNat
        broadcast := true }
    else { e with blocks }
  | some ref => { e with blocks := e.blocks.put ref.block (ref.refs + 1) }

-- The last block stays, even when nothing refers to it any more.
def delBlock (e : Election env) (hash : BlockHash) : Election env :=
  match e.blocks.get hash with
  | none => e
  | some ref =>
    if ref.refs = 0 then e
    else
      let blocks := e.blocks.put ref.block (ref.refs - 1)
      if ref.refs - 1 = 0 ∧ blocks.size > 1 then { e with blocks := blocks.erase hash }
      else { e with blocks }

def timeDiff (e : Election env) : UInt64 :=
  if e.forkFound then
    UInt64.ofNat (FORK_ELECTION_INTERVAL * FORK_ELECTION_ROUNDS_THRESHOLD.toNat)
  else UInt64.ofNat FORK_ELECTION_DELAY

-- The entries of `votes_` that `PurgeOutdatedVotes` visits and does not keep. The
-- iteration follows `order` and reads the clock anew for each entry.
def outdated (e : Election env) (order : List Account) (clock : Account → UInt64) :
    List (Account × RepVoteInfo) :=
  (e.votes.entriesIn order).filter fun (rep, info) =>
    !(info.weightFactor (clock rep) e.timeDiff > 0) && !e.conflicts.contains rep

def purgeOutdatedVotes (e : Election env) (order : List Account) (clock : Account → UInt64) :
    Election env :=
  let outdated := e.outdated order clock
  let purged := outdated.foldl (fun e (_, info) => e.delBlock info.lastVote.hash) e
  { purged with votes := outdated.foldl (fun votes (rep, _) => votes.del rep) purged.votes }

end Election

end Raicoin
