import Raicoin.Common.Blocks
import Raicoin.Common.Parameters
import Raicoin.Lib.Machine
import Raicoin.Lib.Table

-- The timestamps that a representative gives to its votes.
namespace Raicoin

open Lib

structure ConfirmInfo where
  timestamp : UInt64
  hash : BlockHash
  deriving DecidableEq

-- `confirms_`, unique in account and height. The index by timestamps serves `Age` alone.
structure ConfirmManager where
  confirms : Table (Account × Nat) ConfirmInfo

namespace ConfirmManager

variable (s : ConfirmManager)

def empty : ConfirmManager := ⟨.empty⟩

-- `now` is the reading of `rai::CurrentTimestamp()`.
def getTimestamp (now : UInt64) (account : Account) (height : Nat) (hash : BlockHash) :
    UInt64 × ConfirmManager :=
  match s.confirms.get (account, height) with
  | none => (now, ⟨s.confirms.put (account, height) ⟨now, hash⟩⟩)
  | some info =>
    if info.timestamp + UInt64.ofNat MIN_CONFIRM_INTERVAL ≤ now then
      (now, ⟨s.confirms.put (account, height) ⟨now, hash⟩⟩)
    else if info.hash = hash then (info.timestamp, s)
    else
      let result := info.timestamp + UInt64.ofNat MIN_CONFIRM_INTERVAL
      (result, ⟨s.confirms.put (account, height) ⟨result, hash⟩⟩)

-- The cutoff is taken modulo 2 ^ 64.
def age (now : UInt64) : ConfirmManager :=
  let cutoff := now - UInt64.ofNat MIN_CONFIRM_INTERVAL
  ⟨s.confirms.filter fun _ info => !(info.timestamp < cutoff)⟩

end ConfirmManager

-- A vote of the node: what `GetTimestamp` returned for a block.
structure OwnVote where
  account : Account
  height : Nat
  timestamp : UInt64
  hash : BlockHash
  deriving DecidableEq

-- A call of `GetTimestamp` that has read the clock and waits for the lock.
structure ConfirmCall where
  now : UInt64
  account : Account
  height : Nat
  hash : BlockHash

-- `GetTimestamp` reads the clock before it takes the lock, so that other steps can come
-- between the two. `Age` reads it under the lock.
inductive ConfirmAction where
  | read (id : Nat) (call : ConfirmCall)
  | getTimestamp (id : Nat)
  | age (now : UInt64)

-- The manager, the last reading of the clock and the calls on their way.
structure ConfirmState where
  manager : ConfirmManager
  clock : UInt64
  calls : Table Nat ConfirmCall

def ConfirmState.take (s : ConfirmState) : ConfirmAction → ConfirmState
  | .read id call => { s with clock := call.now, calls := s.calls.put id call }
  | .getTimestamp id =>
    match s.calls.get id with
    | none => s
    | some call =>
      { s with
        manager := (s.manager.getTimestamp call.now call.account call.height call.hash).2
        calls := s.calls.del id }
  | .age now => { s with manager := s.manager.age now, clock := now }

-- The clock never goes back, and a call takes the lock once.
def ConfirmState.Fits (s : ConfirmState) : ConfirmAction → Prop
  | .read id call => s.clock ≤ call.now ∧ s.calls.get id = none
  | .getTimestamp id => ∃ call, s.calls.get id = some call
  | .age now => s.clock ≤ now

@[reducible] def confirmMachine : Machine ConfirmState ConfirmAction where
  start s := s.manager = .empty ∧ s.calls = .empty
  fits s action := s.Fits action
  step s action := s.take action

abbrev ConfirmHistory := History ConfirmState ConfirmAction

-- The vote that a call gives when it takes the lock.
def ConfirmCall.vote (call : ConfirmCall) (s : ConfirmManager) : OwnVote :=
  ⟨call.account, call.height, (s.getTimestamp call.now call.account call.height call.hash).1,
    call.hash⟩

-- The votes that the calls of a run have returned, the latest first.
def votesOf : ConfirmHistory → List OwnVote
  | [] => []
  | (s, .getTimestamp id) :: before =>
    match s.calls.get id with
    | none => votesOf before
    | some call => call.vote s.manager :: votesOf before
  | (_, .read _ _) :: before => votesOf before
  | (_, .age _) :: before => votesOf before

-- The entry of the place that the action drops, with the reading of the clock.
def ConfirmAction.drops (s : ConfirmManager) (account : Account) (height : Nat) :
    ConfirmAction → Option (ConfirmInfo × UInt64)
  | .age now =>
    if (s.age now).confirms.get (account, height) = none then
      (s.confirms.get (account, height)).map fun info => (info, now)
    else none
  | _ => none

-- The entries of the place that `Age` has dropped.
def dropped (history : ConfirmHistory) (account : Account) (height : Nat) :
    List (ConfirmInfo × UInt64) :=
  history.filterMap fun (s, action) => action.drops s.manager account height

-- The call has read the clock before an `Age` that has dropped another entry of its place, and by
-- its own reading that entry is not old yet.
def ConfirmCall.Overtaken (call : ConfirmCall) (history : ConfirmHistory) : Prop :=
  ∃ entry ∈ dropped history call.account call.height, call.now < entry.2 ∧
    call.now.toNat < entry.1.timestamp.toNat + MIN_CONFIRM_INTERVAL ∧
    entry.1 ≠ ⟨call.now, call.hash⟩

instance (call : ConfirmCall) (history : ConfirmHistory) : Decidable (call.Overtaken history) :=
  inferInstanceAs (Decidable (∃ entry ∈ dropped history call.account call.height, _))

-- The last call that took the lock had an entry, or was not overtaken.
def Prompt : ConfirmHistory → Prop
  | (s, .getTimestamp id) :: before =>
    ∀ call ∈ s.calls.get id,
      s.manager.confirms.get (call.account, call.height) = none → ¬call.Overtaken before
  | _ => True

-- Two votes that no receiver holds against each other: equal ones, or far enough apart.
def OwnVote.Agrees (first second : OwnVote) : Prop :=
  (first.hash = second.hash ∧ first.timestamp = second.timestamp) ∨
    first.timestamp.toNat + MIN_CONFIRM_INTERVAL ≤ second.timestamp.toNat ∨
    second.timestamp.toNat + MIN_CONFIRM_INTERVAL ≤ first.timestamp.toNat

-- No call is overtaken, the clock has left the first seconds behind, and it is further from
-- 2 ^ 64 than all votes of the run can push a timestamp.
def Timely (history : ConfirmHistory) (s : ConfirmState) : Prop :=
  Prompt history ∧ MIN_CONFIRM_INTERVAL ≤ s.clock.toNat ∧
    s.clock.toNat + MIN_CONFIRM_INTERVAL * (votesOf history).length < 2 ^ 64

namespace ConfirmManager

variable {s : ConfirmManager} {now : UInt64} {account : Account} {height : Nat} {hash : BlockHash}

-- What a call can do: it begins with the clock, repeats the last vote, or puts the vote as
-- far behind the last one as it has to be.
inductive Timestamped (s : ConfirmManager) (now : UInt64) (account : Account) (height : Nat)
    (hash : BlockHash) : UInt64 × ConfirmManager → Prop where
  | first (hnone : s.confirms.get (account, height) = none) :
      Timestamped s now account height hash
        (now, ⟨s.confirms.put (account, height) ⟨now, hash⟩⟩)
  | later {info : ConfirmInfo} (hget : s.confirms.get (account, height) = some info)
      (hlater : info.timestamp + UInt64.ofNat MIN_CONFIRM_INTERVAL ≤ now) :
      Timestamped s now account height hash
        (now, ⟨s.confirms.put (account, height) ⟨now, hash⟩⟩)
  | same {info : ConfirmInfo} (hget : s.confirms.get (account, height) = some info)
      (hsame : info.hash = hash) :
      Timestamped s now account height hash (info.timestamp, s)
  | pushed {info : ConfirmInfo} (hget : s.confirms.get (account, height) = some info)
      (hearly : now < info.timestamp + UInt64.ofNat MIN_CONFIRM_INTERVAL) :
      Timestamped s now account height hash
        (info.timestamp + UInt64.ofNat MIN_CONFIRM_INTERVAL,
          ⟨s.confirms.put (account, height)
            ⟨info.timestamp + UInt64.ofNat MIN_CONFIRM_INTERVAL, hash⟩⟩)

theorem getTimestamp_cases (s : ConfirmManager) (now : UInt64) (account : Account) (height : Nat)
    (hash : BlockHash) :
    Timestamped s now account height hash (s.getTimestamp now account height hash) := by
  unfold getTimestamp
  cases hget : s.confirms.get (account, height) with
  | none => exact .first hget
  | some info =>
      dsimp only
      split
      · exact .later hget ‹_›
      · split
        · exact .same hget ‹_›
        · exact .pushed hget (UInt64.not_le.mp ‹_›)

end ConfirmManager

end Raicoin
