import Raicoin.Lib.Machine
import Raicoin.Node.Bootstrap.Server

-- How an app asks the node for the heads of its accounts, page by page.
namespace Raicoin

open Lib

structure AccountHead where
  account : Account
  head : BlockHash
  height : Nat
  deriving DecidableEq

-- The reply of the node. A field that is missing or does not parse is `none`.
structure HeadsReply where
  requestId : Option UInt64
  success : Bool
  more : Option Bool
  next : Option Account
  heads : List (Option AccountHead)
  deriving DecidableEq

-- What `SendRequest_` has read before it gives up its lock. The pass and the number of the
-- request are not sent: the number is how often the id had been increased.
structure HeadsCall where
  requestId : UInt64
  next : Account
  pass : Nat
  number : Nat
  deriving DecidableEq

structure HeadsRequest where
  call : HeadsCall
  active : Bool
  deriving DecidableEq

section Node

structure HeadsPage where
  more : Bool
  next : Account
  heads : List AccountHead
  deriving DecidableEq

variable (t : BootstrapTables) (types : List BlockType)

-- The loop of `NodeRpcHandler::AccountHeads`.
def accountHeadsPage : Nat → Account → HeadsPage
  | 0, next => ⟨true, next, []⟩
  | count + 1, next =>
    match t.nextAccountInfo next with
    | none => ⟨false, 0, []⟩
    | some (account, info) =>
      let rest := accountHeadsPage count (account + 1)
      if info.valid ∧ info.type ∈ types then
        { rest with heads := ⟨account, info.head, info.headHeight⟩ :: rest.heads }
      else rest

def headsCount (count : UInt64) : UInt64 := if count = 0 ∨ count > 1000 then 1000 else count

def accountHeads (requestId : UInt64) (next : Account) (count : UInt64) : HeadsReply :=
  let page := accountHeadsPage t types (headsCount count).toNat next
  ⟨some requestId, true, some page.more, some page.next, page.heads.map some⟩

end Node

-- `rai::AppBootstrap` with what it has sent, and the heads that `ProcessAccountHeads` was given
-- since the last pass began. Times are in nanoseconds; 0 is `time_point()`.
structure AppBootstrap where
  stopped : Bool
  running : Bool
  count : UInt64
  requestId : UInt64
  lastRun : Nat
  lastRequest : Nat
  next : Account
  passes : Nat
  numbers : Nat
  calls : List HeadsCall
  requests : List HeadsRequest
  given : List AccountHead
  deriving DecidableEq

inductive AppBootstrapAction where
  | run (ready : Bool) (now : Nat)
  | reset
  | stop
  -- a call of `SendRequest_` goes on after it has given up the lock
  | send (index : Nat)
  -- a reply to a request comes
  | receive (index : Nat) (reply : HeadsReply) (ready : Bool) (now : Nat)

def BOOTSTRAP_INTERVAL : Nat := 300 * 10 ^ 9

def BOOTSTRAP_RETRY : Nat := 5 * 10 ^ 9

def FULL_BOOTSTRAP_INTERVAL : UInt64 := 12

def INITIAL_FULL_BOOTSTRAPS : UInt64 := 3

-- The count that every request asks for.
def HEADS_COUNT : UInt64 := 1000

namespace AppBootstrap

def fresh : AppBootstrap where
  stopped := false
  running := false
  count := 0
  requestId := 0
  lastRun := 0
  lastRequest := 0
  next := 0
  passes := 0
  numbers := 0
  calls := []
  requests := []
  given := []

variable (s : AppBootstrap)

-- Whether the passes of this count ask for all accounts or for the active ones.
def full (count : UInt64) : Bool :=
  count ≤ INITIAL_FULL_BOOTSTRAPS || count % FULL_BOOTSTRAP_INTERVAL == 0

def increaseId : AppBootstrap :=
  { s with requestId := s.requestId + 1, numbers := s.numbers + 1 }

def call : HeadsCall := ⟨s.requestId, s.next, s.passes, s.numbers⟩

-- `SendRequest_` up to where it gives up the lock.
def sendRequest_ (now : Nat) (increase : Bool) : AppBootstrap :=
  let s := if increase then s.increaseId else s
  { s with lastRequest := now, calls := s.calls ++ [s.call] }

def startPass (now : Nat) : AppBootstrap :=
  { s.increaseId with
    lastRun := now
    running := true
    next := 0
    count := s.count + 1
    passes := s.passes + 1
    given := [] }

def run (ready : Bool) (now : Nat) : AppBootstrap :=
  if ready = false ∨ s.stopped then s
  else if s.running = false ∧ s.count ≥ INITIAL_FULL_BOOTSTRAPS ∧
      s.lastRun + BOOTSTRAP_INTERVAL > now then s
  else
    let s := if s.running then s else s.startPass now
    if s.lastRequest + BOOTSTRAP_RETRY > now then s else s.sendRequest_ now false

def reset : AppBootstrap :=
  if s.stopped then s
  else { s.increaseId with running := false, count := 0, lastRun := 0, lastRequest := 0, next := 0 }

-- The rest of `SendRequest_`, which reads `count_` without the lock.
def send (index : Nat) : AppBootstrap :=
  match s.calls[index]? with
  | none => s
  | some call =>
      { s with
        calls := s.calls.eraseIdx index
        requests := s.requests ++ [⟨call, !full s.count⟩] }

def processAccountHeads (heads : List AccountHead) : AppBootstrap :=
  { s with given := s.given ++ heads }

-- The part of `ReceiveAccountHeadMessage` under the lock.
def advance (more : Bool) (next : Account) (ready : Bool) (now : Nat) : AppBootstrap :=
  if more then
    let s := { s with next }
    if ready then s.sendRequest_ now true else s
  else { s with next := 0, running := false }

-- The messages of the gateway are taken one after the other. `ProcessAccountHeads` touches
-- nothing that `Run` and `Reset` use.
def receiveAccountHeadMessage (reply : HeadsReply) (ready : Bool) (now : Nat) : AppBootstrap :=
  match reply.requestId, reply.more, reply.next with
  | some requestId, some more, some next =>
      if reply.success = false ∨ s.stopped ∨ requestId ≠ s.requestId then s
      else
        match reply.heads.mapM id with
        | none => s.advance more next ready now
        | some heads => (s.advance more next ready now).processAccountHeads heads
  | _, _, _ => s

def take : AppBootstrapAction → AppBootstrap
  | .run ready now => s.run ready now
  | .reset => s.reset
  | .stop => { s with stopped := true }
  | .send index => s.send index
  | .receive _ reply ready now => s.receiveAccountHeadMessage reply ready now

-- A request for all accounts is answered by `AccountHeads`, one for the active accounts in
-- any way.
def Fits (t : BootstrapTables) (types : List BlockType) : AppBootstrapAction → Prop
  | .send index => index < s.calls.length
  | .receive index reply _ _ => ∃ r, s.requests[index]? = some r ∧
      reply.requestId = some r.call.requestId ∧
      (r.active = false → reply = accountHeads t types r.call.requestId r.call.next HEADS_COUNT)
  | .run _ _ | .reset | .stop => True

end AppBootstrap

def appBootstrapMachine (t : BootstrapTables) (types : List BlockType) :
    Machine AppBootstrap AppBootstrapAction where
  start s := s = .fresh
  fits s := s.Fits t types
  step := AppBootstrap.take

end Raicoin
