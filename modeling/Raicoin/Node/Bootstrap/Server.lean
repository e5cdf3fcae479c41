import Raicoin.Lib.Paging
import Raicoin.Node.Bootstrap.Client

-- The server of a bootstrap session, and how a client drives it. A LIGHT session, which goes
-- over the accounts that were active of late, is left out.
namespace Raicoin

open Lib

-- The tables of the ledger that a session goes through, under the keys that LMDB sorts.
structure BootstrapTables where
  accounts : Table Account AccountInfo
  forks : Table (Account × UInt64) (Block × Block)

-- The keys in big endian are sorted as these numbers.
def accountPlace (account : Account) : Nat := account.toNat

def forkPlace (key : Account × UInt64) : Nat := key.1.toNat * 2 ^ 64 + key.2.toNat

theorem accountPlace_injective : Function.Injective accountPlace := fun _ _ h =>
  BitVec.eq_of_toNat_eq h

theorem forkPlace_injective : Function.Injective forkPlace := by
  intro a b h
  unfold forkPlace at h
  have ha := a.2.toNat_lt
  have hb := b.2.toNat_lt
  have haccount : a.1.toNat = b.1.toNat := by omega
  have hheight : a.2.toNat = b.2.toNat := by omega
  exact Prod.ext (BitVec.eq_of_toNat_eq haccount) (UInt64.toNat_inj.mp hheight)

namespace BootstrapTables

variable (t : BootstrapTables)

def nextAccountInfo (account : Account) : Option (Account × AccountInfo) := do
  let key ← nextEntry accountPlace (t.accounts.inOrder accountPlace accountPlace_injective)
    (accountPlace account)
  let info ← t.accounts.get key
  return (key, info)

def nextFork (account : Account) (height : UInt64) :
    Option ((Account × UInt64) × (Block × Block)) := do
  let key ← nextEntry forkPlace (t.forks.inOrder forkPlace forkPlace_injective)
    (forkPlace (account, height))
  let fork ← t.forks.get key
  return (key, fork)

end BootstrapTables

namespace BootstrapFork

-- Null pointers are not written.
def serialize (f : BootstrapFork) : List UInt8 :=
  streamWrite f.length ++
    match f.first, f.second with
    | some first, some second =>
      if f.length.toNat > 0 then first.serialize ++ second.serialize else []
    | _, _ => []

end BootstrapFork

structure BootstrapServer where
  errorCode : Option ErrorCode
  type : Option BootstrapType
  next : Account
  height : UInt64
  maxSize : UInt16
  count : UInt16
  continue_ : Bool
  finished : Bool

-- What a call of `RunFull_` or `RunFork_` goes on with: nothing more, the next request, or
-- another call after the bytes have been sent.
inductive ServerStep where
  | stop
  | receive
  | send (bytes : List UInt8)

namespace BootstrapServer

def create : BootstrapServer where
  errorCode := none
  type := none
  next := 0
  height := 0
  maxSize := 0
  count := 0
  continue_ := false
  finished := false

variable (t : BootstrapTables) (s : BootstrapServer)

-- The type of the first request is that of the session.
def readMessage_ (request : BootstrapRequest) : BootstrapServer :=
  let s := { s with errorCode := none, type := some (s.type.getD request.type) }
  if s.type ≠ some request.type then { s with errorCode := some .BOOTSTRAP_TYPE }
  else
    { s with next := request.start, height := request.height, maxSize := request.maxSize }

-- A call of `RunFull_` or `RunFork_`, which differ in what is found next and in the mark that
-- ends a batch.
def serve (found : BootstrapServer → Option (BootstrapServer × List UInt8)) (mark : List UInt8) :
    BootstrapServer × ServerStep :=
  if s.finished then (s, .stop)
  else if s.continue_ = false then (s, .receive)
  else if s.count < s.maxSize then
    match found s with
    | none =>
      ({ s with
        finished := if s.count = 0 then true else s.finished
        continue_ := false }, .send mark)
    | some (s', bytes) => ({ s' with count := s.count + 1 }, .send bytes)
  else ({ s with continue_ := false }, .send mark)

-- An account that has not been set, but for its height.
def endOfAccounts : BootstrapAccount := ⟨0, 0, invalidHeight⟩

def nextAccount : Option (BootstrapServer × List UInt8) :=
  match t.nextAccountInfo s.next with
  | none => none
  | some (account, info) =>
    some ({ s with next := account + 1 },
      BootstrapAccount.serialize ⟨account, info.head, UInt64.ofNat info.headHeight⟩)

def runFull_ : BootstrapServer × ServerStep := s.serve (nextAccount t) endOfAccounts.serialize

def endOfForks : BootstrapFork := ⟨0, none, none⟩

-- After the largest height comes the next account.
def nextFork : Option (BootstrapServer × List UInt8) :=
  match t.nextFork s.next s.height with
  | none => none
  | some ((account, height), (first, second)) =>
    let length := UInt16.ofNat (first.serialize.length + second.serialize.length)
    let bytes := BootstrapFork.serialize ⟨length, some first, some second⟩
    if height = invalidHeight then some ({ s with next := account + 1, height := 0 }, bytes)
    else some ({ s with next := account, height := height + 1 }, bytes)

def runFork_ : BootstrapServer × ServerStep := s.serve (nextFork t) endOfForks.serialize

-- Sends until it stops, or is ready to receive.
def answer (step : BootstrapServer → BootstrapServer × ServerStep) :
    Nat → BootstrapServer → BootstrapServer × List UInt8 × Bool
  | 0, s => (s, [], false)
  | fuel + 1, s =>
    match step s with
    | (s, .stop) => (s, [], false)
    | (s, .receive) => (s, [], true)
    | (s, .send bytes) =>
      let (s, more, receiving) := answer step fuel s
      (s, bytes ++ more, receiving)

-- A request: the server afterwards, what it has sent, and whether it receives the next one.
def run (request : BootstrapRequest) : BootstrapServer × List UInt8 × Bool :=
  let s := s.readMessage_ request
  if s.errorCode.isSome then (s, [], false)
  else if s.maxSize = 0 then (s, [], true)
  else
    let s := { s with count := 0, continue_ := true }
    match s.type with
    | some .full => answer (runFull_ t) (s.maxSize.toNat + 3) s
    | some .fork => answer (runFork_ t) (s.maxSize.toNat + 3) s
    | _ => (s, [], false)

end BootstrapServer

-- A client, its server, and the bytes on their way to the client.
structure BootstrapLink where
  client : BootstrapClient
  connected : Bool
  stream : List UInt8
  server : BootstrapServer
  receiving : Bool

inductive BootstrapCall where
  | run
  | pause
  deriving DecidableEq

namespace BootstrapLink

def create (type : BootstrapType) : BootstrapLink where
  client := .create type
  connected := false
  stream := []
  server := .create
  receiving := true

variable (env : Env) (t : BootstrapTables) (l : BootstrapLink)

-- A request that the server does not receive stays in its socket.
def request (request : BootstrapRequest) : BootstrapLink :=
  if l.receiving then
    let (server, bytes, receiving) := l.server.run t request
    { l with stream := l.stream ++ bytes, server, receiving }
  else l

-- `Run`: the server answers while the client reads, so the client finds all of the answer.
def run : Access BootstrapLink := do
  let l := { l.request t l.client.request with connected := true }
  let session ← (⟨l.client, l.stream⟩ : BootstrapSession).run env
  return { l with client := session.client, stream := session.stream }

def pause : BootstrapLink :=
  if l.connected then
    let l := l.request t l.client.pauseRequest
    { l with client := l.client.pause }
  else l

end BootstrapLink

-- The entries that the node takes over after a `Run` that succeeded.
def BootstrapClient.accountBatch (c : BootstrapClient) : List BootstrapAccount :=
  (List.range c.size).map c.accounts

def BootstrapClient.forkBatch (c : BootstrapClient) : List (Option Block × Option Block) :=
  (List.range c.size).map fun i => ((c.forks i).first, (c.forks i).second)

namespace BootstrapLink

variable {α : Type} (env : Env) (t : BootstrapTables) (batch : BootstrapClient → List α)

-- `RunFull_` and its like: calls until one fails or the client is finished, and what they take
-- over. A node that is busy pauses.
def drive : List BootstrapCall → BootstrapLink → Access (BootstrapLink × List α)
  | [], l => .ok (l, [])
  | .pause :: calls, l =>
    if l.client.finished ∨ l.client.errorCode.isSome then .ok (l, [])
    else drive calls (l.pause t)
  | .run :: calls, l =>
    if l.client.finished ∨ l.client.errorCode.isSome then .ok (l, [])
    else do
      let l ← l.run env t
      if l.client.errorCode.isSome then return (l, [])
      let (l', more) ← drive calls l
      return (l', batch l.client ++ more)

end BootstrapLink

end Raicoin
