import Raicoin.Common.BlockCodec
import Raicoin.Node.BlockProcessor.Forks

-- The client of a bootstrap session, as it reads what the server sends.
namespace Raicoin

open Lib

inductive BootstrapType where
  | full
  | light
  | fork
  deriving DecidableEq, Repr

-- A request: where the server is to go on, and how much it may send.
structure BootstrapRequest where
  type : BootstrapType
  start : Account
  height : UInt64
  maxSize : UInt16
  deriving DecidableEq

structure BootstrapAccount where
  account : Account
  head : BlockHash
  height : UInt64
  deriving DecidableEq

-- The pointers are null until the blocks have been read.
structure BootstrapFork where
  length : UInt16
  first : Option Block
  second : Option Block

def MAX_ACCOUNTS : Nat := 8 * 1024
def MAX_FORKS : Nat := 1024
def BUFFER_SIZE_ : Nat := 2048

-- `rai::Block::INVALID_HEIGHT` as it stands in a message: it ends a batch of accounts.
def invalidHeight : UInt64 := UInt64.ofNat INVALID_HEIGHT

namespace BootstrapAccount

def serialize (a : BootstrapAccount) : List UInt8 :=
  streamWrite a.account ++ streamWrite a.head ++ streamWrite a.height

def deserialize : StreamM BootstrapAccount := do
  let account ← streamRead
  let head ← streamRead
  let height ← streamRead
  return ⟨account, head, height⟩

-- `Size()` measures the bytes of an account that has not been set.
def size : Nat := 72

end BootstrapAccount

-- An access to an array: outside of it, the index is the error.
abbrev Access := Except Nat

def storeAt {α : Type} (size : Nat) (array : Nat → α) (index : Nat) (value : α) :
    Access (Nat → α) :=
  if index < size then .ok (Function.update array index value) else .error index

def loadAt {α : Type} (size : Nat) (array : Nat → α) (index : Nat) : Access α :=
  if index < size then .ok (array index) else .error index

-- `errorCode` is none for `SUCCESS`. The connection and the time that it takes are left out.
structure BootstrapClient where
  errorCode : Option ErrorCode
  next : Account
  nextHeight : UInt64
  type : BootstrapType
  finished : Bool
  continue_ : Bool
  total : Nat
  accountsSize : Nat
  forksSize : Nat
  currSize : Nat
  accounts : Nat → BootstrapAccount
  forks : Nat → BootstrapFork

namespace BootstrapClient

def create (type : BootstrapType) : BootstrapClient where
  errorCode := none
  next := 0
  nextHeight := 0
  type
  finished := false
  continue_ := true
  total := 0
  accountsSize := 0
  forksSize := 0
  currSize := 0
  accounts _ := ⟨0, 0, 0⟩
  forks _ := ⟨0, none, none⟩

def maxSize_ (type : BootstrapType) : UInt16 :=
  match type with
  | .full | .light => UInt16.ofNat MAX_ACCOUNTS
  | .fork => UInt16.ofNat MAX_FORKS

def size (c : BootstrapClient) : Nat :=
  match c.type with
  | .full | .light => c.accountsSize
  | .fork => c.forksSize

variable (c : BootstrapClient)

def fail (code : ErrorCode) : BootstrapClient := { c with errorCode := some code }

-- The message that `Run` writes.
def request : BootstrapRequest := ⟨c.type, c.next, c.nextHeight, maxSize_ c.type⟩

-- The message that `Pause` writes.
def pauseRequest : BootstrapRequest := ⟨c.type, c.next, c.nextHeight, 0⟩

def pause : BootstrapClient := { c with errorCode := none }

-- The callback of `AsyncRead`: the bytes that were read, or none for an error of the socket.
def readAccount (result : Option (List UInt8)) : Access BootstrapClient :=
  match result with
  | none => .ok (c.fail .BOOTSTRAP_RECEIVE)
  | some bytes =>
    if bytes.length ≠ BootstrapAccount.size then .ok (c.fail .BOOTSTRAP_RECEIVE)
    else
      match BootstrapAccount.deserialize bytes with
      | .error code _ => .ok (c.fail code)
      | .ok account _ =>
        let c := { c with errorCode := none }
        if account.height = invalidHeight then
          .ok { c with
            finished := if c.currSize = 0 then true else c.finished
            continue_ := false
            accountsSize := c.currSize }
        else if account.account < c.next then .ok (c.fail .BOOTSTRAP_ACCOUNT)
        else if c.currSize ≥ (maxSize_ c.type).toNat then .ok (c.fail .BOOTSTRAP_SIZE)
        else do
          let accounts ← storeAt MAX_ACCOUNTS c.accounts c.currSize account
          return { c with accounts, currSize := c.currSize + 1, next := account.account + 1 }

def readForkLength (result : Option (List UInt8)) : Access BootstrapClient :=
  match result with
  | none => .ok (c.fail .BOOTSTRAP_RECEIVE)
  | some bytes =>
    if bytes.length ≠ Wire.size UInt16 then .ok (c.fail .BOOTSTRAP_RECEIVE)
    else
      match (streamRead : StreamM UInt16) bytes with
      | .error code _ => .ok (c.fail code)
      | .ok length _ =>
        if length.toNat > BUFFER_SIZE_ then .ok (c.fail .BOOTSTRAP_FORK_LENGTH)
        else if length = 0 then
          .ok { c with
            finished := if c.currSize = 0 then true else c.finished
            continue_ := false
            forksSize := c.currSize }
        else if c.currSize ≥ (maxSize_ c.type).toNat then .ok (c.fail .BOOTSTRAP_SIZE)
        else do
          let fork ← loadAt MAX_FORKS c.forks c.currSize
          let forks ← storeAt MAX_FORKS c.forks c.currSize { fork with length }
          return { c with forks }

-- `forks_[curr_size_ - 1].first_->Height()`
def lastHeight : Access Nat := do
  let fork ← loadAt MAX_FORKS c.forks (c.currSize - 1)
  return (fork.first.map Block.height).getD 0

-- A fork that has passed the checks. After the largest height comes the next account.
def acceptFork (first second : Block) : Access BootstrapClient := do
  let fork ← loadAt MAX_FORKS c.forks c.currSize
  let forks ← storeAt MAX_FORKS c.forks c.currSize
    { fork with first := some first, second := some second }
  let c := { c with forks, currSize := c.currSize + 1 }
  if first.height < 2 ^ 64 - 1 then
    return { c with next := first.account, nextHeight := UInt64.ofNat (first.height + 1) }
  else return { c with next := first.account + 1, nextHeight := 0 }

def readForkBlocks (env : Env) (result : Option (List UInt8)) : Access BootstrapClient :=
  match result with
  | none => .ok (c.fail .BOOTSTRAP_RECEIVE)
  | some bytes => do
    let fork ← loadAt MAX_FORKS c.forks c.currSize
    if bytes.length ≠ fork.length.toNat ∨ bytes.length = 0 then
      return c.fail .BOOTSTRAP_RECEIVE
    match deserializeBlock env bytes with
    | .error code _ => return c.fail code
    | .ok first rest =>
      match deserializeBlock env rest with
      | .error code _ => return c.fail code
      | .ok second _ =>
        let c := { c with errorCode := none }
        if first.forkWith second = false ∨ first.account < c.next then
          return c.fail .BOOTSTRAP_FORK_BLOCK
        if 0 < c.currSize ∧ first.account = c.next then
          let last ← c.lastHeight
          if first.height ≤ last then return c.fail .BOOTSTRAP_FORK_BLOCK
          else c.acceptFork first second
        else c.acceptFork first second

end BootstrapClient

-- `AsyncRead`: the next `count` bytes, or an error of the socket where it ends before them.
def asyncRead (count : Nat) (stream : List UInt8) : Option (List UInt8) × List UInt8 :=
  if count ≤ stream.length then (some (stream.take count), stream.drop count) else (none, [])

-- A client and what is still to be read from its socket.
structure BootstrapSession where
  client : BootstrapClient
  stream : List UInt8

namespace BootstrapSession

variable (s : BootstrapSession)

-- `Run` has written its message.
def begin_ : BootstrapSession :=
  { s with client := { s.client with errorCode := none, currSize := 0, continue_ := true } }

-- Whether the loop of `Run` returns.
def returns : Bool := s.client.errorCode.isSome || s.client.finished || !s.client.continue_

-- What the loop of `Run` reads before it comes back to its beginning.
def round (env : Env) : Access BootstrapSession :=
  match s.client.type with
  | .full | .light => do
    let (result, stream) := asyncRead BootstrapAccount.size s.stream
    let client ← s.client.readAccount result
    return ⟨client, stream⟩
  | .fork => do
    let (result, stream) := asyncRead (Wire.size UInt16) s.stream
    let client ← s.client.readForkLength result
    if client.errorCode.isSome ∨ client.finished ∨ client.continue_ = false then
      return ⟨client, stream⟩
    let fork ← loadAt MAX_FORKS client.forks client.currSize
    if fork.length = 0 then return ⟨client, stream⟩
    let (result, stream) := asyncRead fork.length.toNat stream
    let client ← client.readForkBlocks env result
    return ⟨client, stream⟩

-- The end of `Run`: the batch is counted when there was no error.
def end_ : BootstrapSession :=
  if s.client.errorCode.isSome then s
  else { s with client := { s.client with total := s.client.total + s.client.currSize } }

def loop (env : Env) : Nat → BootstrapSession → Access BootstrapSession
  | 0, s => .ok s
  | fuel + 1, s =>
    if s.returns then .ok s.end_
    else do
      let s ← s.round env
      loop env fuel s

-- Every round takes something from the stream, or is the last one.
def run (env : Env) : Access BootstrapSession := s.begin_.loop env (s.stream.length + 2)

end BootstrapSession

end Raicoin
