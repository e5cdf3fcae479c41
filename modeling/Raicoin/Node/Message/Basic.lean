import Raicoin.Common.BlockCodec

-- The messages between peers.
namespace Raicoin

open Lib

def PROTOCOL_VERSION_MIN : UInt8 := 1
def PROTOCOL_VERSION_USING : UInt8 := 2

inductive MessageType where
  | invalid
  | handshake
  | keeplive
  | publish
  | confirm
  | query
  | fork
  | conflict
  | bootstrap
  | weight
  | crosschain
  deriving DecidableEq, Repr

def MessageType.number : MessageType → UInt8
  | .invalid => 0
  | .handshake => 1
  | .keeplive => 2
  | .publish => 3
  | .confirm => 4
  | .query => 5
  | .fork => 6
  | .conflict => 7
  | .bootstrap => 8
  | .weight => 9
  | .crosschain => 10

-- None from `MAX` on.
def MessageType.ofNumber (number : UInt8) : Option MessageType :=
  [invalid, handshake, keeplive, publish, confirm, query, fork, conflict, bootstrap, weight,
    crosschain][number.toNat]?

inductive MessageFlags where
  | proxy
  | relay
  | ack
  deriving DecidableEq, Repr

-- `FlagToIndex`.
def MessageFlags.index : MessageFlags → Nat
  | .proxy => 0
  | .relay => 1
  | .ack => 2

def MessageFlags.mask : MessageFlags → UInt8
  | .proxy => 1
  | .relay => 2
  | .ack => 4

-- An address that the node uses is always an IPv4 one.
structure Endpoint where
  ip : UInt32
  port : UInt16
  deriving DecidableEq

-- `Endpoint()`.
def Endpoint.none : Endpoint := ⟨0, 0⟩

structure MessageHeader where
  versionUsing : UInt8
  versionMin : UInt8
  type : MessageType
  flags : UInt8
  extension : UInt16
  peerEndpoint : Endpoint
  payloadLength : UInt16
  deriving DecidableEq

namespace MessageHeader

variable (header : MessageHeader)

def getFlag (flag : MessageFlags) : Bool := header.flags.toNat.testBit flag.index

def setFlag (flag : MessageFlags) : MessageHeader :=
  { header with flags := header.flags ||| flag.mask }

-- The two bytes of an extension.
def low (extension : UInt16) : Nat := extension.toNat % 256

def high (extension : UInt16) : Nat := extension.toNat / 256

def magicNumber : RaiNetworks → List UInt8
  | .live => [82, 90]
  | .beta => [82, 89]
  | .test => [82, 88]

def serialize (network : RaiNetworks) : List UInt8 :=
  [magicNumber network, streamWrite header.versionUsing, streamWrite header.versionMin,
    streamWrite header.type.number, streamWrite header.flags, streamWrite header.extension,
    if header.getFlag .proxy = true then
      streamWrite header.peerEndpoint.ip ++ streamWrite header.peerEndpoint.port ++
        streamWrite header.payloadLength
    else []].flatten

def readType : StreamM MessageType := do
  let number : UInt8 ← streamRead
  Reader.failIf (number = MessageType.invalid.number) .INVALID_MESSAGE
  match MessageType.ofNumber number with
  | some type => return type
  | none => throw .UNKNOWN_MESSAGE

-- The part of a header that only `PROXY` adds.
def readProxy : StreamM (Endpoint × UInt16) := do
  let ip : UInt32 ← streamRead
  let port : UInt16 ← streamRead
  let payloadLength : UInt16 ← streamRead
  return (⟨ip, port⟩, payloadLength)

def deserialize (network : RaiNetworks) : StreamM MessageHeader := do
  let magic ← streamReadBytes 2
  Reader.failIf (magic ≠ magicNumber network) .MAGIC_NUMBER
  let versionUsing : UInt8 ← streamRead
  Reader.failIf (versionUsing < PROTOCOL_VERSION_MIN) .OUTDATED_VERSION
  let versionMin : UInt8 ← streamRead
  Reader.failIf (versionMin > PROTOCOL_VERSION_USING) .UNKNOWN_VERSION
  let type ← readType
  let flags : UInt8 ← streamRead
  let extension : UInt16 ← streamRead
  let proxy ← Reader.when (flags.toNat.testBit MessageFlags.proxy.index = true) (Endpoint.none, 0)
    readProxy
  return ⟨versionUsing, versionMin, type, flags, extension, proxy.1, proxy.2⟩

-- What `Deserialize` checks, and what it leaves as it was.
structure Checked : Prop where
  versionUsing_le : PROTOCOL_VERSION_MIN ≤ header.versionUsing
  versionMin_le : header.versionMin ≤ PROTOCOL_VERSION_USING
  type_ne : header.type ≠ .invalid
  proxy : header.getFlag .proxy = false →
    header.peerEndpoint = Endpoint.none ∧ header.payloadLength = 0

end MessageHeader

-- The bodies. Of its header, a body depends on the flag `ACK` and on the extension; the
-- fields that these leave out are not streamed, and are zero here.

structure HandshakeMessage where
  timestamp : UInt64
  cookie : Uint256
  account : Account
  signature : Signature
  deriving DecidableEq

namespace HandshakeMessage

def REQUEST : UInt16 := 1
def RESPONSE : UInt16 := 2

def serialize (extension : UInt16) (b : HandshakeMessage) : List UInt8 :=
  if extension = REQUEST then
    [streamWrite b.timestamp, streamWrite b.cookie, streamWrite b.account].flatten
  else [streamWrite b.account, streamWrite b.signature].flatten

def parse (extension : UInt16) : StreamM HandshakeMessage := do
  Reader.failIf (extension ≠ REQUEST ∧ extension ≠ RESPONSE) .HANDSHAKE_TYPE
  if extension = REQUEST then do
    let timestamp : UInt64 ← streamRead
    let cookie : Uint256 ← streamRead
    let account : Account ← streamRead
    return ⟨timestamp, cookie, account, 0⟩
  else do
    let account : Account ← streamRead
    let signature : Signature ← streamRead
    return ⟨0, 0, account, signature⟩

structure Checked (extension : UInt16) (b : HandshakeMessage) : Prop where
  type : extension = REQUEST ∨ extension = RESPONSE
  request : extension = REQUEST → b.signature = 0
  response : extension ≠ REQUEST → b.timestamp = 0 ∧ b.cookie = 0

end HandshakeMessage

structure KeepliveMessage where
  peers : List (Account × Endpoint)
  timestamp : UInt64
  account : Account
  signature : Signature
  hash : BlockHash
  deriving DecidableEq

namespace KeepliveMessage

def MAX_PEERS : Nat := 8

def writePeer (peer : Account × Endpoint) : List UInt8 :=
  [streamWrite peer.1, streamWrite peer.2.ip, streamWrite peer.2.port].flatten

def readPeer : StreamM (Account × Endpoint) := do
  let account : Account ← streamRead
  let ip : UInt32 ← streamRead
  let port : UInt16 ← streamRead
  return (account, ⟨ip, port⟩)

def serialize (ack : Bool) (b : KeepliveMessage) : List UInt8 :=
  if ack = true then [streamWrite b.hash, streamWrite b.account].flatten
  else [(b.peers.map writePeer).flatten, streamWrite b.timestamp, streamWrite b.account,
    streamWrite b.signature].flatten

-- The numbers in the extension are checked in an acknowledgement, too.
def parse (ack : Bool) (extension : UInt16) : StreamM KeepliveMessage := do
  Reader.failIf (MessageHeader.low extension > MAX_PEERS) .KEEPLIVE_PEERS
  Reader.failIf (MessageHeader.high extension > MessageHeader.low extension)
    .KEEPLIVE_REACHABLE_PEERS
  if ack = true then do
    let hash : BlockHash ← streamRead
    let account : Account ← streamRead
    return ⟨[], 0, account, 0, hash⟩
  else do
    let peers ← Reader.times readPeer (MessageHeader.low extension)
    let timestamp : UInt64 ← streamRead
    let account : Account ← streamRead
    let signature : Signature ← streamRead
    return ⟨peers, timestamp, account, signature, 0⟩

structure Checked (ack : Bool) (extension : UInt16) (b : KeepliveMessage) : Prop where
  total_le : MessageHeader.low extension ≤ MAX_PEERS
  reachable_le : MessageHeader.high extension ≤ MessageHeader.low extension
  answer : ack = true → b.peers = [] ∧ b.timestamp = 0 ∧ b.signature = 0
  announce : ack = false → b.peers.length = MessageHeader.low extension ∧ b.hash = 0

end KeepliveMessage

structure PublishMessage where
  account : Account
  block : Block
  deriving DecidableEq

namespace PublishMessage

def serialize (extension : UInt16) (b : PublishMessage) : List UInt8 :=
  [if extension = 1 then streamWrite b.account else [], b.block.serialize].flatten

def parse (extension : UInt16) : StreamM PublishMessage := do
  Reader.failIf (extension ≠ 0 ∧ extension ≠ 1) .PUBLISH_NEED_CONFIRM
  let account : Account ← Reader.when (extension = 1) 0 streamRead
  let block ← deserializeBlockUnverify
  return ⟨account, block⟩

structure Checked (extension : UInt16) (b : PublishMessage) : Prop where
  extension_eq : extension = 0 ∨ extension = 1
  account : extension ≠ 1 → b.account = 0
  block : b.block.Checked

end PublishMessage

-- What a representative signs.
def voteHash (env : Env) (timestamp : UInt64) (representative : Account) (block : Block) :
    BlockHash :=
  env.blake2b [streamWrite timestamp, streamWrite representative,
    streamWrite (env.hash block)].flatten

structure ConfirmMessage where
  timestamp : UInt64
  representative : Account
  signature : Signature
  block : Block
  deriving DecidableEq

namespace ConfirmMessage

def serialize (b : ConfirmMessage) : List UInt8 :=
  [streamWrite b.timestamp, streamWrite b.representative, streamWrite b.signature,
    b.block.serialize].flatten

def hash (env : Env) (b : ConfirmMessage) : BlockHash :=
  voteHash env b.timestamp b.representative b.block

def checkSignature (env : Env) (b : ConfirmMessage) : Bool :=
  env.validateMessage b.representative (b.hash env) b.signature

def deserialize (env : Env) : StreamM ConfirmMessage := do
  let timestamp : UInt64 ← streamRead
  let representative : Account ← streamRead
  let signature : Signature ← streamRead
  let block ← deserializeBlock env
  return ⟨timestamp, representative, signature, block⟩

def parse (env : Env) : StreamM ConfirmMessage := do
  let message ← deserialize env
  Reader.failIf (message.checkSignature env = true) .MESSAGE_CONFIRM_SIGNATURE
  return message

structure Checked (env : Env) (b : ConfirmMessage) : Prop where
  block : b.block.Verified env
  signature : b.checkSignature env = false

end ConfirmMessage

inductive QueryBy where
  | invalid
  | hash
  | height
  | previous
  deriving DecidableEq, Repr

inductive QueryStatus where
  | invalid
  | success
  | miss
  | pruned
  | fork
  deriving DecidableEq, Repr

structure QueryMessage where
  sequence : UInt64
  account : Account
  height : UInt64
  hash : BlockHash
  block : Option Block
  deriving DecidableEq

namespace QueryMessage

def queryBy (extension : UInt16) : QueryBy :=
  match MessageHeader.high extension with
  | 1 => .hash
  | 2 => .height
  | 3 => .previous
  | _ => .invalid

def queryStatus (extension : UInt16) : QueryStatus :=
  match MessageHeader.low extension with
  | 1 => .success
  | 2 => .miss
  | 3 => .pruned
  | 4 => .fork
  | _ => .invalid

def HasHash (extension : UInt16) : Prop :=
  queryBy extension = .hash ∨ queryBy extension = .previous

def HasBlock (ack : Bool) (extension : UInt16) : Prop :=
  ack = true ∧ (queryStatus extension = .success ∨ queryStatus extension = .fork)

instance (extension : UInt16) : Decidable (HasHash extension) :=
  inferInstanceAs (Decidable (_ ∨ _))

instance (ack : Bool) (extension : UInt16) : Decidable (HasBlock ack extension) :=
  inferInstanceAs (Decidable (_ ∧ _))

def serialize (ack : Bool) (extension : UInt16) (b : QueryMessage) : List UInt8 :=
  [streamWrite b.sequence, streamWrite b.account, streamWrite b.height,
    if HasHash extension then streamWrite b.hash else [],
    match b.block with
    | none => []
    | some block => if HasBlock ack extension then block.serialize else []].flatten

def check_ (env : Env) (extension : UInt16) (b : QueryMessage) : Except ErrorCode Unit :=
  match b.block with
  | none => return ()
  | some block =>
    match queryBy extension with
    | .hash => do
      returnIf (queryStatus extension ≠ .success) .MESSAGE_QUERY_STATUS
      returnIf (block.account ≠ b.account ∧ b.account ≠ 0) .MESSAGE_QUERY_BLOCK
      returnIf (block.height ≠ b.height.toNat ∧ b.height.toNat ≠ INVALID_HEIGHT)
        .MESSAGE_QUERY_BLOCK
      returnIf (env.hash block ≠ b.hash) .MESSAGE_QUERY_BLOCK
    | .height => do
      returnIf (queryStatus extension ≠ .success) .MESSAGE_QUERY_STATUS
      returnIf (block.account ≠ b.account) .MESSAGE_QUERY_BLOCK
      returnIf (block.height ≠ b.height.toNat) .MESSAGE_QUERY_BLOCK
    | .previous =>
      match queryStatus extension with
      | .success => do
        returnIf (block.account ≠ b.account) .MESSAGE_QUERY_BLOCK
        returnIf (block.height ≠ b.height.toNat) .MESSAGE_QUERY_BLOCK
        returnIf (block.previous ≠ b.hash) .MESSAGE_QUERY_BLOCK
      | .fork => do
        returnIf (block.account ≠ b.account) .MESSAGE_QUERY_BLOCK
        returnIf ((block.height + 1) % 2 ^ 64 ≠ b.height.toNat) .MESSAGE_QUERY_BLOCK
        returnIf (env.hash block = b.hash) .MESSAGE_QUERY_BLOCK
      | _ => throw .MESSAGE_QUERY_STATUS
    | .invalid => throw .MESSAGE_QUERY_BY

def readBlock (env : Env) : StreamM (Option Block) := do
  let block ← deserializeBlock env
  return some block

def parse (env : Env) (ack : Bool) (extension : UInt16) : StreamM QueryMessage := do
  Reader.failIf (queryBy extension = .invalid) .MESSAGE_QUERY_BY
  Reader.failIf (ack = true ∧ queryStatus extension = .invalid) .MESSAGE_QUERY_STATUS
  let sequence : UInt64 ← streamRead
  let account : Account ← streamRead
  let height : UInt64 ← streamRead
  let hash : BlockHash ← Reader.when (HasHash extension) 0 streamRead
  let block ← Reader.when (HasBlock ack extension) none (readBlock env)
  let message : QueryMessage := ⟨sequence, account, height, hash, block⟩
  check fun _ => message.check_ env extension
  return message

structure Checked (env : Env) (ack : Bool) (extension : UInt16) (b : QueryMessage) : Prop where
  queryBy_ne : queryBy extension ≠ .invalid
  queryStatus_ne : ack = true → queryStatus extension ≠ .invalid
  hash : ¬HasHash extension → b.hash = 0
  block_some : HasBlock ack extension → ∃ block, b.block = some block ∧ block.Verified env
  block_none : ¬HasBlock ack extension → b.block = none
  check : b.check_ env extension = .ok ()

end QueryMessage

structure ForkMessage where
  first : Block
  second : Block
  deriving DecidableEq

namespace ForkMessage

def serialize (b : ForkMessage) : List UInt8 := [b.first.serialize, b.second.serialize].flatten

def deserialize (env : Env) : StreamM ForkMessage := do
  let first ← deserializeBlock env
  let second ← deserializeBlock env
  return ⟨first, second⟩

-- `==` on blocks compares all their fields.
def check_ (b : ForkMessage) : Except ErrorCode Unit := do
  returnIf (b.first.account ≠ b.second.account) .MESSAGE_FORK_ACCOUNT
  returnIf (b.first.height ≠ b.second.height) .MESSAGE_FORK_HEIGHT
  returnIf (b.first = b.second) .MESSAGE_FORK_BLOCK_EQUAL

def parse (env : Env) : StreamM ForkMessage := do
  let message ← deserialize env
  check fun _ => message.check_
  return message

structure Checked (env : Env) (b : ForkMessage) : Prop where
  first : b.first.Verified env
  second : b.second.Verified env
  check : b.check_ = .ok ()

end ForkMessage

structure ConflictMessage where
  representative : Account
  timestampFirst : UInt64
  timestampSecond : UInt64
  signatureFirst : Signature
  signatureSecond : Signature
  blockFirst : Block
  blockSecond : Block
  deriving DecidableEq

namespace ConflictMessage

def serialize (b : ConflictMessage) : List UInt8 :=
  [streamWrite b.representative, streamWrite b.timestampFirst, streamWrite b.timestampSecond,
    streamWrite b.signatureFirst, streamWrite b.signatureSecond, b.blockFirst.serialize,
    b.blockSecond.serialize].flatten

def deserialize (env : Env) : StreamM ConflictMessage := do
  let representative : Account ← streamRead
  let timestampFirst : UInt64 ← streamRead
  let timestampSecond : UInt64 ← streamRead
  let signatureFirst : Signature ← streamRead
  let signatureSecond : Signature ← streamRead
  let blockFirst ← Reader.orCode .MESSAGE_CONFLICT_BLOCK (deserializeBlock env)
  let blockSecond ← Reader.orCode .MESSAGE_CONFLICT_BLOCK (deserializeBlock env)
  return ⟨representative, timestampFirst, timestampSecond, signatureFirst, signatureSecond,
    blockFirst, blockSecond⟩

def check_ (env : Env) (b : ConflictMessage) : Except ErrorCode Unit := do
  returnIf (b.blockFirst.account ≠ b.blockSecond.account) .MESSAGE_CONFLICT_BLOCK
  returnIf (b.blockFirst.height ≠ b.blockSecond.height) .MESSAGE_CONFLICT_BLOCK
  let first := b.timestampFirst.toNat
  let second := b.timestampSecond.toNat
  let diff := if first > second then first - second else second - first
  returnIf (diff = 0 ∧ b.blockFirst = b.blockSecond) .MESSAGE_CONFLICT_BLOCK
  returnIf (diff ≥ MIN_CONFIRM_INTERVAL) .MESSAGE_CONFLICT_TIMESTAMP
  let hashFirst := voteHash env b.timestampFirst b.representative b.blockFirst
  returnIf (env.validateMessage b.representative hashFirst b.signatureFirst)
    .MESSAGE_CONFLICT_SIGNATURE
  let hashSecond := voteHash env b.timestampSecond b.representative b.blockSecond
  returnIf (env.validateMessage b.representative hashSecond b.signatureSecond)
    .MESSAGE_CONFLICT_SIGNATURE

def parse (env : Env) : StreamM ConflictMessage := do
  let message ← deserialize env
  check fun _ => message.check_ env
  return message

structure Checked (env : Env) (b : ConflictMessage) : Prop where
  first : b.blockFirst.Verified env
  second : b.blockSecond.Verified env
  check : b.check_ env = .ok ()

end ConflictMessage

structure WeightMessage where
  requestId : Uint256
  rep : Account
  epoch : UInt32
  weight : Amount
  replier : Account
  deriving DecidableEq

namespace WeightMessage

def serialize (ack : Bool) (b : WeightMessage) : List UInt8 :=
  [streamWrite b.requestId, streamWrite b.rep,
    if ack = true then
      [streamWrite b.epoch, streamWrite b.weight, streamWrite b.replier].flatten
    else []].flatten

def readAnswer : StreamM (UInt32 × Amount × Account) := do
  let epoch : UInt32 ← streamRead
  let weight : Amount ← streamRead
  let replier : Account ← streamRead
  return (epoch, weight, replier)

def parse (ack : Bool) : StreamM WeightMessage := do
  let requestId : Uint256 ← streamRead
  let rep : Account ← streamRead
  let answer ← Reader.when (ack = true) (0, 0, 0) readAnswer
  return ⟨requestId, rep, answer.1, answer.2.1, answer.2.2⟩

def Checked (ack : Bool) (b : WeightMessage) : Prop :=
  ack = false → b.epoch = 0 ∧ b.weight = 0 ∧ b.replier = 0

end WeightMessage

structure CrosschainMessage where
  source : Account
  destination : Account
  chain : Chain
  payload : List UInt8
  deriving DecidableEq

namespace CrosschainMessage

-- The length is cut to 16 bits, and so is what is written of the payload.
def length (b : CrosschainMessage) : UInt16 := UInt16.ofNat b.payload.length

def serialize (b : CrosschainMessage) : List UInt8 :=
  [streamWrite b.source, streamWrite b.destination, streamWrite b.chain, streamWrite b.length,
    if b.length > 0 then b.payload.take b.length.toNat else []].flatten

def parse : StreamM CrosschainMessage := do
  let source : Account ← streamRead
  let destination : Account ← streamRead
  let chain : Chain ← streamRead
  let length : UInt16 ← streamRead
  let payload ← Reader.when (length > 0) [] (streamReadBytes length.toNat)
  return ⟨source, destination, chain, payload⟩

def Checked (b : CrosschainMessage) : Prop := b.payload.length < 2 ^ 16

end CrosschainMessage

-- `RelayMessage` has the bytes of another message for its payload.
inductive MessageBody where
  | handshake (body : HandshakeMessage)
  | keeplive (body : KeepliveMessage)
  | publish (body : PublishMessage)
  | confirm (body : ConfirmMessage)
  | query (body : QueryMessage)
  | fork (body : ForkMessage)
  | conflict (body : ConflictMessage)
  | weight (body : WeightMessage)
  | crosschain (body : CrosschainMessage)
  | relay (payload : List UInt8)
  deriving DecidableEq

structure Message where
  header : MessageHeader
  body : MessageBody
  deriving DecidableEq

namespace MessageBody

-- What a body writes behind its header.
def serialize (ack : Bool) (extension : UInt16) : MessageBody → List UInt8
  | .handshake body => body.serialize extension
  | .keeplive body => body.serialize ack
  | .publish body => body.serialize extension
  | .confirm body => body.serialize
  | .query body => body.serialize ack extension
  | .fork body => body.serialize
  | .conflict body => body.serialize
  | .weight body => body.serialize ack
  | .crosschain body => body.serialize
  | .relay payload => payload

-- A body of the type, with fields that the parsing constructor takes.
def Checked (env : Env) (type : MessageType) (ack : Bool) (extension : UInt16) :
    MessageBody → Prop
  | .handshake body => type = .handshake ∧ body.Checked extension
  | .keeplive body => type = .keeplive ∧ body.Checked ack extension
  | .publish body => type = .publish ∧ body.Checked extension
  | .confirm body => type = .confirm ∧ body.Checked env
  | .query body => type = .query ∧ body.Checked env ack extension
  | .fork body => type = .fork ∧ body.Checked env
  | .conflict body => type = .conflict ∧ body.Checked env
  | .weight body => type = .weight ∧ body.Checked ack
  | .crosschain body => type = .crosschain ∧ body.Checked
  | .relay _ => False

-- The `switch` of `MessageParser::Parse`.
def parse (env : Env) (type : MessageType) (ack : Bool) (extension : UInt16) :
    StreamM MessageBody :=
  match type with
  | .handshake => do
    let body ← HandshakeMessage.parse extension
    return .handshake body
  | .keeplive => do
    let body ← KeepliveMessage.parse ack extension
    return .keeplive body
  | .publish => do
    let body ← PublishMessage.parse extension
    return .publish body
  | .confirm => do
    let body ← ConfirmMessage.parse env
    return .confirm body
  | .query => do
    let body ← QueryMessage.parse env ack extension
    return .query body
  | .fork => do
    let body ← ForkMessage.parse env
    return .fork body
  | .conflict => do
    let body ← ConflictMessage.parse env
    return .conflict body
  | .weight => do
    let body ← WeightMessage.parse ack
    return .weight body
  | .crosschain => do
    let body ← CrosschainMessage.parse
    return .crosschain body
  | _ => throw .UNKNOWN_MESSAGE

end MessageBody

namespace Message

variable (env : Env)

-- The bytes behind the header.
def payload (m : Message) : List UInt8 :=
  m.body.serialize (m.header.getFlag .ack) m.header.extension

def toBytes (m : Message) : List UInt8 := m.header.serialize env.network ++ m.payload

def enableProxy (m : Message) (peerEndpoint : Endpoint) : Message :=
  let proxied : Message :=
    { m with header := { m.header.setFlag .proxy with peerEndpoint := peerEndpoint } }
  let length := (proxied.toBytes env).length - (proxied.header.serialize env.network).length
  { proxied with header := { proxied.header with payloadLength := UInt16.ofNat length } }

-- The fields satisfy the checks of the parsing constructors.
structure Checked (m : Message) : Prop where
  header : m.header.Checked
  body : m.body.Checked env m.header.type (m.header.getFlag .ack) m.header.extension

end Message

namespace MessageParser

variable (env : Env)

-- The message as it was read; the constructor of `RelayMessage` sets one more flag.
def read : StreamM Message := do
  let header ← MessageHeader.deserialize env.network
  if header.getFlag .proxy = true ∧ header.getFlag .relay = false then do
    let payload ← streamReadBytes header.payloadLength.toNat
    return ⟨header, .relay payload⟩
  else do
    let body ← MessageBody.parse env header.type (header.getFlag .ack) header.extension
    return ⟨header, body⟩

def relayed (m : Message) : Message :=
  match m.body with
  | .relay _ => { m with header := m.header.setFlag .relay }
  | _ => m

-- The message that is visited. One that does not end where the stream ends is dropped.
def parse (bytes : List UInt8) : Except ErrorCode Message :=
  match read env bytes with
  | .ok m [] => .ok (relayed m)
  | .ok _ (_ :: _) => .error .STREAM
  | .error code _ => .error code

end MessageParser

end Raicoin
