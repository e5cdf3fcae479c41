import Raicoin.Common.Blocks
import Raicoin.Common.Errors
import Raicoin.Lib.Process

-- The blocks that a client builds for its own account, one on the other.
namespace Raicoin

open Lib

abbrev RawKey := Uint256

-- `SignMessage`, which Ed25519 decides.
abbrev SignMessage := RawKey → PublicKey → Uint256 → Signature

abbrev Extensions := { bytes : List UInt8 // bytes.length ≤ MAX_EXTENSIONS_SIZE }

-- `private_key_`, when `has_key_` is set.
structure TxBlockBuilder where
  privateKey : Option RawKey
  account : Account
  rep : Account
  previous : Option Block
  deriving DecidableEq

structure RepBlockBuilder where
  privateKey : Option RawKey
  account : Account
  previous : Option Block

-- What the methods of the two builders have in common.
namespace BlockBuilder

def checkExtensions (extensions : List UInt8) : Except ErrorCode Extensions :=
  if h : extensions.length ≤ MAX_EXTENSIONS_SIZE then .ok ⟨extensions, h⟩
  else .error .EXTENSIONS_LENGTH

def laterOf (now timestamp : Nat) : Nat := if now > timestamp then now else timestamp

def checkTimestamp (now : UInt64) (timestamp : Nat) : Except ErrorCode Unit :=
  returnIf (timestamp > (now.toNat + 60) % 2 ^ 64) .BLOCK_TIMESTAMP

def nextCounter (timestamp : Nat) (previous : Block) : Nat :=
  if SameDay timestamp previous.timestamp then (previous.counter + 1) % 2 ^ 32 else 1

def checkCounter (credit counter : Nat) (code : ErrorCode) : Except ErrorCode Unit :=
  returnIf (counter > credit * TRANSACTIONS_PER_CREDIT) code

-- The fields that a RECEIVE computes, in the order of the constructors.
structure Received where
  credit : Nat
  counter : Nat
  timestamp : Nat
  height : Nat
  previous : BlockHash
  balance : Amount

variable (env : Env)

-- `Receive` without a previous block.
def receiveFirst (amount : Amount) (sentAt : Nat) (now : UInt64) : Except ErrorCode Received := do
  let timestamp := if now.toNat ≥ sentAt then now.toNat else sentAt
  checkTimestamp now timestamp
  returnIf (amount.toNat < creditPrice env.network timestamp) .RECEIVABLE_AMOUNT
  return {
    credit := 1, counter := 1, timestamp, height := 0, previous := 0
    balance := amount - BitVec.ofNat 128 (creditPrice env.network timestamp) }

-- `Receive` on a previous block, which must be of the builder's type.
def receiveNext (type : BlockType) (previous : Block) (amount : Amount) (sentAt : Nat)
    (now : UInt64) : Except ErrorCode Received := do
  returnIf (previous.type ≠ type) .BLOCK_TYPE
  let credit := previous.credit
  let timestamp := laterOf now.toNat previous.timestamp
  let timestamp := if timestamp < sentAt then sentAt else timestamp
  checkTimestamp now timestamp
  let counter := nextCounter timestamp previous
  checkCounter credit counter .BLOCK_COUNTER
  let balance := previous.balance + amount
  returnIf (balance.toNat < amount.toNat) .RECEIVABLE_AMOUNT
  return {
    credit, counter, timestamp, height := (previous.height + 1) % 2 ^ 64
    previous := env.hash previous, balance }

def receiveOn (type : BlockType) (previous : Option Block) (amount : Amount) (sentAt now : UInt64) :
    Except ErrorCode Received :=
  match previous with
  | none => receiveFirst env amount sentAt.toNat now
  | some previous => receiveNext env type previous amount sentAt.toNat now

end BlockBuilder

open BlockBuilder

variable (env : Env) (signMessage : SignMessage)

namespace TxBlockBuilder

-- Signs the block when there is a key, and goes on from it.
def build (builder : TxBlockBuilder) (block : TxBlock) : Block × TxBlockBuilder :=
  let signature := match builder.privateKey with
    | some key => signMessage key builder.account (env.hash (.tx block))
    | none => 0
  let block := Block.tx { block with signature }
  (block, { builder with previous := some block })

def change (builder : TxBlockBuilder) (rep : Account) (now : UInt64) (extensions : List UInt8) :
    Except ErrorCode (Block × TxBlockBuilder) := do
  let previous ← orReturn builder.previous .BLOCK_OPCODE
  returnIf (previous.type ≠ .txBlock) .BLOCK_TYPE
  let extensions ← checkExtensions extensions
  let timestamp := laterOf now.toNat previous.timestamp
  checkTimestamp now timestamp
  let counter := nextCounter timestamp previous
  checkCounter previous.credit counter .ACCOUNT_ACTION_CREDIT
  return builder.build env signMessage {
    opcode := .change
    credit := UInt16.ofNat previous.credit
    counter := UInt32.ofNat counter
    timestamp := UInt64.ofNat timestamp
    height := UInt64.ofNat (previous.height + 1)
    account := builder.account
    previous := env.hash previous
    representative := rep
    balance := previous.balance
    link := 0
    extensions := extensions.val
    signature := 0
    extensions_le := extensions.property }

def receive (builder : TxBlockBuilder) (source : BlockHash) (amount : Amount) (sentAt now : UInt64)
    (extensions : List UInt8) : Except ErrorCode (Block × TxBlockBuilder) := do
  let extensions ← checkExtensions extensions
  returnIf (amount = 0) .RECEIVABLE_AMOUNT
  let received ← receiveOn env .txBlock builder.previous amount sentAt now
  return builder.build env signMessage {
    opcode := .receive
    credit := UInt16.ofNat received.credit
    counter := UInt32.ofNat received.counter
    timestamp := UInt64.ofNat received.timestamp
    height := UInt64.ofNat received.height
    account := builder.account
    previous := received.previous
    representative := (builder.previous.map Block.representative).getD builder.rep
    balance := received.balance
    link := source
    extensions := extensions.val
    signature := 0
    extensions_le := extensions.property }

def send (builder : TxBlockBuilder) (destination : Account) (amount : Amount) (now : UInt64)
    (extensions : List UInt8) : Except ErrorCode (Block × TxBlockBuilder) := do
  let previous ← orReturn builder.previous .BLOCK_OPCODE
  returnIf (previous.type ≠ .txBlock) .BLOCK_TYPE
  returnIf (amount = 0) .SEND_AMOUNT
  let extensions ← checkExtensions extensions
  let timestamp := laterOf now.toNat previous.timestamp
  checkTimestamp now timestamp
  let counter := nextCounter timestamp previous
  checkCounter previous.credit counter .BLOCK_COUNTER
  returnIf (previous.balance.toNat < amount.toNat) .SEND_AMOUNT
  return builder.build env signMessage {
    opcode := .send
    credit := UInt16.ofNat previous.credit
    counter := UInt32.ofNat counter
    timestamp := UInt64.ofNat timestamp
    height := UInt64.ofNat (previous.height + 1)
    account := builder.account
    previous := env.hash previous
    representative := previous.representative
    balance := previous.balance - amount
    link := destination
    extensions := extensions.val
    signature := 0
    extensions_le := extensions.property }

end TxBlockBuilder

namespace RepBlockBuilder

def build (builder : RepBlockBuilder) (block : RepBlock) : Block × RepBlockBuilder :=
  let signature := match builder.privateKey with
    | some key => signMessage key builder.account (env.hash (.rep block))
    | none => 0
  let block := Block.rep { block with signature }
  (block, { builder with previous := some block })

def bind (builder : RepBlockBuilder) (chain : Chain) (signer : SignerAddress) (now : UInt64) :
    Except ErrorCode (Block × RepBlockBuilder) := do
  let previous ← orReturn builder.previous .BLOCK_OPCODE
  returnIf (previous.type ≠ .repBlock) .BLOCK_TYPE
  let timestamp := laterOf now.toNat previous.timestamp
  checkTimestamp now timestamp
  let counter := nextCounter timestamp previous
  checkCounter previous.credit counter .BLOCK_COUNTER
  return builder.build env signMessage {
    opcode := .bind
    credit := UInt16.ofNat previous.credit
    counter := UInt32.ofNat counter
    timestamp := UInt64.ofNat timestamp
    height := UInt64.ofNat (previous.height + 1)
    account := builder.account
    previous := env.hash previous
    balance := previous.balance
    link := signer
    chain := chain
    signature := 0
    chain_eq := fun hne => absurd rfl hne }

def credit (builder : RepBlockBuilder) (creditInc : UInt16) (now : UInt64) :
    Except ErrorCode (Block × RepBlockBuilder) := do
  let previous ← orReturn builder.previous .BLOCK_OPCODE
  returnIf (previous.type ≠ .repBlock) .BLOCK_TYPE
  let credit := (previous.credit + creditInc.toNat) % 2 ^ 16
  returnIf (credit ≤ previous.credit) .BLOCK_CREDIT
  let timestamp := laterOf now.toNat previous.timestamp
  checkTimestamp now timestamp
  let counter := nextCounter timestamp previous
  checkCounter credit counter .BLOCK_COUNTER
  let cost : Amount := BitVec.ofNat 128 (creditPrice env.network timestamp * creditInc.toNat)
  returnIf (cost.toNat > previous.balance.toNat) .ACCOUNT_ACTION_BALANCE
  return builder.build env signMessage {
    opcode := .credit
    credit := UInt16.ofNat credit
    counter := UInt32.ofNat counter
    timestamp := UInt64.ofNat timestamp
    height := UInt64.ofNat (previous.height + 1)
    account := builder.account
    previous := env.hash previous
    balance := previous.balance - cost
    link := 0
    chain := Chain.INVALID
    signature := 0
    chain_eq := fun _ => rfl }

def receive (builder : RepBlockBuilder) (source : BlockHash) (amount : Amount)
    (sentAt now : UInt64) : Except ErrorCode (Block × RepBlockBuilder) := do
  returnIf (amount = 0) .RECEIVABLE_AMOUNT
  let received ← receiveOn env .repBlock builder.previous amount sentAt now
  return builder.build env signMessage {
    opcode := .receive
    credit := UInt16.ofNat received.credit
    counter := UInt32.ofNat received.counter
    timestamp := UInt64.ofNat received.timestamp
    height := UInt64.ofNat received.height
    account := builder.account
    previous := received.previous
    balance := received.balance
    link := source
    chain := Chain.INVALID
    signature := 0
    chain_eq := fun _ => rfl }

end RepBlockBuilder

end Raicoin
