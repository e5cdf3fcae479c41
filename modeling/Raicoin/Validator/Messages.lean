import Raicoin.Validator.Serializer

-- The messages that bridge validators send each other, and their payloads.
namespace Raicoin.Validator

open Lib Serializer

inductive CrossChainMessageType where
  | weightSign
  | transferSign
  | creationSign
  | upgradeSign
  | updateTokenVolatile
  deriving DecidableEq

def CrossChainMessageType.number : CrossChainMessageType → Nat
  | .weightSign => 1
  | .transferSign => 2
  | .creationSign => 3
  | .upgradeSign => 4
  | .updateTokenVolatile => 5

inductive CrossChainOpcode where
  | map
  | unmap
  | wrap
  | unwrap
  deriving DecidableEq

namespace CrossChainOpcode

def number : CrossChainOpcode → Nat
  | .map => 1
  | .unmap => 2
  | .wrap => 3
  | .unwrap => 4

def ofNumber (number : Nat) : Option CrossChainOpcode :=
  if number = 1 then some .map
  else if number = 2 then some .unmap
  else if number = 3 then some .wrap
  else if number = 4 then some .unwrap
  else none

end CrossChainOpcode

-- `msg_type != CrossChainMessageType...`
def readType (type : CrossChainMessageType) : ReadM Unit := do
  let msgType ← readUint 1
  Reader.failIf (msgType ≠ type.number) ()

-- An address is kept as the text of the number that was read.
def readHex : ReadM Value := do
  let value ← readUint256
  return .text (uint256ToHex value.toNat)

-- An account is kept as its text.
def readAccount (blake2b : List UInt8 → BitVec 40) : ReadM Value := do
  let account ← readUint256
  return .text (Account.encode blake2b account)

def readOpcode : ReadM CrossChainOpcode := do
  let opcode ← readUint 1
  match CrossChainOpcode.ofNumber opcode with
  | some opcode => return opcode
  | none => throw ()

-- Only a response is signed; a request has the signature of the constructor.
def readSignature (isRequest : Bool) : ReadM (List UInt8) := Reader.when (isRequest = false) [] readBytes

def writeSignature (isRequest : Bool) (signature : List UInt8) : Option (List UInt8) :=
  if isRequest = false then writeBytes signature else some []

-- The parts of a payload, in which every one could raise an exception.
def concat : List (Option (List UInt8)) → Option (List UInt8)
  | [] => some []
  | part :: parts => do
    let bytes ← part
    let rest ← concat parts
    return bytes ++ rest

section Messages

variable (blake2b : List UInt8 → BitVec 40)

structure WeightSignMessage where
  isRequest : Bool
  validator : Value
  signer : Value
  weight : Nat
  epoch : Nat
  signature : List UInt8
  signature_eq : isRequest = true → signature = []
  deriving DecidableEq

namespace WeightSignMessage

def serialize (m : WeightSignMessage) : Option (List UInt8) :=
  concat [writeUint 1 CrossChainMessageType.weightSign.number, Serializer.writeBool m.isRequest,
    writeUint256 blake2b m.validator, writeUint256 blake2b m.signer, writeUint 16 m.weight,
    writeUint 4 m.epoch, writeSignature m.isRequest m.signature]

def deserialize : ReadM WeightSignMessage := do
  readType .weightSign
  let isRequest ← Serializer.readBool
  let validator ← readHex
  let signer ← readHex
  let weight ← readUint 16
  let epoch ← readUint 4
  let signature ← readSignature isRequest
  if h : isRequest = true → signature = [] then
    return ⟨isRequest, validator, signer, weight, epoch, signature, h⟩
  else throw ()

end WeightSignMessage

structure TransferSignMessage where
  isRequest : Bool
  account : Value
  height : Nat
  opcode : CrossChainOpcode
  requestId : Nat
  signature : List UInt8
  signature_eq : isRequest = true → signature = []
  deriving DecidableEq

namespace TransferSignMessage

def serialize (m : TransferSignMessage) : Option (List UInt8) :=
  concat [writeUint 1 CrossChainMessageType.transferSign.number, Serializer.writeBool m.isRequest,
    writeUint256 blake2b m.account, writeUint 8 m.height, writeUint 1 m.opcode.number,
    writeUint 32 m.requestId, writeSignature m.isRequest m.signature]

def deserialize : ReadM TransferSignMessage := do
  readType .transferSign
  let isRequest ← Serializer.readBool
  let account ← readAccount blake2b
  let height ← readUint 8
  let opcode ← readOpcode
  let requestId ← readUint 32
  let signature ← readSignature isRequest
  if h : isRequest = true → signature = [] then
    return ⟨isRequest, account, height, opcode, requestId, signature, h⟩
  else throw ()

end TransferSignMessage

structure CreationSignMessage where
  isRequest : Bool
  originalChainId : Nat
  originalContract : Value
  requestId : Nat
  signature : List UInt8
  signature_eq : isRequest = true → signature = []
  deriving DecidableEq

namespace CreationSignMessage

def serialize (m : CreationSignMessage) : Option (List UInt8) :=
  concat [writeUint 1 CrossChainMessageType.creationSign.number, Serializer.writeBool m.isRequest,
    writeUint 4 m.originalChainId, writeUint256 blake2b m.originalContract,
    writeUint 32 m.requestId, writeSignature m.isRequest m.signature]

def deserialize : ReadM CreationSignMessage := do
  readType .creationSign
  let isRequest ← Serializer.readBool
  let originalChainId ← readUint 4
  let originalContract ← readHex
  let requestId ← readUint 32
  let signature ← readSignature isRequest
  if h : isRequest = true → signature = [] then
    return ⟨isRequest, originalChainId, originalContract, requestId, signature, h⟩
  else throw ()

end CreationSignMessage

structure UpgradeSignMessage where
  isRequest : Bool
  proposalId : Nat
  impl : Value
  nonce : Nat
  signature : List UInt8
  signature_eq : isRequest = true → signature = []
  deriving DecidableEq

namespace UpgradeSignMessage

def serialize (m : UpgradeSignMessage) : Option (List UInt8) :=
  concat [writeUint 1 CrossChainMessageType.upgradeSign.number, Serializer.writeBool m.isRequest,
    writeUint 4 m.proposalId, writeUint256 blake2b m.impl, writeUint 32 m.nonce,
    writeSignature m.isRequest m.signature]

def deserialize : ReadM UpgradeSignMessage := do
  readType .upgradeSign
  let isRequest ← Serializer.readBool
  let proposalId ← readUint 4
  let impl ← readHex
  let nonce ← readUint 32
  let signature ← readSignature isRequest
  if h : isRequest = true → signature = [] then
    return ⟨isRequest, proposalId, impl, nonce, signature, h⟩
  else throw ()

end UpgradeSignMessage

structure UpdateTokenVolatileMessage where
  isRequest : Bool
  proposalId : Nat
  token : Value
  volatile : Bool
  nonce : Nat
  signature : List UInt8
  signature_eq : isRequest = true → signature = []
  deriving DecidableEq

namespace UpdateTokenVolatileMessage

def serialize (m : UpdateTokenVolatileMessage) : Option (List UInt8) :=
  concat [writeUint 1 CrossChainMessageType.updateTokenVolatile.number, Serializer.writeBool m.isRequest,
    writeUint 4 m.proposalId, writeUint256 blake2b m.token, Serializer.writeBool m.volatile,
    writeUint 32 m.nonce, writeSignature m.isRequest m.signature]

-- The token stays the number that was read.
def deserialize : ReadM UpdateTokenVolatileMessage := do
  readType .updateTokenVolatile
  let isRequest ← Serializer.readBool
  let proposalId ← readUint 4
  let token ← readUint256
  let volatile ← Serializer.readBool
  let nonce ← readUint 32
  let signature ← readSignature isRequest
  if h : isRequest = true → signature = [] then
    return ⟨isRequest, proposalId, .number token.toNat, volatile, nonce, signature, h⟩
  else throw ()

end UpdateTokenVolatileMessage

inductive CrossChainMessage where
  | weightSign (m : WeightSignMessage)
  | transferSign (m : TransferSignMessage)
  | creationSign (m : CreationSignMessage)
  | upgradeSign (m : UpgradeSignMessage)
  | updateTokenVolatile (m : UpdateTokenVolatileMessage)
  deriving DecidableEq

namespace CrossChainMessage

def type : CrossChainMessage → CrossChainMessageType
  | .weightSign _ => .weightSign
  | .transferSign _ => .transferSign
  | .creationSign _ => .creationSign
  | .upgradeSign _ => .upgradeSign
  | .updateTokenVolatile _ => .updateTokenVolatile

def serialize : CrossChainMessage → Option (List UInt8)
  | .weightSign m => m.serialize blake2b
  | .transferSign m => m.serialize blake2b
  | .creationSign m => m.serialize blake2b
  | .upgradeSign m => m.serialize blake2b
  | .updateTokenVolatile m => m.serialize blake2b

-- `deserialize` of the class of the type.
def deserialize : CrossChainMessageType → ReadM CrossChainMessage
  | .weightSign => do
    let m ← WeightSignMessage.deserialize
    return .weightSign m
  | .transferSign => do
    let m ← TransferSignMessage.deserialize blake2b
    return .transferSign m
  | .creationSign => do
    let m ← CreationSignMessage.deserialize
    return .creationSign m
  | .upgradeSign => do
    let m ← UpgradeSignMessage.deserialize
    return .upgradeSign m
  | .updateTokenVolatile => do
    let m ← UpdateTokenVolatileMessage.deserialize
    return .updateTokenVolatile m

end CrossChainMessage

end Messages

end Raicoin.Validator
