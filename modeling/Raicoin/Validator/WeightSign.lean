import Raicoin.Lib.Machine
import Raicoin.Lib.Table
import Raicoin.Validator.Messages

-- What a bridge validator signs for others when they ask it to certify their weights.
namespace Raicoin.Validator

open Lib

-- `NODE['snapshot']`; the weights are kept under the texts of the accounts.
structure Snapshot where
  epoch : Nat
  weights : Table Text Nat

-- `NODE`: what the node has told since it connected.
structure Node where
  account : Option Account
  snapshot : Option Snapshot

-- The account and the signer that the contract calls genesis.
structure Genesis where
  validator : Account
  signer : SignerAddress

-- What the node makes of a message in `Validator::ProcessCrosschainMessage`: the text of the
-- signer that the source has bound, or nothing.
structure Attached where
  source : Account
  sourceSigner : Text
  payload : List UInt8

def processCrosschainMessage (nodeAccount : Account) (bindings : Account → Option SignerAddress)
    (source destination : Account) (payload : List UInt8) : Option Attached :=
  if destination ≠ nodeAccount then none
  else
    let signer := match bindings source with
      | some signer => uint256ToHex signer.toNat
      | none => []
    some ⟨source, signer, payload⟩

-- What is signed: the arguments of `SubmitValidator`.
structure SubmitValidator where
  validator : Uint256
  signer : SignerAddress
  weight : Nat
  epoch : Nat
  deriving DecidableEq

structure EvmChainValidator where
  signer : Option SignerAddress
  genesisValidator : Option Account
  genesisSigner : Option SignerAddress

def CrossChainMessageType.ofNumber (number : Nat) : Option CrossChainMessageType :=
  if number = 1 then some .weightSign
  else if number = 2 then some .transferSign
  else if number = 3 then some .creationSign
  else if number = 4 then some .upgradeSign
  else if number = 5 then some .updateTokenVolatile
  else none

section Handlers

variable (blake2b : List UInt8 → BitVec 40)

-- `node_snapshot_weight` of a node that is synced.
def Snapshot.weight (snapshot : Snapshot) (account : Uint256) : Nat :=
  (snapshot.weights.get (Account.encode blake2b account)).getD 0

-- The request branch of `process_weight_sign_message`. An address that is not the text of a
-- number raises an exception, and so does the signature for a signer of more than 20 bytes.
def processWeightSignRequest (node : Node) (self : EvmChainValidator) (sourceSigner : Text)
    (m : WeightSignMessage) : Option SubmitValidator := do
  let _ ← node.account
  let snapshot ← node.snapshot
  let _ ← self.signer
  if Value.text sourceSigner ≠ m.signer then none
  else if m.epoch ≠ snapshot.epoch then none
  else
    let validator ← m.validator.uint256 blake2b
    let signer ← m.signer.uint256 blake2b
    if m.weight > snapshot.weight blake2b validator then none
    else if signer.toNat ≥ 2 ^ 160 then none
    else some ⟨validator, signer, m.weight, m.epoch⟩

-- `message.source_signer`, with the genesis signer put in for the genesis validator: `None`,
-- which no request names, until a round has read the genesis signer.
def EvmChainValidator.sourceSigner (self : EvmChainValidator) (source : Account)
    (sourceSigner : Text) : Option Text :=
  if self.genesisValidator = some source then
    self.genesisSigner.map fun signer => uint256ToHex signer.toNat
  else some sourceSigner

-- `process_cross_chain_message`, up to the signatures that are made for requests of weights.
def processCrossChainMessage (node : Node) (self : EvmChainValidator) (source : Account)
    (sourceSigner : Text) (m : CrossChainMessage) : Option SubmitValidator := do
  let sourceSigner ← self.sourceSigner source sourceSigner
  match m with
  | .weightSign m =>
    if m.isRequest then processWeightSignRequest blake2b node self sourceSigner m else none
  | _ => none

-- `handle_node_cross_chain_message`
def handleNodeCrossChainMessage (node : Node) (self : EvmChainValidator) (r : Attached) :
    Option SubmitValidator := do
  let first ← r.payload.head?
  let type ← CrossChainMessageType.ofNumber first.toNat
  match CrossChainMessage.deserialize blake2b type r.payload with
  | .ok m _ => processCrossChainMessage blake2b node self r.source r.sourceSigner m
  | .error _ _ => none

end Handlers

section Runs

-- A signature, and what stood when it was made: the bindings are those that the node saw
-- when it handed the message on.
structure Signed where
  submit : SubmitValidator
  bindings : Account → Option SignerAddress
  snapshot : Snapshot

structure BridgeState where
  node : Node
  validator : EvmChainValidator
  signed : List Signed

-- The node connects and tells its account and a snapshot of the weights; a round reads the
-- genesis account or its signer from the contract; the node hands on a message.
inductive BridgeAction where
  | connect
  | nodeAccountAck (account : Account)
  | weightSnapshotAck (snapshot : Snapshot)
  | getGenesisValidator
  | getGenesisSigner
  | crossChain (nodeAccount : Account) (bindings : Account → Option SignerAddress)
      (source destination : Account) (payload : List UInt8)

variable (blake2b : List UInt8 → BitVec 40) (genesis : Genesis)

def BridgeState.signing (s : BridgeState) (nodeAccount : Account)
    (bindings : Account → Option SignerAddress) (source destination : Account)
    (payload : List UInt8) : Option SubmitValidator := do
  let r ← processCrosschainMessage nodeAccount bindings source destination payload
  handleNodeCrossChainMessage blake2b s.node s.validator r

def BridgeState.step (s : BridgeState) : BridgeAction → BridgeState
  | .connect => { s with node := ⟨none, none⟩ }
  | .nodeAccountAck account => { s with node := { s.node with account := some account } }
  | .weightSnapshotAck snapshot => { s with node := { s.node with snapshot := some snapshot } }
  | .getGenesisValidator =>
    { s with validator := { s.validator with genesisValidator := some genesis.validator } }
  | .getGenesisSigner =>
    { s with validator := { s.validator with genesisSigner := some genesis.signer } }
  | .crossChain nodeAccount bindings source destination payload =>
    match s.node.snapshot, s.signing blake2b nodeAccount bindings source destination payload with
    | some snapshot, some submit => { s with signed := ⟨submit, bindings, snapshot⟩ :: s.signed }
    | _, _ => s

def bridgeMachine : Machine BridgeState BridgeAction where
  start s := s.signed = [] ∧ s.validator.genesisValidator = none ∧
    s.validator.genesisSigner = none
  fits _ _ := True
  step := BridgeState.step blake2b genesis

end Runs

end Raicoin.Validator
