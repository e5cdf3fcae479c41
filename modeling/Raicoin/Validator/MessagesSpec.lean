import Raicoin.Validator.SerializerSpec

-- Each message class reads what it writes, in the form that its reader gives the addresses.
namespace Raicoin.Validator

open Lib Serializer

section Parts

theorem concat_eq_some {parts : List (Option (List UInt8))} {bytes : List UInt8} :
    concat parts = some bytes ↔
      ∃ written, List.Forall₂ (fun part b => part = some b) parts written ∧
        written.flatten = bytes := by
  induction parts generalizing bytes with
  | nil =>
      constructor
      · intro h
        cases h
        exact ⟨[], .nil, rfl⟩
      · rintro ⟨_, h, rfl⟩
        cases h
        rfl
  | cons part parts ih =>
      constructor
      · intro h
        obtain ⟨b, hpart, h⟩ := Option.bind_eq_some_iff.mp h
        obtain ⟨rest, hrest, h⟩ := Option.bind_eq_some_iff.mp h
        obtain ⟨written, hwritten, rfl⟩ := ih.mp hrest
        cases h
        exact ⟨b :: written, .cons hpart hwritten, rfl⟩
      · rintro ⟨_, h, rfl⟩
        cases h with
        | cons hpart hwritten =>
            rw [concat, hpart, ih.mpr ⟨_, hwritten, rfl⟩]
            rfl

theorem writeUint_eq_some {width value : Nat} {bytes : List UInt8} :
    writeUint width value = some bytes ↔ value < 256 ^ width ∧ bigEndian width value = bytes := by
  unfold writeUint
  by_cases hlarge : value ≥ 256 ^ width
  · rw [if_pos hlarge]
    exact ⟨fun h => (nomatch h), fun h => absurd h.1 (Nat.not_lt.mpr hlarge)⟩
  · rw [if_neg hlarge, Option.some.injEq]
    exact ⟨fun h => ⟨Nat.not_le.mp hlarge, h⟩, fun h => h.2⟩

theorem writeBool_eq (b : Bool) : Serializer.writeBool b = some (bigEndian 1 (if b then 1 else 0)) := by
  cases b <;> rfl

def plainSignature (isRequest : Bool) (signature : List UInt8) : List UInt8 :=
  if isRequest = false then bigEndian 2 signature.length ++ signature else []

theorem writeSignature_eq_some {isRequest : Bool} {signature bytes : List UInt8}
    (heq : isRequest = true → signature = []) :
    writeSignature isRequest signature = some bytes ↔
      signature.length < 2 ^ 16 ∧ plainSignature isRequest signature = bytes := by
  unfold writeSignature plainSignature
  cases isRequest with
  | true =>
      rw [heq rfl]
      simp
  | false =>
      rw [if_pos rfl, if_pos rfl]
      unfold writeBytes
      constructor
      · intro h
        obtain ⟨length, hlength, h⟩ := Option.bind_eq_some_iff.mp h
        obtain ⟨hlt, rfl⟩ := writeUint_eq_some.mp hlength
        cases h
        exact ⟨hlt, rfl⟩
      · rintro ⟨hlt, rfl⟩
        rw [writeUint_eq_some.mpr ⟨hlt, rfl⟩]
        rfl

-- The end of every message.
theorem signed_inverts {α : Type} {isRequest : Bool}
    {make : (signature : List UInt8) → (isRequest = true → signature = []) → α}
    {request : α → Bool} {signature : α → List UInt8} {known : α → Prop}
    (hrequest : ∀ m, known m → request m = isRequest)
    (hshort : ∀ m, known m → (signature m).length < 2 ^ 16)
    (hunsigned : ∀ m, request m = true → signature m = [])
    (hmake : ∀ s h, s.length < 2 ^ 16 → known (make s h) ∧ signature (make s h) = s)
    (hall : ∀ m h, known m → make (signature m) h = m) :
    Inverts (do
      let s ← readSignature isRequest
      if h : isRequest = true → s = [] then return make s h else throw ())
      (fun m => plainSignature (request m) (signature m) ++ []) known := by
  refine .congr (?_ : Inverts _ (fun m => plainSignature isRequest (signature m) ++ []) known)
    (fun m hm => by rw [hrequest m hm]) fun m => Iff.rfl
  refine .bind signature (readSignature_inverts isRequest) (fun m hm => ?_) fun s hs => ?_
  · split
    · exact hshort m hm
    · rename_i htrue
      exact hunsigned m ((hrequest m hm).trans (Bool.not_eq_false _ ▸ htrue))
  · have heq : isRequest = true → s = [] := by
      rintro rfl
      exact hs
    have hlt : s.length < 2 ^ 16 := by
      split at hs
      · exact hs
      · rw [hs]
        decide
    rw [dif_pos heq]
    refine .done (hmake s heq hlt) fun m hm => ?_
    obtain ⟨hm, rfl⟩ := hm
    exact (hall m heq hm).symm

end Parts

variable {blake2b : List UInt8 → BitVec 40}

theorem writeUint256_eq_some {v : Value} {bytes : List UInt8} :
    writeUint256 blake2b v = some bytes ↔
      ∃ u, v.uint256 blake2b = some u ∧ bigEndian 32 u.toNat = bytes := by
  rw [writeUint256, Option.map_eq_some_iff]

theorem writeUint256_plain {v : Value} {u : Uint256} (h : v.uint256 blake2b = some u) :
    writeUint256 blake2b v = some (v.plain blake2b) := by
  rw [writeUint256, h, Value.plain_eq h]
  rfl

namespace WeightSignMessage

variable (blake2b) in
def plain (m : WeightSignMessage) : List UInt8 :=
  [bigEndian 1 CrossChainMessageType.weightSign.number, bigEndian 1 (if m.isRequest then 1 else 0),
    m.validator.plain blake2b, m.signer.plain blake2b, bigEndian 16 m.weight, bigEndian 4 m.epoch,
    plainSignature m.isRequest m.signature].flatten

structure Canonical (m : WeightSignMessage) : Prop where
  validator : m.validator.Hex
  signer : m.signer.Hex
  weight : m.weight < 256 ^ 16
  epoch : m.epoch < 256 ^ 4
  signature : m.signature.length < 2 ^ 16

variable (blake2b) in
structure Same (m m' : WeightSignMessage) : Prop where
  isRequest : m.isRequest = m'.isRequest
  validator : m.validator.uint256 blake2b = m'.validator.uint256 blake2b
  signer : m.signer.uint256 blake2b = m'.signer.uint256 blake2b
  weight : m.weight = m'.weight
  epoch : m.epoch = m'.epoch
  signature : m.signature = m'.signature

theorem converts :
    Converts deserialize (serialize blake2b) (plain blake2b) Canonical (Same blake2b) where
  inverts := by
    unfold deserialize
    refine .bind (fun _ => ()) (readType_inverts .weightSign) (fun _ _ => trivial) fun _ _ => ?_
    refine .bind isRequest readBool_inverts (fun _ _ => trivial) fun isRequest _ => ?_
    refine .bind validator readHex_inverts (fun m h => h.1.1.validator) fun validator hvalidator => ?_
    refine .bind signer readHex_inverts (fun m h => h.1.1.1.signer) fun signer hsigner => ?_
    refine .bind weight (readUint_inverts 16) (fun m h => h.1.1.1.1.weight) fun weight hweight => ?_
    refine .bind epoch (readUint_inverts 4) (fun m h => h.1.1.1.1.1.epoch) fun epoch hepoch => ?_
    refine signed_inverts (fun m h => ?_) (fun m h => ?_) signature_eq (fun s h hlt => ?_)
      fun m h hm => ?_
    · exact h.1.1.1.1.2
    · exact h.1.1.1.1.1.1.signature
    · exact ⟨⟨⟨⟨⟨⟨⟨⟨hvalidator, hsigner, hweight, hepoch, hlt⟩, rfl⟩, rfl⟩, rfl⟩, rfl⟩, rfl⟩, rfl⟩, rfl⟩
    · obtain ⟨⟨⟨⟨⟨⟨-, -⟩, rfl⟩, rfl⟩, rfl⟩, rfl⟩, rfl⟩ := hm
      rfl
  writes m h := by
    obtain ⟨validator, hvalidator⟩ := h.validator
    obtain ⟨signer, hsigner⟩ := h.signer
    refine concat_eq_some.mpr ⟨_, .cons rfl (.cons (writeBool_eq _) (.cons
      (writeUint256_plain (hvalidator ▸ Value.uint256_hex validator)) (.cons
      (writeUint256_plain (hsigner ▸ Value.uint256_hex signer)) (.cons
      (writeUint_eq_some.mpr ⟨h.weight, rfl⟩) (.cons (writeUint_eq_some.mpr ⟨h.epoch, rfl⟩) (.cons
      ((writeSignature_eq_some m.signature_eq).mpr ⟨h.signature, rfl⟩) .nil)))))), rfl⟩
  covers m bytes h := by
    obtain ⟨_, hwritten, rfl⟩ := concat_eq_some.mp h
    obtain - | ⟨htype, - | ⟨hrequest, - | ⟨hvalidator', - | ⟨hsigner', - | ⟨hweight', - | ⟨hepoch', - |
      ⟨hsignature', hnil⟩⟩⟩⟩⟩⟩⟩ := hwritten
    cases htype
    cases hnil
    obtain rfl := Option.some.inj ((writeBool_eq _).symm.trans hrequest)
    obtain ⟨validator, hvalidator, rfl⟩ := writeUint256_eq_some.mp hvalidator'
    obtain ⟨signer, hsigner, rfl⟩ := writeUint256_eq_some.mp hsigner'
    obtain ⟨hweight, rfl⟩ := writeUint_eq_some.mp hweight'
    obtain ⟨hepoch, rfl⟩ := writeUint_eq_some.mp hepoch'
    obtain ⟨hsignature, rfl⟩ := (writeSignature_eq_some m.signature_eq).mp hsignature'
    refine ⟨{ m with
      validator := .text (uint256ToHex validator.toNat), signer := .text (uint256ToHex signer.toNat) },
      ⟨⟨validator, rfl⟩, ⟨signer, rfl⟩, hweight, hepoch, hsignature⟩,
      ⟨rfl, hvalidator.trans (Value.uint256_hex validator).symm,
        hsigner.trans (Value.uint256_hex signer).symm, rfl, rfl, rfl⟩, ?_⟩
    rw [plain, Value.plain_eq (Value.uint256_hex validator), Value.plain_eq (Value.uint256_hex signer)]

end WeightSignMessage

namespace TransferSignMessage

variable (blake2b) in
def plain (m : TransferSignMessage) : List UInt8 :=
  [bigEndian 1 CrossChainMessageType.transferSign.number,
    bigEndian 1 (if m.isRequest then 1 else 0), m.account.plain blake2b, bigEndian 8 m.height,
    bigEndian 1 m.opcode.number, bigEndian 32 m.requestId,
    plainSignature m.isRequest m.signature].flatten

variable (blake2b) in
structure Canonical (m : TransferSignMessage) : Prop where
  account : m.account.Account blake2b
  height : m.height < 256 ^ 8
  requestId : m.requestId < 256 ^ 32
  signature : m.signature.length < 2 ^ 16

variable (blake2b) in
structure Same (m m' : TransferSignMessage) : Prop where
  isRequest : m.isRequest = m'.isRequest
  account : m.account.uint256 blake2b = m'.account.uint256 blake2b
  height : m.height = m'.height
  opcode : m.opcode = m'.opcode
  requestId : m.requestId = m'.requestId
  signature : m.signature = m'.signature

theorem converts : Converts (deserialize blake2b) (serialize blake2b) (plain blake2b)
    (Canonical blake2b) (Same blake2b) where
  inverts := by
    unfold deserialize
    refine .bind (fun _ => ()) (readType_inverts .transferSign) (fun _ _ => trivial) fun _ _ => ?_
    refine .bind isRequest readBool_inverts (fun _ _ => trivial) fun isRequest _ => ?_
    refine .bind account readAccount_inverts (fun m h => h.1.1.account) fun account haccount => ?_
    refine .bind height (readUint_inverts 8) (fun m h => h.1.1.1.height) fun height hheight => ?_
    refine .bind opcode readOpcode_inverts (fun _ _ => trivial) fun opcode _ => ?_
    refine .bind requestId (readUint_inverts 32) (fun m h => h.1.1.1.1.1.requestId)
      fun requestId hrequestId => ?_
    refine signed_inverts (fun m h => ?_) (fun m h => ?_) signature_eq (fun s h hlt => ?_)
      fun m h hm => ?_
    · exact h.1.1.1.1.2
    · exact h.1.1.1.1.1.1.signature
    · exact ⟨⟨⟨⟨⟨⟨⟨⟨haccount, hheight, hrequestId, hlt⟩, rfl⟩, rfl⟩, rfl⟩, rfl⟩, rfl⟩, rfl⟩, rfl⟩
    · obtain ⟨⟨⟨⟨⟨⟨-, -⟩, rfl⟩, rfl⟩, rfl⟩, rfl⟩, rfl⟩ := hm
      rfl
  writes m h := by
    obtain ⟨account, haccount⟩ := h.account
    have hopcode : m.opcode.number < 256 ^ 1 := by cases m.opcode <;> decide
    refine concat_eq_some.mpr ⟨_, .cons rfl (.cons (writeBool_eq _) (.cons
      (writeUint256_plain (haccount ▸ Value.uint256_account account)) (.cons
      (writeUint_eq_some.mpr ⟨h.height, rfl⟩) (.cons (writeUint_eq_some.mpr ⟨hopcode, rfl⟩) (.cons
      (writeUint_eq_some.mpr ⟨h.requestId, rfl⟩) (.cons
      ((writeSignature_eq_some m.signature_eq).mpr ⟨h.signature, rfl⟩) .nil)))))), rfl⟩
  covers m bytes h := by
    obtain ⟨_, hwritten, rfl⟩ := concat_eq_some.mp h
    obtain - | ⟨htype, - | ⟨hrequest, - | ⟨haccount', - | ⟨hheight', - | ⟨hopcode', - | ⟨hrequestId', - |
      ⟨hsignature', hnil⟩⟩⟩⟩⟩⟩⟩ := hwritten
    cases htype
    cases hnil
    obtain rfl := Option.some.inj ((writeBool_eq _).symm.trans hrequest)
    obtain ⟨account, haccount, rfl⟩ := writeUint256_eq_some.mp haccount'
    obtain ⟨hheight, rfl⟩ := writeUint_eq_some.mp hheight'
    obtain ⟨-, rfl⟩ := writeUint_eq_some.mp hopcode'
    obtain ⟨hrequestId, rfl⟩ := writeUint_eq_some.mp hrequestId'
    obtain ⟨hsignature, rfl⟩ := (writeSignature_eq_some m.signature_eq).mp hsignature'
    refine ⟨{ m with account := .text (Account.encode blake2b account) },
      ⟨⟨account, rfl⟩, hheight, hrequestId, hsignature⟩,
      ⟨rfl, haccount.trans (Value.uint256_account account).symm, rfl, rfl, rfl, rfl⟩, ?_⟩
    rw [plain, Value.plain_eq (Value.uint256_account account)]

end TransferSignMessage

namespace CreationSignMessage

variable (blake2b) in
def plain (m : CreationSignMessage) : List UInt8 :=
  [bigEndian 1 CrossChainMessageType.creationSign.number,
    bigEndian 1 (if m.isRequest then 1 else 0), bigEndian 4 m.originalChainId,
    m.originalContract.plain blake2b, bigEndian 32 m.requestId,
    plainSignature m.isRequest m.signature].flatten

structure Canonical (m : CreationSignMessage) : Prop where
  originalChainId : m.originalChainId < 256 ^ 4
  originalContract : m.originalContract.Hex
  requestId : m.requestId < 256 ^ 32
  signature : m.signature.length < 2 ^ 16

variable (blake2b) in
structure Same (m m' : CreationSignMessage) : Prop where
  isRequest : m.isRequest = m'.isRequest
  originalChainId : m.originalChainId = m'.originalChainId
  originalContract : m.originalContract.uint256 blake2b = m'.originalContract.uint256 blake2b
  requestId : m.requestId = m'.requestId
  signature : m.signature = m'.signature

theorem converts :
    Converts deserialize (serialize blake2b) (plain blake2b) Canonical (Same blake2b) where
  inverts := by
    unfold deserialize
    refine .bind (fun _ => ()) (readType_inverts .creationSign) (fun _ _ => trivial) fun _ _ => ?_
    refine .bind isRequest readBool_inverts (fun _ _ => trivial) fun isRequest _ => ?_
    refine .bind originalChainId (readUint_inverts 4) (fun m h => h.1.1.originalChainId)
      fun chain hchain => ?_
    refine .bind originalContract readHex_inverts (fun m h => h.1.1.1.originalContract)
      fun contract hcontract => ?_
    refine .bind requestId (readUint_inverts 32) (fun m h => h.1.1.1.1.requestId)
      fun requestId hrequestId => ?_
    refine signed_inverts (fun m h => ?_) (fun m h => ?_) signature_eq (fun s h hlt => ?_)
      fun m h hm => ?_
    · exact h.1.1.1.2
    · exact h.1.1.1.1.1.signature
    · exact ⟨⟨⟨⟨⟨⟨⟨hchain, hcontract, hrequestId, hlt⟩, rfl⟩, rfl⟩, rfl⟩, rfl⟩, rfl⟩, rfl⟩
    · obtain ⟨⟨⟨⟨⟨-, -⟩, rfl⟩, rfl⟩, rfl⟩, rfl⟩ := hm
      rfl
  writes m h := by
    obtain ⟨contract, hcontract⟩ := h.originalContract
    refine concat_eq_some.mpr ⟨_, .cons rfl (.cons (writeBool_eq _) (.cons
      (writeUint_eq_some.mpr ⟨h.originalChainId, rfl⟩) (.cons
      (writeUint256_plain (hcontract ▸ Value.uint256_hex contract)) (.cons
      (writeUint_eq_some.mpr ⟨h.requestId, rfl⟩) (.cons
      ((writeSignature_eq_some m.signature_eq).mpr ⟨h.signature, rfl⟩) .nil))))), rfl⟩
  covers m bytes h := by
    obtain ⟨_, hwritten, rfl⟩ := concat_eq_some.mp h
    obtain - | ⟨htype, - | ⟨hrequest, - | ⟨hchain', - | ⟨hcontract', - | ⟨hrequestId', - |
      ⟨hsignature', hnil⟩⟩⟩⟩⟩⟩ := hwritten
    cases htype
    cases hnil
    obtain rfl := Option.some.inj ((writeBool_eq _).symm.trans hrequest)
    obtain ⟨hchain, rfl⟩ := writeUint_eq_some.mp hchain'
    obtain ⟨contract, hcontract, rfl⟩ := writeUint256_eq_some.mp hcontract'
    obtain ⟨hrequestId, rfl⟩ := writeUint_eq_some.mp hrequestId'
    obtain ⟨hsignature, rfl⟩ := (writeSignature_eq_some m.signature_eq).mp hsignature'
    refine ⟨{ m with originalContract := .text (uint256ToHex contract.toNat) },
      ⟨hchain, ⟨contract, rfl⟩, hrequestId, hsignature⟩,
      ⟨rfl, rfl, hcontract.trans (Value.uint256_hex contract).symm, rfl, rfl⟩, ?_⟩
    rw [plain, Value.plain_eq (Value.uint256_hex contract)]

end CreationSignMessage

namespace UpgradeSignMessage

variable (blake2b) in
def plain (m : UpgradeSignMessage) : List UInt8 :=
  [bigEndian 1 CrossChainMessageType.upgradeSign.number, bigEndian 1 (if m.isRequest then 1 else 0),
    bigEndian 4 m.proposalId, m.impl.plain blake2b, bigEndian 32 m.nonce,
    plainSignature m.isRequest m.signature].flatten

structure Canonical (m : UpgradeSignMessage) : Prop where
  proposalId : m.proposalId < 256 ^ 4
  impl : m.impl.Hex
  nonce : m.nonce < 256 ^ 32
  signature : m.signature.length < 2 ^ 16

variable (blake2b) in
structure Same (m m' : UpgradeSignMessage) : Prop where
  isRequest : m.isRequest = m'.isRequest
  proposalId : m.proposalId = m'.proposalId
  impl : m.impl.uint256 blake2b = m'.impl.uint256 blake2b
  nonce : m.nonce = m'.nonce
  signature : m.signature = m'.signature

theorem converts :
    Converts deserialize (serialize blake2b) (plain blake2b) Canonical (Same blake2b) where
  inverts := by
    unfold deserialize
    refine .bind (fun _ => ()) (readType_inverts .upgradeSign) (fun _ _ => trivial) fun _ _ => ?_
    refine .bind isRequest readBool_inverts (fun _ _ => trivial) fun isRequest _ => ?_
    refine .bind proposalId (readUint_inverts 4) (fun m h => h.1.1.proposalId)
      fun proposalId hproposal => ?_
    refine .bind impl readHex_inverts (fun m h => h.1.1.1.impl) fun impl himpl => ?_
    refine .bind nonce (readUint_inverts 32) (fun m h => h.1.1.1.1.nonce) fun nonce hnonce => ?_
    refine signed_inverts (fun m h => ?_) (fun m h => ?_) signature_eq (fun s h hlt => ?_)
      fun m h hm => ?_
    · exact h.1.1.1.2
    · exact h.1.1.1.1.1.signature
    · exact ⟨⟨⟨⟨⟨⟨⟨hproposal, himpl, hnonce, hlt⟩, rfl⟩, rfl⟩, rfl⟩, rfl⟩, rfl⟩, rfl⟩
    · obtain ⟨⟨⟨⟨⟨-, -⟩, rfl⟩, rfl⟩, rfl⟩, rfl⟩ := hm
      rfl
  writes m h := by
    obtain ⟨impl, himpl⟩ := h.impl
    refine concat_eq_some.mpr ⟨_, .cons rfl (.cons (writeBool_eq _) (.cons
      (writeUint_eq_some.mpr ⟨h.proposalId, rfl⟩) (.cons
      (writeUint256_plain (himpl ▸ Value.uint256_hex impl)) (.cons
      (writeUint_eq_some.mpr ⟨h.nonce, rfl⟩) (.cons
      ((writeSignature_eq_some m.signature_eq).mpr ⟨h.signature, rfl⟩) .nil))))), rfl⟩
  covers m bytes h := by
    obtain ⟨_, hwritten, rfl⟩ := concat_eq_some.mp h
    obtain - | ⟨htype, - | ⟨hrequest, - | ⟨hproposal', - | ⟨himpl', - | ⟨hnonce', - |
      ⟨hsignature', hnil⟩⟩⟩⟩⟩⟩ := hwritten
    cases htype
    cases hnil
    obtain rfl := Option.some.inj ((writeBool_eq _).symm.trans hrequest)
    obtain ⟨hproposal, rfl⟩ := writeUint_eq_some.mp hproposal'
    obtain ⟨impl, himpl, rfl⟩ := writeUint256_eq_some.mp himpl'
    obtain ⟨hnonce, rfl⟩ := writeUint_eq_some.mp hnonce'
    obtain ⟨hsignature, rfl⟩ := (writeSignature_eq_some m.signature_eq).mp hsignature'
    refine ⟨{ m with impl := .text (uint256ToHex impl.toNat) },
      ⟨hproposal, ⟨impl, rfl⟩, hnonce, hsignature⟩,
      ⟨rfl, rfl, himpl.trans (Value.uint256_hex impl).symm, rfl, rfl⟩, ?_⟩
    rw [plain, Value.plain_eq (Value.uint256_hex impl)]

end UpgradeSignMessage

namespace UpdateTokenVolatileMessage

variable (blake2b) in
def plain (m : UpdateTokenVolatileMessage) : List UInt8 :=
  [bigEndian 1 CrossChainMessageType.updateTokenVolatile.number,
    bigEndian 1 (if m.isRequest then 1 else 0), bigEndian 4 m.proposalId, m.token.plain blake2b,
    bigEndian 1 (if m.volatile then 1 else 0), bigEndian 32 m.nonce,
    plainSignature m.isRequest m.signature].flatten

-- The token is a number, which is not what the class declares.
structure Canonical (m : UpdateTokenVolatileMessage) : Prop where
  proposalId : m.proposalId < 256 ^ 4
  token : m.token.Number
  nonce : m.nonce < 256 ^ 32
  signature : m.signature.length < 2 ^ 16

variable (blake2b) in
structure Same (m m' : UpdateTokenVolatileMessage) : Prop where
  isRequest : m.isRequest = m'.isRequest
  proposalId : m.proposalId = m'.proposalId
  token : m.token.uint256 blake2b = m'.token.uint256 blake2b
  volatile : m.volatile = m'.volatile
  nonce : m.nonce = m'.nonce
  signature : m.signature = m'.signature

theorem converts :
    Converts deserialize (serialize blake2b) (plain blake2b) Canonical (Same blake2b) where
  inverts := by
    unfold deserialize
    refine .bind (fun _ => ()) (readType_inverts .updateTokenVolatile) (fun _ _ => trivial)
      fun _ _ => ?_
    refine .bind isRequest readBool_inverts (fun _ _ => trivial) fun isRequest _ => ?_
    refine .bind proposalId (readUint_inverts 4) (fun m h => h.1.1.proposalId)
      fun proposalId hproposal => ?_
    refine .bind (fun m : UpdateTokenVolatileMessage => (m.token.uint256 blake2b).getD 0)
      readUint256_inverts (fun _ _ => trivial) fun token _ => ?_
    refine .bind volatile readBool_inverts (fun _ _ => trivial) fun volatile _ => ?_
    refine .bind nonce (readUint_inverts 32) (fun m h => h.1.1.1.1.1.nonce) fun nonce hnonce => ?_
    refine signed_inverts (fun m h => ?_) (fun m h => ?_) signature_eq (fun s h hlt => ?_)
      fun m h hm => ?_
    · exact h.1.1.1.1.2
    · exact h.1.1.1.1.1.1.signature
    · refine ⟨⟨⟨⟨⟨⟨⟨⟨hproposal, ⟨token, rfl⟩, hnonce, hlt⟩, rfl⟩, rfl⟩, rfl⟩, ?_⟩, rfl⟩, rfl⟩, rfl⟩
      rw [Value.uint256_number]
      rfl
    · obtain ⟨⟨⟨⟨⟨⟨hm, -⟩, rfl⟩, rfl⟩, htoken⟩, rfl⟩, rfl⟩ := hm
      obtain ⟨u, hu⟩ := hm.token
      rw [hu, Value.uint256_number, Option.getD_some] at htoken
      subst htoken
      obtain ⟨isRequest, proposalId, value, volatile, nonce, signature, heq⟩ := m
      cases hu
      rfl
  writes m h := by
    obtain ⟨token, htoken⟩ := h.token
    refine concat_eq_some.mpr ⟨_, .cons rfl (.cons (writeBool_eq _) (.cons
      (writeUint_eq_some.mpr ⟨h.proposalId, rfl⟩) (.cons
      (writeUint256_plain (htoken ▸ Value.uint256_number token)) (.cons (writeBool_eq _) (.cons
      (writeUint_eq_some.mpr ⟨h.nonce, rfl⟩) (.cons
      ((writeSignature_eq_some m.signature_eq).mpr ⟨h.signature, rfl⟩) .nil)))))), rfl⟩
  covers m bytes h := by
    obtain ⟨_, hwritten, rfl⟩ := concat_eq_some.mp h
    obtain - | ⟨htype, - | ⟨hrequest, - | ⟨hproposal', - | ⟨htoken', - | ⟨hvolatile', - | ⟨hnonce', - |
      ⟨hsignature', hnil⟩⟩⟩⟩⟩⟩⟩ := hwritten
    cases htype
    cases hnil
    obtain rfl := Option.some.inj ((writeBool_eq _).symm.trans hrequest)
    obtain ⟨hproposal, rfl⟩ := writeUint_eq_some.mp hproposal'
    obtain ⟨token, htoken, rfl⟩ := writeUint256_eq_some.mp htoken'
    obtain rfl := Option.some.inj ((writeBool_eq _).symm.trans hvolatile')
    obtain ⟨hnonce, rfl⟩ := writeUint_eq_some.mp hnonce'
    obtain ⟨hsignature, rfl⟩ := (writeSignature_eq_some m.signature_eq).mp hsignature'
    refine ⟨{ m with token := .number token.toNat },
      ⟨hproposal, ⟨token, rfl⟩, hnonce, hsignature⟩,
      ⟨rfl, rfl, htoken.trans (Value.uint256_number token).symm, rfl, rfl, rfl⟩, ?_⟩
    rw [plain, Value.plain_eq (Value.uint256_number token)]

end UpdateTokenVolatileMessage

end Raicoin.Validator
