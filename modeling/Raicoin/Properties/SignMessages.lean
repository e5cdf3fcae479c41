import Raicoin.Validator.MessagesSpec

-- The codec of the messages between bridge validators.
namespace Raicoin.Validator

open Lib

namespace CrossChainMessage

variable (blake2b : List UInt8 → BitVec 40)

-- The fields of the two messages have the same values.
inductive Same : CrossChainMessage → CrossChainMessage → Prop where
  | weightSign {m m' : WeightSignMessage} (h : m.Same blake2b m') :
      Same (.weightSign m) (.weightSign m')
  | transferSign {m m' : TransferSignMessage} (h : m.Same blake2b m') :
      Same (.transferSign m) (.transferSign m')
  | creationSign {m m' : CreationSignMessage} (h : m.Same blake2b m') :
      Same (.creationSign m) (.creationSign m')
  | upgradeSign {m m' : UpgradeSignMessage} (h : m.Same blake2b m') :
      Same (.upgradeSign m) (.upgradeSign m')
  | updateTokenVolatile {m m' : UpdateTokenVolatileMessage} (h : m.Same blake2b m') :
      Same (.updateTokenVolatile m) (.updateTokenVolatile m')

-- The fields have the types that their classes declare: `str` for accounts and addresses.
-- The account of a transfer is a text that begins with `rai_`, the others are hexadecimal.
def Typed : CrossChainMessage → Prop
  | .weightSign m => m.validator.Hex ∧ m.signer.Hex
  | .transferSign m => m.account.Account blake2b
  | .creationSign m => m.originalContract.Hex
  | .upgradeSign m => m.impl.Hex
  | .updateTokenVolatile m => m.token.Hex

-- The message is read back from its bytes, all of which are consumed.
def RoundTrips (m : CrossChainMessage) (bytes : List UInt8) : Prop :=
  ∃ m', deserialize blake2b m.type bytes = .ok m' [] ∧ Same blake2b m m' ∧ m'.Typed blake2b

variable {blake2b}

private theorem deserialize_of {α : Type} {read : Reader UInt8 Unit α} {f : α → CrossChainMessage}
    {s rest : List UInt8} {m : α} (h : read s = .ok m rest) :
    (do let m ← read; return f m : Reader UInt8 Unit CrossChainMessage) s = .ok (f m) rest := by
  rw [Process.bind_of_ok h]
  rfl

private theorem deserialize_error {α : Type} {read : Reader UInt8 Unit α}
    {f : α → CrossChainMessage} {s : List UInt8} (h : ∃ code rest, read s = .error code rest) :
    ∃ rest, (do let m ← read; return f m : Reader UInt8 Unit CrossChainMessage) s =
      .error () rest := by
  obtain ⟨code, rest, h⟩ := h
  exact ⟨rest, Process.bind_of_error h _⟩

theorem roundTrips_of_ne {m : CrossChainMessage} {bytes : List UInt8}
    (hwrite : m.serialize blake2b = some bytes) (hne : m.type ≠ .updateTokenVolatile) :
    m.RoundTrips blake2b bytes := by
  cases m with
  | weightSign m =>
      obtain ⟨m', hread, hsame, hcanonical⟩ := WeightSignMessage.converts.reads hwrite
      exact ⟨.weightSign m', deserialize_of hread, .weightSign hsame, hcanonical.validator,
        hcanonical.signer⟩
  | transferSign m =>
      obtain ⟨m', hread, hsame, hcanonical⟩ := TransferSignMessage.converts.reads hwrite
      exact ⟨.transferSign m', deserialize_of hread, .transferSign hsame, hcanonical.account⟩
  | creationSign m =>
      obtain ⟨m', hread, hsame, hcanonical⟩ := CreationSignMessage.converts.reads hwrite
      exact ⟨.creationSign m', deserialize_of hread, .creationSign hsame,
        hcanonical.originalContract⟩
  | upgradeSign m =>
      obtain ⟨m', hread, hsame, hcanonical⟩ := UpgradeSignMessage.converts.reads hwrite
      exact ⟨.upgradeSign m', deserialize_of hread, .upgradeSign hsame, hcanonical.impl⟩
  | updateTokenVolatile m => exact absurd rfl hne

-- The token of a message that was read is never a text.
theorem updateTokenVolatile_untyped {m : UpdateTokenVolatileMessage} {bytes : List UInt8} :
    ¬(updateTokenVolatile m).RoundTrips blake2b bytes := by
  rintro ⟨m', hread, -, htyped⟩
  obtain ⟨read, _, hfirst, hread⟩ := (Process.bind_eq_ok _ _ _ _ _).mp hread
  obtain ⟨rfl, rfl⟩ := (Process.pure_eq_ok _ _ _ _).mp hread
  obtain ⟨u, hu⟩ := (@UpdateTokenVolatileMessage.converts blake2b).canonical_of_read hfirst
    |>.token
  obtain ⟨u', hu'⟩ := htyped
  rw [hu] at hu'
  cases hu'

theorem serialize_short {m : CrossChainMessage} {front back : List UInt8}
    (hwrite : m.serialize blake2b = some (front ++ back)) (hback : back ≠ []) :
    ∃ rest, deserialize blake2b m.type front = .error () rest := by
  cases m with
  | weightSign m => exact deserialize_error (WeightSignMessage.converts.short_fails hwrite hback)
  | transferSign m => exact deserialize_error (TransferSignMessage.converts.short_fails hwrite hback)
  | creationSign m => exact deserialize_error (CreationSignMessage.converts.short_fails hwrite hback)
  | upgradeSign m => exact deserialize_error (UpgradeSignMessage.converts.short_fails hwrite hback)
  | updateTokenVolatile m =>
      exact deserialize_error (UpdateTokenVolatileMessage.converts.short_fails hwrite hback)

theorem serialize_deserialize {type : CrossChainMessageType} {m : CrossChainMessage}
    {s rest : List UInt8} (hread : deserialize blake2b type s = .ok m rest) :
    ∃ bytes, m.serialize blake2b = some bytes ∧ s = bytes ++ rest := by
  cases type with
  | weightSign =>
      obtain ⟨m, _, hfirst, hread⟩ := (Process.bind_eq_ok _ _ _ _ _).mp hread
      obtain ⟨rfl, rfl⟩ := (Process.pure_eq_ok _ _ _ _).mp hread
      exact WeightSignMessage.converts.rewrites hfirst
  | transferSign =>
      obtain ⟨m, _, hfirst, hread⟩ := (Process.bind_eq_ok _ _ _ _ _).mp hread
      obtain ⟨rfl, rfl⟩ := (Process.pure_eq_ok _ _ _ _).mp hread
      exact TransferSignMessage.converts.rewrites hfirst
  | creationSign =>
      obtain ⟨m, _, hfirst, hread⟩ := (Process.bind_eq_ok _ _ _ _ _).mp hread
      obtain ⟨rfl, rfl⟩ := (Process.pure_eq_ok _ _ _ _).mp hread
      exact CreationSignMessage.converts.rewrites hfirst
  | upgradeSign =>
      obtain ⟨m, _, hfirst, hread⟩ := (Process.bind_eq_ok _ _ _ _ _).mp hread
      obtain ⟨rfl, rfl⟩ := (Process.pure_eq_ok _ _ _ _).mp hread
      exact UpgradeSignMessage.converts.rewrites hfirst
  | updateTokenVolatile =>
      obtain ⟨m, _, hfirst, hread⟩ := (Process.bind_eq_ok _ _ _ _ _).mp hread
      obtain ⟨rfl, rfl⟩ := (Process.pure_eq_ok _ _ _ _).mp hread
      exact UpdateTokenVolatileMessage.converts.rewrites hfirst

end CrossChainMessage

-- A message that can be written is read back, with the values and the types that it has,
-- exactly if it does not update a token's volatility; nothing shorter is accepted, and what
-- is accepted was written so.
theorem cross_chain_message_codec (blake2b : List UInt8 → BitVec 40) :
    (∀ (m : CrossChainMessage) (bytes : List UInt8), m.serialize blake2b = some bytes →
      (m.RoundTrips blake2b bytes ↔ m.type ≠ .updateTokenVolatile)) ∧
    (∀ (m : CrossChainMessage) (front back : List UInt8),
      m.serialize blake2b = some (front ++ back) → back ≠ [] →
      ∃ rest, CrossChainMessage.deserialize blake2b m.type front = .error () rest) ∧
    (∀ (type : CrossChainMessageType) (m : CrossChainMessage) (s rest : List UInt8),
      CrossChainMessage.deserialize blake2b type s = .ok m rest →
      ∃ bytes, m.serialize blake2b = some bytes ∧ s = bytes ++ rest) := by
  refine ⟨fun m bytes hwrite => ⟨fun h heq => ?_, CrossChainMessage.roundTrips_of_ne hwrite⟩,
    fun m front back => CrossChainMessage.serialize_short,
    fun type m s rest => CrossChainMessage.serialize_deserialize⟩
  cases m with
  | updateTokenVolatile m => exact CrossChainMessage.updateTokenVolatile_untyped h
  | weightSign m => cases heq
  | transferSign m => cases heq
  | creationSign m => cases heq
  | upgradeSign m => cases heq

-- A request about the token at address 7.
def sampleVolatile : UpdateTokenVolatileMessage :=
  ⟨true, 1, .text (uint256ToHex 7), true, 0, [], fun _ => rfl⟩

def sampleVolatileBytes : List UInt8 :=
  [5, 1] ++ bigEndian 4 1 ++ bigEndian 32 7 ++ [1] ++ bigEndian 32 0

-- It is read back with the number 7 as its token.
theorem token_read_as_number :
    sampleVolatile.serialize (fun _ => 0) = some sampleVolatileBytes ∧
      UpdateTokenVolatileMessage.deserialize sampleVolatileBytes =
        .ok { sampleVolatile with token := .number 7 } [] ∧
      sampleVolatile.token.Hex ∧
      ¬(CrossChainMessage.updateTokenVolatile sampleVolatile).RoundTrips (fun _ => 0)
        sampleVolatileBytes :=
  ⟨by decide, rfl, ⟨7, rfl⟩, CrossChainMessage.updateTokenVolatile_untyped⟩

end Raicoin.Validator
