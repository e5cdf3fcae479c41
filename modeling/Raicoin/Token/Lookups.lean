import Raicoin.Secure.TokenScansSpec
import Raicoin.Token.Ledger

-- The owner of an id, as it is told from the log of its transfers, and the largest id of a token.
namespace Raicoin

open Lib Scans

section Order

-- The token and the id at the front of a key.
def TokenIdTransferKey.front (key : TokenIdTransferKey) : Nat :=
  TokenKey.number key.token * 256 ^ 32 + key.id.toNat

-- The order of the keys of `token_id_transfer`, whose indexes are written complemented.
def transferBefore (a b : TokenIdTransferKey) : Prop :=
  a.front < b.front ∨ a.front = b.front ∧ b.index ≤ a.index

instance : DecidableRel transferBefore := fun a b =>
  inferInstanceAs (Decidable (a.front < b.front ∨ a.front = b.front ∧ b.index ≤ a.index))

theorem TokenIdTransferKey.front_inj {a b : TokenIdTransferKey} :
    a.front = b.front ↔ a.token = b.token ∧ a.id = b.id := by
  have ha := a.id.isLt
  have hb := b.id.isLt
  unfold front
  rw [TokenKey.number_inj, ← BitVec.toNat_inj]
  omega

instance : IsTrans TokenIdTransferKey transferBefore where
  trans a b c hab hbc := by
    unfold transferBefore at *
    omega

instance : Std.Antisymm transferBefore where
  antisymm a b hab hba := by
    have hfront : a.front = b.front := by
      unfold transferBefore at *
      omega
    have hindex : a.index = b.index := by
      unfold transferBefore at *
      omega
    obtain ⟨htoken, hid⟩ := TokenIdTransferKey.front_inj.mp hfront
    obtain ⟨token, id, index⟩ := a
    cases htoken
    cases hid
    cases hindex
    rfl

instance : Std.Total transferBefore where
  total a b := by
    unfold transferBefore
    omega

-- The key as it is written: the index has eight bytes there.
def TokenIdTransferKey.written (key : TokenIdTransferKey) : Scans.TokenIdTransferKey :=
  .make key.token key.id (UInt64.ofNat key.index)

theorem TokenIdTransferKey.written_place {key : TokenIdTransferKey} (hfits : key.index < 2 ^ 64) :
    KeyTable.place key.written = key.front * 256 ^ 8 + (2 ^ 64 - 1 - key.index) := by
  have hindex : (~~~UInt64.ofNat key.index).toNat = 2 ^ 64 - 1 - key.index := by
    rw [UInt64.toNat_not, UInt64.toNat_ofNat']
    change 2 ^ 64 - 1 - key.index % 2 ^ 64 = _
    rw [Nat.mod_eq_of_lt hfits]
  rw [Scans.TokenIdTransferKey.place_eq]
  dsimp only [written, TokenIdTransferKey.make]
  rw [hindex]
  rfl

-- LMDB compares the bytes of the keys.
theorem transferBefore_iff {a b : TokenIdTransferKey} (ha : a.index < 2 ^ 64)
    (hb : b.index < 2 ^ 64) : transferBefore a b ↔
      keyLe (StoreKey.serialize a.written) (StoreKey.serialize b.written) := by
  have hlength : (StoreKey.serialize a.written).length = (StoreKey.serialize b.written).length :=
    (StoreKey.serialize_length _).trans (StoreKey.serialize_length _).symm
  rw [keyLe_iff hlength]
  change _ ↔ KeyTable.place a.written ≤ KeyTable.place b.written
  rw [TokenIdTransferKey.written_place ha, TokenIdTransferKey.written_place hb]
  unfold transferBefore
  omega

end Order

structure TokenIdKey where
  token : TokenKey
  id : TokenValue
  deriving DecidableEq

def TokenIdKey.serialize (key : TokenIdKey) : List UInt8 :=
  TokenKey.serialize key.token ++ streamWrite (~~~key.id)

def TokenIdKey.deserialize : StreamM TokenIdKey := do
  let token ← TokenKey.deserialize
  let id : TokenValue ← streamRead
  return ⟨token, ~~~id⟩

instance : StoreKey TokenIdKey where
  serialize := TokenIdKey.serialize
  size := 68
  serialize_length key := by simp [TokenIdKey.serialize, Wire.size]

namespace TokenLedger

variable (l : TokenLedger)

-- `TokenIdTransferLowerBound`: `none` is the largest number there is, which no index is above.
def tokenIdTransferLowerBound (token : TokenKey) (id : TokenValue) (index : Option Nat) :
    List TokenIdTransferKey :=
  (inOrder transferBefore l.idTransfers.keys).filter fun key =>
    match index with
    | none => TokenIdTransferKey.front ⟨token, id, 0⟩ ≤ key.front
    | some index => transferBefore ⟨token, id, index⟩ key

-- `TokenIdTransferUpperBound`: it counts the complement of the index up, and hands it on as an
-- index that is to be complemented.
def tokenIdTransferUpperBound (token : TokenKey) (id : TokenValue) (index : Nat) :
    List TokenIdTransferKey :=
  if index ≠ 0 then l.tokenIdTransferLowerBound token id (some (2 ^ 64 - index))
  else
    let id := id + 1
    if id ≠ 0 then l.tokenIdTransferLowerBound token id (some 0)
    else
      let chain := token.chain + 1
      if chain ≠ 0 then l.tokenIdTransferLowerBound ⟨chain, token.address⟩ id (some 0)
      else
        let address := token.address + 1
        if address ≠ 0 then l.tokenIdTransferLowerBound ⟨chain, address⟩ id (some 0) else []

-- `Token::GetTokenIdOwner`. Two iterators are equal if they are at one entry or both at the end.
def getTokenIdOwner (token : TokenKey) (id : TokenValue) : Account :=
  let i := (l.tokenIdTransferLowerBound token id none).head?
  let n := (l.tokenIdTransferUpperBound token id 0).head?
  if i = n then 0
  else
    match i.bind l.idTransfers.get with
    | none => 0
    | some (owner, _) => if l.accountTokenIds.contains ⟨owner, token, id⟩ then owner else 0

-- The keys of `token_id_info` as they are written.
def tokenIdTable : KeyTable TokenIdKey where
  keys := l.tokenIds.keys.image fun key => TokenIdKey.serialize ⟨key.1, key.2⟩
  written bytes h := by
    obtain ⟨key, -, rfl⟩ := Finset.mem_image.mp h
    exact ⟨⟨key.1, key.2⟩, rfl⟩

-- `Ledger::MaxTokenIdGet`, which looks for the zero where an id is written complemented.
def maxTokenIdGet (token : TokenKey) : Option TokenValue := do
  let bytes ← (l.tokenIdTable.setRange ⟨token, ~~~0⟩).head?
  let found ← ByteTables.parse TokenIdKey.deserialize bytes
  if found.token ≠ token then none else some found.id

end TokenLedger

end Raicoin
