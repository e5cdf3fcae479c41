import Raicoin.Secure.TokenScans

-- Each key is a number, and each bound the number that a prefix begins or ends at.
namespace Raicoin.Scans

open Lib

section Numbers

theorem fromBigEndian_append (front back : List UInt8) :
    fromBigEndian (front ++ back) =
      fromBigEndian front * 256 ^ back.length + fromBigEndian back := by
  unfold fromBigEndian
  rw [List.map_append, numeralValue, List.foldl_append]
  change numeralValue 256 (numeralValue 256 0 (front.map UInt8.toNat)) (back.map UInt8.toNat) = _
  rw [numeralValue_eq, List.length_map]

theorem fromBigEndian_streamWrite {α : Type} [Wire α] (a : α) :
    fromBigEndian (streamWrite a) = Wire.toNat a :=
  fromBigEndian_bigEndian _ (Wire.toNat_lt a)

theorem keyLe_iff {bytes other : List UInt8} (h : bytes.length = other.length) :
    keyLe bytes other ↔ fromBigEndian bytes ≤ fromBigEndian other :=
  lexLe_iff UInt8.toNat_lt h

theorem fromBigEndian_inj {bytes other : List UInt8} (hlength : bytes.length = other.length)
    (h : fromBigEndian bytes = fromBigEndian other) : bytes = other := by
  rw [← bigEndian_fromBigEndian bytes, ← bigEndian_fromBigEndian other, h, hlength]

end Numbers

namespace KeyTable

variable {κ : Type} [StoreKey κ] (t : KeyTable κ)

def place (key : κ) : Nat := fromBigEndian (StoreKey.serialize key)

theorem place_lt (key : κ) : place key < 256 ^ StoreKey.size κ := by
  rw [← StoreKey.serialize_length key]
  exact fromBigEndian_lt _

def Stored (key : κ) : Prop := StoreKey.serialize key ∈ t.keys

variable {t}

theorem length_of_mem {bytes : List UInt8} (h : bytes ∈ t.keys) :
    bytes.length = StoreKey.size κ := by
  obtain ⟨key, rfl⟩ := t.written bytes h
  exact StoreKey.serialize_length key

variable (t)

theorem pairwise_place :
    (inOrder keyLe t.keys).Pairwise fun a b => fromBigEndian a < fromBigEndian b := by
  have hsorted := pairwise_inOrder keyLe t.keys
  have hnodup := nodup_inOrder keyLe t.keys
  refine (hsorted.and hnodup).imp_of_mem fun {a b} ha hb h => ?_
  have hlength : a.length = b.length :=
    (length_of_mem ((mem_inOrder keyLe).mp ha)).trans (length_of_mem ((mem_inOrder keyLe).mp hb)).symm
  exact Nat.lt_of_le_of_ne ((keyLe_iff hlength).mp h.1) fun heq =>
    h.2 (fromBigEndian_inj hlength heq)

-- The iterator at the first key whose number is not below.
def at_ (number : Nat) : Iterator := entriesFrom fromBigEndian (inOrder keyLe t.keys) number

theorem setRange_eq (key : κ) : t.setRange key = t.at_ (place key) := by
  unfold setRange at_ entriesFrom
  apply List.filter_congr
  intro bytes hbytes
  have hlength : (StoreKey.serialize key).length = bytes.length :=
    (StoreKey.serialize_length key).trans (length_of_mem ((mem_inOrder keyLe).mp hbytes)).symm
  rw [Bool.eq_iff_iff, decide_eq_true_eq]
  exact keyLe_iff hlength

theorem setRange_of {key : κ} {number : Nat} (h : place key = number) :
    t.setRange key = t.at_ number := by
  rw [← h, setRange_eq]

variable {t} {lower upper number : Nat} {P : κ → Prop}

theorem mem_at {bytes : List UInt8} :
    bytes ∈ t.at_ number ↔ bytes ∈ t.keys ∧ number ≤ fromBigEndian bytes := by
  rw [at_, entriesFrom, List.mem_filter, mem_inOrder, decide_eq_true_eq]

-- No key is above the largest.
theorem at_end (h : 256 ^ StoreKey.size κ ≤ number) : t.at_ number = [] := by
  refine List.eq_nil_iff_forall_not_mem.mpr fun bytes hmem => ?_
  obtain ⟨hkey, hle⟩ := mem_at.mp hmem
  have hlt := fromBigEndian_lt bytes
  rw [length_of_mem hkey] at hlt
  omega

variable (t P)

-- What a scan visits is what is stored under the prefix, each key once and in the order of the keys.
def Exact (visits : Option (List (List UInt8))) : Prop :=
  ∃ entries, visits = some entries ∧ entries.Pairwise (fun a b => keyLe a b ∧ a ≠ b) ∧
    ∀ bytes, bytes ∈ entries ↔ bytes ∈ t.keys ∧ ∃ key : κ, StoreKey.serialize key = bytes ∧ P key

variable {t P}

-- Which keys have the prefix can be told from their numbers.
theorem exact_iff (first last : Nat) (hle : lower ≤ upper)
    (hP : ∀ key, P key ↔ first ≤ place key ∧ place key < last) :
    t.Exact P (visited (t.at_ lower) (t.at_ upper)) ↔
      ∀ key, t.Stored key → (lower ≤ place key ∧ place key < upper ↔ P key) := by
  have hvisited := visited_between t.pairwise_place hle
  have hfront (key : κ) (bytes : List UInt8) (heq : StoreKey.serialize key = bytes) :
      (∃ other : κ, StoreKey.serialize other = bytes ∧ P other) ↔ P key := by
    constructor
    · rintro ⟨other, hother, hp⟩
      have hplace : place other = place key := congrArg fromBigEndian (hother.trans heq.symm)
      rw [hP] at hp ⊢
      rwa [← hplace]
    · exact fun hp => ⟨key, heq, hp⟩
  have hmem (bytes : List UInt8) : bytes ∈ ((inOrder keyLe t.keys).filter fun a =>
      lower ≤ fromBigEndian a ∧ fromBigEndian a < upper) ↔
      bytes ∈ t.keys ∧ lower ≤ fromBigEndian bytes ∧ fromBigEndian bytes < upper := by
    rw [List.mem_filter, mem_inOrder, decide_eq_true_eq]
  constructor
  · rintro ⟨entries, hentries, -, hexact⟩ key hstored
    obtain rfl := Option.some.inj (hvisited.symm.trans hentries)
    have h := hexact (StoreKey.serialize key)
    rw [hmem, hfront key _ rfl] at h
    exact ⟨fun hin => (h.mp ⟨hstored, hin⟩).2, fun hp => (h.mpr ⟨hstored, hp⟩).2⟩
  · intro h
    refine ⟨_, hvisited, ?_, fun bytes => ?_⟩
    · exact ((pairwise_inOrder keyLe t.keys).and (nodup_inOrder keyLe t.keys)).filter _
    · rw [hmem]
      apply and_congr_right
      intro hbytes
      obtain ⟨key, rfl⟩ := t.written bytes hbytes
      rw [hfront key _ rfl]
      exact h key hbytes

theorem exact_of_range (hle : lower ≤ upper)
    (hP : ∀ key, P key ↔ lower ≤ place key ∧ place key < upper) :
    t.Exact P (visited (t.at_ lower) (t.at_ upper)) :=
  (exact_iff lower upper hle hP).mpr fun key _ => (hP key).symm

-- A scan whose end is before its beginning visits nothing, or does not come to its end.
theorem exact_wrapped_iff {last : Nat} (hlt : upper < lower) (hle : lower ≤ last)
    (hP : ∀ key, P key ↔ lower ≤ place key ∧ place key < last) :
    t.Exact P (visited (t.at_ lower) (t.at_ upper)) ↔
      ∀ key, t.Stored key → ¬(upper ≤ place key ∧ place key < last) := by
  by_cases hbetween : ∃ key : κ, t.Stored key ∧ upper ≤ place key ∧ place key < lower
  · obtain ⟨key, hstored, hupper, hlower⟩ := hbetween
    refine iff_of_false ?_ fun h => h key hstored ⟨hupper, by omega⟩
    rintro ⟨entries, hentries, -⟩
    have hnever := visited_never t.pairwise_place ((mem_inOrder keyLe).mpr hstored) hupper hlower
    rw [at_, at_, hnever] at hentries
    cases hentries
  · have hsame : t.at_ upper = t.at_ lower := by
      refine List.filter_congr fun bytes hbytes => decide_eq_decide.mpr ?_
      obtain ⟨key, rfl⟩ := t.written bytes ((mem_inOrder keyLe).mp hbytes)
      have hkey : ¬(upper ≤ place key ∧ place key < lower) := fun h =>
        hbetween ⟨key, (mem_inOrder keyLe).mp hbytes, h⟩
      change upper ≤ place key ↔ lower ≤ place key
      omega
    rw [hsame, exact_iff lower last (Nat.le_refl _) hP]
    apply forall_congr'
    intro key
    apply imp_congr_right
    intro hstored
    have hkey : ¬(upper ≤ place key ∧ place key < lower) := fun h => hbetween ⟨key, hstored, h⟩
    rw [hP]
    omega

end KeyTable

section Zeros

theorem zero_byte : (0 : UInt8).toNat = 0 := by decide

theorem zero_chain : Chain.INVALID.toNat = 0 := by decide

theorem zero_union (width : Nat) : (0 : BitVec width).toNat = 0 := by simp

theorem zero_height : (0 : UInt64).toNat = 0 := by decide

theorem complement_max : (~~~MAX_HEIGHT).toNat = 0 := by decide

end Zeros

section Successors

-- What is one more, or zero again.
theorem next_byte (a : UInt8) : a + 1 = 0 ∧ a.toNat + 1 = 256 ∨
    a + 1 ≠ 0 ∧ (a + 1).toNat = a.toNat + 1 := by
  have hlt := a.toNat_lt
  rw [← UInt8.toNat_inj, ne_eq, ← UInt8.toNat_inj, UInt8.toNat_add]
  simp
  omega

theorem next_chain (chain : Chain) : chain + 1 = 0 ∧ chain.toNat + 1 = 256 ^ 4 ∨
    chain + 1 ≠ 0 ∧ (chain + 1).toNat = chain.toNat + 1 := by
  have hlt := chain.toNat_lt
  rw [← UInt32.toNat_inj, ne_eq, ← UInt32.toNat_inj, UInt32.toNat_add]
  simp
  omega

theorem next_union (a : Uint256) : a + 1 = 0 ∧ a.toNat + 1 = 256 ^ 32 ∨
    a + 1 ≠ 0 ∧ (a + 1).toNat = a.toNat + 1 := by
  have hlt := a.isLt
  have hnext : (a + 1).toNat = (a.toNat + 1) % 2 ^ 256 := BitVec.toNat_add a 1
  rw [← BitVec.toNat_inj, ne_eq, ← BitVec.toNat_inj, hnext]
  simp
  omega

end Successors

section Places

open KeyTable

def TokenKey.number (token : TokenKey) : Nat := token.address.toNat * 256 ^ 4 + token.chain.toNat

theorem TokenKey.fromBigEndian_serialize (token : TokenKey) :
    fromBigEndian (TokenKey.serialize token) = TokenKey.number token := by
  rw [TokenKey.serialize, fromBigEndian_append, fromBigEndian_streamWrite,
    fromBigEndian_streamWrite, streamWrite_length]
  rfl

theorem TokenReceivableKey.place_eq (key : TokenReceivableKey) :
    place key = (key.to_.toNat * 256 ^ 36 + TokenKey.number key.token) * 256 ^ 44 +
      (key.chain.toNat * 256 ^ 40 + key.txHash.toNat * 256 ^ 8 + key.index.toNat) := by
  simp only [place, StoreKey.serialize, TokenReceivableKey.serialize, fromBigEndian_append,
    fromBigEndian_streamWrite, TokenKey.fromBigEndian_serialize, List.length_append,
    streamWrite_length, TokenKey.serialize_length, Wire.size, Wire.toNat]
  omega

theorem TokenKey.number_lt (token : TokenKey) : TokenKey.number token < 256 ^ 36 := by
  have haddress := token.address.isLt
  have hchain := token.chain.toNat_lt
  unfold TokenKey.number
  omega

theorem TokenKey.number_inj {token other : TokenKey} :
    token = other ↔ TokenKey.number token = TokenKey.number other := by
  refine ⟨fun h => h ▸ rfl, fun h => ?_⟩
  have hchain := token.chain.toNat_lt
  have hchain' := other.chain.toNat_lt
  unfold TokenKey.number at h
  obtain ⟨chain, address⟩ := token
  obtain ⟨chain', address'⟩ := other
  rw [TokenKey.mk.injEq, ← UInt32.toNat_inj, ← BitVec.toNat_inj]
  dsimp only at *
  omega

theorem TokenMapKey.place_eq (key : TokenMapKey) :
    place key = (key.to_.toNat * 256 ^ 4 + key.chain.toNat) * 256 ^ 16 +
      ((~~~key.height).toNat * 256 ^ 8 + (~~~key.index).toNat) := by
  simp only [place, StoreKey.serialize, TokenMapKey.serialize, fromBigEndian_append,
    fromBigEndian_streamWrite, List.length_append, streamWrite_length, Wire.size, Wire.toNat]
  omega

theorem AccountTokenId.place_eq (key : AccountTokenId) :
    place key = (key.account.toNat * 256 ^ 36 + TokenKey.number key.token) * 256 ^ 32 +
      key.id.toNat := by
  simp only [place, StoreKey.serialize, AccountTokenId.serialize, fromBigEndian_append,
    fromBigEndian_streamWrite, TokenKey.fromBigEndian_serialize, List.length_append,
    streamWrite_length, TokenKey.serialize_length, Wire.size, Wire.toNat]
  omega

theorem TokenIdTransferKey.place_eq (key : TokenIdTransferKey) :
    place key = (TokenKey.number key.token * 256 ^ 32 + key.id.toNat) * 256 ^ 8 +
      key.indexComp.toNat := by
  simp only [place, StoreKey.serialize, TokenIdTransferKey.serialize, fromBigEndian_append,
    fromBigEndian_streamWrite, TokenKey.fromBigEndian_serialize, List.length_append,
    streamWrite_length, Wire.size, Wire.toNat]
  omega

theorem AccountHeight.place_eq (key : AccountHeight) :
    place key = key.account.toNat * 256 ^ 8 + (~~~key.height).toNat := by
  simp only [place, StoreKey.serialize, AccountHeight.serialize, fromBigEndian_append,
    fromBigEndian_streamWrite, streamWrite_length, Wire.size, Wire.toNat]

-- The tokens of a pair and the offered type.
def OrderPair.number (pair : OrderPair) : Nat :=
  (TokenKey.number pair.tokenOffer * 256 + pair.typeOffer.toNat) * 256 ^ 36 +
    TokenKey.number pair.tokenWant

def OrderIndex.tailNumber (key : OrderIndex) : Nat :=
  key.idWant.toNat * 256 ^ 104 + key.rate.toNat * 256 ^ 40 + key.maker.toNat * 256 ^ 8 +
    key.height.toNat

theorem OrderIndex.tailNumber_lt (key : OrderIndex) : key.tailNumber < 256 ^ 136 := by
  have hidWant := key.idWant.isLt
  have hrate := key.rate.isLt
  have hmaker := key.maker.isLt
  have hheight := key.height.toNat_lt
  unfold tailNumber
  omega

theorem OrderIndex.place_eq (key : OrderIndex) :
    place key = ((key.toOrderPair.number * 256 + key.typeWant.toNat) * 256 ^ 32 +
      key.idOffer.toNat) * 256 ^ 136 + key.tailNumber := by
  simp only [place, StoreKey.serialize, OrderIndex.serialize, fromBigEndian_append,
    fromBigEndian_streamWrite, TokenKey.fromBigEndian_serialize, List.length_append,
    streamWrite_length, TokenKey.serialize_length, Wire.size, Wire.toNat, OrderPair.number,
    tailNumber]
  omega

theorem OrderSwapIndex.place_eq (key : OrderSwapIndex) :
    place key = (key.maker.toNat * 256 ^ 8 + key.orderHeight.toNat) * 256 ^ 48 +
      ((~~~key.tradeHeight).toNat * 256 ^ 40 + key.taker.toNat * 256 ^ 8 +
        key.inquiryHeight.toNat) := by
  simp only [place, StoreKey.serialize, OrderSwapIndex.serialize, fromBigEndian_append,
    fromBigEndian_streamWrite, List.length_append, streamWrite_length, Wire.size, Wire.toNat]
  omega

theorem MakerSwapIndex.place_eq (key : MakerSwapIndex) :
    place key = key.maker.toNat * 256 ^ 48 + ((~~~key.tradeHeight).toNat * 256 ^ 40 +
      key.mainAccount.toNat * 256 ^ 8 + key.inquiryAckHeight.toNat) := by
  simp only [place, StoreKey.serialize, MakerSwapIndex.serialize, fromBigEndian_append,
    fromBigEndian_streamWrite, List.length_append, streamWrite_length, Wire.size, Wire.toNat]
  omega

theorem BindingKey.place_eq (key : BindingKey) :
    place key = (key.account.toNat * 256 ^ 4 + key.chain.toNat) * 256 ^ 8 +
      (~~~key.height).toNat := by
  simp only [place, StoreKey.serialize, BindingKey.serialize, fromBigEndian_append,
    fromBigEndian_streamWrite, List.length_append, streamWrite_length, Wire.size, Wire.toNat]
  omega

end Places

namespace TokenTables

variable (t : TokenTables)

theorem tokenReceivableTokenLowerBound_eq (account : Account) (token : TokenKey) :
    t.tokenReceivableTokenLowerBound account token =
      t.tokenReceivable.at_ ((account.toNat * 256 ^ 36 + TokenKey.number token) * 256 ^ 44) := by
  refine KeyTable.setRange_of _ ?_
  rw [TokenReceivableKey.place_eq]
  dsimp only
  rw [zero_chain, zero_union, zero_height]
  omega

theorem tokenReceivableLowerBound_eq (account : Account) :
    t.tokenReceivableLowerBound account = t.tokenReceivable.at_ (account.toNat * 256 ^ 80) := by
  refine KeyTable.setRange_of _ ?_
  rw [TokenReceivableKey.place_eq]
  dsimp only [TokenKey.number]
  rw [zero_chain, zero_union, zero_height]
  omega

theorem tokenReceivableUpperBound_eq (account : Account) :
    t.tokenReceivableUpperBound account =
      t.tokenReceivable.at_ ((account.toNat + 1) * 256 ^ 80) := by
  rw [tokenReceivableUpperBound]
  rcases next_union account with ⟨hzero, htop⟩ | ⟨hne, hnext⟩
  · rw [if_pos hzero, htop, KeyTable.at_end]
    change 256 ^ 112 ≤ _
    omega
  · rw [if_neg hne, tokenReceivableLowerBound_eq, hnext]

-- The carries go from the chain to the address, and from there to the account.
theorem tokenReceivableTokenUpperBound_eq (account : Account) (token : TokenKey) :
    t.tokenReceivableTokenUpperBound account token =
      t.tokenReceivable.at_ ((account.toNat * 256 ^ 36 + TokenKey.number token + 1) * 256 ^ 44) := by
  obtain ⟨chain, address⟩ := token
  unfold tokenReceivableTokenUpperBound
  dsimp only [TokenKey.number]
  rcases next_chain chain with ⟨hchain, hlast⟩ | ⟨hchain, hnext⟩
  · rw [if_neg (not_not_intro hchain), hchain]
    rcases next_union address with ⟨haddress, htop⟩ | ⟨haddress, hnext⟩
    · rw [if_neg (not_not_intro haddress), haddress]
      rcases next_union account with ⟨haccount, hend⟩ | ⟨haccount, hnext⟩
      · rw [if_neg (not_not_intro haccount), KeyTable.at_end]
        change 256 ^ 112 ≤ _
        omega
      · rw [if_pos haccount, tokenReceivableTokenLowerBound_eq, hnext]
        refine congrArg _ ?_
        dsimp only [TokenKey.number]
        rw [zero_union, show (0 : Chain).toNat = 0 from zero_chain]
        omega
    · rw [if_pos haddress, tokenReceivableTokenLowerBound_eq]
      refine congrArg _ ?_
      dsimp only [TokenKey.number]
      rw [hnext, show (0 : Chain).toNat = 0 from zero_chain]
      omega
  · rw [if_pos hchain, tokenReceivableTokenLowerBound_eq]
    refine congrArg _ ?_
    dsimp only [TokenKey.number]
    rw [hnext]
    omega

theorem accountTokenIdLowerBound_eq (account : Account) (key : TokenKey) :
    t.accountTokenIdLowerBound account key =
      t.accountTokenId.at_ ((account.toNat * 256 ^ 36 + TokenKey.number key) * 256 ^ 32) := by
  refine KeyTable.setRange_of _ ?_
  rw [AccountTokenId.place_eq]
  dsimp only
  rw [zero_union]
  omega

theorem accountTokenIdUpperBound_eq (account : Account) (key : TokenKey) :
    t.accountTokenIdUpperBound account key =
      t.accountTokenId.at_ ((account.toNat * 256 ^ 36 + TokenKey.number key + 1) * 256 ^ 32) := by
  obtain ⟨chain, address⟩ := key
  unfold accountTokenIdUpperBound
  dsimp only [TokenKey.number]
  rcases next_chain chain with ⟨hchain, hlast⟩ | ⟨hchain, hnext⟩
  · rw [if_pos hchain, hchain]
    rcases next_union address with ⟨haddress, htop⟩ | ⟨haddress, hnext⟩
    · rw [if_pos haddress, haddress]
      rcases next_union account with ⟨haccount, hend⟩ | ⟨haccount, hnext⟩
      · rw [if_pos haccount, KeyTable.at_end]
        change 256 ^ 100 ≤ _
        omega
      · rw [if_neg haccount, accountTokenIdLowerBound_eq, hnext]
        refine congrArg _ ?_
        dsimp only [TokenKey.number]
        rw [zero_union, show (0 : Chain).toNat = 0 from zero_chain]
        omega
    · rw [if_neg haddress, accountTokenIdLowerBound_eq]
      refine congrArg _ ?_
      dsimp only [TokenKey.number]
      rw [hnext, show (0 : Chain).toNat = 0 from zero_chain]
      omega
  · rw [if_neg hchain, accountTokenIdLowerBound_eq]
    refine congrArg _ ?_
    dsimp only [TokenKey.number]
    rw [hnext]
    omega

theorem tokenIdTransferLowerBound_eq (token : TokenKey) (id : TokenValue) (index : UInt64) :
    t.tokenIdTransferLowerBound token id index = t.tokenIdTransfer.at_
      ((TokenKey.number token * 256 ^ 32 + id.toNat) * 256 ^ 8 + (~~~index).toNat) :=
  KeyTable.setRange_of _ (TokenIdTransferKey.place_eq _)

-- The bound of an id is not the first place of the next one but its last.
theorem tokenIdTransferUpperBound_eq (token : TokenKey) (id : TokenValue) :
    t.tokenIdTransferUpperBound token id 0 = t.tokenIdTransfer.at_
      ((TokenKey.number token * 256 ^ 32 + id.toNat + 1) * 256 ^ 8 + (256 ^ 8 - 1)) := by
  obtain ⟨chain, address⟩ := token
  have hzero : (TokenIdTransferKey.make ⟨chain, address⟩ id 0).indexComp + 1 = 0 :=
    show ~~~(0 : UInt64) + 1 = 0 by decide
  have hlast : (~~~(0 : UInt64)).toNat = 256 ^ 8 - 1 := by decide
  unfold tokenIdTransferUpperBound
  rw [hzero]
  dsimp only [TokenKey.number]
  rw [if_neg (not_not_intro rfl)]
  rcases next_union id with ⟨hid, htop⟩ | ⟨hid, hnext⟩
  · rw [if_neg (not_not_intro hid), hid]
    rcases next_chain chain with ⟨hchain, hcarry⟩ | ⟨hchain, hnext⟩
    · rw [if_neg (not_not_intro hchain), hchain]
      rcases next_union address with ⟨haddress, hend⟩ | ⟨haddress, hnext⟩
      · rw [if_neg (not_not_intro haddress), KeyTable.at_end]
        change 256 ^ 76 ≤ _
        omega
      · rw [if_pos haddress, tokenIdTransferLowerBound_eq]
        refine congrArg _ ?_
        dsimp only [TokenKey.number]
        rw [hlast, hnext, zero_union, show (0 : Chain).toNat = 0 from zero_chain]
        omega
    · rw [if_pos hchain, tokenIdTransferLowerBound_eq]
      refine congrArg _ ?_
      dsimp only [TokenKey.number]
      rw [hlast, hnext, zero_union]
      omega
  · rw [if_pos hid, tokenIdTransferLowerBound_eq]
    refine congrArg _ ?_
    dsimp only [TokenKey.number]
    rw [hlast, hnext]
    omega

theorem orderIndexIdLowerBound_eq (pair : OrderPair) (idOffer : TokenValue) :
    t.orderIndexIdLowerBound pair idOffer = t.orderIndex.at_
      (((pair.number * 256 + pair.typeWant.toNat) * 256 ^ 32 + idOffer.toNat) * 256 ^ 136) := by
  refine KeyTable.setRange_of _ ?_
  rw [OrderIndex.place_eq]
  dsimp only [OrderIndex.tailNumber]
  rw [zero_union, zero_union, zero_height]
  omega

theorem orderIndexLowerBound_eq (pair : OrderPair) :
    t.orderIndexLowerBound pair =
      t.orderIndex.at_ ((pair.number * 256 + pair.typeWant.toNat) * 256 ^ 168) := by
  rw [orderIndexLowerBound, orderIndexIdLowerBound_eq, zero_union]
  refine congrArg _ ?_
  omega

theorem orderIndexUpperBound_eq (pair : OrderPair) :
    t.orderIndexUpperBound pair =
      t.orderIndex.at_ ((pair.number * 256 + (pair.typeWant + 1).toNat) * 256 ^ 168) := by
  rw [orderIndexUpperBound, orderIndexLowerBound_eq]
  rfl

theorem orderSwapIndexLowerBound_eq (maker : Account) (orderHeight tradeHeight : UInt64) :
    t.orderSwapIndexLowerBound maker orderHeight tradeHeight = t.orderSwapIndex.at_
      ((maker.toNat * 256 ^ 8 + orderHeight.toNat) * 256 ^ 48 +
        (~~~tradeHeight).toNat * 256 ^ 40) := by
  refine KeyTable.setRange_of _ ?_
  rw [OrderSwapIndex.place_eq]
  dsimp only
  rw [zero_union, zero_height]
  omega

theorem makerSwapIndexLowerBound_eq (maker : Account) :
    t.makerSwapIndexLowerBound maker MAX_HEIGHT =
      t.makerSwapIndex.at_ (maker.toNat * 256 ^ 48) := by
  refine KeyTable.setRange_of _ ?_
  rw [MakerSwapIndex.place_eq]
  dsimp only
  rw [complement_max, zero_union, zero_height]
  omega

theorem makerSwapIndexUpperBound_eq (maker : Account) :
    t.makerSwapIndexUpperBound maker = t.makerSwapIndex.at_ ((maker.toNat + 1) * 256 ^ 48) := by
  rw [makerSwapIndexUpperBound]
  rcases next_union maker with ⟨hzero, htop⟩ | ⟨hne, hnext⟩
  · rw [if_pos hzero, htop, KeyTable.at_end]
    change 256 ^ 80 ≤ _
    omega
  · rw [if_neg hne, makerSwapIndexLowerBound_eq, hnext]

theorem bindingChainLowerBound_eq (account : Account) (chain : Chain) :
    t.bindingChainLowerBound account chain =
      t.bindingEntries.at_ ((account.toNat * 256 ^ 4 + chain.toNat) * 256 ^ 8) := by
  refine KeyTable.setRange_of _ ?_
  rw [BindingKey.place_eq]
  dsimp only
  rw [complement_max]
  omega

theorem bindingLowerBound_eq (account : Account) :
    t.bindingLowerBound account = t.bindingEntries.at_ (account.toNat * 256 ^ 12) := by
  rw [bindingLowerBound, bindingChainLowerBound_eq, show (0 : Chain).toNat = 0 from zero_chain]
  refine congrArg _ ?_
  omega

theorem bindingChainUpperBound_eq (account : Account) (chain : Chain) :
    t.bindingChainUpperBound account chain =
      t.bindingEntries.at_ ((account.toNat * 256 ^ 4 + chain.toNat + 1) * 256 ^ 8) := by
  unfold bindingChainUpperBound
  dsimp only
  rcases next_chain chain with ⟨hchain, hlast⟩ | ⟨hchain, hnext⟩
  · rw [if_neg (not_not_intro hchain), hchain]
    rcases next_union account with ⟨haccount, htop⟩ | ⟨haccount, hnext⟩
    · rw [if_neg (not_not_intro haccount), KeyTable.at_end]
      change 256 ^ 44 ≤ _
      omega
    · rw [if_pos haccount, bindingChainLowerBound_eq, hnext,
        show (0 : Chain).toNat = 0 from zero_chain]
      refine congrArg _ ?_
      omega
  · rw [if_pos hchain, bindingChainLowerBound_eq, hnext]
    refine congrArg _ ?_
    omega

theorem bindingUpperBound_eq (account : Account) :
    t.bindingUpperBound account = t.bindingEntries.at_ ((account.toNat + 1) * 256 ^ 12) := by
  rw [bindingUpperBound]
  rcases next_union account with ⟨hzero, htop⟩ | ⟨hne, hnext⟩
  · rw [if_pos hzero, htop, KeyTable.at_end]
    change 256 ^ 44 ≤ _
    omega
  · rw [if_neg hne, bindingLowerBound_eq, hnext]

end TokenTables

namespace KeyTable

theorem mapLowerBound_eq (t : KeyTable TokenMapKey) (to_ : Account) (chain : Chain) :
    t.mapLowerBound to_ chain MAX_HEIGHT MAX_HEIGHT =
      t.at_ ((to_.toNat * 256 ^ 4 + chain.toNat) * 256 ^ 16) := by
  refine setRange_of _ ?_
  rw [TokenMapKey.place_eq]
  dsimp only
  rw [complement_max]
  omega

-- Account zero has no bound but for the last chain.
theorem mapUpperBound_eq (t : KeyTable TokenMapKey) (to_ : Account) (chain : Chain) :
    t.mapUpperBound to_ chain = if to_ = 0 ∧ chain + 1 ≠ 0 then []
      else t.at_ ((to_.toNat * 256 ^ 4 + chain.toNat + 1) * 256 ^ 16) := by
  unfold mapUpperBound
  dsimp only
  rcases next_chain chain with ⟨hchain, hlast⟩ | ⟨hchain, hnext⟩
  · have hbound : ¬(to_ = 0 ∧ chain + 1 ≠ 0) := fun h => h.2 hchain
    rw [if_neg hbound, if_pos hchain, hchain]
    rcases next_union to_ with ⟨hzero, htop⟩ | ⟨hne, hnext⟩
    · rw [if_pos hzero, at_end]
      change 256 ^ 52 ≤ _
      omega
    · rw [if_neg hne, mapLowerBound_eq, hnext, show (0 : Chain).toNat = 0 from zero_chain]
      refine congrArg _ ?_
      omega
  · rw [if_neg hchain]
    by_cases hto : to_ = 0
    · rw [if_pos hto, if_pos ⟨hto, hchain⟩]
    · rw [if_neg hto, if_neg fun h => hto h.1, mapLowerBound_eq, hnext]
      refine congrArg _ ?_
      omega

theorem heightLowerBound_eq (t : KeyTable AccountHeight) (account : Account) :
    t.heightLowerBound account MAX_HEIGHT = t.at_ (account.toNat * 256 ^ 8) := by
  refine setRange_of _ ?_
  rw [AccountHeight.place_eq]
  dsimp only
  rw [complement_max]
  omega

theorem heightUpperBound_eq (t : KeyTable AccountHeight) (account : Account) :
    t.heightUpperBound account = t.at_ ((account.toNat + 1) * 256 ^ 8) := by
  rw [heightUpperBound]
  rcases next_union account with ⟨hzero, htop⟩ | ⟨hne, hnext⟩
  · rw [if_pos hzero, htop, at_end]
    change 256 ^ 40 ≤ _
    omega
  · rw [if_neg hne, heightLowerBound_eq, hnext]

end KeyTable

end Raicoin.Scans
