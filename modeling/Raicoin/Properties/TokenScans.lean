import Raicoin.Secure.TokenScansSpec

-- Which scans of a prefix visit what is stored under it.
namespace Raicoin.Scans

open Lib KeyTable

inductive TokenScan where
  | tokenReceivable (account : Account)
  | tokenReceivableToken (account : Account) (token : TokenKey)
  | accountTokenId (account : Account) (token : TokenKey)
  | tokenMapInfo (to_ : Account) (chain : Chain)
  | tokenUnwrapInfo (to_ : Account) (chain : Chain)
  | orderInfo (account : Account)
  | swapInfo (account : Account)
  | tokenIdTransfer (token : TokenKey) (id : TokenValue)
  | orderIndex (pair : OrderPair)
  | orderIndexId (pair : OrderPair) (idOffer : TokenValue)
  | orderSwapIndex (maker : Account) (orderHeight : UInt64)
  | makerSwapIndex (maker : Account)
  | binding (account : Account)
  | bindingChain (account : Account) (chain : Chain)

-- From the lower bound up to the upper bound, the scan visits the entries of the prefix.
def TokenScan.Exact (t : TokenTables) : TokenScan → Prop
  | .tokenReceivable account => t.tokenReceivable.Exact (fun key => key.to_ = account)
      (visited (t.tokenReceivableLowerBound account) (t.tokenReceivableUpperBound account))
  | .tokenReceivableToken account token =>
      t.tokenReceivable.Exact (fun key => key.to_ = account ∧ key.token = token)
        (visited (t.tokenReceivableTokenLowerBound account token)
          (t.tokenReceivableTokenUpperBound account token))
  | .accountTokenId account token =>
      t.accountTokenId.Exact (fun key => key.account = account ∧ key.token = token)
        (visited (t.accountTokenIdLowerBound account token)
          (t.accountTokenIdUpperBound account token))
  | .tokenMapInfo to_ chain => t.tokenMap.Exact (fun key => key.to_ = to_ ∧ key.chain = chain)
      (visited (t.tokenMapInfoLowerBound to_ chain) (t.tokenMapInfoUpperBound to_ chain))
  | .tokenUnwrapInfo to_ chain => t.tokenUnwrap.Exact (fun key => key.to_ = to_ ∧ key.chain = chain)
      (visited (t.tokenUnwrapInfoLowerBound to_ chain) (t.tokenUnwrapInfoUpperBound to_ chain))
  | .orderInfo account => t.orderInfo.Exact (fun key => key.account = account)
      (visited (t.orderInfoLowerBound account) (t.orderInfoUpperBound account))
  | .swapInfo account => t.swapInfo.Exact (fun key => key.account = account)
      (visited (t.swapInfoLowerBound account) (t.swapInfoUpperBound account))
  | .tokenIdTransfer token id =>
      t.tokenIdTransfer.Exact (fun key => key.token = token ∧ key.id = id)
        (visited (t.tokenIdTransferLowerBound token id MAX_HEIGHT)
          (t.tokenIdTransferUpperBound token id 0))
  | .orderIndex pair => t.orderIndex.Exact (fun key => key.toOrderPair = pair)
      (visited (t.orderIndexLowerBound pair) (t.orderIndexUpperBound pair))
  | .orderIndexId pair idOffer =>
      t.orderIndex.Exact (fun key => key.toOrderPair = pair ∧ key.idOffer = idOffer)
        (visited (t.orderIndexIdLowerBound pair idOffer) (t.orderIndexIdUpperBound pair idOffer))
  | .orderSwapIndex maker orderHeight =>
      t.orderSwapIndex.Exact (fun key => key.maker = maker ∧ key.orderHeight = orderHeight)
        (visited (t.orderSwapIndexLowerBound maker orderHeight MAX_HEIGHT)
          (t.orderSwapIndexUpperBound maker orderHeight))
  | .makerSwapIndex maker => t.makerSwapIndex.Exact (fun key => key.maker = maker)
      (visited (t.makerSwapIndexLowerBound maker MAX_HEIGHT) (t.makerSwapIndexUpperBound maker))
  | .binding account => t.bindingEntries.Exact (fun key => key.account = account)
      (visited (t.bindingLowerBound account) (t.bindingUpperBound account))
  | .bindingChain account chain =>
      t.bindingEntries.Exact (fun key => key.account = account ∧ key.chain = chain)
        (visited (t.bindingChainLowerBound account chain) (t.bindingChainUpperBound account chain))

-- Account zero is without a bound, so nothing may follow.
def MapClear (t : KeyTable TokenMapKey) (to_ : Account) (chain : Chain) : Prop :=
  to_ = 0 ∧ chain + 1 ≠ 0 → ∀ key, t.Stored key → key.to_ = 0 ∧ key.chain ≤ chain

-- The bound of the last type is below its own prefix.
def PairClear (t : KeyTable OrderIndex) (pair : OrderPair) : Prop :=
  ∀ key, t.Stored key → ¬(key.tokenOffer = pair.tokenOffer ∧ key.typeOffer = pair.typeOffer ∧
    key.tokenWant = pair.tokenWant)

-- The place of an id of a token among all ids.
def idNumber (token : TokenKey) (id : TokenValue) : Nat := TokenKey.number token * 256 ^ 32 + id.toNat

-- When that is so.
def TokenScan.Clear (t : TokenTables) : TokenScan → Prop
  | .tokenMapInfo to_ chain => MapClear t.tokenMap to_ chain
  | .tokenUnwrapInfo to_ chain => MapClear t.tokenUnwrap to_ chain
  | .tokenIdTransfer token id => ∀ key, t.tokenIdTransfer.Stored key →
      idNumber key.token key.id = idNumber token id + 1 → key.indexComp = ~~~0
  | .orderIndex pair => pair.typeWant + 1 = 0 → PairClear t.orderIndex pair
  | .orderIndexId pair idOffer =>
      pair.typeWant + 1 = 0 ∧ idOffer + 1 = 0 → PairClear t.orderIndex pair
  | .orderSwapIndex maker orderHeight => ∀ key, t.orderSwapIndex.Stored key →
      key.maker = maker ∧ key.orderHeight = orderHeight → key.tradeHeight ≠ 0
  | _ => True

variable (t : TokenTables)

section Receivables

theorem to_iff (key : TokenReceivableKey) (account : Account) : key.to_ = account ↔
    account.toNat * 256 ^ 80 ≤ place key ∧ place key < (account.toNat + 1) * 256 ^ 80 := by
  have htoken := TokenKey.number_lt key.token
  have hchain := key.chain.toNat_lt
  have hhash := key.txHash.isLt
  have hindex := key.index.toNat_lt
  rw [TokenReceivableKey.place_eq, ← BitVec.toNat_inj]
  omega

theorem to_token_iff (key : TokenReceivableKey) (account : Account) (token : TokenKey) :
    key.to_ = account ∧ key.token = token ↔
      (account.toNat * 256 ^ 36 + TokenKey.number token) * 256 ^ 44 ≤ place key ∧
        place key < (account.toNat * 256 ^ 36 + TokenKey.number token + 1) * 256 ^ 44 := by
  have htoken := TokenKey.number_lt key.token
  have htoken' := TokenKey.number_lt token
  have hchain := key.chain.toNat_lt
  have hhash := key.txHash.isLt
  have hindex := key.index.toNat_lt
  rw [TokenReceivableKey.place_eq, ← BitVec.toNat_inj, TokenKey.number_inj]
  omega

theorem tokenReceivable_exact (account : Account) : (TokenScan.tokenReceivable account).Exact t := by
  rw [TokenScan.Exact, TokenTables.tokenReceivableLowerBound_eq,
    TokenTables.tokenReceivableUpperBound_eq]
  exact exact_of_range (by omega) fun key => to_iff key account

theorem tokenReceivableToken_exact (account : Account) (token : TokenKey) :
    (TokenScan.tokenReceivableToken account token).Exact t := by
  rw [TokenScan.Exact, TokenTables.tokenReceivableTokenLowerBound_eq,
    TokenTables.tokenReceivableTokenUpperBound_eq]
  exact exact_of_range (by omega) fun key => to_token_iff key account token

end Receivables

theorem accountTokenId_exact (account : Account) (token : TokenKey) :
    (TokenScan.accountTokenId account token).Exact t := by
  rw [TokenScan.Exact, TokenTables.accountTokenIdLowerBound_eq,
    TokenTables.accountTokenIdUpperBound_eq]
  refine exact_of_range (by omega) fun key => ?_
  have hnumber := TokenKey.number_lt key.token
  have hnumber' := TokenKey.number_lt token
  have hid := key.id.isLt
  rw [AccountTokenId.place_eq, ← BitVec.toNat_inj, TokenKey.number_inj]
  omega

section Maps

theorem to_chain_iff (key : TokenMapKey) (to_ : Account) (chain : Chain) :
    key.to_ = to_ ∧ key.chain = chain ↔
      (to_.toNat * 256 ^ 4 + chain.toNat) * 256 ^ 16 ≤ place key ∧
        place key < (to_.toNat * 256 ^ 4 + chain.toNat + 1) * 256 ^ 16 := by
  have hchain := key.chain.toNat_lt
  have hchain' := chain.toNat_lt
  have hheight := (~~~key.height).toNat_lt
  have hindex := (~~~key.index).toNat_lt
  rw [TokenMapKey.place_eq, ← BitVec.toNat_inj, ← UInt32.toNat_inj]
  omega

theorem map_exact_iff (t : KeyTable TokenMapKey) (to_ : Account) (chain : Chain) :
    t.Exact (fun key => key.to_ = to_ ∧ key.chain = chain)
      (visited (t.mapLowerBound to_ chain MAX_HEIGHT MAX_HEIGHT) (t.mapUpperBound to_ chain)) ↔
        MapClear t to_ chain := by
  rw [mapLowerBound_eq, mapUpperBound_eq]
  by_cases hopen : to_ = 0 ∧ chain + 1 ≠ 0
  · obtain ⟨rfl, hnext⟩ := hopen
    have hchain := chain.toNat_lt
    have hend : t.at_ (256 ^ 52) = [] := at_end (by change 256 ^ 52 ≤ _; omega)
    rw [if_pos ⟨rfl, hnext⟩, ← hend, exact_iff _ _ (by rw [zero_union]; omega)
      fun key => to_chain_iff key 0 chain]
    have hplace (key : TokenMapKey) : ((0 : Account).toNat * 256 ^ 4 + chain.toNat) * 256 ^ 16 ≤
        place key ∧ place key < 256 ^ 52 ↔ ¬(key.to_ = 0 ∧ key.chain < chain) := by
      have hlt : place key < 256 ^ 52 := place_lt key
      have hchain' := key.chain.toNat_lt
      have hheight := (~~~key.height).toNat_lt
      have hindex := (~~~key.index).toNat_lt
      rw [TokenMapKey.place_eq] at hlt ⊢
      rw [← BitVec.toNat_inj, UInt32.lt_iff_toNat_lt, zero_union]
      omega
    constructor
    · intro h _ key hstored
      have hkey := h key hstored
      rw [hplace] at hkey
      by_cases hbelow : key.to_ = 0 ∧ key.chain < chain
      · exact ⟨hbelow.1, UInt32.le_of_lt hbelow.2⟩
      · obtain ⟨hto, heq⟩ := hkey.mp hbelow
        exact ⟨hto, heq ▸ UInt32.le_refl _⟩
    · intro h key hstored
      obtain ⟨hto, hle⟩ := h ⟨rfl, hnext⟩ key hstored
      rw [hplace]
      simp only [hto, true_and]
      rw [UInt32.lt_iff_toNat_lt, ← UInt32.toNat_inj]
      rw [UInt32.le_iff_toNat_le] at hle
      omega
  · rw [if_neg hopen]
    refine iff_of_true ?_ fun h => absurd h hopen
    exact exact_of_range (by omega) fun key => to_chain_iff key to_ chain

end Maps

section Heights

theorem height_exact (t : KeyTable AccountHeight) (account : Account) :
    t.Exact (fun key => key.account = account)
      (visited (t.heightLowerBound account MAX_HEIGHT) (t.heightUpperBound account)) := by
  rw [heightLowerBound_eq, heightUpperBound_eq]
  refine exact_of_range (by omega) fun key => ?_
  have hheight := (~~~key.height).toNat_lt
  rw [AccountHeight.place_eq, ← BitVec.toNat_inj]
  omega

end Heights

theorem tokenIdTransfer_exact_iff (token : TokenKey) (id : TokenValue) :
    (TokenScan.tokenIdTransfer token id).Exact t ↔ (TokenScan.tokenIdTransfer token id).Clear t := by
  have hid := id.isLt
  rw [TokenScan.Exact, TokenTables.tokenIdTransferLowerBound_eq,
    TokenTables.tokenIdTransferUpperBound_eq, complement_max,
    exact_iff ((TokenKey.number token * 256 ^ 32 + id.toNat) * 256 ^ 8)
      ((TokenKey.number token * 256 ^ 32 + id.toNat + 1) * 256 ^ 8) (by omega)]
  · apply forall_congr'
    intro key
    have hid' := key.id.isLt
    have hindex := key.indexComp.toNat_lt
    have hlast : (~~~(0 : UInt64)).toNat = 256 ^ 8 - 1 := by decide
    rw [TokenIdTransferKey.place_eq, ← UInt64.toNat_inj, hlast, ← BitVec.toNat_inj,
      TokenKey.number_inj, idNumber, idNumber]
    apply imp_congr_right
    intro _
    omega
  · intro key
    have hid' := key.id.isLt
    have hindex := key.indexComp.toNat_lt
    rw [TokenIdTransferKey.place_eq, ← BitVec.toNat_inj, TokenKey.number_inj]
    omega

section Orders

theorem OrderPair.number_inj (pair other : OrderPair) :
    pair.number = other.number ↔ pair.tokenOffer = other.tokenOffer ∧
      pair.typeOffer = other.typeOffer ∧ pair.tokenWant = other.tokenWant := by
  have hoffer := pair.typeOffer.toNat_lt
  have hoffer' := other.typeOffer.toNat_lt
  have hwant := TokenKey.number_lt pair.tokenWant
  have hwant' := TokenKey.number_lt other.tokenWant
  rw [TokenKey.number_inj, TokenKey.number_inj, ← UInt8.toNat_inj, number, number]
  omega

theorem OrderPair.eq_iff (pair other : OrderPair) :
    pair = other ↔ pair.number * 256 + pair.typeWant.toNat =
      other.number * 256 + other.typeWant.toNat := by
  have hwant := pair.typeWant.toNat_lt
  have hwant' := other.typeWant.toNat_lt
  have hparts : pair.number * 256 + pair.typeWant.toNat =
      other.number * 256 + other.typeWant.toNat ↔
      pair.number = other.number ∧ pair.typeWant = other.typeWant := by
    rw [← UInt8.toNat_inj]
    omega
  rw [hparts, number_inj]
  obtain ⟨tokenOffer, typeOffer, tokenWant, typeWant⟩ := pair
  obtain ⟨tokenOffer', typeOffer', tokenWant', typeWant'⟩ := other
  rw [OrderPair.mk.injEq, and_assoc, and_assoc]

theorem pair_iff (key : OrderIndex) (pair : OrderPair) : key.toOrderPair = pair ↔
    (pair.number * 256 + pair.typeWant.toNat) * 256 ^ 168 ≤ place key ∧
      place key < (pair.number * 256 + pair.typeWant.toNat + 1) * 256 ^ 168 := by
  have hid := key.idOffer.isLt
  have htail := key.tailNumber_lt
  rw [OrderIndex.place_eq, OrderPair.eq_iff]
  omega

theorem pair_id_iff (key : OrderIndex) (pair : OrderPair) (idOffer : TokenValue) :
    key.toOrderPair = pair ∧ key.idOffer = idOffer ↔
      ((pair.number * 256 + pair.typeWant.toNat) * 256 ^ 32 + idOffer.toNat) * 256 ^ 136 ≤ place key ∧
        place key < ((pair.number * 256 + pair.typeWant.toNat) * 256 ^ 32 + idOffer.toNat + 1) *
          256 ^ 136 := by
  have hid := key.idOffer.isLt
  have hid' := idOffer.isLt
  have htail := key.tailNumber_lt
  rw [OrderIndex.place_eq, OrderPair.eq_iff, ← BitVec.toNat_inj]
  omega

-- Whatever the wanted type.
theorem pairClear_iff (t : KeyTable OrderIndex) (pair : OrderPair) : PairClear t pair ↔
    ∀ key, t.Stored key → ¬(pair.number * 256 * 256 ^ 168 ≤ place key ∧
      place key < (pair.number * 256 + 256) * 256 ^ 168) := by
  apply forall_congr'
  intro key
  have hid := key.idOffer.isLt
  have htail := key.tailNumber_lt
  have hwant := key.typeWant.toNat_lt
  rw [OrderIndex.place_eq, ← OrderPair.number_inj]
  apply imp_congr_right
  intro _
  omega

theorem orderIndex_exact_iff (pair : OrderPair) :
    (TokenScan.orderIndex pair).Exact t ↔ (TokenScan.orderIndex pair).Clear t := by
  rw [TokenScan.Exact, TokenScan.Clear, TokenTables.orderIndexLowerBound_eq,
    TokenTables.orderIndexUpperBound_eq]
  rcases next_byte pair.typeWant with ⟨hzero, htop⟩ | ⟨hne, hnext⟩
  · rw [hzero, zero_byte, exact_wrapped_iff (by omega) (by omega) fun key => pair_iff key pair,
      Nat.add_zero, Nat.add_assoc, htop, pairClear_iff]
    exact ⟨fun h _ => h, fun h => h rfl⟩
  · rw [hnext, ← Nat.add_assoc]
    exact iff_of_true (exact_of_range (by omega) fun key => pair_iff key pair) fun h => absurd h hne

theorem orderIndexId_exact_iff (pair : OrderPair) (idOffer : TokenValue) :
    (TokenScan.orderIndexId pair idOffer).Exact t ↔ (TokenScan.orderIndexId pair idOffer).Clear t := by
  rw [TokenScan.Exact, TokenScan.Clear, TokenTables.orderIndexIdLowerBound_eq,
    TokenTables.orderIndexIdUpperBound]
  rcases next_union idOffer with ⟨hid, hlast⟩ | ⟨hid, hnextId⟩
  · rw [if_neg (not_not_intro hid), TokenTables.orderIndexUpperBound_eq]
    rcases next_byte pair.typeWant with ⟨hzero, htop⟩ | ⟨hne, hnext⟩
    · rw [hzero, zero_byte, exact_wrapped_iff (by omega) (by omega)
        fun key => pair_id_iff key pair idOffer, pairClear_iff, Nat.add_zero]
      have hend : ((pair.number * 256 + pair.typeWant.toNat) * 256 ^ 32 + idOffer.toNat + 1) *
          256 ^ 136 = (pair.number * 256 + 256) * 256 ^ 168 := by omega
      rw [hend]
      exact ⟨fun h _ => h, fun h => h ⟨rfl, hid⟩⟩
    · refine iff_of_true ?_ fun h => absurd h.1 hne
      have hend : (pair.number * 256 + (pair.typeWant + 1).toNat) * 256 ^ 168 =
          ((pair.number * 256 + pair.typeWant.toNat) * 256 ^ 32 + idOffer.toNat + 1) *
            256 ^ 136 := by omega
      rw [hend]
      exact exact_of_range (by omega) fun key => pair_id_iff key pair idOffer
  · rw [if_pos hid, TokenTables.orderIndexIdLowerBound_eq, hnextId, ← Nat.add_assoc]
    refine iff_of_true ?_ fun h => absurd h.2 hid
    exact exact_of_range (by omega) fun key => pair_id_iff key pair idOffer

end Orders

theorem orderSwapIndex_exact_iff (maker : Account) (orderHeight : UInt64) :
    (TokenScan.orderSwapIndex maker orderHeight).Exact t ↔
      (TokenScan.orderSwapIndex maker orderHeight).Clear t := by
  have hheight := orderHeight.toNat_lt
  have hlast : (~~~(0 : UInt64)).toNat = 256 ^ 8 - 1 := by decide
  rw [TokenScan.Exact, TokenScan.Clear, TokenTables.orderSwapIndexUpperBound,
    TokenTables.orderSwapIndexLowerBound_eq, TokenTables.orderSwapIndexLowerBound_eq,
    complement_max, hlast,
    exact_iff ((maker.toNat * 256 ^ 8 + orderHeight.toNat) * 256 ^ 48)
      ((maker.toNat * 256 ^ 8 + orderHeight.toNat + 1) * 256 ^ 48) (by omega)]
  · apply forall_congr'
    intro key
    have hheight' := key.orderHeight.toNat_lt
    have htrade := (~~~key.tradeHeight).toNat_lt
    have htaker := key.taker.isLt
    have hinquiry := key.inquiryHeight.toNat_lt
    have hzero : key.tradeHeight = 0 ↔ (~~~key.tradeHeight).toNat = 256 ^ 8 - 1 := by
      rw [← hlast, UInt64.toNat_inj, UInt64.not_inj]
    rw [ne_eq, hzero, OrderSwapIndex.place_eq, ← UInt64.toNat_inj, ← BitVec.toNat_inj]
    apply imp_congr_right
    intro _
    omega
  · intro key
    have hheight' := key.orderHeight.toNat_lt
    have htrade := (~~~key.tradeHeight).toNat_lt
    have htaker := key.taker.isLt
    have hinquiry := key.inquiryHeight.toNat_lt
    rw [OrderSwapIndex.place_eq, ← UInt64.toNat_inj, ← BitVec.toNat_inj]
    omega

theorem makerSwapIndex_exact (maker : Account) : (TokenScan.makerSwapIndex maker).Exact t := by
  rw [TokenScan.Exact, TokenTables.makerSwapIndexLowerBound_eq,
    TokenTables.makerSwapIndexUpperBound_eq]
  refine exact_of_range (by omega) fun key => ?_
  have htrade := (~~~key.tradeHeight).toNat_lt
  have hmain := key.mainAccount.isLt
  have hack := key.inquiryAckHeight.toNat_lt
  rw [MakerSwapIndex.place_eq, ← BitVec.toNat_inj]
  omega

theorem binding_exact (account : Account) : (TokenScan.binding account).Exact t := by
  rw [TokenScan.Exact, TokenTables.bindingLowerBound_eq, TokenTables.bindingUpperBound_eq]
  refine exact_of_range (by omega) fun key => ?_
  have hchain := key.chain.toNat_lt
  have hheight := (~~~key.height).toNat_lt
  rw [BindingKey.place_eq, ← BitVec.toNat_inj]
  omega

theorem bindingChain_exact (account : Account) (chain : Chain) :
    (TokenScan.bindingChain account chain).Exact t := by
  rw [TokenScan.Exact, TokenTables.bindingChainLowerBound_eq, TokenTables.bindingChainUpperBound_eq]
  refine exact_of_range (by omega) fun key => ?_
  have hchain := key.chain.toNat_lt
  have hchain' := chain.toNat_lt
  have hheight := (~~~key.height).toNat_lt
  rw [BindingKey.place_eq, ← BitVec.toNat_inj, ← UInt32.toNat_inj]
  omega

theorem scan_exact_iff (scan : TokenScan) : scan.Exact t ↔ scan.Clear t := by
  cases scan with
  | tokenReceivable account => exact iff_of_true (tokenReceivable_exact t account) trivial
  | tokenReceivableToken account token =>
      exact iff_of_true (tokenReceivableToken_exact t account token) trivial
  | accountTokenId account token =>
      exact iff_of_true (accountTokenId_exact t account token) trivial
  | tokenMapInfo to_ chain => exact map_exact_iff t.tokenMap to_ chain
  | tokenUnwrapInfo to_ chain => exact map_exact_iff t.tokenUnwrap to_ chain
  | orderInfo account => exact iff_of_true (height_exact t.orderInfo account) trivial
  | swapInfo account => exact iff_of_true (height_exact t.swapInfo account) trivial
  | tokenIdTransfer token id => exact tokenIdTransfer_exact_iff t token id
  | orderIndex pair => exact orderIndex_exact_iff t pair
  | orderIndexId pair idOffer => exact orderIndexId_exact_iff t pair idOffer
  | orderSwapIndex maker orderHeight => exact orderSwapIndex_exact_iff t maker orderHeight
  | makerSwapIndex maker => exact iff_of_true (makerSwapIndex_exact t maker) trivial
  | binding account => exact iff_of_true (binding_exact t account) trivial
  | bindingChain account chain => exact iff_of_true (bindingChain_exact t account chain) trivial

section Summary

theorem tokenKey_inverts : Inverts TokenKey.deserialize TokenKey.serialize fun _ => True := by
  refine .congr (?_ : Inverts _ (fun token : TokenKey =>
    streamWrite token.address ++ (streamWrite token.chain ++ [])) _)
    (fun token _ => by rw [List.append_nil]; rfl) fun token => Iff.rfl
  refine .bind TokenKey.address streamRead_inverts (fun _ _ => trivial) fun address _ => ?_
  refine .bind TokenKey.chain streamRead_inverts (fun _ _ => trivial) fun chain _ => ?_
  exact .done ⟨⟨trivial, rfl⟩, rfl⟩ fun token ⟨⟨_, ha⟩, hc⟩ => by rw [← ha, ← hc]

theorem tokenReceivableKey_inverts :
    Inverts TokenReceivableKey.deserialize TokenReceivableKey.serialize fun _ => True := by
  refine .congr (?_ : Inverts _ (fun key : TokenReceivableKey =>
    streamWrite key.to_ ++ (TokenKey.serialize key.token ++ (streamWrite key.chain ++
      (streamWrite key.txHash ++ (streamWrite key.index ++ []))))) _)
    (fun key _ => by rw [List.append_nil]; rfl) fun key => Iff.rfl
  refine .bind TokenReceivableKey.to_ streamRead_inverts (fun _ _ => trivial) fun to_ _ => ?_
  refine .bind TokenReceivableKey.token tokenKey_inverts (fun _ _ => trivial) fun token _ => ?_
  refine .bind TokenReceivableKey.chain streamRead_inverts (fun _ _ => trivial) fun chain _ => ?_
  refine .bind TokenReceivableKey.txHash streamRead_inverts (fun _ _ => trivial) fun hash _ => ?_
  refine .bind TokenReceivableKey.index streamRead_inverts (fun _ _ => trivial) fun index _ => ?_
  exact .done ⟨⟨⟨⟨⟨trivial, rfl⟩, rfl⟩, rfl⟩, rfl⟩, rfl⟩
    fun key ⟨⟨⟨⟨⟨_, hto⟩, htoken⟩, hchain⟩, hhash⟩, hindex⟩ => by
      rw [← hto, ← htoken, ← hchain, ← hhash, ← hindex]

section Rounds

variable {t} {account : Account} {number : Nat}

-- The first entry that is not below a number has the least number of them.
theorem first_le {bytes : List UInt8} {rest : Iterator}
    (h : t.tokenReceivable.at_ number = bytes :: rest) {key : TokenReceivableKey}
    (hstored : t.tokenReceivable.Stored key) (hle : number ≤ place key) :
    fromBigEndian bytes ≤ place key := by
  have hsorted : (bytes :: rest).Pairwise fun a b => fromBigEndian a < fromBigEndian b := by
    rw [← h]
    exact t.tokenReceivable.pairwise_place.filter _
  have hmem : StoreKey.serialize key ∈ bytes :: rest := by
    rw [← h]
    exact mem_at.mpr ⟨hstored, hle⟩
  rcases List.mem_cons.mp hmem with heq | hrest
  · exact Nat.le_of_eq (congrArg fromBigEndian heq.symm)
  · exact Nat.le_of_lt ((List.pairwise_cons.mp hsorted).1 _ hrest)

-- Less is left after an entry has been passed.
theorem at_length_lt {next : Nat} {bytes : List UInt8} {rest : Iterator}
    (h : t.tokenReceivable.at_ number = bytes :: rest) (hle : number ≤ next)
    (hlt : fromBigEndian bytes < next) :
    (t.tokenReceivable.at_ next).length < (t.tokenReceivable.at_ number).length := by
  have hsplit : t.tokenReceivable.at_ number = _ ++ t.tokenReceivable.at_ next :=
    entriesFrom_split t.tokenReceivable.pairwise_place hle
  have hmem : bytes ∈ t.tokenReceivable.at_ number := by
    rw [h]
    exact List.mem_cons_self
  rw [hsplit, List.mem_append] at hmem
  rw [hsplit, List.length_append]
  rcases hmem with hfront | hback
  · have := List.length_pos_of_mem hfront
    omega
  · have := (mem_at.mp hback).2
    omega

end Rounds

-- The rounds list the tokens of what lies from the number on, in ascending order.
theorem summaryFrom_spec (account : Account) {number : Nat} {fuel : Nat}
    (hlower : account.toNat * 256 ^ 80 ≤ number) (hupper : number ≤ (account.toNat + 1) * 256 ^ 80)
    (hfuel : (t.tokenReceivable.at_ number).length < fuel) :
    ∃ tokens, t.summaryFrom account (t.tokenReceivable.at_ ((account.toNat + 1) * 256 ^ 80)) fuel
        (t.tokenReceivable.at_ number) = some (.ok tokens) ∧ tokens.Nodup ∧
      ∀ token, token ∈ tokens ↔ ∃ key : TokenReceivableKey, t.tokenReceivable.Stored key ∧
        number ≤ place key ∧ place key < (account.toNat + 1) * 256 ^ 80 ∧ key.token = token := by
  induction fuel generalizing number with
  | zero => exact absurd hfuel (Nat.not_lt_zero _)
  | succ fuel ih =>
      have hsplit : t.tokenReceivable.at_ number = _ ++ t.tokenReceivable.at_ _ :=
        entriesFrom_split t.tokenReceivable.pairwise_place hupper
      cases hfront : (inOrder keyLe t.tokenReceivable.keys).filter fun a =>
          number ≤ fromBigEndian a ∧ fromBigEndian a < (account.toNat + 1) * 256 ^ 80 with
      | nil =>
          rw [hfront, List.nil_append] at hsplit
          refine ⟨[], ?_, List.nodup_nil, fun token => iff_of_false List.not_mem_nil ?_⟩
          · rw [TokenTables.summaryFrom, if_pos (congrArg List.head? hsplit)]
          · rintro ⟨key, hstored, hle, hlt, -⟩
            have hmem : StoreKey.serialize key ∈ ([] : List (List UInt8)) := by
              rw [← hfront]
              exact List.mem_filter.mpr
                ⟨(mem_inOrder keyLe).mpr hstored, decide_eq_true ⟨hle, hlt⟩⟩
            cases hmem
      | cons bytes front =>
          rw [hfront, List.cons_append] at hsplit
          have hin : bytes ∈ bytes :: front := List.mem_cons_self
          rw [← hfront, List.mem_filter, mem_inOrder, decide_eq_true_eq] at hin
          obtain ⟨hbytes, hle, hlt⟩ := hin
          obtain ⟨key, rfl⟩ := t.tokenReceivable.written bytes hbytes
          change number ≤ place key at hle
          change place key < _ at hlt
          have hto : key.to_ = account := (to_iff key account).mpr ⟨Nat.le_trans hlower hle, hlt⟩
          obtain ⟨hfirst, hnext⟩ := (to_token_iff key account key.token).mp ⟨hto, rfl⟩
          have htoken := TokenKey.number_lt key.token
          -- the next round begins right after the token
          obtain ⟨next, hnumber⟩ : ∃ next, next =
              (account.toNat * 256 ^ 36 + TokenKey.number key.token + 1) * 256 ^ 44 := ⟨_, rfl⟩
          rw [← hnumber] at hnext
          have hforth : number ≤ next := Nat.le_of_lt (Nat.lt_of_le_of_lt hle hnext)
          have hlower' := Nat.le_trans hlower hforth
          have hupper' : next ≤ (account.toNat + 1) * 256 ^ 80 := by omega
          have hlength := at_length_lt hsplit hforth hnext
          have hfuel' : (t.tokenReceivable.at_ next).length < fuel := by omega
          obtain ⟨tokens, htokens, hnodup, hmem⟩ := ih hlower' hupper' hfuel'
          refine ⟨key.token :: tokens, ?_, List.nodup_cons.mpr ⟨?_, hnodup⟩, fun token => ?_⟩
          · have hhead : (t.tokenReceivable.at_ ((account.toNat + 1) * 256 ^ 80)).head? ≠
                some (StoreKey.serialize key) := fun hhead =>
              absurd (mem_at.mp (List.mem_of_head? hhead)).2 (Nat.not_le.mpr hlt)
            have hread : TokenTables.tokenReceivableGet (t.tokenReceivable.at_ number) = some key := by
              rw [hsplit]
              exact ByteTables.parse_write tokenReceivableKey_inverts trivial
            have hcontinue : (t.tokenReceivable.at_ number).head? ≠
                (t.tokenReceivable.at_ ((account.toNat + 1) * 256 ^ 80)).head? := by
              rw [hsplit]
              exact hhead.symm
            rw [TokenTables.summaryFrom, if_neg hcontinue, hread]
            dsimp only
            rw [TokenTables.tokenReceivableTokenUpperBound_eq, ← hnumber, htokens]
            rfl
          · rw [hmem]
            rintro ⟨other, -, hother, hend, htwice⟩
            have hother' := (to_iff other account).mpr ⟨Nat.le_trans hlower' hother, hend⟩
            have hprefix := (to_token_iff other account key.token).mp ⟨hother', htwice⟩
            omega
          · rw [List.mem_cons, hmem]
            constructor
            · rintro (rfl | ⟨other, hstored, hother, hend, rfl⟩)
              · exact ⟨key, hbytes, hle, hlt, rfl⟩
              · exact ⟨other, hstored, by omega, hend, rfl⟩
            · rintro ⟨other, hstored, hother, hend, rfl⟩
              by_cases hpast : next ≤ place other
              · exact .inr ⟨other, hstored, hpast, hend, rfl⟩
              · have hleast : place key ≤ place other := first_le hsplit hstored hother
                have hbegin := Nat.le_trans hfirst hleast
                have hbelow := Nat.lt_of_not_le hpast
                rw [hnumber] at hbelow
                exact .inl ((to_token_iff other account key.token).mpr ⟨hbegin, hbelow⟩).2

theorem summary_lists (account : Account) (extra : Nat) :
    ∃ tokens, t.tokenReceivablesSummary (t.tokenReceivable.keys.card + 1 + extra) account =
        some (.ok tokens) ∧ tokens.Nodup ∧
      ∀ token, token ∈ tokens ↔ ∃ key : TokenReceivableKey, t.tokenReceivable.Stored key ∧
        key.to_ = account ∧ key.token = token := by
  have hlength : (t.tokenReceivable.at_ (account.toNat * 256 ^ 80)).length ≤
      t.tokenReceivable.keys.card := by
    refine (List.length_filter_le _ _).trans (Nat.le_of_eq ?_)
    rw [← Multiset.coe_card, inOrder_coe]
    rfl
  obtain ⟨tokens, htokens, hnodup, hmem⟩ := @summaryFrom_spec t account _
    (t.tokenReceivable.keys.card + 1 + extra) (Nat.le_refl (account.toNat * 256 ^ 80))
    (Nat.mul_le_mul_right _ (Nat.le_succ _)) (by omega)
  refine ⟨tokens, ?_, hnodup, fun token => ?_⟩
  · rw [TokenTables.tokenReceivablesSummary, TokenTables.tokenReceivableUpperBound_eq,
      TokenTables.tokenReceivableLowerBound_eq, htokens]
  · rw [hmem]
    apply exists_congr
    intro key
    rw [to_iff, and_assoc]

end Summary

-- A scan visits what is stored under its prefix unless a bound of its own is misplaced over what is
-- there, and the summary goes over all tokens.
theorem token_scans : (∀ scan : TokenScan, scan.Exact t ↔ scan.Clear t) ∧
    ∀ account extra, ∃ tokens,
      t.tokenReceivablesSummary (t.tokenReceivable.keys.card + 1 + extra) account =
          some (.ok tokens) ∧ tokens.Nodup ∧
        ∀ token, token ∈ tokens ↔ ∃ key : TokenReceivableKey, t.tokenReceivable.Stored key ∧
          key.to_ = account ∧ key.token = token :=
  ⟨scan_exact_iff t, summary_lists t⟩

-- A transfer of id 8 is visited with those of id 7, and one map of another account with those of
-- account zero.
theorem neighbours_visited :
    ¬(TokenScan.tokenIdTransfer ⟨3, 5⟩ 7).Exact { TokenTables.empty with
      tokenIdTransfer := KeyTable.empty.put (TokenIdTransferKey.make ⟨3, 5⟩ 8 1) } ∧
    ¬(TokenScan.tokenMapInfo 0 3).Exact { TokenTables.empty with
      tokenMap := KeyTable.empty.put ⟨1, 3, 0, 0⟩ } := by
  constructor
  · rw [tokenIdTransfer_exact_iff]
    intro h
    have hlast := h (TokenIdTransferKey.make ⟨3, 5⟩ 8 1) (Finset.mem_insert_self _ _)
      (by decide)
    exact absurd hlast (by decide)
  · intro h
    have hclear := (map_exact_iff _ 0 3).mp h
    have hto := (hclear (by decide) ⟨1, 3, 0, 0⟩ (Finset.mem_insert_self _ _)).1
    exact absurd hto (by decide)

end Raicoin.Scans
