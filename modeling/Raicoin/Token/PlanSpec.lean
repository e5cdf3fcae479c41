import Raicoin.Token.Changes

-- What the reads of a handler have found when they end well.
namespace Raicoin

open Lib

section Planning

variable {α : Type}

@[simp] theorem refuseIf_eq_ok (condition : Prop) [Decidable condition] (status : ErrorCode)
    (token : Option TokenKey) (u : Unit) :
    refuseIf condition status token = .ok u ↔ ¬condition :=
  returnIf_eq_ok condition _ u

@[simp] theorem failIf_eq_ok (condition : Prop) [Decidable condition] (code : ErrorCode)
    (u : Unit) : failIf condition code = .ok u ↔ ¬condition :=
  returnIf_eq_ok condition _ u

@[simp] theorem orRefuse_eq_ok (found : Option α) (status : ErrorCode) (token : Option TokenKey)
    (value : α) : orRefuse found status token = .ok value ↔ found = some value :=
  orReturn_eq_ok found _ value

@[simp] theorem orFail_eq_ok (found : Option α) (code : ErrorCode) (value : α) :
    orFail found code = .ok value ↔ found = some value :=
  orReturn_eq_ok found _ value

@[simp] theorem orStop_eq_ok (result : Except ErrorCode α) (value : α) :
    orStop result = .ok value ↔ result = .ok value := by
  cases result <;> simp [orStop, Except.mapError]

end Planning

-- How much of a balance or of a supply a value of the token is: an id counts as one.
def amountOf (type : TokenType) (value : TokenValue) : TokenValue :=
  if type = .t20 then value else 1

-- The balance of an account, zero if it has never held the token.
def TokenLedger.balance (l : TokenLedger) (account : Account) (token : TokenKey) : TokenValue :=
  ((l.accountTokens.get (account, token)).getD .init).balance

def TokenLedger.typeOf (l : TokenLedger) (token : TokenKey) : Option TokenType :=
  (l.tokens.get token).map TokenInfo.type

-- The account holds the value. An id is owned, and its info gets a mark when it goes.
structure Spends (mark : TokenIdInfo → TokenIdInfo) (l : TokenLedger) (account : Account)
    (token : TokenKey) (type : TokenType) (value previous balance : TokenValue)
    (idInfo : Option TokenIdInfo) : Prop where
  known : l.typeOf token = some type
  held : (l.accountTokens.get (account, token)).isSome
  had : l.balance account token = previous
  room : (amountOf type value).toNat ≤ previous.toNat
  rest : balance = previous - amountOf type value
  valid : type = .t20 ∨ type = .t721
  fungible : type = .t20 → idInfo = none
  owned : type = .t721 → l.accountTokenIds.contains ⟨account, token, value⟩ = true ∧
    ∃ info, l.tokenIds.get (token, value) = some info ∧ idInfo = some (mark info)

section Specs

variable {env : TokenEnv} {block : Block} {l : TokenLedger}

private theorem typeOf_of_get {token : TokenKey} {info : TokenInfo} {type : TokenType}
    (hget : l.tokens.get token = some info) (htype : info.type = type) :
    l.typeOf token = some type := by
  rw [TokenLedger.typeOf, hget, ← htype]
  rfl

private theorem balance_of_get {account : Account} {token : TokenKey} {held : AccountTokenInfo}
    (hget : l.accountTokens.get (account, token) = some held) :
    l.balance account token = held.balance := by
  rw [TokenLedger.balance, hget]
  rfl

-- A fungible value that is at most the balance.
private theorem spends20 {mark : TokenIdInfo → TokenIdInfo} {account : Account} {token : TokenKey}
    {value : TokenValue} {info : TokenInfo} {held : AccountTokenInfo}
    (hget : l.tokens.get token = some info) (htype : info.type = .t20)
    (hheld : l.accountTokens.get (account, token) = some held) (hle : ¬value > held.balance) :
    Spends mark l account token .t20 value held.balance (held.balance - value) none where
  known := typeOf_of_get hget htype
  held := by rw [hheld]; rfl
  had := balance_of_get hheld
  room := by
    rw [amountOf, if_pos rfl]
    exact BitVec.not_lt.mp hle
  rest := by rw [amountOf, if_pos rfl]
  valid := .inl rfl
  fungible := fun _ => rfl
  owned := fun h => nomatch h

private theorem spends721 {mark : TokenIdInfo → TokenIdInfo} {account : Account} {token : TokenKey}
    {value : TokenValue} {info : TokenInfo} {held : AccountTokenInfo} {idInfo : TokenIdInfo}
    (hget : l.tokens.get token = some info) (htype : info.type = .t721)
    (hheld : l.accountTokens.get (account, token) = some held) (hpos : held.balance ≠ 0)
    (howned : ¬l.accountTokenIds.contains ⟨account, token, value⟩ = false)
    (hid : l.tokenIds.get (token, value) = some idInfo) :
    Spends mark l account token .t721 value held.balance (held.balance - 1)
      (some (mark idInfo)) where
  known := typeOf_of_get hget htype
  held := by rw [hheld]; rfl
  had := balance_of_get hheld
  room := by
    rw [amountOf, if_neg (by decide)]
    exact Nat.pos_of_ne_zero fun hzero => hpos (BitVec.eq_of_toNat_eq hzero)
  rest := by rw [amountOf, if_neg (by decide)]
  valid := .inr rfl
  fungible := fun h => nomatch h
  owned := fun _ => ⟨by simpa using howned, idInfo, hid, rfl⟩

-- What a mint adds to the supplies does not wrap them.
structure Mints (l : TokenLedger) (token : TokenKey) (mint : ExtensionTokenMint)
    (plan : MintPlan) : Prop where
  info : l.tokens.get token = some plan.info
  type : plan.info.type = mint.type
  valid : mint.type = .t20 ∨ mint.type = .t721
  totalSupply : plan.totalSupply.toNat =
    plan.info.totalSupply.toNat + (amountOf mint.type mint.value).toNat
  localSupply : plan.localSupply.toNat =
    plan.info.localSupply.toNat + (amountOf mint.type mint.value).toNat
  fungible : mint.type = .t20 → plan.idInfo = none
  id : mint.type = .t721 → ∃ idInfo, plan.idInfo = some idInfo ∧
    (l.tokenIds.get (token, mint.value) = none ∧ idInfo = .init mint.uri ∨
      ∃ info, l.tokenIds.get (token, mint.value) = some info ∧ info.burned = true ∧
        idInfo = { info with burned := false, uri := mint.uri })

private theorem toNat_add_of_lt {a b : TokenValue} (h : ¬a + b ≤ a) :
    (a + b).toNat = a.toNat + b.toNat := by
  rw [BitVec.not_le, BitVec.lt_def, BitVec.toNat_add] at h
  rw [BitVec.toNat_add]
  have ha := a.isLt
  have hb := b.isLt
  omega

private theorem mintedSupplies_ok {token : TokenKey} {info : TokenInfo} {value : TokenValue}
    {totalSupply localSupply : TokenValue}
    (h : mintedSupplies token info value = .ok (totalSupply, localSupply)) :
    totalSupply.toNat = info.totalSupply.toNat + value.toNat ∧
      localSupply.toNat = info.localSupply.toNat + value.toNat := by
  unfold mintedSupplies at h
  simp only [Except.bind_eq_ok, refuseIf_eq_ok, failIf_eq_ok, exists_const, Except.pure_eq_ok,
    Prod.mk.injEq] at h
  obtain ⟨htotal, -, hlocal, rfl, rfl⟩ := h
  exact ⟨toNat_add_of_lt htotal, toNat_add_of_lt hlocal⟩

private theorem mintedId_ok {token : TokenKey} {id : TokenValue} {uri : String}
    {idInfo : TokenIdInfo} (h : mintedId l token id uri = .ok idInfo) :
    l.tokenIds.get (token, id) = none ∧ idInfo = .init uri ∨
      ∃ info, l.tokenIds.get (token, id) = some info ∧ info.burned = true ∧
        idInfo = { info with burned := false, uri } := by
  unfold mintedId at h
  cases hget : l.tokenIds.get (token, id) with
  | none =>
      rw [hget] at h
      cases h
      exact .inl ⟨rfl, rfl⟩
  | some info =>
      rw [hget] at h
      simp only [Except.bind_eq_ok, refuseIf_eq_ok, exists_const, Except.pure_eq_ok,
        Bool.not_eq_false] at h
      exact .inr ⟨info, rfl, h.1, h.2.symm⟩

theorem mintPlan_ok {mint : ExtensionTokenMint} {plan : MintPlan}
    (h : mintPlan env block mint l = .ok plan) : Mints l (env.ownToken block) mint plan := by
  unfold mintPlan at h
  simp only [Except.bind_eq_ok, orRefuse_eq_ok, refuseIf_eq_ok, exists_const, not_not] at h
  obtain ⟨info, hget, -, htype, h⟩ := h
  cases hcase : mint.type with
  | invalid =>
      rw [hcase] at h
      cases h
  | t20 =>
      simp only [hcase, Except.bind_eq_ok, Except.pure_eq_ok] at h
      obtain ⟨⟨totalSupply, localSupply⟩, hsupplies, rfl⟩ := h
      obtain ⟨htotal, hlocal⟩ := mintedSupplies_ok hsupplies
      have hamount : amountOf mint.type mint.value = mint.value := by rw [amountOf, if_pos hcase]
      refine ⟨hget, htype.symm, .inl hcase, ?_, ?_, fun _ => rfl, fun hother => ?_⟩
      · rw [hamount]
        exact htotal
      · rw [hamount]
        exact hlocal
      · rw [hcase] at hother
        cases hother
  | t721 =>
      simp only [hcase, Except.bind_eq_ok, Except.pure_eq_ok] at h
      obtain ⟨⟨totalSupply, localSupply⟩, hsupplies, idInfo, hid, rfl⟩ := h
      obtain ⟨htotal, hlocal⟩ := mintedSupplies_ok hsupplies
      have hamount : amountOf mint.type mint.value = 1 := by
        rw [amountOf, hcase]
        rfl
      refine ⟨hget, htype.symm, .inr hcase, ?_, ?_, fun hother => ?_,
        fun _ => ⟨idInfo, rfl, mintedId_ok hid⟩⟩
      · rw [hamount]
        exact htotal
      · rw [hamount]
        exact hlocal
      · rw [hcase] at hother
        cases hother

-- What a burn, an UNMAP or a WRAP takes away is there.
structure Loses (mark : TokenIdInfo → TokenIdInfo) (l : TokenLedger) (account : Account)
    (token : TokenKey) (value : TokenValue) (plan : LossPlan) : Prop where
  info : l.tokens.get token = some plan.info
  spends : Spends mark l account token plan.info.type value plan.previous plan.balance plan.idInfo
  localRoom : (amountOf plan.info.type value).toNat ≤ plan.info.localSupply.toNat
  localSupply : plan.localSupply = plan.info.localSupply - amountOf plan.info.type value

private theorem pos_of_not_lt_one {value : TokenValue} (h : ¬value < 1) : value ≠ 0 := by
  rintro rfl
  exact h (by decide)

private theorem one_le_of_not_lt {value : TokenValue} (h : ¬value < 1) : 1 ≤ value.toNat :=
  Nat.pos_of_ne_zero fun hzero => pos_of_not_lt_one h (BitVec.eq_of_toNat_eq hzero)

theorem burnPlan_ok {burn : ExtensionTokenBurn} {plan : LossPlan}
    (h : burnPlan env block burn l = .ok plan) :
    Loses (fun info => { info with burned := true }) l block.account (env.ownToken block)
        burn.value plan ∧
      (amountOf plan.info.type burn.value).toNat ≤ plan.info.totalSupply.toNat ∧
      plan.totalSupply = plan.info.totalSupply - amountOf plan.info.type burn.value := by
  unfold burnPlan at h
  simp only [Except.bind_eq_ok, orRefuse_eq_ok, refuseIf_eq_ok, orFail_eq_ok, exists_const,
    not_not] at h
  obtain ⟨info, hget, -, htype, held, hheld, h⟩ := h
  cases hcase : burn.type with
  | invalid =>
      rw [hcase] at h
      cases h
  | t20 =>
      simp only [hcase, Except.bind_eq_ok, refuseIf_eq_ok, failIf_eq_ok, exists_const,
        Except.pure_eq_ok] at h
      obtain ⟨hle, htotal, hlocal, rfl⟩ := h
      have h20 : info.type = .t20 := htype ▸ hcase
      have hamount : amountOf info.type burn.value = burn.value := by rw [amountOf, if_pos h20]
      refine ⟨⟨hget, ?_, ?_, ?_⟩, ?_, ?_⟩ <;> simp only [hamount]
      · rw [h20]
        exact spends20 hget h20 hheld hle
      · exact BitVec.not_lt.mp hlocal
      · exact BitVec.not_lt.mp htotal
  | t721 =>
      simp only [hcase, Except.bind_eq_ok, refuseIf_eq_ok, failIf_eq_ok, orFail_eq_ok, exists_const,
        Except.pure_eq_ok] at h
      obtain ⟨howned, hpos, htotal, hlocal, idInfo, hid, rfl⟩ := h
      have h721 : info.type = .t721 := htype ▸ hcase
      have hamount : amountOf info.type burn.value = 1 := by rw [amountOf, h721]; rfl
      refine ⟨⟨hget, ?_, ?_, ?_⟩, ?_, ?_⟩ <;> simp only [hamount]
      · rw [h721]
        exact spends721 hget h721 hheld (pos_of_not_lt_one hpos) howned hid
      · exact one_le_of_not_lt hlocal
      · exact one_le_of_not_lt htotal

private theorem heldToken_ok {token : ExtensionTokenInfo} {info : TokenInfo}
    {held : AccountTokenInfo} (h : heldToken block l token = .ok (info, held)) :
    l.tokens.get token.key = some info ∧ token.type = info.type ∧
      l.accountTokens.get (block.account, token.key) = some held ∧ held.balance ≠ 0 := by
  unfold heldToken at h
  simp only [Except.bind_eq_ok, orRefuse_eq_ok, refuseIf_eq_ok, orFail_eq_ok, exists_const,
    not_not, Except.pure_eq_ok, Prod.mk.injEq] at h
  obtain ⟨held, hheld, hpos, info, hget, htype, rfl, rfl⟩ := h
  exact ⟨hget, htype, hheld, hpos⟩

theorem leavePlan_ok {token : ExtensionTokenInfo} {value : TokenValue}
    {mark : TokenIdInfo → TokenIdInfo} {plan : LossPlan}
    (h : leavePlan block token value mark l = .ok plan) :
    Loses mark l block.account token.key value plan ∧
      plan.totalSupply = plan.info.totalSupply := by
  unfold leavePlan at h
  obtain ⟨⟨info, held⟩, hheldToken, h⟩ := (Except.bind_eq_ok _ _ _).mp h
  obtain ⟨hget, htype, hheld, hpos⟩ := heldToken_ok hheldToken
  cases hcase : info.type with
  | invalid =>
      simp only [hcase] at h
      cases h
  | t20 =>
      simp only [hcase, Except.bind_eq_ok, refuseIf_eq_ok, failIf_eq_ok, exists_const,
        Except.pure_eq_ok] at h
      obtain ⟨hle, hlocal, rfl⟩ := h
      have hamount : amountOf info.type value = value := by rw [amountOf, if_pos hcase]
      refine ⟨⟨hget, ?_, ?_, ?_⟩, rfl⟩ <;> simp only [hamount]
      · rw [hcase]
        exact spends20 hget hcase hheld hle
      · exact BitVec.not_lt.mp hlocal
  | t721 =>
      simp only [hcase, Except.bind_eq_ok, refuseIf_eq_ok, failIf_eq_ok, orFail_eq_ok, exists_const,
        Except.pure_eq_ok] at h
      obtain ⟨howned, hlocal, idInfo, hid, rfl⟩ := h
      have hamount : amountOf info.type value = 1 := by rw [amountOf, hcase]; rfl
      refine ⟨⟨hget, ?_, ?_, ?_⟩, rfl⟩ <;> simp only [hamount]
      · rw [hcase]
        exact spends721 hget hcase hheld hpos howned hid
      · exact one_le_of_not_lt hlocal

theorem sendPlan_ok {send : ExtensionTokenSend} {plan : SpendPlan}
    (h : sendPlan block send l = .ok plan) :
    l.tokens.get send.token.key = some plan.info ∧
      Spends id l block.account send.token.key plan.info.type send.value plan.previous plan.balance
        plan.idInfo := by
  unfold sendPlan at h
  obtain ⟨⟨info, held⟩, hheldToken, h⟩ := (Except.bind_eq_ok _ _ _).mp h
  obtain ⟨hget, htype, hheld, hpos⟩ := heldToken_ok hheldToken
  obtain ⟨_, -, h⟩ := (Except.bind_eq_ok _ _ _).mp h
  cases hcase : info.type with
  | invalid =>
      simp only [hcase] at h
      cases h
  | t20 =>
      simp only [hcase, Except.bind_eq_ok, refuseIf_eq_ok, exists_const, Except.pure_eq_ok] at h
      obtain ⟨hle, rfl⟩ := h
      refine ⟨hget, ?_⟩
      rw [hcase]
      exact spends20 hget hcase hheld hle
  | t721 =>
      simp only [hcase, Except.bind_eq_ok, refuseIf_eq_ok, orFail_eq_ok, exists_const,
        Except.pure_eq_ok] at h
      obtain ⟨howned, idInfo, hid, rfl⟩ := h
      refine ⟨hget, ?_⟩
      rw [hcase]
      exact spends721 hget hcase hheld hpos howned hid

-- The value of a stored receivable comes to the account without wrapping its balance.
structure Collects (l : TokenLedger) (account : Account) (receive : ExtensionTokenReceive)
    (plan : ReceivePlan) (receivable : TokenReceivable) : Prop where
  to_ : plan.key.to_ = account
  token : plan.key.token = receive.token.key
  stored : l.receivables.get plan.key = some receivable
  value : receivable.value = receive.value
  known : l.typeOf receive.token.key = some receivable.tokenType
  had : l.balance account receive.token.key = plan.previous
  gained : plan.balance.toNat =
    plan.previous.toNat + (amountOf receivable.tokenType receivable.value).toNat
  valid : receivable.tokenType = .t20 ∨ receivable.tokenType = .t721
  fungible : receivable.tokenType = .t20 → plan.idInfo = none
  id : receivable.tokenType = .t721 → ∃ info,
    l.tokenIds.get (receive.token.key, receive.value) = some info ∧ plan.idInfo = some info

private theorem toNat_add_of_not_lt {a b : TokenValue} (h : ¬a + b < a) :
    (a + b).toNat = a.toNat + b.toNat := by
  rw [BitVec.lt_def, BitVec.toNat_add] at h
  rw [BitVec.toNat_add]
  have ha := a.isLt
  have hb := b.isLt
  omega

theorem receivePlan_ok {receive : ExtensionTokenReceive} {plan : ReceivePlan}
    (h : receivePlan env block receive l = .ok plan) :
    ∃ receivable, Collects l block.account receive plan receivable := by
  unfold receivePlan at h
  obtain ⟨⟨chain, index⟩, -, h⟩ := (Except.bind_eq_ok _ _ _).mp h
  simp only [Except.bind_eq_ok, orRefuse_eq_ok, refuseIf_eq_ok, orFail_eq_ok, failIf_eq_ok,
    exists_const, not_not] at h
  obtain ⟨receivable, hstored, htype, -, -, hvalue, -, info, hget, hinfo, h⟩ := h
  have htypeOf := typeOf_of_get hget (hinfo.trans htype.symm)
  refine ⟨receivable, ?_⟩
  cases hcase : receivable.tokenType with
  | invalid =>
      simp only [hcase] at h
      cases h
  | t20 =>
      simp only [hcase, Except.bind_eq_ok, refuseIf_eq_ok, exists_const, Except.pure_eq_ok] at h
      obtain ⟨hroom, rfl⟩ := h
      refine ⟨rfl, rfl, hstored, hvalue, htypeOf, rfl, ?_, .inl hcase, fun _ => rfl, ?_⟩
      · rw [amountOf, if_pos hcase]
        exact toNat_add_of_not_lt hroom
      · intro hother
        rw [hcase] at hother
        cases hother
  | t721 =>
      simp only [hcase, Except.bind_eq_ok, refuseIf_eq_ok, orFail_eq_ok, exists_const,
        Except.pure_eq_ok] at h
      obtain ⟨hroom, idInfo, hid, rfl⟩ := h
      refine ⟨rfl, rfl, hstored, hvalue, htypeOf, rfl, ?_, .inr hcase, ?_, ?_⟩
      · rw [amountOf, hcase]
        exact toNat_add_of_not_lt hroom
      · intro hother
        rw [hcase] at hother
        cases hother
      · exact fun _ => ⟨idInfo, hid, rfl⟩

-- The order takes what it locks out of the balance.
structure Makes (env : TokenEnv) (l : TokenLedger) (block : Block) (make : ExtensionTokenSwapMake)
    (plan : OrderPlan) : Prop where
  order : ∃ main, plan.order = makeOrder env block make main
  quota : ((l.accountSwaps.get block.account).getD .init).activeOrders <
    block.credit * ORDERS_PER_CREDIT
  spends : Spends id l block.account make.tokenOffer.key make.tokenOffer.type
    (if make.tokenOffer.type = .t20 then plan.locked else make.valueOffer) plan.previous
    plan.balance plan.idInfo
  locked : plan.locked = if make.fungiblePair then make.maxOffer else make.valueOffer

theorem swapMakePlan_ok {make : ExtensionTokenSwapMake} {plan : OrderPlan}
    (h : swapMakePlan env block make l = .ok plan) : Makes env l block make plan := by
  unfold swapMakePlan at h
  simp only [Except.bind_eq_ok, orRefuse_eq_ok, refuseIf_eq_ok, orFail_eq_ok, exists_const,
    not_not, Nat.not_le] at h
  obtain ⟨held, hheld, info, hget, main, -, -, hquota, htype, h⟩ := h
  cases hcase : make.tokenOffer.type with
  | invalid =>
      simp only [hcase] at h
      cases h
  | t20 =>
      simp only [hcase, Except.bind_eq_ok, refuseIf_eq_ok, exists_const, Except.pure_eq_ok] at h
      obtain ⟨hle, rfl⟩ := h
      refine ⟨⟨main, rfl⟩, hquota, ?_, rfl⟩
      rw [hcase, if_pos rfl]
      exact spends20 hget (htype ▸ hcase) hheld hle
  | t721 =>
      simp only [hcase, Except.bind_eq_ok, refuseIf_eq_ok, orFail_eq_ok, exists_const,
        Except.pure_eq_ok] at h
      obtain ⟨hpos, howned, idInfo, hid, rfl⟩ := h
      refine ⟨⟨main, rfl⟩, hquota, ?_, ?_⟩
      · rw [hcase, if_neg (by decide)]
        exact spends721 hget (htype ▸ hcase) hheld hpos howned hid
      · simp [ExtensionTokenSwapMake.fungiblePair, ExtensionTokenInfo.fungible, hcase]

structure Inquires (env : TokenEnv) (l : TokenLedger) (block : Block)
    (inquiry : ExtensionTokenSwapInquiry) (plan : InquiryPlan) : Prop where
  other : inquiry.maker ≠ block.account
  order : l.orders.get (inquiry.maker, inquiry.orderHeight) = some plan.order
  main : plan.order.main ≠ block.account
  ackBlock : waitBlockIfExist env.app plan.order.main inquiry.ackHeight = .ok plan.ackBlock
  known : l.typeOf plan.order.tokenWant = some plan.order.typeWant
  value : checkInquiryValue_ plan.order inquiry.value = false

theorem swapInquiryPlan_ok {inquiry : ExtensionTokenSwapInquiry} {plan : InquiryPlan}
    (h : swapInquiryPlan env block inquiry l = .ok plan) : Inquires env l block inquiry plan := by
  unfold swapInquiryPlan at h
  simp only [Except.bind_eq_ok, orRefuse_eq_ok, refuseIf_eq_ok, orFail_eq_ok, orStop_eq_ok,
    exists_const, not_not, Bool.not_eq_true] at h
  obtain ⟨hother, -, -, order, horder, hmain, ackBlock, hack, held, -, -, info, hget, htype, -, -, -,
    hvalue, h⟩ := h
  have hplan : (⟨order, ackBlock⟩ : InquiryPlan) = plan := by
    cases hcase : info.type with
    | invalid =>
        simp only [hcase] at h
        cases h
    | t20 =>
        simp only [hcase, Except.bind_eq_ok, Except.pure_eq_ok] at h
        obtain ⟨_, -, hplan⟩ := h
        exact hplan
    | t721 =>
        simp only [hcase, Except.bind_eq_ok, Except.pure_eq_ok] at h
        obtain ⟨_, -, hplan⟩ := h
        exact hplan
  subst hplan
  exact ⟨hother, horder, hmain, hack, typeOf_of_get hget htype, hvalue⟩

-- The swap before it was acknowledged is `swap`.
structure Acks (env : TokenEnv) (l : TokenLedger) (block : Block)
    (ack : ExtensionTokenSwapInquiryAck) (plan : InquiryAckPlan) (swap : SwapInfo) : Prop where
  other : ack.taker ≠ block.account
  waiting : l.inquiryWaitings.get ⟨block.account, block.height, ack.taker, ack.inquiryHeight⟩ =
    some ()
  found : l.swaps.get (ack.taker, ack.inquiryHeight) = some swap
  status : swap.status = .inquiry
  order : l.orders.get (swap.maker, swap.orderHeight) = some plan.order
  acked : ∃ previous, waitBlock env.app swap.maker (ack.tradeHeight - 1) = .ok previous ∧
    plan.swap = { swap with
      status := .inquiryAck
      makerShare := ack.share
      makerSignature := ack.signature
      tradePrevious := env.hash previous
      tradeHeight := ack.tradeHeight }

theorem swapInquiryAckPlan_ok {ack : ExtensionTokenSwapInquiryAck} {plan : InquiryAckPlan}
    (h : swapInquiryAckPlan env block ack l = .ok plan) :
    ∃ swap, Acks env l block ack plan swap := by
  unfold swapInquiryAckPlan at h
  simp only [Except.bind_eq_ok, refuseIf_eq_ok, orFail_eq_ok, failIf_eq_ok, orStop_eq_ok,
    exists_const, not_not, Bool.not_eq_false, Except.pure_eq_ok] at h
  obtain ⟨hother, -, -, hwaiting, swap, hswap, order, horder, -, -, hstatus, previous, hprevious, -,
    rfl⟩ := h
  obtain ⟨_, hget⟩ := (Table.contains_iff _ _).mp hwaiting
  exact ⟨swap, hother, hget, hswap, hstatus, horder, previous, hprevious, rfl⟩

structure Takes (env : TokenEnv) (l : TokenLedger) (block : Block) (inquiryHeight : Nat)
    (plan : TakePlan) : Prop where
  swap : l.swaps.get (block.account, inquiryHeight) = some plan.swap
  status : plan.swap.status = .inquiryAck
  order : l.orders.get (plan.swap.maker, plan.swap.orderHeight) = some plan.order
  takeAckBlock : waitBlockIfExist env.app plan.swap.maker plan.swap.tradeHeight =
    .ok plan.takeAckBlock
  spends : Spends id l block.account plan.order.tokenWant plan.order.typeWant plan.swap.value
    plan.previous plan.balance plan.idInfo

theorem swapTakePlan_ok {inquiryHeight : Nat} {plan : TakePlan}
    (h : swapTakePlan env block inquiryHeight l = .ok plan) :
    Takes env l block inquiryHeight plan := by
  unfold swapTakePlan at h
  simp only [Except.bind_eq_ok, orRefuse_eq_ok, refuseIf_eq_ok, orFail_eq_ok, failIf_eq_ok,
    orStop_eq_ok, exists_const, not_not] at h
  obtain ⟨-, swap, hswap, order, horder, info, hget, htype, -, -, hstatus, takeAckBlock, hackBlock,
    held, hheld, hpos, h⟩ := h
  cases hcase : order.typeWant with
  | invalid =>
      simp only [hcase] at h
      cases h
  | t20 =>
      simp only [hcase, Except.bind_eq_ok, refuseIf_eq_ok, exists_const, Except.pure_eq_ok] at h
      obtain ⟨hle, rfl⟩ := h
      refine ⟨hswap, hstatus, horder, hackBlock, ?_⟩
      rw [hcase]
      exact spends20 hget (htype.trans hcase) hheld hle
  | t721 =>
      simp only [hcase, Except.bind_eq_ok, refuseIf_eq_ok, orFail_eq_ok, exists_const,
        Except.pure_eq_ok] at h
      obtain ⟨howned, idInfo, hid, rfl⟩ := h
      refine ⟨hswap, hstatus, horder, hackBlock, ?_⟩
      rw [hcase]
      exact spends721 hget (htype.trans hcase) hheld hpos howned hid

structure TakeAcks (l : TokenLedger) (block : Block) (ack : ExtensionTokenSwapTakeAck)
    (plan : TakeAckPlan) : Prop where
  other : ack.taker ≠ block.account
  waiting : l.takeWaitings.get ⟨block.account, block.height, ack.taker, ack.inquiryHeight⟩ =
    some ()
  swap : l.swaps.get (ack.taker, ack.inquiryHeight) = some plan.swap
  order : l.orders.get (plan.swap.maker, plan.swap.orderHeight) = some plan.order
  info : l.tokens.get plan.order.tokenOffer = some plan.info
  type : plan.info.type = plan.order.typeOffer
  status : plan.swap.status = .take
  tradeHeight : plan.swap.tradeHeight = block.height
  maker : plan.swap.maker = block.account
  unfinished : plan.order.finished = false
  value : checkTakeAckValue_ plan.order plan.swap.value ack.value = false

theorem swapTakeAckPlan_ok {ack : ExtensionTokenSwapTakeAck} {plan : TakeAckPlan}
    (h : swapTakeAckPlan env block ack l = .ok plan) : TakeAcks l block ack plan := by
  unfold swapTakeAckPlan at h
  simp only [Except.bind_eq_ok, refuseIf_eq_ok, orFail_eq_ok, failIf_eq_ok, orStop_eq_ok,
    exists_const, not_not, Bool.not_eq_false, Bool.not_eq_true, Except.pure_eq_ok] at h
  obtain ⟨hother, -, -, hwaiting, swap, hswap, -, order, horder, info, hget, htype, hstatus, htrade,
    hmaker, hunfinished, hvalue, rfl⟩ := h
  obtain ⟨_, hget'⟩ := (Table.contains_iff _ _).mp hwaiting
  exact ⟨hother, hget', hswap, horder, hget, htype, hstatus, htrade, hmaker, hunfinished, hvalue⟩

structure Cancels (l : TokenLedger) (block : Block) (orderHeight : Nat) (plan : CancelPlan) :
    Prop where
  order : l.orders.get (block.account, orderHeight) = some plan.order
  info : l.tokens.get plan.order.tokenOffer = some plan.info
  type : plan.info.type = plan.order.typeOffer
  unfinished : plan.order.finished = false

theorem swapCancelPlan_ok {orderHeight : Nat} {plan : CancelPlan}
    (h : swapCancelPlan block orderHeight l = .ok plan) : Cancels l block orderHeight plan := by
  unfold swapCancelPlan at h
  simp only [Except.bind_eq_ok, refuseIf_eq_ok, orRefuse_eq_ok, orFail_eq_ok, failIf_eq_ok,
    exists_const, not_not, Bool.not_eq_true, Except.pure_eq_ok] at h
  obtain ⟨-, order, horder, info, hget, htype, hunfinished, rfl⟩ := h
  exact ⟨horder, hget, htype, hunfinished⟩

structure Refunds (l : TokenLedger) (swap : Account × Nat) (plan : RefundPlan) : Prop where
  swap : l.swaps.get swap = some plan.swap
  status : plan.swap.status = .take
  order : l.orders.get (plan.swap.maker, plan.swap.orderHeight) = some plan.order
  info : l.tokens.get plan.order.tokenWant = some plan.info
  type : plan.info.type = plan.order.typeWant

theorem refundPlan_ok {swap : Account × Nat} {plan : RefundPlan}
    (h : refundPlan swap l = .ok plan) : Refunds l swap plan := by
  unfold refundPlan at h
  simp only [Except.bind_eq_ok, orReturn_eq_ok, returnIf_eq_ok, exists_const, not_not,
    Except.pure_eq_ok] at h
  obtain ⟨info, hswap, hstatus, order, horder, token, hget, htype, -, rfl⟩ := h
  exact ⟨hswap, hstatus, horder, hget, htype⟩

end Specs

end Raicoin
