import Raicoin.Token.IdBook

-- The changes of a token ledger keep every id at one place.
namespace Raicoin

open Lib

variable {base : Env} {env : TokenEnv} {block : Block} {token : ExtensionToken} {kind : ChangeKind}
  {l l' : TokenLedger}

section Marks

variable {mark : TokenIdInfo → TokenIdInfo} {info : TokenIdInfo} {place found : IdPlace}

-- A mark says where an id goes that is leaving the ledger, and keeps the count of its transfers.
structure MarksOne (mark : TokenIdInfo → TokenIdInfo) : Prop where
  transfers : ∀ info, (mark info).transfers = info.transfers
  one : ∀ info, (∀ place, ¬info.Marks place) → ∀ place found, (mark info).Marks place →
    (mark info).Marks found → place = found

theorem TokenIdInfo.unmarked_iff : (∀ place, ¬info.Marks place) ↔
    info.burned = false ∧ info.unmapped = false ∧ info.wrapped = false := by
  constructor
  · intro h
    exact ⟨by simpa [Marks] using h .burned, by simpa [Marks] using h .unmapped,
      by simpa [Marks] using h .wrapped⟩
  · rintro ⟨hburned, hunmapped, hwrapped⟩ place
    cases place <;> simp [Marks, hburned, hunmapped, hwrapped]

theorem TokenIdInfo.init_unmarked (uri : String) (place : IdPlace) :
    ¬(TokenIdInfo.init uri).Marks place :=
  unmarked_iff.mpr ⟨rfl, rfl, rfl⟩ place

theorem marksOne_id : MarksOne id :=
  ⟨fun _ => rfl, fun _ hnone place _ hmarks => absurd hmarks (hnone place)⟩

theorem marksOne_burned : MarksOne fun info => { info with burned := true } := by
  refine ⟨fun _ => rfl, fun info hnone place found hplace hfound => ?_⟩
  obtain ⟨-, hunmapped, hwrapped⟩ := TokenIdInfo.unmarked_iff.mp hnone
  cases place <;> cases found <;> simp_all [TokenIdInfo.Marks]

theorem marksOne_unmapped : MarksOne fun info => { info with unmapped := true } := by
  refine ⟨fun _ => rfl, fun info hnone place found hplace hfound => ?_⟩
  obtain ⟨hburned, -, hwrapped⟩ := TokenIdInfo.unmarked_iff.mp hnone
  cases place <;> cases found <;> simp_all [TokenIdInfo.Marks]

theorem marksOne_wrapped : MarksOne fun info => { info with wrapped := true } := by
  refine ⟨fun _ => rfl, fun info hnone place found hplace hfound => ?_⟩
  obtain ⟨hburned, hunmapped, -⟩ := TokenIdInfo.unmarked_iff.mp hnone
  cases place <;> cases found <;> simp_all [TokenIdInfo.Marks]

end Marks

theorem idBook_idMoved {token : TokenKey} {id : TokenValue} {comes : Bool}
    {idInfo : Option TokenIdInfo} : (l.idMoved block token id comes idInfo).idBook =
      l.idBook.moved token id comes idInfo block.account block.height := by
  cases idInfo with
  | none => rfl
  | some info => cases comes <;> rfl

theorem idBook_lost {token : TokenKey} {value : TokenValue} {plan : LossPlan} :
    (l.lost env block token value plan).idBook =
      l.idBook.moved token value false plan.idInfo block.account block.height :=
  idBook_idMoved

-- What an account spends leaves it.
theorem Spends.leaves {mark : TokenIdInfo → TokenIdInfo} {account : Account} {token : TokenKey}
    {type : TokenType} {value previous balance : TokenValue} {idInfo : Option TokenIdInfo}
    (h : Spends mark l account token type value previous balance idInfo) (hmark : MarksOne mark)
    (hsound : l.idBook.Sound) (height : Nat) :
    (l.idBook.moved token value false idInfo account height).Sound := by
  rcases h.valid with htype | htype
  · rw [h.fungible htype]
    exact hsound
  · obtain ⟨howned, info, hget, rfl⟩ := h.owned htype
    have hheld : l.idBook.Holds token value (.account account) :=
      (Table.contains_iff _ _).mp howned
    exact hsound.leaves hheld hget (hmark.transfers info)
      (hmark.one info (hsound.unmarked hheld hget))

theorem Spends.loose {account : Account} {token : TokenKey} {type : TokenType}
    {value previous balance : TokenValue} {idInfo : Option TokenIdInfo}
    (h : Spends id l account token type value previous balance idInfo)
    (hsound : l.idBook.Sound) (height : Nat) (htype : type = .t721) :
    (l.idBook.moved token value false idInfo account height).Loose token value := by
  obtain ⟨howned, info, hget, rfl⟩ := h.owned htype
  exact hsound.leaves_loose ((Table.contains_iff _ _).mp howned) hget

section Operations

variable (hsound : l.idBook.Sound)
include hsound

theorem minted_sound {mint : ExtensionTokenMint} {plan : MintPlan}
    (h : Mints l (env.ownToken block) mint plan) :
    (l.minted env block mint plan).idBook.Sound := by
  rcases h.valid with htype | htype
  · have hquiet : (l.idBook.credited (env.receivableKey block mint.to_ (env.ownToken block))
        ⟨block.account, mint.value, block.height, mint.type, .mint⟩).Sound := by
      refine hsound.credited fun h721 => ?_
      exact nomatch htype.symm.trans h721
    have hnone := h.fungible htype
    unfold TokenLedger.minted
    rw [hnone]
    exact hquiet
  · obtain ⟨info, hplan, hinfo⟩ := h.id htype
    obtain ⟨hinformed, hloose⟩ : (l.idBook.informed (env.ownToken block) mint.value info).Sound ∧
        (l.idBook.informed (env.ownToken block) mint.value info).Loose (env.ownToken block)
          mint.value := by
      rcases hinfo with ⟨hnew, rfl⟩ | ⟨old, hold, hburned, rfl⟩
      · have hnew' : l.idBook.infos.get (env.ownToken block, mint.value) = none := hnew
        refine hsound.informed (fun place hheld => ?_) (by rw [hnew']; rfl)
          (TokenIdInfo.init_unmarked _)
        obtain ⟨info, hget⟩ := hsound.known _ _ place (.inl hheld)
        rw [hnew'] at hget
        cases hget
      · have hold' : l.idBook.infos.get (env.ownToken block, mint.value) = some old := hold
        have hat : l.idBook.At (env.ownToken block) mint.value .burned :=
          .inr ⟨old, hold', hburned⟩
        refine hsound.informed (fun place hheld => ?_) (by rw [hold']; rfl) ?_
        · obtain rfl := hsound.alone _ _ place _ (.inl hheld) hat
          exact hheld
        · have hother (place : IdPlace) (hmarks : old.Marks place) : place = .burned :=
            hsound.alone _ _ place _ (.inr ⟨old, hold', hmarks⟩) hat
          refine TokenIdInfo.unmarked_iff.mpr ⟨rfl, ?_, ?_⟩
          · exact Bool.eq_false_iff.mpr fun hmarks => nomatch hother .unmapped hmarks
          · exact Bool.eq_false_iff.mpr fun hmarks => nomatch hother .wrapped hmarks
    have hput : ((l.idBook.informed (env.ownToken block) mint.value info).credited
        (env.receivableKey block mint.to_ (env.ownToken block))
          ⟨block.account, mint.value, block.height, mint.type, .mint⟩).Sound :=
      hinformed.credited fun _ => hloose
    unfold TokenLedger.minted
    rw [hplan]
    exact hput

-- The records of an UNMAP or a WRAP in `l'` are of no matter.
theorem lost_sound {mark : TokenIdInfo → TokenIdInfo} (hmark : MarksOne mark) {token : TokenKey}
    {value : TokenValue} {plan : LossPlan} (h : Loses mark l block.account token value plan)
    (hbook : l'.idBook = l.idBook) : (l'.lost env block token value plan).idBook.Sound := by
  rw [idBook_lost, hbook]
  exact h.spends.leaves hmark hsound block.height

theorem sent_sound {send : ExtensionTokenSend} {plan : SpendPlan}
    (h : Spends id l block.account send.token.key plan.info.type send.value plan.previous
      plan.balance plan.idInfo) : (l.sent env block send plan).idBook.Sound := by
  have hput : ((l.idBook.moved send.token.key send.value false plan.idInfo block.account
      block.height).credited (env.receivableKey block send.to_ send.token.key)
        ⟨block.account, send.value, block.height, plan.info.type, .send⟩).Sound :=
    (h.leaves marksOne_id hsound block.height).credited fun htype =>
      h.loose hsound block.height htype
  rw [← idBook_idMoved] at hput
  exact hput

theorem received_sound {receive : ExtensionTokenReceive} {plan : ReceivePlan}
    {receivable : TokenReceivable} (h : Collects l block.account receive plan receivable) :
    (l.received env block receive plan).idBook.Sound := by
  obtain ⟨hreceived, hloose⟩ := hsound.received h.stored
  rcases h.valid with htype | htype
  · unfold TokenLedger.received
    rw [h.fungible htype]
    exact hreceived
  · obtain ⟨info, hget, hplan⟩ := h.id htype
    have hloose' := hloose htype
    rw [h.token, h.value] at hloose'
    have hcomes : ((l.idBook.received plan.key).moved receive.token.key receive.value true
        (some info) block.account block.height).Sound := hreceived.comes hloose' hget
    unfold TokenLedger.received
    rw [hplan]
    exact hcomes

theorem orderMade_sound (hcovered : l.SwapsCovered) (hawaits : l.Awaits block)
    {make : ExtensionTokenSwapMake} {plan : OrderPlan} (h : Makes env l block make plan) :
    (l.orderMade env block make plan).idBook.Sound := by
  have hnew : l.orders.get (block.account, block.height) = none := by
    cases hget : l.orders.get (block.account, block.height) with
    | none => rfl
    | some order => exact absurd (hcovered.orders _ order hget) hawaits.not_covers
  obtain ⟨main, horder⟩ := h.order
  have htypeOffer : plan.order.typeOffer = make.tokenOffer.type := by rw [horder]; rfl
  have htokenOffer : plan.order.tokenOffer = make.tokenOffer.key := by rw [horder]; rfl
  have hvalueOffer : plan.order.valueOffer = make.valueOffer := by rw [horder]; rfl
  -- a fungible value may be named in the plan by what is locked: only an id matters
  have hleaves : (l.idBook.moved make.tokenOffer.key make.valueOffer false plan.idInfo block.account
      block.height).Sound ∧ (make.tokenOffer.type = .t721 → (l.idBook.moved make.tokenOffer.key
        make.valueOffer false plan.idInfo block.account block.height).Loose make.tokenOffer.key
          make.valueOffer) := by
    have hspends := h.spends
    by_cases htype : make.tokenOffer.type = .t20
    · rw [hspends.fungible htype]
      exact ⟨hsound, fun h721 => nomatch htype.symm.trans h721⟩
    · rw [if_neg htype] at hspends
      exact ⟨hspends.leaves marksOne_id hsound _, hspends.loose hsound _⟩
  have hput : ((l.idBook.moved make.tokenOffer.key make.valueOffer false plan.idInfo block.account
      block.height).orderPut (block.account, block.height) plan.order).Sound := by
    refine hleaves.1.orderMade ?_ fun htype => ?_
    · rw [← idBook_idMoved]
      exact hnew
    · rw [htokenOffer, hvalueOffer]
      exact hleaves.2 (htypeOffer ▸ htype)
  rw [← idBook_idMoved] at hput
  exact hput

theorem taken_sound {inquiryHeight : Nat} {plan : TakePlan}
    (h : Takes env l block inquiryHeight plan) :
    (l.taken env block inquiryHeight plan).idBook.Sound := by
  have hput : ((l.idBook.moved plan.order.tokenWant plan.swap.value false plan.idInfo block.account
      block.height).swapPut (block.account, inquiryHeight)
        { plan.swap with status := .take, takeHeight := block.height }).Sound := by
    have horder : (l.idBook.moved plan.order.tokenWant plan.swap.value false plan.idInfo
        block.account block.height).orders.get (plan.swap.maker, plan.swap.orderHeight) =
          some plan.order := by
      rw [← idBook_idMoved]
      exact h.order
    exact (h.spends.leaves marksOne_id hsound block.height).swapPut horder
      fun _ htype => h.spends.loose hsound block.height htype
  rw [← idBook_idMoved] at hput
  exact hput

theorem takeAcked_sound {ack : ExtensionTokenSwapTakeAck} {plan : TakeAckPlan}
    (h : TakeAcks l block ack plan) : (l.takeAcked env block ack plan).idBook.Sound := by
  have hwants : (plan.order.filled ack.value block.height).typeWant = plan.order.typeWant ∧
      (plan.order.filled ack.value block.height).tokenWant = plan.order.tokenWant :=
    ⟨OrderInfo.filled_kept (fun _ _ _ _ => rfl) _ _ _, OrderInfo.filled_tokenWant _ _ _⟩
  -- an order that offers an id ends with it
  have hends : (plan.order.filled ack.value block.height).finished = true ∨
      (plan.order.filled ack.value block.height).typeOffer ≠ .t721 := by
    by_cases hpair : plan.order.fungiblePair = true
    · have htype : (plan.order.filled ack.value block.height).typeOffer = plan.order.typeOffer :=
        OrderInfo.filled_kept (fun _ _ _ _ => rfl) _ _ _
      simp only [OrderInfo.fungiblePair, Bool.and_eq_true, decide_eq_true_eq] at hpair
      rw [htype, hpair.1]
      exact .inr (by decide)
    · exact .inl (by simp [OrderInfo.filled, OrderInfo.finished, hpair])
  have hvalue (htype : plan.order.typeOffer = .t721) : ack.value = plan.order.valueOffer := by
    have hchecked := h.value
    unfold checkTakeAckValue_ at hchecked
    rw [htype] at hchecked
    cases hwant : plan.order.typeWant <;> simp_all
  have htraded : ((((l.idBook.orderPut (plan.swap.maker, plan.swap.orderHeight)
      (plan.order.filled ack.value block.height)).credited
        (env.receivableKey block ack.taker plan.order.tokenOffer)
          ⟨plan.swap.maker, ack.value, block.height, plan.info.type, .swap⟩).swapPut
      (ack.taker, ack.inquiryHeight) { plan.swap with status := .takeAck }).credited
        (env.receivableKey block plan.swap.maker plan.order.tokenWant)
          ⟨plan.swap.maker, plan.swap.value, block.height, plan.order.typeWant, .swap⟩).Sound := by
    refine hsound.traded h.swap h.status h.order h.unfinished hends hwants (fun heq => nomatch heq)
      rfl (fun htype => ?_) fun htype => ⟨htype, rfl, rfl⟩
    have htypeOffer : plan.order.typeOffer = .t721 := h.type.symm.trans htype
    exact ⟨htypeOffer, rfl, hvalue htypeOffer⟩
  exact htraded

theorem cancelled_sound {orderHeight : Nat} {plan : CancelPlan}
    (h : Cancels l block orderHeight plan) :
    (l.orderCancelled env block orderHeight plan).idBook.Sound := by
  have hends : (plan.order.cancelled block.height).finished = true := by
    simp [OrderInfo.cancelled, OrderInfo.finished]
  obtain ⟨hcancelled, hloose⟩ := hsound.orderEnded h.order (.inl hends) ⟨rfl, rfl⟩
  have hput : ((l.idBook.orderPut (block.account, orderHeight)
      (plan.order.cancelled block.height)).credited
        (env.receivableKey block block.account plan.order.tokenOffer)
          ⟨block.account, plan.order.locked, block.height, plan.info.type, .refund⟩).Sound := by
    refine hcancelled.credited fun htype => ?_
    have htypeOffer : plan.order.typeOffer = .t721 := h.type.symm.trans htype
    have hlocked : plan.order.locked = plan.order.valueOffer := by
      simp [OrderInfo.locked, OrderInfo.fungiblePair, htypeOffer]
    change IdBook.Loose _ plan.order.tokenOffer plan.order.locked
    rw [hlocked]
    exact hloose h.unfinished htypeOffer
  exact hput

theorem takeNacked_sound {swap : Account × Nat} {plan : RefundPlan} (h : Refunds l swap plan) :
    (l.takeNacked env block swap plan).idBook.Sound := by
  have hswap : (l.idBook.swapPut swap { plan.swap with status := .takeNack }).Sound :=
    hsound.swapPut h.order fun htaken => nomatch htaken
  have hput : ((l.idBook.swapPut swap { plan.swap with status := .takeNack }).credited
      (env.receivableKey block swap.1 plan.order.tokenWant)
        ⟨block.account, plan.swap.value, block.height, plan.info.type, .refund⟩).Sound := by
    refine hswap.credited fun htype => ?_
    exact hsound.swapEnded h.swap h.status (fun htaken => nomatch htaken) h.order rfl
      (h.type.symm.trans htype)
  exact hput

theorem Operated.idSound (hcovered : l.SwapsCovered) (hawaits : l.Awaits block)
    (h : Operated env block l token l') : l'.idBook.Sound := by
  cases h with
  | @create20 create hnew =>
      by_cases hsupply : create.initSupply > 0
      · have hput : (l.idBook.credited
            (env.receivableKey block block.account (env.ownToken block))
              ⟨block.account, create.initSupply, block.height, .t20, .mint⟩).Sound :=
          hsound.credited fun htype => nomatch htype
        unfold TokenLedger.created20
        dsimp only
        rw [if_pos hsupply]
        exact hput
      · unfold TokenLedger.created20
        dsimp only
        rw [if_neg hsupply]
        exact hsound
  | mint hplan => exact minted_sound hsound (mintPlan_ok hplan)
  | burn hplan => exact lost_sound hsound marksOne_burned (burnPlan_ok hplan).1 rfl
  | unmap hplan => exact lost_sound hsound marksOne_unmapped (leavePlan_ok hplan).1 rfl
  | wrap hplan => exact lost_sound hsound marksOne_wrapped (leavePlan_ok hplan).1 rfl
  | send hplan => exact sent_sound hsound (sendPlan_ok hplan).2
  | receive hplan =>
      obtain ⟨receivable, hcollects⟩ := receivePlan_ok hplan
      exact received_sound hsound hcollects
  | make hplan => exact orderMade_sound hsound hcovered hawaits (swapMakePlan_ok hplan)
  | @inquiry inquiry plan hplan =>
      have hput : (l.idBook.swapPut (block.account, block.height)
          (newSwap env block inquiry)).Sound :=
        hsound.swapPut (swapInquiryPlan_ok hplan).order fun hstatus => nomatch hstatus
      exact hput
  | @inquiryAck ack plan hplan hknown =>
      obtain ⟨swap, hacks⟩ := swapInquiryAckPlan_ok hplan
      obtain ⟨previous, -, hacked⟩ := hacks.acked
      have hput : (l.idBook.swapPut (ack.taker, ack.inquiryHeight) plan.swap).Sound := by
        rw [hacked]
        exact hsound.swapPut hacks.order fun hstatus => nomatch hstatus
      exact hput
  | take hplan => exact taken_sound hsound (swapTakePlan_ok hplan)
  | takeAck hplan hwant => exact takeAcked_sound hsound (swapTakeAckPlan_ok hplan)
  | cancel hplan => exact cancelled_sound hsound (swapCancelPlan_ok hplan)
  | _ => exact hsound

-- A deposit brings back an id that is where the ledger has noted, or one it has never seen.
theorem deposit_sound {d : Deposit} (place : IdPlace) (h : d.Fits l)
    (hrecord : ∀ l, (d.record l).idBook = l.idBook)
    (haway : ∀ info, d.away info = true → info.Marks place)
    (hback : ∀ info, (∀ found, info.Marks found → found = place) →
      ∀ found, ¬(d.back info).Marks found)
    (hcount : ∀ info, (d.back info).transfers = info.transfers) : (d.applied l).idBook.Sound := by
  have hbook : (d.applied l).idBook =
      ((d.returned l).idBook.credited d.receivableKey d.receivable) := hrecord _
  rw [hbook]
  by_cases htype : d.tokenType = .t721
  · have hget : l.idBook.infos.get (d.token, d.value) = l.tokenIds.get (d.token, d.value) := rfl
    obtain ⟨hinformed, hloose⟩ : (l.idBook.informed d.token d.value
        (((l.tokenIds.get (d.token, d.value)).map d.back).getD (.init ""))).Sound ∧
          (l.idBook.informed d.token d.value
            (((l.tokenIds.get (d.token, d.value)).map d.back).getD (.init ""))).Loose d.token
              d.value := by
      cases hold : l.tokenIds.get (d.token, d.value) with
      | none =>
          rw [hold] at hget
          refine hsound.informed (fun found hheld => ?_) (by rw [hget]; rfl)
            (TokenIdInfo.init_unmarked _)
          obtain ⟨info, hinfo⟩ := hsound.known _ _ found (.inl hheld)
          rw [hget] at hinfo
          cases hinfo
      | some old =>
          rw [hold] at hget
          have hmarks := haway old (h.away htype old hold)
          have hat : l.idBook.At d.token d.value place := .inr ⟨old, hget, hmarks⟩
          refine hsound.informed (fun found hheld => ?_) ?_ (hback old fun found hfound => ?_)
          · obtain rfl := hsound.alone _ _ found _ (.inl hheld) hat
            cases found <;> first | exact hmarks | exact hheld
          · rw [hget]
            exact hcount old
          · exact hsound.alone _ _ found _ (.inr ⟨old, hget, hfound⟩) hat
    have hreturned : (d.returned l).idBook = l.idBook.informed d.token d.value
        (((l.tokenIds.get (d.token, d.value)).map d.back).getD (.init "")) := by
      unfold Deposit.returned
      rw [if_pos htype]
      rfl
    rw [hreturned]
    exact hinformed.credited fun _ => hloose
  · have hreturned : (d.returned l).idBook = l.idBook := by
      unfold Deposit.returned
      rw [if_neg htype]
    rw [hreturned]
    exact hsound.credited fun h721 => absurd h721 htype

theorem event_sound {event : CrossChainEvent} (h : event.Accepts env l) :
    (event.applied l).idBook.Sound := by
  cases event with
  | token log tokenType decimals wrapped => cases wrapped <;> cases tokenType <;> exact hsound
  | map log tokenType from_ to_ value =>
      refine deposit_sound hsound .unmapped (Deposit.Accepts.credits h).fits
        (fun _ => rfl) (fun _ haway => haway) (fun info honly => ?_) fun _ => rfl
      refine TokenIdInfo.unmarked_iff.mpr ⟨?_, rfl, ?_⟩
      · exact Bool.eq_false_iff.mpr fun hmarks => nomatch honly .burned hmarks
      · exact Bool.eq_false_iff.mpr fun hmarks => nomatch honly .wrapped hmarks
  | unwrap log tokenType original from_ to_ value =>
      refine deposit_sound hsound .wrapped (Deposit.Accepts.credits h).fits
        (fun _ => rfl) (fun _ haway => haway) (fun info honly => ?_) fun _ => rfl
      refine TokenIdInfo.unmarked_iff.mpr ⟨?_, ?_, rfl⟩
      · exact Bool.eq_false_iff.mpr fun hmarks => nomatch honly .burned hmarks
      · exact Bool.eq_false_iff.mpr fun hmarks => nomatch honly .unmapped hmarks
  | _ => exact hsound

end Operations

theorem TokenChange.idSound (hcovered : l.SwapsCovered) (hsound : l.idBook.Sound)
    (h : TokenChange base kind l l') : l'.idBook.Sound := by
  cases h with
  | operated _ _ hawaits _ hoperated => exact hoperated.idSound hsound hcovered hawaits
  | @inquiryNacked l main height key swap hswap hstatus hwaiting =>
      obtain ⟨order, horder⟩ := hsound.ordered key swap hswap
      have hput : (l.idBook.swapPut key { swap with status := .inquiryNack }).Sound :=
        hsound.swapPut horder fun htaken => nomatch htaken
      exact hput
  | takeNacked _ hplan hwaiting => exact takeNacked_sound hsound (refundPlan_ok hplan)
  | event _ haccepts => exact event_sound hsound haccepts
  | _ => exact hsound

-- In every run an id is at one place at most.
theorem run_idSound {allowed : TokenHistory → TokenLedger → Prop} {history : TokenHistory}
    (hrun : (tokenMachine base).Run allowed history l) : l.SwapsCovered ∧ l.idBook.Sound :=
  run_invariant (P := fun l => l.SwapsCovered ∧ l.idBook.Sound) ⟨.empty, IdBook.Sound.empty⟩
    (fun _ _ _ h hchange => ⟨hchange.swapsCovered h.1, hchange.idSound h.1 h.2⟩) hrun

end Raicoin
