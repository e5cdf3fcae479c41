import Raicoin.Token.CrossChainSpec
import Raicoin.Token.Process

-- What each operation makes of the tables, and the single changes that a run consists of.
namespace Raicoin

open Lib

namespace TokenLedger

variable (l : TokenLedger) (env : TokenEnv) (block : Block)

-- The list of token blocks of the account ends below the block.
def Awaits : Prop :=
  ∀ held, l.accountsTokens.get block.account = some held → held.head < block.height

-- One entry more in the list of the account and in that of the token the block is about.
def noted (status : Option ErrorCode) (value : TokenValue) (valueOp : ValueOp)
    (token : Option TokenKey) : TokenLedger :=
  let listed := l.listed (env.hash block) block status value valueOp (token.getD .init)
  { listed with
    accountTokens := token.elim l.accountTokens fun token =>
      (l.linked block.account block.height token).accountTokens
    accountTokenLinks := token.elim l.accountTokenLinks fun token =>
      (l.linked block.account block.height token).accountTokenLinks }

theorem recorded_toList {status : Option ErrorCode} {value : TokenValue} {valueOp : ValueOp}
    (token : Option TokenKey) :
    l.recorded (env.hash block) block status value valueOp token.toList =
      l.noted env block status value valueOp token := by
  cases token <;> rfl

-- An id comes to the account or leaves it.
def idMoved (token : TokenKey) (id : TokenValue) (comes : Bool) (idInfo : Option TokenIdInfo) :
    TokenLedger :=
  { l with
    tokenIds := idInfo.elim l.tokenIds fun info =>
      l.tokenIds.put (token, id) { info with transfers := info.transfers + 1 }
    idTransfers := idInfo.elim l.idTransfers fun info =>
      l.idTransfers.put ⟨token, id, info.transfers⟩ (block.account, block.height)
    accountTokenIds := idInfo.elim l.accountTokenIds fun _ =>
      if comes then l.accountTokenIds.put ⟨block.account, token, id⟩ block.height
      else l.accountTokenIds.del ⟨block.account, token, id⟩ }

-- Value, and an id if the token has ids, comes to the account or leaves it.
def moved (token : TokenKey) (id : TokenValue) (comes : Bool) (idInfo : Option TokenIdInfo)
    (previous balance : TokenValue) : TokenLedger :=
  ((l.idMoved block token id comes idInfo).transferred token block.timestamp block.account
    block.height).balanced block.account token previous balance

def created20 (create : ExtensionToken20Create) : TokenLedger :=
  let token := env.ownToken block
  let credit := l.credited (env.receivableKey block block.account token)
    ⟨block.account, create.initSupply, block.height, .t20, .mint⟩
  { l with
    receivables := if create.initSupply > 0 then credit.receivables else l.receivables
    tokens := l.tokens.put token (create.info block.height)
    : TokenLedger }.noted env block none 0 .none token

def created721 (create : ExtensionToken721Create) : TokenLedger :=
  let token := env.ownToken block
  { l with tokens := l.tokens.put token (create.info block.height) : TokenLedger }.noted env block
    none 0 .none token

def minted (mint : ExtensionTokenMint) (plan : MintPlan) : TokenLedger :=
  let token := env.ownToken block
  (({ l with
    tokenIds := plan.idInfo.elim l.tokenIds fun idInfo =>
      l.tokenIds.put (token, mint.value) idInfo
    : TokenLedger }.credited (env.receivableKey block mint.to_ token)
      ⟨block.account, mint.value, block.height, mint.type, .mint⟩).supplied token plan.totalSupply
        plan.localSupply).noted env block none 0 .none token

-- What burns is gone, what leaves is recorded in `l` for its chain.
def lost (token : TokenKey) (value : TokenValue) (plan : LossPlan) : TokenLedger :=
  ((l.moved block token value false plan.idInfo plan.previous plan.balance).supplied token
    plan.totalSupply plan.localSupply).noted env block none value .decrease token

def unmapRecorded (unmap : ExtensionTokenUnmap) (type : TokenType) : TokenLedger :=
  { l with
    unmapInfos := l.unmapInfos.put (block.account, block.height)
      ⟨unmap.token.key, type, unmap.value, unmap.to_, env.hash block, unmap.extraData, 0,
        INVALID_HEIGHT, 0⟩ }

def wrapRecorded (wrap : ExtensionTokenWrap) (type : TokenType) : TokenLedger :=
  { l with
    wrapInfos := l.wrapInfos.put (block.account, block.height)
      ⟨wrap.token.key, type, wrap.value, wrap.toChain, wrap.toAccount, env.hash block, 0,
        INVALID_HEIGHT, 0⟩ }

def sent (send : ExtensionTokenSend) (plan : SpendPlan) : TokenLedger :=
  let token := send.token.key
  ((l.credited (env.receivableKey block send.to_ token)
    ⟨block.account, send.value, block.height, plan.info.type, .send⟩).moved block token send.value
      false plan.idInfo plan.previous plan.balance).noted env block none send.value .decrease token

-- The records of what came from another chain get the hash of the block that receives it.
def receiptMarked (receive : ExtensionTokenReceive) (key : TokenReceivableKey) : TokenLedger :=
  let mapKey : TokenMapKey := ⟨block.account, key.chain, receive.blockHeight, key.index⟩
  { l with
    mapInfos := if receive.source = .map then
        l.mapInfos.change mapKey fun info => { info with targetTx := env.hash block }
      else l.mapInfos
    unwrapInfos := if receive.source = .unwrap then
        l.unwrapInfos.change mapKey fun info => { info with targetTx := env.hash block }
      else l.unwrapInfos }

def received (receive : ExtensionTokenReceive) (plan : ReceivePlan) : TokenLedger :=
  let token := receive.token.key
  ({ l.receiptMarked env block receive plan.key with
    receivables := l.receivables.del plan.key
    : TokenLedger }.moved block token receive.value true plan.idInfo plan.previous
      plan.balance).noted env block none receive.value .increase token

def configured (main : Account) : TokenLedger :=
  { l with mainAccounts := l.mainAccounts.put block.account main : TokenLedger }.noted env block
    none 0 .none none

def orderMade (make : ExtensionTokenSwapMake) (plan : OrderPlan) : TokenLedger :=
  let token := make.tokenOffer.key
  let index := plan.order.getIndex block.account block.height
  (({ l with
    orders := l.orders.put (block.account, block.height) plan.order
    orderIndexes := l.orderIndexes.put index ()
    : TokenLedger }.moved block token make.valueOffer false plan.idInfo plan.previous
      plan.balance).swapsRaised block.account fun info =>
        { info with activeOrders := info.activeOrders + 1, totalOrders := info.totalOrders + 1 })
      |>.noted env block none plan.locked .decrease token

def inquired (inquiry : ExtensionTokenSwapInquiry) (plan : InquiryPlan) : TokenLedger :=
  ({ l with
    swaps := l.swaps.put (block.account, block.height) (newSwap env block inquiry)
    inquiryWaitings := l.inquiryWaitings.put
      ⟨plan.order.main, inquiry.ackHeight, block.account, block.height⟩ ()
    : TokenLedger }.swapsRaised block.account fun info =>
      { info with totalSwaps := info.totalSwaps + 1 }).noted env block none 0 .none
        plan.order.tokenWant

def swapOpened (account : Account) : TokenLedger :=
  l.swapsAdjusted account fun info => { info with activeSwaps := info.activeSwaps + 1 }

def swapClosed (account : Account) : TokenLedger :=
  l.swapsAdjusted account fun info => { info with activeSwaps := info.activeSwaps - 1 }

def inquiryAcked (ack : ExtensionTokenSwapInquiryAck) (plan : InquiryAckPlan) : TokenLedger :=
  let maker := plan.swap.maker
  ((({ l with
    inquiryWaitings := l.inquiryWaitings.del
      ⟨block.account, block.height, ack.taker, ack.inquiryHeight⟩
    swaps := l.swaps.put (ack.taker, ack.inquiryHeight) plan.swap
    makerSwapIndexes := l.makerSwapIndexes.put
      ⟨maker, plan.swap.tradeHeight, block.account, block.height⟩ (ack.taker, ack.inquiryHeight)
    : TokenLedger }.swapsRaised maker fun info =>
      { info with totalSwaps := info.totalSwaps + 1 }).swapOpened maker).swapOpened ack.taker).noted
        env block none 0 .none plan.order.tokenOffer

def taken (inquiryHeight : Nat) (plan : TakePlan) : TokenLedger :=
  let token := plan.order.tokenWant
  ({ l with
    swaps := l.swaps.put (block.account, inquiryHeight)
      { plan.swap with status := .take, takeHeight := block.height }
    takeWaitings := l.takeWaitings.put
      ⟨plan.swap.maker, plan.swap.tradeHeight, block.account, inquiryHeight⟩ ()
    : TokenLedger }.moved block token plan.swap.value false plan.idInfo plan.previous
      plan.balance).noted env block none plan.swap.value .decrease token

-- A finished order leaves the index and the count of its maker.
def orderClosed (finished : Bool) (index : OrderIndex) : TokenLedger :=
  { l with
    orderIndexes := if finished then l.orderIndexes.del index else l.orderIndexes
    accountSwaps := if finished then
        l.accountSwaps.change block.account fun info =>
          { info with activeOrders := info.activeOrders - 1 }
      else l.accountSwaps }

def takeAcked (ack : ExtensionTokenSwapTakeAck) (plan : TakeAckPlan) : TokenLedger :=
  let swap := { plan.swap with status := .takeAck }
  let order := plan.order.filled ack.value block.height
  let offered := l.credited (env.receivableKey block ack.taker plan.order.tokenOffer)
    ⟨swap.maker, ack.value, block.height, plan.info.type, .swap⟩
  let wanted := offered.credited (env.receivableKey block swap.maker plan.order.tokenWant)
    ⟨swap.maker, swap.value, block.height, plan.order.typeWant, .swap⟩
  let filled : TokenLedger := { wanted with
    takeWaitings := l.takeWaitings.del
      ⟨block.account, block.height, ack.taker, ack.inquiryHeight⟩
    swaps := l.swaps.put (ack.taker, ack.inquiryHeight) swap
    orders := l.orders.put (swap.maker, swap.orderHeight) order }
  let closed := filled.orderClosed block order.finished (order.getIndex swap.maker swap.orderHeight)
  let indexed := ((closed.orderSwapIndexed swap ack.taker ack.inquiryHeight).swapIndexed ack.taker
    ack.inquiryHeight block.timestamp plan.order.tokenOffer).swapIndexed ack.taker
      ack.inquiryHeight block.timestamp plan.order.tokenWant
  ((indexed.swapClosed swap.maker).swapClosed ack.taker).noted env block none 0 .none
    plan.order.tokenOffer

def orderCancelled (orderHeight : Nat) (plan : CancelPlan) : TokenLedger :=
  let token := plan.order.tokenOffer
  let order := plan.order.cancelled block.height
  let refunded := l.credited (env.receivableKey block block.account token)
    ⟨block.account, plan.order.locked, block.height, plan.info.type, .refund⟩
  ({ refunded with
    orders := l.orders.put (block.account, orderHeight) order
    : TokenLedger }.orderClosed block true (order.getIndex block.account orderHeight)).noted env
      block none 0 .none token

-- What the purges make of one swap.
def inquiryNacked (main : Account) (height : Nat) (swap : Account × Nat) (info : SwapInfo) :
    TokenLedger :=
  { l with
    swaps := l.swaps.put swap { info with status := .inquiryNack }
    inquiryWaitings := l.inquiryWaitings.del ⟨main, height, swap.1, swap.2⟩ }

def takeNacked (swap : Account × Nat) (plan : RefundPlan) : TokenLedger :=
  let refunded := l.credited (env.receivableKey block swap.1 plan.order.tokenWant)
    ⟨block.account, plan.swap.value, block.height, plan.info.type, .refund⟩
  { refunded with
    swaps := l.swaps.put swap { plan.swap with status := .takeNack }
    takeWaitings := l.takeWaitings.del ⟨block.account, block.height, swap.1, swap.2⟩ }

end TokenLedger

-- How the reads of an operation end, before its first write.
def Planning.ended {α : Type} (plan : Planning α) : Planning Unit := plan.map fun _ => ()

def ExtensionTokenSwap.reads (env : TokenEnv) (block : Block) (l : TokenLedger) :
    ExtensionTokenSwap → Planning Unit
  | .config main => refuseIf (block.account = main) .TOKEN_SWAP_MAIN_ACCOUNT none
  | .make data => Planning.ended (swapMakePlan env block data l)
  | .inquiry data => Planning.ended (swapInquiryPlan env block data l)
  | .inquiryAck data => Planning.ended (swapInquiryAckPlan env block data l)
  | .take inquiryHeight => Planning.ended (swapTakePlan env block inquiryHeight l)
  | .takeAck data => Planning.ended (swapTakeAckPlan env block data l)
  | .takeNack taker inquiryHeight =>
    Planning.ended (swapTakeNackPlan env block taker inquiryHeight l)
  | .cancel orderHeight => Planning.ended (swapCancelPlan block orderHeight l)
  | .ping _ => .ok ()
  | .pong => .ok ()

def ExtensionToken.reads (env : TokenEnv) (block : Block) (l : TokenLedger) :
    ExtensionToken → Planning Unit
  | .create _ =>
    refuseIf (l.tokens.contains (env.ownToken block) = true) .TOKEN_RECREATE (env.ownToken block)
  | .mint data => Planning.ended (mintPlan env block data l)
  | .burn data => Planning.ended (burnPlan env block data l)
  | .send data => Planning.ended (sendPlan block data l)
  | .receive data => Planning.ended (receivePlan env block data l)
  | .swap data => data.reads env block l
  | .unmap data => Planning.ended
    (leavePlan block data.token data.value (fun info => { info with unmapped := true }) l)
  | .wrap data => Planning.ended do
    wrapChain data
    leavePlan block data.token data.value (fun info => { info with wrapped := true }) l

-- An operation of the block is carried out. What remains to do after an INQUIRY or a TAKE
-- whose counterpart is there already is done by the purges.
inductive Operated (env : TokenEnv) (block : Block) (l : TokenLedger) :
    ExtensionToken → TokenLedger → Prop where
  | create20 {create : ExtensionToken20Create}
      (hnew : l.tokens.get (env.ownToken block) = none) :
      Operated env block l (.create (.token20 create)) (l.created20 env block create)
  | create721 {create : ExtensionToken721Create}
      (hnew : l.tokens.get (env.ownToken block) = none) :
      Operated env block l (.create (.token721 create)) (l.created721 env block create)
  | mint {mint : ExtensionTokenMint} {plan : MintPlan}
      (hplan : mintPlan env block mint l = .ok plan) :
      Operated env block l (.mint mint) (l.minted env block mint plan)
  | burn {burn : ExtensionTokenBurn} {plan : LossPlan}
      (hplan : burnPlan env block burn l = .ok plan) :
      Operated env block l (.burn burn)
        (l.lost env block (env.ownToken block) burn.value plan)
  | unmap {unmap : ExtensionTokenUnmap} {plan : LossPlan}
      (hplan : leavePlan block unmap.token unmap.value
        (fun info => { info with unmapped := true }) l = .ok plan) :
      Operated env block l (.unmap unmap)
        ((l.unmapRecorded env block unmap plan.info.type).lost env block unmap.token.key
          unmap.value plan)
  | wrap {wrap : ExtensionTokenWrap} {plan : LossPlan}
      (hplan : leavePlan block wrap.token wrap.value
        (fun info => { info with wrapped := true }) l = .ok plan) :
      Operated env block l (.wrap wrap)
        ((l.wrapRecorded env block wrap plan.info.type).lost env block wrap.token.key
          wrap.value plan)
  | send {send : ExtensionTokenSend} {plan : SpendPlan}
      (hplan : sendPlan block send l = .ok plan) :
      Operated env block l (.send send) (l.sent env block send plan)
  | receive {receive : ExtensionTokenReceive} {plan : ReceivePlan}
      (hplan : receivePlan env block receive l = .ok plan) :
      Operated env block l (.receive receive) (l.received env block receive plan)
  | config {main : Account} :
      Operated env block l (.swap (.config main)) (l.configured env block main)
  | make {make : ExtensionTokenSwapMake} {plan : OrderPlan}
      (hplan : swapMakePlan env block make l = .ok plan) :
      Operated env block l (.swap (.make make)) (l.orderMade env block make plan)
  | inquiry {inquiry : ExtensionTokenSwapInquiry} {plan : InquiryPlan}
      (hplan : swapInquiryPlan env block inquiry l = .ok plan) :
      Operated env block l (.swap (.inquiry inquiry)) (l.inquired env block inquiry plan)
  | inquiryAck {ack : ExtensionTokenSwapInquiryAck} {plan : InquiryAckPlan}
      (hplan : swapInquiryAckPlan env block ack l = .ok plan)
      (hknown : ack.taker ≠ plan.swap.maker → (l.accountSwaps.get ack.taker).isSome) :
      Operated env block l (.swap (.inquiryAck ack)) (l.inquiryAcked env block ack plan)
  | take {inquiryHeight : Nat} {plan : TakePlan}
      (hplan : swapTakePlan env block inquiryHeight l = .ok plan) :
      Operated env block l (.swap (.take inquiryHeight)) (l.taken env block inquiryHeight plan)
  | takeAck {ack : ExtensionTokenSwapTakeAck} {plan : TakeAckPlan}
      (hplan : swapTakeAckPlan env block ack l = .ok plan)
      (hwant : (l.tokens.get plan.order.tokenWant).isSome) :
      Operated env block l (.swap (.takeAck ack)) (l.takeAcked env block ack plan)
  | takeNack {taker : Account} {inquiryHeight : Nat} {token : TokenKey}
      (hplan : swapTakeNackPlan env block taker inquiryHeight l = .ok token) :
      Operated env block l (.swap (.takeNack taker inquiryHeight))
        (l.noted env block none 0 .none token)
  | cancel {orderHeight : Nat} {plan : CancelPlan}
      (hplan : swapCancelPlan block orderHeight l = .ok plan) :
      Operated env block l (.swap (.cancel orderHeight))
        (l.orderCancelled env block orderHeight plan)
  | pinged {maker : Account} {set : AccountSwapInfo → AccountSwapInfo}
      (hset : ∀ info, ∃ ping, set info = { info with ping }) :
      Operated env block l (.swap (.ping maker))
        ((l.swapsRaised maker set).noted env block none 0 .none none)
  | ping {maker : Account} :
      Operated env block l (.swap (.ping maker)) (l.noted env block none 0 .none none)
  | ponged {set : AccountSwapInfo → AccountSwapInfo}
      (hset : ∀ info, ∃ pong, set info = { info with pong }) :
      Operated env block l (.swap .pong)
        ((l.swapsRaised block.account set).noted env block none 0 .none none)
  | pong : Operated env block l (.swap .pong) (l.noted env block none 0 .none none)

-- What is left of the purges at a position, swap by swap.
def NackedInquiries (main : Account) (height : Nat) :
    List (Account × Nat) → TokenLedger → TokenLedger → Prop
  | [], l, l' => l' = l
  | swap :: swaps, l, l' => ∃ info, l.swaps.get swap = some info ∧ info.status = .inquiry ∧
    l.inquiryWaitings.get ⟨main, height, swap.1, swap.2⟩ = some () ∧
      NackedInquiries main height swaps (l.inquiryNacked main height swap info) l'

def NackedTakes (env : TokenEnv) (block : Block) :
    List (Account × Nat) → TokenLedger → TokenLedger → Prop
  | [], l, l' => l' = l
  | swap :: swaps, l, l' => ∃ plan, refundPlan swap l = .ok plan ∧
    l.takeWaitings.get ⟨block.account, block.height, swap.1, swap.2⟩ = some () ∧
      NackedTakes env block swaps (l.takeNacked env block swap plan) l'

-- What no round of a purge changes, the purge does not change.
theorem NackedInquiries.frame {β : Type} {f : TokenLedger → β}
    (hf : ∀ (l : TokenLedger) main height swap info, f (l.inquiryNacked main height swap info) = f l)
    {main : Account} {height : Nat} {swaps : List (Account × Nat)} {l l' : TokenLedger}
    (h : NackedInquiries main height swaps l l') : f l' = f l := by
  induction swaps generalizing l with
  | nil =>
      obtain rfl := h
      rfl
  | cons swap swaps ih =>
      obtain ⟨info, -, -, -, hrest⟩ := h
      rw [ih hrest, hf]

theorem NackedTakes.frame {env : TokenEnv} {block : Block} {β : Type} {f : TokenLedger → β}
    (hf : ∀ (l : TokenLedger) swap plan, f (l.takeNacked env block swap plan) = f l)
    {swaps : List (Account × Nat)} {l l' : TokenLedger} (h : NackedTakes env block swaps l l') :
    f l' = f l := by
  induction swaps generalizing l with
  | nil =>
      obtain rfl := h
      rfl
  | cons swap swaps ih =>
      obtain ⟨plan, -, -, hrest⟩ := h
      rw [ih hrest, hf]

def PurgedInquiries (main : Account) (height : Nat) (l l' : TokenLedger) : Prop :=
  NackedInquiries main height (l.inquiriesAt main height) l l'

def PurgedTakes (env : TokenEnv) (block : Block) (l l' : TokenLedger) : Prop :=
  NackedTakes env block (l.takesAt block.account block.height) l l'

-- An INQUIRY or a TAKE that comes after the block it is about is settled at once.
inductive Settled (env : TokenEnv) (block : Block) (l : TokenLedger) :
    ExtensionToken → TokenLedger → TokenLedger → Prop where
  | direct {token : ExtensionToken} {l₁ : TokenLedger}
      (hinquiry : ∀ inquiry, token ≠ .swap (.inquiry inquiry))
      (htake : ∀ inquiryHeight, token ≠ .swap (.take inquiryHeight)) :
      Settled env block l token l₁ l₁
  | inquiry {inquiry : ExtensionTokenSwapInquiry} {plan : InquiryPlan} {l₁ : TokenLedger}
      (hplan : swapInquiryPlan env block inquiry l = .ok plan) (hnone : plan.ackBlock = none) :
      Settled env block l (.swap (.inquiry inquiry)) l₁ l₁
  | lateInquiry {inquiry : ExtensionTokenSwapInquiry} {plan : InquiryPlan} {ackBlock : Block}
      {l₁ l' : TokenLedger} (hplan : swapInquiryPlan env block inquiry l = .ok plan)
      (hsome : plan.ackBlock = some ackBlock)
      (hpurged : PurgedInquiries plan.order.main inquiry.ackHeight l₁ l') :
      Settled env block l (.swap (.inquiry inquiry)) l₁ l'
  | take {inquiryHeight : Nat} {plan : TakePlan} {l₁ : TokenLedger}
      (hplan : swapTakePlan env block inquiryHeight l = .ok plan)
      (hnone : plan.takeAckBlock = none) :
      Settled env block l (.swap (.take inquiryHeight)) l₁ l₁
  | lateTake {inquiryHeight : Nat} {plan : TakePlan} {takeAckBlock : Block} {l₁ l' : TokenLedger}
      (hplan : swapTakePlan env block inquiryHeight l = .ok plan)
      (hsome : plan.takeAckBlock = some takeAckBlock)
      (hpurged : PurgedTakes env takeAckBlock l₁ l') :
      Settled env block l (.swap (.take inquiryHeight)) l₁ l'

-- What the content of a block makes of the tables.
inductive ContentApplied (env : TokenEnv) (block : Block) (l : TokenLedger) :
    TokenContent → TokenLedger → Prop where
  | none : ContentApplied env block l .none l
  | reentry {content : TokenContent} (hreentry : l.reentry block = true) :
      ContentApplied env block l content l
  | status {content : TokenContent} {status : ErrorCode}
      (hcontent : ∀ token checked, content ≠ .operation token checked)
      (hawaits : l.Awaits block) :
      ContentApplied env block l content (l.noted env block (some status) 0 .none none)
  | refused {token : ExtensionToken} {checked : token.checkData = .ok ()} {status : ErrorCode}
      {key : Option TokenKey} (hawaits : l.Awaits block)
      (hreads : token.reads env block l = .error (.refuse status key)) :
      ContentApplied env block l (.operation token checked)
        (l.noted env block (some status) 0 .none key)
  | operated {token : ExtensionToken} {checked : token.checkData = .ok ()} {l₁ l' : TokenLedger}
      (hawaits : l.Awaits block) (hreads : token.reads env block l = .ok ())
      (hoperated : Operated env block l token l₁)
      (hsettled : Settled env block l token l₁ l') :
      ContentApplied env block l (.operation token checked) l'

-- What appending a block makes of them.
structure Appended (env : TokenEnv) (block : Block) (content : TokenContent) (confirmed : Bool)
    (l l₁ l₂ l' : TokenLedger) : Prop where
  processed : ContentApplied env block l content l₁
  confirmed : confirmed = true ∨ content = .none ∧ l' = l
  inquiries : PurgedInquiries block.account block.height l₁ l₂
  takes : PurgedTakes env block l₂ l'

end Raicoin
