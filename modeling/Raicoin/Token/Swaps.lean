import Raicoin.Token.Handlers

-- The handlers of the SWAP operations, and the waiting records that they settle.
namespace Raicoin

open Lib

-- `true` is an error, as in the source.
def checkInquiryValue_ (order : OrderInfo) (value : TokenValue) : Bool :=
  match order.typeOffer, order.typeWant with
  | .t20, .t20 => value = 0 ||
    wide order.valueOffer * wide value % wide order.valueWant ≠ 0 ||
    wide order.valueOffer * wide value / wide order.valueWant > wide (BitVec.allOnes 256)
  | .t20, .t721 => order.valueWant ≠ value
  | .t721, .t20 => value = 0 || order.valueWant ≠ value
  | .t721, .t721 => order.valueWant ≠ value
  | _, _ => true

def checkTakeAckValue_ (order : OrderInfo) (takeValue ackValue : TokenValue) : Bool :=
  match order.typeOffer, order.typeWant with
  | .t20, .t20 => ackValue = 0 || ackValue > order.left ||
    ackValue < order.minOffer && ackValue ≠ order.left ||
    wide order.valueOffer * wide takeValue ≠ wide order.valueWant * wide ackValue
  | .t20, .t721 => ackValue = 0 || ackValue ≠ order.valueOffer
  | .t721, .t20 => ackValue ≠ order.valueOffer
  | .t721, .t721 => ackValue ≠ order.valueOffer
  | _, _ => true

-- A token of Raicoin that does not circulate is only traded by the account that created it.
def tokenUncirculable (l : TokenLedger) (token : TokenKey) (maker taker : Account) :
    Planning Bool :=
  if IsRaicoin token.chain = false then .ok false
  else do
    let info ← orFail (l.tokens.get token) .APP_PROCESS_UNEXPECTED
    return info.circulable = false ∧ token.address ≠ maker ∧ token.address ≠ taker

def checkOrderCirculable_ (l : TokenLedger) (order : OrderInfo) (maker taker : Account) :
    Planning Bool := do
  let offer ← tokenUncirculable l order.tokenOffer maker taker
  if offer then return true else tokenUncirculable l order.tokenWant maker taker

section Puts

variable (env : TokenEnv)

def swapInfoPut (taker : Account) (inquiryHeight : Nat) (info : SwapInfo) : TokenM Unit :=
  store env .swapInfoPut .APP_PROCESS_LEDGER_PUT fun l =>
    { l with swaps := l.swaps.put (taker, inquiryHeight) info }

def orderInfoPut (maker : Account) (height : Nat) (info : OrderInfo) : TokenM Unit :=
  store env .orderInfoPut .APP_PROCESS_LEDGER_PUT fun l =>
    { l with orders := l.orders.put (maker, height) info }

def orderIndexDel (index : OrderIndex) : TokenM Unit :=
  store env .orderIndexDel .APP_PROCESS_LEDGER_DEL
    (fun l => { l with orderIndexes := l.orderIndexes.del index })
    fun l => l.orderIndexes.contains index

def inquiryWaitingDel (waiting : InquiryWaiting) (code : ErrorCode) : TokenM Unit :=
  store env .inquiryWaitingDel code
    (fun l => { l with inquiryWaitings := l.inquiryWaitings.del waiting })
    fun l => l.inquiryWaitings.contains waiting

def takeWaitingDel (waiting : TakeWaiting) : TokenM Unit :=
  store env .takeWaitingDel .APP_PROCESS_UNEXPECTED
    (fun l => { l with takeWaitings := l.takeWaitings.del waiting })
    fun l => l.takeWaitings.contains waiting

end Puts

section Purges

variable (env : TokenEnv)

-- The loops over the swaps that waited for the block of an account at a height.
def nackInquiries (main : Account) (height : Nat) : List (Account × Nat) → TokenM Unit
  | [] => return ()
  | swap :: swaps => do
    let info ← query fun l => do
      let info ← orReturn (l.swaps.get swap) .APP_PROCESS_UNEXPECTED
      returnIf (info.status ≠ .inquiry) .APP_PROCESS_UNEXPECTED
      return info
    swapInfoPut env swap.1 swap.2 { info with status := .inquiryNack }
    observe (.swap swap.1 swap.2)
    inquiryWaitingDel env ⟨main, height, swap.1, swap.2⟩ .APP_PROCESS_UNEXPECTED
    nackInquiries main height swaps

def purgeInquiryWaiting_ (main : Account) (height : Nat) : TokenM Unit := do
  let inquiries ← query fun l => .ok (l.inquiriesAt main height)
  nackInquiries env main height inquiries

-- What a take that is not acknowledged gives back.
structure RefundPlan where
  swap : SwapInfo
  order : OrderInfo
  info : TokenInfo

def refundPlan (swap : Account × Nat) (l : TokenLedger) : Except ErrorCode RefundPlan := do
  let info ← orReturn (l.swaps.get swap) .APP_PROCESS_UNEXPECTED
  returnIf (info.status ≠ .take) .APP_PROCESS_UNEXPECTED
  let order ← orReturn (l.orders.get (info.maker, info.orderHeight)) .APP_PROCESS_HALT
  let tokenInfo ← orReturn (l.tokens.get order.tokenWant) .APP_PROCESS_HALT
  returnIf (tokenInfo.type ≠ order.typeWant) .APP_PROCESS_UNEXPECTED
  returnIf (tokenInfo.type = .invalid) .APP_PROCESS_UNEXPECTED
  return ⟨info, order, tokenInfo⟩

def nackTakes (block : Block) : List (Account × Nat) → TokenM Unit
  | [] => return ()
  | swap :: swaps => do
    let plan ← query (refundPlan swap)
    updateLedgerReceivable_ env (env.receivableKey block swap.1 plan.order.tokenWant)
      ⟨block.account, plan.swap.value, block.height, plan.info.type, .refund⟩ plan.info (some block)
    swapInfoPut env swap.1 swap.2 { plan.swap with status := .takeNack }
    observe (.swap swap.1 swap.2)
    takeWaitingDel env ⟨block.account, block.height, swap.1, swap.2⟩
    nackTakes block swaps

def purgeTakeWaiting_ (block : Block) : TokenM Unit := do
  let takes ← query fun l => .ok (l.takesAt block.account block.height)
  nackTakes env block takes

end Purges

section Make

variable (env : TokenEnv) (block : Block)

def processSwapConfig_ (main : Account) : TokenM Unit :=
  carryOut env block (fun _ => refuseIf (block.account = main) .TOKEN_SWAP_MAIN_ACCOUNT none)
    fun _ => do
      store env .swapMainAccountPut .APP_PROCESS_LEDGER_PUT fun l =>
        { l with mainAccounts := l.mainAccounts.put block.account main }
      observe (.mainAccount block.account main)
      updateLedgerStatus_ env block none []

-- The constructors of `OrderInfo`: only a fungible pair has limits and something left.
def makeOrder (make : ExtensionTokenSwapMake) (main : Account) : OrderInfo where
  main := main
  tokenOffer := make.tokenOffer.key
  typeOffer := make.tokenOffer.type
  tokenWant := make.tokenWant.key
  typeWant := make.tokenWant.type
  valueOffer := make.valueOffer
  valueWant := make.valueWant
  minOffer := if make.fungiblePair then make.minOffer else 0
  maxOffer := if make.fungiblePair then make.maxOffer else 0
  left := if make.fungiblePair then make.maxOffer else 0
  timeout := make.timeout
  finishedHeight := INVALID_HEIGHT
  finishedBy := .invalid
  hash := env.hash block

-- The order, what it locks and the balance that remains.
structure OrderPlan where
  order : OrderInfo
  previous : TokenValue
  balance : TokenValue
  locked : TokenValue
  idInfo : Option TokenIdInfo

def swapMakePlan (make : ExtensionTokenSwapMake) (l : TokenLedger) : Planning OrderPlan := do
  let token := make.tokenOffer.key
  let held ← orRefuse (l.accountTokens.get (block.account, token))
    .TOKEN_SWAP_NO_ENOUGH_BALANCE none
  let info ← orFail (l.tokens.get token) .APP_PROCESS_HALT
  let main ← orRefuse (l.mainAccounts.get block.account) .TOKEN_SWAP_MAIN_ACCOUNT_EMPTY token
  refuseIf (main = 0) .TOKEN_SWAP_MAIN_ACCOUNT_EMPTY token
  let counters := (l.accountSwaps.get block.account).getD .init
  refuseIf (counters.activeOrders ≥ block.credit * ORDERS_PER_CREDIT) .TOKEN_SWAP_ORDERS_EXCEEDED
    token
  refuseIf (make.tokenOffer.type ≠ info.type) .TOKEN_TYPE_INVALID token
  let order := makeOrder env block make main
  match make.tokenOffer.type with
  | .t20 => do
    let locked := if make.fungiblePair then make.maxOffer else make.valueOffer
    refuseIf (locked > held.balance) .TOKEN_SWAP_NO_ENOUGH_BALANCE token
    return ⟨order, held.balance, held.balance - locked, locked, none⟩
  | .t721 => do
    refuseIf (held.balance = 0) .TOKEN_SWAP_NO_ENOUGH_BALANCE token
    refuseIf (l.accountTokenIds.contains ⟨block.account, token, make.valueOffer⟩ = false)
      .TOKEN_ID_NOT_OWNED token
    let idInfo ← orFail (l.tokenIds.get (token, make.valueOffer)) .APP_PROCESS_UNEXPECTED
    return ⟨order, held.balance, held.balance - 1, make.valueOffer, some idInfo⟩
  | .invalid => throw (.fail .APP_PROCESS_UNEXPECTED)

def runSwapMake (make : ExtensionTokenSwapMake) (plan : OrderPlan) : TokenM Unit := do
  let token := make.tokenOffer.key
  forId plan.idInfo fun idInfo => do
    giveUpId env block token make.valueOffer
    observeId block token make.valueOffer idInfo false
  updateTransferAndBalance env block token plan.previous plan.balance
  orderInfoPut env block.account block.height plan.order
  observe (.order block.account block.height)
  store env .orderIndexPut .APP_PROCESS_LEDGER_PUT fun l =>
    { l with
      orderIndexes := l.orderIndexes.put (plan.order.getIndex block.account block.height) () }
  updateLedgerAccountOrdersInc_ env block.account
  observe (.accountSwapInfo block.account)
  updateLedgerCommon_ env block none plan.locked .decrease [token]

def processSwapMake_ (make : ExtensionTokenSwapMake) : TokenM Unit :=
  carryOut env block (swapMakePlan env block make) (runSwapMake env block make)

end Make

section Inquiry

variable (env : TokenEnv) (block : Block)

-- The order that is inquired about, and the block that was to acknowledge the inquiry if it
-- is there already.
structure InquiryPlan where
  order : OrderInfo
  ackBlock : Option Block

def swapInquiryPlan (inquiry : ExtensionTokenSwapInquiry) (l : TokenLedger) :
    Planning InquiryPlan := do
  refuseIf (inquiry.maker = block.account) .TOKEN_SWAP_WITH_SELF none
  let _ ← orStop (waitBlock env.app inquiry.maker inquiry.orderHeight)
  let order ← orRefuse (l.orders.get (inquiry.maker, inquiry.orderHeight))
    .TOKEN_SWAP_ORDER_MISS none
  refuseIf (order.main = block.account) .TOKEN_SWAP_WITH_MAIN_ACCOUNT none
  let ackBlock ← orStop (waitBlockIfExist env.app order.main inquiry.ackHeight)
  let held ← orRefuse (l.accountTokens.get (block.account, order.tokenWant))
    .TOKEN_BALANCE_IS_ZERO none
  refuseIf (held.balance = 0) .TOKEN_BALANCE_IS_ZERO none
  let info ← orFail (l.tokens.get order.tokenWant) .APP_PROCESS_HALT
  refuseIf (info.type ≠ order.typeWant) .TOKEN_TYPE_INVALID order.tokenWant
  let uncirculable ← checkOrderCirculable_ l order inquiry.maker block.account
  refuseIf (uncirculable = true) .TOKEN_UNCIRCULABLE order.tokenWant
  refuseIf (checkInquiryValue_ order inquiry.value = true) .TOKEN_SWAP_INQUIRY_VALUE
    order.tokenWant
  match info.type with
  | .t20 =>
    refuseIf (inquiry.value > held.balance) .TOKEN_SWAP_NO_ENOUGH_BALANCE order.tokenWant
  | .t721 =>
    refuseIf (l.accountTokenIds.contains ⟨block.account, order.tokenWant, inquiry.value⟩ = false)
      .TOKEN_ID_NOT_OWNED order.tokenWant
  | .invalid => throw (.fail .APP_PROCESS_UNEXPECTED)
  return ⟨order, ackBlock⟩

-- `SwapInfo(maker, order_height, inquiry_ack_height, ...)`.
def newSwap (inquiry : ExtensionTokenSwapInquiry) : SwapInfo where
  status := .inquiry
  maker := inquiry.maker
  orderHeight := inquiry.orderHeight
  inquiryAckHeight := inquiry.ackHeight
  takeHeight := INVALID_HEIGHT
  tradeHeight := INVALID_HEIGHT
  timeout := inquiry.timeout
  value := inquiry.value
  takerShare := inquiry.share
  makerShare := 0
  makerSignature := 0
  tradePrevious := 0
  hash := env.hash block

def runSwapInquiry (inquiry : ExtensionTokenSwapInquiry) (plan : InquiryPlan) : TokenM Unit := do
  swapInfoPut env block.account block.height (newSwap env block inquiry)
  observe (.swap block.account block.height)
  store env .inquiryWaitingPut .APP_PROCESS_LEDGER_PUT fun l =>
    { l with
      inquiryWaitings := l.inquiryWaitings.put
        ⟨plan.order.main, inquiry.ackHeight, block.account, block.height⟩ () }
  updateLedgerAccountTotalSwapsInc_ env block.account
  updateLedgerStatus_ env block none [plan.order.tokenWant]
  runIf (plan.ackBlock.isSome = true) (purgeInquiryWaiting_ env plan.order.main inquiry.ackHeight)

def processSwapInquiry_ (inquiry : ExtensionTokenSwapInquiry) : TokenM Unit :=
  carryOut env block (swapInquiryPlan env block inquiry) (runSwapInquiry env block inquiry)

structure InquiryAckPlan where
  swap : SwapInfo
  order : OrderInfo

-- The maker's block before the trade says that the inquiry is not too late.
def swapInquiryAckPlan (ack : ExtensionTokenSwapInquiryAck) (l : TokenLedger) :
    Planning InquiryAckPlan := do
  refuseIf (ack.taker = block.account) .TOKEN_SWAP_TAKER none
  let _ ← orStop (waitBlock env.app ack.taker ack.inquiryHeight)
  refuseIf (l.inquiryWaitings.contains
    ⟨block.account, block.height, ack.taker, ack.inquiryHeight⟩ = false)
    .TOKEN_SWAP_INQUIRY_WAITING_MISS none
  let swap ← orFail (l.swaps.get (ack.taker, ack.inquiryHeight)) .APP_PROCESS_HALT
  let order ← orFail (l.orders.get (swap.maker, swap.orderHeight)) .APP_PROCESS_HALT
  let _ ← orFail (l.tokens.get order.tokenOffer) .APP_PROCESS_HALT
  failIf (swap.status ≠ .inquiry) .APP_PROCESS_UNEXPECTED
  let previous ← orStop (waitBlock env.app swap.maker (ack.tradeHeight - 1))
  refuseIf (previous.timestamp > swap.timeout) .TOKEN_SWAP_TIMEOUT order.tokenOffer
  return ⟨{ swap with
    status := .inquiryAck
    makerShare := ack.share
    makerSignature := ack.signature
    tradePrevious := env.hash previous
    tradeHeight := ack.tradeHeight }, order⟩

def runSwapInquiryAck (ack : ExtensionTokenSwapInquiryAck) (plan : InquiryAckPlan) :
    TokenM Unit := do
  inquiryWaitingDel env ⟨block.account, block.height, ack.taker, ack.inquiryHeight⟩
    .APP_PROCESS_LEDGER_DEL
  swapInfoPut env ack.taker ack.inquiryHeight plan.swap
  observe (.swap ack.taker ack.inquiryHeight)
  store env .makerSwapIndexPut .APP_PROCESS_LEDGER_PUT fun l =>
    { l with
      makerSwapIndexes := l.makerSwapIndexes.put
        ⟨plan.swap.maker, plan.swap.tradeHeight, block.account, block.height⟩
        (ack.taker, ack.inquiryHeight) }
  updateLedgerAccountTotalSwapsInc_ env plan.swap.maker
  updateLedgerAccountActiveSwapsInc_ env plan.swap.maker
  observe (.accountSwapInfo plan.swap.maker)
  updateLedgerAccountActiveSwapsInc_ env ack.taker
  observe (.accountSwapInfo ack.taker)
  updateLedgerStatus_ env block none [plan.order.tokenOffer]

def processSwapInquiryAck_ (ack : ExtensionTokenSwapInquiryAck) : TokenM Unit :=
  carryOut env block (swapInquiryAckPlan env block ack) (runSwapInquiryAck env block ack)

end Inquiry

section Take

variable (env : TokenEnv) (block : Block)

structure TakePlan where
  swap : SwapInfo
  order : OrderInfo
  takeAckBlock : Option Block
  previous : TokenValue
  balance : TokenValue
  idInfo : Option TokenIdInfo

def swapTakePlan (inquiryHeight : Nat) (l : TokenLedger) : Planning TakePlan := do
  refuseIf (inquiryHeight ≥ block.height) .TOKEN_SWAP_INQUIRY_HEIGHT none
  let swap ← orRefuse (l.swaps.get (block.account, inquiryHeight)) .TOKEN_SWAP_MISS none
  let order ← orFail (l.orders.get (swap.maker, swap.orderHeight)) .APP_PROCESS_HALT
  let token := order.tokenWant
  let info ← orFail (l.tokens.get token) .APP_PROCESS_HALT
  failIf (info.type ≠ order.typeWant) .APP_PROCESS_UNEXPECTED
  let _ ← orStop (waitBlock env.app order.main swap.inquiryAckHeight)
  refuseIf (swap.status ≠ .inquiryAck) .TOKEN_SWAP_STATUS_UNEXPECTED token
  let takeAckBlock ← orStop (waitBlockIfExist env.app swap.maker swap.tradeHeight)
  let held ← orFail (l.accountTokens.get (block.account, token)) .APP_PROCESS_UNEXPECTED
  refuseIf (held.balance = 0) .TOKEN_BALANCE_IS_ZERO token
  match order.typeWant with
  | .t20 => do
    refuseIf (swap.value > held.balance) .TOKEN_SWAP_NO_ENOUGH_BALANCE token
    return ⟨swap, order, takeAckBlock, held.balance, held.balance - swap.value, none⟩
  | .t721 => do
    refuseIf (l.accountTokenIds.contains ⟨block.account, token, swap.value⟩ = false)
      .TOKEN_ID_NOT_OWNED token
    let idInfo ← orFail (l.tokenIds.get (token, swap.value)) .APP_PROCESS_UNEXPECTED
    return ⟨swap, order, takeAckBlock, held.balance, held.balance - 1, some idInfo⟩
  | .invalid => throw (.fail .APP_PROCESS_UNEXPECTED)

-- The maker's block at the trade height may be there before the take: then nothing settles the
-- swap but the take itself.
def settleLate (takeAckBlock : Option Block) : TokenM Unit :=
  match takeAckBlock with
  | none => return ()
  | some takeAckBlock => purgeTakeWaiting_ env takeAckBlock

def runSwapTake (inquiryHeight : Nat) (plan : TakePlan) : TokenM Unit := do
  let token := plan.order.tokenWant
  forId plan.idInfo fun _ => giveUpId env block token plan.swap.value
  observeGone block token plan.swap.value plan.idInfo
  swapInfoPut env block.account inquiryHeight
    { plan.swap with status := .take, takeHeight := block.height }
  observe (.swap block.account inquiryHeight)
  store env .takeWaitingPut .APP_PROCESS_LEDGER_PUT fun l =>
    { l with
      takeWaitings := l.takeWaitings.put
        ⟨plan.swap.maker, plan.swap.tradeHeight, block.account, inquiryHeight⟩ () }
  updateTransferAndBalance env block token plan.previous plan.balance
  updateLedgerCommon_ env block none plan.swap.value .decrease [token]
  settleLate env plan.takeAckBlock

def processSwapTake_ (inquiryHeight : Nat) : TokenM Unit :=
  carryOut env block (swapTakePlan env block inquiryHeight) (runSwapTake env block inquiryHeight)

structure TakeAckPlan where
  swap : SwapInfo
  order : OrderInfo
  info : TokenInfo

def swapTakeAckPlan (ack : ExtensionTokenSwapTakeAck) (l : TokenLedger) :
    Planning TakeAckPlan := do
  refuseIf (ack.taker = block.account) .TOKEN_SWAP_TAKER none
  let _ ← orStop (waitBlock env.app ack.taker ack.takeHeight)
  refuseIf (l.takeWaitings.contains
    ⟨block.account, block.height, ack.taker, ack.inquiryHeight⟩ = false)
    .TOKEN_SWAP_TAKE_WAITING_MISS none
  let swap ← orFail (l.swaps.get (ack.taker, ack.inquiryHeight)) .APP_PROCESS_HALT
  refuseIf (swap.takeHeight ≠ ack.takeHeight) .TOKEN_SWAP_TAKE_HEIGHT none
  let order ← orFail (l.orders.get (swap.maker, swap.orderHeight)) .APP_PROCESS_HALT
  let info ← orFail (l.tokens.get order.tokenOffer) .APP_PROCESS_HALT
  failIf (info.type ≠ order.typeOffer) .APP_PROCESS_UNEXPECTED
  failIf (swap.status ≠ .take) .APP_PROCESS_UNEXPECTED
  failIf (swap.tradeHeight ≠ block.height) .APP_PROCESS_UNEXPECTED
  failIf (swap.maker ≠ block.account) .APP_PROCESS_UNEXPECTED
  refuseIf (order.finished = true) .TOKEN_SWAP_ORDER_FINISHED order.tokenOffer
  refuseIf (checkTakeAckValue_ order swap.value ack.value = true) .TOKEN_SWAP_TAKE_ACK_VALUE
    order.tokenOffer
  return ⟨swap, order, info⟩

-- The order after an offer of it was acknowledged.
def OrderInfo.filled (order : OrderInfo) (value : TokenValue) (height : Nat) : OrderInfo :=
  let left := if order.fungiblePair then order.left - value else order.left
  if order.fungiblePair = true ∧ left ≠ 0 then { order with left }
  else { order with left, finishedHeight := height, finishedBy := .fulfill }

def closeOrder (order : OrderInfo) (maker : Account) (orderHeight : Nat) : TokenM Unit := do
  orderIndexDel env (order.getIndex maker orderHeight)
  updateLedgerAccountOrdersDec_ env block.account
  observe (.accountSwapInfo block.account)

def runSwapTakeAck (ack : ExtensionTokenSwapTakeAck) (plan : TakeAckPlan) : TokenM Unit := do
  let swap := plan.swap
  let offer := plan.order.tokenOffer
  let want := plan.order.tokenWant
  updateLedgerReceivable_ env (env.receivableKey block ack.taker offer)
    ⟨swap.maker, ack.value, block.height, plan.info.type, .swap⟩ plan.info (some block)
  let infoWant ← tokenInfoGet want .APP_PROCESS_HALT
  updateLedgerReceivable_ env (env.receivableKey block swap.maker want)
    ⟨swap.maker, swap.value, block.height, plan.order.typeWant, .swap⟩ infoWant (some block)
  takeWaitingDel env ⟨block.account, block.height, ack.taker, ack.inquiryHeight⟩
  let swap := { swap with status := .takeAck }
  swapInfoPut env ack.taker ack.inquiryHeight swap
  observe (.swap ack.taker ack.inquiryHeight)
  let order := plan.order.filled ack.value block.height
  orderInfoPut env swap.maker swap.orderHeight order
  observe (.order swap.maker swap.orderHeight)
  runIf (order.finished = true) (closeOrder env block order swap.maker swap.orderHeight)
  updateLedgerSwapIndex_ env order swap ack.taker ack.inquiryHeight block.timestamp
  updateLedgerAccountActiveSwapsDec_ env swap.maker
  observe (.accountSwapInfo swap.maker)
  updateLedgerAccountActiveSwapsDec_ env ack.taker
  observe (.accountSwapInfo ack.taker)
  updateLedgerStatus_ env block none [offer]

def processSwapTakeAck_ (ack : ExtensionTokenSwapTakeAck) : TokenM Unit :=
  carryOut env block (swapTakeAckPlan env block ack) (runSwapTakeAck env block ack)

-- A TAKE_NACK settles nothing by itself: the purge that follows every block at a trade height does.
def swapTakeNackPlan (taker : Account) (inquiryHeight : Nat) (l : TokenLedger) :
    Planning TokenKey := do
  refuseIf (taker = block.account) .TOKEN_SWAP_TAKER none
  let _ ← orStop (waitBlock env.app taker inquiryHeight)
  let swap ← orRefuse (l.swaps.get (taker, inquiryHeight)) .TOKEN_SWAP_MISS none
  refuseIf (swap.maker ≠ block.account) .TOKEN_SWAP_ACCOUNT_NOT_MAKER none
  let order ← orFail (l.orders.get (swap.maker, swap.orderHeight)) .APP_PROCESS_HALT
  let info ← orFail (l.tokens.get order.tokenOffer) .APP_PROCESS_HALT
  failIf (info.type ≠ order.typeOffer) .APP_PROCESS_UNEXPECTED
  let _ ← orStop (waitBlock env.app order.main swap.inquiryAckHeight)
  refuseIf (swap.status ≠ .inquiryAck ∧ swap.status ≠ .take) .TOKEN_SWAP_STATUS_UNEXPECTED
    order.tokenOffer
  refuseIf (swap.tradeHeight ≠ block.height) .TOKEN_SWAP_TAKE_NACK_HEIGHT order.tokenOffer
  return order.tokenOffer

def processSwapTakeNack_ (taker : Account) (inquiryHeight : Nat) : TokenM Unit :=
  carryOut env block (swapTakeNackPlan env block taker inquiryHeight) fun token =>
    updateLedgerStatus_ env block none [token]

end Take

section Cancel

variable (env : TokenEnv) (block : Block)

structure CancelPlan where
  order : OrderInfo
  info : TokenInfo

def swapCancelPlan (orderHeight : Nat) (l : TokenLedger) : Planning CancelPlan := do
  refuseIf (orderHeight ≥ block.height) .TOKEN_SWAP_ORDER_HEIGHT none
  let order ← orRefuse (l.orders.get (block.account, orderHeight)) .TOKEN_SWAP_ORDER_MISS none
  let info ← orFail (l.tokens.get order.tokenOffer) .APP_PROCESS_HALT
  failIf (info.type ≠ order.typeOffer) .APP_PROCESS_UNEXPECTED
  refuseIf (order.finished = true) .TOKEN_SWAP_ORDER_FINISHED order.tokenOffer
  return ⟨order, info⟩

-- What is locked in an order that is not finished.
def OrderInfo.locked (order : OrderInfo) : TokenValue :=
  if order.fungiblePair then order.left else order.valueOffer

def OrderInfo.cancelled (order : OrderInfo) (height : Nat) : OrderInfo :=
  { order with finishedBy := .cancel, finishedHeight := height }

def runSwapCancel (orderHeight : Nat) (plan : CancelPlan) : TokenM Unit := do
  let token := plan.order.tokenOffer
  updateLedgerReceivable_ env (env.receivableKey block block.account token)
    ⟨block.account, plan.order.locked, block.height, plan.info.type, .refund⟩ plan.info (some block)
  let order := plan.order.cancelled block.height
  orderInfoPut env block.account orderHeight order
  observe (.order block.account orderHeight)
  closeOrder env block order block.account orderHeight
  updateLedgerStatus_ env block none [token]

def processSwapCancel_ (orderHeight : Nat) : TokenM Unit :=
  carryOut env block (swapCancelPlan block orderHeight) (runSwapCancel env block orderHeight)

def processSwapPing_ (maker : Account) : TokenM Unit := do
  updateLedgerAccountSwapPing_ env maker block.timestamp
  updateLedgerStatus_ env block none []

def processSwapPong_ : TokenM Unit := do
  updateLedgerAccountSwapPong_ env block.account block.timestamp
  updateLedgerStatus_ env block none []

end Cancel

def processSwap_ (env : TokenEnv) (block : Block) : ExtensionTokenSwap → TokenM Unit
  | .config main => processSwapConfig_ env block main
  | .make data => processSwapMake_ env block data
  | .inquiry data => processSwapInquiry_ env block data
  | .inquiryAck data => processSwapInquiryAck_ env block data
  | .take inquiryHeight => processSwapTake_ env block inquiryHeight
  | .takeAck data => processSwapTakeAck_ env block data
  | .takeNack taker inquiryHeight => processSwapTakeNack_ env block taker inquiryHeight
  | .cancel orderHeight => processSwapCancel_ env block orderHeight
  | .ping maker => processSwapPing_ env block maker
  | .pong => processSwapPong_ env block

end Raicoin
