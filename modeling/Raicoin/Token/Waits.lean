import Raicoin.Token.PlanSpec
import Raicoin.Token.Process

-- What the handlers of the token application wait for: blocks of other accounts and heights of
-- other chains.
namespace Raicoin

open Lib

-- A call of `WaitBlock`, of `WaitBlockIfExist` or of `WaitChain_`.
inductive Obstacle where
  | block (account : Account) (height : Nat)
  | existing (account : Account) (height : Nat)
  | chain (chain : Chain) (height : Nat)
  deriving DecidableEq

def Obstacle.check (env : TokenEnv) (l : TokenLedger) : Obstacle → Except ErrorCode Unit
  | .block account height => do
    let _ ← waitBlock env.app account height
  | .existing account height => do
    let _ ← waitBlockIfExist env.app account height
  | .chain followed height =>
    match l.chainHeads.get followed with
    | none => .error .APP_PROCESS_WAITING
    | some head => returnIf (height > head.toNat) .APP_PROCESS_WAITING

-- The first call that does not succeed ends the handler.
def firstWaited (env : TokenEnv) (l : TokenLedger) : List Obstacle → Option Obstacle
  | [] => none
  | obstacle :: obstacles =>
    match obstacle.check env l with
    | .ok () => firstWaited env l obstacles
    | .error code => if code = .APP_PROCESS_WAITING then some obstacle else none

section Obstacles

variable (block : Block) (l : TokenLedger)

-- The calls of each handler, in their order. `[]` stands for a return before them.
def receiveObstacles (receive : ExtensionTokenReceive) : List Obstacle :=
  if IsLocalSource receive.source then
    if receive.from_ = block.account ∧ receive.blockHeight ≥ block.height then []
    else [.block receive.from_ receive.blockHeight]
  else if receive.source = .map then [.chain receive.token.chain receive.blockHeight]
  else if receive.source = .unwrap then [.chain receive.unwrapChain receive.blockHeight]
  else []

def inquiryObstacles (inquiry : ExtensionTokenSwapInquiry) : List Obstacle :=
  if inquiry.maker = block.account then []
  else
    .block inquiry.maker inquiry.orderHeight ::
      match l.orders.get (inquiry.maker, inquiry.orderHeight) with
      | none => []
      | some order =>
        if order.main = block.account then [] else [.existing order.main inquiry.ackHeight]

-- What `ProcessSwapInquiryAck_` reads between its two waits.
def acknowledgeable (ack : ExtensionTokenSwapInquiryAck) : Option SwapInfo := do
  let _ ← l.inquiryWaitings.get ⟨block.account, block.height, ack.taker, ack.inquiryHeight⟩
  let swap ← l.swaps.get (ack.taker, ack.inquiryHeight)
  let order ← l.orders.get (swap.maker, swap.orderHeight)
  let _ ← l.tokens.get order.tokenOffer
  if swap.status = .inquiry then some swap else none

def inquiryAckObstacles (ack : ExtensionTokenSwapInquiryAck) : List Obstacle :=
  if ack.taker = block.account then []
  else
    .block ack.taker ack.inquiryHeight ::
      match acknowledgeable block l ack with
      | none => []
      | some swap => [.block swap.maker (ack.tradeHeight - 1)]

-- What `ProcessSwapTake_` reads before its waits.
def takeable (inquiryHeight : Nat) : Option (SwapInfo × OrderInfo) := do
  let swap ← l.swaps.get (block.account, inquiryHeight)
  let order ← l.orders.get (swap.maker, swap.orderHeight)
  let info ← l.tokens.get order.tokenWant
  if info.type = order.typeWant then some (swap, order) else none

def takeObstacles (inquiryHeight : Nat) : List Obstacle :=
  if inquiryHeight ≥ block.height then []
  else
    match takeable block l inquiryHeight with
    | none => []
    | some (swap, order) =>
      .block order.main swap.inquiryAckHeight ::
        if swap.status = .inquiryAck then [.existing swap.maker swap.tradeHeight] else []

def takeAckObstacles (ack : ExtensionTokenSwapTakeAck) : List Obstacle :=
  if ack.taker = block.account then [] else [.block ack.taker ack.takeHeight]

-- What `ProcessSwapTakeNack_` reads between its two waits.
def nackable (taker : Account) (inquiryHeight : Nat) : Option (SwapInfo × OrderInfo) := do
  let swap ← l.swaps.get (taker, inquiryHeight)
  let order ← l.orders.get (swap.maker, swap.orderHeight)
  let info ← l.tokens.get order.tokenOffer
  if swap.maker = block.account ∧ info.type = order.typeOffer then some (swap, order) else none

def takeNackObstacles (taker : Account) (inquiryHeight : Nat) : List Obstacle :=
  if taker = block.account then []
  else
    .block taker inquiryHeight ::
      match nackable block l taker inquiryHeight with
      | none => []
      | some (swap, order) => [.block order.main swap.inquiryAckHeight]

def swapObstacles : ExtensionTokenSwap → List Obstacle
  | .inquiry data => inquiryObstacles block l data
  | .inquiryAck data => inquiryAckObstacles block l data
  | .take inquiryHeight => takeObstacles block l inquiryHeight
  | .takeAck data => takeAckObstacles block data
  | .takeNack taker inquiryHeight => takeNackObstacles block l taker inquiryHeight
  | _ => []

def operationObstacles : ExtensionToken → List Obstacle
  | .receive data => receiveObstacles block data
  | .swap data => swapObstacles block l data
  | _ => []

def contentObstacles : TokenContent → List Obstacle
  | .operation token _ => operationObstacles block l token
  | _ => []

end Obstacles

-- What the block waits for when `AfterBlockAppend` gets it.
def waitedFor (env : TokenEnv) (block : Block) (content : TokenContent) (confirmed : Bool)
    (l : TokenLedger) : Option Obstacle :=
  if confirmed = false ∨ l.reentry block = true then none
  else firstWaited env l (contentObstacles block l content)

end Raicoin
