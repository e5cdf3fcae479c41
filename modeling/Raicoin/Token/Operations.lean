import Raicoin.Lib.Process
import Raicoin.Token.Types

-- The token extension of a block.
namespace Raicoin

open Lib

section Checks

def checkType (type : TokenType) : Except ErrorCode Unit :=
  returnIf (type = .invalid) .TOKEN_TYPE_INVALID

def checkChain (chain : Chain) : Except ErrorCode Unit :=
  returnIf (chain = .INVALID) .TOKEN_CHAIN_INVALID

def checkValue (type : TokenType) (value : TokenValue) : Except ErrorCode Unit :=
  returnIf (type = .t20 ∧ value = 0) .TOKEN_VALUE

-- A height that is `std::numeric_limits<uint64_t>::max()` is no height.
def checkHeight (height : Nat) (code : ErrorCode) : Except ErrorCode Unit :=
  returnIf (height = INVALID_HEIGHT) code

def checkAccount (account : Account) (code : ErrorCode) : Except ErrorCode Unit :=
  returnIf (account = 0) code

end Checks

structure ExtensionTokenInfo where
  chain : Chain
  type : TokenType
  address : TokenAddress
  deriving DecidableEq, Repr

namespace ExtensionTokenInfo

def key (info : ExtensionTokenInfo) : TokenKey := ⟨info.chain, info.address⟩

def fungible (info : ExtensionTokenInfo) : Bool := info.type = .t20

def nonFungible (info : ExtensionTokenInfo) : Bool := info.type = .t721

def isNative (info : ExtensionTokenInfo) : Bool := info.address = NativeAddress

def checkData (info : ExtensionTokenInfo) : Except ErrorCode Unit := do
  checkChain info.chain
  checkType info.type

end ExtensionTokenInfo

-- Texts are as `CheckUtf8` leaves them.
structure ExtensionToken20Create where
  name : String
  symbol : String
  initSupply : TokenValue
  capSupply : TokenValue
  decimals : UInt8
  burnable : Bool
  mintable : Bool
  circulable : Bool
  deriving DecidableEq, Repr

def ExtensionToken20Create.checkData (create : ExtensionToken20Create) : Except ErrorCode Unit :=
  returnIf (create.capSupply ≠ 0 ∧ create.initSupply > create.capSupply)
    .TOKEN_CAP_SUPPLY_EXCEEDED

structure ExtensionToken721Create where
  name : String
  symbol : String
  baseUri : String
  capSupply : TokenValue
  burnable : Bool
  circulable : Bool
  deriving DecidableEq, Repr

inductive ExtensionTokenCreate where
  | token20 (create : ExtensionToken20Create)
  | token721 (create : ExtensionToken721Create)
  deriving DecidableEq, Repr

def ExtensionTokenCreate.checkData : ExtensionTokenCreate → Except ErrorCode Unit
  | .token20 create => create.checkData
  | .token721 _ => .ok ()

structure ExtensionTokenMint where
  type : TokenType
  to_ : Account
  value : TokenValue
  uri : String
  deriving DecidableEq, Repr

def ExtensionTokenMint.checkData (mint : ExtensionTokenMint) : Except ErrorCode Unit := do
  checkType mint.type
  checkAccount mint.to_ .TOKEN_MINT_TO
  checkValue mint.type mint.value

structure ExtensionTokenBurn where
  type : TokenType
  value : TokenValue
  deriving DecidableEq, Repr

def ExtensionTokenBurn.checkData (burn : ExtensionTokenBurn) : Except ErrorCode Unit := do
  checkType burn.type
  checkValue burn.type burn.value

structure ExtensionTokenSend where
  token : ExtensionTokenInfo
  to_ : Account
  value : TokenValue
  deriving DecidableEq, Repr

def ExtensionTokenSend.checkData (send : ExtensionTokenSend) : Except ErrorCode Unit := do
  send.token.checkData
  checkAccount send.to_ .TOKEN_SEND_TO
  checkValue send.token.type send.value

structure ExtensionTokenReceive where
  token : ExtensionTokenInfo
  source : TokenSource
  from_ : Account
  blockHeight : Nat
  txHash : BlockHash
  value : TokenValue
  unwrapChain : Chain
  index : Nat
  deriving DecidableEq, Repr

def ExtensionTokenReceive.checkData (receive : ExtensionTokenReceive) : Except ErrorCode Unit := do
  receive.token.checkData
  returnIf (receive.source = .invalid) .TOKEN_SOURCE_INVALID
  checkHeight receive.blockHeight .TOKEN_BLOCK_HEIGHT
  checkValue receive.token.type receive.value
  returnIf (receive.source = .map ∧ IsRaicoin receive.token.chain = true ∧
    receive.token.isNative = false) .TOKEN_SOURCE_INVALID
  match receive.source with
  | .unwrap => do
    checkChain receive.unwrapChain
    returnIf (receive.token.chain = receive.unwrapChain) .TOKEN_UNWRAP_CHAIN
  | _ => return ()

structure ExtensionTokenUnmap where
  token : ExtensionTokenInfo
  to_ : Account
  value : TokenValue
  extraData : Nat
  deriving DecidableEq, Repr

def ExtensionTokenUnmap.checkData (unmap : ExtensionTokenUnmap) : Except ErrorCode Unit := do
  unmap.token.checkData
  returnIf (IsRaicoin unmap.token.chain = true ∧ unmap.token.isNative = false) .TOKEN_UNMAP_CHAIN
  checkAccount unmap.to_ .TOKEN_UNMAP_TO
  checkValue unmap.token.type unmap.value

structure ExtensionTokenWrap where
  token : ExtensionTokenInfo
  toChain : Chain
  toAccount : Account
  value : TokenValue
  deriving DecidableEq, Repr

def ExtensionTokenWrap.checkData (wrap : ExtensionTokenWrap) : Except ErrorCode Unit := do
  wrap.token.checkData
  checkChain wrap.toChain
  returnIf (wrap.token.chain = wrap.toChain) .TOKEN_WRAP_CHAIN
  checkAccount wrap.toAccount .TOKEN_WRAP_TO
  checkValue wrap.token.type wrap.value

structure ExtensionTokenSwapMake where
  tokenOffer : ExtensionTokenInfo
  tokenWant : ExtensionTokenInfo
  valueOffer : TokenValue
  valueWant : TokenValue
  minOffer : TokenValue
  maxOffer : TokenValue
  timeout : Nat
  deriving DecidableEq, Repr

-- `rai::uint512_t`: the product of two values always fits.
abbrev Uint512 := BitVec 512

def wide (value : TokenValue) : Uint512 := value.zeroExtend 512

namespace ExtensionTokenSwapMake

def fungiblePair (make : ExtensionTokenSwapMake) : Bool :=
  make.tokenOffer.fungible && make.tokenWant.fungible

-- The pair of a collection with itself needs two ids.
def checkPair (make : ExtensionTokenSwapMake) : Except ErrorCode Unit :=
  returnIf (make.tokenOffer = make.tokenWant ∧ (make.tokenOffer.fungible = true ∨
    make.tokenOffer.nonFungible = true ∧ make.valueOffer = make.valueWant)) .TOKEN_SWAP_PAIR_EQUAL

-- What is offered at the price of the order must be worth a whole value of the wanted token.
def checkOffers (make : ExtensionTokenSwapMake) : Except ErrorCode Unit := do
  returnIf (make.maxOffer = 0) .TOKEN_SWAP_MAX_OFFER
  returnIf (wide make.maxOffer * wide make.valueWant % wide make.valueOffer ≠ 0)
    .TOKEN_SWAP_MAX_OFFER
  returnIf (make.minOffer > make.maxOffer) .TOKEN_SWAP_MIN_OFFER
  returnIf (wide make.minOffer * wide make.valueWant % wide make.valueOffer ≠ 0)
    .TOKEN_SWAP_MIN_OFFER

def checkData (make : ExtensionTokenSwapMake) : Except ErrorCode Unit := do
  make.tokenOffer.checkData
  make.tokenWant.checkData
  make.checkPair
  returnIf (make.tokenOffer.fungible = true ∧ make.valueOffer = 0) .TOKEN_SWAP_VALUE_OFFER
  returnIf (make.tokenWant.fungible = true ∧ make.valueWant = 0) .TOKEN_SWAP_VALUE_WANT
  if make.fungiblePair then make.checkOffers else return ()

end ExtensionTokenSwapMake

-- That a share is a key is not checked here: no handler reads it.
structure ExtensionTokenSwapInquiry where
  maker : Account
  orderHeight : Nat
  ackHeight : Nat
  timeout : Nat
  value : TokenValue
  share : PublicKey
  deriving DecidableEq, Repr

def ExtensionTokenSwapInquiry.checkData (inquiry : ExtensionTokenSwapInquiry) :
    Except ErrorCode Unit := do
  checkAccount inquiry.maker .TOKEN_SWAP_MAKER
  checkHeight inquiry.orderHeight .TOKEN_SWAP_ORDER_HEIGHT
  checkHeight inquiry.ackHeight .TOKEN_SWAP_ACK_HEIGHT

structure ExtensionTokenSwapInquiryAck where
  taker : Account
  inquiryHeight : Nat
  tradeHeight : Nat
  share : PublicKey
  signature : Signature
  deriving DecidableEq, Repr

def ExtensionTokenSwapInquiryAck.checkData (ack : ExtensionTokenSwapInquiryAck) :
    Except ErrorCode Unit := do
  checkAccount ack.taker .TOKEN_SWAP_TAKER
  checkHeight ack.inquiryHeight .TOKEN_SWAP_INQUIRY_HEIGHT
  returnIf (ack.tradeHeight = INVALID_HEIGHT ∨ ack.tradeHeight = 0) .TOKEN_SWAP_TRADE_HEIGHT

structure ExtensionTokenSwapTakeAck where
  taker : Account
  inquiryHeight : Nat
  takeHeight : Nat
  value : TokenValue
  deriving DecidableEq, Repr

def ExtensionTokenSwapTakeAck.checkData (ack : ExtensionTokenSwapTakeAck) :
    Except ErrorCode Unit := do
  checkAccount ack.taker .TOKEN_SWAP_TAKER
  checkHeight ack.inquiryHeight .TOKEN_SWAP_INQUIRY_HEIGHT
  checkHeight ack.takeHeight .TOKEN_SWAP_TAKE_HEIGHT
  returnIf (ack.takeHeight ≤ ack.inquiryHeight) .TOKEN_SWAP_TAKE_HEIGHT

inductive ExtensionTokenSwap where
  | config (main : Account)
  | make (data : ExtensionTokenSwapMake)
  | inquiry (data : ExtensionTokenSwapInquiry)
  | inquiryAck (data : ExtensionTokenSwapInquiryAck)
  | take (inquiryHeight : Nat)
  | takeAck (data : ExtensionTokenSwapTakeAck)
  | takeNack (taker : Account) (inquiryHeight : Nat)
  | cancel (orderHeight : Nat)
  | ping (maker : Account)
  | pong
  deriving DecidableEq, Repr

def ExtensionTokenSwap.checkData : ExtensionTokenSwap → Except ErrorCode Unit
  | .config _ => .ok ()
  | .make data => data.checkData
  | .inquiry data => data.checkData
  | .inquiryAck data => data.checkData
  | .take inquiryHeight => checkHeight inquiryHeight .TOKEN_SWAP_INQUIRY_HEIGHT
  | .takeAck data => data.checkData
  | .takeNack taker inquiryHeight => do
    checkAccount taker .TOKEN_SWAP_TAKER
    checkHeight inquiryHeight .TOKEN_SWAP_INQUIRY_HEIGHT
  | .cancel orderHeight => checkHeight orderHeight .TOKEN_SWAP_ORDER_HEIGHT
  | .ping maker => checkAccount maker .TOKEN_SWAP_MAKER
  | .pong => .ok ()

inductive ExtensionToken where
  | create (data : ExtensionTokenCreate)
  | mint (data : ExtensionTokenMint)
  | burn (data : ExtensionTokenBurn)
  | send (data : ExtensionTokenSend)
  | receive (data : ExtensionTokenReceive)
  | swap (data : ExtensionTokenSwap)
  | unmap (data : ExtensionTokenUnmap)
  | wrap (data : ExtensionTokenWrap)
  deriving DecidableEq, Repr

def ExtensionToken.checkData : ExtensionToken → Except ErrorCode Unit
  | .create data => data.checkData
  | .mint data => data.checkData
  | .burn data => data.checkData
  | .send data => data.checkData
  | .receive data => data.checkData
  | .swap data => data.checkData
  | .unmap data => data.checkData
  | .wrap data => data.checkData

-- What the extensions of a block say about tokens: nothing, more than one token
-- extension, one that cannot be read, or an operation. Reading one checks its data, so
-- that the checks the handlers repeat never fail.
inductive TokenContent where
  | none
  | many
  | broken (code : ErrorCode)
  | operation (token : ExtensionToken) (checked : token.checkData = .ok ())
  deriving DecidableEq

end Raicoin
