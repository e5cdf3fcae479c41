import Raicoin.Common.Util
import Raicoin.Token.Types

-- The TOKEN extension as it stands in the bytes of a block: its records, what each of
-- them checks of its data, and how it is written and read.
namespace Raicoin.Payload

open Lib

-- `rai::TokenType`, `rai::TokenSource` and the operations, by number: a byte may hold
-- any of 256 values before it is checked.
abbrev TokenType := UInt8

namespace TokenType

def INVALID : TokenType := 0
def T20 : TokenType := 1
def T721 : TokenType := 2
def MAX : TokenType := 3

end TokenType

abbrev TokenSource := UInt8

namespace TokenSource

def INVALID : TokenSource := 0
def SEND : TokenSource := 1
def MAP : TokenSource := 2
def UNWRAP : TokenSource := 3
def SWAP : TokenSource := 4
def MINT : TokenSource := 5
def REFUND : TokenSource := 6
def MAX : TokenSource := 7

end TokenSource

section Checks

def checkType (type : TokenType) : Except ErrorCode Unit := do
  returnIf (type = .INVALID) .TOKEN_TYPE_INVALID
  returnIf (type ≥ .MAX) .TOKEN_TYPE_UNKNOWN

def checkChain (chain : Chain) : Except ErrorCode Unit :=
  returnIf (chain = .INVALID) .TOKEN_CHAIN_INVALID

def checkValue (type : TokenType) (value : TokenValue) : Except ErrorCode Unit :=
  returnIf (type = .T20 ∧ value = 0) .TOKEN_VALUE

-- `CheckUtf8`, where a control character is an error as well.
def checkText (text : Text) (code : ErrorCode) : Except ErrorCode Unit :=
  returnIf (checkUtf8 text ≠ some false) code

-- `std::numeric_limits<uint64_t>::max()` is no height.
def NO_HEIGHT : UInt64 := 0xffffffffffffffff

end Checks

-- `return CheckData();` at the end of a `Deserialize`.
def checked {α : Type} (data : α) (tests : Except ErrorCode Unit) : StreamM α := do
  check fun _ => tests
  return data

structure ExtensionTokenInfo where
  chain : Chain
  type : TokenType
  address : TokenAddress
  deriving DecidableEq

namespace ExtensionTokenInfo

def fungible (info : ExtensionTokenInfo) : Bool := info.type = .T20

def nonFungible (info : ExtensionTokenInfo) : Bool := info.type = .T721

def isNative (info : ExtensionTokenInfo) : Bool := info.address = NativeAddress

def checkData (info : ExtensionTokenInfo) : Except ErrorCode Unit := do
  checkChain info.chain
  checkType info.type

def serialize (info : ExtensionTokenInfo) : List UInt8 :=
  [streamWrite info.chain, streamWrite info.type, streamWrite info.address].flatten

def deserialize : StreamM ExtensionTokenInfo := do
  let chain : Chain ← streamRead
  let type : TokenType ← streamRead
  let address : TokenAddress ← streamRead
  let info : ExtensionTokenInfo := ⟨chain, type, address⟩
  checked info info.checkData

end ExtensionTokenInfo

structure ExtensionToken20Create where
  name : Text
  symbol : Text
  initSupply : TokenValue
  capSupply : TokenValue
  decimals : UInt8
  burnable : Bool
  mintable : Bool
  circulable : Bool
  deriving DecidableEq

namespace ExtensionToken20Create

def checkData (create : ExtensionToken20Create) : Except ErrorCode Unit := do
  checkText create.name .TOKEN_NAME_UTF8_CHECK
  checkText create.symbol .TOKEN_SYMBOL_UTF8_CHECK
  returnIf (create.capSupply ≠ 0 ∧ create.initSupply > create.capSupply)
    .TOKEN_CAP_SUPPLY_EXCEEDED

def serialize (create : ExtensionToken20Create) : List UInt8 :=
  [writeString create.name, writeString create.symbol, streamWrite create.initSupply,
    streamWrite create.capSupply, streamWrite create.decimals, writeBool create.burnable,
    writeBool create.mintable, writeBool create.circulable].flatten

def deserialize : StreamM ExtensionToken20Create := do
  let name ← readString
  let symbol ← readString
  let initSupply : TokenValue ← streamRead
  let capSupply : TokenValue ← streamRead
  let decimals : UInt8 ← streamRead
  let burnable ← readBool
  let mintable ← readBool
  let circulable ← readBool
  let create : ExtensionToken20Create :=
    ⟨name, symbol, initSupply, capSupply, decimals, burnable, mintable, circulable⟩
  checked create create.checkData

end ExtensionToken20Create

structure ExtensionToken721Create where
  name : Text
  symbol : Text
  baseUri : Text
  capSupply : TokenValue
  burnable : Bool
  circulable : Bool
  deriving DecidableEq

namespace ExtensionToken721Create

def checkData (create : ExtensionToken721Create) : Except ErrorCode Unit := do
  checkText create.name .TOKEN_NAME_UTF8_CHECK
  checkText create.symbol .TOKEN_SYMBOL_UTF8_CHECK
  checkText create.baseUri .TOKEN_BASE_URI_UTF8_CHECK

def serialize (create : ExtensionToken721Create) : List UInt8 :=
  [writeString create.name, writeString create.symbol, writeString create.baseUri,
    streamWrite create.capSupply, writeBool create.burnable, writeBool create.circulable].flatten

def deserialize : StreamM ExtensionToken721Create := do
  let name ← readString
  let symbol ← readString
  let baseUri ← readString
  let capSupply : TokenValue ← streamRead
  let burnable ← readBool
  let circulable ← readBool
  let create : ExtensionToken721Create := ⟨name, symbol, baseUri, capSupply, burnable, circulable⟩
  checked create create.checkData

end ExtensionToken721Create

-- The type of the token decides which data there is.
inductive ExtensionTokenCreate where
  | token20 (data : ExtensionToken20Create)
  | token721 (data : ExtensionToken721Create)
  deriving DecidableEq

namespace ExtensionTokenCreate

def type : ExtensionTokenCreate → TokenType
  | .token20 _ => .T20
  | .token721 _ => .T721

def checkData : ExtensionTokenCreate → Except ErrorCode Unit
  | .token20 data => data.checkData
  | .token721 data => data.checkData

def data : ExtensionTokenCreate → List UInt8
  | .token20 data => data.serialize
  | .token721 data => data.serialize

def serialize (create : ExtensionTokenCreate) : List UInt8 :=
  streamWrite create.type ++ create.data

-- `MakeData` and the `Deserialize` of what it made.
def readData (type : TokenType) : StreamM ExtensionTokenCreate :=
  if type = .T20 then do
    let data ← ExtensionToken20Create.deserialize
    return .token20 data
  else if type = .T721 then do
    let data ← ExtensionToken721Create.deserialize
    return .token721 data
  else throw .UNEXPECTED

def deserialize : StreamM ExtensionTokenCreate := do
  let type : TokenType ← streamRead
  check fun _ => checkType type
  readData type

end ExtensionTokenCreate

-- There is a URI for tokens of type 721 only.
structure ExtensionTokenMint where
  type : TokenType
  to_ : Account
  value : TokenValue
  uri : Text
  uri_eq : type ≠ .T721 → uri = []
  deriving DecidableEq

namespace ExtensionTokenMint

def checkData (mint : ExtensionTokenMint) : Except ErrorCode Unit := do
  checkType mint.type
  returnIf (mint.to_ = 0) .TOKEN_MINT_TO
  checkValue mint.type mint.value
  checkText mint.uri .TOKEN_URI_UTF8_CHECK

def serialize (mint : ExtensionTokenMint) : List UInt8 :=
  [streamWrite mint.type, streamWrite mint.to_, streamWrite mint.value,
    if mint.type = .T721 then writeString mint.uri else []].flatten

def deserialize : StreamM ExtensionTokenMint := do
  let type : TokenType ← streamRead
  let to_ : Account ← streamRead
  let value : TokenValue ← streamRead
  let uri ← Reader.when (type = .T721) [] readString
  -- without a URI it was left empty above
  if h : type ≠ .T721 → uri = [] then do
    let mint : ExtensionTokenMint := ⟨type, to_, value, uri, h⟩
    checked mint mint.checkData
  else throw .UNEXPECTED

end ExtensionTokenMint

structure ExtensionTokenBurn where
  type : TokenType
  value : TokenValue
  deriving DecidableEq

namespace ExtensionTokenBurn

def checkData (burn : ExtensionTokenBurn) : Except ErrorCode Unit := do
  checkType burn.type
  checkValue burn.type burn.value

def serialize (burn : ExtensionTokenBurn) : List UInt8 :=
  [streamWrite burn.type, streamWrite burn.value].flatten

def deserialize : StreamM ExtensionTokenBurn := do
  let type : TokenType ← streamRead
  let value : TokenValue ← streamRead
  let burn : ExtensionTokenBurn := ⟨type, value⟩
  checked burn burn.checkData

end ExtensionTokenBurn

structure ExtensionTokenSend where
  token : ExtensionTokenInfo
  to_ : Account
  value : TokenValue
  deriving DecidableEq

namespace ExtensionTokenSend

def checkData (send : ExtensionTokenSend) : Except ErrorCode Unit := do
  send.token.checkData
  returnIf (send.to_ = 0) .TOKEN_SEND_TO
  checkValue send.token.type send.value

def serialize (send : ExtensionTokenSend) : List UInt8 :=
  [send.token.serialize, streamWrite send.to_, streamWrite send.value].flatten

def deserialize : StreamM ExtensionTokenSend := do
  let token ← ExtensionTokenInfo.deserialize
  let to_ : Account ← streamRead
  let value : TokenValue ← streamRead
  let send : ExtensionTokenSend := ⟨token, to_, value⟩
  checked send send.checkData

end ExtensionTokenSend

-- The sources whose receivables have an index.
def indexed (source : TokenSource) : Bool := source = .UNWRAP || source = .MAP

structure ExtensionTokenReceive where
  token : ExtensionTokenInfo
  source : TokenSource
  from_ : Account
  blockHeight : UInt64
  txHash : BlockHash
  value : TokenValue
  unwrapChain : Chain
  index : UInt64
  unwrapChain_eq : source ≠ .UNWRAP → unwrapChain = .INVALID
  index_eq : indexed source = false → index = 0
  deriving DecidableEq

namespace ExtensionTokenReceive

def checkData (receive : ExtensionTokenReceive) : Except ErrorCode Unit := do
  receive.token.checkData
  returnIf (receive.source = .INVALID) .TOKEN_SOURCE_INVALID
  returnIf (receive.source ≥ .MAX) .TOKEN_SOURCE_UNKNOWN
  returnIf (receive.blockHeight = NO_HEIGHT) .TOKEN_BLOCK_HEIGHT
  checkValue receive.token.type receive.value
  returnIf (receive.source = .MAP ∧ IsRaicoin receive.token.chain = true ∧
    receive.token.isNative = false) .TOKEN_SOURCE_INVALID
  if receive.source = .UNWRAP then do
    checkChain receive.unwrapChain
    returnIf (receive.token.chain = receive.unwrapChain) .TOKEN_UNWRAP_CHAIN
  else return ()

def serialize (receive : ExtensionTokenReceive) : List UInt8 :=
  [receive.token.serialize, streamWrite receive.source, streamWrite receive.from_,
    streamWrite receive.blockHeight, streamWrite receive.txHash, streamWrite receive.value,
    if receive.source = .UNWRAP then streamWrite receive.unwrapChain else [],
    if indexed receive.source = true then streamWrite receive.index else []].flatten

-- `readIndex` is how the index is read, see below.
def deserialize (readIndex : StreamM UInt64) : StreamM ExtensionTokenReceive := do
  let token ← ExtensionTokenInfo.deserialize
  let source : TokenSource ← streamRead
  let from_ : Account ← streamRead
  let blockHeight : UInt64 ← streamRead
  let txHash : BlockHash ← streamRead
  let value : TokenValue ← streamRead
  let unwrapChain ← Reader.when (source = .UNWRAP) Chain.INVALID streamRead
  let index ← Reader.when (indexed source = true) 0 readIndex
  -- what is not read was left as it is above
  if h : (source ≠ .UNWRAP → unwrapChain = .INVALID) ∧ (indexed source = false → index = 0) then do
    let receive : ExtensionTokenReceive :=
      ⟨token, source, from_, blockHeight, txHash, value, unwrapChain, index, h.1, h.2⟩
    checked receive receive.checkData
  else throw .UNEXPECTED

end ExtensionTokenReceive

-- `error = Read(stream, index_)`, whose error nobody looks at: where the stream is short,
-- the bytes that there are stand before those that the member held.
def readIndex (unset : UInt64) : StreamM UInt64 := fun stream =>
  match (streamRead : StreamM UInt64) stream with
  | .ok index rest => .ok index rest
  | .error _ rest =>
    .ok (Wire.ofNat (fromBigEndian (stream ++ (streamWrite unset).drop stream.length))) rest

structure ExtensionTokenSwapConfig where
  main : Account
  deriving DecidableEq

namespace ExtensionTokenSwapConfig

def checkData (_ : ExtensionTokenSwapConfig) : Except ErrorCode Unit := .ok ()

def serialize (config : ExtensionTokenSwapConfig) : List UInt8 := streamWrite config.main

def deserialize : StreamM ExtensionTokenSwapConfig := do
  let main : Account ← streamRead
  let config : ExtensionTokenSwapConfig := ⟨main⟩
  checked config config.checkData

end ExtensionTokenSwapConfig

def fungiblePair (offer want : ExtensionTokenInfo) : Bool := offer.fungible && want.fungible

-- `rai::uint512_t`: the product of two values always fits.
def wide (value : TokenValue) : BitVec 512 := value.zeroExtend 512

-- There are bounds for a pair of fungible tokens only.
structure ExtensionTokenSwapMake where
  tokenOffer : ExtensionTokenInfo
  tokenWant : ExtensionTokenInfo
  valueOffer : TokenValue
  valueWant : TokenValue
  minOffer : TokenValue
  maxOffer : TokenValue
  timeout : UInt64
  offers_eq : fungiblePair tokenOffer tokenWant = false → minOffer = 0 ∧ maxOffer = 0
  deriving DecidableEq

namespace ExtensionTokenSwapMake

def checkPair (make : ExtensionTokenSwapMake) : Except ErrorCode Unit :=
  returnIf (make.tokenOffer = make.tokenWant ∧ (make.tokenOffer.fungible = true ∨
    make.tokenOffer.nonFungible = true ∧ make.valueOffer = make.valueWant)) .TOKEN_SWAP_PAIR_EQUAL

def checkOffers (make : ExtensionTokenSwapMake) : Except ErrorCode Unit := do
  returnIf (make.maxOffer = 0) .TOKEN_SWAP_MAX_OFFER
  returnIf (wide make.maxOffer * wide make.valueWant % wide make.valueOffer ≠ 0)
    .TOKEN_SWAP_MAX_OFFER
  returnIf (make.minOffer > make.maxOffer) .TOKEN_SWAP_MIN_OFFER
  returnIf (wide make.minOffer * wide make.valueWant % wide make.valueOffer ≠ 0)
    .TOKEN_SWAP_MIN_OFFER

def checkData (make : ExtensionTokenSwapMake) : Except ErrorCode Unit := do
  make.tokenOffer.checkData
  make.tokenWant.checkData
  make.checkPair
  returnIf (make.tokenOffer.fungible = true ∧ make.valueOffer = 0) .TOKEN_SWAP_VALUE_OFFER
  returnIf (make.tokenWant.fungible = true ∧ make.valueWant = 0) .TOKEN_SWAP_VALUE_WANT
  if fungiblePair make.tokenOffer make.tokenWant = true then make.checkOffers else return ()

def serialize (make : ExtensionTokenSwapMake) : List UInt8 :=
  [make.tokenOffer.serialize, make.tokenWant.serialize, streamWrite make.valueOffer,
    streamWrite make.valueWant,
    if fungiblePair make.tokenOffer make.tokenWant = true then
      [streamWrite make.minOffer, streamWrite make.maxOffer].flatten
    else [],
    streamWrite make.timeout].flatten

def readOffers : StreamM (TokenValue × TokenValue) := do
  let minOffer : TokenValue ← streamRead
  let maxOffer : TokenValue ← streamRead
  return (minOffer, maxOffer)

def deserialize : StreamM ExtensionTokenSwapMake := do
  let tokenOffer ← ExtensionTokenInfo.deserialize
  let tokenWant ← ExtensionTokenInfo.deserialize
  let valueOffer : TokenValue ← streamRead
  let valueWant : TokenValue ← streamRead
  let offers ← Reader.when (fungiblePair tokenOffer tokenWant = true) (0, 0) readOffers
  let timeout : UInt64 ← streamRead
  -- the bounds that are not read were left as they are above
  if h : fungiblePair tokenOffer tokenWant = false → offers.1 = 0 ∧ offers.2 = 0 then do
    let make : ExtensionTokenSwapMake :=
      ⟨tokenOffer, tokenWant, valueOffer, valueWant, offers.1, offers.2, timeout, h⟩
    checked make make.checkData
  else throw .UNEXPECTED

end ExtensionTokenSwapMake

structure ExtensionTokenSwapInquiry where
  maker : Account
  orderHeight : UInt64
  ackHeight : UInt64
  timeout : UInt64
  value : TokenValue
  share : PublicKey
  deriving DecidableEq

-- `x25519::IsSmallOrder` decides which public keys are valid.
variable (validPublicKey : PublicKey → Bool)

namespace ExtensionTokenSwapInquiry

def checkData (inquiry : ExtensionTokenSwapInquiry) : Except ErrorCode Unit := do
  returnIf (inquiry.maker = 0) .TOKEN_SWAP_MAKER
  returnIf (inquiry.orderHeight = NO_HEIGHT) .TOKEN_SWAP_ORDER_HEIGHT
  returnIf (inquiry.ackHeight = NO_HEIGHT) .TOKEN_SWAP_ACK_HEIGHT
  returnIf (validPublicKey inquiry.share = false) .TOKEN_SWAP_SHARE

def serialize (inquiry : ExtensionTokenSwapInquiry) : List UInt8 :=
  [streamWrite inquiry.maker, streamWrite inquiry.orderHeight, streamWrite inquiry.ackHeight,
    streamWrite inquiry.timeout, streamWrite inquiry.value, streamWrite inquiry.share].flatten

def deserialize : StreamM ExtensionTokenSwapInquiry := do
  let maker : Account ← streamRead
  let orderHeight : UInt64 ← streamRead
  let ackHeight : UInt64 ← streamRead
  let timeout : UInt64 ← streamRead
  let value : TokenValue ← streamRead
  let share : PublicKey ← streamRead
  let inquiry : ExtensionTokenSwapInquiry := ⟨maker, orderHeight, ackHeight, timeout, value, share⟩
  checked inquiry (inquiry.checkData validPublicKey)

end ExtensionTokenSwapInquiry

structure ExtensionTokenSwapInquiryAck where
  taker : Account
  inquiryHeight : UInt64
  tradeHeight : UInt64
  share : PublicKey
  signature : Signature
  deriving DecidableEq

namespace ExtensionTokenSwapInquiryAck

def checkData (ack : ExtensionTokenSwapInquiryAck) : Except ErrorCode Unit := do
  returnIf (ack.taker = 0) .TOKEN_SWAP_TAKER
  returnIf (ack.inquiryHeight = NO_HEIGHT) .TOKEN_SWAP_INQUIRY_HEIGHT
  returnIf (ack.tradeHeight = NO_HEIGHT ∨ ack.tradeHeight = 0) .TOKEN_SWAP_TRADE_HEIGHT
  returnIf (validPublicKey ack.share = false) .TOKEN_SWAP_SHARE

def serialize (ack : ExtensionTokenSwapInquiryAck) : List UInt8 :=
  [streamWrite ack.taker, streamWrite ack.inquiryHeight, streamWrite ack.tradeHeight,
    streamWrite ack.share, streamWrite ack.signature].flatten

def deserialize : StreamM ExtensionTokenSwapInquiryAck := do
  let taker : Account ← streamRead
  let inquiryHeight : UInt64 ← streamRead
  let tradeHeight : UInt64 ← streamRead
  let share : PublicKey ← streamRead
  let signature : Signature ← streamRead
  let ack : ExtensionTokenSwapInquiryAck := ⟨taker, inquiryHeight, tradeHeight, share, signature⟩
  checked ack (ack.checkData validPublicKey)

end ExtensionTokenSwapInquiryAck

structure ExtensionTokenSwapTake where
  inquiryHeight : UInt64
  deriving DecidableEq

namespace ExtensionTokenSwapTake

def checkData (take : ExtensionTokenSwapTake) : Except ErrorCode Unit :=
  returnIf (take.inquiryHeight = NO_HEIGHT) .TOKEN_SWAP_INQUIRY_HEIGHT

def serialize (take : ExtensionTokenSwapTake) : List UInt8 := streamWrite take.inquiryHeight

def deserialize : StreamM ExtensionTokenSwapTake := do
  let inquiryHeight : UInt64 ← streamRead
  let take : ExtensionTokenSwapTake := ⟨inquiryHeight⟩
  checked take take.checkData

end ExtensionTokenSwapTake

structure ExtensionTokenSwapTakeAck where
  taker : Account
  inquiryHeight : UInt64
  takeHeight : UInt64
  value : TokenValue
  deriving DecidableEq

namespace ExtensionTokenSwapTakeAck

def checkData (ack : ExtensionTokenSwapTakeAck) : Except ErrorCode Unit := do
  returnIf (ack.taker = 0) .TOKEN_SWAP_TAKER
  returnIf (ack.inquiryHeight = NO_HEIGHT) .TOKEN_SWAP_INQUIRY_HEIGHT
  returnIf (ack.takeHeight = NO_HEIGHT) .TOKEN_SWAP_TAKE_HEIGHT
  returnIf (ack.takeHeight ≤ ack.inquiryHeight) .TOKEN_SWAP_TAKE_HEIGHT

def serialize (ack : ExtensionTokenSwapTakeAck) : List UInt8 :=
  [streamWrite ack.taker, streamWrite ack.inquiryHeight, streamWrite ack.takeHeight,
    streamWrite ack.value].flatten

def deserialize : StreamM ExtensionTokenSwapTakeAck := do
  let taker : Account ← streamRead
  let inquiryHeight : UInt64 ← streamRead
  let takeHeight : UInt64 ← streamRead
  let value : TokenValue ← streamRead
  let ack : ExtensionTokenSwapTakeAck := ⟨taker, inquiryHeight, takeHeight, value⟩
  checked ack ack.checkData

end ExtensionTokenSwapTakeAck

structure ExtensionTokenSwapTakeNack where
  taker : Account
  inquiryHeight : UInt64
  deriving DecidableEq

namespace ExtensionTokenSwapTakeNack

def checkData (nack : ExtensionTokenSwapTakeNack) : Except ErrorCode Unit := do
  returnIf (nack.taker = 0) .TOKEN_SWAP_TAKER
  returnIf (nack.inquiryHeight = NO_HEIGHT) .TOKEN_SWAP_INQUIRY_HEIGHT

def serialize (nack : ExtensionTokenSwapTakeNack) : List UInt8 :=
  [streamWrite nack.taker, streamWrite nack.inquiryHeight].flatten

def deserialize : StreamM ExtensionTokenSwapTakeNack := do
  let taker : Account ← streamRead
  let inquiryHeight : UInt64 ← streamRead
  let nack : ExtensionTokenSwapTakeNack := ⟨taker, inquiryHeight⟩
  checked nack nack.checkData

end ExtensionTokenSwapTakeNack

structure ExtensionTokenSwapCancel where
  orderHeight : UInt64
  deriving DecidableEq

namespace ExtensionTokenSwapCancel

def checkData (cancel : ExtensionTokenSwapCancel) : Except ErrorCode Unit :=
  returnIf (cancel.orderHeight = NO_HEIGHT) .TOKEN_SWAP_ORDER_HEIGHT

def serialize (cancel : ExtensionTokenSwapCancel) : List UInt8 := streamWrite cancel.orderHeight

def deserialize : StreamM ExtensionTokenSwapCancel := do
  let orderHeight : UInt64 ← streamRead
  let cancel : ExtensionTokenSwapCancel := ⟨orderHeight⟩
  checked cancel cancel.checkData

end ExtensionTokenSwapCancel

structure ExtensionTokenSwapPing where
  maker : Account
  deriving DecidableEq

namespace ExtensionTokenSwapPing

def checkData (ping : ExtensionTokenSwapPing) : Except ErrorCode Unit :=
  returnIf (ping.maker = 0) .TOKEN_SWAP_MAKER

def serialize (ping : ExtensionTokenSwapPing) : List UInt8 := streamWrite ping.maker

def deserialize : StreamM ExtensionTokenSwapPing := do
  let maker : Account ← streamRead
  let ping : ExtensionTokenSwapPing := ⟨maker⟩
  checked ping ping.checkData

end ExtensionTokenSwapPing

abbrev SubOp := UInt8

namespace SubOp

def INVALID : SubOp := 0
def CONFIG : SubOp := 1
def MAKE : SubOp := 2
def INQUIRY : SubOp := 3
def INQUIRY_ACK : SubOp := 4
def TAKE : SubOp := 5
def TAKE_ACK : SubOp := 6
def TAKE_NACK : SubOp := 7
def CANCEL : SubOp := 8
def PING : SubOp := 9
def PONG : SubOp := 10
def MAX : SubOp := 11

end SubOp

-- The sub-operation decides which data there is.
inductive ExtensionTokenSwap where
  | config (data : ExtensionTokenSwapConfig)
  | make (data : ExtensionTokenSwapMake)
  | inquiry (data : ExtensionTokenSwapInquiry)
  | inquiryAck (data : ExtensionTokenSwapInquiryAck)
  | take (data : ExtensionTokenSwapTake)
  | takeAck (data : ExtensionTokenSwapTakeAck)
  | takeNack (data : ExtensionTokenSwapTakeNack)
  | cancel (data : ExtensionTokenSwapCancel)
  | ping (data : ExtensionTokenSwapPing)
  | pong
  deriving DecidableEq

namespace ExtensionTokenSwap

def subOp : ExtensionTokenSwap → SubOp
  | .config _ => .CONFIG
  | .make _ => .MAKE
  | .inquiry _ => .INQUIRY
  | .inquiryAck _ => .INQUIRY_ACK
  | .take _ => .TAKE
  | .takeAck _ => .TAKE_ACK
  | .takeNack _ => .TAKE_NACK
  | .cancel _ => .CANCEL
  | .ping _ => .PING
  | .pong => .PONG

def checkSubOp (subOp : SubOp) : Except ErrorCode Unit := do
  returnIf (subOp = .INVALID) .TOKEN_SWAP_SUB_OP_INVALID
  returnIf (subOp ≥ .MAX) .TOKEN_SWAP_SUB_OP_UNKNOWN

def checkData : ExtensionTokenSwap → Except ErrorCode Unit
  | .config data => data.checkData
  | .make data => data.checkData
  | .inquiry data => data.checkData validPublicKey
  | .inquiryAck data => data.checkData validPublicKey
  | .take data => data.checkData
  | .takeAck data => data.checkData
  | .takeNack data => data.checkData
  | .cancel data => data.checkData
  | .ping data => data.checkData
  | .pong => .ok ()

def data : ExtensionTokenSwap → List UInt8
  | .config data => data.serialize
  | .make data => data.serialize
  | .inquiry data => data.serialize
  | .inquiryAck data => data.serialize
  | .take data => data.serialize
  | .takeAck data => data.serialize
  | .takeNack data => data.serialize
  | .cancel data => data.serialize
  | .ping data => data.serialize
  | .pong => []

def serialize (swap : ExtensionTokenSwap) : List UInt8 := streamWrite swap.subOp ++ swap.data

-- `MakeSubData` and the `Deserialize` of what it made.
def readData (subOp : SubOp) : StreamM ExtensionTokenSwap :=
  if subOp = .CONFIG then do
    let data ← ExtensionTokenSwapConfig.deserialize
    return .config data
  else if subOp = .MAKE then do
    let data ← ExtensionTokenSwapMake.deserialize
    return .make data
  else if subOp = .INQUIRY then do
    let data ← ExtensionTokenSwapInquiry.deserialize validPublicKey
    return .inquiry data
  else if subOp = .INQUIRY_ACK then do
    let data ← ExtensionTokenSwapInquiryAck.deserialize validPublicKey
    return .inquiryAck data
  else if subOp = .TAKE then do
    let data ← ExtensionTokenSwapTake.deserialize
    return .take data
  else if subOp = .TAKE_ACK then do
    let data ← ExtensionTokenSwapTakeAck.deserialize
    return .takeAck data
  else if subOp = .TAKE_NACK then do
    let data ← ExtensionTokenSwapTakeNack.deserialize
    return .takeNack data
  else if subOp = .CANCEL then do
    let data ← ExtensionTokenSwapCancel.deserialize
    return .cancel data
  else if subOp = .PING then do
    let data ← ExtensionTokenSwapPing.deserialize
    return .ping data
  else if subOp = .PONG then return .pong
  else throw .UNEXPECTED

def deserialize : StreamM ExtensionTokenSwap := do
  let subOp : SubOp ← streamRead
  check fun _ => checkSubOp subOp
  readData validPublicKey subOp

end ExtensionTokenSwap

structure ExtensionTokenUnmap where
  token : ExtensionTokenInfo
  to_ : Account
  value : TokenValue
  extraData : UInt64
  deriving DecidableEq

namespace ExtensionTokenUnmap

def checkData (unmap : ExtensionTokenUnmap) : Except ErrorCode Unit := do
  unmap.token.checkData
  returnIf (IsRaicoin unmap.token.chain = true ∧ unmap.token.isNative = false) .TOKEN_UNMAP_CHAIN
  returnIf (unmap.to_ = 0) .TOKEN_UNMAP_TO
  checkValue unmap.token.type unmap.value

def serialize (unmap : ExtensionTokenUnmap) : List UInt8 :=
  [unmap.token.serialize, streamWrite unmap.to_, streamWrite unmap.value,
    streamWrite unmap.extraData].flatten

def deserialize : StreamM ExtensionTokenUnmap := do
  let token ← ExtensionTokenInfo.deserialize
  let to_ : Account ← streamRead
  let value : TokenValue ← streamRead
  let extraData : UInt64 ← streamRead
  let unmap : ExtensionTokenUnmap := ⟨token, to_, value, extraData⟩
  checked unmap unmap.checkData

end ExtensionTokenUnmap

structure ExtensionTokenWrap where
  token : ExtensionTokenInfo
  toChain : Chain
  toAccount : Account
  value : TokenValue
  deriving DecidableEq

namespace ExtensionTokenWrap

def checkData (wrap : ExtensionTokenWrap) : Except ErrorCode Unit := do
  wrap.token.checkData
  checkChain wrap.toChain
  returnIf (wrap.token.chain = wrap.toChain) .TOKEN_WRAP_CHAIN
  returnIf (wrap.toAccount = 0) .TOKEN_WRAP_TO
  checkValue wrap.token.type wrap.value

def serialize (wrap : ExtensionTokenWrap) : List UInt8 :=
  [wrap.token.serialize, streamWrite wrap.toChain, streamWrite wrap.toAccount,
    streamWrite wrap.value].flatten

def deserialize : StreamM ExtensionTokenWrap := do
  let token ← ExtensionTokenInfo.deserialize
  let toChain : Chain ← streamRead
  let toAccount : Account ← streamRead
  let value : TokenValue ← streamRead
  let wrap : ExtensionTokenWrap := ⟨token, toChain, toAccount, value⟩
  checked wrap wrap.checkData

end ExtensionTokenWrap

abbrev Op := UInt8

namespace Op

def INVALID : Op := 0
def CREATE : Op := 1
def MINT : Op := 2
def BURN : Op := 3
def SEND : Op := 4
def RECEIVE : Op := 5
def SWAP : Op := 6
def UNMAP : Op := 7
def WRAP : Op := 8
def MAX : Op := 9

end Op

-- The operation decides which data there is.
inductive ExtensionToken where
  | create (data : ExtensionTokenCreate)
  | mint (data : ExtensionTokenMint)
  | burn (data : ExtensionTokenBurn)
  | send (data : ExtensionTokenSend)
  | receive (data : ExtensionTokenReceive)
  | swap (data : ExtensionTokenSwap)
  | unmap (data : ExtensionTokenUnmap)
  | wrap (data : ExtensionTokenWrap)
  deriving DecidableEq

namespace ExtensionToken

def op : ExtensionToken → Op
  | .create _ => .CREATE
  | .mint _ => .MINT
  | .burn _ => .BURN
  | .send _ => .SEND
  | .receive _ => .RECEIVE
  | .swap _ => .SWAP
  | .unmap _ => .UNMAP
  | .wrap _ => .WRAP

def checkData : ExtensionToken → Except ErrorCode Unit
  | .create data => data.checkData
  | .mint data => data.checkData
  | .burn data => data.checkData
  | .send data => data.checkData
  | .receive data => data.checkData
  | .swap data => data.checkData validPublicKey
  | .unmap data => data.checkData
  | .wrap data => data.checkData

def data : ExtensionToken → List UInt8
  | .create data => data.serialize
  | .mint data => data.serialize
  | .burn data => data.serialize
  | .send data => data.serialize
  | .receive data => data.serialize
  | .swap data => data.serialize
  | .unmap data => data.serialize
  | .wrap data => data.serialize

-- `UpdateExtensionValue`: the value of the extension.
def extensionValue (token : ExtensionToken) : List UInt8 := streamWrite token.op ++ token.data

-- `MakeData` and the `Deserialize` of what it made.
def readData (readIndex : StreamM UInt64) (op : Op) : StreamM ExtensionToken :=
  if op = .CREATE then do
    let data ← ExtensionTokenCreate.deserialize
    return .create data
  else if op = .MINT then do
    let data ← ExtensionTokenMint.deserialize
    return .mint data
  else if op = .BURN then do
    let data ← ExtensionTokenBurn.deserialize
    return .burn data
  else if op = .SEND then do
    let data ← ExtensionTokenSend.deserialize
    return .send data
  else if op = .RECEIVE then do
    let data ← ExtensionTokenReceive.deserialize readIndex
    return .receive data
  else if op = .SWAP then do
    let data ← ExtensionTokenSwap.deserialize validPublicKey
    return .swap data
  else if op = .UNMAP then do
    let data ← ExtensionTokenUnmap.deserialize
    return .unmap data
  else if op = .WRAP then do
    let data ← ExtensionTokenWrap.deserialize
    return .wrap data
  else throw .UNEXPECTED

def checkOp (op : Op) : Except ErrorCode Unit := do
  returnIf (op = .INVALID) .TOKEN_OP_INVALID
  returnIf (op ≥ .MAX) .TOKEN_OP_UNKNOWN

-- `FromExtension` on a value that has a first byte and more.
def parse (readIndex : StreamM UInt64) (op : Op) (bytes : List UInt8) :
    Except ErrorCode ExtensionToken := do
  checkOp op
  match readData validPublicKey readIndex op bytes with
  | .ok token [] => .ok token
  | .ok _ _ => .error .STREAM
  | .error code _ => .error code

def fromValue (readIndex : StreamM UInt64) : List UInt8 → Except ErrorCode ExtensionToken
  | op :: byte :: bytes => parse validPublicKey readIndex op (byte :: bytes)
  | _ => .error .EXTENSION_VALUE

-- `FromExtension`, where the index of a receive was `unset` before it was read.
def fromExtension (unset : UInt64) (value : List UInt8) : Except ErrorCode ExtensionToken :=
  fromValue validPublicKey (readIndex unset) value

end ExtensionToken

end Raicoin.Payload
