import Raicoin.Common.Blocks
import Raicoin.Common.Errors

-- The records of the token application.
namespace Raicoin

abbrev TokenAddress := Uint256

-- `rai::uint256_t`: the value of a fungible token or the id of a non-fungible one.
abbrev TokenValue := Uint256

namespace Chain

def RAICOIN : Chain := 1
def BITCOIN : Chain := 2
def ETHEREUM : Chain := 3
def BINANCE_SMART_CHAIN : Chain := 4
def RAICOIN_TEST : Chain := 10010
def BITCOIN_TEST : Chain := 10020
def ETHEREUM_TEST_ROPSTEN : Chain := 10030
def ETHEREUM_TEST_KOVAN : Chain := 10031
def ETHEREUM_TEST_RINKEBY : Chain := 10032
def ETHEREUM_TEST_GOERLI : Chain := 10033
def ETHEREUM_TEST_SEPOLIA : Chain := 10034
def BINANCE_SMART_CHAIN_TEST : Chain := 10040

end Chain

def IsRaicoin (chain : Chain) : Bool := chain = .RAICOIN || chain = .RAICOIN_TEST

def CurrentChain : RaiNetworks → Chain
  | .test => .RAICOIN_TEST
  | .beta => .RAICOIN_TEST
  | .live => .RAICOIN

-- The height that the events of a chain are followed from.
def ChainSinceHeight (chain : Chain) : UInt64 :=
  if chain = .ETHEREUM then 15000000
  else if chain = .BINANCE_SMART_CHAIN then 19000000
  else if chain = .ETHEREUM_TEST_GOERLI then 7080000
  else if chain = .BINANCE_SMART_CHAIN_TEST then 20300000
  else 0

-- `none` stands for `SUCCESS`, here and wherever a code is optional.
def CheckWrapToChain (chain : Chain) : Option ErrorCode :=
  if chain = .INVALID then some .TOKEN_WRAP_TO_INVALID_CHAIN
  else if chain ∈ [.RAICOIN, .BITCOIN, .RAICOIN_TEST, .BITCOIN_TEST] then
    some .TOKEN_WRAP_TO_UNSUPPORTED_CHAIN
  else if chain ∈ [.ETHEREUM, .BINANCE_SMART_CHAIN, .ETHEREUM_TEST_ROPSTEN, .ETHEREUM_TEST_KOVAN,
      .ETHEREUM_TEST_RINKEBY, .ETHEREUM_TEST_GOERLI, .ETHEREUM_TEST_SEPOLIA,
      .BINANCE_SMART_CHAIN_TEST] then none
  else some .TOKEN_WRAP_TO_UNKNOWN_CHAIN

def NativeAddress : TokenAddress := 1

-- `rai::TokenType::_20` and `_721`.
inductive TokenType where
  | invalid
  | t20
  | t721
  deriving DecidableEq, Repr

inductive TokenSource where
  | invalid
  | send
  | map
  | unwrap
  | swap
  | mint
  | refund
  deriving DecidableEq, Repr

def IsLocalSource (source : TokenSource) : Bool :=
  source = .mint || source = .send || source = .swap || source = .refund

structure TokenKey where
  chain : Chain
  address : TokenAddress
  deriving DecidableEq, Repr

-- `rai::TokenKey()`.
def TokenKey.init : TokenKey := ⟨.INVALID, 0⟩

structure TokenInfo where
  type : TokenType
  symbol : String
  name : String
  decimals : UInt8
  burnable : Bool
  mintable : Bool
  circulable : Bool
  holders : Nat
  transfers : Nat
  swaps : Nat
  createdAt : Nat
  totalSupply : TokenValue
  capSupply : TokenValue
  localSupply : TokenValue
  baseUri : String
  deriving DecidableEq, Repr

-- The constructor for tokens of type 20.
def TokenInfo.fungible (symbol name : String) (decimals : UInt8)
    (burnable mintable circulable : Bool) (capSupply : TokenValue) (createdAt : Nat) :
    TokenInfo where
  type := .t20
  symbol := symbol
  name := name
  decimals := decimals
  burnable := burnable
  mintable := mintable
  circulable := circulable
  holders := 0
  transfers := 0
  swaps := 0
  createdAt := createdAt
  totalSupply := 0
  capSupply := capSupply
  localSupply := 0
  baseUri := ""

-- The constructor for tokens of type 721: they can always be minted.
def TokenInfo.nonFungible (symbol name : String) (burnable circulable : Bool)
    (capSupply : TokenValue) (baseUri : String) (createdAt : Nat) : TokenInfo where
  type := .t721
  symbol := symbol
  name := name
  decimals := 0
  burnable := burnable
  mintable := true
  circulable := circulable
  holders := 0
  transfers := 0
  swaps := 0
  createdAt := createdAt
  totalSupply := 0
  capSupply := capSupply
  localSupply := 0
  baseUri := baseUri

structure TokenTransfer where
  token : TokenKey
  timestamp : Nat
  account : Account
  height : Nat
  deriving DecidableEq, Repr

structure TokenIdTransferKey where
  token : TokenKey
  id : TokenValue
  index : Nat
  deriving DecidableEq, Repr

inductive ValueOp where
  | none
  | increase
  | decrease
  deriving DecidableEq, Repr

-- The value of the `token_block` table, with the height of the next one.
structure TokenBlock where
  previous : Nat
  hash : BlockHash
  status : Option ErrorCode
  value : TokenValue
  valueOp : ValueOp
  token : TokenKey
  successor : Nat
  deriving DecidableEq, Repr

structure TokenHolder where
  token : TokenKey
  balance : TokenValue
  account : Account
  deriving DecidableEq, Repr

structure TokenReceivableKey where
  to_ : Account
  token : TokenKey
  chain : Chain
  txHash : BlockHash
  index : Nat
  deriving DecidableEq, Repr

structure TokenReceivable where
  source : Account
  value : TokenValue
  blockHeight : Nat
  tokenType : TokenType
  tokenSource : TokenSource
  deriving DecidableEq, Repr

-- `TokenMapKey` and `TokenUnwrapKey`.
structure TokenMapKey where
  to_ : Account
  chain : Chain
  height : Nat
  index : Nat
  deriving DecidableEq, Repr

structure TokenMapInfo where
  token : TokenKey
  sourceTx : BlockHash
  source : Account
  value : TokenValue
  targetTx : BlockHash
  deriving DecidableEq, Repr

structure TokenUnmapInfo where
  token : TokenKey
  type : TokenType
  value : TokenValue
  to_ : Account
  sourceTx : BlockHash
  extraData : Nat
  targetTx : BlockHash
  targetHeight : Nat
  targetIndex : Nat
  deriving DecidableEq, Repr

structure TokenWrapInfo where
  token : TokenKey
  type : TokenType
  value : TokenValue
  toChain : Chain
  toAccount : Account
  sourceTx : BlockHash
  targetTx : BlockHash
  targetHeight : Nat
  wrappedToken : TokenAddress
  deriving DecidableEq, Repr

structure TokenUnwrapInfo where
  token : TokenKey
  sourceTx : BlockHash
  source : Account
  value : TokenValue
  wrappedToken : TokenAddress
  targetTx : BlockHash
  deriving DecidableEq, Repr

structure WrappedTokenInfo where
  originalChain : Chain
  originalAddress : TokenAddress
  blockHeight : Nat
  txHash : BlockHash
  deriving DecidableEq, Repr

structure TokenIdInfo where
  burned : Bool
  unmapped : Bool
  wrapped : Bool
  transfers : Nat
  uri : String
  deriving DecidableEq, Repr

def TokenIdInfo.init (uri : String) : TokenIdInfo := ⟨false, false, false, 0, uri⟩

structure AccountTokensInfo where
  head : Nat
  blocks : Nat
  deriving DecidableEq, Repr

def AccountTokensInfo.init : AccountTokensInfo := ⟨INVALID_HEIGHT, 0⟩

structure AccountTokenInfo where
  head : Nat
  blocks : Nat
  balance : TokenValue
  deriving DecidableEq, Repr

def AccountTokenInfo.init : AccountTokenInfo := ⟨INVALID_HEIGHT, 0, 0⟩

structure AccountTokenId where
  account : Account
  token : TokenKey
  id : TokenValue
  deriving DecidableEq, Repr

structure AccountTokenLink where
  account : Account
  token : TokenKey
  height : Nat
  deriving DecidableEq, Repr

abbrev SwapRate := BitVec 512

-- `uint512_union(denominator, numerator)`: the quotient with 256 binary places.
def SwapRate.of (denominator numerator : TokenValue) : SwapRate :=
  if denominator = 0 then BitVec.allOnes 512
  else BitVec.ofNat 512 (numerator.toNat * 2 ^ 256 / denominator.toNat)

structure OrderIndex where
  tokenOffer : TokenKey
  typeOffer : TokenType
  tokenWant : TokenKey
  typeWant : TokenType
  idOffer : TokenValue
  idWant : TokenValue
  rate : SwapRate
  maker : Account
  height : Nat
  deriving DecidableEq, Repr

def OrderIndex.init : OrderIndex := ⟨.init, .invalid, .init, .invalid, 0, 0, 0, 0, INVALID_HEIGHT⟩

inductive FinishedBy where
  | invalid
  | cancel
  | fulfill
  deriving DecidableEq, Repr

structure OrderInfo where
  main : Account
  tokenOffer : TokenKey
  typeOffer : TokenType
  tokenWant : TokenKey
  typeWant : TokenType
  valueOffer : TokenValue
  valueWant : TokenValue
  minOffer : TokenValue
  maxOffer : TokenValue
  left : TokenValue
  timeout : Nat
  finishedHeight : Nat
  finishedBy : FinishedBy
  hash : BlockHash
  deriving DecidableEq, Repr

inductive SwapStatus where
  | inquiry
  | inquiryAck
  | inquiryNack
  | take
  | takeAck
  | takeNack
  deriving DecidableEq, Repr

structure SwapInfo where
  status : SwapStatus
  maker : Account
  orderHeight : Nat
  inquiryAckHeight : Nat
  takeHeight : Nat
  tradeHeight : Nat
  timeout : Nat
  value : TokenValue
  takerShare : PublicKey
  makerShare : PublicKey
  makerSignature : Signature
  tradePrevious : BlockHash
  hash : BlockHash
  deriving DecidableEq, Repr

structure AccountSwapInfo where
  activeOrders : Nat
  totalOrders : Nat
  activeSwaps : Nat
  totalSwaps : Nat
  ping : Nat
  pong : Nat
  deriving DecidableEq, Repr

def AccountSwapInfo.init : AccountSwapInfo := ⟨0, 0, 0, 0, 0, 0⟩

structure InquiryWaiting where
  main : Account
  ackHeight : Nat
  taker : Account
  inquiryHeight : Nat
  deriving DecidableEq, Repr

structure TakeWaiting where
  maker : Account
  tradeHeight : Nat
  taker : Account
  inquiryHeight : Nat
  deriving DecidableEq, Repr

structure OrderSwapIndex where
  maker : Account
  orderHeight : Nat
  tradeHeight : Nat
  taker : Account
  inquiryHeight : Nat
  deriving DecidableEq, Repr

structure TokenSwapIndex where
  token : TokenKey
  timestamp : Nat
  taker : Account
  inquiryHeight : Nat
  deriving DecidableEq, Repr

structure MakerSwapIndex where
  maker : Account
  tradeHeight : Nat
  main : Account
  inquiryAckHeight : Nat
  deriving DecidableEq, Repr

def ORDERS_PER_CREDIT : Nat := 1

namespace OrderInfo

def finished (order : OrderInfo) : Bool :=
  order.finishedBy ≠ .invalid || order.finishedHeight ≠ INVALID_HEIGHT

def fungiblePair (order : OrderInfo) : Bool := order.typeOffer = .t20 && order.typeWant = .t20

-- A side of type 20 enters the rate with its value, one of type 721 with one and its id.
def getIndex (order : OrderInfo) (maker : Account) (orderHeight : Nat) : OrderIndex :=
  let index (idOffer idWant : TokenValue) (rate : SwapRate) : OrderIndex :=
    ⟨order.tokenOffer, order.typeOffer, order.tokenWant, order.typeWant, idOffer, idWant, rate,
      maker, orderHeight⟩
  match order.typeOffer, order.typeWant with
  | .t20, .t20 => index 0 0 (.of order.valueOffer order.valueWant)
  | .t20, .t721 => index 0 order.valueWant (.of order.valueOffer 1)
  | .t721, .t20 => index order.valueOffer 0 (.of 1 order.valueWant)
  | .t721, .t721 => index order.valueOffer order.valueWant (.of 1 1)
  | _, _ => .init

end OrderInfo

end Raicoin
