import Raicoin.Secure.TokenScans
import Raicoin.Token.App

-- How the token application answers a search for the orders of a pair, page by page.
namespace Raicoin

open Lib

-- The number of a type in a key.
def TokenType.byte : TokenType → UInt8
  | .invalid => 0
  | .t20 => 1
  | .t721 => 2

-- The index as it is written.
def OrderIndex.key (index : OrderIndex) : Scans.OrderIndex where
  tokenOffer := index.tokenOffer
  typeOffer := index.typeOffer.byte
  tokenWant := index.tokenWant
  typeWant := index.typeWant.byte
  idOffer := index.idOffer
  idWant := index.idWant
  rate := index.rate
  maker := index.maker
  height := UInt64.ofNat index.height

def Scans.OrderIndex.deserialize : StreamM Scans.OrderIndex := do
  let tokenOffer ← TokenKey.deserialize
  let typeOffer ← streamRead
  let tokenWant ← TokenKey.deserialize
  let typeWant ← streamRead
  let idOffer ← streamRead
  let idWant ← streamRead
  let rate ← streamRead
  let maker ← streamRead
  let height ← streamRead
  return { tokenOffer, typeOffer, tokenWant, typeWant, idOffer, idWant, rate, maker, height }

-- The table of the indexes as the iterators find it.
def TokenLedger.orderTables (l : TokenLedger) : Scans.TokenTables :=
  { Scans.TokenTables.empty with
    orderIndex := {
      keys := l.orderIndexes.keys.image fun index => Scans.StoreKey.serialize index.key
      written := fun bytes h => by
        obtain ⟨index, -, hbytes⟩ := Finset.mem_image.mp h
        exact ⟨index.key, hbytes⟩ } }

-- The number of a numeral without a sign: with a zero in front, it is octal.
def unsignedOf : List Char → Option Nat
  | '0' :: digits =>
    if digits.any fun c => !c.isDigit || c.toNat ≥ 0x38 then none
    else some (Nat.ofDigitChars 8 digits 0)
  | digits =>
    if digits.any fun c => !c.isDigit then none else some (Nat.ofDigitChars 10 digits 0)

-- What `stream >> number` makes of a text that it reads to the end: blanks in front are passed over,
-- and of nothing else the number stays zero. Zero is the only number that can be negative.
def streamedNumber (text : List Char) : Option Nat :=
  match text.dropWhile fun c => (0x09 ≤ c.toNat && c.toNat ≤ 0x0d) || c == ' ' with
  | [] => some 0
  | '-' :: digits => if unsignedOf digits = some 0 then some 0 else none
  | digits => unsignedOf digits

-- `uint256_union::DecodeDec`. Its checks look at the first character only, which may be a blank.
def TokenValue.decodeDec (text : List Char) : Option TokenValue :=
  let size := text.length
  if text = [] ∨ size > 78 ∨ (size > 1 ∧ text.head? = some '0') ∨ text.head? = some '-' then none
  else
    match streamedNumber text with
    | none => none
    | some number => if number < 2 ^ 256 then some (BitVec.ofNat 256 number) else none

-- The fields of a request. A count or an order that cannot be read is none.
structure OrderSearchRequest where
  fromToken : TokenKey
  fromType : TokenType
  toToken : TokenKey
  toType : TokenType
  limitBy : Option String
  limitValue : Option String
  includeInactive : Option String
  count : Option UInt64
  order : Option (Account × Nat)
  deriving DecidableEq

-- What goes into the response for an order.
structure OrderEntry where
  maker : Account
  height : Nat
  order : OrderInfo
  swaps : AccountSwapInfo
  credit : Nat
  createdAt : Nat
  deriving DecidableEq

-- The codes of the request, the texts of the response, and the exception of a division by zero.
inductive OrderSearchError where
  | RPC_INVALID_FIELD_LIMIT_BY
  | RPC_MISS_FIELD_LIMIT_VALUE
  | RPC_INVALID_FIELD_LIMIT_VALUE
  | text (error : String)
  | overflow_error
  deriving DecidableEq

inductive OrderLimit where
  | none
  | fromToken (value : TokenValue)
  | toToken (value : TokenValue)
  deriving DecidableEq

def SWAP_PING_PONG_INTERVAL : Nat := 60

-- The numbers have 64 bits.
def AccountSwapInfo.inactive (now : UInt64) (info : AccountSwapInfo) : Bool :=
  UInt64.ofNat info.pong < now - UInt64.ofNat MAX_TIMESTAMP_DIFF &&
    UInt64.ofNat info.pong + UInt64.ofNat SWAP_PING_PONG_INTERVAL < UInt64.ofNat info.ping

namespace OrderSearchRequest

variable (request : OrderSearchRequest)

def limitText : String := request.limitBy.getD ""

def limit : Except OrderSearchError OrderLimit := do
  let limitBy := request.limitText
  returnIf (limitBy ≠ "" ∧ limitBy ≠ "from_token" ∧ limitBy ≠ "to_token")
    .RPC_INVALID_FIELD_LIMIT_BY
  if limitBy = "" then return .none
  else do
    let text ← orReturn request.limitValue .RPC_MISS_FIELD_LIMIT_VALUE
    let value ← orReturn (TokenValue.decodeDec text.toList) .RPC_INVALID_FIELD_LIMIT_VALUE
    return if limitBy = "from_token" then .fromToken value else .toToken value

def inactiveToo : Bool := request.includeInactive.any fun text => text ≠ "false"

def pageSize : Nat :=
  let count := (request.count.getD 0).toNat
  if count = 0 then 10 else if count > 100 then 100 else count

def pair : Scans.OrderPair :=
  ⟨request.fromToken, request.fromType.byte, request.toToken, request.toType.byte⟩

-- Ids limit the keys that are scanned, if the limit is on the offer.
def idLimit : OrderLimit → Option TokenValue
  | .fromToken value => if request.fromType = .t721 then some value else none
  | _ => none

-- The order that the page begins after.
def checkOrder (limit : OrderLimit) (index : OrderIndex) : Bool :=
  index.tokenOffer = request.fromToken && index.tokenWant = request.toToken &&
    index.typeOffer = request.fromType && index.typeWant = request.toType &&
      match limit with
      | .none => true
      | .fromToken value => request.fromType ≠ .t721 || index.idOffer = value
      | .toToken value => request.toType ≠ .t721 || index.idWant = value

-- Whether the limit lets the order through.
def fitsLimit (limit : OrderLimit) (info : OrderInfo) : Except OrderSearchError Bool :=
  let unique := request.fromType = .t721 ∨ request.toType = .t721
  let fungible := request.fromType = .t20 ∧ request.toType = .t20
  match limit with
  | .none => return true
  | .fromToken value =>
    return if unique then info.valueOffer = value
    else if fungible then
      info.left = value || !(decide (value < info.minOffer) || decide (value > info.left))
    else true
  | .toToken value =>
    if unique then return info.valueWant = value
    else if fungible then do
      returnIf (wide info.valueWant = 0) .overflow_error
      let offered := wide value * wide info.valueOffer / wide info.valueWant
      return wide info.left = offered ||
        !(decide (offered < wide info.minOffer) || decide (offered > wide info.left))
    else return true

end OrderSearchRequest

namespace TokenRpcHandler

open Scans (Iterator)

variable (s : App TokenLedger) (now : UInt64) (request : OrderSearchRequest) (limit : OrderLimit)

def makeOrderPtree (maker : Account) (height : Nat) : Except OrderSearchError OrderEntry := do
  let order ← orReturn (s.ledger.orders.get (maker, height)) (.text "order missing")
  let block ← orReturn (s.store.blockGet order.hash) (.text "Failed to get order block")
  let info ← orReturn (s.store.accountInfoGet maker) (.text "Failed to get account info")
  let head ← orReturn (s.store.blockGet info.head) (.text "Failed to get head block")
  let swaps ← orReturn (s.ledger.accountSwaps.get maker) (.text "Failed to get account swap info")
  return ⟨maker, height, order, swaps, head.credit, block.timestamp⟩

def orderIndexGet (bytes : List UInt8) : Except OrderSearchError Scans.OrderIndex :=
  orReturn (ByteTables.parse Scans.OrderIndex.deserialize bytes)
    (.text "Failed to get order index from ledger")

-- Whether an order that has not timed out may be shown.
def makerShown (maker : Account) : Except OrderSearchError Bool := do
  let swaps ← orReturn (s.ledger.accountSwaps.get maker) (.text "Failed to get account swap info")
  return !swaps.inactive now

def orderShown (maker : Account) (info : OrderInfo) : Except OrderSearchError Bool :=
  if request.inactiveToo then return true
  else if info.finished then return false
  else if UInt64.ofNat info.timeout < now then return false
  else makerShown s now maker

def orderListed (maker : Account) (info : OrderInfo) : Except OrderSearchError Bool := do
  let shown ← orderShown s now request maker info
  if shown then request.fitsLimit limit info else return false

def searchEntry (maker : Account) (height : Nat) : Except OrderSearchError (Option OrderEntry) := do
  let info ← orReturn (s.ledger.orders.get (maker, height))
    (.text "Failed to get order info from ledger")
  let listed ← orderListed s now request limit maker info
  if listed then some <$> makeOrderPtree s maker height else return none

-- One round of the loop: the order that the key leads to, if it is listed.
def searchRound (bytes : List UInt8) : Except OrderSearchError (Option OrderEntry) := do
  let index ← orderIndexGet bytes
  if request.order = some (index.maker, index.height.toNat) then return none
  else searchEntry s now request limit index.maker index.height.toNat

-- `for (; i != n && count > 0; ++i)`, with whether it ended before `n`. At the end of the table
-- there is no index to get.
def searchLoop (n : Iterator) : Iterator → Nat → Except OrderSearchError (List OrderEntry × Bool)
  | i, 0 => return ([], decide (i.head? ≠ n.head?))
  | [], _ + 1 =>
    if n = [] then return ([], false) else throw (.text "Failed to get order index from ledger")
  | bytes :: rest, count + 1 =>
    if n.head? = some bytes then return ([], false)
    else do
      let entry ← searchRound s now request limit bytes
      match entry with
      | none => searchLoop n rest (count + 1)
      | some entry => do
        let (entries, more) ← searchLoop n rest count
        return (entry :: entries, more)

-- Where the scan begins.
def searchFrom : Except OrderSearchError Iterator :=
  let tables := s.ledger.orderTables
  match request.order with
  | some (maker, height) => do
    let info ← orReturn (s.ledger.orders.get (maker, height)) (.text "Failed to get order info")
    let index := info.getIndex maker height
    returnIf (request.checkOrder limit index = false) (.text "Invalid order parameter")
    return tables.orderIndex.setRange index.key
  | none =>
    return match request.idLimit limit with
    | some id => tables.orderIndexIdLowerBound request.pair id
    | none => tables.orderIndexLowerBound request.pair

def searchTo : Iterator :=
  match request.idLimit limit with
  | some id => s.ledger.orderTables.orderIndexIdUpperBound request.pair id
  | none => s.ledger.orderTables.orderIndexUpperBound request.pair

-- The orders of a page, and "more".
def searchOrdersByPair : Except OrderSearchError (List OrderEntry × Bool) := do
  let limit ← request.limit
  let i ← searchFrom s request limit
  searchLoop s now request limit (searchTo s request limit) i request.pageSize

end TokenRpcHandler

-- A call, with the state that it found and its answer.
structure SearchCall where
  app : App TokenLedger
  now : UInt64
  answer : Except OrderSearchError (List OrderEntry × Bool)

namespace SearchCall

def entries (call : SearchCall) : List OrderEntry := (call.answer.toOption.map Prod.fst).getD []

def more (call : SearchCall) : Bool := (call.answer.toOption.map Prod.snd).getD false

end SearchCall

-- The application and a client that asks for page after page, its latest call first.
structure PagedSearch where
  app : TokenApp
  calls : List SearchCall

namespace PagedSearch

variable (s : PagedSearch)

-- All that has been listed, in its order.
def listed : List OrderEntry := s.calls.reverse.flatMap SearchCall.entries

-- The last order of the previous page.
def cursor : Option (Account × Nat) :=
  (s.calls.head?.bind fun call => call.entries.getLast?).map fun entry => (entry.maker, entry.height)

-- There may be another page.
def unended : Bool := s.calls.head?.all SearchCall.more

def page (request : OrderSearchRequest) (now : UInt64) : PagedSearch :=
  let answer := TokenRpcHandler.searchOrdersByPair s.app.app now { request with order := s.cursor }
  { s with calls := ⟨s.app.app, now, answer⟩ :: s.calls }

end PagedSearch

-- Pages are asked for at any time, until there is no more.
inductive PagedSearchAction where
  | act (action : TokenAppAction)
  | page (now : UInt64)

@[reducible] def pagedSearchMachine (env : Env) (content : Block → TokenContent)
    (blocks : Set Block) (request : OrderSearchRequest) : Machine PagedSearch PagedSearchAction where
  start s := s = ⟨.empty, []⟩
  fits s
    | .act action => action.Fits blocks
    | .page _ => s.unended = true
  step s
    | .act action => { s with app := s.app.take env content action }
    | .page now => s.page request now

end Raicoin
