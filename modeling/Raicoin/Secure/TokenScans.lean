import Raicoin.Lib.Scans
import Raicoin.Secure.ByteTables
import Raicoin.Token.Types

-- The keys of the token tables as they are written, and the iterators that bound the entries of
-- one prefix.
namespace Raicoin.Scans

open Lib

-- `mdb_cmp_memn`.
abbrev keyLe (bytes other : List UInt8) : Prop := lexLe UInt8.toNat bytes other = true

instance : IsTrans (List UInt8) keyLe := ⟨fun _ _ _ => lexLe_trans⟩

instance : Std.Antisymm keyLe := ⟨fun _ _ => lexLe_antisymm fun _ _ => UInt8.toNat_inj.mp⟩

instance : Std.Total keyLe := ⟨lexLe_total⟩

class StoreKey (κ : Type) where
  serialize : κ → List UInt8
  size : Nat
  serialize_length : ∀ key, (serialize key).length = size

-- The keys of a table. What is stored under them does not matter to a scan.
structure KeyTable (κ : Type) [StoreKey κ] where
  keys : Finset (List UInt8)
  written : ∀ bytes ∈ keys, ∃ key : κ, StoreKey.serialize key = bytes

-- An iterator is what it has still before it; `StoreIterator(nullptr)` is at the end.
abbrev Iterator := List (List UInt8)

namespace KeyTable

variable {κ : Type} [StoreKey κ] (t : KeyTable κ) (key : κ)

def empty : KeyTable κ := ⟨∅, fun _ h => absurd h (Finset.notMem_empty _)⟩

def put : KeyTable κ where
  keys := insert (StoreKey.serialize key) t.keys
  written bytes h := by
    rcases Finset.mem_insert.mp h with rfl | h
    · exact ⟨key, rfl⟩
    · exact t.written bytes h

def del : KeyTable κ where
  keys := t.keys.erase (StoreKey.serialize key)
  written bytes h := t.written bytes (Finset.mem_of_mem_erase h)

-- `MDB_SET_RANGE`
def setRange : Iterator := (inOrder keyLe t.keys).filter (lexLe UInt8.toNat (StoreKey.serialize key))

end KeyTable

def TokenKey.serialize (token : TokenKey) : List UInt8 :=
  streamWrite token.address ++ streamWrite token.chain

def TokenKey.deserialize : StreamM TokenKey := do
  let address ← streamRead
  let chain ← streamRead
  return { chain, address }

structure TokenReceivableKey where
  to_ : Account
  token : TokenKey
  chain : Chain
  txHash : BlockHash
  index : UInt64
  deriving DecidableEq

def TokenReceivableKey.serialize (key : TokenReceivableKey) : List UInt8 :=
  streamWrite key.to_ ++ (TokenKey.serialize key.token ++ (streamWrite key.chain ++
    (streamWrite key.txHash ++ streamWrite key.index)))

def TokenReceivableKey.deserialize : StreamM TokenReceivableKey := do
  let to_ ← streamRead
  let token ← TokenKey.deserialize
  let chain ← streamRead
  let txHash ← streamRead
  let index ← streamRead
  return { to_, token, chain, txHash, index }

-- The heights and the indexes of some keys are written complemented.
structure TokenMapKey where
  to_ : Account
  chain : Chain
  height : UInt64
  index : UInt64
  deriving DecidableEq

def TokenMapKey.serialize (key : TokenMapKey) : List UInt8 :=
  streamWrite key.to_ ++ (streamWrite key.chain ++ (streamWrite (~~~key.height) ++
    streamWrite (~~~key.index)))

structure AccountTokenId where
  account : Account
  token : TokenKey
  id : TokenValue
  deriving DecidableEq

def AccountTokenId.serialize (key : AccountTokenId) : List UInt8 :=
  streamWrite key.account ++ (TokenKey.serialize key.token ++ streamWrite key.id)

-- The complement is made by the constructor here.
structure TokenIdTransferKey where
  token : TokenKey
  id : TokenValue
  indexComp : UInt64
  deriving DecidableEq

def TokenIdTransferKey.make (token : TokenKey) (id : TokenValue) (index : UInt64) :
    TokenIdTransferKey :=
  ⟨token, id, ~~~index⟩

def TokenIdTransferKey.serialize (key : TokenIdTransferKey) : List UInt8 :=
  TokenKey.serialize key.token ++ (streamWrite key.id ++ streamWrite key.indexComp)

-- The key of an order or of a swap.
structure AccountHeight where
  account : Account
  height : UInt64
  deriving DecidableEq

def AccountHeight.serialize (key : AccountHeight) : List UInt8 :=
  streamWrite key.account ++ streamWrite (~~~key.height)

-- The types are of `uint8_t`.
structure OrderPair where
  tokenOffer : TokenKey
  typeOffer : UInt8
  tokenWant : TokenKey
  typeWant : UInt8
  deriving DecidableEq

structure OrderIndex extends OrderPair where
  idOffer : TokenValue
  idWant : TokenValue
  rate : SwapRate
  maker : Account
  height : UInt64
  deriving DecidableEq

def OrderIndex.serialize (key : OrderIndex) : List UInt8 :=
  TokenKey.serialize key.tokenOffer ++ (streamWrite key.typeOffer ++
    (TokenKey.serialize key.tokenWant ++ (streamWrite key.typeWant ++ (streamWrite key.idOffer ++
      (streamWrite key.idWant ++ (streamWrite key.rate ++ (streamWrite key.maker ++
        streamWrite key.height)))))))

structure OrderSwapIndex where
  maker : Account
  orderHeight : UInt64
  tradeHeight : UInt64
  taker : Account
  inquiryHeight : UInt64
  deriving DecidableEq

def OrderSwapIndex.serialize (key : OrderSwapIndex) : List UInt8 :=
  streamWrite key.maker ++ (streamWrite key.orderHeight ++ (streamWrite (~~~key.tradeHeight) ++
    (streamWrite key.taker ++ streamWrite key.inquiryHeight)))

structure MakerSwapIndex where
  maker : Account
  tradeHeight : UInt64
  mainAccount : Account
  inquiryAckHeight : UInt64
  deriving DecidableEq

def MakerSwapIndex.serialize (key : MakerSwapIndex) : List UInt8 :=
  streamWrite key.maker ++ (streamWrite (~~~key.tradeHeight) ++ (streamWrite key.mainAccount ++
    streamWrite key.inquiryAckHeight))

structure BindingKey where
  account : Account
  chain : Chain
  height : UInt64
  deriving DecidableEq

def BindingKey.serialize (key : BindingKey) : List UInt8 :=
  streamWrite key.account ++ (streamWrite key.chain ++ streamWrite (~~~key.height))

section Lengths

@[simp] theorem TokenKey.serialize_length (token : TokenKey) :
    (TokenKey.serialize token).length = 36 := by
  simp [TokenKey.serialize, Wire.size]

instance : StoreKey TokenReceivableKey where
  serialize := TokenReceivableKey.serialize
  size := 112
  serialize_length key := by simp [TokenReceivableKey.serialize, Wire.size]

instance : StoreKey TokenMapKey where
  serialize := TokenMapKey.serialize
  size := 52
  serialize_length key := by simp [TokenMapKey.serialize, Wire.size]

instance : StoreKey AccountTokenId where
  serialize := AccountTokenId.serialize
  size := 100
  serialize_length key := by simp [AccountTokenId.serialize, Wire.size]

instance : StoreKey TokenIdTransferKey where
  serialize := TokenIdTransferKey.serialize
  size := 76
  serialize_length key := by simp [TokenIdTransferKey.serialize, Wire.size]

instance : StoreKey AccountHeight where
  serialize := AccountHeight.serialize
  size := 40
  serialize_length key := by simp [AccountHeight.serialize, Wire.size]

instance : StoreKey OrderIndex where
  serialize := OrderIndex.serialize
  size := 242
  serialize_length key := by simp [OrderIndex.serialize, Wire.size]

instance : StoreKey OrderSwapIndex where
  serialize := OrderSwapIndex.serialize
  size := 88
  serialize_length key := by simp [OrderSwapIndex.serialize, Wire.size]

instance : StoreKey MakerSwapIndex where
  serialize := MakerSwapIndex.serialize
  size := 80
  serialize_length key := by simp [MakerSwapIndex.serialize, Wire.size]

instance : StoreKey BindingKey where
  serialize := BindingKey.serialize
  size := 44
  serialize_length key := by simp [BindingKey.serialize, Wire.size]

end Lengths

structure TokenTables where
  tokenReceivable : KeyTable TokenReceivableKey
  tokenMap : KeyTable TokenMapKey
  tokenUnwrap : KeyTable TokenMapKey
  accountTokenId : KeyTable AccountTokenId
  tokenIdTransfer : KeyTable TokenIdTransferKey
  orderInfo : KeyTable AccountHeight
  swapInfo : KeyTable AccountHeight
  orderIndex : KeyTable OrderIndex
  orderSwapIndex : KeyTable OrderSwapIndex
  makerSwapIndex : KeyTable MakerSwapIndex
  bindingEntries : KeyTable BindingKey

def TokenTables.empty : TokenTables :=
  ⟨.empty, .empty, .empty, .empty, .empty, .empty, .empty, .empty, .empty, .empty, .empty⟩

-- `std::numeric_limits<uint64_t>::max()`
def MAX_HEIGHT : UInt64 := 0xffffffffffffffff

-- Both tables of `TokenMapKey` are bounded in the same way.
namespace KeyTable

def mapLowerBound (t : KeyTable TokenMapKey) (to_ : Account) (chain : Chain)
    (height index : UInt64) : Iterator :=
  t.setRange ⟨to_, chain, height, index⟩

def mapUpperBound (t : KeyTable TokenMapKey) (to_ : Account) (chain : Chain) : Iterator :=
  let next := chain + 1
  let account := if next = 0 then to_ + 1 else to_
  if account = 0 then [] else t.mapLowerBound account next MAX_HEIGHT MAX_HEIGHT

-- So are the two tables of `AccountHeight`.
def heightLowerBound (t : KeyTable AccountHeight) (account : Account) (height : UInt64) : Iterator :=
  t.setRange ⟨account, height⟩

def heightUpperBound (t : KeyTable AccountHeight) (account : Account) : Iterator :=
  let account := account + 1
  if account = 0 then [] else t.heightLowerBound account MAX_HEIGHT

end KeyTable

namespace TokenTables

variable (t : TokenTables)

def tokenReceivableLowerBound (account : Account) : Iterator :=
  t.tokenReceivable.setRange ⟨account, ⟨.INVALID, 0⟩, .INVALID, 0, 0⟩

def tokenReceivableUpperBound (account : Account) : Iterator :=
  let accountNext := account + 1
  if accountNext = 0 then [] else t.tokenReceivableLowerBound accountNext

def tokenReceivableTokenLowerBound (account : Account) (token : TokenKey) : Iterator :=
  t.tokenReceivable.setRange ⟨account, token, .INVALID, 0, 0⟩

def tokenReceivableTokenUpperBound (account : Account) (token : TokenKey) : Iterator :=
  let nextChain := token.chain + 1
  if nextChain ≠ 0 then t.tokenReceivableTokenLowerBound account ⟨nextChain, token.address⟩
  else
    let address := token.address + 1
    if address ≠ 0 then t.tokenReceivableTokenLowerBound account ⟨nextChain, address⟩
    else
      let account := account + 1
      if account ≠ 0 then t.tokenReceivableTokenLowerBound account ⟨nextChain, address⟩ else []

def tokenMapInfoLowerBound (to_ : Account) (chain : Chain) : Iterator :=
  t.tokenMap.mapLowerBound to_ chain MAX_HEIGHT MAX_HEIGHT

def tokenMapInfoUpperBound (to_ : Account) (chain : Chain) : Iterator :=
  t.tokenMap.mapUpperBound to_ chain

def tokenUnwrapInfoLowerBound (to_ : Account) (chain : Chain) : Iterator :=
  t.tokenUnwrap.mapLowerBound to_ chain MAX_HEIGHT MAX_HEIGHT

def tokenUnwrapInfoUpperBound (to_ : Account) (chain : Chain) : Iterator :=
  t.tokenUnwrap.mapUpperBound to_ chain

def accountTokenIdLowerBound (account : Account) (key : TokenKey) : Iterator :=
  t.accountTokenId.setRange ⟨account, key, 0⟩

def accountTokenIdUpperBound (account : Account) (key : TokenKey) : Iterator :=
  let nextChain := key.chain + 1
  if nextChain = 0 then
    let address := key.address + 1
    if address = 0 then
      let account := account + 1
      if account = 0 then [] else t.accountTokenIdLowerBound account ⟨nextChain, address⟩
    else t.accountTokenIdLowerBound account ⟨nextChain, address⟩
  else t.accountTokenIdLowerBound account ⟨nextChain, key.address⟩

def tokenIdTransferLowerBound (token : TokenKey) (id : TokenValue) (index : UInt64) : Iterator :=
  t.tokenIdTransfer.setRange (.make token id index)

-- What is handed on as the index has been complemented already.
def tokenIdTransferUpperBound (token : TokenKey) (id : TokenValue) (index : UInt64) : Iterator :=
  let indexComp := (TokenIdTransferKey.make token id index).indexComp + 1
  if indexComp ≠ 0 then t.tokenIdTransferLowerBound token id indexComp
  else
    let id := id + 1
    if id ≠ 0 then t.tokenIdTransferLowerBound token id indexComp
    else
      let chain := token.chain + 1
      if chain ≠ 0 then t.tokenIdTransferLowerBound ⟨chain, token.address⟩ id indexComp
      else
        let address := token.address + 1
        if address ≠ 0 then t.tokenIdTransferLowerBound ⟨chain, address⟩ id indexComp else []

def orderInfoLowerBound (account : Account) : Iterator :=
  t.orderInfo.heightLowerBound account MAX_HEIGHT

def orderInfoUpperBound (account : Account) : Iterator := t.orderInfo.heightUpperBound account

def swapInfoLowerBound (account : Account) : Iterator :=
  t.swapInfo.heightLowerBound account MAX_HEIGHT

def swapInfoUpperBound (account : Account) : Iterator := t.swapInfo.heightUpperBound account

def orderIndexIdLowerBound (pair : OrderPair) (idOffer : TokenValue) : Iterator :=
  t.orderIndex.setRange { pair with idOffer, idWant := 0, rate := 0, maker := 0, height := 0 }

def orderIndexLowerBound (pair : OrderPair) : Iterator := t.orderIndexIdLowerBound pair 0

def orderIndexUpperBound (pair : OrderPair) : Iterator :=
  t.orderIndexLowerBound { pair with typeWant := pair.typeWant + 1 }

def orderIndexIdUpperBound (pair : OrderPair) (idOffer : TokenValue) : Iterator :=
  let id := idOffer + 1
  if id ≠ 0 then t.orderIndexIdLowerBound pair id else t.orderIndexUpperBound pair

def orderSwapIndexLowerBound (maker : Account) (orderHeight tradeHeight : UInt64) : Iterator :=
  t.orderSwapIndex.setRange ⟨maker, orderHeight, tradeHeight, 0, 0⟩

def orderSwapIndexUpperBound (maker : Account) (orderHeight : UInt64) : Iterator :=
  t.orderSwapIndexLowerBound maker orderHeight 0

def makerSwapIndexLowerBound (maker : Account) (tradeHeight : UInt64) : Iterator :=
  t.makerSwapIndex.setRange ⟨maker, tradeHeight, 0, 0⟩

def makerSwapIndexUpperBound (maker : Account) : Iterator :=
  let next := maker + 1
  if next = 0 then [] else t.makerSwapIndexLowerBound next MAX_HEIGHT

def bindingChainLowerBound (account : Account) (chain : Chain) : Iterator :=
  t.bindingEntries.setRange ⟨account, chain, MAX_HEIGHT⟩

def bindingLowerBound (account : Account) : Iterator := t.bindingChainLowerBound account 0

def bindingChainUpperBound (account : Account) (chain : Chain) : Iterator :=
  let next := chain + 1
  if next ≠ 0 then t.bindingChainLowerBound account next
  else
    let account := account + 1
    if account ≠ 0 then t.bindingChainLowerBound account next else []

def bindingUpperBound (account : Account) : Iterator :=
  let next := account + 1
  if next = 0 then [] else t.bindingLowerBound next

-- `TokenReceivableGet` from an iterator, as far as its key goes.
def tokenReceivableGet : Iterator → Option TokenReceivableKey
  | [] => none
  | bytes :: _ => ByteTables.parse TokenReceivableKey.deserialize bytes

-- The loop of `TokenReceivablesSummary`. The fuel counts its rounds.
def summaryFrom (account : Account) (n : Iterator) :
    Nat → Iterator → Option (Except String (List TokenKey))
  | 0, _ => none
  | fuel + 1, i =>
    if i.head? = n.head? then some (.ok [])
    else
      match tokenReceivableGet i with
      | none => some (.error "Get token receivable info failed")
      | some key =>
        (summaryFrom account n fuel (t.tokenReceivableTokenUpperBound account key.token)).map
          (Except.map (key.token :: ·))

def tokenReceivablesSummary (fuel : Nat) (account : Account) :
    Option (Except String (List TokenKey)) :=
  t.summaryFrom account (t.tokenReceivableUpperBound account) fuel
    (t.tokenReceivableLowerBound account)

end TokenTables

end Raicoin.Scans
