import Raicoin.Lib.Ordered
import Raicoin.Lib.Process
import Raicoin.Secure.Store
import Raicoin.Token.Types

-- The tables of the token application and the computations over them.
namespace Raicoin

open Lib

structure TokenLedger where
  tokens : Table TokenKey TokenInfo
  tokenIds : Table (TokenKey × TokenValue) TokenIdInfo
  tokenBlocks : Table (Account × Nat) TokenBlock
  accountsTokens : Table Account AccountTokensInfo
  accountTokens : Table (Account × TokenKey) AccountTokenInfo
  accountTokenIds : Table AccountTokenId Nat
  -- the heights of the links before and after
  accountTokenLinks : Table AccountTokenLink (Nat × Nat)
  receivables : Table TokenReceivableKey TokenReceivable
  holders : Table TokenHolder Unit
  transfers : Table TokenTransfer Unit
  idTransfers : Table TokenIdTransferKey (Account × Nat)
  mainAccounts : Table Account Account
  accountSwaps : Table Account AccountSwapInfo
  orders : Table (Account × Nat) OrderInfo
  orderIndexes : Table OrderIndex Unit
  swaps : Table (Account × Nat) SwapInfo
  inquiryWaitings : Table InquiryWaiting Unit
  takeWaitings : Table TakeWaiting Unit
  orderSwapIndexes : Table OrderSwapIndex Unit
  tokenSwapIndexes : Table TokenSwapIndex Unit
  makerSwapIndexes : Table MakerSwapIndex (Account × Nat)
  chainHeads : Table Chain UInt64
  mapInfos : Table TokenMapKey TokenMapInfo
  unmapInfos : Table (Account × Nat) TokenUnmapInfo
  wrapInfos : Table (Account × Nat) TokenWrapInfo
  unwrapInfos : Table TokenMapKey TokenUnwrapInfo
  wrappedTokens : Table TokenKey WrappedTokenInfo
  deriving DecidableEq

def TokenLedger.empty : TokenLedger where
  tokens := .empty
  tokenIds := .empty
  tokenBlocks := .empty
  accountsTokens := .empty
  accountTokens := .empty
  accountTokenIds := .empty
  accountTokenLinks := .empty
  receivables := .empty
  holders := .empty
  transfers := .empty
  idTransfers := .empty
  mainAccounts := .empty
  accountSwaps := .empty
  orders := .empty
  orderIndexes := .empty
  swaps := .empty
  inquiryWaitings := .empty
  takeWaitings := .empty
  orderSwapIndexes := .empty
  tokenSwapIndexes := .empty
  makerSwapIndexes := .empty
  chainHeads := .empty
  mapInfos := .empty
  unmapInfos := .empty
  wrapInfos := .empty
  unwrapInfos := .empty
  wrappedTokens := .empty

-- The order of the keys `(account, height)`, which are written big-endian.
def keyBefore (a b : Account × Nat) : Prop := a.1.toNat < b.1.toNat ∨ a.1 = b.1 ∧ a.2 ≤ b.2

instance : DecidableRel keyBefore := fun a b =>
  inferInstanceAs (Decidable (a.1.toNat < b.1.toNat ∨ a.1 = b.1 ∧ a.2 ≤ b.2))

instance : IsTrans (Account × Nat) keyBefore where
  trans a b c hab hbc := by
    unfold keyBefore at *
    rcases hab with hab | ⟨hab, hle⟩ <;> rcases hbc with hbc | ⟨hbc, hle'⟩
    · exact .inl (by omega)
    · exact .inl (hbc ▸ hab)
    · exact .inl (hab ▸ hbc)
    · exact .inr ⟨hab.trans hbc, by omega⟩

instance : Std.Antisymm keyBefore where
  antisymm a b hab hba := by
    unfold keyBefore at *
    rcases hab with hab | ⟨hab, hle⟩ <;> rcases hba with hba | ⟨hba, hle'⟩
    · omega
    · rw [hba] at hab
      omega
    · rw [hab] at hba
      omega
    · exact Prod.ext hab (by omega)

instance : Std.Total keyBefore where
  total a b := by
    unfold keyBefore
    rcases Nat.lt_trichotomy a.1.toNat b.1.toNat with h | h | h
    · exact .inl (.inl h)
    · have he : a.1 = b.1 := BitVec.eq_of_toNat_eq h
      rcases Nat.le_total a.2 b.2 with hle | hle
      · exact .inl (.inr ⟨he, hle⟩)
      · exact .inr (.inr ⟨he.symm, hle⟩)
    · exact .inr (.inl h)

namespace TokenLedger

-- The swaps whose waiting records lie between `InquiryWaitingLowerBound` and
-- `InquiryWaitingUpperBound`, in the order of an iteration.
def inquiriesAt (l : TokenLedger) (main : Account) (height : Nat) : List (Account × Nat) :=
  inOrder keyBefore ((l.inquiryWaitings.keys.filter fun w => w.main = main ∧ w.ackHeight = height).image
    fun w => (w.taker, w.inquiryHeight))

def takesAt (l : TokenLedger) (maker : Account) (height : Nat) : List (Account × Nat) :=
  inOrder keyBefore ((l.takeWaitings.keys.filter fun w => w.maker = maker ∧ w.tradeHeight = height).image
    fun w => (w.taker, w.inquiryHeight))

variable {l : TokenLedger} {account : Account} {height : Nat} {swap : Account × Nat}

theorem mem_takesAt : swap ∈ l.takesAt account height ↔
    l.takeWaitings.get ⟨account, height, swap.1, swap.2⟩ = some () := by
  simp only [takesAt, mem_inOrder, Finset.mem_image, Finset.mem_filter, Table.mem_keys]
  constructor
  · rintro ⟨⟨maker, tradeHeight, taker, inquiryHeight⟩, ⟨⟨⟨⟩, hget⟩, rfl, rfl⟩, rfl⟩
    exact hget
  · intro hget
    exact ⟨_, ⟨⟨(), hget⟩, rfl, rfl⟩, rfl⟩

end TokenLedger

-- What clients of the application can be told, by the observer that tells it.
inductive Notice where
  | account (account : Account) (info : AccountTokensInfo) (pairs : List (TokenKey × AccountTokenInfo))
  | token (key : TokenKey) (info : TokenInfo)
  | tokenIdCreation (key : TokenKey) (id : TokenValue) (info : TokenIdInfo)
  | tokenIdTransfer (key : TokenKey) (id : TokenValue) (info : TokenIdInfo) (account : Account)
      (receive : Bool)
  | accountTokenBalance (account : Account) (key : TokenKey) (type : TokenType)
      (id : Option TokenValue)
  | receivable (key : TokenReceivableKey) (receivable : TokenReceivable) (info : TokenInfo)
      (block : Option Block)
  | received (key : TokenReceivableKey)
  | order (account : Account) (height : Nat)
  | swap (account : Account) (height : Nat)
  | mainAccount (account main : Account)
  | accountSwapInfo (account : Account)
  | tokenMap (account : Account) (chain : Chain) (height index : Nat)
  | tokenUnmap (account : Account) (height : Nat)
  | tokenWrap (account : Account) (height : Nat)
  | tokenUnwrap (account : Account) (chain : Chain) (height index : Nat)
  deriving DecidableEq

-- A transaction: the tables as it has left them, what has been told already, and
-- the observers that are run once it is committed.
structure TokenSession where
  ledger : TokenLedger
  told : List Notice
  observers : List Notice
  deriving DecidableEq

def TokenSession.init (l : TokenLedger) : TokenSession := ⟨l, [], []⟩

-- The writes of a transaction; LMDB may refuse any of them.
inductive TokenCall where
  | tokenInfoPut
  | tokenIdInfoPut
  | tokenBlockSuccessorSet
  | tokenBlockPut
  | accountTokensInfoPut
  | accountTokenInfoPut
  | accountTokenIdPut
  | accountTokenIdDel
  | accountTokenLinkSuccessorSet
  | accountTokenLinkPut
  | tokenReceivablePut
  | tokenReceivableDel
  | tokenHolderPut
  | tokenHolderDel
  | tokenTransferPut
  | tokenIdTransferPut
  | swapMainAccountPut
  | accountSwapInfoPut
  | orderInfoPut
  | orderIndexPut
  | orderIndexDel
  | swapInfoPut
  | inquiryWaitingPut
  | inquiryWaitingDel
  | takeWaitingPut
  | takeWaitingDel
  | orderSwapIndexPut
  | tokenSwapIndexPut
  | makerSwapIndexPut
  | chainHeadPut
  | tokenMapInfoPut
  | tokenUnmapInfoPut
  | tokenWrapInfoPut
  | tokenUnwrapInfoPut
  | wrappedTokenInfoPut
  deriving DecidableEq, Repr

-- What a transaction finds: the chains of the application's own ledger, which it
-- does not change, and the writes that LMDB refuses.
structure TokenEnv extends Env where
  app : Store
  fails : TokenCall → Bool

def TokenCall.never (_ : TokenCall) : Bool := false

abbrev TokenM (α : Type) : Type := Process ErrorCode TokenSession α

def query {α : Type} (f : TokenLedger → Except ErrorCode α) : TokenM α :=
  check fun s => f s.ledger

-- A write: `present` is what it needs to find, as a deletion its key.
def store (env : TokenEnv) (call : TokenCall) (code : ErrorCode) (f : TokenLedger → TokenLedger)
    (present : TokenLedger → Bool := fun _ => true) : TokenM Unit :=
  update (fun s =>
    if env.fails call = true ∨ present s.ledger = false then none
    else some { s with ledger := f s.ledger }) code

-- An observer that is called in the middle of the transaction.
def tell (notice : Notice) : TokenM Unit := modify fun s => { s with told := s.told ++ [notice] }

-- `observers.push_back`.
def observe (notice : Notice) : TokenM Unit :=
  modify fun s => { s with observers := s.observers ++ [notice] }

section Runs

variable {env : TokenEnv} {s s' : TokenSession}

@[simp] theorem query_eq_ok {α : Type} (f : TokenLedger → Except ErrorCode α) (value : α) :
    query f s = .ok value s' ↔ f s.ledger = .ok value ∧ s = s' :=
  Process.check_eq_ok _ s s' value

@[simp] theorem query_eq_error {α : Type} (f : TokenLedger → Except ErrorCode α)
    (code : ErrorCode) : query f s = .error code s' ↔ f s.ledger = .error code ∧ s = s' :=
  Process.check_eq_error _ s s' code

@[simp] theorem store_eq_ok (call : TokenCall) (code : ErrorCode) (f : TokenLedger → TokenLedger)
    (present : TokenLedger → Bool) (u : Unit) : store env call code f present s = .ok u s' ↔
      env.fails call = false ∧ present s.ledger = true ∧ { s with ledger := f s.ledger } = s' := by
  simp [store, and_assoc]

@[simp] theorem store_eq_error (call : TokenCall) (code other : ErrorCode)
    (f : TokenLedger → TokenLedger) (present : TokenLedger → Bool) :
    store env call code f present s = .error other s' ↔
      (env.fails call = true ∨ present s.ledger = false) ∧ code = other ∧ s = s' := by
  unfold store
  rw [Process.update_eq_error]
  simp only [ite_eq_left_iff, reduceCtorEq, imp_false, not_not]

@[simp] theorem tell_eq_ok (notice : Notice) (u : Unit) :
    tell notice s = .ok u s' ↔ { s with told := s.told ++ [notice] } = s' :=
  Process.modify_eq_ok _ s s' u

@[simp] theorem tell_ne_error (notice : Notice) (code : ErrorCode) :
    ¬tell notice s = .error code s' := by
  intro h
  cases h

@[simp] theorem observe_eq_ok (notice : Notice) (u : Unit) :
    observe notice s = .ok u s' ↔ { s with observers := s.observers ++ [notice] } = s' :=
  Process.modify_eq_ok _ s s' u

@[simp] theorem observe_ne_error (notice : Notice) (code : ErrorCode) :
    ¬observe notice s = .error code s' := by
  intro h
  cases h

end Runs

end Raicoin
