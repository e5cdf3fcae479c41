import Raicoin.App.Waiting
import Raicoin.Token.Updates

-- The events of other chains.
namespace Raicoin

open Lib

-- What every event says about its place in the foreign chain and the contract that logged it.
structure CrossChainLog where
  blockHeight : Nat
  index : Nat
  chain : Chain
  address : TokenAddress
  txHash : BlockHash
  deriving DecidableEq, Repr

-- The token of the contract.
def CrossChainLog.token (log : CrossChainLog) : TokenKey := ⟨log.chain, log.address⟩

inductive CrossChainEvent where
  | token (log : CrossChainLog) (tokenType : TokenType) (decimals : UInt8) (wrapped : Bool)
  | create (log : CrossChainLog)
  | map (log : CrossChainLog) (tokenType : TokenType) (from_ to_ : Account) (value : TokenValue)
  | unmap (log : CrossChainLog) (from_ : Account) (fromHeight : Nat)
  | wrap (log : CrossChainLog) (from_ : Account) (fromHeight : Nat)
  | unwrap (log : CrossChainLog) (tokenType : TokenType) (original : TokenKey)
      (from_ to_ : Account) (value : TokenValue)
  deriving DecidableEq, Repr

structure CrossChainBlockEvents where
  chain : Chain
  blockHeight : UInt64
  events : List CrossChainEvent
  deriving DecidableEq, Repr

-- What is common to a MAP and an UNWRAP event: value of `token` comes in and is
-- credited to `to_`. An id must be `away` and is set `back`; the event itself is
-- recorded, so that it is not taken twice.
structure Deposit where
  log : CrossChainLog
  token : TokenKey
  tokenType : TokenType
  from_ : Account
  to_ : Account
  value : TokenValue
  source : TokenSource
  away : TokenIdInfo → Bool
  back : TokenIdInfo → TokenIdInfo
  recorded : TokenLedger → Bool
  call : TokenCall
  record : TokenLedger → TokenLedger
  notice : Notice

namespace Deposit

variable (d : Deposit)

def receivableKey : TokenReceivableKey :=
  ⟨d.to_, d.token, d.log.chain, d.log.txHash, d.log.index⟩

def receivable : TokenReceivable :=
  ⟨d.from_, d.value, d.log.blockHeight, d.tokenType, d.source⟩

-- What a deposit has to write: the token as it was read, its new local supply and
-- the info of the id that comes in.
structure Plan where
  info : TokenInfo
  localSupply : TokenValue
  idInfo : Option TokenIdInfo

def raisedSupply (info : TokenInfo) (value : TokenValue) : Except ErrorCode TokenValue := do
  let localSupply := info.localSupply + value
  returnIf (localSupply < info.localSupply) .TOKEN_CROSS_CHAIN_UNEXPECTED
  return localSupply

def returnedId (l : TokenLedger) : Except ErrorCode TokenIdInfo :=
  match l.tokenIds.get (d.token, d.value) with
  | none => .ok (.init "")
  | some idInfo => do
    returnIf (d.away idInfo = false) .TOKEN_CROSS_CHAIN_UNEXPECTED
    return d.back idInfo

def plan (l : TokenLedger) : Except ErrorCode Plan := do
  let info ← orReturn (l.tokens.get d.token) .TOKEN_CROSS_CHAIN_UNEXPECTED
  returnIf (info.type ≠ d.tokenType) .TOKEN_CROSS_CHAIN_UNEXPECTED
  returnIf (d.recorded l = true) .TOKEN_CROSS_CHAIN_UNEXPECTED
  match info.type with
  | .t20 =>
    let localSupply ← raisedSupply info d.value
    return ⟨info, localSupply, none⟩
  | .t721 =>
    let localSupply ← raisedSupply info 1
    let idInfo ← d.returnedId l
    return ⟨info, localSupply, some idInfo⟩
  | .invalid => throw .TOKEN_CROSS_CHAIN_UNEXPECTED

def putId (env : TokenEnv) : Option TokenIdInfo → TokenM Unit
  | none => return ()
  | some idInfo => tokenIdInfoPut env d.token d.value idInfo .TOKEN_LEDGER_PUT

def process (env : TokenEnv) : TokenM Unit := do
  let plan ← query d.plan
  d.putId env plan.idInfo
  updateLedgerReceivable_ env d.receivableKey d.receivable plan.info none
  updateLedgerSupplies_ env d.token plan.info.totalSupply plan.localSupply
  store env d.call .TOKEN_LEDGER_PUT d.record
  observe d.notice

end Deposit

def CrossChainLog.mapDeposit (log : CrossChainLog) (tokenType : TokenType) (from_ to_ : Account)
    (value : TokenValue) : Deposit where
  log := log
  token := log.token
  tokenType := tokenType
  from_ := from_
  to_ := to_
  value := value
  source := .map
  away := (·.unmapped)
  back := fun idInfo => { idInfo with unmapped := false }
  recorded := fun l => l.mapInfos.contains ⟨to_, log.chain, log.blockHeight, log.index⟩
  call := .tokenMapInfoPut
  record := fun l => { l with
    mapInfos := l.mapInfos.put ⟨to_, log.chain, log.blockHeight, log.index⟩
      ⟨log.token, log.txHash, from_, value, 0⟩ }
  notice := .tokenMap to_ log.chain log.blockHeight log.index

def CrossChainLog.unwrapDeposit (log : CrossChainLog) (tokenType : TokenType) (original : TokenKey)
    (from_ to_ : Account) (value : TokenValue) : Deposit where
  log := log
  token := original
  tokenType := tokenType
  from_ := from_
  to_ := to_
  value := value
  source := .unwrap
  away := (·.wrapped)
  back := fun idInfo => { idInfo with wrapped := false }
  recorded := fun l => l.unwrapInfos.contains ⟨to_, log.chain, log.blockHeight, log.index⟩
  call := .tokenUnwrapInfoPut
  record := fun l => { l with
    unwrapInfos := l.unwrapInfos.put ⟨to_, log.chain, log.blockHeight, log.index⟩
      ⟨original, log.txHash, from_, value, log.address, 0⟩ }
  notice := .tokenUnwrap to_ log.chain log.blockHeight log.index

section Events

variable (env : TokenEnv)

-- The info of a token that is not known yet.
def newTokenInfo (log : CrossChainLog) (decimals : UInt8) : TokenType → Except ErrorCode TokenInfo
  | .t20 => .ok (.fungible "" "" decimals false false true 0 log.blockHeight)
  | .t721 => .ok (.nonFungible "" "" false true 0 "" log.blockHeight)
  | .invalid => .error .TOKEN_CROSS_CHAIN_UNEXPECTED

def processCrossChainTokenEvent_ (log : CrossChainLog) (tokenType : TokenType) (decimals : UInt8)
    (wrapped : Bool) : TokenM Unit :=
  runIf (wrapped = false) do
    let info ← query fun l => do
      returnIf (l.tokens.contains log.token = true) .TOKEN_CROSS_CHAIN_UNEXPECTED
      newTokenInfo log decimals tokenType
    tokenInfoPut env log.token info .TOKEN_LEDGER_PUT

def processCrossChainCreateEvent_ (log : CrossChainLog) : TokenM Unit := do
  query fun l => returnIf (l.wrappedTokens.contains log.token = true) .TOKEN_CROSS_CHAIN_UNEXPECTED
  store env .wrappedTokenInfoPut .TOKEN_LEDGER_PUT fun l =>
    { l with
      wrappedTokens := l.wrappedTokens.put log.token
        ⟨log.chain, log.address, log.blockHeight, log.txHash⟩ }

def processCrossChainMapEvent_ (log : CrossChainLog) (tokenType : TokenType) (from_ to_ : Account)
    (value : TokenValue) : TokenM Unit :=
  (log.mapDeposit tokenType from_ to_ value).process env

def processCrossChainUnmapEvent_ (log : CrossChainLog) (from_ : Account) (fromHeight : Nat) :
    TokenM Unit := do
  let info ← query fun l => do
    let _ ← waitBlock env.app from_ fromHeight
    orReturn (l.unmapInfos.get (from_, fromHeight)) .TOKEN_CROSS_CHAIN_UNEXPECTED
  store env .tokenUnmapInfoPut .TOKEN_LEDGER_PUT fun l =>
    { l with
      unmapInfos := l.unmapInfos.put (from_, fromHeight)
        { info with
          targetHeight := log.blockHeight, targetTx := log.txHash, targetIndex := log.index } }
  observe (.tokenUnmap from_ fromHeight)

-- A wrap that the ledger knows nothing of is ignored.
def processCrossChainWrapEvent_ (log : CrossChainLog) (from_ : Account) (fromHeight : Nat) :
    TokenM Unit := do
  let found ← query fun l => do
    let _ ← waitBlock env.app from_ fromHeight
    return l.wrapInfos.get (from_, fromHeight)
  match found with
  | none => return ()
  | some info =>
    store env .tokenWrapInfoPut .TOKEN_LEDGER_PUT fun l =>
      { l with
        wrapInfos := l.wrapInfos.put (from_, fromHeight)
          { info with
            targetHeight := log.blockHeight, targetTx := log.txHash, wrappedToken := log.address } }
    observe (.tokenWrap from_ fromHeight)

def processCrossChainUnwrapEvent_ (log : CrossChainLog) (tokenType : TokenType)
    (original : TokenKey) (from_ to_ : Account) (value : TokenValue) : TokenM Unit :=
  (log.unwrapDeposit tokenType original from_ to_ value).process env

def processCrossChainEvent_ : CrossChainEvent → TokenM Unit
  | .token log tokenType decimals wrapped =>
    processCrossChainTokenEvent_ env log tokenType decimals wrapped
  | .create log => processCrossChainCreateEvent_ env log
  | .map log tokenType from_ to_ value => processCrossChainMapEvent_ env log tokenType from_ to_ value
  | .unmap log from_ fromHeight => processCrossChainUnmapEvent_ env log from_ fromHeight
  | .wrap log from_ fromHeight => processCrossChainWrapEvent_ env log from_ fromHeight
  | .unwrap log tokenType original from_ to_ value =>
    processCrossChainUnwrapEvent_ env log tokenType original from_ to_ value

-- The loops of `ProcessCrossChainBlocks` over the events of a block and over the blocks.
def processCrossChainEvents : List CrossChainEvent → TokenM Unit
  | [] => return ()
  | event :: events => do
    processCrossChainEvent_ env event
    processCrossChainEvents events

def followChain (chain : Chain) : List CrossChainBlockEvents → UInt64 → TokenM UInt64
  | [], head => return head
  | block :: blocks, head => do
    query fun _ => returnIf (block.chain ≠ chain) .TOKEN_CROSS_CHAIN_INVALID_CHAIN
    query fun _ => returnIf (block.blockHeight ≠ head + 1) .TOKEN_CROSS_CHAIN_INVALID_HEIGHT
    processCrossChainEvents env block.events
    followChain chain blocks (head + 1)

end Events

-- The height up to which a chain has been followed.
def TokenLedger.chainHead (l : TokenLedger) (chain : Chain) : UInt64 :=
  (l.chainHeads.get chain).getD (ChainSinceHeight chain - 1)

-- What a call leaves behind: its code, the ledger and what clients have been told.
structure CrossChainResult where
  code : Option ErrorCode
  ledger : TokenLedger
  told : List Notice
  deriving DecidableEq

def crossChainBlocks (env : TokenEnv) (chain : Chain) (blocks : List CrossChainBlockEvents) :
    TokenM Unit := do
  let head ← query fun l => .ok (l.chainHead chain)
  let head ← followChain env chain blocks head
  store env .chainHeadPut .TOKEN_LEDGER_PUT fun l =>
    { l with chainHeads := l.chainHeads.put chain head }

-- An error aborts the transaction: nothing is written and the observers that wait
-- for the commit are dropped, but what has been told is not taken back.
def processCrossChainBlocks (env : TokenEnv) (l : TokenLedger)
    (blocks : List CrossChainBlockEvents) : CrossChainResult :=
  match blocks with
  | [] => ⟨some .TOKEN_CROSS_CHAIN_UNEXPECTED, l, []⟩
  | block :: _ =>
    match crossChainBlocks env block.chain blocks (.init l) with
    | .ok _ s => ⟨none, s.ledger, s.told ++ s.observers⟩
    | .error code s => ⟨some code, l, s.told⟩

-- The native token of a chain is put once; the parser of the chain gives its info.
def processChainNativeToken (env : TokenEnv) (l : TokenLedger) (chain : Chain) (info : TokenInfo) :
    CrossChainResult :=
  let key : TokenKey := ⟨chain, NativeAddress⟩
  if l.tokens.contains key then ⟨none, l, []⟩
  else if env.fails .tokenInfoPut then ⟨some .TOKEN_LEDGER_PUT, l, []⟩
  else ⟨none, { l with tokens := l.tokens.put key info }, []⟩

-- What `EvmParser` submits.
def evmNativeToken (chain : Chain) : TokenInfo :=
  .fungible "" "" 18 false false true 0 (ChainSinceHeight chain).toNat

end Raicoin
