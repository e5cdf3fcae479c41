import Raicoin.Token.Ledger

-- The helpers `UpdateLedger..._` of `rai::Token`, and what each makes of the tables.
namespace Raicoin

open Lib

section Updates

variable (env : TokenEnv)

def tokenInfoGet (key : TokenKey) (code : ErrorCode) : TokenM TokenInfo :=
  query fun l => orReturn (l.tokens.get key) code

def tokenInfoPut (key : TokenKey) (info : TokenInfo) (code : ErrorCode) : TokenM Unit :=
  store env .tokenInfoPut code fun l => { l with tokens := l.tokens.put key info }

def tokenIdInfoPut (key : TokenKey) (id : TokenValue) (info : TokenIdInfo) (code : ErrorCode) :
    TokenM Unit :=
  store env .tokenIdInfoPut code fun l => { l with tokenIds := l.tokenIds.put (key, id) info }

def accountTokenInfoPut (account : Account) (token : TokenKey) (info : AccountTokenInfo) :
    TokenM Unit :=
  store env .accountTokenInfoPut .APP_PROCESS_LEDGER_PUT fun l =>
    { l with accountTokens := l.accountTokens.put (account, token) info }

def accountSwapInfoPut (account : Account) (info : AccountSwapInfo) : TokenM Unit :=
  store env .accountSwapInfoPut .APP_PROCESS_LEDGER_PUT fun l =>
    { l with accountSwaps := l.accountSwaps.put account info }

-- The lists that the block at a height is added to, whose heads must be below it.
def accountTokenInfoBelow (l : TokenLedger) (account : Account) (token : TokenKey) (height : Nat) :
    Except ErrorCode AccountTokenInfo :=
  match l.accountTokens.get (account, token) with
  | none => .ok .init
  | some info =>
    if height ≤ info.head ∧ info.head ≠ INVALID_HEIGHT then .error .APP_PROCESS_UNEXPECTED
    else .ok info

def accountTokensInfoBelow (l : TokenLedger) (account : Account) (height : Nat) :
    Except ErrorCode AccountTokensInfo :=
  match l.accountsTokens.get account with
  | none => .ok .init
  | some info => if height ≤ info.head then .error .APP_PROCESS_UNEXPECTED else .ok info

-- The loop of `UpdateLedgerCommon_` over the tokens that the block is about.
def linkTokens (account : Account) (height : Nat) :
    List TokenKey → TokenM (List (TokenKey × AccountTokenInfo))
  | [] => return []
  | token :: tokens => do
    let info ← query fun l => accountTokenInfoBelow l account token height
    runIf (info.head ≠ INVALID_HEIGHT)
      (store env .accountTokenLinkSuccessorSet .APP_PROCESS_LEDGER_PUT
        (fun l => { l with
          accountTokenLinks := l.accountTokenLinks.change ⟨account, token, info.head⟩
            fun link => (link.1, height) })
        fun l => l.accountTokenLinks.contains ⟨account, token, info.head⟩)
    store env .accountTokenLinkPut .APP_PROCESS_LEDGER_PUT fun l =>
      { l with
        accountTokenLinks := l.accountTokenLinks.put ⟨account, token, height⟩
          (info.head, INVALID_HEIGHT) }
    let info := { info with head := height, blocks := info.blocks + 1 }
    accountTokenInfoPut env account token info
    let pairs ← linkTokens account height tokens
    return (token, info) :: pairs

def updateLedgerCommon_ (block : Block) (status : Option ErrorCode) (value : TokenValue)
    (valueOp : ValueOp) (tokens : List TokenKey) : TokenM Unit := do
  let account := block.account
  let height := block.height
  let info ← query fun l => accountTokensInfoBelow l account height
  runIf (info.head ≠ INVALID_HEIGHT)
    (store env .tokenBlockSuccessorSet .APP_PROCESS_LEDGER_PUT
      (fun l => { l with
        tokenBlocks := l.tokenBlocks.change (account, info.head)
          fun b => { b with successor := height } })
      fun l => l.tokenBlocks.contains (account, info.head))
  store env .tokenBlockPut .APP_PROCESS_LEDGER_PUT fun l =>
    { l with
      tokenBlocks := l.tokenBlocks.put (account, height)
        ⟨info.head, env.hash block, status, value, valueOp, tokens.headD .init, INVALID_HEIGHT⟩ }
  let info := ⟨height, info.blocks + 1⟩
  store env .accountTokensInfoPut .APP_PROCESS_LEDGER_PUT fun l =>
    { l with accountsTokens := l.accountsTokens.put account info }
  let pairs ← linkTokens env account height tokens
  observe (.account account info pairs)

-- `UpdateLedgerCommon_` of a block that moves nothing.
def updateLedgerStatus_ (block : Block) (status : Option ErrorCode) (tokens : List TokenKey) :
    TokenM Unit :=
  updateLedgerCommon_ env block status 0 .none tokens

def updateLedgerReceivable_ (key : TokenReceivableKey) (receivable : TokenReceivable)
    (info : TokenInfo) (block : Option Block) : TokenM Unit := do
  store env .tokenReceivablePut .APP_PROCESS_LEDGER_PUT fun l =>
    { l with receivables := l.receivables.put key receivable }
  tell (.receivable key receivable info block)

-- The part of `UpdateLedgerBalance_` that counts the holders.
def updateHolders (token : TokenKey) (previous current : TokenValue) : TokenM Unit := do
  let info ← tokenInfoGet token .APP_PROCESS_UNEXPECTED
  let holders := if previous = 0 then info.holders + 1 else info.holders
  query fun _ => returnIf (current = 0 ∧ holders = 0) .APP_PROCESS_HALT
  let info := { info with holders := if current = 0 then holders - 1 else holders }
  runIf (previous = 0 ∨ current = 0) do
    tokenInfoPut env token info .APP_PROCESS_LEDGER_PUT
    tell (.token token info)

def updateLedgerBalance_ (account : Account) (token : TokenKey) (previous current : TokenValue) :
    TokenM Unit :=
  runIf (previous ≠ current) do
    updateHolders env token previous current
    runIf (previous > 0) do
      query fun l =>
        returnIf (l.holders.contains ⟨token, previous, account⟩ = false) .APP_PROCESS_HALT
      store env .tokenHolderDel .APP_PROCESS_LEDGER_DEL
        (fun l => { l with holders := l.holders.del ⟨token, previous, account⟩ })
        fun l => l.holders.contains ⟨token, previous, account⟩
    runIf (current > 0) do
      store env .tokenHolderPut .APP_PROCESS_LEDGER_DEL fun l =>
        { l with holders := l.holders.put ⟨token, current, account⟩ () }
    let held ← query fun l => .ok ((l.accountTokens.get (account, token)).getD .init)
    accountTokenInfoPut env account token { held with balance := current }

def updateLedgerSupplies_ (token : TokenKey) (totalSupply localSupply : TokenValue) :
    TokenM Unit := do
  let info ← tokenInfoGet token .APP_PROCESS_UNEXPECTED
  let info := { info with totalSupply, localSupply }
  tokenInfoPut env token info .APP_PROCESS_LEDGER_PUT
  tell (.token token info)

def updateLedgerTokenTransfer_ (token : TokenKey) (timestamp : Nat) (account : Account)
    (height : Nat) : TokenM Unit := do
  let info ← tokenInfoGet token .APP_PROCESS_UNEXPECTED
  let info := { info with transfers := info.transfers + 1 }
  tokenInfoPut env token info .APP_PROCESS_LEDGER_PUT
  tell (.token token info)
  store env .tokenTransferPut .APP_PROCESS_LEDGER_PUT fun l =>
    { l with transfers := l.transfers.put ⟨token, timestamp, account, height⟩ () }

def updateLedgerTokenIdTransfer_ (token : TokenKey) (id : TokenValue) (account : Account)
    (height : Nat) : TokenM Unit := do
  let info ← query fun l => orReturn (l.tokenIds.get (token, id)) .APP_PROCESS_UNEXPECTED
  tokenIdInfoPut env token id { info with transfers := info.transfers + 1 } .APP_PROCESS_LEDGER_PUT
  store env .tokenIdTransferPut .APP_PROCESS_LEDGER_PUT fun l =>
    { l with idTransfers := l.idTransfers.put ⟨token, id, info.transfers⟩ (account, height) }

-- The counters of an account that begin at zero.
def raiseAccountSwaps (account : Account) (raise : AccountSwapInfo → AccountSwapInfo) :
    TokenM Unit := do
  let info ← query fun l => .ok ((l.accountSwaps.get account).getD .init)
  accountSwapInfoPut env account (raise info)

-- The counters of an account that must be there, and for which `low` says that they cannot go on.
def adjustAccountSwaps (account : Account) (low : AccountSwapInfo → Bool)
    (adjust : AccountSwapInfo → AccountSwapInfo) : TokenM Unit := do
  let info ← query fun l => do
    let info ← orReturn (l.accountSwaps.get account) .APP_PROCESS_HALT
    returnIf (low info) .APP_PROCESS_HALT
    return info
  accountSwapInfoPut env account (adjust info)

def updateLedgerAccountOrdersInc_ (account : Account) : TokenM Unit :=
  raiseAccountSwaps env account fun info =>
    { info with activeOrders := info.activeOrders + 1, totalOrders := info.totalOrders + 1 }

def updateLedgerAccountOrdersDec_ (account : Account) : TokenM Unit :=
  adjustAccountSwaps env account (fun info => info.activeOrders = 0) fun info =>
    { info with activeOrders := info.activeOrders - 1 }

def updateLedgerAccountActiveSwapsInc_ (account : Account) : TokenM Unit :=
  adjustAccountSwaps env account (fun _ => false) fun info =>
    { info with activeSwaps := info.activeSwaps + 1 }

def updateLedgerAccountTotalSwapsInc_ (account : Account) : TokenM Unit :=
  raiseAccountSwaps env account fun info => { info with totalSwaps := info.totalSwaps + 1 }

def updateLedgerAccountActiveSwapsDec_ (account : Account) : TokenM Unit :=
  adjustAccountSwaps env account (fun info => info.activeSwaps = 0) fun info =>
    { info with activeSwaps := info.activeSwaps - 1 }

-- One round of the loop of `UpdateLedgerSwapIndex_`.
def indexTokenSwap (taker : Account) (inquiryHeight timestamp : Nat) (token : TokenKey) :
    TokenM Unit := do
  store env .tokenSwapIndexPut .APP_PROCESS_LEDGER_PUT fun l =>
    { l with
      tokenSwapIndexes := l.tokenSwapIndexes.put ⟨token, timestamp, taker, inquiryHeight⟩ () }
  let info ← tokenInfoGet token .APP_PROCESS_HALT
  let info := { info with swaps := info.swaps + 1 }
  tokenInfoPut env token info .APP_PROCESS_LEDGER_PUT
  tell (.token token info)

def updateLedgerSwapIndex_ (order : OrderInfo) (swap : SwapInfo) (taker : Account)
    (inquiryHeight timestamp : Nat) : TokenM Unit := do
  store env .orderSwapIndexPut .APP_PROCESS_LEDGER_PUT fun l =>
    { l with
      orderSwapIndexes := l.orderSwapIndexes.put
        ⟨swap.maker, swap.orderHeight, swap.tradeHeight, taker, inquiryHeight⟩ () }
  indexTokenSwap env taker inquiryHeight timestamp order.tokenOffer
  indexTokenSwap env taker inquiryHeight timestamp order.tokenWant

-- `UpdateLedgerAccountSwapPing_` and `Pong_`: the time only goes forward.
def updateLedgerAccountSwapTime (account : Account) (time : Nat) (get : AccountSwapInfo → Nat)
    (set : AccountSwapInfo → AccountSwapInfo) : TokenM Unit := do
  let info ← query fun l => .ok ((l.accountSwaps.get account).getD .init)
  runIf (get info < time) do
    accountSwapInfoPut env account (set info)
    observe (.accountSwapInfo account)

def updateLedgerAccountSwapPing_ (account : Account) (ping : Nat) : TokenM Unit :=
  updateLedgerAccountSwapTime env account ping (·.ping) fun info => { info with ping }

def updateLedgerAccountSwapPong_ (account : Account) (pong : Nat) : TokenM Unit :=
  updateLedgerAccountSwapTime env account pong (·.pong) fun info => { info with pong }

end Updates

end Raicoin
