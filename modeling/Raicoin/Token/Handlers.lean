import Raicoin.App.Waiting
import Raicoin.Token.Operations
import Raicoin.Token.Updates

-- The handlers of the operations on a token: CREATE, MINT, BURN, SEND, RECEIVE, UNMAP and WRAP.
namespace Raicoin

open Lib

-- How the reads of a handler end early: the operation is refused, which the list of
-- token blocks keeps as its status, or the block is not taken at all.
inductive Stop where
  | refuse (status : ErrorCode) (token : Option TokenKey)
  | fail (code : ErrorCode)
  deriving DecidableEq, Repr

abbrev Planning (α : Type) : Type := Except Stop α

section Planning

variable {α : Type}

def refuseIf (condition : Prop) [Decidable condition] (status : ErrorCode)
    (token : Option TokenKey) : Planning Unit :=
  returnIf condition (.refuse status token)

def orRefuse (found : Option α) (status : ErrorCode) (token : Option TokenKey) : Planning α :=
  orReturn found (.refuse status token)

def failIf (condition : Prop) [Decidable condition] (code : ErrorCode) : Planning Unit :=
  returnIf condition (.fail code)

def orFail (found : Option α) (code : ErrorCode) : Planning α := orReturn found (.fail code)

-- `IF_NOT_SUCCESS_RETURN(error_code)`.
def orStop (result : Except ErrorCode α) : Planning α := result.mapError .fail

-- A handler first reads, and every refusal comes before its first write.
def carryOut (env : TokenEnv) (block : Block) (plan : TokenLedger → Planning α)
    (run : α → TokenM Unit) : TokenM Unit := fun s =>
  match plan s.ledger with
  | .ok a => run a s
  | .error (.refuse status token) => updateLedgerStatus_ env block (some status) token.toList s
  | .error (.fail code) => .error code s

end Planning

-- The token that an account creates, mints and burns.
def Env.ownToken (env : Env) (block : Block) : TokenKey :=
  ⟨CurrentChain env.network, block.account⟩

-- The key of what the block gives to an account.
def Env.receivableKey (env : Env) (block : Block) (to_ : Account) (token : TokenKey) :
    TokenReceivableKey :=
  ⟨to_, token, CurrentChain env.network, env.hash block, 0⟩

section Pieces

variable (env : TokenEnv) (block : Block)

def accountTokenIdPut (id : AccountTokenId) : TokenM Unit :=
  store env .accountTokenIdPut .APP_PROCESS_LEDGER_PUT fun l =>
    { l with accountTokenIds := l.accountTokenIds.put id block.height }

def accountTokenIdDel (id : AccountTokenId) : TokenM Unit :=
  store env .accountTokenIdDel .APP_PROCESS_LEDGER_DEL
    (fun l => { l with accountTokenIds := l.accountTokenIds.del id })
    fun l => l.accountTokenIds.contains id

-- The account gives up an id that it owns.
def giveUpId (token : TokenKey) (id : TokenValue) : TokenM Unit := do
  accountTokenIdDel env ⟨block.account, token, id⟩
  updateLedgerTokenIdTransfer_ env token id block.account block.height

def observeId (token : TokenKey) (id : TokenValue) (info : TokenIdInfo) (receive : Bool) :
    TokenM Unit := do
  observe (.tokenIdTransfer token id info block.account receive)
  observe (.accountTokenBalance block.account token .t721 (some id))

def observeBalance (token : TokenKey) : TokenM Unit :=
  observe (.accountTokenBalance block.account token .t20 none)

def observeGone (token : TokenKey) (id : TokenValue) : Option TokenIdInfo → TokenM Unit
  | none => observeBalance block token
  | some idInfo => observeId block token id idInfo false

-- The transfer and the balance that a handler ends with.
def updateTransferAndBalance (token : TokenKey) (previous current : TokenValue) : TokenM Unit := do
  updateLedgerTokenTransfer_ env token block.timestamp block.account block.height
  updateLedgerBalance_ env block.account token previous current

end Pieces

section Create

variable (env : TokenEnv) (block : Block)

-- A zero supply is what the constructor sets.
def ExtensionToken20Create.info (create : ExtensionToken20Create) (height : Nat) : TokenInfo :=
  { TokenInfo.fungible create.symbol create.name create.decimals create.burnable create.mintable
      create.circulable create.capSupply height with
    totalSupply := create.initSupply, localSupply := create.initSupply }

def ExtensionToken721Create.info (create : ExtensionToken721Create) (height : Nat) : TokenInfo :=
  .nonFungible create.symbol create.name create.burnable create.circulable create.capSupply
    create.baseUri height

def createToken20 (create : ExtensionToken20Create) : TokenM Unit := do
  let token := env.ownToken block
  let info := create.info block.height
  runIf (create.initSupply > 0)
    (updateLedgerReceivable_ env (env.receivableKey block block.account token)
      ⟨block.account, create.initSupply, block.height, .t20, .mint⟩ info (some block))
  tokenInfoPut env token info .APP_PROCESS_LEDGER_PUT
  updateLedgerStatus_ env block none [token]
  tell (.token token info)

def createToken721 (create : ExtensionToken721Create) : TokenM Unit := do
  let token := env.ownToken block
  let info := create.info block.height
  tokenInfoPut env token info .APP_PROCESS_LEDGER_PUT
  updateLedgerStatus_ env block none [token]
  tell (.token token info)

def processCreate_ (create : ExtensionTokenCreate) : TokenM Unit :=
  let token := env.ownToken block
  carryOut env block
    (fun l => refuseIf (l.tokens.contains token = true) .TOKEN_RECREATE token)
    fun _ => match create with
      | .token20 create => createToken20 env block create
      | .token721 create => createToken721 env block create

end Create

section Mint

variable (env : TokenEnv) (block : Block)

-- The part of a handler that only an id needs.
def forId (idInfo : Option TokenIdInfo) (run : TokenIdInfo → TokenM Unit) : TokenM Unit :=
  match idInfo with
  | none => return ()
  | some idInfo => run idInfo

-- The supplies after a mint, and the info that a minted id gets.
structure MintPlan where
  info : TokenInfo
  totalSupply : TokenValue
  localSupply : TokenValue
  idInfo : Option TokenIdInfo

def mintedSupplies (token : TokenKey) (info : TokenInfo) (value : TokenValue) :
    Planning (TokenValue × TokenValue) := do
  let totalSupply := info.totalSupply + value
  refuseIf (totalSupply ≤ info.totalSupply) .TOKEN_TOTAL_SUPPLY_OVERFLOW token
  refuseIf (info.capSupply > 0 ∧ totalSupply > info.capSupply) .TOKEN_CAP_SUPPLY_EXCEEDED token
  let localSupply := info.localSupply + value
  failIf (localSupply ≤ info.localSupply) .APP_PROCESS_UNEXPECTED
  return (totalSupply, localSupply)

-- An id that was burned can be minted again.
def mintedId (l : TokenLedger) (token : TokenKey) (id : TokenValue) (uri : String) :
    Planning TokenIdInfo :=
  match l.tokenIds.get (token, id) with
  | none => .ok (.init uri)
  | some info => do
    refuseIf (info.burned = false) .TOKEN_ID_REMINT token
    return { info with burned := false, uri }

def mintPlan (mint : ExtensionTokenMint) (l : TokenLedger) : Planning MintPlan := do
  let token := env.ownToken block
  let info ← orRefuse (l.tokens.get token) .TOKEN_NOT_CREATED none
  refuseIf (info.mintable = false) .TOKEN_UNMINTABLE token
  refuseIf (mint.type ≠ info.type) .TOKEN_TYPE_INVALID token
  match mint.type with
  | .t20 => do
    let (totalSupply, localSupply) ← mintedSupplies token info mint.value
    return ⟨info, totalSupply, localSupply, none⟩
  | .t721 => do
    let (totalSupply, localSupply) ← mintedSupplies token info 1
    let idInfo ← mintedId l token mint.value mint.uri
    return ⟨info, totalSupply, localSupply, some idInfo⟩
  | .invalid => throw (.fail .APP_PROCESS_UNEXPECTED)

def runMint (mint : ExtensionTokenMint) (plan : MintPlan) : TokenM Unit := do
  let token := env.ownToken block
  forId plan.idInfo fun idInfo =>
    tokenIdInfoPut env token mint.value idInfo .APP_PROCESS_LEDGER_PUT
  updateLedgerReceivable_ env (env.receivableKey block mint.to_ token)
    ⟨block.account, mint.value, block.height, mint.type, .mint⟩ plan.info (some block)
  updateLedgerSupplies_ env token plan.totalSupply plan.localSupply
  updateLedgerStatus_ env block none [token]
  forId plan.idInfo fun idInfo => tell (.tokenIdCreation token mint.value idInfo)

def processMint_ (mint : ExtensionTokenMint) : TokenM Unit :=
  carryOut env block (mintPlan env block mint) (runMint env block mint)

end Mint

section Burn

variable (env : TokenEnv) (block : Block)

-- The balance and the supplies after a burn, an UNMAP or a WRAP, and the info that an id has
-- afterwards.
structure LossPlan where
  info : TokenInfo
  previous : TokenValue
  balance : TokenValue
  totalSupply : TokenValue
  localSupply : TokenValue
  idInfo : Option TokenIdInfo

def burnPlan (burn : ExtensionTokenBurn) (l : TokenLedger) : Planning LossPlan := do
  let token := env.ownToken block
  let info ← orRefuse (l.tokens.get token) .TOKEN_NOT_CREATED none
  refuseIf (info.burnable = false) .TOKEN_UNBURNABLE token
  refuseIf (burn.type ≠ info.type) .TOKEN_TYPE_INVALID token
  let held ← orFail (l.accountTokens.get (block.account, token)) .APP_PROCESS_UNEXPECTED
  match burn.type with
  | .t20 => do
    refuseIf (burn.value > held.balance) .TOKEN_BURN_MORE_THAN_BALANCE token
    failIf (burn.value > info.totalSupply) .APP_PROCESS_HALT
    failIf (burn.value > info.localSupply) .APP_PROCESS_HALT
    return ⟨info, held.balance, held.balance - burn.value, info.totalSupply - burn.value,
      info.localSupply - burn.value, none⟩
  | .t721 => do
    refuseIf (l.accountTokenIds.contains ⟨block.account, token, burn.value⟩ = false)
      .TOKEN_ID_NOT_OWNED token
    failIf (held.balance < 1) .APP_PROCESS_HALT
    failIf (info.totalSupply < 1) .APP_PROCESS_HALT
    failIf (info.localSupply < 1) .APP_PROCESS_HALT
    let idInfo ← orFail (l.tokenIds.get (token, burn.value)) .APP_PROCESS_HALT
    return ⟨info, held.balance, held.balance - 1, info.totalSupply - 1, info.localSupply - 1,
      some { idInfo with burned := true }⟩
  | .invalid => throw (.fail .APP_PROCESS_UNEXPECTED)

-- The id leaves the account and is marked in its info; a balance only has to be told.
def loseValue (token : TokenKey) (id : TokenValue) (idInfo : Option TokenIdInfo) : TokenM Unit :=
  match idInfo with
  | none => observeBalance block token
  | some idInfo => do
    tokenIdInfoPut env token id idInfo .APP_PROCESS_LEDGER_PUT
    giveUpId env block token id
    observeId block token id idInfo false

def runBurn (burn : ExtensionTokenBurn) (plan : LossPlan) : TokenM Unit := do
  let token := env.ownToken block
  loseValue env block token burn.value plan.idInfo
  updateTransferAndBalance env block token plan.previous plan.balance
  updateLedgerSupplies_ env token plan.totalSupply plan.localSupply
  updateLedgerCommon_ env block none burn.value .decrease [token]

def processBurn_ (burn : ExtensionTokenBurn) : TokenM Unit :=
  carryOut env block (burnPlan env block burn) (runBurn env block burn)

end Burn

section Send

variable (env : TokenEnv) (block : Block)

-- The balance after value has left the account, and the info of an id that leaves it.
structure SpendPlan where
  info : TokenInfo
  previous : TokenValue
  balance : TokenValue
  idInfo : Option TokenIdInfo

-- The token is there, has the given type, and the account holds some of it.
def heldToken (l : TokenLedger) (token : ExtensionTokenInfo) :
    Planning (TokenInfo × AccountTokenInfo) := do
  let held ← orRefuse (l.accountTokens.get (block.account, token.key)) .TOKEN_BALANCE_IS_EMPTY none
  refuseIf (held.balance = 0) .TOKEN_BALANCE_IS_ZERO none
  let info ← orFail (l.tokens.get token.key) .APP_PROCESS_HALT
  refuseIf (token.type ≠ info.type) .TOKEN_TYPE_INVALID token.key
  return (info, held)

def sendPlan (send : ExtensionTokenSend) (l : TokenLedger) : Planning SpendPlan := do
  let token := send.token.key
  let (info, held) ← heldToken block l send.token
  refuseIf (info.circulable = false ∧ IsRaicoin token.chain = true ∧
    block.account ≠ token.address ∧ send.to_ ≠ token.address) .TOKEN_UNCIRCULABLE token
  match info.type with
  | .t20 => do
    refuseIf (send.value > held.balance) .TOKEN_SEND_MORE_THAN_BALANCE token
    return ⟨info, held.balance, held.balance - send.value, none⟩
  | .t721 => do
    refuseIf (l.accountTokenIds.contains ⟨block.account, token, send.value⟩ = false)
      .TOKEN_ID_NOT_OWNED token
    let idInfo ← orFail (l.tokenIds.get (token, send.value)) .APP_PROCESS_UNEXPECTED
    return ⟨info, held.balance, held.balance - 1, some idInfo⟩
  | .invalid => throw (.fail .APP_PROCESS_UNEXPECTED)

def runSend (send : ExtensionTokenSend) (plan : SpendPlan) : TokenM Unit := do
  let token := send.token.key
  forId plan.idInfo fun _ => giveUpId env block token send.value
  updateLedgerReceivable_ env (env.receivableKey block send.to_ token)
    ⟨block.account, send.value, block.height, plan.info.type, .send⟩ plan.info (some block)
  observeGone block token send.value plan.idInfo
  updateTransferAndBalance env block token plan.previous plan.balance
  updateLedgerCommon_ env block none send.value .decrease [token]

def processSend_ (send : ExtensionTokenSend) : TokenM Unit :=
  carryOut env block (sendPlan block send) (runSend env block send)

end Send

section Receive

variable (env : TokenEnv) (block : Block)

-- `WaitChain_`.
def waitChain_ (l : TokenLedger) (chain : Chain) (height : Nat) : Planning Unit :=
  match l.chainHeads.get chain with
  | none => throw (.fail .APP_PROCESS_WAITING)
  | some head => failIf (height > head.toNat) .APP_PROCESS_WAITING

-- The chain and the index that the receivable is known by, once its source has been seen.
def receiveSource (receive : ExtensionTokenReceive) (l : TokenLedger) : Planning (Chain × Nat) := do
  if IsLocalSource receive.source then
    refuseIf (receive.from_ = block.account ∧ receive.blockHeight ≥ block.height)
      .TOKEN_RECEIVE_BLOCK_HEIGHT none
    let _ ← orStop (waitBlock env.app receive.from_ receive.blockHeight)
    return (CurrentChain env.network, 0)
  else if receive.source = .map then
    waitChain_ l receive.token.chain receive.blockHeight
    return (receive.token.chain, receive.index)
  else if receive.source = .unwrap then
    waitChain_ l receive.unwrapChain receive.blockHeight
    return (receive.unwrapChain, receive.index)
  else throw (.fail .APP_PROCESS_UNEXPECTED)

structure ReceivePlan where
  key : TokenReceivableKey
  previous : TokenValue
  balance : TokenValue
  idInfo : Option TokenIdInfo

def receivePlan (receive : ExtensionTokenReceive) (l : TokenLedger) : Planning ReceivePlan := do
  let token := receive.token.key
  let (chain, index) ← receiveSource env block receive l
  let key : TokenReceivableKey := ⟨block.account, token, chain, receive.txHash, index⟩
  let receivable ← orRefuse (l.receivables.get key) .TOKEN_UNRECEIVABLE none
  refuseIf (receivable.tokenType ≠ receive.token.type) .TOKEN_TYPE_INVALID token
  refuseIf (receivable.source ≠ receive.from_) .TOKEN_RECEIVE_FROM token
  refuseIf (receivable.blockHeight ≠ receive.blockHeight) .TOKEN_RECEIVE_BLOCK_HEIGHT token
  refuseIf (receivable.value ≠ receive.value) .TOKEN_RECEIVE_VALUE token
  refuseIf (receivable.tokenSource ≠ receive.source) .TOKEN_RECEIVE_SOURCE token
  let info ← orFail (l.tokens.get token) .APP_PROCESS_HALT
  failIf (info.type ≠ receive.token.type) .APP_PROCESS_HALT
  let previous := ((l.accountTokens.get (block.account, token)).getD .init).balance
  match receivable.tokenType with
  | .t20 => do
    refuseIf (previous + receivable.value < previous) .TOKEN_BALANCE_OVERFLOW token
    return ⟨key, previous, previous + receivable.value, none⟩
  | .t721 => do
    refuseIf (previous + 1 < previous) .TOKEN_BALANCE_OVERFLOW token
    let idInfo ← orFail (l.tokenIds.get (token, receive.value)) .APP_PROCESS_UNEXPECTED
    return ⟨key, previous, previous + 1, some idInfo⟩
  | .invalid => throw (.fail .APP_PROCESS_UNEXPECTED)

-- The record of a MAP or an UNWRAP gets the hash of the block that receives it.
def markReceived (receive : ExtensionTokenReceive) (key : TokenReceivableKey) : TokenM Unit :=
  let mapKey : TokenMapKey := ⟨block.account, key.chain, receive.blockHeight, key.index⟩
  match receive.source with
  | .map => do
    let info ← query fun l => orReturn (l.mapInfos.get mapKey) .APP_PROCESS_UNEXPECTED
    store env .tokenMapInfoPut .APP_PROCESS_LEDGER_PUT fun l =>
      { l with mapInfos := l.mapInfos.put mapKey { info with targetTx := env.hash block } }
    observe (.tokenMap block.account key.chain receive.blockHeight key.index)
  | .unwrap => do
    let info ← query fun l => orReturn (l.unwrapInfos.get mapKey) .APP_PROCESS_UNEXPECTED
    store env .tokenUnwrapInfoPut .APP_PROCESS_LEDGER_PUT fun l =>
      { l with unwrapInfos := l.unwrapInfos.put mapKey { info with targetTx := env.hash block } }
    observe (.tokenUnwrap block.account key.chain receive.blockHeight key.index)
  | _ => return ()

def tokenReceivableDel (key : TokenReceivableKey) : TokenM Unit :=
  store env .tokenReceivableDel .APP_PROCESS_LEDGER_DEL
    (fun l => { l with receivables := l.receivables.del key })
    fun l => l.receivables.contains key

def gainValue (token : TokenKey) (id : TokenValue) (idInfo : Option TokenIdInfo) : TokenM Unit :=
  match idInfo with
  | none => observeBalance block token
  | some idInfo => do
    accountTokenIdPut env block ⟨block.account, token, id⟩
    updateLedgerTokenIdTransfer_ env token id block.account block.height
    observeId block token id idInfo true

def runReceive (receive : ExtensionTokenReceive) (plan : ReceivePlan) : TokenM Unit := do
  let token := receive.token.key
  gainValue env block token receive.value plan.idInfo
  markReceived env block receive plan.key
  tokenReceivableDel env plan.key
  updateTransferAndBalance env block token plan.previous plan.balance
  updateLedgerCommon_ env block none receive.value .increase [token]
  observe (.received plan.key)

def processReceive_ (receive : ExtensionTokenReceive) : TokenM Unit :=
  carryOut env block (receivePlan env block receive) (runReceive env block receive)

end Receive

section Leave

variable (env : TokenEnv) (block : Block)

-- An UNMAP or a WRAP takes value out of the ledger: `mark` says how its id left.
def leavePlan (token : ExtensionTokenInfo) (value : TokenValue) (mark : TokenIdInfo → TokenIdInfo)
    (l : TokenLedger) : Planning LossPlan := do
  let (info, held) ← heldToken block l token
  match info.type with
  | .t20 => do
    refuseIf (value > held.balance) .TOKEN_UNMAP_MORE_THAN_BALANCE token.key
    failIf (value > info.localSupply) .APP_PROCESS_HALT
    return ⟨info, held.balance, held.balance - value, info.totalSupply, info.localSupply - value,
      none⟩
  | .t721 => do
    refuseIf (l.accountTokenIds.contains ⟨block.account, token.key, value⟩ = false)
      .TOKEN_ID_NOT_OWNED token.key
    failIf (info.localSupply < 1) .APP_PROCESS_HALT
    let idInfo ← orFail (l.tokenIds.get (token.key, value)) .APP_PROCESS_HALT
    return ⟨info, held.balance, held.balance - 1, info.totalSupply, info.localSupply - 1,
      some (mark idInfo)⟩
  | .invalid => throw (.fail .APP_PROCESS_UNEXPECTED)

-- `record` puts what the foreign chain is to be told.
def runLeave (token : ExtensionTokenInfo) (value : TokenValue) (record : LossPlan → TokenM Unit)
    (plan : LossPlan) : TokenM Unit := do
  loseValue env block token.key value plan.idInfo
  record plan
  updateTransferAndBalance env block token.key plan.previous plan.balance
  updateLedgerSupplies_ env token.key plan.totalSupply plan.localSupply
  updateLedgerCommon_ env block none value .decrease [token.key]

def putUnmapInfo (unmap : ExtensionTokenUnmap) (plan : LossPlan) : TokenM Unit := do
  store env .tokenUnmapInfoPut .APP_PROCESS_LEDGER_PUT fun l =>
    { l with
      unmapInfos := l.unmapInfos.put (block.account, block.height)
        ⟨unmap.token.key, plan.info.type, unmap.value, unmap.to_, env.hash block, unmap.extraData,
          0, INVALID_HEIGHT, 0⟩ }
  observe (.tokenUnmap block.account block.height)

def processUnmap_ (unmap : ExtensionTokenUnmap) : TokenM Unit :=
  carryOut env block
    (leavePlan block unmap.token unmap.value fun info => { info with unmapped := true })
    (runLeave env block unmap.token unmap.value (putUnmapInfo env block unmap))

def putWrapInfo (wrap : ExtensionTokenWrap) (plan : LossPlan) : TokenM Unit := do
  store env .tokenWrapInfoPut .APP_PROCESS_LEDGER_PUT fun l =>
    { l with
      wrapInfos := l.wrapInfos.put (block.account, block.height)
        ⟨wrap.token.key, plan.info.type, wrap.value, wrap.toChain, wrap.toAccount, env.hash block,
          0, INVALID_HEIGHT, 0⟩ }
  observe (.tokenWrap block.account block.height)

-- A chain that is not known yet is waited for.
def wrapChain (wrap : ExtensionTokenWrap) : Planning Unit :=
  match CheckWrapToChain wrap.toChain with
  | none => return ()
  | some code => do
    failIf (code = .TOKEN_WRAP_TO_UNKNOWN_CHAIN) .APP_PROCESS_WAITING
    throw (.refuse code none)

def processWrap_ (wrap : ExtensionTokenWrap) : TokenM Unit :=
  carryOut env block
    (fun l => do
      wrapChain wrap
      leavePlan block wrap.token wrap.value (fun info => { info with wrapped := true }) l)
    (runLeave env block wrap.token wrap.value (putWrapInfo env block wrap))

end Leave

end Raicoin
