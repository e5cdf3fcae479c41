import Raicoin.Lib.Machine
import Raicoin.Node.BlockRpc

-- How the wallet service takes requests, gives them to the wallet one by one, and calls back.
namespace Raicoin

open Lib

-- `SUCCESS`, the codes that the service sets itself, and those that it is told.
inductive ActionCode where
  | SUCCESS
  | LEDGER_BLOCK_GET
  | RPC_UNKNOWN_ACTION
  | other (code : UInt32)
  deriving DecidableEq

-- `error_code_` and `block_`: an action that succeeds has a block.
abbrev ActionResult := Except ActionCode Block

-- `WalletRpcAction`; there is no result as long as it is not `processed_`.
structure WalletRpcAction (ρ : Type) where
  sequence : Nat
  callbackError : Bool
  lastCallback : Nat
  result : Option ActionResult
  desc : String
  request : Option ρ

-- What `MakeResponse_` puts: of a block also the amount, and the source of what is received.
structure CallbackMessage (ρ : Type) where
  notify : String
  outcome : Except ActionCode (Block × Amount × Option Block)
  request : Option ρ

-- A message on its way, with the action that it is about.
structure RpcCallback (ρ : Type) where
  about : Nat
  message : CallbackMessage ρ

-- What is asked of the wallet.
inductive WalletCall (ρ : Type) where
  | credit
  | receive
  | request (request : ρ)

-- Where `Run` is. In between it holds the lock, or waits to go on.
inductive RunPoint (ρ : Type) where
  | pendings
  | sending (callback : RpcCallback ρ)
  | waiting
  | autoCredit
  | autoReceive
  | requests
  | asking (sequence : Nat) (call : WalletCall ρ)

-- The service, and what it has asked for and not been told yet: the actions of the calls that the
-- wallet has accepted, and the messages that the HTTP client has.
structure WalletRpc (ρ : Type) where
  requests : List ρ
  actions : List (WalletRpcAction ρ)
  sequence : Nat
  waitingCallback : Bool
  waitingWallet : Bool
  point : RunPoint ρ
  asked : List Nat
  posted : List (RpcCallback ρ)

-- The configuration, and how requests are read.
structure WalletRpcConfig (ρ : Type) where
  autoCredit : Bool
  autoReceive : Bool
  action : ρ → String
  parseAccountSend : ρ → ActionCode
  parseAccountChange : ρ → ActionCode

-- The ledger when a message is made, if a transaction can begin, and the clock.
structure LedgerView where
  store : Option Store
  sources : BlockHash → Option Block
  now : Nat

inductive PendingRequest (ρ : Type) where
  | stay
  | missing
  | send (message : CallbackMessage ρ)

namespace WalletRpc

variable {ρ : Type} (env : Env) (config : WalletRpcConfig ρ)

def empty : WalletRpc ρ where
  requests := []
  actions := []
  sequence := 0
  waitingCallback := false
  waitingWallet := false
  point := .pendings
  asked := []
  posted := []

def blockConfirmed (store : Store) (block : Block) : Bool :=
  match store.accountInfoGet block.account with
  | none => false
  | some info => info.confirmed block.height

-- An amount that cannot be told is zero.
def outcomeOf (view : LedgerView) (store : Store) (block : Block) : Block × Amount × Option Block :=
  (block, (blockAmount env store block).getD 0,
    if block.opcode = .receive then view.sources block.link else none)

-- What `ProcessPendings_` finds about the first action.
def pendingOf (view : LedgerView) (action : WalletRpcAction ρ) : PendingRequest ρ :=
  match action.result with
  | none => .stay
  | some result =>
    if action.callbackError ∧ action.lastCallback + 5 > view.now then .stay
    else
      match result with
      | .error code => .send ⟨action.desc, .error code, action.request⟩
      | .ok block =>
        match view.store with
        | none => .stay
        | some store =>
          if store.blockExists (env.hash block) = false then .missing
          else if blockConfirmed store block = false then .stay
          else .send ⟨action.desc, .ok (outcomeOf env view store block), action.request⟩

variable (s : WalletRpc ρ)

def addRequest (request : ρ) : WalletRpc ρ := { s with requests := s.requests ++ [request] }

def processPendings (view : LedgerView) : WalletRpc ρ :=
  match s.actions with
  | [] => { s with point := .waiting }
  | action :: rest =>
    if s.waitingCallback then { s with point := .waiting }
    else
      match pendingOf env view action with
      | .stay => { s with point := .waiting }
      | .missing =>
        { s with
          actions := { action with result := some (.error .LEDGER_BLOCK_GET) } :: rest
          point := .pendings }
      | .send message =>
        { s with
          actions := { action with callbackError := false, lastCallback := view.now } :: rest
          waitingCallback := true
          point := .sending ⟨action.sequence, message⟩ }

def processCallbackResult (success : Bool) : WalletRpc ρ :=
  { s with
    waitingCallback := false
    actions :=
      match s.actions with
      | [] => []
      | action :: rest => if success then rest else { action with callbackError := true } :: rest }

-- `SendCallback`, where the client takes the message or refuses it at once.
def sendCallback (callback : RpcCallback ρ) (taken : Bool) : WalletRpc ρ :=
  if taken then { s with posted := s.posted ++ [callback], point := .waiting }
  else { s.processCallbackResult false with point := .waiting }

def processAccountActionResult (result : ActionResult) (sequence : Nat) : WalletRpc ρ :=
  { s with
    waitingWallet := false
    actions := s.actions.map fun action =>
      if action.sequence = sequence then { action with result := some result } else action }

-- A new action, whose call of the wallet is next.
def begin (desc : String) (request : Option ρ) (call : WalletCall ρ) : WalletRpc ρ :=
  { s with
    actions := s.actions ++ [⟨s.sequence, false, 0, none, desc, request⟩]
    sequence := s.sequence + 1
    waitingWallet := true
    point := .asking s.sequence call }

def processAutoCredit (credit : Bool) : WalletRpc ρ :=
  if config.autoCredit ∧ credit then s.begin "account_credit" none .credit
  else { s with point := .autoReceive }

def processAutoReceive (receive : Bool) : WalletRpc ρ :=
  if config.autoReceive ∧ receive then s.begin "account_receive" none .receive
  else { s with point := .requests }

def processRequests : WalletRpc ρ :=
  match s.requests with
  | [] => { s with point := .pendings }
  | request :: rest =>
    { s with requests := rest }.begin (config.action request) (some request) (.request request)

-- Why the wallet is not called at all.
def refused : WalletCall ρ → ActionCode
  | .credit => .SUCCESS
  | .receive => .SUCCESS
  | .request request =>
    if config.action request = "account_send" then config.parseAccountSend request
    else if config.action request = "account_change" then config.parseAccountChange request
    else .RPC_UNKNOWN_ACTION

-- The wallet is called, and answers with `code`.
def ask (sequence : Nat) (call : WalletCall ρ) (code : ActionCode) : WalletRpc ρ :=
  let code := if refused config call = .SUCCESS then code else refused config call
  if code = .SUCCESS then { s with asked := s.asked ++ [sequence], point := .pendings }
  else { s.processAccountActionResult (.error code) sequence with point := .pendings }

end WalletRpc

-- The steps between two locks. Those of `Run` come with what they find outside: the ledger, the guards
-- of the automatic actions, and the answers to its calls.
inductive WalletRpcStep (ρ : Type) where
  | addRequest (request : ρ)
  | processPendings (view : LedgerView)
  | sendCallback (taken : Bool)
  | checkWaiting
  | processAutoCredit (credit : Bool)
  | processAutoReceive (receive : Bool)
  | processRequests
  | ask (code : ActionCode)
  | walletResult (which : Nat) (result : ActionResult)
  | callbackResult (which : Nat) (success : Bool)

namespace WalletRpc

variable {ρ : Type} (env : Env) (config : WalletRpcConfig ρ)

-- The order of `Run`; each accepted call has one result.
def Fits (s : WalletRpc ρ) : WalletRpcStep ρ → Prop
  | .addRequest _ => True
  | .processPendings _ => s.point = .pendings
  | .sendCallback _ => ∃ callback, s.point = .sending callback
  | .checkWaiting => s.point = .waiting
  | .processAutoCredit _ => s.point = .autoCredit
  | .processAutoReceive _ => s.point = .autoReceive
  | .processRequests => s.point = .requests
  | .ask _ => ∃ sequence call, s.point = .asking sequence call
  | .walletResult which _ => which < s.asked.length
  | .callbackResult which _ => which < s.posted.length

def take (s : WalletRpc ρ) : WalletRpcStep ρ → WalletRpc ρ
  | .addRequest request => s.addRequest request
  | .processPendings view => s.processPendings env view
  | .sendCallback taken =>
    match s.point with
    | .sending callback => s.sendCallback callback taken
    | _ => s
  | .checkWaiting => { s with point := if s.waitingWallet then .pendings else .autoCredit }
  | .processAutoCredit credit => s.processAutoCredit config credit
  | .processAutoReceive receive => s.processAutoReceive config receive
  | .processRequests => s.processRequests config
  | .ask code =>
    match s.point with
    | .asking sequence call => s.ask config sequence call code
    | _ => s
  | .walletResult which result =>
    match s.asked[which]? with
    | some sequence =>
      { s with asked := s.asked.eraseIdx which }.processAccountActionResult result sequence
    | none => s
  | .callbackResult which success =>
    { s with posted := s.posted.eraseIdx which }.processCallbackResult success

end WalletRpc

@[reducible] def walletRpcMachine {ρ : Type} (env : Env) (config : WalletRpcConfig ρ) :
    Machine (WalletRpc ρ) (WalletRpcStep ρ) where
  start s := s = .empty
  fits := WalletRpc.Fits
  step := WalletRpc.take env config

end Raicoin
