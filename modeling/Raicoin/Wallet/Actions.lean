import Raicoin.Common.BlockBuilder
import Raicoin.Secure.Store

-- The blocks that the wallet builds for its accounts.
namespace Raicoin

open Lib BlockBuilder

structure Wallet where
  validPassword : Bool
  privateKey : Account → Except ErrorCode RawKey

-- `ledger_` and `block_type_`, the type of the accounts that the wallet opens.
structure Wallets where
  ledger : Store
  blockType : BlockType

-- The arguments of the two constructors; an AD block has no extensions.
structure Draft where
  opcode : BlockOpcode
  credit : UInt16
  counter : UInt32
  timestamp : UInt64
  height : UInt64
  account : Account
  previous : BlockHash
  representative : Account
  balance : Amount
  link : Uint256
  extensions : Extensions

variable (env : Env) (signMessage : SignMessage)

namespace Draft

def noExtensions : Extensions := ⟨[], Nat.zero_le _⟩

def txBlock (draft : Draft) (key : RawKey) : Block :=
  let block : TxBlock := {
    opcode := draft.opcode
    credit := draft.credit
    counter := draft.counter
    timestamp := draft.timestamp
    height := draft.height
    account := draft.account
    previous := draft.previous
    representative := draft.representative
    balance := draft.balance
    link := draft.link
    extensions := draft.extensions.val
    signature := 0
    extensions_le := draft.extensions.property }
  .tx { block with signature := signMessage key draft.account (env.hash (.tx block)) }

def adBlock (draft : Draft) (key : RawKey) : Block :=
  let block : AdBlock := {
    opcode := draft.opcode
    credit := draft.credit
    counter := draft.counter
    timestamp := draft.timestamp
    height := draft.height
    account := draft.account
    previous := draft.previous
    representative := draft.representative
    balance := draft.balance
    link := draft.link
    signature := 0 }
  .ad { block with signature := signMessage key draft.account (env.hash (.ad block)) }

-- A wallet has accounts of two types, and some requests are for one of them only.
def block (draft : Draft) (key : RawKey) (type : BlockType) (allowed : List BlockType) :
    Except ErrorCode Block :=
  if type = .txBlock ∧ .txBlock ∈ allowed then .ok (draft.txBlock env signMessage key)
  else if type = .adBlock ∧ .adBlock ∈ allowed then .ok (draft.adBlock env signMessage key)
  else .error .BLOCK_TYPE

end Draft

namespace Wallets

-- What the wallet's ledger has of an account that exists.
def openAccount (wallets : Wallets) (account : Account) : Except ErrorCode (AccountInfo × Block) := do
  let info ← orReturn ((wallets.ledger.accountInfoGet account).filter AccountInfo.valid)
    .LEDGER_ACCOUNT_INFO_GET
  let head ← orReturn (wallets.ledger.blockGet info.head) .LEDGER_BLOCK_GET
  return (info, head)

def checkForks (info : AccountInfo) (timestamp credit : Nat) : Except ErrorCode Unit :=
  returnIf (info.forks > maxAllowedForks env.network timestamp credit) .ACCOUNT_RESTRICTED

-- `now` is what `CurrentTimestamp` returns, which fails before the first synchronization.
variable (extensionsToPtree : List UInt8 → Bool) (randomRepresentative : Account)
  (wallets : Wallets) (wallet : Wallet) (now : Option UInt64) (account : Account)

def processAccountChange (rep : Account) (extensions : List UInt8) : Except ErrorCode Block := do
  returnIf (wallet.validPassword = false) .WALLET_LOCKED
  let (info, head) ← wallets.openAccount account
  let rep := if rep = 0 then head.representative else rep
  let now ← orReturn now .WALLET_TIME_SYNC
  let timestamp := laterOf now.toNat head.timestamp
  checkTimestamp now timestamp
  checkForks env info timestamp head.credit
  let counter := nextCounter timestamp head
  checkCounter head.credit counter .ACCOUNT_ACTION_CREDIT
  let extensions ← checkExtensions extensions
  returnIf (extensionsToPtree extensions.val = true) .UNEXPECTED
  let key ← wallet.privateKey account
  Draft.block env signMessage {
    opcode := .change
    credit := UInt16.ofNat head.credit
    counter := UInt32.ofNat counter
    timestamp := UInt64.ofNat timestamp
    height := UInt64.ofNat (head.height + 1)
    account
    previous := info.head
    representative := rep
    balance := head.balance
    link := 0
    extensions } key info.type [.txBlock, .adBlock]

-- An account can buy credit while it is restricted.
def processAccountCredit (creditInc : UInt16) : Except ErrorCode Block := do
  returnIf (wallet.validPassword = false) .WALLET_LOCKED
  let (info, head) ← wallets.openAccount account
  let credit := (head.credit + creditInc.toNat) % 2 ^ 16
  returnIf (credit ≤ head.credit) .ACCOUNT_MAX_CREDIT
  let now ← orReturn now .WALLET_TIME_SYNC
  let timestamp := laterOf now.toNat head.timestamp
  checkTimestamp now timestamp
  let counter := nextCounter timestamp head
  checkCounter credit counter .ACCOUNT_ACTION_CREDIT
  let cost : Amount := BitVec.ofNat 128 (creditPrice env.network timestamp * creditInc.toNat)
  returnIf (cost.toNat > head.balance.toNat) .ACCOUNT_ACTION_BALANCE
  let key ← wallet.privateKey account
  Draft.block env signMessage {
    opcode := .credit
    credit := UInt16.ofNat credit
    counter := UInt32.ofNat counter
    timestamp := UInt64.ofNat timestamp
    height := UInt64.ofNat (head.height + 1)
    account
    previous := info.head
    representative := head.representative
    balance := head.balance - cost
    link := 0
    extensions := Draft.noExtensions } key info.type [.txBlock]

def processAccountDestroy : Except ErrorCode Block := do
  returnIf (wallet.validPassword = false) .WALLET_LOCKED
  let (info, head) ← wallets.openAccount account
  let now ← orReturn now .WALLET_TIME_SYNC
  let timestamp := laterOf now.toNat head.timestamp
  checkTimestamp now timestamp
  checkForks env info timestamp head.credit
  let counter := nextCounter timestamp head
  checkCounter head.credit counter .ACCOUNT_ACTION_CREDIT
  let key ← wallet.privateKey account
  Draft.block env signMessage {
    opcode := .destroy
    credit := UInt16.ofNat head.credit
    counter := UInt32.ofNat counter
    timestamp := UInt64.ofNat timestamp
    height := UInt64.ofNat (head.height + 1)
    account
    previous := info.head
    representative := head.representative
    balance := 0
    link := 0
    extensions := Draft.noExtensions } key info.type [.adBlock]

def processAccountSend (destination : Account) (amount : Amount) (extensions : List UInt8) :
    Except ErrorCode Block := do
  returnIf (wallet.validPassword = false) .WALLET_LOCKED
  let (info, head) ← wallets.openAccount account
  let now ← orReturn now .WALLET_TIME_SYNC
  let timestamp := laterOf now.toNat head.timestamp
  checkTimestamp now timestamp
  checkForks env info timestamp head.credit
  let counter := nextCounter timestamp head
  checkCounter head.credit counter .ACCOUNT_ACTION_CREDIT
  returnIf (head.balance.toNat < amount.toNat) .ACCOUNT_ACTION_BALANCE
  let extensions ← checkExtensions extensions
  returnIf (extensionsToPtree extensions.val = true) .UNEXPECTED
  let key ← wallet.privateKey account
  Draft.block env signMessage {
    opcode := .send
    credit := UInt16.ofNat head.credit
    counter := UInt32.ofNat counter
    timestamp := UInt64.ofNat timestamp
    height := UInt64.ofNat (head.height + 1)
    account
    previous := info.head
    representative := head.representative
    balance := head.balance - amount
    link := destination
    extensions } key info.type [.txBlock]

-- The first block of an account.
def receiveFirst (hash : BlockHash) (receivable : ReceivableInfo) : Except ErrorCode Block := do
  let now ← orReturn now .WALLET_TIME_SYNC
  let timestamp := if now.toNat ≤ receivable.timestamp then receivable.timestamp else now.toNat
  returnIf (timestamp > (now.toNat + 60) % 2 ^ 64) .ACCOUNT_ACTION_TOO_QUICKLY
  returnIf (receivable.amount.toNat < creditPrice env.network timestamp)
    .WALLET_RECEIVABLE_LESS_THAN_CREDIT
  let key ← wallet.privateKey account
  Draft.block env signMessage {
    opcode := .receive
    credit := 1
    counter := 1
    timestamp := UInt64.ofNat timestamp
    height := 0
    account
    previous := 0
    representative := randomRepresentative
    balance := receivable.amount - BitVec.ofNat 128 (creditPrice env.network timestamp)
    link := hash
    extensions := Draft.noExtensions } key wallets.blockType [.txBlock, .adBlock]

def receiveNext (hash : BlockHash) (receivable : ReceivableInfo) (info : AccountInfo) :
    Except ErrorCode Block := do
  let head ← orReturn (wallets.ledger.blockGet info.head) .LEDGER_BLOCK_GET
  let now ← orReturn now .WALLET_TIME_SYNC
  let timestamp := laterOf now.toNat head.timestamp
  let timestamp := if timestamp < receivable.timestamp then receivable.timestamp else timestamp
  checkTimestamp now timestamp
  checkForks env info timestamp head.credit
  let counter := nextCounter timestamp head
  checkCounter head.credit counter .ACCOUNT_ACTION_CREDIT
  let key ← wallet.privateKey account
  Draft.block env signMessage {
    opcode := .receive
    credit := UInt16.ofNat head.credit
    counter := UInt32.ofNat counter
    timestamp := UInt64.ofNat timestamp
    height := UInt64.ofNat (head.height + 1)
    account
    previous := info.head
    representative := head.representative
    balance := head.balance + receivable.amount
    link := hash
    extensions := Draft.noExtensions } key info.type [.txBlock, .adBlock]

def processAccountReceive (hash : BlockHash) : Except ErrorCode Block := do
  returnIf (wallet.validPassword = false) .WALLET_LOCKED
  let receivable ← orReturn (wallets.ledger.receivableInfoGet account hash)
    .LEDGER_RECEIVABLE_INFO_GET
  match (wallets.ledger.accountInfoGet account).filter AccountInfo.valid with
  | none =>
    receiveFirst env signMessage randomRepresentative wallets wallet now account hash receivable
  | some info => receiveNext env signMessage wallets wallet now account hash receivable info

end Wallets

-- What a user asks the wallet to do with an account.
inductive WalletRequest where
  | change (rep : Account) (extensions : List UInt8)
  | credit (creditInc : UInt16)
  | destroy
  | send (destination : Account) (amount : Amount) (extensions : List UInt8)
  | receive (hash : BlockHash)

-- The block that the callback gets with SUCCESS.
def Wallets.process (extensionsToPtree : List UInt8 → Bool) (randomRepresentative : Account)
    (wallets : Wallets) (wallet : Wallet) (now : Option UInt64) (account : Account) :
    WalletRequest → Except ErrorCode Block
  | .change rep extensions =>
    processAccountChange env signMessage extensionsToPtree wallets wallet now account rep extensions
  | .credit creditInc => processAccountCredit env signMessage wallets wallet now account creditInc
  | .destroy => processAccountDestroy env signMessage wallets wallet now account
  | .send destination amount extensions =>
    processAccountSend env signMessage extensionsToPtree wallets wallet now account destination
      amount extensions
  | .receive hash =>
    processAccountReceive env signMessage randomRepresentative wallets wallet now account hash

end Raicoin
