import Raicoin.Token.CrossChain
import Raicoin.Token.Swaps

-- What the token application does before and after a block enters its chain, and the runs of its
-- ledger.
namespace Raicoin

open Lib

section Process

variable (env : TokenEnv) (block : Block)

def processOperation : ExtensionToken → TokenM Unit
  | .create data => processCreate_ env block data
  | .mint data => processMint_ env block data
  | .burn data => processBurn_ env block data
  | .send data => processSend_ env block data
  | .receive data => processReceive_ env block data
  | .swap data => processSwap_ env block data
  | .unmap data => processUnmap_ env block data
  | .wrap data => processWrap_ env block data

def processContent : TokenContent → TokenM Unit
  | .none => return ()
  | .many => updateLedgerStatus_ env block (some .TOKEN_MULTI_EXTENSIONS) []
  | .broken code => updateLedgerStatus_ env block (some code) []
  | .operation token _ => processOperation env block token

-- The height of the block is in the list of token blocks, or below its head.
def TokenLedger.reentry (l : TokenLedger) (block : Block) : Bool :=
  match l.accountsTokens.get block.account with
  | none => false
  | some info => info.head ≥ block.height

-- `Token::Process`.
def processToken (content : TokenContent) : TokenM Unit := do
  let reentry ← query fun l => .ok (l.reentry block)
  runIf (reentry = false) (processContent env block content)

def TokenLedger.inquiryWaitingExist (l : TokenLedger) (account : Account) (height : Nat) : Bool :=
  l.inquiriesAt account height ≠ []

def TokenLedger.takeWaitingExist (l : TokenLedger) (account : Account) (height : Nat) : Bool :=
  l.takesAt account height ≠ []

-- The part of `AfterBlockAppend` that only a confirmed block may reach.
def whenConfirmed (confirmed : Bool) (p : TokenM Unit) : TokenM Unit := do
  query fun _ => returnIf (confirmed = false) .APP_PROCESS_CONFIRM_REQUIRED
  p

def afterBlockAppend (content : TokenContent) (confirmed : Bool) : TokenM Unit := do
  runIf (block.opcode = .credit) (observe (.accountSwapInfo block.account))
  runIf (content ≠ .none) (whenConfirmed confirmed (processToken env block content))
  let inquiries ← query fun l => .ok (l.inquiryWaitingExist block.account block.height)
  runIf (inquiries = true)
    (whenConfirmed confirmed (purgeInquiryWaiting_ env block.account block.height))
  let takes ← query fun l => .ok (l.takeWaitingExist block.account block.height)
  runIf (takes = true) (whenConfirmed confirmed (purgeTakeWaiting_ env block))

def preBlockAppend (content : TokenContent) (confirmed : Bool) (l : TokenLedger) :
    Except ErrorCode Unit :=
  if confirmed then .ok ()
  else do
    returnIf (block.opcode = .credit) .APP_PROCESS_CONFIRM_REQUIRED
    returnIf (content ≠ .none) .APP_PROCESS_CONFIRM_REQUIRED
    returnIf (l.inquiryWaitingExist block.account block.height = true)
      .APP_PROCESS_CONFIRM_REQUIRED
    returnIf (l.takeWaitingExist block.account block.height = true) .APP_PROCESS_CONFIRM_REQUIRED

def preBlockRollback (l : TokenLedger) : Except ErrorCode Unit :=
  match l.accountsTokens.get block.account with
  | none => .ok ()
  | some info =>
    returnIf (info.head ≠ INVALID_HEIGHT ∧ info.head ≥ block.height) .APP_PROCESS_HALT

end Process

end Raicoin
