import Raicoin.Common.Errors
import Raicoin.Lib.Process
import Raicoin.Secure.BlockWalk

-- How an application waits for a block of another account. What it queues and
-- asks for meanwhile is not part of its ledger.
namespace Raicoin

open Lib

def AccountInfo.confirmed (info : AccountInfo) (height : Nat) : Bool :=
  info.valid && info.confirmedHeight ≠ INVALID_HEIGHT && info.confirmedHeight ≥ height

def waitBlock (s : Store) (account : Account) (height : Nat) : Except ErrorCode Block := do
  let info ← orReturn (s.accountInfoGet account) .APP_PROCESS_WAITING
  returnIf (info.valid = false) .APP_PROCESS_WAITING
  returnIf (height > info.headHeight) .APP_PROCESS_WAITING
  returnIf (height < info.tailHeight) .APP_PROCESS_PRUNED
  let block ← orReturn (s.blockGetAt account height) .APP_PROCESS_HALT
  returnIf (info.confirmed height = false) .APP_PROCESS_WAITING
  return block

-- A block that is not there yet is not waited for.
def waitBlockIfExist (s : Store) (account : Account) (height : Nat) :
    Except ErrorCode (Option Block) :=
  match s.accountInfoGet account with
  | none => .ok none
  | some info =>
    if info.valid = false ∨ height > info.headHeight then .ok none
    else do
      returnIf (height < info.tailHeight) .APP_PROCESS_PRUNED
      let block ← orReturn (s.blockGetAt account height) .APP_PROCESS_HALT
      returnIf (info.confirmed height = false) .APP_PROCESS_WAITING
      return some block

end Raicoin
