import Raicoin.Secure.Ledger

namespace Raicoin.RollbackBlockVisitor

open Lib

variable (env : Env)

-- The members that `Check` fills in.
structure Checked where
  accountInfo : AccountInfo
  previous : Option Block
  deleteRewardable : Bool

def checkPrevious (s : Store) (block : Block) (info : AccountInfo) : Except ErrorCode Checked := do
  if block.height = 0 then
    return ⟨info, none, false⟩
  let previous ← orReturn (s.blockGet block.previous) .BLOCK_PROCESS_LEDGER_INCONSISTENT
  let amount := rewardAmount env.network previous.balance previous.timestamp block.timestamp
  if block.hasRepresentative = true ∧ amount ≠ 0 then
    let _ ← orReturn (s.rewardableInfoGet previous.representative (env.hash previous))
      .BLOCK_PROCESS_ROLLBACK_REWARDED
    return ⟨info, some previous, true⟩
  return ⟨info, some previous, false⟩

def check (s : Store) (block : Block) : Except ErrorCode Checked := do
  returnIf (s.blockExists (env.hash block) = false) .BLOCK_PROCESS_ROLLBACK_IGNORE
  let info ← orReturn ((s.accountInfoGet block.account).filter AccountInfo.valid)
    .BLOCK_PROCESS_LEDGER_INCONSISTENT
  returnIf (block.height < info.tailHeight ∨ block.height > info.headHeight)
    .BLOCK_PROCESS_LEDGER_INCONSISTENT
  returnIf (info.tailHeight = info.headHeight ∧ info.tailHeight ≠ 0) .BLOCK_PROCESS_ROLLBACK_TAIL
  returnIf (block.height ≠ info.headHeight) .BLOCK_PROCESS_ROLLBACK_NON_HEAD
  returnIf (env.hash block ≠ info.head) .BLOCK_PROCESS_LEDGER_INCONSISTENT
  let head ← orReturn (s.blockGet info.head) .BLOCK_PROCESS_LEDGER_INCONSISTENT
  returnIf (block ≠ head) .BLOCK_PROCESS_ROLLBACK_NOT_EQUAL_TO_HEAD
  checkPrevious env s block info

def updateRepWeight (block : Block) (previous : Option Block) : TransactionM Unit :=
  if block.hasRepresentative = false then pure ()
  else modify fun t =>
    let t := t.repWeightSub block.representative block.balance
    match previous with
    | none => t
    | some previous => t.repWeightAdd previous.representative previous.balance

def deleteRewardableInfo (checked : Checked) : TransactionM Unit :=
  match checked.deleteRewardable, checked.previous with
  | true, some previous =>
    write (fun fails s => s.rewardableInfoDel fails previous.representative (env.hash previous))
      .BLOCK_PROCESS_LEDGER_REWARDABLE_INFO_DEL
  | _, _ => pure ()

-- The info of the account once its head is gone.
def shortened (block : Block) (info : AccountInfo) : AccountInfo :=
  { info with
    head := block.previous
    headHeight := block.height - 1
    confirmedHeight :=
      if info.confirmedHeight ≠ INVALID_HEIGHT ∧ info.confirmedHeight > block.height - 1 then
        INVALID_HEIGHT
      else info.confirmedHeight }

def updateAccountInfo (block : Block) (info : AccountInfo) : TransactionM Unit :=
  if block.height = 0 then
    write (fun fails s => s.accountInfoDel fails block.account)
      .BLOCK_PROCESS_LEDGER_ACCOUNT_INFO_DEL
  else
    write (fun fails s => s.accountInfoPut fails block.account (shortened block info))
      .BLOCK_PROCESS_LEDGER_ACCOUNT_INFO_PUT

def deleteBlockSuccessor (block : Block) : TransactionM Unit := do
  write (fun fails s => s.blockDel fails (env.hash block)) .BLOCK_PROCESS_LEDGER_BLOCK_DEL
  if block.height ≠ 0 then
    write (fun fails s => s.blockSuccessorSet fails block.previous 0)
      .BLOCK_PROCESS_LEDGER_SUCCESSOR_SET

def putRollbackBlock (block : Block) : TransactionM Unit :=
  write (fun fails s => s.rollbackBlockPut fails (env.hash block) block)
    .BLOCK_PROCESS_LEDGER_ROLLBACK_BLOCK_PUT

-- The writes with which every method ends.
def shrink (block : Block) (checked : Checked) : TransactionM Unit := do
  deleteBlockSuccessor env block
  putRollbackBlock env block
  updateAccountInfo block checked.accountInfo
  deleteRewardableInfo env checked
  updateRepWeight block checked.previous

-- What a block had received; the sum is taken in 128 bits.
def amount (block : Block) (previous : Option Block) : Amount :=
  match previous with
  | some previous => block.balance - previous.balance
  | none => BitVec.ofNat 128
    (creditPrice env.network block.timestamp * block.credit + block.balance.toNat)

def checkSend (s : Store) (block : Block) : Except ErrorCode Checked := do
  let checked ← check env s block
  let _ ← orReturn (s.receivableInfoGet block.link (env.hash block))
    .BLOCK_PROCESS_ROLLBACK_RECEIVED
  return checked

def send (block : Block) : TransactionM Unit := do
  let checked ← examine fun s => checkSend env s block
  write (fun fails s => s.receivableInfoDel fails block.link (env.hash block))
    .BLOCK_PROCESS_LEDGER_RECEIVABLE_INFO_DEL
  shrink env block checked

def checkReceive (s : Store) (block : Block) : Except ErrorCode (Checked × Block) := do
  let checked ← check env s block
  let source ← orReturn (s.blockGet block.link) .BLOCK_PROCESS_ROLLBACK_SOURCE_PRUNED
  return (checked, source)

def receive (block : Block) : TransactionM Unit := do
  let (checked, source) ← examine fun s => checkReceive env s block
  write (fun fails s => s.receivableInfoPut fails block.account block.link
    ⟨source.account, amount env block checked.previous, source.timestamp⟩)
    .BLOCK_PROCESS_LEDGER_RECEIVABLE_INFO_PUT
  shrink env block checked

def change (block : Block) : TransactionM Unit := do
  let checked ← examine fun s => check env s block
  shrink env block checked

def credit (block : Block) : TransactionM Unit := do
  let checked ← examine fun s => check env s block
  shrink env block checked

def checkReward (s : Store) (block : Block) : Except ErrorCode (Checked × Block × Block) := do
  let checked ← check env s block
  let source ← orReturn (s.blocks.get block.link) .BLOCK_PROCESS_ROLLBACK_SOURCE_PRUNED
  let successor ← orReturn (s.blockGet source.successor) .BLOCK_PROCESS_LEDGER_INCONSISTENT
  return (checked, source.block, successor)

def reward (block : Block) : TransactionM Unit := do
  let (checked, source, successor) ← examine fun s => checkReward env s block
  write (fun fails s => s.rewardableInfoPut fails block.account block.link
    ⟨source.account, amount env block checked.previous,
      rewardTimestamp env.network source.timestamp successor.timestamp⟩)
    .BLOCK_PROCESS_LEDGER_REWARDABLE_INFO_PUT
  shrink env block checked

def destroy (block : Block) : TransactionM Unit := do
  let checked ← examine fun s => check env s block
  shrink env block checked

def bindingKey (block : Block) : BindingKey := ⟨block.account, block.chain, block.height⟩

def checkBind (s : Store) (block : Block) : Except ErrorCode (Checked × Nat) := do
  let checked ← check env s block
  let _ ← orReturn (s.bindingGet (bindingKey block)) .BLOCK_PROCESS_LEDGER_INCONSISTENT
  let count ← orReturn (s.bindingCountGet block.account) .BLOCK_PROCESS_LEDGER_INCONSISTENT
  returnIf (count = 0) .BLOCK_PROCESS_LEDGER_INCONSISTENT
  return (checked, count)

def bind (block : Block) : TransactionM Unit := do
  let (checked, count) ← examine fun s => checkBind env s block
  write (fun fails s => s.bindingDel fails (bindingKey block))
    .BLOCK_PROCESS_LEDGER_BINDING_ENTRY_DEL
  if count - 1 = 0 then
    write (fun fails s => s.bindingCountDel fails block.account)
      .BLOCK_PROCESS_LEDGER_BINDING_COUNT_DEL
  else
    write (fun fails s => s.bindingCountPut fails block.account (count - 1))
      .BLOCK_PROCESS_LEDGER_BINDING_COUNT_PUT
  shrink env block checked

end RollbackBlockVisitor

def rollbackBlockVisitor (env : Env) : BlockVisitor (TransactionM Unit) where
  send := RollbackBlockVisitor.send env
  receive := RollbackBlockVisitor.receive env
  change := RollbackBlockVisitor.change env
  credit := RollbackBlockVisitor.credit env
  reward := RollbackBlockVisitor.reward env
  destroy := RollbackBlockVisitor.destroy env
  bind := RollbackBlockVisitor.bind env

def rollbackBlock_ (env : Env) (block : Block) : TransactionM Unit :=
  block.visit (rollbackBlockVisitor env) (throw .BLOCK_OPCODE)

end Raicoin
