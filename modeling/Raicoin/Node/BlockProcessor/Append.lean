import Raicoin.Secure.Ledger

namespace Raicoin.AppendBlockVisitor

open Lib

-- `now` is what `CurrentTimestamp` returns during the call.
variable (env : Env) (now : Nat)

def checkCommon (s : Store) (block : Block) : Except ErrorCode Unit := do
  returnIf (block.type ≠ .txBlock ∧ block.type ≠ .repBlock ∧ block.type ≠ .adBlock)
    .BLOCK_PROCESS_TYPE_UNKNOWN
  returnIf (env.checkSignature block) .BLOCK_PROCESS_SIGNATURE
  returnIf (block.timestamp < epochTimestamp env.network ∨
    block.timestamp > (now + MAX_TIMESTAMP_DIFF) % 2 ^ 64) .BLOCK_PROCESS_TIMESTAMP
  returnIf (s.blockExists (env.hash block)) .BLOCK_PROCESS_EXISTS

def checkFirstCommon (block : Block) : Except ErrorCode Unit := do
  returnIf (block.height ≠ 0) .BLOCK_PROCESS_GAP_PREVIOUS
  returnIf (block.credit = 0) .BLOCK_PROCESS_CREDIT
  returnIf (block.previous ≠ 0) .BLOCK_PROCESS_PREVIOUS

def checkSuccessorCommon (block headBlock : Block) (info : AccountInfo) : Except ErrorCode Unit := do
  returnIf (block.height < info.tailHeight) .BLOCK_PROCESS_PRUNED
  returnIf (block.height ≤ info.headHeight) .BLOCK_PROCESS_FORK
  returnIf (block.height > (info.headHeight + 1) % 2 ^ 64) .BLOCK_PROCESS_GAP_PREVIOUS
  returnIf (block.type ≠ info.type) .BLOCK_PROCESS_TYPE_MISMATCH
  returnIf (block.previous ≠ info.head) .BLOCK_PROCESS_PREVIOUS
  returnIf (block.timestamp < headBlock.timestamp) .BLOCK_PROCESS_TIMESTAMP

def checkCounterSame (previous block : Block) : Except ErrorCode Unit :=
  if SameDay block.timestamp previous.timestamp then
    returnIf (block.counter ≠ previous.counter) .BLOCK_PROCESS_COUNTER
  else
    returnIf (block.counter ≠ 0) .BLOCK_PROCESS_COUNTER

def checkCounterIncrease (previous block : Block) : Except ErrorCode Unit :=
  if SameDay block.timestamp previous.timestamp then do
    returnIf (block.counter ≠ (previous.counter + 1) % 2 ^ 32) .BLOCK_PROCESS_COUNTER
    returnIf (block.counter > block.credit * TRANSACTIONS_PER_CREDIT)
      .BLOCK_PROCESS_ACCOUNT_EXCEED_TRANSACTIONS
  else
    returnIf (block.counter ≠ 1) .BLOCK_PROCESS_COUNTER

def checkRepresentativeSame (previous block : Block) : Except ErrorCode Unit :=
  returnIf (block.hasRepresentative = true ∧ previous.representative ≠ block.representative)
    .BLOCK_PROCESS_REPRESENTATIVE

-- The stored info of the account, when `account_exists`.
def accountInfo (s : Store) (block : Block) : Option AccountInfo :=
  (s.accountInfoGet block.account).filter AccountInfo.valid

-- The first tests of every method on an account that exists.
def checkHead (s : Store) (block : Block) (info : AccountInfo) : Except ErrorCode Block := do
  let headBlock ← orReturn (s.blockGet info.head) .BLOCK_PROCESS_LEDGER_BLOCK_GET
  checkSuccessorCommon block headBlock info
  return headBlock

-- The same for the methods that cannot open an account.
def checkOpened (s : Store) (block : Block) : Except ErrorCode (AccountInfo × Block) := do
  checkCommon env now s block
  match accountInfo s block with
  | none =>
    if block.height ≠ 0 then throw .BLOCK_PROCESS_GAP_PREVIOUS
    else throw .BLOCK_PROCESS_OPCODE
  | some info =>
    let headBlock ← checkHead s block info
    return (info, headBlock)

def putRewardableInfo (block successor : Block) : TransactionM Unit :=
  if block.hasRepresentative = false then pure ()
  else
    let amount := rewardAmount env.network block.balance block.timestamp successor.timestamp
    let timestamp := rewardTimestamp env.network block.timestamp successor.timestamp
    if amount ≠ 0 ∧ timestamp ≠ 0 then
      write (fun fails s => s.rewardableInfoPut fails block.representative (env.hash block)
        ⟨block.account, amount, timestamp⟩) .BLOCK_PROCESS_LEDGER_REWARDABLE_INFO_PUT
    else pure ()

def putBlockSuccessor (block : Block) : TransactionM Unit := do
  write (fun fails s => s.blockPut fails (env.hash block) block 0) .BLOCK_PROCESS_LEDGER_BLOCK_PUT
  write (fun fails s => s.blockSuccessorSet fails block.previous (env.hash block))
    .BLOCK_PROCESS_LEDGER_SUCCESSOR_SET

def updateAccountInfo (block : Block) (info : AccountInfo) : TransactionM Unit := do
  write (fun fails s => s.accountInfoPut fails block.account
    { info with headHeight := block.height, head := env.hash block })
    .BLOCK_PROCESS_LEDGER_ACCOUNT_INFO_PUT
  modify (Transaction.updateRichList block)

def updateRepInfo (previous block : Block) : TransactionM Unit :=
  if block.hasRepresentative = false then pure ()
  else modify fun t => ((t.repWeightSub previous.representative previous.balance).repWeightAdd
    block.representative block.balance).updateDelegatorList block

-- The writes with which a method extends an account that exists.
def extend (block : Block) (info : AccountInfo) (headBlock : Block) : TransactionM Unit := do
  putBlockSuccessor env block
  updateAccountInfo env block info
  updateRepInfo headBlock block
  putRewardableInfo env headBlock block

def checkSend (s : Store) (block : Block) : Except ErrorCode (AccountInfo × Block) := do
  let (info, headBlock) ← checkOpened env now s block
  returnIf (block.credit ≠ headBlock.credit) .BLOCK_PROCESS_CREDIT
  checkCounterIncrease headBlock block
  checkRepresentativeSame headBlock block
  returnIf (block.balance ≥ headBlock.balance) .BLOCK_PROCESS_BALANCE
  return (info, headBlock)

def send (block : Block) : TransactionM Unit := do
  let (info, headBlock) ← examine fun s => checkSend env now s block
  extend env block info headBlock
  write (fun fails s => s.receivableInfoPut fails block.link (env.hash block)
    ⟨block.account, headBlock.balance - block.balance, block.timestamp⟩)
    .BLOCK_PROCESS_LEDGER_RECEIVABLE_INFO_PUT

def checkReceiveFirst (s : Store) (block : Block) : Except ErrorCode Unit := do
  checkFirstCommon block
  returnIf (block.counter ≠ 1) .BLOCK_PROCESS_COUNTER
  let source ← orReturn (s.blockGet block.link) .BLOCK_PROCESS_GAP_RECEIVE_SOURCE
  returnIf (block.timestamp < source.timestamp) .BLOCK_PROCESS_TIMESTAMP
  let info ← orReturn (s.receivableInfoGet block.account block.link) .BLOCK_PROCESS_UNRECEIVABLE
  returnIf (info.amount.toNat ≠
    creditPrice env.network block.timestamp * block.credit + block.balance.toNat)
    .BLOCK_PROCESS_BALANCE

def checkReceive (s : Store) (block : Block) (info : AccountInfo) : Except ErrorCode Block := do
  let headBlock ← checkHead s block info
  returnIf (block.credit ≠ headBlock.credit) .BLOCK_PROCESS_CREDIT
  checkCounterIncrease headBlock block
  checkRepresentativeSame headBlock block
  let source ← orReturn (s.blockGet block.link) .BLOCK_PROCESS_GAP_RECEIVE_SOURCE
  returnIf (block.timestamp < source.timestamp) .BLOCK_PROCESS_TIMESTAMP
  returnIf (block.balance ≤ headBlock.balance) .BLOCK_PROCESS_BALANCE
  let receivable ← orReturn (s.receivableInfoGet block.account block.link)
    .BLOCK_PROCESS_UNRECEIVABLE
  returnIf (receivable.amount ≠ block.balance - headBlock.balance) .BLOCK_PROCESS_BALANCE
  return headBlock

-- The weight and the list entry of a first block.
def openRepInfo (block : Block) : TransactionM Unit :=
  if block.hasRepresentative = true then
    modify fun t => (t.repWeightAdd block.representative block.balance).updateDelegatorList block
  else pure ()

def receive (block : Block) : TransactionM Unit := do
  let info ← examine fun s => do
    checkCommon env now s block
    return accountInfo s block
  match info with
  | none => do
    examine fun s => checkReceiveFirst env s block
    write (fun fails s => s.blockPut fails (env.hash block) block 0)
      .BLOCK_PROCESS_LEDGER_BLOCK_PUT
    write (fun fails s => s.accountInfoPut fails block.account
      (.first block.type (env.hash block))) .BLOCK_PROCESS_LEDGER_ACCOUNT_INFO_PUT
    modify (Transaction.updateRichList block)
    openRepInfo block
    write (fun fails s => s.receivableInfoDel fails block.account block.link)
      .BLOCK_PROCESS_LEDGER_RECEIVABLE_INFO_DEL
  | some info => do
    let headBlock ← examine fun s => checkReceive s block info
    extend env block info headBlock
    write (fun fails s => s.receivableInfoDel fails block.account block.link)
      .BLOCK_PROCESS_LEDGER_RECEIVABLE_INFO_DEL

def checkChange (s : Store) (block : Block) : Except ErrorCode (AccountInfo × Block) := do
  let (info, headBlock) ← checkOpened env now s block
  returnIf (block.credit ≠ headBlock.credit) .BLOCK_PROCESS_CREDIT
  checkCounterIncrease headBlock block
  returnIf (block.balance ≠ headBlock.balance) .BLOCK_PROCESS_BALANCE
  returnIf (block.link ≠ 0) .BLOCK_PROCESS_LINK
  return (info, headBlock)

def change (block : Block) : TransactionM Unit := do
  let (info, headBlock) ← examine fun s => checkChange env now s block
  extend env block info headBlock

def checkCredit (s : Store) (block : Block) : Except ErrorCode (AccountInfo × Block) := do
  let (info, headBlock) ← checkOpened env now s block
  returnIf (block.credit ≤ headBlock.credit) .BLOCK_PROCESS_CREDIT
  checkCounterIncrease headBlock block
  checkRepresentativeSame headBlock block
  returnIf (headBlock.balance.toNat ≠ block.balance.toNat +
    creditPrice env.network block.timestamp * (block.credit - headBlock.credit))
    .BLOCK_PROCESS_BALANCE
  returnIf (block.link ≠ 0) .BLOCK_PROCESS_LINK
  return (info, headBlock)

def credit (block : Block) : TransactionM Unit := do
  let (info, headBlock) ← examine fun s => checkCredit env now s block
  extend env block info headBlock

def checkRewardFirst (s : Store) (block : Block) : Except ErrorCode Unit := do
  checkFirstCommon block
  returnIf (block.counter ≠ 0) .BLOCK_PROCESS_COUNTER
  let source ← orReturn (s.blockGet block.link) .BLOCK_PROCESS_GAP_REWARD_SOURCE
  returnIf (block.timestamp < source.timestamp) .BLOCK_PROCESS_TIMESTAMP
  let info ← orReturn (s.rewardableInfoGet block.account block.link) .BLOCK_PROCESS_UNREWARDABLE
  returnIf (block.timestamp < info.validTimestamp) .BLOCK_PROCESS_TIMESTAMP
  returnIf (info.amount.toNat ≠
    creditPrice env.network block.timestamp * block.credit + block.balance.toNat)
    .BLOCK_PROCESS_BALANCE

def checkReward (s : Store) (block : Block) (info : AccountInfo) : Except ErrorCode Block := do
  let headBlock ← checkHead s block info
  returnIf (block.credit ≠ headBlock.credit) .BLOCK_PROCESS_CREDIT
  checkCounterSame headBlock block
  let source ← orReturn (s.blockGet block.link) .BLOCK_PROCESS_GAP_REWARD_SOURCE
  returnIf (block.timestamp < source.timestamp) .BLOCK_PROCESS_TIMESTAMP
  returnIf (block.balance ≤ headBlock.balance) .BLOCK_PROCESS_BALANCE
  let rewardable ← orReturn (s.rewardableInfoGet block.account block.link)
    .BLOCK_PROCESS_UNREWARDABLE
  returnIf (block.timestamp < rewardable.validTimestamp) .BLOCK_PROCESS_TIMESTAMP
  returnIf (rewardable.amount ≠ block.balance - headBlock.balance) .BLOCK_PROCESS_BALANCE
  return headBlock

-- Only REP blocks reward, so there are no weights and no lists to update here.
def reward (block : Block) : TransactionM Unit := do
  let info ← examine fun s => do
    checkCommon env now s block
    return accountInfo s block
  match info with
  | none => do
    examine fun s => checkRewardFirst env s block
    write (fun fails s => s.blockPut fails (env.hash block) block 0)
      .BLOCK_PROCESS_LEDGER_BLOCK_PUT
    write (fun fails s => s.accountInfoPut fails block.account
      (.first block.type (env.hash block))) .BLOCK_PROCESS_LEDGER_ACCOUNT_INFO_PUT
  | some info => do
    let _ ← examine fun s => checkReward s block info
    putBlockSuccessor env block
    updateAccountInfo env block info
  write (fun fails s => s.rewardableInfoDel fails block.account block.link)
    .BLOCK_PROCESS_LEDGER_REWARDABLE_INFO_DEL

-- The tests are those of SEND. Nothing is credited, the coins are gone.
def checkDestroy (s : Store) (block : Block) : Except ErrorCode (AccountInfo × Block) :=
  checkSend env now s block

def destroy (block : Block) : TransactionM Unit := do
  let (info, headBlock) ← examine fun s => checkDestroy env now s block
  extend env block info headBlock

def checkBind (s : Store) (block : Block) : Except ErrorCode (AccountInfo × Block × Nat) := do
  let (info, headBlock) ← checkOpened env now s block
  returnIf (block.credit ≠ headBlock.credit) .BLOCK_PROCESS_CREDIT
  checkCounterIncrease headBlock block
  returnIf (block.balance ≠ headBlock.balance) .BLOCK_PROCESS_BALANCE
  returnIf (block.hasChain = false ∨ block.chain = Chain.INVALID) .BLOCK_PROCESS_CHAIN
  match s.bindingCountGet block.account with
  | none => return (info, headBlock, 0)
  | some count =>
    returnIf (count ≥ allowedBindings headBlock.credit) .BLOCK_PROCESS_BINDING_COUNT
    return (info, headBlock, count)

def bind (block : Block) : TransactionM Unit := do
  let (info, headBlock, count) ← examine fun s => checkBind env now s block
  write (fun fails s => s.bindingPut fails ⟨block.account, block.chain, block.height⟩ block.link)
    .BLOCK_PROCESS_LEDGER_BINDING_ENTRY_PUT
  write (fun fails s => s.bindingCountPut fails block.account (count + 1))
    .BLOCK_PROCESS_LEDGER_BINDING_COUNT_PUT
  extend env block info headBlock

end AppendBlockVisitor

def appendBlockVisitor (env : Env) (now : Nat) : BlockVisitor (TransactionM Unit) where
  send := AppendBlockVisitor.send env now
  receive := AppendBlockVisitor.receive env now
  change := AppendBlockVisitor.change env now
  credit := AppendBlockVisitor.credit env now
  reward := AppendBlockVisitor.reward env now
  destroy := AppendBlockVisitor.destroy env now
  bind := AppendBlockVisitor.bind env now

def appendBlock_ (env : Env) (now : Nat) (block : Block) : TransactionM Unit :=
  block.visit (appendBlockVisitor env now) (throw .BLOCK_OPCODE)

end Raicoin
