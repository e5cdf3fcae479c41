import Raicoin.App.Waiting
import Raicoin.Common.Parameters
import Raicoin.Secure.BlockWalk

-- The requests for blocks that a node and an application server answer.
namespace Raicoin

-- The errors of these requests.
inductive RpcError where
  | LEDGER_BLOCK_GET
  | RPC_INVALID_FIELD_PREVIOUS
  | SUBSCRIBE_NO_CALLBACK
  | NODE_STATUS
  deriving DecidableEq

-- What a request ends in: a response, an error, or an assertion that fails.
inductive Served (β : Type) where
  | response (value : β)
  | refused (code : RpcError)
  | aborted
  deriving DecidableEq

-- A lookup of a block by height, and what is made of the block.
def Lookup.serve {α β : Type} (lookup : Lookup α) (respond : α → Served β) : Served β :=
  match lookup with
  | .found value => respond value
  | .error => .refused .LEDGER_BLOCK_GET
  | .aborted => .aborted

inductive BlockStatus where
  | success
  | fork
  | miss
  | pruned
  | rollback
  deriving DecidableEq

-- The fields of the response, as far as they are put in.
structure BlockResponse where
  status : BlockStatus
  confirmed : Option Bool
  block : Option Block
  amount : Option Amount
  deriving DecidableEq

def BlockResponse.ofStatus (status : BlockStatus) : BlockResponse := ⟨status, none, none, none⟩

-- `Block::Amount`. The sum of a first block has 256 bits.
def Block.firstAmount (network : RaiNetworks) (block : Block) : Option Amount :=
  let amount := creditPrice network block.timestamp * block.credit + block.balance.toNat
  if amount < 2 ^ 128 then some (BitVec.ofNat 128 amount) else none

def Block.amountSince (block previous : Block) : Amount :=
  if previous.balance > block.balance then previous.balance - block.balance
  else block.balance - previous.balance

-- `AppendBlockAmount_`
def blockAmount (env : Env) (s : Store) (block : Block) : Option Amount :=
  if block.height = 0 then block.firstAmount env.network
  else (s.blockGet block.previous).map block.amountSince

-- What `Subscriptions::Subscribe` looks at, and whether the request says "notify".
structure NotifyRequest where
  notify : Bool
  callbackUrl : Bool
  running : Bool
  deriving DecidableEq

def NotifyRequest.subscribe (request : NotifyRequest) : Except RpcError Unit :=
  if request.callbackUrl = false then .error .SUBSCRIBE_NO_CALLBACK
  else if request.running = false then .error .NODE_STATUS
  else .ok ()

-- The response, the block that was subscribed to and the block that an election begins with.
structure ConfirmAnswer where
  response : BlockResponse
  subscribed : Option Block
  election : Option Block
  deriving DecidableEq

def ConfirmAnswer.only (response : BlockResponse) : ConfirmAnswer := ⟨response, none, none⟩

-- The end of `BlockConfirm`: what is not confirmed is put to the vote.
def confirmAnswer (request : NotifyRequest) (confirmed : Bool) (block : Block)
    (response : BlockResponse) : Served ConfirmAnswer :=
  if confirmed then .response (.only response)
  else if request.notify then
    match request.subscribe with
    | .ok () => .response ⟨response, some block, some block⟩
    | .error code => .refused code
  else .response ⟨response, none, some block⟩

section Handlers

variable (env : Env) (s : Store) (account : Account) (height : Nat)

-- The info of an account that has blocks.
def Store.openInfo : Option AccountInfo := (s.accountInfoGet account).filter AccountInfo.valid

-- `NodeRpcHandler::BlockConfirm`
def blockConfirm (request : NotifyRequest) (hash : BlockHash) : Served ConfirmAnswer :=
  match s.openInfo account with
  | none => .response (.only (.ofStatus .miss))
  | some info =>
    if height < info.tailHeight then .response (.only (.ofStatus .pruned))
    else if height > info.headHeight then
      match s.rollbacks.get hash with
      | none => .response (.only (.ofStatus .miss))
      | some block => .response (.only ⟨.rollback, none, some block, none⟩)
    else
      let confirmed := info.confirmed height
      let answer (status : BlockStatus) (block : Block) : Served ConfirmAnswer :=
        confirmAnswer request confirmed block
          ⟨status, some confirmed, some block, blockAmount env s block⟩
      match s.blockGet hash with
      | some block => answer .success block
      | none => (s.blockAt account height).serve (answer .fork)

-- `BlockQueryByPrevious`; the application server appends no amount.
def queryByPrevious (amount : Block → Option Amount) (previous : BlockHash) :
    Served BlockResponse :=
  match s.openInfo account with
  | none => .response (.ofStatus .miss)
  | some info =>
    let answer (status : BlockStatus) (at_ : Nat) (block : Block) : Served BlockResponse :=
      .response ⟨status, some (info.confirmed at_), some block, amount block⟩
    if height = 0 then (s.blockAt account height).serve (answer .success height)
    -- The heights of an open account are not the largest of 64 bits.
    else if height < info.tailHeight + 1 then .response (.ofStatus .pruned)
    else if height > info.headHeight + 1 then .response (.ofStatus .miss)
    else
      match s.blockSuccessorGet previous with
      | none => (s.blockAt account (height - 1)).serve (answer .fork (height - 1))
      | some successor =>
        if successor = 0 then .response (.ofStatus .miss)
        else
          match s.blockGet successor with
          | none => .refused .LEDGER_BLOCK_GET
          | some block =>
            if block.height ≠ height then .refused .RPC_INVALID_FIELD_PREVIOUS
            else answer .success height block

def NodeRpcHandler.blockQueryByPrevious (previous : BlockHash) : Served BlockResponse :=
  queryByPrevious s account height (blockAmount env s) previous

def AppRpcHandler.blockQueryByPrevious (previous : BlockHash) : Served BlockResponse :=
  queryByPrevious s account height (fun _ => none) previous

structure BlocksResponse where
  status : BlockStatus
  more : Option Bool
  blocks : List Block
  deriving DecidableEq

-- The loop of `BlocksQuery`: the blocks behind a successor, and whether the loop ended for them.
def blocksBehind : (rounds : Nat) → (successor : BlockHash) → Option (List Block × Bool)
  | 0, _ => some ([], true)
  | rounds + 1, successor =>
    if successor = 0 then some ([], false)
    else do
      let stored ← s.blocks.get successor
      let (blocks, more) ← blocksBehind rounds stored.successor
      return (stored.block :: blocks, more)

def blocksCount (count : Nat) : Nat := if count = 0 ∨ count > 100 then 100 else count

-- `NodeRpcHandler::BlocksQuery`
def blocksQuery (count : Nat) : Served BlocksResponse :=
  match s.openInfo account with
  | none => .response ⟨.miss, none, []⟩
  | some info =>
    if height < info.tailHeight then .response ⟨.pruned, none, []⟩
    else if height > info.headHeight then .response ⟨.miss, none, []⟩
    else
      (s.blockAndSuccessorAt account height).serve fun (block, successor) =>
        match blocksBehind s (blocksCount count - 1) successor with
        | none => .refused .LEDGER_BLOCK_GET
        | some (blocks, more) => .response ⟨.success, some more, block :: blocks⟩

end Handlers

end Raicoin
