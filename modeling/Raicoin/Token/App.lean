import Raicoin.App.Chains
import Raicoin.Lib.Machine
import Raicoin.Token.WaitsSpec

-- The token application with its queues of blocks that wait, as a state machine. The queues lose
-- nothing to age here.
namespace Raicoin

open Lib

-- The handlers of `rai::Token`; `content` says what a block's extensions hold.
def tokenHooks (env : Env) (content : Block → TokenContent) :
    AppHooks (TokenCall → Bool) TokenLedger where
  accountTypes := [.txBlock]
  preBlockAppend block confirmed l := preBlockAppend block (content block) confirmed l
  afterBlockAppend fails app block confirmed l :=
    match afterBlockAppend ⟨env, app, fails⟩ block (content block) confirmed (.init l) with
    | .ok _ s => .ok s.ledger
    | .error code _ => .error code
  preBlockRollback block l := preBlockRollback block l

-- `existing` is not in the source: it says that `WaitBlockIfExist` made the entry.
structure BlockWaitingEntry where
  for_ : Account × Nat
  block : Block
  confirmed : Bool
  existing : Bool

namespace BlockWaiting

-- A block that waits already is not held once more, and goes on waiting for what it waited for.
def insert (env : Env) (entry : BlockWaitingEntry) (entries : List BlockWaitingEntry) :
    List BlockWaitingEntry :=
  if entries.any fun data => env.hash data.block = env.hash entry.block then
    entries.map fun data =>
      if env.hash data.block = env.hash entry.block then { data with confirmed := entry.confirmed }
      else data
  else entries ++ [entry]

def exists_ (entries : List BlockWaitingEntry) (account : Account) (height : Nat) : Bool :=
  entries.any fun entry => entry.for_ = (account, height)

-- What `Remove` takes out: the account's heights from zero.
def covers (account : Account) (height : Nat) (entry : BlockWaitingEntry) : Bool :=
  entry.for_.1 = account ∧ entry.for_.2 ≤ height

end BlockWaiting

structure ChainWaitingEntry where
  chain : Chain
  height : Nat
  block : Block

namespace ChainWaiting

def insert (env : Env) (entry : ChainWaitingEntry) (entries : List ChainWaitingEntry) :
    List ChainWaitingEntry :=
  if entries.any fun data => env.hash data.block = env.hash entry.block then entries
  else entries ++ [entry]

def covers (chain : Chain) (height : Nat) (entry : ChainWaitingEntry) : Bool :=
  entry.chain = chain ∧ entry.height ≤ height

end ChainWaiting

-- `waits` is not in the source: the blocks whose last `ProcessBlock` returned WAITING and that have
-- not been queued since, with the call that the handler ended with.
structure TokenApp where
  app : App TokenLedger
  blockWaiting : List BlockWaitingEntry
  chainWaiting : List ChainWaitingEntry
  waits : Table BlockHash (Option Obstacle)

namespace TokenApp

def empty : TokenApp := ⟨⟨.empty, .empty⟩, [], [], .empty⟩

variable (env : Env) (content : Block → TokenContent)

-- `QueueBlock` of blocks that were held.
def queued (hashes : List BlockHash) (s : TokenApp) : TokenApp :=
  { s with waits := s.waits.filter fun hash _ => !(hashes.contains hash) }

def queueWaitings (account : Account) (height : Nat) (s : TokenApp) : TokenApp :=
  let woken := s.blockWaiting.filter (BlockWaiting.covers account height)
  queued (woken.map fun entry => env.hash entry.block) { s with
    blockWaiting := s.blockWaiting.filter fun entry => !(BlockWaiting.covers account height entry) }

def queueCrossChainWaitingBlocks_ (chain : Chain) (height : Nat) (s : TokenApp) : TokenApp :=
  let woken := s.chainWaiting.filter (ChainWaiting.covers chain height)
  queued (woken.map fun entry => env.hash entry.block) { s with
    chainWaiting := s.chainWaiting.filter fun entry => !(ChainWaiting.covers chain height entry) }

-- The call of `Insert` in `WaitBlock`, `WaitBlockIfExist` or `WaitChain_`.
def record (block : Block) : Option Obstacle → TokenApp → TokenApp
  | none, s => s
  | some (.block account height), s =>
    let entry : BlockWaitingEntry := ⟨(account, height), block, true, false⟩
    { s with blockWaiting := BlockWaiting.insert env entry s.blockWaiting }
  | some (.existing account height), s =>
    let entry : BlockWaitingEntry := ⟨(account, height), block, true, true⟩
    { s with blockWaiting := BlockWaiting.insert env entry s.blockWaiting }
  | some (.chain chain height), s =>
    { s with chainWaiting := ChainWaiting.insert env ⟨chain, height, block⟩ s.chainWaiting }

-- What the block waits for when `AfterBlockAppend` gets it, if it does.
def waiting (fails : StoreCall → Bool) (refused : TokenCall → Bool) (s : App TokenLedger)
    (block : Block) (confirmed : Bool) : Option Obstacle :=
  (App.watched env (tokenHooks env content) fails refused
    (fun refused app block confirmed l =>
      waitedFor ⟨env, app, refused⟩ block (content block) confirmed l) block confirmed s).join

-- `App::ProcessBlock`. What a handler has recorded stays when its transaction is aborted.
def processBlock (fails : StoreCall → Bool) (refused : TokenCall → Bool) (block : Block)
    (confirmed : Bool) (s : TokenApp) : TokenApp :=
  if block.type ∉ (tokenHooks env content).accountTypes ∨
      confirmed = false ∧ BlockWaiting.exists_ s.blockWaiting block.account block.height then s
  else
    let hash := env.hash block
    let obstacle := waiting env content fails refused s.app block confirmed
    let next := record env block obstacle s
    match s.app.appendBlock_ env (tokenHooks env content) fails refused block confirmed with
    | .ok app =>
      let next := { next with app, waits := next.waits.del hash }
      if confirmed then next.queueWaitings env block.account block.height else next
    | .error code =>
      if code = .APP_PROCESS_CONFIRMED then
        queueWaitings env block.account block.height { next with waits := next.waits.del hash }
      else if code = .APP_PROCESS_WAITING then { next with waits := next.waits.put hash obstacle }
      else { next with waits := next.waits.del hash }

def processBlockRollback (fails : StoreCall → Bool) (block : Block) (s : TokenApp) : TokenApp :=
  { s with app := s.app.processBlockRollback env (tokenHooks env content) fails block }

-- `Token::ProcessCrossChainBlocks`; its waits record nothing.
def processCrossChainBlocks (refused : TokenCall → Bool) (blocks : List CrossChainBlockEvents)
    (s : TokenApp) : TokenApp :=
  let result := Raicoin.processCrossChainBlocks ⟨env, s.app.store, refused⟩ s.app.ledger blocks
  let next := { s with app := { s.app with ledger := result.ledger } }
  match result.code, blocks with
  | none, first :: _ =>
    next.queueCrossChainWaitingBlocks_ env first.chain (result.ledger.chainHead first.chain).toNat
  | _, _ => next

end TokenApp

-- The actions of the thread, each with the writes that LMDB refuses. The queues do not outlive the
-- process.
inductive TokenAppAction where
  | process (fails : StoreCall → Bool) (refused : TokenCall → Bool) (block : Block)
      (confirmed : Bool)
  | rollback (fails : StoreCall → Bool) (block : Block)
  | follow (refused : TokenCall → Bool) (blocks : List CrossChainBlockEvents)
  | restart

namespace TokenApp

def take (env : Env) (content : Block → TokenContent) (s : TokenApp) : TokenAppAction → TokenApp
  | .process fails refused block confirmed =>
    s.processBlock env content fails refused block confirmed
  | .rollback fails block => s.processBlockRollback env content fails block
  | .follow refused blocks => s.processCrossChainBlocks env refused blocks
  | .restart => ⟨s.app, [], [], .empty⟩

end TokenApp

-- The blocks that reach the application are from `blocks`.
def TokenAppAction.Fits (blocks : Set Block) : TokenAppAction → Prop
  | .process _ _ block _ => block ∈ blocks
  | .rollback _ block => block ∈ blocks
  | _ => True

@[reducible] def tokenAppMachine (env : Env) (content : Block → TokenContent) (blocks : Set Block) :
    Machine TokenApp TokenAppAction where
  start s := s = .empty
  fits _ action := action.Fits blocks
  step s action := s.take env content action

end Raicoin
