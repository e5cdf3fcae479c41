import Mathlib.Logic.Relation
import Raicoin.Lib.Machine
import Raicoin.Token.ProcessSpec

-- The token application as a state machine.
namespace Raicoin

open Lib Relation

-- Blocks, batches of events of other chains and native tokens, each with what its transaction
-- finds: the application's chains and the writes that are refused.
inductive TokenAction where
  | append (app : Store) (fails : TokenCall → Bool) (block : Block) (content : TokenContent)
      (confirmed : Bool)
  | follow (app : Store) (fails : TokenCall → Bool) (blocks : List CrossChainBlockEvents)
  | native (app : Store) (fails : TokenCall → Bool) (chain : Chain)

namespace TokenLedger

-- A transaction is committed unless it ends with an error.
def committed (l : TokenLedger) (p : TokenM Unit) : TokenLedger :=
  match p (.init l) with
  | .ok _ s => s.ledger
  | .error _ _ => l

def take (env : Env) (l : TokenLedger) : TokenAction → TokenLedger
  | .append app fails block content confirmed =>
    l.committed (afterBlockAppend ⟨env, app, fails⟩ block content confirmed)
  | .follow app fails blocks => (processCrossChainBlocks ⟨env, app, fails⟩ l blocks).ledger
  | .native app fails chain =>
    (processChainNativeToken ⟨env, app, fails⟩ l chain (evmNativeToken chain)).ledger

end TokenLedger

-- No block has the number that stands for "no height".
def TokenAction.Fits : TokenAction → Prop
  | .append _ _ block _ _ => block.height ≠ INVALID_HEIGHT
  | _ => True

abbrev TokenHistory := History TokenLedger TokenAction

-- The ledger begins empty.
@[reducible] def tokenMachine (env : Env) : Machine TokenLedger TokenAction where
  start l := l = .empty
  fits _ action := action.Fits
  step l action := l.take env action

-- A run of any actions.
abbrev TokenRun (env : Env) (history : TokenHistory) (l : TokenLedger) : Prop :=
  (tokenMachine env).Run (fun _ _ => True) history l

-- The single changes that the transactions consist of, by what they do.
inductive ChangeKind where
  | noted
  | operated (token : ExtensionToken)
  | inquiryNacked
  | takeNacked
  | event
  | headed
  | native

inductive TokenChange (base : Env) : ChangeKind → TokenLedger → TokenLedger → Prop where
  | noted {env : TokenEnv} (henv : env.toEnv = base) {block : Block} {l : TokenLedger}
      {status : ErrorCode} {key : Option TokenKey} (hheight : block.height ≠ INVALID_HEIGHT)
      (hawaits : l.Awaits block) :
      TokenChange base .noted l (l.noted env block (some status) 0 .none key)
  | operated {env : TokenEnv} (henv : env.toEnv = base) {block : Block} {token : ExtensionToken}
      {l l' : TokenLedger} (hheight : block.height ≠ INVALID_HEIGHT) (hawaits : l.Awaits block)
      (checked : token.checkData = .ok ()) (hoperated : Operated env block l token l') :
      TokenChange base (.operated token) l l'
  | inquiryNacked {l : TokenLedger} {main : Account} {height : Nat} {swap : Account × Nat}
      {info : SwapInfo} (hswap : l.swaps.get swap = some info) (hstatus : info.status = .inquiry)
      (hwaiting : l.inquiryWaitings.get ⟨main, height, swap.1, swap.2⟩ = some ()) :
      TokenChange base .inquiryNacked l (l.inquiryNacked main height swap info)
  | takeNacked {env : TokenEnv} (henv : env.toEnv = base) {block : Block} {l : TokenLedger}
      {swap : Account × Nat} {plan : RefundPlan} (hplan : refundPlan swap l = .ok plan)
      (hwaiting : l.takeWaitings.get ⟨block.account, block.height, swap.1, swap.2⟩ = some ()) :
      TokenChange base .takeNacked l (l.takeNacked env block swap plan)
  | event {env : TokenEnv} (henv : env.toEnv = base) {l : TokenLedger} {event : CrossChainEvent}
      (haccepts : event.Accepts env l) : TokenChange base .event l (event.applied l)
  | headed {l : TokenLedger} {heads : Table Chain UInt64} :
      TokenChange base .headed l { l with chainHeads := heads }
  | native {l : TokenLedger} {chain : Chain} (hnew : l.tokens.get ⟨chain, NativeAddress⟩ = none) :
      TokenChange base .native l
        { l with tokens := l.tokens.put ⟨chain, NativeAddress⟩ (evmNativeToken chain) }

-- Any number of changes of the given kinds.
abbrev TokenChanges (base : Env) (kinds : ChangeKind → Prop) : TokenLedger → TokenLedger → Prop :=
  ReflTransGen fun l l' => ∃ kind, kinds kind ∧ TokenChange base kind l l'

section Changes

variable {base : Env} {kinds : ChangeKind → Prop} {env : TokenEnv} {block : Block}
  {l l₁ l₂ l' : TokenLedger}

theorem NackedInquiries.changes (hkind : kinds .inquiryNacked) {main : Account} {height : Nat}
    {swaps : List (Account × Nat)} (h : NackedInquiries main height swaps l l') :
    TokenChanges base kinds l l' := by
  induction swaps generalizing l with
  | nil =>
      obtain rfl := h
      exact .refl
  | cons swap swaps ih =>
      obtain ⟨info, hswap, hstatus, hwaiting, hrest⟩ := h
      exact .head ⟨_, hkind, .inquiryNacked hswap hstatus hwaiting⟩ (ih hrest)

theorem NackedTakes.changes (henv : env.toEnv = base) {swaps : List (Account × Nat)}
    (hkind : swaps ≠ [] → kinds .takeNacked) (h : NackedTakes env block swaps l l') :
    TokenChanges base kinds l l' := by
  induction swaps generalizing l with
  | nil =>
      obtain rfl := h
      exact .refl
  | cons swap swaps ih =>
      obtain ⟨plan, hplan, hwaiting, hrest⟩ := h
      have htake := hkind (List.cons_ne_nil _ _)
      exact .head ⟨_, htake, .takeNacked henv hplan hwaiting⟩ (ih (fun _ => htake) hrest)

-- What a late counterpart still settles.
theorem Settled.changes (henv : env.toEnv = base) (hinquiry : kinds .inquiryNacked)
    {token : ExtensionToken} (htake : ∀ inquiryHeight plan takeAckBlock,
      token = .swap (.take inquiryHeight) → swapTakePlan env block inquiryHeight l = .ok plan →
        plan.takeAckBlock = some takeAckBlock → kinds .takeNacked)
    (h : Settled env block l token l₁ l') : TokenChanges base kinds l₁ l' := by
  cases h with
  | direct => exact .refl
  | inquiry => exact .refl
  | lateInquiry _ _ hpurged => exact NackedInquiries.changes hinquiry hpurged
  | take => exact .refl
  | lateTake hplan hsome hpurged =>
      exact NackedTakes.changes henv (fun _ => htake _ _ _ rfl hplan hsome) hpurged

-- The only operation that a block brings is that of its content.
def TokenContent.Brings (content : TokenContent) : ChangeKind → Prop
  | .operated token => ∃ checked, content = .operation token checked
  | _ => True

theorem ContentApplied.changes (henv : env.toEnv = base) (hheight : block.height ≠ INVALID_HEIGHT)
    {content : TokenContent}
    (hkinds : ∀ kind, content.Brings kind → kind ≠ .takeNacked → kind ≠ .headed → kinds kind)
    (hlate : ∀ inquiryHeight checked plan takeAckBlock,
      content = .operation (.swap (.take inquiryHeight)) checked → l.Awaits block →
        swapTakePlan env block inquiryHeight l = .ok plan →
          plan.takeAckBlock = some takeAckBlock → kinds .takeNacked)
    (h : ContentApplied env block l content l') : TokenChanges base kinds l l' := by
  cases h with
  | none => exact .refl
  | reentry => exact .refl
  | status _ hawaits =>
      exact .single ⟨_, hkinds .noted trivial (by simp) (by simp), .noted henv hheight hawaits⟩
  | refused hawaits _ =>
      exact .single ⟨_, hkinds .noted trivial (by simp) (by simp), .noted henv hheight hawaits⟩
  | @operated token checked l₁ l' hawaits hreads hoperated hsettled =>
      have hkind : kinds (.operated token) := hkinds _ ⟨checked, rfl⟩ (by simp) (by simp)
      refine .head ⟨_, hkind, .operated henv hheight hawaits checked hoperated⟩ ?_
      refine hsettled.changes henv (hkinds .inquiryNacked trivial (by simp) (by simp)) ?_
      rintro inquiryHeight plan takeAckBlock rfl hplan hsome
      exact hlate inquiryHeight checked plan takeAckBlock rfl hawaits hplan hsome

theorem Appended.changes (henv : env.toEnv = base) (hheight : block.height ≠ INVALID_HEIGHT)
    {content : TokenContent} {confirmed : Bool}
    (hkinds : ∀ kind, content.Brings kind → kind ≠ .headed → kinds kind)
    (h : Appended env block content confirmed l l₁ l₂ l') : TokenChanges base kinds l l' :=
  ((h.processed.changes henv hheight (fun kind hbrings _ => hkinds kind hbrings)
    fun _ _ _ _ _ _ _ _ => hkinds .takeNacked trivial (by simp)).trans
      (NackedInquiries.changes (hkinds .inquiryNacked trivial (by simp)) h.inquiries)).trans
    (NackedTakes.changes henv (fun _ => hkinds .takeNacked trivial (by simp)) h.takes)

theorem AcceptsEvents.changes (henv : env.toEnv = base) (hkind : kinds .event)
    {events : List CrossChainEvent} (h : AcceptsEvents env l events) :
    TokenChanges base kinds l (applyEvents l events) := by
  induction events generalizing l with
  | nil => exact .refl
  | cons event events ih => exact .head ⟨_, hkind, .event henv h.1⟩ (ih h.2)

theorem AcceptsBlocks.changes (henv : env.toEnv = base) (hkind : kinds .event) {chain : Chain}
    {head : UInt64} {blocks : List CrossChainBlockEvents}
    (h : AcceptsBlocks env chain head l blocks) :
    TokenChanges base kinds l (applyBlocks l blocks) := by
  induction blocks generalizing l head with
  | nil => exact .refl
  | cons block blocks ih => exact (AcceptsEvents.changes henv hkind h.2.1).trans (ih h.2.2)

-- A transaction that is not committed leaves the tables as they were.
theorem committed_cases (l : TokenLedger) (p : TokenM Unit) :
    Turns p l () (l.committed p) ∨ l.committed p = l := by
  unfold TokenLedger.committed
  cases hrun : p (.init l) with
  | ok u s => exact .inl ⟨.init l, s, hrun, rfl, rfl⟩
  | error code s => exact .inr rfl

theorem append_cases (env : Env) (l : TokenLedger) (app : Store) (fails : TokenCall → Bool)
    (block : Block) (content : TokenContent) (confirmed : Bool) :
    (∃ l₁ l₂, Appended ⟨env, app, fails⟩ block content confirmed l l₁ l₂
      (l.take env (.append app fails block content confirmed))) ∨
      l.take env (.append app fails block content confirmed) = l := by
  rcases committed_cases l (afterBlockAppend ⟨env, app, fails⟩ block content confirmed) with
    hturns | hsame
  · exact .inl (afterBlockAppend_turns hturns)
  · exact .inr hsame

theorem follow_changes {app : Store} {fails : TokenCall → Bool}
    {blocks : List CrossChainBlockEvents} (hevent : kinds .event) (hheaded : kinds .headed) :
    TokenChanges base kinds l (l.take base (.follow app fails blocks)) := by
  rw [TokenLedger.take]
  cases hcode : (processCrossChainBlocks ⟨base, app, fails⟩ l blocks).code with
  | some code => rw [(batch_refused hcode).2.1]
  | none =>
      cases blocks with
      | nil => cases hcode
      | cons first rest =>
          obtain ⟨haccepts, hledger⟩ := batch_taken hcode
          rw [hledger]
          exact (AcceptsBlocks.changes rfl hevent haccepts.1).tail ⟨_, hheaded, .headed⟩

theorem native_changes {app : Store} {fails : TokenCall → Bool} {chain : Chain}
    (hkind : kinds .native) :
    TokenChanges base kinds l (l.take base (.native app fails chain)) := by
  rw [TokenLedger.take, processChainNativeToken]
  dsimp only
  split_ifs with hknown
  · exact .refl
  · exact .refl
  · exact .single ⟨_, hkind, .native (by simpa [Table.contains] using hknown)⟩

theorem take_changes {action : TokenAction} (hfits : action.Fits) :
    TokenChanges base (fun _ => True) l (l.take base action) := by
  cases action with
  | append app fails block content confirmed =>
      rcases append_cases base l app fails block content confirmed with
        ⟨l₁, l₂, happended⟩ | hsame
      · exact happended.changes rfl hfits fun _ _ _ => trivial
      · rw [hsame]
  | follow app fails blocks => exact follow_changes trivial trivial
  | native app fails chain => exact native_changes trivial

theorem TokenChanges.keep {P : TokenLedger → Prop}
    (hchange : ∀ kind l l', kinds kind → P l → TokenChange base kind l l' → P l')
    (h : TokenChanges base kinds l l') (hP : P l) : P l' := by
  induction h with
  | refl => exact hP
  | tail _ hstep ih =>
      obtain ⟨kind, hkind, hstep⟩ := hstep
      exact hchange kind _ _ hkind ih hstep

-- What holds at first and is kept by every change holds in every run.
theorem run_invariant {P : TokenLedger → Prop} (hempty : P .empty)
    (hchange : ∀ kind l l', P l → TokenChange base kind l l' → P l')
    {allowed : TokenHistory → TokenLedger → Prop} {history : TokenHistory} {l : TokenLedger}
    (hrun : (tokenMachine base).Run allowed history l) : P l := by
  apply hrun.invariant
  · rintro _ rfl
    exact hempty
  · intro history l action _ hfits _ hP
    exact TokenChanges.keep (fun kind l l' _ => hchange kind l l') (take_changes hfits) hP

end Changes

end Raicoin
