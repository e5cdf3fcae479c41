import Raicoin.App.Chains
import Raicoin.Lib.Machine

-- An application that notes for which blocks its extension handler has run.
namespace Raicoin

open Lib

-- `AfterBlockAppend` hands the blocks that carry the application's extension to the handler, whose
-- guard says whether the block has been handled before.
structure ExtensionApp (φ σ : Type) where
  hooks : AppHooks φ σ
  carries : Block → Bool
  reentry : Block → σ → Bool

-- A call of the handler: the block, and whether it took effect.
structure HandlerCall where
  block : Block
  effective : Bool
  deriving DecidableEq

namespace ExtensionApp

variable {φ σ : Type} (app : ExtensionApp φ σ)

-- The handlers with the calls that have been made. They are part of the transaction: what is
-- aborted was never noted.
def noting : AppHooks φ (σ × List HandlerCall) where
  accountTypes := app.hooks.accountTypes
  preBlockAppend b confirmed s := app.hooks.preBlockAppend b confirmed s.1
  afterBlockAppend refused store b confirmed s := do
    let ledger ← app.hooks.afterBlockAppend refused store b confirmed s.1
    return (ledger, if app.carries b then ⟨b, !app.reentry b s.1⟩ :: s.2 else s.2)
  preBlockRollback b s := app.hooks.preBlockRollback b s.1

end ExtensionApp

-- The two actions, each with the writes that LMDB refuses and with what the queue of waited-for
-- positions says.
inductive AppAction (φ : Type) where
  | process (fails : StoreCall → Bool) (refused : φ) (block : Block) (confirmed waiting : Bool)
  | rollback (fails : StoreCall → Bool) (block : Block)

def AppAction.block {φ : Type} : AppAction φ → Block
  | .process _ _ block _ _ => block
  | .rollback _ block => block

section Runs

variable {φ σ : Type} (env : Env) (app : ExtensionApp φ σ) (first : σ) (blocks : Set Block)

-- The blocks that reach the application are from `blocks`.
@[reducible] def appMachine : Machine (App (σ × List HandlerCall)) (AppAction φ) where
  start s := s = ⟨.empty, (first, [])⟩
  fits _ action := action.block ∈ blocks
  step s
    | .process fails refused block confirmed waiting =>
      s.processBlock env app.noting fails refused block confirmed waiting
    | .rollback fails block => s.processBlockRollback env app.noting fails block

abbrev AppRun (history : History (App (σ × List HandlerCall)) (AppAction φ))
    (s : App (σ × List HandlerCall)) : Prop :=
  (appMachine env app first blocks).Run (fun _ _ => True) history s

end Runs

-- The records that the ledger of an application keeps of each account by itself: what they are
-- before a block is handled, what each handled block makes of them, and the height they have got to.
structure Records (σ ρ : Type) where
  none : ρ
  own : σ → Account → ρ
  handle : Block → ρ → ρ
  head : ρ → Option Nat

-- The records after some blocks, of which the latest stands first.
def Records.after {σ ρ : Type} (records : Records σ ρ) (handled : List Block) : ρ :=
  handled.foldr records.handle records.none

-- What makes the guards fit together.
structure ExtensionApp.Guarded {φ σ ρ : Type} (app : ExtensionApp φ σ) (first : σ)
    (records : Records σ ρ) : Prop where
  first : ∀ account, records.own first account = records.none
  head_none : records.head records.none = Option.none
  head_handle : ∀ b held, records.head (records.handle b held) = some b.height
  open_ : ∀ b l, app.hooks.preBlockAppend b false l = .ok () → app.carries b = false
  reentry : ∀ b l, app.reentry b l = true ↔
    ∃ height, records.head (records.own l b.account) = some height ∧ b.height ≤ height
  handled : ∀ refused store b confirmed l l', b.height ≠ INVALID_HEIGHT →
    app.hooks.afterBlockAppend refused store b confirmed l = .ok l' → app.carries b = true →
      app.reentry b l = false → records.own l' =
        Function.update (records.own l) b.account (records.handle b (records.own l b.account))
  skipped : ∀ refused store b confirmed l l', b.height ≠ INVALID_HEIGHT →
    app.hooks.afterBlockAppend refused store b confirmed l = .ok l' → app.carries b = false →
      records.own l' = records.own l

theorem ExtensionApp.Guarded.head_after {φ σ ρ : Type} {app : ExtensionApp φ σ} {first : σ}
    {records : Records σ ρ} (h : app.Guarded first records) (handled : List Block) :
    records.head (records.after handled) = handled.head?.map Block.height := by
  cases handled with
  | nil => exact h.head_none
  | cons b handled => exact h.head_handle b _

-- What was confirmed stays confirmed, and is still there.
def Kept (env : Env) (old new : Store) : Prop :=
  ∀ account height, ConfirmedAt old account height → ConfirmedAt new account height ∧
    ∀ b, b.account = account → b.height = height → old.blockGet (env.hash b) = some b →
      new.blockGet (env.hash b) = some b

theorem Kept.refl {env : Env} (store : Store) : Kept env store store :=
  fun _ _ h => ⟨h, fun _ _ _ hget => hget⟩

theorem Kept.trans {env : Env} {old mid new : Store} (h : Kept env old mid) (h' : Kept env mid new) :
    Kept env old new := by
  intro account height hconfirmed
  obtain ⟨hmid, hblocks⟩ := h account height hconfirmed
  obtain ⟨hnew, hblocks'⟩ := h' account height hmid
  refine ⟨hnew, fun b haccount hheight hget => ?_⟩
  exact hblocks' b haccount hheight (hblocks b haccount hheight hget)

-- The calls that were made for an account's blocks, the latest first.
def callsOf (account : Account) (calls : List HandlerCall) : List HandlerCall :=
  calls.filter fun call => call.block.account = account

section Invariant

variable {φ σ ρ : Type} {env : Env} {app : ExtensionApp φ σ} {first : σ} {blocks : Set Block}
  {records : Records σ ρ} {chains : Account → List Block} {store : Store}
  {s s' : App (σ × List HandlerCall)} {b : Block} {confirmed : Bool} {info : AccountInfo}

-- The calls are the blocks of the chains that carry the extension, and these are confirmed. The
-- records of an account are what they have made of them, each once and one after the other.
structure Effective (env : Env) (app : ExtensionApp φ σ) (records : Records σ ρ)
    (blocks : Set Block) (chains : Account → List Block) (s : App (σ × List HandlerCall)) : Prop where
  shows : ShowsChains env blocks s.store chains
  calls : ∀ account,
    callsOf account s.ledger.2 = ((chains account).filter app.carries).map (⟨·, true⟩)
  settled : ∀ account, ∀ b ∈ chains account, app.carries b = true →
    ConfirmedAt s.store account b.height
  recorded : ∀ account,
    records.own s.ledger.1 account = records.after ((chains account).filter app.carries)

theorem ShowsChains.blockGet_iff (h : ShowsChains env blocks store chains) :
    store.blockGet (env.hash b) = some b ↔ b ∈ chains b.account := by
  refine ⟨h.mem_of_blockGet, fun hmem => ?_⟩
  obtain ⟨above, hentry⟩ := @Shape.entry_of_mem _ _ _ (blockShape env) _ _ (0 : BlockHash) hmem
  have hrow := rows_eq_some.mp (h.stores.get_of_entry hentry)
  unfold Store.blockGet
  rw [show store.blocks.get (env.hash b) = some ⟨b, above⟩ from hrow]
  rfl

theorem Effective.heads (hguarded : app.Guarded first records)
    (h : Effective env app records blocks chains s) (account : Account) :
    records.head (records.own s.ledger.1 account) =
      ((chains account).filter app.carries).head?.map Block.height := by
  rw [h.recorded, hguarded.head_after]

theorem Effective.start (hguarded : app.Guarded first records) :
    Effective env app records blocks (fun _ => []) ⟨.empty, (first, [])⟩ where
  shows := .empty
  calls _ := rfl
  settled _ b hb := by cases hb
  recorded := hguarded.first

-- A call that was noted was for a block that is in its chain and carries the extension.
theorem Effective.of_call (h : Effective env app records blocks chains s) {call : HandlerCall}
    (hcall : call ∈ s.ledger.2) :
    call.block ∈ chains call.block.account ∧ app.carries call.block = true ∧ call.effective = true := by
  have hmem : call ∈ callsOf call.block.account s.ledger.2 :=
    List.mem_filter.mpr ⟨hcall, decide_eq_true rfl⟩
  rw [h.calls] at hmem
  obtain ⟨b, hb, heq⟩ := List.mem_map.mp hmem
  obtain ⟨hchain, hcarries⟩ := List.mem_filter.mp hb
  rw [← heq] at hchain ⊢
  exact ⟨hchain, hcarries, rfl⟩

-- A block that enters hides nothing of the chains.
theorem ShowsChains.kept_entered (happart : Apart env blocks) (h : ShowsChains env blocks store chains)
    {new : Store} (hb : b ∈ blocks) (hentered : Entered env b confirmed store new) :
    Kept env store new := by
  intro account height hconfirmed
  refine ⟨h.confirmedAt_entered happart hb hentered hconfirmed, fun c haccount _ hget => ?_⟩
  have hnew := h.entered happart hb hentered
  rw [h.blockGet_iff] at hget
  rw [hnew.blockGet_iff]
  by_cases hsame : c.account = b.account
  · rw [hsame, Function.update_self]
    exact List.mem_cons_of_mem _ (hsame ▸ hget)
  · rwa [Function.update_of_ne hsame]

-- The noted calls and the records after a block that enters.
theorem noting_ok {refused : φ} (hguarded : app.Guarded first records)
    (hheight : b.height ≠ INVALID_HEIGHT)
    (hnew : ∀ height, records.head (records.own s.ledger.1 b.account) = some height →
      height < b.height)
    (hafter : app.noting.afterBlockAppend refused store b confirmed s.ledger = .ok s'.ledger) :
    s'.ledger.2 = (if app.carries b then ⟨b, true⟩ :: s.ledger.2 else s.ledger.2) ∧
      records.own s'.ledger.1 = (if app.carries b then
        Function.update (records.own s.ledger.1) b.account
          (records.handle b (records.own s.ledger.1 b.account)) else records.own s.ledger.1) := by
  obtain ⟨ledger, hledger, hnoted⟩ := (Except.bind_eq_ok _ _ _).mp hafter
  have hreentry : app.reentry b s.ledger.1 = false := by
    rw [Bool.eq_false_iff, ne_eq, hguarded.reentry]
    rintro ⟨height, hget, hle⟩
    have hlt := hnew height hget
    omega
  rw [hreentry] at hnoted
  have heq := Except.ok.inj hnoted
  rw [← heq]
  refine ⟨rfl, ?_⟩
  cases hcarries : app.carries b with
  | true => exact hguarded.handled refused store b confirmed _ _ hheight hledger hcarries hreentry
  | false => exact hguarded.skipped refused store b confirmed _ _ hheight hledger hcarries

theorem Effective.entered {refused : φ} (hguarded : app.Guarded first records)
    (happart : Apart env blocks) (h : Effective env app records blocks chains s) (hb : b ∈ blocks)
    (hentered : Entered env b confirmed s.store s'.store)
    (hpre : app.hooks.preBlockAppend b confirmed s.ledger.1 = .ok ())
    (hafter : app.noting.afterBlockAppend refused s'.store b confirmed s.ledger = .ok s'.ledger) :
    Effective env app records blocks (Function.update chains b.account (b :: chains b.account)) s' := by
  obtain ⟨info, linked, hplaced, -⟩ := id hentered
  have hplace := (hplaced.fits happart h.shows hb).1
  have hchain := h.shows.stores.chain b.account
  -- What the account's chain holds is below the new head.
  have hnew (height : Nat) (hget : records.head (records.own s.ledger.1 b.account) = some height) :
      height < b.height := by
    rw [h.heads hguarded] at hget
    obtain ⟨c, hc, rfl⟩ := Option.map_eq_some_iff.mp hget
    have hmem := List.mem_of_mem_filter (List.mem_of_head? hc)
    have hlt : c.height < (chains b.account).length := hchain.height_lt hmem
    omega
  obtain ⟨hcalls, hrecords⟩ := noting_ok hguarded (happart.height_ne b hb) hnew hafter
  have hshows := h.shows.entered happart hb hentered
  refine ⟨hshows, fun account => ?_, fun account c hc hcarries => ?_, fun account => ?_⟩
  · rw [hcalls]
    by_cases haccount : account = b.account
    · subst haccount
      rw [Function.update_self, List.filter_cons]
      cases hcarries : app.carries b with
      | true =>
          have hown : callsOf b.account (⟨b, true⟩ :: s.ledger.2) =
              ⟨b, true⟩ :: callsOf b.account s.ledger.2 :=
            List.filter_cons_of_pos (decide_eq_true rfl)
          rw [if_pos rfl, if_pos rfl, List.map_cons, ← h.calls]
          exact hown
      | false => exact h.calls b.account
    · rw [Function.update_of_ne haccount, ← h.calls]
      split
      · exact List.filter_cons_of_neg fun heq => haccount (of_decide_eq_true heq).symm
      · rfl
  · by_cases haccount : account = b.account
    · subst haccount
      rw [Function.update_self] at hc
      rcases List.mem_cons.mp hc with rfl | hc
      · -- An unconfirmed block would have been stopped before.
        have hconfirmed : confirmed = true := by
          cases confirmed with
          | true => rfl
          | false =>
              have hfree := hguarded.open_ c s.ledger.1 hpre
              rw [hcarries] at hfree
              cases hfree
        obtain ⟨own, hown, -, hset, -⟩ := hentered.info_own
        refine ⟨own, hown, (confirmed_iff (hshows.valid happart hown)).mpr ?_⟩
        rw [hset hconfirmed]
        exact ⟨happart.height_ne c hb, Nat.le_refl _⟩
      · exact h.shows.confirmedAt_entered happart hb hentered (h.settled _ c hc hcarries)
    · rw [Function.update_of_ne haccount] at hc
      exact h.shows.confirmedAt_entered happart hb hentered (h.settled _ c hc hcarries)
  · rw [hrecords]
    by_cases haccount : account = b.account
    · subst haccount
      rw [Function.update_self, List.filter_cons]
      cases hcarries : app.carries b with
      | true =>
          rw [if_pos rfl, if_pos rfl, Function.update_self, h.recorded]
          rfl
      | false => exact h.recorded b.account
    · rw [Function.update_of_ne haccount, ← h.recorded]
      split
      · rw [Function.update_of_ne haccount]
      · rfl

theorem ShowsChains.kept_settled (happart : Apart env blocks) (h : ShowsChains env blocks store chains)
    {new : Store} (hb : b ∈ blocks) (hconfirmed : Confirmed env b store new info)
    (hfresh : info.confirmed b.height = false) : Kept env store new := by
  intro account height ⟨old, hget, hset⟩
  have hnew := h.settled hconfirmed
  obtain ⟨hfound, hvalid, -, -, rfl⟩ := hconfirmed
  refine ⟨?_, fun c _ _ hc => hc⟩
  by_cases haccount : account = b.account
  · subst haccount
    cases hfound.symm.trans hget
    have hown : (store.accounts.put b.account { info with confirmedHeight := b.height }).get
        b.account = some { info with confirmedHeight := b.height } :=
      (Table.get_put _ _ _ _).trans (if_pos rfl)
    refine ⟨_, hown, (confirmed_iff (hnew.valid happart hown)).mpr ⟨happart.height_ne b hb, ?_⟩⟩
    -- The height was above what had been confirmed.
    obtain ⟨hsome, hge⟩ := (confirmed_iff hvalid).mp hset
    have hlow : ¬info.confirmedHeight ≥ b.height := fun hge' => by
      have htrue := (confirmed_iff hvalid).mpr ⟨hsome, hge'⟩
      rw [hfresh] at htrue
      cases htrue
    change b.height ≥ height
    omega
  · exact ⟨old, ((Table.get_put _ _ _ _).trans (if_neg haccount)).trans hget, hset⟩

theorem Effective.settle (happart : Apart env blocks) (h : Effective env app records blocks chains s)
    (hb : b ∈ blocks) (hconfirmed : Confirmed env b s.store s'.store info)
    (hfresh : info.confirmed b.height = false) (hledger : s'.ledger = s.ledger) :
    Effective env app records blocks chains s' where
  shows := h.shows.settled hconfirmed
  calls account := by rw [hledger, h.calls]
  settled account c hc hcarries :=
    (h.shows.kept_settled happart hb hconfirmed hfresh _ _ (h.settled account c hc hcarries)).1
  recorded account := by rw [hledger, h.recorded]

section Rollback

variable {rest : List Block}

theorem RolledBack.kept (h : ShowsChains env blocks s.store chains)
    (hrolled : RolledBack env blocks chains b s s' rest) : Kept env s.store s'.store := by
  intro account height hconfirmed
  refine ⟨(hrolled.confirmed _ _).mpr hconfirmed, fun c haccount hheight hget => ?_⟩
  rw [h.blockGet_iff] at hget
  rw [hrolled.shows.blockGet_iff]
  by_cases hsame : c.account = b.account
  · rw [hsame, Function.update_self]
    rw [hsame, hrolled.chain] at hget
    rcases List.mem_cons.mp hget with rfl | hget
    · subst haccount hheight
      exact absurd hconfirmed hrolled.unconfirmed
    · exact hget
  · rwa [Function.update_of_ne hsame]

-- A block that is rolled back is not confirmed, so it does not carry the extension.
theorem Effective.not_carries (h : Effective env app records blocks chains s)
    (hrolled : RolledBack env blocks chains b s s' rest) : app.carries b = false := by
  rw [Bool.eq_false_iff]
  intro hcarries
  have hmem : b ∈ chains b.account := by
    rw [hrolled.chain]
    exact List.mem_cons_self
  exact hrolled.unconfirmed (h.settled _ b hmem hcarries)

theorem Effective.rolledBack (h : Effective env app records blocks chains s)
    (hrolled : RolledBack env blocks chains b s s' rest) :
    Effective env app records blocks (Function.update chains b.account rest) s' := by
  have hcarries := h.not_carries hrolled
  have hfilter (account : Account) :
      (Function.update chains b.account rest account).filter app.carries =
        (chains account).filter app.carries := by
    by_cases haccount : account = b.account
    · rw [haccount, Function.update_self, hrolled.chain, List.filter_cons, hcarries]
      rfl
    · rw [Function.update_of_ne haccount]
  refine ⟨hrolled.shows, fun account => ?_, fun account c hc hcarries => ?_, fun account => ?_⟩
  · rw [hrolled.ledger, hfilter, h.calls]
  · refine (hrolled.confirmed _ _).mpr (h.settled account c ?_ hcarries)
    by_cases haccount : account = b.account
    · rw [haccount, Function.update_self] at hc
      rw [haccount, hrolled.chain]
      exact List.mem_cons_of_mem _ hc
    · rwa [Function.update_of_ne haccount] at hc
  · rw [hrolled.ledger, hfilter, h.recorded]

end Rollback

-- One step: the chains go on, and a block that goes away was never handed to the handler.
theorem Effective.step (hguarded : app.Guarded first records) (happart : Apart env blocks)
    (h : Effective env app records blocks chains s) {action : AppAction φ} (hb : action.block ∈ blocks) :
    ∃ chains', Effective env app records blocks chains'
        ((appMachine env app first blocks).step s action) ∧
      Kept env s.store ((appMachine env app first blocks).step s action).store ∧
      ∀ b, s.store.blockGet (env.hash b) = some b →
        ((appMachine env app first blocks).step s action).store.blockGet (env.hash b) ≠ some b →
          ∀ call ∈ s.ledger.2, call.block ≠ b := by
  have unchanged : ∃ chains', Effective env app records blocks chains' s ∧ Kept env s.store s.store ∧
      ∀ b, s.store.blockGet (env.hash b) = some b → s.store.blockGet (env.hash b) ≠ some b →
        ∀ call ∈ s.ledger.2, call.block ≠ b :=
    ⟨chains, h, .refl _, fun _ hget hgone => absurd hget hgone⟩
  cases action with
  | process fails refused b confirmed waiting =>
      change b ∈ blocks at hb
      dsimp only [Machine.step]
      unfold App.processBlock
      split
      · exact unchanged
      cases happend : App.appendBlock_ env app.noting fails refused b confirmed s with
      | error code => exact unchanged
      | ok s' =>
          dsimp only [App.committed]
          rcases App.appendBlock_ok happend with
            ⟨hentered, hpre, hafter⟩ | ⟨-, ⟨info, hconfirmed, hfresh⟩, hledger⟩
          · have hkept := h.shows.kept_entered happart hb hentered
            refine ⟨_, h.entered hguarded happart hb hentered hpre hafter, hkept, fun c hget hgone => ?_⟩
            rw [ne_eq, (h.shows.entered happart hb hentered).blockGet_iff] at hgone
            rw [h.shows.blockGet_iff] at hget
            refine absurd ?_ hgone
            by_cases hsame : c.account = b.account
            · rw [hsame, Function.update_self]
              exact List.mem_cons_of_mem _ (hsame ▸ hget)
            · rwa [Function.update_of_ne hsame]
          · have hkept := h.shows.kept_settled happart hb hconfirmed hfresh
            refine ⟨chains, h.settle happart hb hconfirmed hfresh hledger, hkept, fun c hget hgone => ?_⟩
            rw [ne_eq, (h.shows.settled hconfirmed).blockGet_iff, ← h.shows.blockGet_iff] at hgone
            exact absurd hget hgone
  | rollback fails b =>
      change b ∈ blocks at hb
      dsimp only [Machine.step]
      unfold App.processBlockRollback
      split
      · exact unchanged
      cases hrollback : App.rollbackBlock_ env app.noting fails b s with
      | error code => exact unchanged
      | ok s' =>
          dsimp only [App.committed]
          obtain ⟨rest, hrolled⟩ := rollbackBlock_rolledBack happart h.shows hb hrollback
          refine ⟨_, h.rolledBack hrolled, hrolled.kept h.shows, fun c hget hgone call hcall heq => ?_⟩
          obtain ⟨-, hcarries, -⟩ := h.of_call hcall
          rw [h.shows.blockGet_iff] at hget
          rw [ne_eq, hrolled.shows.blockGet_iff] at hgone
          by_cases hsame : c.account = b.account
          · rw [hsame, Function.update_self] at hgone
            rw [hsame, hrolled.chain] at hget
            rcases List.mem_cons.mp hget with rfl | hget
            · rw [heq, h.not_carries hrolled] at hcarries
              cases hcarries
            · exact hgone hget
          · rw [Function.update_of_ne hsame] at hgone
            exact hgone hget

end Invariant

-- What the chains and the handler agree on at each point of a run.
theorem AppRun.effective {φ σ ρ : Type} {env : Env} {app : ExtensionApp φ σ} {first : σ}
    {blocks : Set Block} {records : Records σ ρ}
    {history : History (App (σ × List HandlerCall)) (AppAction φ)}
    {s : App (σ × List HandlerCall)} (hguarded : app.Guarded first records)
    (happart : Apart env blocks) (hrun : AppRun env app first blocks history s) :
    ∃ chains, Effective env app records blocks chains s := by
  refine hrun.invariant (P := fun _ s => ∃ chains, Effective env app records blocks chains s) ?_ ?_
  · rintro s rfl
    exact ⟨_, .start hguarded⟩
  · rintro history s action - hfits - ⟨chains, h⟩
    obtain ⟨chains', hnext, -, -⟩ := h.step hguarded happart hfits
    exact ⟨chains', hnext⟩

-- What holds of a run: of the state that it has reached, and of what it has gone through.
structure Exactly {φ σ ρ : Type} (env : Env) (app : ExtensionApp φ σ) (first : σ)
    (records : Records σ ρ) (blocks : Set Block)
    (history : History (App (σ × List HandlerCall)) (AppAction φ))
    (s : App (σ × List HandlerCall)) : Prop where
  effects : ∃ chains, ShowsChains env blocks s.store chains ∧ ∀ account,
    callsOf account s.ledger.2 = ((chains account).filter app.carries).map (⟨·, true⟩) ∧
      records.own s.ledger.1 account = records.after ((chains account).filter app.carries)
  kept : ∀ past ∈ history, Kept env past.1.store s.store
  rolledBack : ∀ past ∈ history, ∀ b, past.1.store.blockGet (env.hash b) = some b →
    ((appMachine env app first blocks).step past.1 past.2).store.blockGet (env.hash b) ≠ some b →
      ∀ call ∈ past.1.ledger.2, call.block ≠ b

theorem AppRun.exactly {φ σ ρ : Type} {env : Env} {app : ExtensionApp φ σ} {first : σ}
    {blocks : Set Block} {records : Records σ ρ}
    {history : History (App (σ × List HandlerCall)) (AppAction φ)}
    {s : App (σ × List HandlerCall)} (hguarded : app.Guarded first records)
    (happart : Apart env blocks) (hrun : AppRun env app first blocks history s) :
    Exactly env app first records blocks history s := by
  have hinvariant : (∃ chains, Effective env app records blocks chains s) ∧
      Exactly env app first records blocks history s := by
    refine hrun.invariant (P := fun history s =>
      (∃ chains, Effective env app records blocks chains s) ∧
        Exactly env app first records blocks history s) ?_ ?_
    · rintro s rfl
      have hstart := @Effective.start _ _ _ env app first blocks records hguarded
      refine ⟨⟨_, hstart⟩, ⟨_, hstart.shows, fun account => ⟨hstart.calls account, hstart.recorded account⟩⟩, ?_, ?_⟩
      · exact fun past hpast => (by cases hpast)
      · exact fun past hpast => (by cases hpast)
    · rintro history s action - hfits - ⟨⟨chains, h⟩, hexactly⟩
      obtain ⟨chains', hnext, hkept, hgone⟩ := h.step hguarded happart hfits
      refine ⟨⟨chains', hnext⟩, ⟨chains', hnext.shows, fun account =>
        ⟨hnext.calls account, hnext.recorded account⟩⟩, fun past hpast => ?_,
        fun past hpast => ?_⟩
      · rcases List.mem_cons.mp hpast with rfl | hpast
        · exact hkept
        · exact (hexactly.kept past hpast).trans hkept
      · rcases List.mem_cons.mp hpast with rfl | hpast
        · exact hgone
        · exact hexactly.rolledBack past hpast
  exact hinvariant.2

end Raicoin
