import Raicoin.App.Ledger
import Raicoin.Wallet.MirrorSpec

-- The chains that an application's store shows, and what a block or a rollback makes of them.
namespace Raicoin

open Lib

-- What is assumed of the blocks that reach an application: their hashes tell them apart.
structure Apart (env : Env) (blocks : Set Block) : Prop where
  injective : Set.InjOn env.hash blocks
  ne_zero : ∀ b ∈ blocks, env.hash b ≠ 0
  height_ne : ∀ b ∈ blocks, b.height ≠ INVALID_HEIGHT

theorem Apart.shape {env : Env} {blocks : Set Block} (h : Apart env blocks) :
    (blockShape env).Apart blocks := by
  intro b hb c hc hhash
  rw [h.injective hb hc hhash]
  exact ⟨rfl, rfl⟩

structure ShowsChains (env : Env) (blocks : Set Block) (store : Store)
    (chains : Account → List Block) : Prop where
  stores : (blockShape env).Stores blocks 0 chains (rows store.blocks)
  infos : ∀ account, ShowsInfo env (chains account) (store.accountInfoGet account)
  heights : ShowsHeights env chains store.blocksIndex

-- Where `AppendBlock_` puts a new head, the info that the account gets and whether there is a
-- block before it.
inductive HeadPlaced (env : Env) (store : Store) (b : Block) (confirmed : Bool) :
    AccountInfo → Bool → Prop where
  | first (hnone : (store.accountInfoGet b.account).filter AccountInfo.valid = none)
      (hheight : b.height = 0) :
      HeadPlaced env store b confirmed
        (if confirmed then { AccountInfo.first b.type (env.hash b) with confirmedHeight := 0 }
          else AccountInfo.first b.type (env.hash b)) false
  | next {info : AccountInfo} (hinfo : store.accountInfoGet b.account = some info)
      (hvalid : info.valid = true) (hheight : b.height = info.headHeight + 1)
      (hprevious : b.previous = info.head) :
      HeadPlaced env store b confirmed
        { info with
          headHeight := b.height
          head := env.hash b
          confirmedHeight := if confirmed then b.height else info.confirmedHeight } true

-- The writes for a new head.
def Headed (env : Env) (b : Block) (info : AccountInfo) (linked : Bool) (s store : Store) : Prop :=
  let put := ({ s with accounts := s.accounts.put b.account info }).withBlock (env.hash b) b 0
  if linked then ∃ p, put.blockGet b.previous = some p ∧
    store = { put with blocks := put.blocks.put b.previous ⟨p, env.hash b⟩ }
  else store = put

-- The store in which the handlers get a block.
def Entered (env : Env) (b : Block) (confirmed : Bool) (s store : Store) : Prop :=
  ∃ info linked, HeadPlaced env s b confirmed info linked ∧ Headed env b info linked s store

-- A block of the chain becomes confirmed.
structure Confirmed (env : Env) (b : Block) (s store : Store) (info : AccountInfo) : Prop where
  found : s.accountInfoGet b.account = some info
  valid : info.valid = true
  low : b.height ≤ info.headHeight
  present : s.blockExists (env.hash b) = true
  store : store = { s with
    accounts := s.accounts.put b.account { info with confirmedHeight := b.height } }

namespace App

section Append

variable {φ σ : Type} {env : Env} {hooks : AppHooks φ σ} {fails : StoreCall → Bool} {refused : φ}
  {b : Block} {confirmed linked : Bool} {info : AccountInfo} {s s' : App σ} {code : ErrorCode}

-- The writes of a new head, which end the block's part of the transaction.
def headStore (env : Env) (fails : StoreCall → Bool) (b : Block) (info : AccountInfo) (linked : Bool)
    (s : Store) : Except ErrorCode Store := do
  let store ← orReturn (s.accountInfoPut fails b.account info) .APP_PROCESS_LEDGER_ACCOUNT_PUT
  let store ← orReturn (store.blockPut fails (env.hash b) b 0) .APP_PROCESS_LEDGER_BLOCK_PUT
  if linked then
    orReturn (store.blockSuccessorSet fails b.previous (env.hash b))
      .APP_PROCESS_LEDGER_SUCCESSOR_SET
  else .ok store

theorem appendHead_eq : appendHead_ env hooks fails refused b confirmed info linked s = do
    hooks.preBlockAppend b confirmed s.ledger
    let store ← headStore env fails b info linked s.store
    let ledger ← hooks.afterBlockAppend refused store b confirmed s.ledger
    return ⟨store, ledger⟩ := by
  unfold appendHead_ headStore
  cases linked <;> simp only [bind_assoc] <;> rfl

theorem headStore_ok {store store' : Store}
    (h : headStore env fails b info linked store = .ok store') :
    Headed env b info linked store store' := by
  unfold headStore at h
  obtain ⟨s₁, hinfo, h⟩ := (Except.bind_eq_ok _ _ _).mp h
  obtain ⟨s₂, hput, h⟩ := (Except.bind_eq_ok _ _ _).mp h
  rw [orReturn_eq_ok, Store.accountInfoPut_eq_some] at hinfo
  obtain ⟨-, rfl⟩ := hinfo
  rw [orReturn_eq_ok] at hput
  obtain rfl := Store.blockPut_eq_some hput
  cases linked with
  | false =>
      cases h
      rfl
  | true =>
      rw [if_pos rfl, orReturn_eq_ok, Store.blockSuccessorSet_eq_some] at h
      obtain ⟨-, p, hp, rfl⟩ := h
      exact ⟨p, hp, rfl⟩

theorem headStore_ne_waiting {store : Store} :
    headStore env fails b info linked store ≠ .error .APP_PROCESS_WAITING := by
  intro h
  unfold headStore at h
  cases linked <;> simp [Except.bind_eq_error] at h

theorem appendHead_ok (h : appendHead_ env hooks fails refused b confirmed info linked s = .ok s') :
    Headed env b info linked s.store s'.store ∧
      hooks.preBlockAppend b confirmed s.ledger = .ok () ∧
      hooks.afterBlockAppend refused s'.store b confirmed s.ledger = .ok s'.ledger := by
  rw [appendHead_eq] at h
  obtain ⟨_, hallowed, h⟩ := (Except.bind_eq_ok _ _ _).mp h
  obtain ⟨store, hstore, h⟩ := (Except.bind_eq_ok _ _ _).mp h
  obtain ⟨ledger, hafter, h⟩ := (Except.bind_eq_ok _ _ _).mp h
  cases h
  exact ⟨headStore_ok hstore, hallowed, hafter⟩

theorem confirmBlock_ok (h : confirmBlock_ env fails b confirmed info s = .ok s')
    (hinfo : s.store.accountInfoGet b.account = some info) (hvalid : info.valid = true)
    (hlow : b.height ≤ info.headHeight) :
    confirmed = true ∧ Confirmed env b s.store s'.store info ∧
      info.confirmed b.height = false ∧ s'.ledger = s.ledger := by
  unfold confirmBlock_ at h
  split_ifs at h with hexists hconfirmed
  · obtain ⟨_, hfresh, h⟩ := (Except.bind_eq_ok _ _ _).mp h
    obtain ⟨_, hof, h⟩ := (Except.bind_eq_ok _ _ _).mp h
    obtain ⟨store, hput, h⟩ := (Except.bind_eq_ok _ _ _).mp h
    rw [orReturn_eq_ok, Store.accountInfoPut_eq_some] at hput
    obtain ⟨-, rfl⟩ := hput
    cases h
    rw [returnIf_eq_ok] at hfresh hof
    exact ⟨by simpa using hof, ⟨hinfo, hvalid, hlow, hexists, rfl⟩, by simpa using hfresh, rfl⟩

theorem confirmBlock_ne_waiting :
    confirmBlock_ env fails b confirmed info s ≠ .error .APP_PROCESS_WAITING := by
  intro h
  unfold confirmBlock_ at h
  split_ifs at h
  · simp [Except.bind_eq_error, pure, Except.pure] at h
  · cases h
  · cases h

-- A block that is taken is a new head, or becomes confirmed.
theorem appendBlock_ok (h : appendBlock_ env hooks fails refused b confirmed s = .ok s') :
    (Entered env b confirmed s.store s'.store ∧
      hooks.preBlockAppend b confirmed s.ledger = .ok () ∧
      hooks.afterBlockAppend refused s'.store b confirmed s.ledger = .ok s'.ledger) ∨
    (confirmed = true ∧
      (∃ info, Confirmed env b s.store s'.store info ∧ info.confirmed b.height = false) ∧
      s'.ledger = s.ledger) := by
  unfold appendBlock_ at h
  split at h
  · rename_i hnone
    obtain ⟨_, hheight, h⟩ := (Except.bind_eq_ok _ _ _).mp h
    rw [returnIf_eq_ok, not_not] at hheight
    obtain ⟨hheaded, hafter⟩ := appendHead_ok h
    exact .inl ⟨⟨_, _, .first hnone hheight, hheaded⟩, hafter⟩
  · rename_i info hsome
    obtain ⟨hinfo, hvalid⟩ := Option.filter_eq_some_iff.mp hsome
    by_cases hgap : b.height > info.headHeight + 1
    · rw [if_pos hgap] at h
      cases h
    rw [if_neg hgap] at h
    by_cases hnext : b.height = info.headHeight + 1
    · rw [if_pos hnext] at h
      obtain ⟨_, hprevious, h⟩ := (Except.bind_eq_ok _ _ _).mp h
      rw [returnIf_eq_ok, not_not] at hprevious
      obtain ⟨hheaded, hafter⟩ := appendHead_ok h
      exact .inl ⟨⟨_, _, .next hinfo hvalid hnext hprevious, hheaded⟩, hafter⟩
    rw [if_neg hnext] at h
    by_cases htail : b.height ≥ info.tailHeight
    · rw [if_pos htail] at h
      obtain ⟨hconfirmed, hstore, hfresh, hledger⟩ := confirmBlock_ok h hinfo hvalid (by omega)
      exact .inr ⟨hconfirmed, ⟨info, hstore, hfresh⟩, hledger⟩
    · rw [if_neg htail] at h
      cases h

-- The handlers replaced by something that only looks at what they get.
def watching {φ σ ω : Type} (hooks : AppHooks φ σ) (watch : φ → Store → Block → Bool → σ → ω) :
    AppHooks φ (σ × Option ω) where
  accountTypes := hooks.accountTypes
  preBlockAppend b confirmed s := hooks.preBlockAppend b confirmed s.1
  afterBlockAppend refused store b confirmed s :=
    .ok (s.1, some (watch refused store b confirmed s.1))
  preBlockRollback b s := hooks.preBlockRollback b s.1

-- What the handlers would have been seen to get, if `AppendBlock_` comes to them.
def watched {φ σ ω : Type} (env : Env) (hooks : AppHooks φ σ) (fails : StoreCall → Bool) (refused : φ)
    (watch : φ → Store → Block → Bool → σ → ω) (b : Block) (confirmed : Bool) (s : App σ) :
    Option ω :=
  match appendBlock_ env (watching hooks watch) fails refused b confirmed
    ⟨s.store, (s.ledger, none)⟩ with
  | .ok s' => s'.ledger.2
  | .error _ => none

variable {ω : Type} {watch : φ → Store → Block → Bool → σ → ω} {w : ω}

theorem watched_eq_some (h : watched env hooks fails refused watch b confirmed s = some w) :
    ∃ store, Entered env b confirmed s.store store ∧
      w = watch refused store b confirmed s.ledger := by
  unfold watched at h
  split at h
  · rename_i s' happend
    rcases appendBlock_ok happend with ⟨hentered, -, hafter⟩ | ⟨-, -, hledger⟩
    · rw [← (Except.ok.inj hafter)] at h
      exact ⟨s'.store, hentered, (Option.some.inj h).symm⟩
    · rw [hledger] at h
      cases h
  · cases h

theorem appendHead_waiting
    (hpre : hooks.preBlockAppend b confirmed s.ledger ≠ .error .APP_PROCESS_WAITING)
    (h : appendHead_ env hooks fails refused b confirmed info linked s =
      .error .APP_PROCESS_WAITING) : ∃ store,
      hooks.afterBlockAppend refused store b confirmed s.ledger = .error .APP_PROCESS_WAITING ∧
      appendHead_ env (watching hooks watch) fails refused b confirmed info linked
        ⟨s.store, (s.ledger, none)⟩ =
          .ok ⟨store, (s.ledger, some (watch refused store b confirmed s.ledger))⟩ := by
  rw [appendHead_eq] at h
  rcases (Except.bind_eq_error _ _ _).mp h with h | ⟨_, hallowed, h⟩
  · exact absurd h hpre
  rcases (Except.bind_eq_error _ _ _).mp h with h | ⟨store, hstore, h⟩
  · exact absurd h headStore_ne_waiting
  rcases (Except.bind_eq_error _ _ _).mp h with h | ⟨_, -, h⟩
  · refine ⟨store, h, ?_⟩
    rw [appendHead_eq]
    change (hooks.preBlockAppend b confirmed s.ledger >>= _) = _
    rw [hallowed]
    change (headStore env fails b info linked s.store >>= _) = _
    rw [hstore]
    rfl
  · cases h

private theorem appendBlock_watched
    (hpre : hooks.preBlockAppend b confirmed s.ledger ≠ .error .APP_PROCESS_WAITING)
    (h : appendBlock_ env hooks fails refused b confirmed s = .error .APP_PROCESS_WAITING) :
    ∃ store, hooks.afterBlockAppend refused store b confirmed s.ledger =
        .error .APP_PROCESS_WAITING ∧
      appendBlock_ env (watching hooks watch) fails refused b confirmed
        ⟨s.store, (s.ledger, none)⟩ =
          .ok ⟨store, (s.ledger, some (watch refused store b confirmed s.ledger))⟩ := by
  unfold appendBlock_ at h ⊢
  dsimp only
  cases hfound : (s.store.accountInfoGet b.account).filter AccountInfo.valid with
  | none =>
      rw [hfound] at h
      rcases (Except.bind_eq_error _ _ _).mp h with h | ⟨_, hheight, h⟩
      · exact absurd ((returnIf_eq_error _ _ _).mp h).2 (by decide)
      · obtain ⟨store, hafter, hwatch⟩ := appendHead_waiting hpre h
        exact ⟨store, hafter, (Except.bind_eq_ok _ _ _).mpr ⟨(), hheight, hwatch⟩⟩
  | some info =>
      rw [hfound] at h
      dsimp only at h ⊢
      by_cases hgap : b.height > info.headHeight + 1
      · rw [if_pos hgap] at h
        cases h
      rw [if_neg hgap] at h ⊢
      by_cases hnext : b.height = info.headHeight + 1
      · rw [if_pos hnext] at h ⊢
        rcases (Except.bind_eq_error _ _ _).mp h with h | ⟨_, hprevious, h⟩
        · exact absurd ((returnIf_eq_error _ _ _).mp h).2 (by decide)
        · obtain ⟨store, hafter, hwatch⟩ := appendHead_waiting hpre h
          exact ⟨store, hafter, (Except.bind_eq_ok _ _ _).mpr ⟨(), hprevious, hwatch⟩⟩
      rw [if_neg hnext] at h
      by_cases htail : b.height ≥ info.tailHeight
      · rw [if_pos htail] at h
        exact absurd h confirmBlock_ne_waiting
      · rw [if_neg htail] at h
        cases h

-- The code WAITING comes from the handlers only, which have been seen to get the block.
theorem appendBlock_waiting
    (hpre : hooks.preBlockAppend b confirmed s.ledger ≠ .error .APP_PROCESS_WAITING)
    (h : appendBlock_ env hooks fails refused b confirmed s = .error .APP_PROCESS_WAITING) :
    ∃ store, hooks.afterBlockAppend refused store b confirmed s.ledger =
        .error .APP_PROCESS_WAITING ∧
      watched env hooks fails refused watch b confirmed s =
        some (watch refused store b confirmed s.ledger) := by
  obtain ⟨store, hafter, hwatch⟩ := @appendBlock_watched _ _ _ _ _ _ _ _ _ _ watch hpre h
  exact ⟨store, hafter, by rw [watched, hwatch]⟩

end Append

end App

section Shows

variable {env : Env} {blocks : Set Block} {chains : Account → List Block} {s store : Store}
  {b p : Block} {rest : List Block} {info : AccountInfo} {confirmed linked : Bool}
  {account : Account}

theorem ShowsChains.empty : ShowsChains env blocks .empty fun _ => [] where
  stores := Shape.Stores.empty
  infos := fun _ => rfl
  heights := fun _ _ _ => ⟨fun h => (by cases h), fun ⟨_, _, h, _⟩ => (by cases h)⟩

theorem ShowsChains.account_eq (h : ShowsChains env blocks s chains) (hb : b ∈ chains account) :
    b.account = account :=
  (h.stores.chain account).owner_eq hb

theorem ShowsChains.height_eq (h : ShowsChains env blocks s chains)
    (hchain : chains account = b :: rest) : b.height = rest.length := by
  have hc := h.stores.chain account
  rw [hchain] at hc
  exact hc.2.1

theorem ShowsChains.head_get (h : ShowsChains env blocks s chains)
    (hchain : chains account = b :: rest) : s.blocks.get (env.hash b) = some ⟨b, 0⟩ := by
  have hentry : (b, (0 : BlockHash)) ∈ (blockShape env).entries 0 (chains account) := by
    rw [hchain]
    exact List.mem_cons_self
  have hrow := h.stores.get_of_entry hentry
  exact rows_eq_some.mp hrow

-- The head of a chain that is not empty, and what its account's info says of it.
theorem ShowsChains.info_of_head (happart : Apart env blocks) (h : ShowsChains env blocks s chains)
    (hchain : chains account = b :: rest) : ∃ info, s.accountInfoGet account = some info ∧
      info.valid = true ∧ info.head = env.hash b ∧ info.headHeight = rest.length ∧
      info.tailHeight = 0 ∧ info.tail ≠ 0 ∧
      (info.confirmedHeight = INVALID_HEIGHT ∨ info.confirmedHeight ≤ info.headHeight) := by
  have hold := h.infos account
  rw [hchain] at hold
  obtain ⟨info, hinfo, hhead, hlength, htail, htailHash, hconfirmed⟩ := hold
  have hmem : b ∈ blocks := h.stores.mem account b (hchain ▸ List.mem_cons_self)
  have hzero := happart.ne_zero b hmem
  refine ⟨info, hinfo, ?_, hhead, hlength, htail, htailHash, hconfirmed⟩
  have hvalid : info.headHeight ≠ INVALID_HEIGHT := by
    rw [hlength, ← h.height_eq hchain]
    exact happart.height_ne b hmem
  have htailValid : info.tailHeight ≠ INVALID_HEIGHT := by
    rw [htail]
    decide
  rw [← hhead] at hzero
  simp only [AccountInfo.valid, hvalid, htailValid, hzero, htailHash, decide_false, Bool.or_self,
    Bool.not_false, Bool.and_self]

-- An account whose info is found has a chain, and the info is that of its head.
theorem ShowsChains.chain_of_info (h : ShowsChains env blocks s chains)
    (hinfo : s.accountInfoGet account = some info) : ∃ b rest, chains account = b :: rest := by
  cases hchain : chains account with
  | nil =>
      have hnone := h.infos account
      rw [hchain, hinfo] at hnone
      cases hnone
  | cons b rest => exact ⟨b, rest, rfl⟩

theorem ShowsChains.filter_info (happart : Apart env blocks) (h : ShowsChains env blocks s chains)
    (hnone : (s.accountInfoGet account).filter AccountInfo.valid = none) : chains account = [] := by
  cases hchain : chains account with
  | nil => rfl
  | cons b rest =>
      obtain ⟨info, hinfo, hvalid, -⟩ := h.info_of_head happart hchain
      rw [hinfo, Option.filter_some, if_pos hvalid] at hnone
      cases hnone

-- What a block's hash finds is on its account's chain.
theorem ShowsChains.mem_of_blockGet (h : ShowsChains env blocks s chains)
    (hget : s.blockGet (env.hash b) = some b) : b ∈ chains b.account := by
  obtain ⟨⟨block, successor⟩, hstored, rfl⟩ := Option.map_eq_some_iff.mp hget
  have hrow : rows s.blocks (env.hash block) = some (block, successor) := rows_eq_some.mpr hstored
  obtain ⟨-, account, hentry⟩ := (h.stores.stored _ _).mp hrow
  have hmem := Shape.mem_of_entry hentry
  rw [h.account_eq hmem]
  exact hmem

-- The info and the place of a new head fit the chain of its account.
theorem HeadPlaced.fits (happart : Apart env blocks) (h : ShowsChains env blocks s chains)
    (hb : b ∈ blocks) (hplaced : HeadPlaced env s b confirmed info linked) :
    b.height = (chains b.account).length ∧
      (∀ p ∈ (chains b.account).head?, b.previous = env.hash p) ∧
      ShowsInfo env (b :: chains b.account) (some info) ∧
      (linked = true ↔ chains b.account ≠ []) := by
  cases hplaced with
  | first hnone hheight =>
      have hchain := h.filter_info happart hnone
      rw [hchain]
      refine ⟨hheight, fun p hp => (by cases hp), ⟨_, rfl, ?_⟩, by simp⟩
      split_ifs
      · exact ⟨rfl, rfl, rfl, happart.ne_zero b hb, .inr (Nat.zero_le _)⟩
      · exact ⟨rfl, rfl, rfl, happart.ne_zero b hb, .inl rfl⟩
  | @next old hinfo hvalid hheight hprevious =>
      obtain ⟨p, rest, hchain⟩ := h.chain_of_info hinfo
      obtain ⟨info', hsame, -, hhead, hlength, htail, htailHash, hconfirmed⟩ :=
        h.info_of_head happart hchain
      cases hsame.symm.trans hinfo
      have hplace : b.height = (chains b.account).length := by
        rw [hheight, hlength, hchain]
        rfl
      refine ⟨hplace, fun q hq => ?_, ⟨_, rfl, rfl, hplace, htail, htailHash, ?_⟩, by simp [hchain]⟩
      · rw [hchain] at hq
        cases hq
        exact hprevious.trans hhead
      · dsimp only
        split_ifs
        · exact .inr (Nat.le_refl _)
        · exact hconfirmed.imp_right fun hle => by omega

theorem ShowsChains.headed (happart : Apart env blocks) (h : ShowsChains env blocks s chains)
    (hb : b ∈ blocks) (hplaced : HeadPlaced env s b confirmed info linked)
    (hheaded : Headed env b info linked s store) :
    ShowsChains env blocks store (Function.update chains b.account (b :: chains b.account)) := by
  obtain ⟨hheight, hprevious, hinfo, hlinked⟩ := hplaced.fits happart h hb
  have hpush : (blockShape env).Stores blocks 0
      (Function.update chains b.account (b :: chains b.account))
      ((blockShape env).pushed 0 (rows s.blocks) b (chains b.account)) :=
    h.stores.push happart.shape hb hheight hprevious
  have hindex := h.heights.push hheight (h.stores.chain _)
  have hown : (s.accounts.put b.account info).get b.account = some info :=
    (Table.get_put _ _ _ _).trans (if_pos rfl)
  have hinfos : ∀ account, ShowsInfo env (Function.update chains b.account (b :: chains b.account) account)
      ((s.accounts.put b.account info).get account) := by
    refine ShowsInfo.update h.infos ?_ fun other hne => ?_
    · rw [hown]
      exact hinfo
    · exact (Table.get_put _ _ _ _).trans (if_neg hne)
  cases linked with
  | false =>
      cases hheaded
      have hchain : chains b.account = [] := by simpa using hlinked
      have hrows : rows (s.blocks.put (env.hash b) ⟨b, 0⟩) =
          (blockShape env).pushed 0 (rows s.blocks) b (chains b.account) := by
        rw [hchain]
        exact rows_put _ _ _
      exact ⟨hrows.symm ▸ hpush, hinfos, hindex⟩
  | true =>
      obtain ⟨q, hq, rfl⟩ := hheaded
      obtain ⟨p, rest, hchain⟩ := List.exists_cons_of_ne_nil (hlinked.mp rfl)
      have hp : b.previous = env.hash p := hprevious p (by rw [hchain]; rfl)
      have hfresh : env.hash p ≠ env.hash b := by
        refine h.stores.fresh happart.shape hb hheight b.account p ?_
        rw [hchain]
        exact List.mem_cons_self
      have hsame : q = p := by
        have hget : (s.blocks.put (env.hash b) ⟨b, 0⟩).get (env.hash p) = some ⟨p, 0⟩ := by
          rw [Table.get_put, if_neg hfresh]
          exact h.head_get hchain
        rw [hp] at hq
        change ((s.blocks.put (env.hash b) ⟨b, 0⟩).get (env.hash p)).map _ = some q at hq
        rw [hget] at hq
        exact (Option.some.inj hq).symm
      have hrows : rows ((s.blocks.put (env.hash b) ⟨b, 0⟩).put b.previous ⟨q, env.hash b⟩) =
          (blockShape env).pushed 0 (rows s.blocks) b (chains b.account) := by
        rw [hsame, hp, hchain]
        exact (rows_put _ _ _).trans (congrArg (fun f => Function.update f _ _) (rows_put _ _ _))
      exact ⟨hrows.symm ▸ hpush, hinfos, hindex⟩

theorem ShowsChains.entered (happart : Apart env blocks) (h : ShowsChains env blocks s chains)
    (hb : b ∈ blocks) (hentered : Entered env b confirmed s store) :
    ShowsChains env blocks store (Function.update chains b.account (b :: chains b.account)) := by
  obtain ⟨info, linked, hplaced, hheaded⟩ := hentered
  exact h.headed happart hb hplaced hheaded

theorem Headed.accounts (h : Headed env b info linked s store) :
    store.accounts = s.accounts.put b.account info := by
  cases linked with
  | false =>
      cases h
      rfl
  | true =>
      obtain ⟨p, -, rfl⟩ := h
      rfl

-- The accounts after a block has entered.
theorem Entered.info_other (hentered : Entered env b confirmed s store)
    (hne : account ≠ b.account) : store.accountInfoGet account = s.accountInfoGet account := by
  obtain ⟨info, linked, -, hheaded⟩ := hentered
  rw [Store.accountInfoGet, hheaded.accounts, Table.get_put, if_neg hne]
  rfl

theorem Entered.info_own (hentered : Entered env b confirmed s store) :
    ∃ info, store.accountInfoGet b.account = some info ∧
      info.headHeight = b.height ∧
      (confirmed = true → info.confirmedHeight = b.height) ∧
      (confirmed = false → info.confirmedHeight = INVALID_HEIGHT ∨
        ∃ old, s.accountInfoGet b.account = some old ∧ old.valid = true ∧
          info.confirmedHeight = old.confirmedHeight) := by
  obtain ⟨info, linked, hplaced, hheaded⟩ := hentered
  refine ⟨info, ?_, ?_⟩
  · rw [Store.accountInfoGet, hheaded.accounts, Table.get_put, if_pos rfl]
  · cases hplaced with
    | first _ hheight =>
        cases confirmed with
        | false => exact ⟨hheight.symm, fun h => (by cases h), fun _ => .inl rfl⟩
        | true => exact ⟨hheight.symm, fun _ => hheight.symm, fun h => (by cases h)⟩
    | next hold hvalid _ _ =>
        cases confirmed with
        | false => exact ⟨rfl, fun h => (by cases h), fun _ => .inr ⟨_, hold, hvalid, rfl⟩⟩
        | true => exact ⟨rfl, fun _ => rfl, fun h => (by cases h)⟩

-- The block of the account at the height is confirmed.
def ConfirmedAt (s : Store) (account : Account) (height : Nat) : Prop :=
  ∃ info, s.accountInfoGet account = some info ∧ info.confirmed height = true

theorem confirmed_iff (hvalid : info.valid = true) {height : Nat} :
    info.confirmed height = true ↔
      info.confirmedHeight ≠ INVALID_HEIGHT ∧ info.confirmedHeight ≥ height := by
  simp [AccountInfo.confirmed, hvalid]

theorem ShowsChains.valid (happart : Apart env blocks) (h : ShowsChains env blocks s chains)
    (hinfo : s.accountInfoGet account = some info) : info.valid = true := by
  obtain ⟨b, rest, hchain⟩ := h.chain_of_info hinfo
  obtain ⟨info', hsame, hvalid, -⟩ := h.info_of_head happart hchain
  cases hsame.symm.trans hinfo
  exact hvalid

-- Nothing above the head is confirmed.
theorem ShowsChains.confirmed_le (happart : Apart env blocks) (h : ShowsChains env blocks s chains)
    (hinfo : s.accountInfoGet account = some info) {height : Nat}
    (hconfirmed : info.confirmed height = true) :
    height ≤ info.headHeight ∧ height < (chains account).length := by
  obtain ⟨b, rest, hchain⟩ := h.chain_of_info hinfo
  obtain ⟨info', hsame, hvalid, -, hlength, -, -, hle⟩ := h.info_of_head happart hchain
  cases hsame.symm.trans hinfo
  obtain ⟨hne, hge⟩ := (confirmed_iff hvalid).mp hconfirmed
  have hbound := hle.resolve_left hne
  rw [hchain, List.length_cons]
  omega

-- What is confirmed stays so when a block enters.
theorem ShowsChains.confirmedAt_entered (happart : Apart env blocks)
    (h : ShowsChains env blocks s chains) (hb : b ∈ blocks)
    (hentered : Entered env b confirmed s store) {height : Nat}
    (hold : ConfirmedAt s account height) : ConfirmedAt store account height := by
  obtain ⟨old, hget, hconfirmed⟩ := hold
  by_cases hne : account = b.account
  · subst hne
    obtain ⟨info, hinfo, -, htrue, hfalse⟩ := hentered.info_own
    have hvalid := (h.entered happart hb hentered).valid happart hinfo
    have holdValid := h.valid happart hget
    refine ⟨info, hinfo, (confirmed_iff hvalid).mpr ?_⟩
    obtain ⟨hset, hge⟩ := (confirmed_iff holdValid).mp hconfirmed
    cases confirmed with
    | false =>
        rcases hfalse rfl with hnone | ⟨old', hget', -, hsame⟩
        · obtain ⟨info', linked, hplaced, hheaded⟩ := hentered
          cases hplaced with
          | first hfresh _ =>
              rw [hget, Option.filter_some, if_pos holdValid] at hfresh
              cases hfresh
          | next hinfo' _ _ _ =>
              cases hinfo'.symm.trans hget
              rw [Store.accountInfoGet, hheaded.accounts, Table.get_put, if_pos rfl] at hinfo
              cases hinfo
              exact absurd hnone hset
        · cases hget'.symm.trans hget
          rw [hsame]
          exact ⟨hset, hge⟩
    | true =>
        rw [htrue rfl]
        refine ⟨happart.height_ne b hb, ?_⟩
        obtain ⟨hle, hlt⟩ := h.confirmed_le happart hget hconfirmed
        obtain ⟨info', linked, hplaced, -⟩ := hentered
        have hplace := (hplaced.fits happart h hb).1
        omega
  · exact ⟨old, (hentered.info_other hne).trans hget, hconfirmed⟩

-- A block that enters confirms what is at its height and below, if it is confirmed.
theorem ShowsChains.confirmedAt_of_entered (happart : Apart env blocks)
    (h : ShowsChains env blocks s chains) (hb : b ∈ blocks)
    (hentered : Entered env b confirmed s store) {height : Nat}
    (hnew : ConfirmedAt store account height) :
    ConfirmedAt s account height ∨ confirmed = true ∧ account = b.account ∧ height ≤ b.height := by
  obtain ⟨info, hget, hconfirmed⟩ := hnew
  by_cases hne : account = b.account
  · subst hne
    obtain ⟨info', hinfo, -, htrue, hfalse⟩ := hentered.info_own
    cases hinfo.symm.trans hget
    have hvalid := (h.entered happart hb hentered).valid happart hget
    obtain ⟨hset, hge⟩ := (confirmed_iff hvalid).mp hconfirmed
    cases confirmed with
    | false =>
        rcases hfalse rfl with hnone | ⟨old, hold, holdValid, hsame⟩
        · exact absurd hnone hset
        · rw [hsame] at hset hge
          exact .inl ⟨old, hold, (confirmed_iff holdValid).mpr ⟨hset, hge⟩⟩
    | true =>
        rw [htrue rfl] at hge
        exact .inr ⟨rfl, rfl, hge⟩
  · rw [hentered.info_other hne] at hget
    exact .inl ⟨info, hget, hconfirmed⟩

theorem ShowsChains.settled (h : ShowsChains env blocks s chains)
    (hconfirmed : Confirmed env b s store info) : ShowsChains env blocks store chains := by
  obtain ⟨hfound, -, hlow, -, rfl⟩ := hconfirmed
  refine ⟨h.stores, fun other => ?_, h.heights⟩
  rw [Store.accountInfoGet, Table.get_put]
  split_ifs with hsame
  · subst hsame
    have hold := h.infos b.account
    rw [hfound] at hold
    cases hchain : chains b.account with
    | nil =>
        rw [hchain] at hold
        cases hold
    | cons p rest =>
        rw [hchain] at hold
        obtain ⟨info', hsame, hhead, hlength, htail, htailHash, -⟩ := hold
        cases hsame
        exact ⟨_, rfl, hhead, hlength, htail, htailHash, .inr hlow⟩
  · exact h.infos other

theorem Confirmed.confirmedAt (happart : Apart env blocks) (h : ShowsChains env blocks s chains)
    (hconfirmed : Confirmed env b s store info) {height : Nat}
    (hnew : ConfirmedAt store account height) :
    ConfirmedAt s account height ∨ account = b.account ∧ height ≤ b.height := by
  obtain ⟨info', hget, hset⟩ := hnew
  have hvalid := (h.settled hconfirmed).valid happart hget
  obtain ⟨-, hge⟩ := (confirmed_iff hvalid).mp hset
  obtain ⟨hfound, -, -, -, rfl⟩ := hconfirmed
  rw [Store.accountInfoGet, Table.get_put] at hget
  split_ifs at hget with hsame
  · cases hget
    exact .inr ⟨hsame, hge⟩
  · exact .inl ⟨info', hget, hset⟩

end Shows

section Rollback

variable {φ σ : Type} {env : Env} {hooks : AppHooks φ σ} {fails : StoreCall → Bool}
  {blocks : Set Block} {chains : Account → List Block} {b : Block} {s s' : App σ}

-- A block that is rolled back was the head of its account, and not confirmed.
structure RolledBack (env : Env) (blocks : Set Block) (chains : Account → List Block) (b : Block)
    (s s' : App σ) (rest : List Block) : Prop where
  chain : chains b.account = b :: rest
  shows : ShowsChains env blocks s'.store (Function.update chains b.account rest)
  ledger : s'.ledger = s.ledger
  unconfirmed : ¬ConfirmedAt s.store b.account b.height
  confirmed : ∀ account height, ConfirmedAt s'.store account height ↔
    ConfirmedAt s.store account height

theorem rollbackBlock_rolledBack (happart : Apart env blocks) (h : ShowsChains env blocks s.store chains)
    (hb : b ∈ blocks) (hok : s.rollbackBlock_ env hooks fails b = .ok s') :
    ∃ rest, RolledBack env blocks chains b s s' rest := by
  unfold App.rollbackBlock_ at hok
  simp only [Except.bind_eq_ok, orReturn_eq_ok, returnIf_eq_ok, exists_const, not_not] at hok
  obtain ⟨info, hfound, hhead, hopen, _, -, s₁, hput, s₂, hdel, hok⟩ := hok
  obtain ⟨hinfo, hvalid⟩ := Option.filter_eq_some_iff.mp hfound
  rw [Store.rollbackBlockPut_eq_some] at hput
  obtain ⟨-, rfl⟩ := hput
  obtain ⟨c, rest, hchain⟩ := h.chain_of_info hinfo
  obtain ⟨info', hsame, -, hhash, hlength, htail, htailHash, hconfirmed⟩ :=
    h.info_of_head happart hchain
  cases hsame.symm.trans hinfo
  have hc : c ∈ blocks := h.stores.mem _ c (hchain ▸ List.mem_cons_self)
  obtain rfl : c = b := happart.injective hc hb (hhash.symm.trans hhead)
  have hheight := h.height_eq hchain
  have hunconfirmed : ¬ConfirmedAt s.store c.account c.height := by
    rintro ⟨other, hget, hset⟩
    cases hget.symm.trans hinfo
    exact hopen hset
  obtain ⟨stored, hstored, rfl⟩ := Store.blockDel_eq_some hdel
  have hsame : stored = c := by
    rw [Store.blockGet, hhash] at hstored
    change (s.store.blocks.get (env.hash c)).map _ = _ at hstored
    rw [h.head_get hchain] at hstored
    exact (Option.some.inj hstored).symm
  subst hsame
  rw [hhash] at hok
  have hpop := h.stores.pop happart.shape hchain
  have hindex := h.heights.pop (h.stores.chain _) hchain
  cases rest with
  | nil =>
      have hzero : stored.height = 0 := hheight
      have hinfoZero : info.headHeight = 0 := hlength
      rw [if_neg (not_not.mpr hzero)] at hok
      obtain ⟨_, hsame, hok⟩ := (Except.bind_eq_ok _ _ _).mp hok
      cases hsame
      rw [if_pos hinfoZero] at hok
      obtain ⟨store, hgone, hok⟩ := (Except.bind_eq_ok _ _ _).mp hok
      rw [orReturn_eq_ok, Store.accountInfoDel_eq_some] at hgone
      obtain ⟨-, -, rfl⟩ := hgone
      cases hok
      have hother : ∀ other, other ≠ stored.account →
          (s.store.accounts.del stored.account).get other = s.store.accountInfoGet other :=
        fun other hne => (Table.get_del _ _ _).trans (if_neg hne)
      have hown : (s.store.accounts.del stored.account).get stored.account = none :=
        (Table.get_del _ _ _).trans (if_pos rfl)
      have hrows : rows (s.store.blocks.del (env.hash stored)) =
          (blockShape env).popped 0 (rows s.store.blocks) stored [] := rows_del _ _
      refine ⟨[], hchain, ⟨hrows.symm ▸ hpop, ShowsInfo.update h.infos hown hother, hindex⟩, rfl,
        hunconfirmed, fun account height => ⟨?_, ?_⟩⟩
      · rintro ⟨info', hget, hset⟩
        by_cases hne : account = stored.account
        · subst hne
          cases hown.symm.trans hget
        · exact ⟨info', (hother account hne).symm.trans hget, hset⟩
      · rintro ⟨info', hget, hset⟩
        refine ⟨info', (hother account ?_).trans hget, hset⟩
        -- Nothing of an account was confirmed whose first block was not.
        rintro rfl
        refine hunconfirmed ⟨info', hget, ?_⟩
        obtain ⟨hvalid', hge⟩ := (confirmed_iff (h.valid happart hget)).mp hset
        exact (confirmed_iff (h.valid happart hget)).mpr ⟨hvalid', by omega⟩
  | cons p rest =>
      have hne : stored.height ≠ 0 := by
        rw [hheight]
        exact Nat.succ_ne_zero _
      have hinfoNe : info.headHeight ≠ 0 := by
        rw [hlength]
        exact Nat.succ_ne_zero _
      rw [if_pos hne] at hok
      obtain ⟨s₃, hlink, hok⟩ := (Except.bind_eq_ok _ _ _).mp hok
      rw [if_neg hinfoNe] at hok
      obtain ⟨store, hunhead, hok⟩ := (Except.bind_eq_ok _ _ _).mp hok
      rw [orReturn_eq_ok, Store.blockSuccessorSet_eq_some] at hlink
      obtain ⟨-, q, hq, rfl⟩ := hlink
      rw [orReturn_eq_ok, Store.accountInfoPut_eq_some] at hunhead
      obtain ⟨-, rfl⟩ := hunhead
      have hc := h.stores.chain stored.account
      rw [hchain] at hc
      have hprevious : stored.previous = env.hash p := hc.2.2.1 p rfl
      have hqp : q = p := by
        have hentry : (p, env.hash stored) ∈ (blockShape env).entries 0 (chains stored.account) := by
          rw [hchain]
          exact List.mem_cons_of_mem _ List.mem_cons_self
        have hrow := h.stores.get_of_entry hentry
        have hp : s.store.blocks.get (env.hash p) = some ⟨p, env.hash stored⟩ := rows_eq_some.mp hrow
        have hpb : env.hash p ≠ env.hash stored :=
          (@Shape.Stores.alone _ _ _ _ _ _ (0 : BlockHash) _ _ _ _ _ h.stores happart.shape hchain).1
            (p, 0) List.mem_cons_self
        rw [hprevious] at hq
        change ((s.store.blocks.del (env.hash stored)).get (env.hash p)).map _ = some q at hq
        rw [Table.get_del, if_neg hpb, hp] at hq
        exact (Option.some.inj hq).symm
      subst hqp
      have hother : ∀ other, other ≠ stored.account →
          (s.store.accounts.put stored.account (App.unheadInfo_ stored info)).get other =
            s.store.accountInfoGet other :=
        fun other hne => (Table.get_put _ _ _ _).trans (if_neg hne)
      have hown : (s.store.accounts.put stored.account (App.unheadInfo_ stored info)).get
          stored.account = some (App.unheadInfo_ stored info) :=
        (Table.get_put _ _ _ _).trans (if_pos rfl)
      have hrows : rows ((s.store.blocks.del (env.hash stored)).put stored.previous ⟨q, 0⟩) =
          (blockShape env).popped 0 (rows s.store.blocks) stored (q :: rest) := by
        rw [hprevious]
        exact (rows_put _ _ _).trans (congrArg (fun f => Function.update f _ _) (rows_del _ _))
      -- The head was not confirmed, so what was is below it.
      have hkeeps : (App.unheadInfo_ stored info).confirmedHeight = info.confirmedHeight := by
        refine if_neg ?_
        rintro ⟨hset, hgt⟩
        refine hopen ((confirmed_iff hvalid).mpr ⟨hset, ?_⟩)
        rw [hheight]
        omega
      have hshown : ShowsInfo env (q :: rest)
          ((s.store.accounts.put stored.account (App.unheadInfo_ stored info)).get
            stored.account) := by
        rw [hown]
        refine ⟨_, rfl, hprevious, ?_, htail, htailHash, ?_⟩
        · change info.headHeight - 1 = rest.length
          rw [hlength]
          rfl
        · rw [hkeeps]
          refine (Classical.em _).imp_right fun hset => ?_
          change info.confirmedHeight ≤ info.headHeight - 1
          by_contra hlt
          refine hopen ((confirmed_iff hvalid).mpr ⟨hset, ?_⟩)
          rw [hheight]
          omega
      have hshows : ShowsChains env blocks s'.store
          (Function.update chains stored.account (q :: rest)) := by
        cases hok
        exact ⟨hrows.symm ▸ hpop, ShowsInfo.update h.infos hshown hother, hindex⟩
      cases hok
      refine ⟨q :: rest, hchain, hshows, rfl, hunconfirmed, fun account height => ⟨?_, ?_⟩⟩
      · rintro ⟨info', hget, hset⟩
        by_cases hne : account = stored.account
        · subst hne
          cases hown.symm.trans hget
          refine ⟨info, hinfo, ?_⟩
          simp only [AccountInfo.confirmed, Bool.and_eq_true, decide_eq_true_eq, hkeeps] at hset
          exact (confirmed_iff hvalid).mpr ⟨hset.1.2, hset.2⟩
        · exact ⟨info', (hother account hne).symm.trans hget, hset⟩
      · rintro ⟨info', hget, hset⟩
        by_cases hne : account = stored.account
        · subst hne
          cases hget.symm.trans hinfo
          refine ⟨_, hown, (confirmed_iff (hshows.valid happart hown)).mpr ?_⟩
          rw [hkeeps]
          exact (confirmed_iff hvalid).mp hset
        · exact ⟨info', (hother account hne).trans hget, hset⟩

end Rollback

end Raicoin
