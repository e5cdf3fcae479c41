import Raicoin.Lattice.Rules
import Raicoin.Node.BlockProcessor.Rollback

-- What a successful `RollbackBlock_` has checked, what it leaves behind, and when it succeeds.
namespace Raicoin

open Lib

section Checks

variable (env : Env)

-- The reward that was earned when `b` came and goes with it.
def endedReward (b p : Block) : Option (Account × BlockHash) :=
  if b.hasRepresentative = true ∧
      rewardAmount env.network p.balance p.timestamp b.timestamp ≠ 0 then
    some (p.representative, env.hash p)
  else none

def Standing (s : Store) (b : Block) : Option Block → Prop
  | none => b.height = 0
  | some p => b.height ≠ 0 ∧ s.blockGet b.previous = some p ∧
      ∀ key, endedReward env b p = some key → (s.rewardables.get key).isSome

-- What `Check` has seen when it passes.
structure CheckPassed (s : Store) (b : Block) (info : AccountInfo) (previous : Option Block) :
    Prop where
  info_get : s.accounts.get b.account = some info
  valid : info.valid = true
  tail_le : info.tailHeight ≤ b.height
  not_tail : ¬(info.tailHeight = info.headHeight ∧ info.tailHeight ≠ 0)
  height : b.height = info.headHeight
  head : env.hash b = info.head
  head_get : s.blockGet info.head = some b
  standing : Standing env s b previous

structure RollbackChecks (s : Store) (b : Block) (info : AccountInfo) (previous : Option Block) :
    Prop extends CheckPassed env s b info previous where
  legal : b.Legal
  send : b.opcode = .send → (s.receivables.get (b.link, env.hash b)).isSome
  receive : b.opcode = .receive → (s.blockGet b.link).isSome
  reward : b.opcode = .reward → ∃ source successor,
    s.blocks.get b.link = some source ∧ s.blockGet source.successor = some successor
  bind : b.opcode = .bind →
    (s.bindingEntries.get (RollbackBlockVisitor.bindingKey b)).isSome ∧
      ∃ count, s.bindingCount.get b.account = some count ∧ count ≠ 0

variable {env} in
theorem CheckPassed.stored {s : Store} {b : Block} {info : AccountInfo} {previous : Option Block}
    (h : CheckPassed env s b info previous) : s.blockGet (env.hash b) = some b := by
  rw [h.head]
  exact h.head_get

end Checks

section Effects

variable (env : Env)

def removedBlocks (blocks : Table BlockHash StoredBlock) (b : Block) :
    Option Block → Table BlockHash StoredBlock
  | none => blocks.del (env.hash b)
  | some p => (blocks.del (env.hash b)).put b.previous ⟨p, 0⟩

def removedReceivables (s : Store) (b : Block) (previous : Option Block) :
    Table (Account × BlockHash) ReceivableInfo :=
  match b.opcode, s.blockGet b.link with
  | .send, _ => s.receivables.del (b.link, env.hash b)
  | .receive, some source =>
    s.receivables.put (b.account, b.link)
      ⟨source.account, RollbackBlockVisitor.amount env b previous, source.timestamp⟩
  | _, _ => s.receivables

-- The reward that a REWARD block had taken.
def restoredReward (s : Store) (b : Block) (previous : Option Block) : Option RewardableInfo := do
  let source ← s.blocks.get b.link
  let successor ← s.blockGet source.successor
  return ⟨source.block.account, RollbackBlockVisitor.amount env b previous,
    rewardTimestamp env.network source.block.timestamp successor.timestamp⟩

def removedRewardables (s : Store) (b : Block) (previous : Option Block) :
    Table (Account × BlockHash) RewardableInfo :=
  if b.opcode = .reward then
    match restoredReward env s b previous with
    | none => s.rewardables
    | some info => s.rewardables.put (b.account, b.link) info
  else
    match previous.bind (endedReward env b) with
    | none => s.rewardables
    | some key => s.rewardables.del key

def removedStore (s : Store) (b : Block) (info : AccountInfo) (previous : Option Block) :
    Store where
  accounts := if b.height = 0 then s.accounts.del b.account
    else s.accounts.put b.account (RollbackBlockVisitor.shortened b info)
  blocks := removedBlocks env s.blocks b previous
  blocksIndex := if b.height % BLOCKS_PER_INDEX = 0 then s.blocksIndex.del (b.account, b.height)
    else s.blocksIndex
  receivables := removedReceivables env s b previous
  rewardables := removedRewardables env s b previous
  rollbacks := s.rollbacks.put (env.hash b) b
  bindingCount := if b.opcode = .bind then
      if (s.bindingCount.get b.account).getD 0 - 1 = 0 then s.bindingCount.del b.account
      else s.bindingCount.put b.account ((s.bindingCount.get b.account).getD 0 - 1)
    else s.bindingCount
  bindingEntries := if b.opcode = .bind then
      s.bindingEntries.del (RollbackBlockVisitor.bindingKey b)
    else s.bindingEntries

def restoredWeights (b : Block) (previous : Option Block) : List RepWeightOpration :=
  if b.hasRepresentative = false then []
  else ⟨false, b.representative, b.balance⟩ ::
    match previous with
    | none => []
    | some p => [⟨true, p.representative, p.balance⟩]

-- A transaction with its store replaced and its weights moved back. The lists stay.
def movedBack (t : Transaction) (s : Store) (b : Block) (previous : Option Block) :
    Transaction :=
  { t.setStore s with
    repWeightOperations := t.repWeightOperations ++ restoredWeights b previous }

def removed (t : Transaction) (b : Block) (info : AccountInfo) (previous : Option Block) :
    Transaction :=
  movedBack t (removedStore env t.store b info previous) b previous

end Effects

namespace RollbackBlockVisitor

variable {env : Env} {s : Store} {b : Block} {info : AccountInfo} {previous : Option Block}
  {t t' : Transaction} {u : Unit}

-- The result of `Check` when it passes.
def passed (env : Env) (b : Block) (info : AccountInfo) (previous : Option Block) : Checked :=
  ⟨info, previous, (previous.bind (endedReward env b)).isSome⟩

theorem checkPrevious_ok {checked : Checked} (h : checkPrevious env s b info = .ok checked) :
    ∃ previous, Standing env s b previous ∧ checked = passed env b info previous := by
  unfold checkPrevious at h
  split at h
  · rename_i hz
    exact ⟨none, hz, (Except.pure_eq_ok _ _).mp h |>.symm⟩
  · rename_i hz
    simp only [Except.bind_eq_ok, orReturn_eq_ok] at h
    obtain ⟨p, hp, h⟩ := h
    refine ⟨some p, ⟨hz, hp, ?_⟩, ?_⟩
    · intro key hkey
      unfold endedReward at hkey
      split at hkey
      · rename_i hended
        rw [if_pos hended] at h
        simp only [Except.bind_eq_ok, orReturn_eq_ok] at h
        obtain ⟨reward, hreward, -⟩ := h
        obtain rfl := Option.some.inj hkey
        exact Option.isSome_iff_exists.mpr ⟨reward, hreward⟩
      · cases hkey
    · split at h <;> rename_i hended
      · simp only [Except.bind_eq_ok, Except.pure_eq_ok] at h
        obtain ⟨_, -, rfl⟩ := h
        simp only [passed, Option.bind_some, endedReward, if_pos hended, Option.isSome_some]
      · obtain rfl := (Except.pure_eq_ok _ _).mp h
        simp only [passed, Option.bind_some, endedReward, if_neg hended, Option.isSome_none]

theorem checkPrevious_of_standing (h : Standing env s b previous) :
    checkPrevious env s b info = .ok (passed env b info previous) := by
  unfold checkPrevious
  cases previous with
  | none =>
      rw [if_pos (show b.height = 0 from h)]
      rfl
  | some p =>
      obtain ⟨hz, hp, hreward⟩ := h
      rw [if_neg hz]
      simp only [Except.bind_eq_ok, orReturn_eq_ok]
      refine ⟨p, hp, ?_⟩
      by_cases hended : b.hasRepresentative = true ∧
          rewardAmount env.network p.balance p.timestamp b.timestamp ≠ 0
      · obtain ⟨reward, hget⟩ := Option.isSome_iff_exists.mp
          (hreward _ (by rw [endedReward, if_pos hended]))
        rw [if_pos hended]
        simp only [Except.bind_eq_ok, orReturn_eq_ok, Except.pure_eq_ok]
        refine ⟨reward, hget, ?_⟩
        simp only [passed, Option.bind_some, endedReward, if_pos hended, Option.isSome_some]
      · rw [if_neg hended, Except.pure_eq_ok]
        simp only [passed, Option.bind_some, endedReward, if_neg hended, Option.isSome_none]

theorem check_eq_ok {checked : Checked} :
    check env s b = .ok checked ↔ ∃ info previous,
      CheckPassed env s b info previous ∧ checked = passed env b info previous := by
  constructor
  · intro h
    simp only [check, Except.bind_eq_ok, returnIf_eq_ok, orReturn_eq_ok, Decidable.not_not,
      Option.filter_eq_some_iff] at h
    obtain ⟨-, -, info, ⟨hinfo, hvalid⟩, -, hrange, -, htail, -, hheight, -, hhead, head, hget, -,
      rfl, h⟩ := h
    obtain ⟨previous, hstanding, hchecked⟩ := checkPrevious_ok h
    exact ⟨info, previous, ⟨hinfo, hvalid, by omega, htail, hheight, hhead, hget, hstanding⟩,
      hchecked⟩
  · rintro ⟨info, previous, h, rfl⟩
    have hexists : s.blockExists (env.hash b) = true := by
      have hget := h.head_get
      rw [← h.head, Store.blockGet, Option.map_eq_some_iff] at hget
      obtain ⟨stored, hstored, -⟩ := hget
      exact (Table.contains_iff _ _).mpr ⟨stored, hstored⟩
    simp only [check, Except.bind_eq_ok, returnIf_eq_ok, orReturn_eq_ok, Decidable.not_not,
      Option.filter_eq_some_iff]
    have htail := h.tail_le
    have hheight := h.height
    exact ⟨(), by simp [hexists], info, ⟨h.info_get, h.valid⟩, (), by omega, (), h.not_tail, (),
      h.height, (), h.head, b, h.head_get, (), rfl, checkPrevious_of_standing h.standing⟩

-- The tables that every method writes.
def shrunkStore (env : Env) (s : Store) (b : Block) (info : AccountInfo)
    (previous : Option Block) : Store :=
  { s with
    accounts := if b.height = 0 then s.accounts.del b.account
      else s.accounts.put b.account (shortened b info)
    blocks := removedBlocks env s.blocks b previous
    blocksIndex := if b.height % BLOCKS_PER_INDEX = 0 then s.blocksIndex.del (b.account, b.height)
      else s.blocksIndex
    rewardables := match previous.bind (endedReward env b) with
      | none => s.rewardables
      | some key => s.rewardables.del key
    rollbacks := s.rollbacks.put (env.hash b) b }

theorem deleteBlockSuccessor_ok (h : deleteBlockSuccessor env b t = .ok u t')
    (hstored : t.store.blockGet (env.hash b) = some b) (hstanding : Standing env s b previous)
    (hget : s.blocks = t.store.blocks) :
    t' = t.setStore { t.store with
      blocks := removedBlocks env t.store.blocks b previous
      blocksIndex := if b.height % BLOCKS_PER_INDEX = 0 then
          t.store.blocksIndex.del (b.account, b.height)
        else t.store.blocksIndex } := by
  simp only [deleteBlockSuccessor, Process.bind_eq_ok, write_eq_ok] at h
  obtain ⟨_, _, ⟨s₁, hs₁, rfl⟩, h⟩ := h
  obtain ⟨block, hblock, rfl⟩ := Store.blockDel_eq_some hs₁
  obtain rfl := Option.some.inj (hblock.symm.trans hstored)
  cases previous with
  | none =>
      rw [if_neg (not_not.mpr (show block.height = 0 from hstanding)), Process.pure_eq_ok] at h
      exact h.2.symm
  | some p =>
      obtain ⟨hz, hp, -⟩ := hstanding
      rw [if_pos hz, write_eq_ok] at h
      obtain ⟨s₂, hs₂, rfl⟩ := h
      obtain ⟨-, q, hq, rfl⟩ := Store.blockSuccessorSet_eq_some.mp hs₂
      have hqp : q = p := by
        simp only [Transaction.setStore_store, Store.blockGet, Store.withoutBlock,
          Table.get_del] at hq
        split at hq
        · cases hq
        · rw [Store.blockGet, hget] at hp
          exact Option.some.inj (hq.symm.trans hp)
      subst hqp
      rfl

theorem updateAccountInfo_ok (h : updateAccountInfo b info t = .ok u t') :
    t' = t.setStore { t.store with
      accounts := if b.height = 0 then t.store.accounts.del b.account
        else t.store.accounts.put b.account (shortened b info) } := by
  unfold updateAccountInfo at h
  split at h <;> rename_i hz
  · simp only [write_eq_ok, Store.accountInfoDel_eq_some] at h
    obtain ⟨_, ⟨-, -, rfl⟩, rfl⟩ := h
    simp only [hz, if_true]
  · simp only [write_eq_ok, Store.accountInfoPut_eq_some] at h
    obtain ⟨_, ⟨-, rfl⟩, rfl⟩ := h
    simp only [hz, if_false]

theorem deleteRewardableInfo_ok
    (h : deleteRewardableInfo env (passed env b info previous) t = .ok u t') :
    t' = t.setStore { t.store with
      rewardables := match previous.bind (endedReward env b) with
        | none => t.store.rewardables
        | some key => t.store.rewardables.del key } := by
  unfold deleteRewardableInfo passed at h
  cases previous with
  | none =>
      simp only [Option.bind_none, Option.isSome_none, Process.pure_eq_ok] at h
      exact h.2.symm
  | some p =>
      simp only [Option.bind_some] at h ⊢
      unfold endedReward at h ⊢
      split_ifs at h ⊢
      · simp only [Option.isSome_some, write_eq_ok, Store.rewardableInfoDel_eq_some] at h
        obtain ⟨_, ⟨-, -, rfl⟩, rfl⟩ := h
        rfl
      · simp only [Option.isSome_none, Process.pure_eq_ok] at h
        exact h.2.symm

theorem updateRepWeight_eq :
    updateRepWeight b previous t = .ok () (movedBack t t.store b previous) := by
  unfold updateRepWeight movedBack restoredWeights
  split
  · simp only [List.append_nil]
    rfl
  · cases previous <;> simp only [Transaction.repWeightSub, Transaction.repWeightAdd] <;>
      simp <;> rfl

theorem shrink_ok (h : shrink env b (passed env b info previous) t = .ok u t')
    (hstored : t.store.blockGet (env.hash b) = some b) (hstanding : Standing env s b previous)
    (hget : s.blocks = t.store.blocks) :
    t' = movedBack t (shrunkStore env t.store b info previous) b previous := by
  simp only [shrink, putRollbackBlock, Process.bind_eq_ok, write_eq_ok,
    Store.rollbackBlockPut_eq_some] at h
  obtain ⟨_, _, h₁, _, _, ⟨_, ⟨-, rfl⟩, rfl⟩, _, _, h₂, _, _, h₃, h₄⟩ := h
  obtain rfl := deleteBlockSuccessor_ok h₁ hstored hstanding hget
  obtain rfl := updateAccountInfo_ok h₂
  obtain rfl := deleteRewardableInfo_ok h₃
  rw [show (passed env b info previous).previous = previous from rfl, updateRepWeight_eq] at h₄
  cases h₄
  rfl

-- What `rollbackBlock_ok` says of one method.
def Spec (env : Env) (method : Block → TransactionM Unit) (b : Block) : Prop :=
  ∀ {t t' : Transaction} {u : Unit}, method b t = .ok u t' →
    ∃ info previous, RollbackChecks env t.store b info previous ∧ t' = removed env t b info previous

-- The methods that only check and shrink.
theorem spec_of_shrink (hlegal : b.Legal)
    (hop : b.opcode = .change ∨ b.opcode = .credit ∨ b.opcode = .destroy) :
    Spec env (fun b => do
      let checked ← examine fun s => check env s b
      shrink env b checked) b := by
  intro t t' u h
  simp only [Process.bind_eq_ok, examine_eq_ok] at h
  obtain ⟨_, _, ⟨hcheck, rfl⟩, h⟩ := h
  obtain ⟨info, previous, hpassed, rfl⟩ := check_eq_ok.mp hcheck
  refine ⟨info, previous, ⟨hpassed, hlegal, ?_, ?_, ?_, ?_⟩, ?_⟩
  · rcases hop with hop | hop | hop <;> simp [hop]
  · rcases hop with hop | hop | hop <;> simp [hop]
  · rcases hop with hop | hop | hop <;> simp [hop]
  · rcases hop with hop | hop | hop <;> simp [hop]
  · rw [shrink_ok h hpassed.stored hpassed.standing rfl, removed]
    congr 1
    rcases hop with hop | hop | hop <;>
      simp [shrunkStore, removedStore, removedReceivables, removedRewardables, hop]

theorem send_spec (hlegal : b.Legal) (hop : b.opcode = .send) : Spec env (send env) b := by
  intro t t' u h
  simp only [send, checkSend, Process.bind_eq_ok, examine_eq_ok, Except.bind_eq_ok, orReturn_eq_ok,
    Except.pure_eq_ok, write_eq_ok, Store.receivableInfoDel_eq_some] at h
  obtain ⟨_, _, ⟨⟨_, hcheck, receivable, hreceivable, rfl⟩, rfl⟩, _, _, ⟨_, ⟨-, -, rfl⟩, rfl⟩, h⟩ := h
  obtain ⟨info, previous, hpassed, rfl⟩ := check_eq_ok.mp hcheck
  refine ⟨info, previous, ⟨hpassed, hlegal, fun _ => ?_, by simp [hop], by simp [hop],
    by simp [hop]⟩, ?_⟩
  · exact Option.isSome_iff_exists.mpr ⟨receivable, hreceivable⟩
  · rw [shrink_ok h hpassed.stored hpassed.standing rfl]
    simp [removed, movedBack, shrunkStore, removedStore, removedReceivables, removedRewardables, hop]

theorem receive_spec (hlegal : b.Legal) (hop : b.opcode = .receive) :
    Spec env (receive env) b := by
  intro t t' u h
  simp only [receive, checkReceive, Process.bind_eq_ok, examine_eq_ok, Except.bind_eq_ok,
    orReturn_eq_ok, Except.pure_eq_ok, write_eq_ok, Store.receivableInfoPut_eq_some] at h
  obtain ⟨_, _, ⟨⟨_, hcheck, source, hsource, rfl⟩, rfl⟩, _, _, ⟨_, ⟨-, rfl⟩, rfl⟩, h⟩ := h
  obtain ⟨info, previous, hpassed, rfl⟩ := check_eq_ok.mp hcheck
  refine ⟨info, previous, ⟨hpassed, hlegal, by simp [hop], fun _ => ?_, by simp [hop],
    by simp [hop]⟩, ?_⟩
  · exact Option.isSome_iff_exists.mpr ⟨source, hsource⟩
  · rw [shrink_ok h hpassed.stored hpassed.standing rfl]
    simp [removed, movedBack, shrunkStore, removedStore, removedReceivables, removedRewardables,
      passed, hop, hsource]

-- A REWARD block belongs to an account without a representative, and ends no reward itself.
theorem endedReward_of_repBlock (hlegal : b.Legal) (hop : b.opcode = .reward) :
    previous.bind (endedReward env b) = none := by
  have hrep := (Block.representative_of_repBlock (hlegal.repBlock (.inl hop))).1
  cases previous <;> simp [endedReward, hrep]

theorem reward_spec (hlegal : b.Legal) (hop : b.opcode = .reward) :
    Spec env (reward env) b := by
  intro t t' u h
  simp only [reward, checkReward, Process.bind_eq_ok, examine_eq_ok, Except.bind_eq_ok,
    orReturn_eq_ok, Except.pure_eq_ok, write_eq_ok, Store.rewardableInfoPut_eq_some] at h
  obtain ⟨_, _, ⟨⟨_, hcheck, source, hsource, successor, hsuccessor, rfl⟩, rfl⟩,
    _, _, ⟨_, ⟨-, rfl⟩, rfl⟩, h⟩ := h
  obtain ⟨info, previous, hpassed, rfl⟩ := check_eq_ok.mp hcheck
  refine ⟨info, previous, ⟨hpassed, hlegal, by simp [hop], by simp [hop],
    fun _ => ⟨source, successor, hsource, hsuccessor⟩, by simp [hop]⟩, ?_⟩
  rw [shrink_ok h hpassed.stored hpassed.standing rfl]
  simp [removed, movedBack, shrunkStore, removedStore, removedReceivables, removedRewardables,
    restoredReward, endedReward_of_repBlock hlegal hop, passed, hop, hsource, hsuccessor]

theorem bind_spec (hlegal : b.Legal) (hop : b.opcode = .bind) : Spec env (bind env) b := by
  intro t t' u h
  simp only [bind, checkBind, Process.bind_eq_ok, examine_eq_ok, Except.bind_eq_ok,
    orReturn_eq_ok, returnIf_eq_ok, Except.pure_eq_ok, write_eq_ok, Store.bindingDel_eq_some] at h
  obtain ⟨_, _, ⟨⟨_, hcheck, signer, hsigner, count, hcount, _, hne, rfl⟩, rfl⟩,
    _, _, ⟨_, ⟨-, -, rfl⟩, rfl⟩, h⟩ := h
  obtain ⟨info, previous, hpassed, rfl⟩ := check_eq_ok.mp hcheck
  have hcount : t.store.bindingCount.get b.account = some count := hcount
  refine ⟨info, previous, ⟨hpassed, hlegal, by simp [hop], by simp [hop], by simp [hop],
    fun _ => ⟨Option.isSome_iff_exists.mpr ⟨signer, hsigner⟩, count, hcount, hne⟩⟩, ?_⟩
  dsimp only at h
  split at h <;> rename_i hlast
  · simp only [Process.bind_eq_ok, write_eq_ok, Store.bindingCountDel_eq_some] at h
    obtain ⟨_, _, ⟨_, ⟨-, -, rfl⟩, rfl⟩, h⟩ := h
    rw [shrink_ok h hpassed.stored hpassed.standing rfl]
    simp [removed, movedBack, shrunkStore, removedStore, removedReceivables, removedRewardables,
      hop, hcount, hlast]
  · simp only [Process.bind_eq_ok, write_eq_ok, Store.bindingCountPut_eq_some] at h
    obtain ⟨_, _, ⟨_, ⟨-, rfl⟩, rfl⟩, h⟩ := h
    rw [shrink_ok h hpassed.stored hpassed.standing rfl]
    simp [removed, movedBack, shrunkStore, removedStore, removedReceivables, removedRewardables,
      hop, hcount, hlast]

end RollbackBlockVisitor

-- A successful rollback has passed all checks, and its effect is a function of the block.
theorem rollbackBlock_ok {env : Env} {b : Block} {t t' : Transaction} {u : Unit}
    (h : rollbackBlock_ env b t = .ok u t') :
    ∃ info previous, RollbackChecks env t.store b info previous ∧
      t' = removed env t b info previous := by
  unfold rollbackBlock_ at h
  by_cases hlegal : b.Legal
  · rw [Block.visit_legal _ _ hlegal] at h
    cases hop : b.opcode <;> rw [hop] at h
    · cases h
    · exact RollbackBlockVisitor.send_spec hlegal hop h
    · exact RollbackBlockVisitor.receive_spec hlegal hop h
    · exact RollbackBlockVisitor.spec_of_shrink hlegal (.inl hop) h
    · exact RollbackBlockVisitor.spec_of_shrink hlegal (.inr (.inl hop)) h
    · exact RollbackBlockVisitor.reward_spec hlegal hop h
    · exact RollbackBlockVisitor.spec_of_shrink hlegal (.inr (.inr hop)) h
    · exact RollbackBlockVisitor.bind_spec hlegal hop h
  · rw [Block.visit_illegal _ _ hlegal] at h
    cases h

-- The other direction: on a store that refuses no write, the checks are all it takes.
namespace RollbackBlockVisitor

variable {env : Env} {b : Block} {info : AccountInfo} {previous : Option Block} {t : Transaction}

-- The keys that the writes of `shrink` need.
structure Shrinkable (env : Env) (t : Transaction) (b : Block) (previous : Option Block) :
    Prop where
  never : t.fails = StoreCall.never
  stored : t.store.blockGet (env.hash b) = some b
  standing : Standing env t.store b previous
  account : (t.store.accounts.get b.account).isSome
  index : b.height % BLOCKS_PER_INDEX = 0 →
    (t.store.blocksIndex.get (b.account, b.height)).isSome
  previous_ne : b.previous ≠ env.hash b

theorem write_never {f : (StoreCall → Bool) → Store → Option Store} {code : ErrorCode} {s : Store}
    (hfails : t.fails = StoreCall.never) (h : f StoreCall.never t.store = some s) :
    write f code t = .ok () (t.setStore s) :=
  write_eq_ok.mpr ⟨s, hfails ▸ h, rfl⟩

theorem write_then {f : (StoreCall → Bool) → Store → Option Store} {code : ErrorCode} {s : Store}
    {rest : Unit → TransactionM Unit} {result : EStateM.Result ErrorCode Transaction Unit}
    (hfails : t.fails = StoreCall.never) (h : f StoreCall.never t.store = some s)
    (hrest : rest () (t.setStore s) = result) : (write f code >>= rest) t = result :=
  Process.bind_then (write_never hfails h) hrest

theorem deleteBlockSuccessor_never (h : Shrinkable env t b previous) :
    deleteBlockSuccessor env b t = .ok () (t.setStore { t.store with
      blocks := removedBlocks env t.store.blocks b previous
      blocksIndex := if b.height % BLOCKS_PER_INDEX = 0 then
          t.store.blocksIndex.del (b.account, b.height)
        else t.store.blocksIndex }) := by
  unfold deleteBlockSuccessor
  refine write_then h.never (Store.blockDel_never h.stored h.index) ?_
  have hstanding := h.standing
  cases previous with
  | none =>
      rw [if_neg (not_not.mpr (show b.height = 0 from hstanding))]
      rfl
  | some p =>
      obtain ⟨hz, hp, -⟩ := hstanding
      rw [if_pos hz]
      refine write_never h.never (Store.blockSuccessorSet_eq_some.mpr ⟨rfl, p, ?_, rfl⟩)
      simpa [Store.withoutBlock, Store.blockGet, h.previous_ne] using hp

theorem updateAccountInfo_never (hnever : t.fails = StoreCall.never)
    (haccount : (t.store.accounts.get b.account).isSome) :
    updateAccountInfo b info t = .ok () (t.setStore { t.store with
      accounts := if b.height = 0 then t.store.accounts.del b.account
        else t.store.accounts.put b.account (shortened b info) }) := by
  unfold updateAccountInfo
  split
  · exact write_never hnever (Store.accountInfoDel_eq_some.mpr ⟨rfl, haccount, rfl⟩)
  · exact write_never hnever (Store.accountInfoPut_eq_some.mpr ⟨rfl, rfl⟩)

theorem deleteRewardableInfo_never (hnever : t.fails = StoreCall.never)
    (hreward : ∀ p, previous = some p → ∀ key, endedReward env b p = some key →
      (t.store.rewardables.get key).isSome) :
    deleteRewardableInfo env (passed env b info previous) t = .ok () (t.setStore { t.store with
      rewardables := match previous.bind (endedReward env b) with
        | none => t.store.rewardables
        | some key => t.store.rewardables.del key }) := by
  unfold deleteRewardableInfo passed
  cases previous with
  | none => rfl
  | some p =>
      have hkey := hreward p rfl
      simp only [Option.bind_some]
      unfold endedReward at hkey ⊢
      split_ifs at hkey ⊢
      · exact write_never hnever
          (Store.rewardableInfoDel_eq_some.mpr ⟨rfl, hkey _ rfl, rfl⟩)
      · rfl

theorem shrink_never (h : Shrinkable env t b previous) :
    shrink env b (passed env b info previous) t =
      .ok () (movedBack t (shrunkStore env t.store b info previous) b previous) := by
  unfold shrink putRollbackBlock
  refine Process.bind_then (deleteBlockSuccessor_never h) ?_
  refine write_then h.never (Store.rollbackBlockPut_eq_some.mpr ⟨rfl, rfl⟩) ?_
  refine Process.bind_then (updateAccountInfo_never h.never h.account) ?_
  refine Process.bind_then (deleteRewardableInfo_never h.never ?_) updateRepWeight_eq
  rintro p rfl
  exact h.standing.2.2

theorem examine_ok {α : Type} {f : Store → Except ErrorCode α} {value : α}
    (h : f t.store = .ok value) : examine f t = .ok value t :=
  examine_eq_ok.mpr ⟨h, rfl⟩

-- The checks have passed, and no write can fail.
structure Ready (env : Env) (t : Transaction) (b : Block) (info : AccountInfo)
    (previous : Option Block) : Prop where
  checks : RollbackChecks env t.store b info previous
  never : t.fails = StoreCall.never
  index : b.height % BLOCKS_PER_INDEX = 0 →
    (t.store.blocksIndex.get (b.account, b.height)).isSome
  previous_ne : b.previous ≠ env.hash b

theorem Ready.check (h : Ready env t b info previous) :
    RollbackBlockVisitor.check env t.store b = .ok (passed env b info previous) :=
  check_eq_ok.mpr ⟨info, previous, h.checks.toCheckPassed, rfl⟩

-- `shrink` meets a store that differs from the one that was checked at most in the
-- receivables, the rewardables and the bindings.
theorem Ready.shrink (h : Ready env t b info previous) {t' result : Transaction}
    (hfails : t'.fails = t.fails) (haccounts : t'.store.accounts = t.store.accounts)
    (hblocks : t'.store.blocks = t.store.blocks)
    (hblocksIndex : t'.store.blocksIndex = t.store.blocksIndex)
    (hrewardables : ∀ key, (t.store.rewardables.get key).isSome →
      (t'.store.rewardables.get key).isSome)
    (hresult : movedBack t' (shrunkStore env t'.store b info previous) b previous = result) :
    RollbackBlockVisitor.shrink env b (passed env b info previous) t' = .ok () result := by
  have hstanding : Standing env t'.store b previous := by
    have hstanding := h.checks.standing
    cases previous with
    | none => exact hstanding
    | some p =>
        obtain ⟨hz, hp, hreward⟩ := hstanding
        refine ⟨hz, by simpa [Store.blockGet, hblocks] using hp, fun key hkey => ?_⟩
        exact hrewardables key (hreward key hkey)
  rw [← hresult]
  refine shrink_never ⟨hfails.trans h.never, ?_, hstanding, ?_, ?_, h.previous_ne⟩
  · simpa [Store.blockGet, hblocks] using h.checks.stored
  · simp [haccounts, h.checks.info_get]
  · simpa [hblocksIndex] using h.index

theorem plain_never (h : Ready env t b info previous)
    (hop : b.opcode = .change ∨ b.opcode = .credit ∨ b.opcode = .destroy) :
    (do
      let checked ← examine fun s => RollbackBlockVisitor.check env s b
      RollbackBlockVisitor.shrink env b checked : TransactionM Unit) t =
        .ok () (removed env t b info previous) := by
  rw [Process.bind_of_ok (examine_ok h.check)]
  refine h.shrink rfl rfl rfl rfl (fun _ h => h) ?_
  rcases hop with hop | hop | hop <;>
    simp [removed, shrunkStore, removedStore, removedReceivables, removedRewardables, hop]

theorem send_never (h : Ready env t b info previous) (hop : b.opcode = .send) :
    send env b t = .ok () (removed env t b info previous) := by
  obtain ⟨receivable, hreceivable⟩ := Option.isSome_iff_exists.mp (h.checks.send hop)
  have hchecked : checkSend env t.store b = .ok (passed env b info previous) := by
    simp only [checkSend, Except.bind_eq_ok, orReturn_eq_ok, Except.pure_eq_ok]
    exact ⟨_, h.check, receivable, hreceivable, rfl⟩
  unfold send
  rw [Process.bind_of_ok (examine_ok hchecked)]
  refine write_then h.never
    (Store.receivableInfoDel_eq_some.mpr ⟨rfl, h.checks.send hop, rfl⟩) ?_
  refine h.shrink rfl rfl rfl rfl (fun _ h => h) ?_
  simp [removed, movedBack, shrunkStore, removedStore, removedReceivables, removedRewardables, hop]

theorem receive_never (h : Ready env t b info previous) (hop : b.opcode = .receive) :
    receive env b t = .ok () (removed env t b info previous) := by
  obtain ⟨source, hsource⟩ := Option.isSome_iff_exists.mp (h.checks.receive hop)
  have hchecked : checkReceive env t.store b = .ok (passed env b info previous, source) := by
    simp only [checkReceive, Except.bind_eq_ok, orReturn_eq_ok, Except.pure_eq_ok]
    exact ⟨_, h.check, source, hsource, rfl⟩
  unfold receive
  rw [Process.bind_of_ok (examine_ok hchecked)]
  refine write_then h.never (Store.receivableInfoPut_eq_some.mpr ⟨rfl, rfl⟩) ?_
  refine h.shrink rfl rfl rfl rfl (fun _ h => h) ?_
  simp [removed, movedBack, shrunkStore, removedStore, removedReceivables, removedRewardables,
    passed, hop, hsource]

theorem reward_never (h : Ready env t b info previous) (hop : b.opcode = .reward) :
    reward env b t = .ok () (removed env t b info previous) := by
  obtain ⟨source, successor, hsource, hsuccessor⟩ := h.checks.reward hop
  have hchecked : checkReward env t.store b =
      .ok (passed env b info previous, source.block, successor) := by
    simp only [checkReward, Except.bind_eq_ok, orReturn_eq_ok, Except.pure_eq_ok]
    exact ⟨_, h.check, source, hsource, successor, hsuccessor, rfl⟩
  unfold reward
  rw [Process.bind_of_ok (examine_ok hchecked)]
  refine write_then h.never (Store.rewardableInfoPut_eq_some.mpr ⟨rfl, rfl⟩) ?_
  refine h.shrink rfl rfl rfl rfl (fun key hkey => ?_) ?_
  · simp only [Transaction.setStore_store, Table.get_put]
    split
    · rfl
    · exact hkey
  · simp [removed, movedBack, shrunkStore, removedStore, removedReceivables, removedRewardables,
      restoredReward, endedReward_of_repBlock h.checks.legal hop, passed, hop, hsource, hsuccessor]

theorem bind_never (h : Ready env t b info previous) (hop : b.opcode = .bind) :
    RollbackBlockVisitor.bind env b t = .ok () (removed env t b info previous) := by
  obtain ⟨hsigner, count, hcount, hne⟩ := h.checks.bind hop
  obtain ⟨signer, hget⟩ := Option.isSome_iff_exists.mp hsigner
  have hchecked : checkBind env t.store b = .ok (passed env b info previous, count) := by
    simp only [checkBind, Except.bind_eq_ok, orReturn_eq_ok, returnIf_eq_ok, Except.pure_eq_ok]
    exact ⟨_, h.check, signer, hget, count, hcount, (), hne, rfl⟩
  have hsome : (t.store.bindingCount.get b.account).isSome := by rw [hcount]; rfl
  unfold RollbackBlockVisitor.bind
  rw [Process.bind_of_ok (examine_ok hchecked)]
  refine write_then h.never (Store.bindingDel_eq_some.mpr ⟨rfl, hsigner, rfl⟩) ?_
  dsimp only
  split <;> rename_i hlast
  · refine write_then h.never (Store.bindingCountDel_eq_some.mpr ⟨rfl, hsome, rfl⟩) ?_
    refine h.shrink rfl rfl rfl rfl (fun _ h => h) ?_
    simp [removed, movedBack, shrunkStore, removedStore, removedReceivables, removedRewardables,
      hop, hcount, hlast]
  · refine write_then h.never (Store.bindingCountPut_eq_some.mpr ⟨rfl, rfl⟩) ?_
    refine h.shrink rfl rfl rfl rfl (fun _ h => h) ?_
    simp [removed, movedBack, shrunkStore, removedStore, removedReceivables, removedRewardables,
      hop, hcount, hlast]

end RollbackBlockVisitor

theorem Block.Legal.opcode_ne {b : Block} (hlegal : b.Legal) : b.opcode ≠ .invalid := by
  intro hop
  unfold Legal at hlegal
  rw [hop] at hlegal
  cases htype : b.type <;> simp [htype, BlockType.allows] at hlegal

-- On a store that refuses no write, the checks are all that a rollback needs.
theorem rollbackBlock_never {env : Env} {b : Block} {info : AccountInfo} {previous : Option Block}
    {t : Transaction} (h : RollbackBlockVisitor.Ready env t b info previous) :
    rollbackBlock_ env b t = .ok () (removed env t b info previous) := by
  unfold rollbackBlock_
  rw [Block.visit_legal _ _ h.checks.legal]
  cases hop : b.opcode with
  | invalid => exact absurd hop h.checks.legal.opcode_ne
  | send => exact RollbackBlockVisitor.send_never h hop
  | receive => exact RollbackBlockVisitor.receive_never h hop
  | change => exact RollbackBlockVisitor.plain_never h (.inl hop)
  | credit => exact RollbackBlockVisitor.plain_never h (.inr (.inl hop))
  | reward => exact RollbackBlockVisitor.reward_never h hop
  | destroy => exact RollbackBlockVisitor.plain_never h (.inr (.inr hop))
  | bind => exact RollbackBlockVisitor.bind_never h hop

end Raicoin
