import Raicoin.Lattice.Rules
import Raicoin.Node.BlockProcessor.Append

-- What a successful `AppendBlock_` has checked, and what it leaves behind.
namespace Raicoin

open Lib

-- The info and the head of the account, when it exists.
abbrev Position := Option (AccountInfo × Block)

def Position.head (on : Position) : Option Block := on.map Prod.snd

section Checks

variable (env : Env)

structure OnHead (s : Store) (b : Block) (info : AccountInfo) (p : Block) : Prop where
  info_get : s.accounts.get b.account = some info
  head_get : s.blockGet info.head = some p
  height : b.height = info.headHeight + 1
  type : b.type = info.type
  previous : b.previous = info.head
  timestamp : p.timestamp ≤ b.timestamp

structure ChainRule (p b : Block) : Prop where
  credit : if b.opcode = .credit then p.credit < b.credit else b.credit = p.credit
  counter : if b.opcode = .reward then CounterSame p b else CounterIncrease p b
  representative : b.opcode ≠ .change → b.hasRepresentative = true →
    p.representative = b.representative
  balance : BalanceRule env p b

def Placed (s : Store) (b : Block) : Position → Prop
  | none => AppendBlockVisitor.accountInfo s b = none ∧ Opens b
  | some (info, p) => OnHead s b info p ∧ ChainRule env p b

structure AppendChecks (now : Nat) (s : Store) (b : Block) (on : Position) : Prop where
  legal : b.Legal
  signature : env.checkSignature b = false
  epoch_le : epochTimestamp env.network ≤ b.timestamp
  timestamp_le : b.timestamp ≤ (now + MAX_TIMESTAMP_DIFF) % 2 ^ 64
  fresh : s.blocks.get (env.hash b) = none
  placed : Placed env s b on
  receive : b.opcode = .receive → ∃ info source,
    s.receivables.get (b.account, b.link) = some info ∧ s.blockGet b.link = some source ∧
      source.timestamp ≤ b.timestamp ∧ earned env on.head b = info.amount.toNat
  reward : b.opcode = .reward → ∃ info source,
    s.rewardables.get (b.account, b.link) = some info ∧ s.blockGet b.link = some source ∧
      source.timestamp ≤ b.timestamp ∧ info.validTimestamp ≤ b.timestamp ∧
      earned env on.head b = info.amount.toNat

end Checks

section Effects

variable (env : Env)

def appendedInfo (b : Block) : Position → AccountInfo
  | none => .first b.type (env.hash b)
  | some (info, _) => { info with headHeight := b.height, head := env.hash b }

def appendedBlocks (blocks : Table BlockHash StoredBlock) (b : Block) :
    Option Block → Table BlockHash StoredBlock
  | none => blocks.put (env.hash b) ⟨b, 0⟩
  | some p => (blocks.put (env.hash b) ⟨b, 0⟩).put b.previous ⟨p, env.hash b⟩

def appendedIndex (index : Table (Account × Nat) BlockHash) (b : Block) :
    Table (Account × Nat) BlockHash :=
  if b.height % BLOCKS_PER_INDEX = 0 then index.put (b.account, b.height) (env.hash b) else index

def appendedReceivables (receivables : Table (Account × BlockHash) ReceivableInfo) (b : Block)
    (previous : Option Block) : Table (Account × BlockHash) ReceivableInfo :=
  match b.opcode, previous with
  | .send, some p =>
    receivables.put (b.link, env.hash b) ⟨b.account, p.balance - b.balance, b.timestamp⟩
  | .receive, _ => receivables.del (b.account, b.link)
  | _, _ => receivables

-- The reward for the time that `b` ends, if there is one.
def yieldedReward (p b : Block) : Option ((Account × BlockHash) × RewardableInfo) :=
  if p.hasRepresentative = true ∧
      rewardAmount env.network p.balance p.timestamp b.timestamp ≠ 0 then
    some ((p.representative, env.hash p),
      ⟨p.account, rewardAmount env.network p.balance p.timestamp b.timestamp,
        rewardTimestamp env.network p.timestamp b.timestamp⟩)
  else none

def appendedRewardables (rewardables : Table (Account × BlockHash) RewardableInfo) (b : Block)
    (previous : Option Block) : Table (Account × BlockHash) RewardableInfo :=
  if b.opcode = .reward then rewardables.del (b.account, b.link)
  else
    match previous.bind fun p => yieldedReward env p b with
    | none => rewardables
    | some (key, info) => rewardables.put key info

def appendedStore (s : Store) (b : Block) (on : Position) : Store where
  accounts := s.accounts.put b.account (appendedInfo env b on)
  blocks := appendedBlocks env s.blocks b on.head
  blocksIndex := appendedIndex env s.blocksIndex b
  receivables := appendedReceivables env s.receivables b on.head
  rewardables := appendedRewardables env s.rewardables b on.head
  rollbacks := s.rollbacks
  bindingCount := if b.opcode = .bind then
      s.bindingCount.put b.account ((s.bindingCount.get b.account).getD 0 + 1)
    else s.bindingCount
  bindingEntries := if b.opcode = .bind then
      s.bindingEntries.put ⟨b.account, b.chain, b.height⟩ b.link
    else s.bindingEntries

-- The weights that a head on top of `previous` moves.
def movedWeights (b : Block) (previous : Option Block) : List RepWeightOpration :=
  if b.hasRepresentative = false then []
  else
    match previous with
    | none => [⟨true, b.representative, b.balance⟩]
    | some p => [⟨false, p.representative, p.balance⟩, ⟨true, b.representative, b.balance⟩]

-- A transaction with its store replaced, after its weights and lists followed the
-- head of an account from `previous` to `b`.
def moved (t : Transaction) (s : Store) (b : Block) (previous : Option Block) : Transaction where
  ledger := (({ t.ledger with store := s } : Ledger).updateRichList b).updateDelegatorList b
  fails := t.fails
  repWeightOperations := t.repWeightOperations ++ movedWeights b previous

def appended (t : Transaction) (b : Block) (on : Position) : Transaction :=
  moved t (appendedStore env t.store b on) b on.head

end Effects

namespace AppendBlockVisitor

variable {env : Env} {now : Nat} {s : Store} {b p : Block} {info : AccountInfo}

theorem checkCommon_ok {u : Unit} (h : checkCommon env now s b = .ok u) :
    env.checkSignature b = false ∧ epochTimestamp env.network ≤ b.timestamp ∧
      b.timestamp ≤ (now + MAX_TIMESTAMP_DIFF) % 2 ^ 64 ∧ s.blocks.get (env.hash b) = none := by
  simp only [checkCommon, Except.bind_eq_ok, returnIf_eq_ok] at h
  obtain ⟨-, -, -, hsignature, -, htime, hexists⟩ := h
  refine ⟨by simpa using hsignature, by omega, by omega, ?_⟩
  simpa [Store.blockExists, Table.contains] using hexists

theorem checkFirstCommon_ok {u : Unit} (h : checkFirstCommon b = .ok u) :
    b.height = 0 ∧ b.credit ≠ 0 ∧ b.previous = 0 := by
  simp only [checkFirstCommon, Except.bind_eq_ok, returnIf_eq_ok, Decidable.not_not] at h
  obtain ⟨-, hheight, -, hcredit, hprevious⟩ := h
  exact ⟨hheight, hcredit, hprevious⟩

theorem accountInfo_eq_some (h : accountInfo s b = some info) :
    s.accounts.get b.account = some info ∧ info.valid = true := by
  simpa [accountInfo, Store.accountInfoGet, Option.filter_eq_some_iff] using h

theorem checkHead_ok (hinfo : accountInfo s b = some info) (h : checkHead s b info = .ok p) :
    OnHead s b info p := by
  simp only [checkHead, checkSuccessorCommon, Except.bind_eq_ok, returnIf_eq_ok, orReturn_eq_ok,
    Except.pure_eq_ok, Decidable.not_not] at h
  obtain ⟨q, hq, -, ⟨-, -, -, hfork, -, hgap, -, htype, -, hprevious, htime⟩, rfl⟩ := h
  have hlt := b.height_lt
  exact ⟨(accountInfo_eq_some hinfo).1, hq, by omega, htype, hprevious, by omega⟩

theorem checkOpened_ok (h : checkOpened env now s b = .ok (info, p)) :
    env.checkSignature b = false ∧ epochTimestamp env.network ≤ b.timestamp ∧
      b.timestamp ≤ (now + MAX_TIMESTAMP_DIFF) % 2 ^ 64 ∧ s.blocks.get (env.hash b) = none ∧
      OnHead s b info p := by
  rw [checkOpened, Except.bind_eq_ok] at h
  obtain ⟨_, hcommon, h⟩ := h
  obtain ⟨hsignature, hepoch, htime, hfresh⟩ := checkCommon_ok hcommon
  cases hinfo : accountInfo s b with
  | none =>
      rw [hinfo] at h
      dsimp only at h
      split at h <;> cases h
  | some info' =>
      rw [hinfo] at h
      simp only [Except.bind_eq_ok, Except.pure_eq_ok, Prod.mk.injEq] at h
      obtain ⟨q, hq, rfl, rfl⟩ := h
      exact ⟨hsignature, hepoch, htime, hfresh, checkHead_ok hinfo hq⟩

theorem checkCounterSame_ok {u : Unit} (h : checkCounterSame p b = .ok u) : CounterSame p b := by
  unfold checkCounterSame at h
  unfold CounterSame
  split_ifs at h ⊢ <;> simpa using h

theorem checkCounterIncrease_ok {u : Unit} (h : checkCounterIncrease p b = .ok u) :
    CounterIncrease p b := by
  unfold checkCounterIncrease at h
  unfold CounterIncrease
  split_ifs at h ⊢
  · simp only [Except.bind_eq_ok, returnIf_eq_ok, Decidable.not_not] at h
    obtain ⟨-, hcounter, hle⟩ := h
    exact ⟨hcounter, by omega⟩
  · simpa using h

theorem checkRepresentativeSame_ok {u : Unit} (h : checkRepresentativeSame p b = .ok u) :
    b.hasRepresentative = true → p.representative = b.representative := by
  simpa [checkRepresentativeSame] using h

end AppendBlockVisitor

section Moved

variable (t : Transaction) (s s' : Store) (b : Block) (previous : Option Block)

theorem moved_eq : moved t s b previous =
    { ((t.setStore s).updateRichList b).updateDelegatorList b with
      repWeightOperations := t.repWeightOperations ++ movedWeights b previous } := rfl

@[simp] theorem moved_setStore : (moved t s b previous).setStore s' = moved t s' b previous := by
  have h := (((t.setStore s).updateRichList b).setStore_updateDelegatorList s' b)
  simp only [Transaction.setStore_updateRichList, Transaction.setStore_setStore] at h
  rw [moved_eq, moved_eq, ← h]
  rfl

@[simp] theorem moved_store : (moved t s b previous).store = s := by
  change (((t.setStore s).updateRichList b).updateDelegatorList b).store = s
  simp

@[simp] theorem moved_fails : (moved t s b previous).fails = t.fails := rfl

-- Blocks without a representative move no weights.
theorem moved_of_none (h : b.hasRepresentative = false) :
    moved t s b previous = (t.setStore s).updateRichList b := by
  simp [moved_eq, movedWeights, Transaction.updateDelegatorList, Ledger.updateDelegatorList, h]
  rfl

end Moved

namespace AppendBlockVisitor

variable {env : Env} {t t' : Transaction} {b p : Block} {info : AccountInfo} {u : Unit}

-- The tables that every method writes when the account exists.
def extendedStore (env : Env) (s : Store) (b : Block) (info : AccountInfo) (p : Block) : Store :=
  { s with
    accounts := s.accounts.put b.account (appendedInfo env b (some (info, p)))
    blocks := appendedBlocks env s.blocks b (some p)
    blocksIndex := appendedIndex env s.blocksIndex b
    rewardables := match yieldedReward env p b with
      | none => s.rewardables
      | some (key, info) => s.rewardables.put key info }

theorem putBlockSuccessor_ok (h : putBlockSuccessor env b t = .ok u t')
    (hp : t.store.blockGet b.previous = some p) (hfresh : t.store.blocks.get (env.hash b) = none) :
    t' = t.setStore { t.store with
      blocks := appendedBlocks env t.store.blocks b (some p)
      blocksIndex := appendedIndex env t.store.blocksIndex b } := by
  have hne : b.previous ≠ env.hash b := by
    intro he
    simp [Store.blockGet, he, hfresh] at hp
  simp only [putBlockSuccessor, Process.bind_eq_ok, write_eq_ok] at h
  obtain ⟨_, t₁, ⟨s₁, hs₁, rfl⟩, s₂, hs₂, rfl⟩ := h
  obtain rfl := Store.blockPut_eq_some hs₁
  obtain ⟨-, block, hget, rfl⟩ := Store.blockSuccessorSet_eq_some.mp hs₂
  have hblock : block = p := by
    simp only [Transaction.setStore_store, Store.blockGet, Store.withBlock, Table.get_put, hne,
      if_false] at hget hp
    exact Option.some.inj (hget.symm.trans hp)
  subst hblock
  rfl

theorem updateRepInfo_ok {s : Store}
    (h : updateRepInfo p b ((t.setStore s).updateRichList b) = .ok u t') :
    t' = moved t s b (some p) := by
  unfold updateRepInfo at h
  split at h
  · rename_i hrep
    simp only [Process.pure_eq_ok] at h
    rw [moved_of_none t s b (some p) hrep, h.2]
  · rename_i hrep
    simp only [Process.modify_eq_ok] at h
    rw [← h, moved_eq]
    simp only [Transaction.repWeightAdd, Transaction.repWeightSub, Transaction.updateDelegatorList,
      movedWeights, hrep]
    simp [Transaction.updateRichList, Transaction.setStore]

theorem putRewardableInfo_ok (h : putRewardableInfo env p b t = .ok u t') :
    t' = t.setStore { t.store with
      rewardables := match yieldedReward env p b with
        | none => t.store.rewardables
        | some (key, info) => t.store.rewardables.put key info } := by
  unfold putRewardableInfo at h
  unfold yieldedReward
  split at h
  · rename_i hrep
    simp only [Process.pure_eq_ok] at h
    simp only [hrep, Bool.false_eq_true, false_and, if_false, ← h.2]
    rfl
  · rename_i hrep
    simp only [Bool.not_eq_false] at hrep
    dsimp only at h
    split at h
    · rename_i hne
      simp only [write_eq_ok, Store.rewardableInfoPut_eq_some] at h
      obtain ⟨s, ⟨-, rfl⟩, rfl⟩ := h
      simp only [hrep, hne.1, ne_eq, not_false_eq_true, and_self, if_true]
    · rename_i hne
      -- an amount always comes with a time, so only the amount can be missing
      have hz : rewardAmount env.network p.balance p.timestamp b.timestamp = 0 := by
        by_contra hz
        exact hne ⟨hz, rewardTimestamp_ne_zero hz⟩
      simp only [Process.pure_eq_ok] at h
      simp only [hz, ne_eq, not_true_eq_false, and_false, if_false, ← h.2]
      rfl

theorem extend_ok (h : extend env b info p t = .ok u t')
    (hp : t.store.blockGet b.previous = some p) (hfresh : t.store.blocks.get (env.hash b) = none) :
    t' = moved t (extendedStore env t.store b info p) b (some p) := by
  simp only [extend, updateAccountInfo, Process.bind_eq_ok, write_eq_ok, Process.modify_eq_ok] at h
  obtain ⟨_, t₁, h₁, _, t₂, ⟨_, t₃, ⟨s, hs, rfl⟩, rfl⟩, _, t₄, h₄, h₅⟩ := h
  obtain rfl := putBlockSuccessor_ok h₁ hp hfresh
  obtain ⟨-, rfl⟩ := Store.accountInfoPut_eq_some.mp hs
  obtain rfl := updateRepInfo_ok (t := t) h₄
  obtain rfl := putRewardableInfo_ok h₅
  simp only [moved_setStore, moved_store]
  rfl

variable {now : Nat}

theorem appendChecks_of_opened {s : Store} (hlegal : b.Legal)
    (hopened : checkOpened env now s b = .ok (info, p)) (hrule : ChainRule env p b)
    (hop : b.opcode ≠ .receive ∧ b.opcode ≠ .reward) :
    AppendChecks env now s b (some (info, p)) := by
  obtain ⟨hsignature, hepoch, htime, hfresh, hhead⟩ := checkOpened_ok hopened
  exact ⟨hlegal, hsignature, hepoch, htime, hfresh, ⟨hhead, hrule⟩,
    fun h => absurd h hop.1, fun h => absurd h hop.2⟩

-- The tests of SEND are also those of DESTROY.
theorem checkSend_ok {s : Store} (hlegal : b.Legal) (hop : b.opcode = .send ∨ b.opcode = .destroy)
    (h : checkSend env now s b = .ok (info, p)) : AppendChecks env now s b (some (info, p)) := by
  simp only [checkSend, Except.bind_eq_ok, returnIf_eq_ok, Except.pure_eq_ok,
    Decidable.not_not] at h
  obtain ⟨⟨info', q⟩, hopened, _, hcredit, _, hcounter, _, hrep, _, hbalance, heq⟩ := h
  obtain ⟨rfl, rfl⟩ := Prod.mk.inj heq
  refine appendChecks_of_opened hlegal hopened ?_ (by rcases hop with hop | hop <;> simp [hop])
  refine ⟨?_, ?_, fun _ => checkRepresentativeSame_ok hrep, ?_⟩
  · rcases hop with hop | hop <;> simpa [hop] using hcredit
  · rcases hop with hop | hop <;> simpa [hop] using checkCounterIncrease_ok hcounter
  · have hlt : b.balance.toNat < q.balance.toNat := by simpa [BitVec.le_def] using hbalance
    rcases hop with hop | hop <;> simpa [BalanceRule, hop] using hlt

theorem checkChange_ok {s : Store} (hlegal : b.Legal) (hop : b.opcode = .change)
    (h : checkChange env now s b = .ok (info, p)) : AppendChecks env now s b (some (info, p)) := by
  simp only [checkChange, Except.bind_eq_ok, returnIf_eq_ok, Except.pure_eq_ok,
    Decidable.not_not] at h
  obtain ⟨⟨info', q⟩, hopened, _, hcredit, _, hcounter, _, hbalance, _, -, heq⟩ := h
  obtain ⟨rfl, rfl⟩ := Prod.mk.inj heq
  refine appendChecks_of_opened hlegal hopened ⟨?_, ?_, fun hne => absurd hop hne, ?_⟩
    (by simp [hop])
  · simpa [hop] using hcredit
  · simpa [hop] using checkCounterIncrease_ok hcounter
  · simpa [BalanceRule, hop] using hbalance

theorem checkCredit_ok {s : Store} (hlegal : b.Legal) (hop : b.opcode = .credit)
    (h : checkCredit env now s b = .ok (info, p)) : AppendChecks env now s b (some (info, p)) := by
  simp only [checkCredit, Except.bind_eq_ok, returnIf_eq_ok, Except.pure_eq_ok,
    Decidable.not_not, Nat.not_le] at h
  obtain ⟨⟨info', q⟩, hopened, _, hcredit, _, hcounter, _, hrep, _, hbalance, _, -, heq⟩ := h
  obtain ⟨rfl, rfl⟩ := Prod.mk.inj heq
  refine appendChecks_of_opened hlegal hopened
    ⟨?_, ?_, fun _ => checkRepresentativeSame_ok hrep, ?_⟩ (by simp [hop])
  · simpa [hop] using hcredit
  · simpa [hop] using checkCounterIncrease_ok hcounter
  · simpa [BalanceRule, hop] using hbalance

theorem checkBind_ok {s : Store} {count : Nat} (hlegal : b.Legal) (hop : b.opcode = .bind)
    (h : checkBind env now s b = .ok (info, p, count)) :
    AppendChecks env now s b (some (info, p)) ∧ count = (s.bindingCount.get b.account).getD 0 := by
  simp only [checkBind, Except.bind_eq_ok, returnIf_eq_ok, Decidable.not_not] at h
  obtain ⟨⟨info', q⟩, hopened, _, hcredit, _, hcounter, _, hbalance, _, -, hcount⟩ := h
  have hrep := (Block.representative_of_repBlock (hlegal.repBlock (.inr hop))).1
  have heq : info' = info ∧ q = p ∧ count = (s.bindingCount.get b.account).getD 0 := by
    unfold Store.bindingCountGet at hcount
    cases hget : s.bindingCount.get b.account with
    | none =>
        simp only [hget, Except.pure_eq_ok, Prod.mk.injEq] at hcount
        simp [hcount]
    | some n =>
        simp only [hget, Except.bind_eq_ok, Except.pure_eq_ok, Prod.mk.injEq] at hcount
        obtain ⟨_, -, hinfo, hq, hn⟩ := hcount
        simp [hinfo, hq, hn]
  obtain ⟨rfl, rfl, hgetD⟩ := heq
  refine ⟨appendChecks_of_opened hlegal hopened ⟨?_, ?_, fun _ h => ?_, ?_⟩ (by simp [hop]), hgetD⟩
  · simpa [hop] using hcredit
  · simpa [hop] using checkCounterIncrease_ok hcounter
  · rw [hrep] at h
    cases h
  · simpa [BalanceRule, hop] using hbalance

theorem checkReceiveFirst_ok {s : Store} (h : checkReceiveFirst env s b = .ok u)
    (hop : b.opcode = .receive) :
    Opens b ∧ ∃ info source,
      s.receivables.get (b.account, b.link) = some info ∧ s.blockGet b.link = some source ∧
        source.timestamp ≤ b.timestamp ∧ earned env none b = info.amount.toNat := by
  simp only [checkReceiveFirst, Except.bind_eq_ok, returnIf_eq_ok, orReturn_eq_ok,
    Decidable.not_not, Nat.not_lt] at h
  obtain ⟨_, hfirst, _, hcounter, source, hsource, _, htime, info, hinfo, hamount⟩ := h
  obtain ⟨hheight, hcredit, hprevious⟩ := checkFirstCommon_ok hfirst
  exact ⟨⟨hheight, .inl hop, hprevious, hcredit, by simpa [hop] using hcounter⟩,
    info, source, hinfo, hsource, htime, hamount.symm⟩

theorem checkRewardFirst_ok {s : Store} (h : checkRewardFirst env s b = .ok u)
    (hop : b.opcode = .reward) :
    Opens b ∧ ∃ info source,
      s.rewardables.get (b.account, b.link) = some info ∧ s.blockGet b.link = some source ∧
        source.timestamp ≤ b.timestamp ∧ info.validTimestamp ≤ b.timestamp ∧
        earned env none b = info.amount.toNat := by
  simp only [checkRewardFirst, Except.bind_eq_ok, returnIf_eq_ok, orReturn_eq_ok,
    Decidable.not_not, Nat.not_lt] at h
  obtain ⟨_, hfirst, _, hcounter, source, hsource, _, htime, info, hinfo, _, hvalid, hamount⟩ := h
  obtain ⟨hheight, hcredit, hprevious⟩ := checkFirstCommon_ok hfirst
  exact ⟨⟨hheight, .inr hop, hprevious, hcredit, by simpa [hop] using hcounter⟩,
    info, source, hinfo, hsource, htime, hvalid, hamount.symm⟩

-- The difference of two balances is taken in 128 bits but cannot wrap here.
theorem earned_some {amount : Amount} (hlt : p.balance < b.balance)
    (hamount : amount = b.balance - p.balance) : earned env (some p) b = amount.toNat := by
  rw [hamount, earned, BitVec.toNat_sub_of_le (BitVec.le_of_lt hlt)]

theorem checkReceive_ok {s : Store} (hinfo : accountInfo s b = some info)
    (h : checkReceive s b info = .ok p) (hop : b.opcode = .receive) :
    OnHead s b info p ∧ ChainRule env p b ∧ ∃ info source,
      s.receivables.get (b.account, b.link) = some info ∧ s.blockGet b.link = some source ∧
        source.timestamp ≤ b.timestamp ∧ earned env (some p) b = info.amount.toNat := by
  simp only [checkReceive, Except.bind_eq_ok, returnIf_eq_ok, orReturn_eq_ok, Except.pure_eq_ok,
    Decidable.not_not, Nat.not_lt, BitVec.not_le] at h
  obtain ⟨q, hhead, _, hcredit, _, hcounter, _, hrep, source, hsource, _, htime, _, hlt,
    receivable, hreceivable, _, hamount, rfl⟩ := h
  refine ⟨checkHead_ok hinfo hhead, ⟨?_, ?_, fun _ => checkRepresentativeSame_ok hrep, ?_⟩,
    receivable, source, hreceivable, hsource, htime, earned_some hlt hamount⟩
  · simpa [hop] using hcredit
  · simpa [hop] using checkCounterIncrease_ok hcounter
  · simpa [BalanceRule, hop, BitVec.lt_def] using hlt

theorem checkReward_ok {s : Store} (hlegal : b.Legal) (hinfo : accountInfo s b = some info)
    (h : checkReward s b info = .ok p) (hop : b.opcode = .reward) :
    OnHead s b info p ∧ ChainRule env p b ∧ ∃ info source,
      s.rewardables.get (b.account, b.link) = some info ∧ s.blockGet b.link = some source ∧
        source.timestamp ≤ b.timestamp ∧ info.validTimestamp ≤ b.timestamp ∧
        earned env (some p) b = info.amount.toNat := by
  simp only [checkReward, Except.bind_eq_ok, returnIf_eq_ok, orReturn_eq_ok, Except.pure_eq_ok,
    Decidable.not_not, Nat.not_lt, BitVec.not_le] at h
  obtain ⟨q, hhead, _, hcredit, _, hcounter, source, hsource, _, htime, _, hlt,
    rewardable, hrewardable, _, hvalid, _, hamount, rfl⟩ := h
  have hrep := (Block.representative_of_repBlock (hlegal.repBlock (.inl hop))).1
  refine ⟨checkHead_ok hinfo hhead, ⟨?_, ?_, fun _ h => ?_, ?_⟩,
    rewardable, source, hrewardable, hsource, htime, hvalid, earned_some hlt hamount⟩
  · simpa [hop] using hcredit
  · simpa [hop] using checkCounterSame_ok hcounter
  · rw [hrep] at h
    cases h
  · simpa [BalanceRule, hop, BitVec.lt_def] using hlt

-- What `appendBlock_ok` says of one method.
def Spec (env : Env) (now : Nat) (method : Block → TransactionM Unit) (b : Block) : Prop :=
  ∀ {t t' : Transaction} {u : Unit}, method b t = .ok u t' →
    ∃ on, AppendChecks env now t.store b on ∧ t' = appended env t b on

-- The methods that only check and extend.
theorem spec_of_extend (check : Store → Block → Except ErrorCode (AccountInfo × Block))
    (hcheck : ∀ {s info p}, check s b = .ok (info, p) → AppendChecks env now s b (some (info, p)))
    (hop : b.opcode = .change ∨ b.opcode = .credit ∨ b.opcode = .destroy) :
    Spec env now (fun b => do
      let (info, headBlock) ← examine fun s => check s b
      extend env b info headBlock) b := by
  intro t t' u h
  simp only [Process.bind_eq_ok, examine_eq_ok] at h
  obtain ⟨⟨info, p⟩, _, ⟨hok, rfl⟩, h⟩ := h
  have hchecks := hcheck hok
  refine ⟨some (info, p), hchecks, ?_⟩
  obtain ⟨hhead, -⟩ := hchecks.placed
  rw [extend_ok h (hhead.previous ▸ hhead.head_get) hchecks.fresh]
  unfold appended
  congr 1
  rcases hop with hop | hop | hop <;>
    simp [extendedStore, appendedStore, appendedReceivables, appendedRewardables, Position.head, hop]

theorem send_spec (hlegal : b.Legal) (hop : b.opcode = .send) : Spec env now (send env now) b := by
  intro t t' u h
  simp only [send, Process.bind_eq_ok, examine_eq_ok, write_eq_ok,
    Store.receivableInfoPut_eq_some] at h
  obtain ⟨⟨info, p⟩, _, ⟨hok, rfl⟩, _, t₁, h, s, ⟨-, rfl⟩, rfl⟩ := h
  have hchecks := checkSend_ok hlegal (.inl hop) hok
  refine ⟨some (info, p), hchecks, ?_⟩
  obtain ⟨hhead, -⟩ := hchecks.placed
  rw [extend_ok h (hhead.previous ▸ hhead.head_get) hchecks.fresh]
  simp [appended, extendedStore, appendedStore, appendedReceivables, appendedRewardables,
    Position.head, hop]

theorem change_spec (hlegal : b.Legal) (hop : b.opcode = .change) :
    Spec env now (change env now) b :=
  spec_of_extend (checkChange env now) (checkChange_ok hlegal hop) (.inl hop)

theorem credit_spec (hlegal : b.Legal) (hop : b.opcode = .credit) :
    Spec env now (credit env now) b :=
  spec_of_extend (checkCredit env now) (checkCredit_ok hlegal hop) (.inr (.inl hop))

theorem destroy_spec (hlegal : b.Legal) (hop : b.opcode = .destroy) :
    Spec env now (destroy env now) b :=
  spec_of_extend (checkDestroy env now) (checkSend_ok hlegal (.inr hop))
    (.inr (.inr hop))

theorem bind_spec (hlegal : b.Legal) (hop : b.opcode = .bind) : Spec env now (bind env now) b := by
  intro t t' u h
  simp only [bind, Process.bind_eq_ok, examine_eq_ok, write_eq_ok, Store.bindingPut_eq_some,
    Store.bindingCountPut_eq_some] at h
  obtain ⟨⟨info, p, count⟩, _, ⟨hok, rfl⟩, _, _, ⟨s, ⟨-, rfl⟩, rfl⟩, _, _, ⟨s, ⟨-, rfl⟩, rfl⟩, h⟩ := h
  obtain ⟨hchecks, rfl⟩ := checkBind_ok hlegal hop hok
  refine ⟨some (info, p), hchecks, ?_⟩
  obtain ⟨hhead, -⟩ := hchecks.placed
  rw [extend_ok h (hhead.previous ▸ hhead.head_get) hchecks.fresh]
  simp [appended, moved_eq, extendedStore, appendedStore, appendedReceivables, appendedRewardables,
    Position.head, hop]

theorem openRepInfo_ok {s : Store}
    (h : openRepInfo b ((t.setStore s).updateRichList b) = .ok u t') :
    t' = moved t s b none := by
  unfold openRepInfo at h
  split at h
  · rename_i hrep
    simp only [Process.modify_eq_ok] at h
    rw [← h, moved_eq]
    simp [movedWeights, hrep, Transaction.repWeightAdd, Transaction.updateDelegatorList,
      Transaction.updateRichList, Transaction.setStore]
  · rename_i hrep
    simp only [Process.pure_eq_ok] at h
    rw [moved_of_none t s b none (by simpa using hrep), h.2]

theorem receiveFirst_checks {s : Store} {v : Unit} (hlegal : b.Legal) (hop : b.opcode = .receive)
    (hcommon : checkCommon env now s b = .ok u) (hinfo : accountInfo s b = none)
    (hfirst : checkReceiveFirst env s b = .ok v) : AppendChecks env now s b none := by
  obtain ⟨hsignature, hepoch, htime, hfresh⟩ := checkCommon_ok hcommon
  obtain ⟨hopens, hreceive⟩ := checkReceiveFirst_ok hfirst hop
  exact ⟨hlegal, hsignature, hepoch, htime, hfresh, ⟨hinfo, hopens⟩, fun _ => hreceive,
    fun h => by simp [hop] at h⟩

theorem receive_checks {s : Store} (hlegal : b.Legal) (hop : b.opcode = .receive)
    (hcommon : checkCommon env now s b = .ok u) (hinfo : accountInfo s b = some info)
    (hok : checkReceive s b info = .ok p) : AppendChecks env now s b (some (info, p)) := by
  obtain ⟨hsignature, hepoch, htime, hfresh⟩ := checkCommon_ok hcommon
  obtain ⟨hhead, hrule, hreceive⟩ := checkReceive_ok hinfo hok hop
  exact ⟨hlegal, hsignature, hepoch, htime, hfresh, ⟨hhead, hrule⟩, fun _ => hreceive,
    fun h => by simp [hop] at h⟩

theorem receive_spec (hlegal : b.Legal) (hop : b.opcode = .receive) :
    Spec env now (receive env now) b := by
  intro t t' u h
  simp only [receive, Process.bind_eq_ok, examine_eq_ok, Except.bind_eq_ok, Except.pure_eq_ok] at h
  obtain ⟨_, _, ⟨⟨_, hcommon, rfl⟩, rfl⟩, h⟩ := h
  cases hinfo : accountInfo t.store b with
  | none =>
      simp only [hinfo, Process.bind_eq_ok, examine_eq_ok, write_eq_ok, Process.modify_eq_ok,
        Store.accountInfoPut_eq_some, Store.receivableInfoDel_eq_some] at h
      obtain ⟨_, _, ⟨hfirst, rfl⟩, _, _, ⟨s₁, hs₁, rfl⟩, _, _, ⟨s₂, ⟨-, rfl⟩, rfl⟩, _, _, rfl,
        _, _, hweight, s₃, ⟨-, -, rfl⟩, rfl⟩ := h
      refine ⟨none, receiveFirst_checks hlegal hop hcommon hinfo hfirst, ?_⟩
      obtain rfl := Store.blockPut_eq_some hs₁
      obtain rfl := openRepInfo_ok (t := t) hweight
      simp [appended, appendedStore, appendedReceivables, appendedRewardables, appendedInfo,
        appendedBlocks, appendedIndex, Store.withBlock, Position.head, hop]
  | some info =>
      simp only [hinfo, Process.bind_eq_ok, examine_eq_ok, write_eq_ok,
        Store.receivableInfoDel_eq_some] at h
      obtain ⟨p, _, ⟨hok, rfl⟩, _, _, h, s, ⟨-, -, rfl⟩, rfl⟩ := h
      have hchecks := receive_checks hlegal hop hcommon hinfo hok
      refine ⟨some (info, p), hchecks, ?_⟩
      obtain ⟨hhead, -⟩ := hchecks.placed
      rw [extend_ok h (hhead.previous ▸ hhead.head_get) hchecks.fresh]
      simp [appended, extendedStore, appendedStore, appendedReceivables, appendedRewardables,
        Position.head, hop]

theorem reward_spec (hlegal : b.Legal) (hop : b.opcode = .reward) :
    Spec env now (reward env now) b := by
  intro t t' u h
  have hrepBlock := hlegal.repBlock (.inl hop)
  have hrep := (Block.representative_of_repBlock hrepBlock).1
  simp only [reward, Process.bind_eq_ok, examine_eq_ok, Except.bind_eq_ok, Except.pure_eq_ok] at h
  obtain ⟨_, _, ⟨⟨_, hcommon, rfl⟩, rfl⟩, h⟩ := h
  obtain ⟨hsignature, hepoch, htime, hfresh⟩ := checkCommon_ok hcommon
  cases hinfo : accountInfo t.store b with
  | none =>
      simp only [hinfo, Process.bind_eq_ok, examine_eq_ok, write_eq_ok,
        Store.accountInfoPut_eq_some, Store.rewardableInfoDel_eq_some] at h
      obtain ⟨_, _, ⟨hfirst, rfl⟩, _, _, ⟨s₁, hs₁, rfl⟩, _, _, ⟨s₂, ⟨-, rfl⟩, rfl⟩,
        s₃, ⟨-, -, rfl⟩, rfl⟩ := h
      obtain ⟨hopens, hreward⟩ := checkRewardFirst_ok hfirst hop
      refine ⟨none, ⟨hlegal, hsignature, hepoch, htime, hfresh, ⟨hinfo, hopens⟩,
        fun h => by simp [hop] at h, fun _ => hreward⟩, ?_⟩
      obtain rfl := Store.blockPut_eq_some hs₁
      rw [appended, moved_of_none _ _ _ _ hrep, Transaction.updateRichList_of_ne _ _ (by simp [hrepBlock])]
      simp [appendedStore, appendedReceivables, appendedRewardables, appendedInfo,
        appendedBlocks, appendedIndex, Store.withBlock, Position.head, hop]
  | some info =>
      simp only [hinfo, Process.bind_eq_ok, examine_eq_ok, write_eq_ok, updateAccountInfo,
        Process.modify_eq_ok, Store.accountInfoPut_eq_some, Store.rewardableInfoDel_eq_some] at h
      obtain ⟨p, _, ⟨hok, rfl⟩, _, _, h, _, _, ⟨_, _, ⟨s₁, ⟨-, rfl⟩, rfl⟩, rfl⟩,
        s₃, ⟨-, -, rfl⟩, rfl⟩ := h
      obtain ⟨hhead, hrule, hreward⟩ := checkReward_ok hlegal hinfo hok hop
      refine ⟨some (info, p), ⟨hlegal, hsignature, hepoch, htime, hfresh, ⟨hhead, hrule⟩,
        fun h => by simp [hop] at h, fun _ => hreward⟩, ?_⟩
      obtain rfl := putBlockSuccessor_ok h (hhead.previous ▸ hhead.head_get) hfresh
      rw [appended, moved_of_none _ _ _ _ hrep]
      simp [appendedStore, appendedReceivables, appendedRewardables, appendedInfo, Position.head, hop]

end AppendBlockVisitor

-- A successful append has passed all checks, and its effect is a function of the
-- block and of what it was put on.
theorem appendBlock_ok {env : Env} {now : Nat} {b : Block} {t t' : Transaction} {u : Unit}
    (h : appendBlock_ env now b t = .ok u t') :
    ∃ on, AppendChecks env now t.store b on ∧ t' = appended env t b on := by
  unfold appendBlock_ at h
  by_cases hlegal : b.Legal
  · rw [Block.visit_legal _ _ hlegal] at h
    cases hop : b.opcode <;> rw [hop] at h
    · cases h
    · exact AppendBlockVisitor.send_spec hlegal hop h
    · exact AppendBlockVisitor.receive_spec hlegal hop h
    · exact AppendBlockVisitor.change_spec hlegal hop h
    · exact AppendBlockVisitor.credit_spec hlegal hop h
    · exact AppendBlockVisitor.reward_spec hlegal hop h
    · exact AppendBlockVisitor.destroy_spec hlegal hop h
    · exact AppendBlockVisitor.bind_spec hlegal hop h
  · rw [Block.visit_illegal _ _ hlegal] at h
    cases h

-- A BIND has also passed the test of the binding count.
theorem appendBlock_bind {env : Env} {now : Nat} {b : Block} {t t' : Transaction} {u : Unit}
    (hop : b.opcode = .bind) (h : appendBlock_ env now b t = .ok u t') :
    b.chain ≠ Chain.INVALID ∧ ∃ info p, OnHead t.store b info p ∧
      ∀ count ∈ t.store.bindingCountGet b.account, count < allowedBindings p.credit := by
  have hlegal : b.Legal := by
    obtain ⟨on, hchecks, -⟩ := appendBlock_ok h
    exact hchecks.legal
  unfold appendBlock_ at h
  rw [Block.visit_legal _ _ hlegal, hop] at h
  change AppendBlockVisitor.bind env now b t = .ok u t' at h
  rw [AppendBlockVisitor.bind, Process.bind_eq_ok] at h
  obtain ⟨⟨info, p, count⟩, t₁, hexamine, -⟩ := h
  rw [examine_eq_ok] at hexamine
  obtain ⟨hcheck, -⟩ := hexamine
  have hhead : OnHead t.store b info p :=
    (AppendBlockVisitor.checkBind_ok hlegal hop hcheck).1.placed.1
  simp only [AppendBlockVisitor.checkBind, Except.bind_eq_ok, returnIf_eq_ok, not_or] at hcheck
  obtain ⟨⟨info', p'⟩, -, -, -, -, -, -, -, -, ⟨-, hchain⟩, hcheck⟩ := hcheck
  refine ⟨hchain, info, p, hhead, fun count' hcount => ?_⟩
  rw [Option.mem_def] at hcount
  rw [hcount] at hcheck
  simp only [Except.bind_eq_ok, returnIf_eq_ok, Except.pure_eq_ok, Prod.mk.injEq, Nat.not_le] at hcheck
  obtain ⟨-, hlt, -, rfl, -⟩ := hcheck
  exact hlt

end Raicoin
