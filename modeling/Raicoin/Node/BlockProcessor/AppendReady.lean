import Raicoin.Node.BlockProcessor.AppendSpec
import Raicoin.Node.BlockProcessor.RollbackSpec

-- Which blocks `AppendBlock_` takes, on a store that refuses no write.
namespace Raicoin

open Lib
open RollbackBlockVisitor (write_never write_then examine_ok)

namespace AppendBlockVisitor

variable {env : Env} {now : Nat} {s : Store} {t : Transaction} {b p : Block} {info : AccountInfo}
  {on : Position}

-- The checks have passed, those too that the effect of an append does not depend on, and no
-- write can fail.
structure Ready (env : Env) (now : Nat) (t : Transaction) (b : Block) (on : Position) : Prop where
  checks : AppendChecks env now t.store b on
  never : t.fails = StoreCall.never
  valid : ∀ info p, on = some (info, p) → info.valid = true ∧ info.tailHeight ≤ info.headHeight
  link : b.opcode = .change ∨ b.opcode = .credit → b.link = 0
  chain : b.opcode = .bind → b.hasChain = true ∧ b.chain ≠ Chain.INVALID
  bindings : b.opcode = .bind → ∀ p count, on.head = some p →
    t.store.bindingCount.get b.account = some count → count < allowedBindings p.credit

theorem checkCommon_eq_ok (h : AppendChecks env now s b on) :
    checkCommon env now s b = .ok () := by
  have htype : ¬(b.type ≠ .txBlock ∧ b.type ≠ .repBlock ∧ b.type ≠ .adBlock) := by
    cases b <;> simp [Block.type]
  have htime := h.timestamp_le
  have hepoch := h.epoch_le
  simp only [checkCommon, Except.bind_eq_ok, returnIf_eq_ok, h.signature]
  refine ⟨(), htype, (), Bool.false_ne_true, (), by omega, ?_⟩
  simp [Store.blockExists, Table.contains, h.fresh]

theorem checkCommonInfo_eq_ok (h : AppendChecks env now s b on) : (do
    checkCommon env now s b
    return accountInfo s b) = .ok (accountInfo s b) := by
  rw [checkCommon_eq_ok h]
  rfl

theorem accountInfo_eq (hinfo : s.accounts.get b.account = some info)
    (hvalid : info.valid = true) : accountInfo s b = some info := by
  simp [accountInfo, Store.accountInfoGet, hinfo, Option.filter, hvalid]

theorem checkHead_eq_ok (h : OnHead s b info p) (htail : info.tailHeight ≤ info.headHeight) :
    checkHead s b info = .ok p := by
  have hheight := h.height
  have hlt := b.height_lt
  have htime := h.timestamp
  simp only [checkHead, checkSuccessorCommon, Except.bind_eq_ok, returnIf_eq_ok, orReturn_eq_ok,
    Except.pure_eq_ok]
  exact ⟨p, h.head_get, (), ⟨(), by omega, (), by omega, (), by omega, (),
    not_not.mpr h.type, (), not_not.mpr h.previous, by omega⟩, rfl⟩

theorem Ready.onHead (h : Ready env now t b (some (info, p))) : OnHead t.store b info p :=
  h.checks.placed.1

theorem Ready.rule (h : Ready env now t b (some (info, p))) : ChainRule env p b :=
  h.checks.placed.2

theorem Ready.accountInfo_eq (h : Ready env now t b (some (info, p))) :
    accountInfo t.store b = some info :=
  AppendBlockVisitor.accountInfo_eq h.onHead.info_get (h.valid _ _ rfl).1

theorem Ready.checkHead_eq (h : Ready env now t b (some (info, p))) :
    checkHead t.store b info = .ok p :=
  checkHead_eq_ok h.onHead (h.valid _ _ rfl).2

theorem Ready.checkOpened_eq (h : Ready env now t b (some (info, p))) :
    checkOpened env now t.store b = .ok (info, p) := by
  rw [checkOpened, Except.bind_eq_ok]
  refine ⟨(), checkCommon_eq_ok h.checks, ?_⟩
  rw [h.accountInfo_eq]
  simp only [Except.bind_eq_ok, Except.pure_eq_ok]
  exact ⟨p, h.checkHead_eq, rfl⟩

theorem checkCounterIncrease_eq_ok (h : CounterIncrease p b) :
    checkCounterIncrease p b = .ok () := by
  unfold CounterIncrease at h
  unfold checkCounterIncrease
  split_ifs at h ⊢
  · simp only [Except.bind_eq_ok, returnIf_eq_ok]
    exact ⟨(), not_not.mpr h.1, Nat.not_lt.mpr h.2⟩
  · simpa using h

theorem checkCounterSame_eq_ok (h : CounterSame p b) : checkCounterSame p b = .ok () := by
  unfold CounterSame at h
  unfold checkCounterSame
  split_ifs at h ⊢ <;> simpa using h

theorem checkRepresentativeSame_eq_ok
    (h : b.hasRepresentative = true → p.representative = b.representative) :
    checkRepresentativeSame p b = .ok () := by
  simpa [checkRepresentativeSame] using h

theorem putBlockSuccessor_never (hnever : t.fails = StoreCall.never)
    (hp : t.store.blockGet b.previous = some p) (hfresh : t.store.blocks.get (env.hash b) = none) :
    putBlockSuccessor env b t = .ok () (t.setStore { t.store with
      blocks := appendedBlocks env t.store.blocks b (some p)
      blocksIndex := appendedIndex env t.store.blocksIndex b }) := by
  have hne : b.previous ≠ env.hash b := by
    intro he
    simp [Store.blockGet, he, hfresh] at hp
  have hput : t.store.blockPut StoreCall.never (env.hash b) b 0 =
      some (t.store.withBlock (env.hash b) b 0) := by
    unfold Store.blockPut Store.blockIndexPut_ Store.withBlock
    split_ifs <;> simp_all [StoreCall.never]
  unfold putBlockSuccessor
  refine write_then hnever hput ?_
  refine write_never hnever (Store.blockSuccessorSet_eq_some.mpr ⟨rfl, p, ?_, rfl⟩)
  simpa [Store.withBlock, Store.blockGet, hne] using hp

theorem putRewardableInfo_never (hnever : t.fails = StoreCall.never) :
    ∃ t', putRewardableInfo env p b t = .ok () t' := by
  unfold putRewardableInfo
  split
  · exact ⟨t, rfl⟩
  · dsimp only
    split
    · exact ⟨_, write_never hnever (Store.rewardableInfoPut_eq_some.mpr ⟨rfl, rfl⟩)⟩
    · exact ⟨t, rfl⟩

theorem updateRepInfo_never (p b : Block) (t : Transaction) :
    ∃ t', updateRepInfo p b t = .ok () t' ∧ t'.fails = t.fails := by
  unfold updateRepInfo
  split
  · exact ⟨t, rfl, rfl⟩
  · exact ⟨_, rfl, rfl⟩

theorem Ready.extend_never {t' : Transaction} (h : Ready env now t b (some (info, p)))
    (hfails : t'.fails = t.fails) (hblocks : t'.store.blocks = t.store.blocks) :
    extend env b info p t' = .ok () (moved t' (extendedStore env t'.store b info p) b (some p)) := by
  have hnever := hfails.trans h.never
  have hp : t'.store.blockGet b.previous = some p := by
    rw [h.onHead.previous, Store.blockGet, hblocks]
    exact h.onHead.head_get
  have hfresh : t'.store.blocks.get (env.hash b) = none := hblocks ▸ h.checks.fresh
  have hrun : ∃ t'', extend env b info p t' = .ok () t'' := by
    unfold extend updateAccountInfo
    obtain ⟨t₁, hrep, hkept⟩ := updateRepInfo_never p b
      ((t'.setStore { t'.store with
        accounts := t'.store.accounts.put b.account (appendedInfo env b (some (info, p)))
        blocks := appendedBlocks env t'.store.blocks b (some p)
        blocksIndex := appendedIndex env t'.store.blocksIndex b }).updateRichList b)
    obtain ⟨t₂, hreward⟩ := @putRewardableInfo_never env _ b p (hkept.trans hnever)
    refine ⟨t₂, Process.bind_then (putBlockSuccessor_never hnever hp hfresh) ?_⟩
    refine Process.bind_then (write_then hnever (Store.accountInfoPut_eq_some.mpr ⟨rfl, rfl⟩) rfl) ?_
    exact Process.bind_then hrep hreward
  obtain ⟨t'', hrun⟩ := hrun
  rw [hrun, extend_ok hrun hp hfresh]

theorem Ready.checkSend_eq (h : Ready env now t b (some (info, p)))
    (hop : b.opcode = .send ∨ b.opcode = .destroy) :
    checkSend env now t.store b = .ok (info, p) := by
  have hrule := h.rule
  have hcredit := hrule.credit
  have hcounter := hrule.counter
  have hbalance := hrule.balance
  have hchange : b.opcode ≠ .change := by rcases hop with hop | hop <;> simp [hop]
  rw [if_neg (by rcases hop with hop | hop <;> simp [hop])] at hcredit hcounter
  have hlt : b.balance.toNat < p.balance.toNat := by
    rcases hop with hop | hop <;> simpa [BalanceRule, hop] using hbalance
  simp only [checkSend, Except.bind_eq_ok, returnIf_eq_ok, Except.pure_eq_ok]
  exact ⟨(info, p), h.checkOpened_eq, (), not_not.mpr hcredit, (),
    checkCounterIncrease_eq_ok hcounter, (),
    checkRepresentativeSame_eq_ok (hrule.representative hchange), (),
    BitVec.not_le.mpr (BitVec.lt_def.mpr hlt), rfl⟩

theorem Ready.checkChange_eq (h : Ready env now t b (some (info, p))) (hop : b.opcode = .change) :
    checkChange env now t.store b = .ok (info, p) := by
  have hrule := h.rule
  have hcredit := hrule.credit
  have hcounter := hrule.counter
  rw [if_neg (by simp [hop])] at hcredit hcounter
  have hbalance : b.balance = p.balance := by simpa [BalanceRule, hop] using hrule.balance
  simp only [checkChange, Except.bind_eq_ok, returnIf_eq_ok, Except.pure_eq_ok]
  exact ⟨(info, p), h.checkOpened_eq, (), not_not.mpr hcredit, (),
    checkCounterIncrease_eq_ok hcounter, (), not_not.mpr hbalance, (),
    not_not.mpr (h.link (.inl hop)), rfl⟩

theorem Ready.checkCredit_eq (h : Ready env now t b (some (info, p))) (hop : b.opcode = .credit) :
    checkCredit env now t.store b = .ok (info, p) := by
  have hrule := h.rule
  have hcredit := hrule.credit
  have hcounter := hrule.counter
  rw [if_pos hop] at hcredit
  rw [if_neg (by simp [hop])] at hcounter
  have hbalance : p.balance.toNat = b.balance.toNat +
      creditPrice env.network b.timestamp * (b.credit - p.credit) := by
    simpa [BalanceRule, hop] using hrule.balance
  simp only [checkCredit, Except.bind_eq_ok, returnIf_eq_ok, Except.pure_eq_ok]
  exact ⟨(info, p), h.checkOpened_eq, (), Nat.not_le.mpr hcredit, (),
    checkCounterIncrease_eq_ok hcounter, (),
    checkRepresentativeSame_eq_ok (hrule.representative (by simp [hop])), (),
    not_not.mpr hbalance, (), not_not.mpr (h.link (.inr hop)), rfl⟩

theorem Ready.checkBind_eq (h : Ready env now t b (some (info, p))) (hop : b.opcode = .bind) :
    ∃ count, checkBind env now t.store b = .ok (info, p, count) := by
  have hrule := h.rule
  have hcredit := hrule.credit
  have hcounter := hrule.counter
  rw [if_neg (by simp [hop])] at hcredit hcounter
  have hbalance : b.balance = p.balance := by simpa [BalanceRule, hop] using hrule.balance
  obtain ⟨hchain, hvalid⟩ := h.chain hop
  have hnot : ¬(b.hasChain = false ∨ b.chain = Chain.INVALID) := by simp [hchain, hvalid]
  simp only [checkBind, Except.bind_eq_ok, returnIf_eq_ok]
  cases hcount : t.store.bindingCountGet b.account with
  | none =>
      exact ⟨0, (info, p), h.checkOpened_eq, (), not_not.mpr hcredit, (),
        checkCounterIncrease_eq_ok hcounter, (), not_not.mpr hbalance, (), hnot, rfl⟩
  | some count =>
      have hlt := h.bindings hop p count rfl hcount
      refine ⟨count, (info, p), h.checkOpened_eq, (), not_not.mpr hcredit, (),
        checkCounterIncrease_eq_ok hcounter, (), not_not.mpr hbalance, (), hnot, ?_⟩
      simp only [Except.bind_eq_ok, returnIf_eq_ok, Except.pure_eq_ok]
      exact ⟨(), Nat.not_le.mpr hlt, trivial⟩

-- A gain is the difference of the balances.
theorem gain_eq {amount : Amount} (hlt : p.balance.toNat < b.balance.toNat)
    (hearned : earned env (some p) b = amount.toNat) : amount = b.balance - p.balance := by
  refine BitVec.eq_of_toNat_eq ?_
  rw [BitVec.toNat_sub_of_le (BitVec.le_def.mpr (Nat.le_of_lt hlt)), ← hearned]
  rfl

theorem Ready.checkReceive_eq (h : Ready env now t b (some (info, p))) (hop : b.opcode = .receive) :
    checkReceive t.store b info = .ok p := by
  have hrule := h.rule
  have hcredit := hrule.credit
  have hcounter := hrule.counter
  rw [if_neg (by simp [hop])] at hcredit hcounter
  have hlt : p.balance.toNat < b.balance.toNat := by
    simpa [BalanceRule, hop] using hrule.balance
  obtain ⟨receivable, source, hreceivable, hsource, htime, hearned⟩ := h.checks.receive hop
  simp only [checkReceive, Except.bind_eq_ok, returnIf_eq_ok, orReturn_eq_ok, Except.pure_eq_ok]
  exact ⟨p, h.checkHead_eq, (), not_not.mpr hcredit, (), checkCounterIncrease_eq_ok hcounter, (),
    checkRepresentativeSame_eq_ok (hrule.representative (by simp [hop])), source, hsource, (),
    Nat.not_lt.mpr htime, (), BitVec.not_le.mpr (BitVec.lt_def.mpr hlt), receivable, hreceivable,
    (), not_not.mpr (gain_eq hlt hearned), rfl⟩

theorem Ready.checkReward_eq (h : Ready env now t b (some (info, p))) (hop : b.opcode = .reward) :
    checkReward t.store b info = .ok p := by
  have hrule := h.rule
  have hcredit := hrule.credit
  have hcounter := hrule.counter
  rw [if_neg (by simp [hop])] at hcredit
  rw [if_pos hop] at hcounter
  have hlt : p.balance.toNat < b.balance.toNat := by
    simpa [BalanceRule, hop] using hrule.balance
  obtain ⟨rewardable, source, hrewardable, hsource, htime, hvalid, hearned⟩ := h.checks.reward hop
  simp only [checkReward, Except.bind_eq_ok, returnIf_eq_ok, orReturn_eq_ok, Except.pure_eq_ok]
  exact ⟨p, h.checkHead_eq, (), not_not.mpr hcredit, (), checkCounterSame_eq_ok hcounter,
    source, hsource, (), Nat.not_lt.mpr htime, (), BitVec.not_le.mpr (BitVec.lt_def.mpr hlt),
    rewardable, hrewardable, (), Nat.not_lt.mpr hvalid, (), not_not.mpr (gain_eq hlt hearned), rfl⟩

theorem checkFirstCommon_eq_ok (h : Opens b) : checkFirstCommon b = .ok () := by
  simp only [checkFirstCommon, Except.bind_eq_ok, returnIf_eq_ok]
  exact ⟨(), not_not.mpr h.height, (), h.credit, not_not.mpr h.previous⟩

theorem Ready.checkReceiveFirst_eq (h : Ready env now t b none) (hop : b.opcode = .receive) :
    checkReceiveFirst env t.store b = .ok () := by
  have hopens : Opens b := h.checks.placed.2
  obtain ⟨receivable, source, hreceivable, hsource, htime, hearned⟩ := h.checks.receive hop
  simp only [checkReceiveFirst, Except.bind_eq_ok, returnIf_eq_ok, orReturn_eq_ok]
  exact ⟨(), checkFirstCommon_eq_ok hopens, (), not_not.mpr (by simpa [hop] using hopens.counter),
    source, hsource, (), Nat.not_lt.mpr htime, receivable, hreceivable, not_not.mpr hearned.symm⟩

theorem Ready.checkRewardFirst_eq (h : Ready env now t b none) (hop : b.opcode = .reward) :
    checkRewardFirst env t.store b = .ok () := by
  have hopens : Opens b := h.checks.placed.2
  obtain ⟨rewardable, source, hrewardable, hsource, htime, hvalid, hearned⟩ := h.checks.reward hop
  simp only [checkRewardFirst, Except.bind_eq_ok, returnIf_eq_ok, orReturn_eq_ok]
  exact ⟨(), checkFirstCommon_eq_ok hopens, (), not_not.mpr (by simpa [hop] using hopens.counter),
    source, hsource, (), Nat.not_lt.mpr htime, rewardable, hrewardable, (),
    Nat.not_lt.mpr hvalid, not_not.mpr hearned.symm⟩

-- The methods that only check and extend.
theorem Ready.takes_extend (h : Ready env now t b (some (info, p)))
    {check : Store → Block → Except ErrorCode (AccountInfo × Block)}
    (hcheck : check t.store b = .ok (info, p)) :
    ∃ t', (do
      let (info, headBlock) ← examine fun s => check s b
      extend env b info headBlock : TransactionM Unit) t = .ok () t' :=
  ⟨_, Process.bind_then (examine_ok hcheck) (h.extend_never rfl rfl)⟩

theorem Ready.takes_send (h : Ready env now t b (some (info, p))) (hop : b.opcode = .send) :
    ∃ t', send env now b t = .ok () t' := by
  unfold send
  refine Process.bind_exists (examine_ok (h.checkSend_eq (.inl hop))) ?_
  refine Process.bind_exists (h.extend_never rfl rfl) ?_
  exact ⟨_, write_never h.never (Store.receivableInfoPut_eq_some.mpr ⟨rfl, rfl⟩)⟩

theorem Ready.takes_bind (h : Ready env now t b (some (info, p))) (hop : b.opcode = .bind) :
    ∃ t', bind env now b t = .ok () t' := by
  obtain ⟨count, hcheck⟩ := h.checkBind_eq hop
  unfold bind
  refine Process.bind_exists (examine_ok hcheck) ?_
  refine Process.bind_exists (write_never h.never (Store.bindingPut_eq_some.mpr ⟨rfl, rfl⟩)) ?_
  refine Process.bind_exists (write_never h.never (Store.bindingCountPut_eq_some.mpr ⟨rfl, rfl⟩)) ?_
  exact ⟨_, h.extend_never rfl rfl⟩

theorem openRepInfo_never (b : Block) (t : Transaction) :
    ∃ t', openRepInfo b t = .ok () t' ∧ t'.fails = t.fails ∧ t'.store = t.store := by
  unfold openRepInfo
  split
  · exact ⟨_, rfl, rfl, by simp [Transaction.repWeightAdd]⟩
  · exact ⟨t, rfl, rfl, rfl⟩

theorem Ready.takes_receive (h : Ready env now t b on) (hop : b.opcode = .receive) :
    ∃ t', receive env now b t = .ok () t' := by
  obtain ⟨receivable, source, hreceivable, -⟩ := h.checks.receive hop
  have hsome : (t.store.receivables.get (b.account, b.link)).isSome := by simp [hreceivable]
  have hcommon := checkCommonInfo_eq_ok h.checks
  unfold receive
  cases on with
  | none =>
      have hinfo : accountInfo t.store b = none := h.checks.placed.1
      obtain ⟨t₁, hrep, hfails, hstore⟩ := openRepInfo_never b
        (((t.setStore (t.store.withBlock (env.hash b) b 0)).setStore
          { t.store.withBlock (env.hash b) b 0 with
            accounts := t.store.accounts.put b.account (.first b.type (env.hash b)) }).updateRichList b)
      refine Process.bind_exists (examine_ok (hcommon.trans (congrArg Except.ok hinfo))) ?_
      refine Process.bind_exists (examine_ok (h.checkReceiveFirst_eq hop)) ?_
      refine Process.bind_exists (write_never h.never (Store.blockPut_never _ _ _)) ?_
      refine Process.bind_exists (write_never h.never (Store.accountInfoPut_eq_some.mpr ⟨rfl, rfl⟩)) ?_
      refine Process.bind_exists rfl (Process.bind_exists hrep ?_)
      refine ⟨_, write_never (hfails.trans h.never)
        (Store.receivableInfoDel_eq_some.mpr ⟨rfl, ?_, rfl⟩)⟩
      simpa [hstore, Store.withBlock] using hsome
  | some place =>
      obtain ⟨info, p⟩ := place
      refine Process.bind_exists (examine_ok (hcommon.trans (congrArg Except.ok h.accountInfo_eq))) ?_
      refine Process.bind_exists (examine_ok (h.checkReceive_eq hop)) ?_
      refine Process.bind_exists (h.extend_never rfl rfl) ?_
      refine ⟨_, write_never h.never (Store.receivableInfoDel_eq_some.mpr ⟨rfl, ?_, rfl⟩)⟩
      simpa [extendedStore] using hsome

theorem Ready.takes_reward (h : Ready env now t b on) (hop : b.opcode = .reward) :
    ∃ t', reward env now b t = .ok () t' := by
  obtain ⟨rewardable, source, hrewardable, -⟩ := h.checks.reward hop
  have hsome : (t.store.rewardables.get (b.account, b.link)).isSome := by simp [hrewardable]
  have hcommon := checkCommonInfo_eq_ok h.checks
  unfold reward
  cases on with
  | none =>
      have hinfo : accountInfo t.store b = none := h.checks.placed.1
      refine Process.bind_exists (examine_ok (hcommon.trans (congrArg Except.ok hinfo))) ?_
      refine Process.bind_exists (examine_ok (h.checkRewardFirst_eq hop)) ?_
      refine Process.bind_exists (write_never h.never (Store.blockPut_never _ _ _)) ?_
      refine Process.bind_exists (write_never h.never (Store.accountInfoPut_eq_some.mpr ⟨rfl, rfl⟩)) ?_
      refine ⟨_, write_never h.never (Store.rewardableInfoDel_eq_some.mpr ⟨rfl, ?_, rfl⟩)⟩
      simpa [Store.withBlock] using hsome
  | some place =>
      obtain ⟨info, p⟩ := place
      have hp : t.store.blockGet b.previous = some p := h.onHead.previous ▸ h.onHead.head_get
      refine Process.bind_exists (examine_ok (hcommon.trans (congrArg Except.ok h.accountInfo_eq))) ?_
      refine Process.bind_exists (examine_ok (h.checkReward_eq hop)) ?_
      refine Process.bind_exists (putBlockSuccessor_never h.never hp h.checks.fresh) ?_
      refine Process.bind_exists
        (write_then h.never (Store.accountInfoPut_eq_some.mpr ⟨rfl, rfl⟩) rfl) ?_
      refine ⟨_, write_never h.never (Store.rewardableInfoDel_eq_some.mpr ⟨rfl, ?_, rfl⟩)⟩
      simpa using hsome

end AppendBlockVisitor

-- Every block that passes the checks is taken.
theorem appendBlock_never {env : Env} {now : Nat} {t : Transaction} {b : Block} {on : Position}
    (h : AppendBlockVisitor.Ready env now t b on) : ∃ t', appendBlock_ env now b t = .ok () t' := by
  unfold appendBlock_
  rw [Block.visit_legal _ _ h.checks.legal]
  have hplaced : b.opcode ≠ .receive ∧ b.opcode ≠ .reward → ∃ info p, on = some (info, p) := by
    intro hop
    cases on with
    | none =>
        have hopens : Opens b := h.checks.placed.2
        rcases hopens.opcode with hfirst | hfirst
        · exact absurd hfirst hop.1
        · exact absurd hfirst hop.2
    | some place => exact ⟨place.1, place.2, rfl⟩
  cases hop : b.opcode with
  | invalid =>
      have hlegal := h.checks.legal
      unfold Block.Legal at hlegal
      rw [hop] at hlegal
      cases htype : b.type <;> simp [htype, BlockType.allows] at hlegal
  | receive => exact h.takes_receive hop
  | reward => exact h.takes_reward hop
  | send =>
      obtain ⟨info, p, rfl⟩ := hplaced (by simp [hop])
      exact h.takes_send hop
  | change =>
      obtain ⟨info, p, rfl⟩ := hplaced (by simp [hop])
      exact h.takes_extend (h.checkChange_eq hop)
  | credit =>
      obtain ⟨info, p, rfl⟩ := hplaced (by simp [hop])
      exact h.takes_extend (h.checkCredit_eq hop)
  | destroy =>
      obtain ⟨info, p, rfl⟩ := hplaced (by simp [hop])
      exact h.takes_extend (h.checkSend_eq (.inr hop))
  | bind =>
      obtain ⟨info, p, rfl⟩ := hplaced (by simp [hop])
      exact h.takes_bind hop

end Raicoin
