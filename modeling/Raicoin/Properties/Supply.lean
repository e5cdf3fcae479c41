import Raicoin.Properties.Weights

-- No block makes or destroys coins but in the ways that its opcode allows.
namespace Raicoin

open Lib

namespace Store

variable (s : Store)

def balances : Nat := s.sumHeads fun b => b.balance.toNat

def receivableTotal : Nat := s.receivables.sum fun _ info => info.amount.toNat

def rewardableTotal : Nat := s.rewardables.sum fun _ info => info.amount.toNat

-- The coins there are: those of the accounts and those on their way.
def supply : Nat := s.balances + s.receivableTotal

end Store

-- What a block on top of `previous` adds to the supply; `reward` is what it claims.
def supplyChange (network : RaiNetworks) (previous : Option Block) (b : Block) (reward : Nat) :
    Int :=
  match b.opcode, previous with
  | .receive, none => -(creditPrice network b.timestamp * b.credit : Nat)
  | .credit, some p => -(creditPrice network b.timestamp * (b.credit - p.credit) : Nat)
  | .destroy, some p => -((p.balance.toNat : Int) - b.balance.toNat)
  | .reward, none => reward - (creditPrice network b.timestamp * b.credit : Nat)
  | .reward, some _ => reward
  | _, _ => 0

-- The sums and differences of balances that are taken in 128 bits for a block.
structure AmountsExact (env : Env) (previous : Option Block) (b : Block) : Prop where
  spent : ∀ p ∈ previous, b.opcode = .send ∨ b.opcode = .destroy →
    (p.balance - b.balance).toNat + b.balance.toNat = p.balance.toNat
  gained : ∀ p ∈ previous, b.opcode = .receive ∨ b.opcode = .reward →
    (b.balance - p.balance).toNat + p.balance.toNat = b.balance.toNat
  opened : previous = none → (RollbackBlockVisitor.amount env b none).toNat =
    creditPrice env.network b.timestamp * b.credit + b.balance.toNat

-- From a store without `b` to the store with `b`.
inductive SupplyStep (env : Env) (b : Block) (s s' : Store) : Prop where
  | intro (reward : Nat)
      (hreward : b.opcode = .reward → ∃ info,
        s.rewardables.get (b.account, b.link) = some info ∧ info.amount.toNat = reward ∧
          s'.rewardables = s.rewardables.del (b.account, b.link))
      (hsupply : (s'.supply : Int) = s.supply +
        supplyChange env.network (headOf s b.account) b reward)
      (hexact : AmountsExact env (headOf s b.account) b)

variable {env : Env} {A : Lattice env} {s s' : Store} {b : Block} {o : Option Block}

theorem Represents.headOf_below (h : Represents s A) (hext : A.Extends b)
    (ho : Before A.blocks o b) : headOf s b.account = o := by
  have hbefore := hext.before ho
  cases o with
  | none =>
      rw [Option.eq_none_iff_forall_ne_some]
      intro c hhead
      obtain ⟨hc, haccount⟩ := h.headOf_eq_some.mp hhead
      obtain ⟨d, hd, hda, hdh⟩ := A.below (A.mem_heads.mp hc).1 (Nat.zero_le _)
      exact hext.vacant d hd (hda.trans haccount) (hdh.trans ho.symm)
  | some p =>
      obtain ⟨hp, hs, htop⟩ := hbefore
      exact h.headOf_eq_some.mpr ⟨A.mem_heads.mpr ⟨hp, htop⟩, hs.follows.1.symm⟩

-- A store with one more block than another.
structure OneMore (A : Lattice env) (b : Block) (o : Option Block) (s s' : Store) : Prop where
  represents : Represents s A
  extends_ : A.Extends b
  before : Before A.blocks o b
  after : ∃ A' : Lattice env, A'.blocks = insert b A.blocks ∧ Represents s' A'

namespace OneMore

variable (h : OneMore A b o s s')
include h

theorem receivables : s'.receivables = appendedReceivables env s.receivables b o := by
  obtain ⟨A', hblocks, hafter⟩ := h.after
  have hshows := showsReceivables_append h.extends_ h.before h.represents.receivables
  have hshows' := hafter.receivables
  rw [hblocks] at hshows'
  exact Table.ext_some fun k v => (hshows' k v).trans (hshows k v).symm

theorem rewardables : s'.rewardables = appendedRewardables env s.rewardables b o := by
  obtain ⟨A', hblocks, hafter⟩ := h.after
  have hshows := showsRewardables_append h.extends_ h.before h.represents.rewardables
  have hshows' := hafter.rewardables
  rw [hblocks] at hshows'
  exact Table.ext_some fun k v => (hshows' k v).trans (hshows k v).symm

theorem sumHeads (g : Block → Nat) : s'.sumHeads g + o.elim 0 g = s.sumHeads g + g b := by
  obtain ⟨A', hblocks, hafter⟩ := h.after
  have hheads : A'.heads = (A.push b h.extends_).heads := by
    unfold Lattice.heads
    rw [hblocks, Lattice.push_blocks]
  rw [hafter.sumHeads_eq, h.represents.sumHeads_eq, hheads]
  exact A.sum_heads_push h.extends_ h.before g

theorem succeeds {p : Block} (ho : o = some p) : Succeeds env p b := by
  have hbefore := h.extends_.before h.before
  subst ho
  exact hbefore.2.1

theorem opens (ho : o = none) : Opens b := by
  have hbefore := h.before
  subst ho
  exact h.extends_.opens hbefore

-- Where `earned` is the amount of an entry, it is what the block took in.
theorem earned_eq {amount : Amount} (hgains : Gains env A.blocks b amount) :
    earned env o b = amount.toNat := by
  obtain ⟨o', ho', hearned⟩ := hgains
  rwa [A.before_unique h.before ho']

theorem amountsExact : AmountsExact env o b where
  spent := by
    intro p ho hop
    have hbalance := (h.succeeds ho).balance
    have hle : b.balance.toNat < p.balance.toNat := by
      unfold BalanceRule at hbalance
      rcases hop with hop | hop <;> simpa [hop] using hbalance
    rw [BitVec.toNat_sub_of_le (BitVec.le_def.mpr hle.le)]
    omega
  gained := by
    intro p ho hop
    have hbalance := (h.succeeds ho).balance
    have hle : p.balance.toNat < b.balance.toNat := by
      unfold BalanceRule at hbalance
      rcases hop with hop | hop <;> simpa [hop] using hbalance
    rw [BitVec.toNat_sub_of_le (BitVec.le_def.mpr hle.le)]
    omega
  opened := by
    intro ho
    have hlt : earned env o b < 2 ^ 128 := by
      rcases (h.opens ho).opcode with hop | hop
      · obtain ⟨info, -, -, hgains⟩ := h.extends_.received hop
        rw [h.earned_eq hgains]
        exact info.amount.isLt
      · obtain ⟨info, -, -, hgains⟩ := h.extends_.rewarded hop
        rw [h.earned_eq hgains]
        exact info.amount.isLt
    rw [ho, earned] at hlt
    rw [RollbackBlockVisitor.amount, BitVec.toNat_ofNat, Nat.mod_eq_of_lt hlt]

theorem receivableTotal_send (hop : b.opcode = .send) {p : Block} (ho : o = some p) :
    s'.receivableTotal = s.receivableTotal + (p.balance - b.balance).toNat := by
  subst ho
  have hnone : s.receivables.get (b.link, env.hash b) = none := by
    rw [Option.eq_none_iff_forall_ne_some]
    intro info hget
    obtain ⟨⟨x, hx, -, hkey, -⟩, -⟩ := (h.represents.receivables _ _).mp hget
    exact h.extends_.fresh x hx (Prod.mk.inj hkey).2.symm
  rw [Store.receivableTotal, h.receivables]
  simp only [appendedReceivables, hop]
  exact Table.sum_put_new _ _ _ hnone

theorem receivableTotal_receive (hop : b.opcode = .receive) :
    s'.receivableTotal + earned env o b = s.receivableTotal := by
  obtain ⟨info, hsource, -, hgains⟩ := h.extends_.received hop
  have hget : s.receivables.get (b.account, b.link) = some info :=
    (h.represents.receivables _ _).mpr
      ⟨hsource, by simpa [hop] using h.extends_.not_taken (.inl hop)⟩
  rw [Store.receivableTotal, h.receivables, h.earned_eq hgains]
  simp only [appendedReceivables, hop]
  exact Table.sum_del _ _ hget

theorem receivableTotal_other (hsend : b.opcode ≠ .send) (hreceive : b.opcode ≠ .receive) :
    s'.receivableTotal = s.receivableTotal := by
  rw [Store.receivableTotal, h.receivables]
  unfold appendedReceivables
  split
  · contradiction
  · contradiction
  · rfl

theorem reward (hop : b.opcode = .reward) : ∃ info,
    s.rewardables.get (b.account, b.link) = some info ∧ info.amount.toNat = earned env o b ∧
      s'.rewardables = s.rewardables.del (b.account, b.link) := by
  obtain ⟨info, hsource, -, hgains⟩ := h.extends_.rewarded hop
  refine ⟨info, (h.represents.rewardables _ _).mpr
    ⟨hsource, by simpa [hop] using h.extends_.not_taken (.inr hop)⟩, (h.earned_eq hgains).symm, ?_⟩
  rw [h.rewardables, appendedRewardables, if_pos hop]

-- One case for each opcode, and for the opcodes that can open an account one more.
theorem supply : (s'.supply : Int) =
    s.supply + supplyChange env.network o b (earned env o b) := by
  have hheads := h.sumHeads fun x => x.balance.toNat
  have hexact := h.amountsExact
  unfold Store.supply Store.balances
  cases ho : o with
  | none =>
      have hopens := h.opens ho
      have hrewarded : earned env o b =
          creditPrice env.network b.timestamp * b.credit + b.balance.toNat := by rw [ho]; rfl
      rw [ho] at hheads
      simp only [Option.elim_none, Nat.add_zero] at hheads
      rcases hopens.opcode with hop | hop
      · have htotal := h.receivableTotal_receive hop
        simp only [supplyChange, hop]
        omega
      · have htotal := h.receivableTotal_other (by simp [hop]) (by simp [hop])
        rw [ho] at hrewarded
        simp only [supplyChange, hop]
        omega
  | some p =>
      have hbalance := (h.succeeds ho).balance
      have hearned : earned env o b = b.balance.toNat - p.balance.toNat := by rw [ho]; rfl
      rw [ho] at hheads
      simp only [Option.elim_some] at hheads
      unfold BalanceRule at hbalance
      cases hop : b.opcode <;> rw [hop] at hbalance <;> simp only [supplyChange, hop]
      case invalid => exact hbalance.elim
      case send =>
        have htotal := h.receivableTotal_send hop ho
        have hspent := hexact.spent p ho (.inl hop)
        omega
      case receive =>
        have htotal := h.receivableTotal_receive hop
        dsimp only at hbalance
        omega
      all_goals have htotal := h.receivableTotal_other (by simp [hop]) (by simp [hop])
      all_goals dsimp only at hbalance
      case reward =>
        rw [ho] at hearned
        omega
      case change | bind =>
        rw [hbalance] at hheads
        omega
      all_goals omega

theorem supplyStep : SupplyStep env b s s' := by
  have hhead := h.represents.headOf_below h.extends_ h.before
  refine ⟨earned env o b, fun hop => h.reward hop, ?_, ?_⟩ <;> rw [hhead]
  · exact h.supply
  · exact h.amountsExact

end OneMore

section Run

variable {blocks : Set Block} {l : Ledger}

theorem AppendChecks.oneMore {now : Nat} {on : Position} (h : Represents l.store A)
    (hchecks : AppendChecks env now l.store b on) (hext : A.Extends b) :
    OneMore A b on.head l.store (l.appended env b on).store where
  represents := h
  extends_ := hext
  before := hchecks.before h
  after := by
    refine ⟨A.push b hext, rfl, ?_⟩
    rw [Ledger.appended_store]
    exact hchecks.represents h hext

theorem RollbackChecks.oneMore {info : AccountInfo} (h : Represents l.store A)
    (hchecks : RollbackChecks env l.store b info o) :
    OneMore (A.pop b (hchecks.removable h)) b o (l.removed env b info o).store l.store where
  represents := hchecks.represents h (hchecks.removable h)
  extends_ := (hchecks.removable h).extends
  before := (hchecks.removable h).before (hchecks.before h)
  after := ⟨A, (hchecks.removable h).insert_pop.symm, h⟩

-- All coins, and those that can be claimed, fit into 128 bits.
def SupplyFits (l : Ledger) : Prop := l.store.supply + l.store.rewardableTotal < 2 ^ 128

theorem SupplyFits.weightsFit (h : Represents l.store A) (hfits : SupplyFits l) :
    WeightsFit l := by
  have hle : l.store.totalWeight ≤ l.store.balances := by
    rw [Store.totalWeight, Store.balances, h.sumHeads_eq, h.sumHeads_eq]
    refine Finset.sum_le_sum fun b _ => ?_
    unfold Block.totalWeight
    split <;> omega
  unfold SupplyFits Store.supply at hfits
  unfold WeightsFit
  omega

theorem ReachableWithin.weightsFit (hcf : CollisionFree env blocks)
    (h : ReachableWithin env blocks SupplyFits l) : ReachableWithin env blocks WeightsFit l := by
  induction h with
  | genesis enableRichList enableDelegatorList hbound =>
      have hA := tracks_genesis hcf enableRichList enableDelegatorList
      exact .genesis _ _ (hbound.weightsFit hA.represents)
  | step hl hstep hbound ih =>
      obtain ⟨A, hA⟩ := hl.reachable.tracks hcf
      obtain ⟨A', hA'⟩ := hstep.tracks hcf hA
      exact ih.step hstep (hbound.weightsFit hA'.represents)

-- An append changes the supply as its opcode allows, and a rollback takes exactly that
-- back. The weights do not wrap either, as long as all coins fit into 128 bits.
theorem reachable_supply (hcf : CollisionFree env blocks) (h : Reachable env blocks l) :
    (∀ now b fails t, b ∈ blocks → appendBlock_ env now b (.begin_ l fails) = .ok () t →
      SupplyStep env b l.store t.commit.store) ∧
    (∀ b fails t, rollbackBlock_ env b (.begin_ l fails) = .ok () t →
      SupplyStep env b t.commit.store l.store) ∧
    (ReachableWithin env blocks SupplyFits l → WeightsExact l) := by
  obtain ⟨A, hA⟩ := h.tracks hcf
  refine ⟨fun now b fails t hb hrun => ?_, fun b fails t hrun => ?_, fun hwithin => ?_⟩
  · obtain ⟨on, hchecks, rfl⟩ := appendBlock_ok hrun
    have hext := hchecks.extends hA.represents (hcf.ne_zero b hb) (hcf.ne_genesis_link b hb)
      (hcf.height_ne b hb)
    rw [appended_commit]
    exact (hchecks.oneMore hA.represents hext).supplyStep
  · obtain ⟨info, previous, hchecks, rfl⟩ := rollbackBlock_ok hrun
    rw [removed_commit]
    exact (hchecks.oneMore hA.represents).supplyStep
  · have hfits := hwithin.weightsFit hcf
    exact (hfits.weights hcf).exact hA.represents hfits.within

-- Taking the last SEND of the run back.
theorem sampleLedger_supply : ∃ t,
    rollbackBlock_ sampleEnv sampleReturn (.begin_ sampleLedger StoreCall.never) = .ok () t ∧
      SupplyStep sampleEnv sampleReturn t.commit.store sampleLedger.store := by
  have hrun : (replay sampleEnv (fun _ => true) sampleLedger [.rollback sampleReturn]).isSome := by
    decide +kernel
  obtain ⟨l, hl⟩ := Option.isSome_iff_exists.mp hrun
  obtain ⟨t, hok, -⟩ := replay_one hl
  exact ⟨t, hok, (reachable_supply sample_collisionFree sampleLedger_reachable).2.1 _ _ _ hok⟩

end Run

end Raicoin
