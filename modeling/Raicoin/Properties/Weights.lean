import Raicoin.Node.BlockProcessor.Replay
import Raicoin.Refinement.Reach
import Raicoin.Refinement.Restart

-- The voting weights in memory are those that a restart computes.
namespace Raicoin

open Lib

section Run

variable {env : Env} {blocks : Set Block} {l l' : Ledger} {A : Lattice env} {s s' : Store}
  {b : Block}

theorem movedWeights_eq (previous : Option Block) : movedWeights b previous =
    if b.hasRepresentative = true then exchangeOps previous (some b) else [] := by
  cases hrep : b.hasRepresentative <;> cases previous <;> simp [movedWeights, exchangeOps, hrep]

theorem restoredWeights_eq (previous : Option Block) : restoredWeights b previous =
    if b.hasRepresentative = true then exchangeOps (some b) previous else [] := by
  cases hrep : b.hasRepresentative <;> cases previous <;> simp [restoredWeights, exchangeOps, hrep]

theorem Represents.le_sumHeads (h : Represents s A) (hb : b ∈ A.heads) (g : Block → Nat) :
    g b ≤ s.sumHeads g := by
  rw [h.sumHeads_eq]
  exact Finset.single_le_sum (fun _ _ => Nat.zero_le _) hb

-- The weights follow when the head of one account moves from `old` to `new`.
theorem shows_exchange {w : RepWeights} {old new : Option Block} {rep : Bool}
    (h : w.Shows s.weight s.totalWeight) (hs : Represents s A) {A' : Lattice env}
    (hs' : Represents s' A') (hold : ∀ x ∈ old, x ∈ A.heads)
    (hrep : ∀ x, x ∈ old ∨ x ∈ new → x.hasRepresentative = rep)
    (hsum : ∀ g, s'.sumHeads g + old.elim 0 g = s.sumHeads g + new.elim 0 g)
    (hfits : s'.totalWeight < 2 ^ 128) :
    (repWeightsCommit_ w (if rep = true then exchangeOps old new else [])).Shows s'.weight
      s'.totalWeight := by
  cases rep with
  | true =>
      rw [if_pos rfl]
      refine h.exchange (fun x hx => ⟨hrep x (.inl hx), fun r => ?_, ?_⟩)
        (fun x hx => hrep x (.inr hx)) (fun r => hsum _) (hsum _) hs'.weight_le hfits
      · exact hs.le_sumHeads (hold x hx) (·.weight r)
      · exact hs.le_sumHeads (hold x hx) Block.totalWeight
  | false =>
      have hzero (g : Block → Nat) (hg : ∀ x, x.hasRepresentative = false → g x = 0) :
          s'.sumHeads g = s.sumHeads g := by
        have hg' := hsum g
        have hgone (o : Option Block) (ho : ∀ x ∈ o, x.hasRepresentative = false) :
            o.elim 0 g = 0 := by
          cases o with
          | none => rfl
          | some x => exact hg x (ho x rfl)
        rwa [hgone old fun x hx => hrep x (.inl hx), hgone new fun x hx => hrep x (.inr hx)] at hg'
      have hweight : s'.weight = s.weight := by
        funext r
        exact hzero _ fun x hx => by simp [Block.weight, hx]
      have htotal : s'.totalWeight = s.totalWeight :=
        hzero _ fun x hx => by simp [Block.totalWeight, hx]
      rw [hweight, htotal]
      exact h

-- The sum of the head balances that count for a representative fits into 128 bits.
def WeightsFit (l : Ledger) : Prop := l.store.totalWeight < 2 ^ 128

def WeightsShown (l : Ledger) : Prop := l.repWeights.Shows l.store.weight l.store.totalWeight

theorem append_weights {now : Nat} {on : Position} (h : Represents l.store A)
    (hext : A.Extends b) (hchecks : AppendChecks env now l.store b on) (hshown : WeightsShown l)
    (hfits : WeightsFit (l.appended env b on)) : WeightsShown (l.appended env b on) := by
  have hafter := hchecks.represents h hext
  have hbefore := hchecks.before h
  rw [← Ledger.appended_store] at hafter
  unfold WeightsShown
  rw [Ledger.appended_repWeights, movedWeights_eq]
  refine shows_exchange hshown h hafter (fun x hx => ?_) (fun x hx => ?_) (fun g => ?_) hfits
  · obtain ⟨hp, -, htop⟩ := hext.before (show Before A.blocks (some x) b from hx ▸ hbefore)
    exact A.mem_heads.mpr ⟨hp, htop⟩
  · rcases hx with hx | hx
    · have hs := (hext.before (show Before A.blocks (some x) b from hx ▸ hbefore)).2.1
      exact (Block.hasRepresentative_of_type hs.type).symm
    · rw [← Option.some.inj hx]
  · rw [hafter.sumHeads_eq, h.sumHeads_eq]
    exact A.sum_heads_push hext hbefore g

theorem rollback_weights {info : AccountInfo} {previous : Option Block} (h : Represents l.store A)
    (hchecks : RollbackChecks env l.store b info previous) (hshown : WeightsShown l)
    (hfits : WeightsFit (l.removed env b info previous)) :
    WeightsShown (l.removed env b info previous) := by
  have hrem := hchecks.removable h
  have hafter : Represents (l.removed env b info previous).store (A.pop b hrem) :=
    hchecks.represents h hrem
  have hbefore := hchecks.before h
  unfold WeightsShown
  change (repWeightsCommit_ l.repWeights (restoredWeights b previous)).Shows _ _
  rw [restoredWeights_eq]
  refine shows_exchange hshown h hafter (fun x hx => ?_) (fun x hx => ?_) (fun g => ?_) hfits
  · rw [← Option.some.inj hx]
    exact A.mem_heads.mpr ⟨hrem.mem, hrem.top⟩
  · rcases hx with hx | hx
    · rw [← Option.some.inj hx]
    · obtain ⟨hp, hf⟩ : Before A.blocks (some x) b := hx ▸ hbefore
      exact (Block.hasRepresentative_of_type (A.succeeds hp hrem.mem hf).type).symm
  · rw [hafter.sumHeads_eq, h.sumHeads_eq, Option.elim_some]
    exact (A.sum_heads_pop hrem hbefore g).symm

theorem same_heads_weights (h : Represents l.store A) (h' : Represents l'.store A)
    (hw : l'.repWeights = l.repWeights) (hshown : WeightsShown l) : WeightsShown l' := by
  have hsum (g : Block → Nat) : l'.store.sumHeads g = l.store.sumHeads g := by
    rw [h.sumHeads_eq, h'.sumHeads_eq]
  have hweight : l'.store.weight = l.store.weight := funext fun r => hsum _
  have htotal : l'.store.totalWeight = l.store.totalWeight := hsum _
  unfold WeightsShown
  rw [hw, hweight, htotal]
  exact hshown

theorem Step.weights (hcf : CollisionFree env blocks) (hstep : Step env blocks l l')
    (h : Tracks blocks l A) (hshown : WeightsShown l) (hfits : WeightsFit l') :
    WeightsShown l' := by
  rcases hstep.cases with ⟨call, hmem, heffect⟩ | rfl | ⟨call, fails, code, t, -, rfl⟩
  · cases heffect with
    | append hchecks =>
        have hext := hchecks.extends h.represents (hcf.ne_zero _ hmem)
          (hcf.ne_genesis_link _ hmem) (hcf.height_ne _ hmem)
        exact append_weights h.represents hext hchecks hshown hfits
    | rollback hchecks => exact rollback_weights h.represents hchecks hshown hfits
    | prepend hchecks =>
        exact absurd hchecks (checkPrepend_ne_ok h.represents (hcf.height_ne _ hmem))
    | confirm hchecks =>
        exact same_heads_weights h.represents (represents_confirm hcf h hmem hchecks) rfl hshown
    | confirmed => exact hshown
  · exact hshown
  · exact hshown

theorem genesis_weights (hcf : CollisionFree env blocks)
    (enableRichList enableDelegatorList : Bool) :
    WeightsShown (genesisLedger env enableRichList enableDelegatorList) := by
  have hrep := (tracks_genesis hcf enableRichList enableDelegatorList).represents
  have hheads : (Lattice.genesis hcf).heads = {genesisBlock env.network} := by
    ext b
    simp only [Lattice.mem_heads, Lattice.genesis, Finset.mem_singleton, forall_eq,
      and_iff_left_iff_imp]
    rintro rfl
    exact Follows.irrefl _
  have hsum (g : Block → Nat) : (genesisLedger env enableRichList
      enableDelegatorList).store.sumHeads g = g (genesisBlock env.network) := by
    rw [hrep.sumHeads_eq, hheads, Finset.sum_singleton]
  have hlt := (genesisBlock env.network).totalWeight_lt
  have hcounts : ∀ b ∈ some (genesisBlock env.network), b.hasRepresentative = true := by
    rintro b ⟨⟩
    rfl
  have hshows := RepWeights.shows_empty.deposit hcounts
    (fun r => by
      have hle := (genesisBlock env.network).weight_le r
      rw [Option.elim_some]
      omega)
    (by rwa [Nat.zero_add])
  have hweight : (genesisLedger env enableRichList enableDelegatorList).store.weight =
      fun r => 0 + (genesisBlock env.network).weight r := by
    funext r
    rw [Store.weight, hsum, Nat.zero_add]
  have htotal : (genesisLedger env enableRichList enableDelegatorList).store.totalWeight =
      0 + (genesisBlock env.network).totalWeight := by
    rw [Store.totalWeight, hsum, Nat.zero_add]
  unfold WeightsShown
  rw [hweight, htotal, genesisLedger_eq]
  exact hshows

-- The run lemma, for runs that never fill 128 bits.
theorem ReachableWithin.weights (hcf : CollisionFree env blocks)
    (h : ReachableWithin env blocks WeightsFit l) : WeightsShown l := by
  induction h with
  | genesis enableRichList enableDelegatorList _ =>
      exact genesis_weights hcf enableRichList enableDelegatorList
  | step hl hstep hbound ih =>
      obtain ⟨A, hA⟩ := hl.reachable.tracks hcf
      exact hstep.weights hcf hA ih hbound

end Run

section Exact

-- The entries add up to the weight of all heads.
theorem entries_sum {env : Env} {A : Lattice env} {s : Store} {w : RepWeights}
    (h : Represents s A) (hw : w.Shows s.weight s.totalWeight) :
    (w.weights.sum fun _ amount => amount.toNat) = s.totalWeight := by
  have hkeys (r : Account) : r ∈ w.weights.keys ↔ s.weight r ≠ 0 := by
    rw [Table.mem_keys, hw.get r]
    split <;> simp_all
  have hentry : ∀ r ∈ w.weights.keys,
      ((w.weights.get r).elim 0 fun amount => amount.toNat) = ∑ b ∈ A.heads, b.weight r := by
    intro r hr
    rw [← h.sumHeads_eq, hw.get r, if_neg ((hkeys r).mp hr), Option.elim_some, BitVec.toNat_ofNat,
      Nat.mod_eq_of_lt (hw.lt r)]
    rfl
  have hhead : ∀ b ∈ A.heads, ∑ r ∈ w.weights.keys, b.weight r = b.totalWeight := by
    intro b hb
    by_cases hr : b.representative ∈ w.weights.keys
    · rw [Finset.sum_eq_single_of_mem _ hr fun r _ hne => by simp [Block.weight, Ne.symm hne]]
      simp [Block.weight, Block.totalWeight]
    · -- a representative without an entry has no weight, and neither has this head
      have hz : s.weight b.representative = 0 := by simpa using (not_congr (hkeys _)).mp hr
      have hle := h.le_sumHeads hb (·.weight b.representative)
      have hzero : b.weight b.representative = 0 := Nat.le_zero.mp (hz ▸ hle)
      have hall : b.totalWeight = 0 := by
        rw [← hzero]
        simp [Block.weight, Block.totalWeight]
      rw [hall]
      refine Finset.sum_eq_zero fun r _ => ?_
      have hle := b.weight_le r
      omega
  rw [Table.sum, Finset.sum_congr rfl hentry, Finset.sum_comm, Finset.sum_congr rfl hhead,
    Store.totalWeight, h.sumHeads_eq]

-- The weights in memory are the sums over the heads, a restart finds the same, and
-- no assertion was met.
structure WeightsExact (l : Ledger) : Prop where
  weight : ∀ r, (l.repWeights.weights.get r).map BitVec.toNat =
    if l.store.weight r = 0 then none else some (l.store.weight r)
  total : l.repWeights.total.toNat = l.repWeights.weights.sum fun _ amount => amount.toNat
  restart : ∀ accounts, Enumerates l.store accounts → ∀ enableRichList enableDelegatorList,
    ∃ l', (Ledger.start enableRichList enableDelegatorList l.store).initMemoryTables_ accounts =
      .ok l' ∧ l'.repWeights = l.repWeights
  asserted : l.repWeights.asserted = false

theorem WeightsShown.exact {env : Env} {A : Lattice env} {l : Ledger} (h : Represents l.store A)
    (hshown : WeightsShown l) (hfits : WeightsFit l) : WeightsExact l where
  weight r := by
    rw [hshown.get r]
    split
    · rfl
    · rw [Option.map_some, BitVec.toNat_ofNat, Nat.mod_eq_of_lt (hshown.lt r)]
  total := by rw [hshown.total, entries_sum h hshown]
  restart accounts henum enableRichList enableDelegatorList := by
    obtain ⟨l', hl', hshows⟩ :=
      rebuilt_weights h henum hfits enableRichList enableDelegatorList
    exact ⟨l', hl', hshows.unique hshown⟩
  asserted := hshown.asserted

-- Appends, prepends, rollbacks and confirms, committed or aborted, in any order.
theorem reachable_weights_exact {env : Env} {blocks : Set Block} {l : Ledger}
    (hcf : CollisionFree env blocks) (h : ReachableWithin env blocks WeightsFit l) :
    WeightsExact l := by
  obtain ⟨A, hA⟩ := h.reachable.tracks hcf
  exact (h.weights hcf).exact hA.represents h.within

theorem sampleLedger_within :
    ReachableWithin sampleEnv {b | b ∈ sampleBlocks} WeightsFit sampleLedger := by
  have hsome : (replay sampleEnv (fun l => l.store.totalWeight < 2 ^ 128)
      (genesisLedger sampleEnv true true) sampleCalls).isSome := by
    decide +kernel
  obtain ⟨l, hl⟩ := Option.isSome_iff_exists.mp hsome
  have hmem : ∀ call ∈ sampleCalls, call.block ∈ sampleBlocks := by decide +kernel
  rw [sampleLedger, replay_untested hl]
  exact (ReachableWithin.genesis true true (by unfold WeightsFit; decide +kernel)).replay
    (fun l hl => by simpa [WeightsFit] using hl) hmem hl

theorem sampleLedger_weights_exact : WeightsExact sampleLedger :=
  reachable_weights_exact sample_collisionFree sampleLedger_within

end Exact

-- Without the bound the weights are lost: three holding periods that fill the 64-bit
-- clock make more coins than 128 bits can count.
section Overflow

-- In each period the genesis account waits until `time`, its representative claims
-- the reward and sends it on, and the genesis account receives it.
def overflowChange (head : Block) (time : Nat) (height : UInt64) : Block :=
  sampleTx .change 512 1 time height (genesisPublicKey .test) (sampleEnv.hash head)
    (genesisRepresentative .test) head.balance.toNat 0

def overflowReward (source : Block) (time : Nat) (previous : BlockHash)
    (height : UInt64) (price : Nat) : Block :=
  sampleRep .reward 0 time height (genesisRepresentative .test) previous
    ((rewardAmount .test source.balance source.timestamp time).toNat - price)
    (sampleEnv.hash source)

def overflowSend (reward : Block) (destination : Account) (height : UInt64) : Block :=
  sampleRep .send 1 reward.timestamp height (genesisRepresentative .test)
    (sampleEnv.hash reward) 0 destination

def overflowReceive (head reward send : Block) (height : UInt64) : Block :=
  sampleTx .receive 512 2 send.timestamp height (genesisPublicKey .test) (sampleEnv.hash head)
    (genesisRepresentative .test) (head.balance.toNat + reward.balance.toNat)
    (sampleEnv.hash send)

def overflowTime1 : Nat := TEST_EPOCH_TIMESTAMP + 6 * 10 ^ 18
def overflowTime2 : Nat := overflowTime1 + 6 * 10 ^ 18
def overflowTime3 : Nat := overflowTime2 + 21 * 10 ^ 10
def overflowTime4 : Nat := overflowTime3 + 56 * 10 ^ 7

def overflowChange1 := overflowChange (genesisBlock .test) overflowTime1 1
def overflowReward1 := overflowReward (genesisBlock .test) overflowTime1 0 0 mRAI
def overflowSend1 := overflowSend overflowReward1 (genesisPublicKey .test) 1
def overflowReceive1 :=
  overflowReceive overflowChange1 overflowReward1 overflowSend1 2

def overflowChange2 := overflowChange overflowReceive1 overflowTime2 3
def overflowReward2 := overflowReward overflowReceive1 overflowTime2
  (sampleEnv.hash overflowSend1) 2 0
def overflowSend2 := overflowSend overflowReward2 (genesisPublicKey .test) 3
def overflowReceive2 :=
  overflowReceive overflowChange2 overflowReward2 overflowSend2 4

def overflowChange3 := overflowChange overflowReceive2 overflowTime3 5
def overflowReward3 := overflowReward overflowReceive2 overflowTime3
  (sampleEnv.hash overflowSend2) 4 0
def overflowSend3 := overflowSend overflowReward3 (genesisPublicKey .test) 5
def overflowReceive3 :=
  overflowReceive overflowChange3 overflowReward3 overflowSend3 6

-- The last reward goes to the account 1, which opens with the same representative.
def overflowChange4 := overflowChange overflowReceive3 overflowTime4 7
def overflowReward4 := overflowReward overflowReceive3 overflowTime4
  (sampleEnv.hash overflowSend3) 6 0
def overflowSend4 := overflowSend overflowReward4 1 7
def overflowLast : Block := sampleTx .receive 1 1 overflowTime4 0 1 0
  (genesisRepresentative .test) (overflowReward4.balance.toNat - mRAI)
  (sampleEnv.hash overflowSend4)

def overflowRun : List Block :=
  [overflowChange1, overflowReward1, overflowSend1, overflowReceive1,
    overflowChange2, overflowReward2, overflowSend2, overflowReceive2,
    overflowChange3, overflowReward3, overflowSend3, overflowReceive3,
    overflowChange4, overflowReward4, overflowSend4]

def overflowBlocks : List Block := genesisBlock .test :: overflowLast :: overflowRun

-- The ledger before the last block.
def overflowLedger : Ledger :=
  (replay sampleEnv (fun _ => true) (genesisLedger sampleEnv true true)
    (overflowRun.map (.append overflowTime4))).getD (genesisLedger sampleEnv true true)

theorem overflow_collisionFree : CollisionFree sampleEnv {b | b ∈ overflowBlocks} where
  hashInput := by
    change ∀ a ∈ overflowBlocks, ∀ b ∈ overflowBlocks, _
    decide +kernel
  ne_zero := by
    change ∀ b ∈ overflowBlocks, _
    decide +kernel
  ne_genesis_link := by
    change ∀ b ∈ overflowBlocks, _
    decide +kernel
  height_ne := by
    change ∀ b ∈ overflowBlocks, _
    decide +kernel
  genesis_mem := by
    change genesisBlock sampleEnv.network ∈ overflowBlocks
    decide +kernel

theorem overflowLedger_reachable :
    Reachable sampleEnv {b | b ∈ overflowBlocks} overflowLedger := by
  have hsome : (replay sampleEnv (fun _ => true) (genesisLedger sampleEnv true true)
      (overflowRun.map (.append overflowTime4))).isSome := by
    decide +kernel
  obtain ⟨l, hl⟩ := Option.isSome_iff_exists.mp hsome
  have hmem : ∀ call ∈ overflowRun.map (BlockCall.append overflowTime4),
      call.block ∈ overflowBlocks := by
    decide +kernel
  rw [overflowLedger, hl]
  exact (Reachable.genesis true true).replay hmem hl

-- Appending the last block wraps the weight of the representative; rolling it back
-- then meets an assertion.
theorem overflow_weights : CollisionFree sampleEnv {b | b ∈ overflowBlocks} ∧
    ∃ l, Reachable sampleEnv {b | b ∈ overflowBlocks} l ∧ l.repWeights.asserted = true ∧
      ¬WeightsExact l := by
  refine ⟨overflow_collisionFree, ?_⟩
  have hrun : (replay sampleEnv (fun _ => true) overflowLedger
      [.append overflowTime4 overflowLast, .rollback overflowLast]).any
        fun l => l.repWeights.asserted := by
    decide +kernel
  obtain ⟨l, hl, hasserted⟩ := Option.any_eq_true _ _ |>.mp hrun
  have hmem : ∀ call ∈ [BlockCall.append overflowTime4 overflowLast, .rollback overflowLast],
      call.block ∈ overflowBlocks := by
    decide +kernel
  refine ⟨l, overflowLedger_reachable.replay hmem hl, hasserted, fun hexact => ?_⟩
  rw [hexact.asserted] at hasserted
  cases hasserted

end Overflow

end Raicoin
