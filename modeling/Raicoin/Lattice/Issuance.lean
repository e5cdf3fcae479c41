import Raicoin.Lattice.Heads
import Raicoin.Lib.Sums
import Mathlib.Algebra.BigOperators.Ring.Finset
import Mathlib.Order.Interval.Finset.Nat
import Mathlib.Tactic.Ring

-- How many coins the accounts of a lattice hold, now and at any time before.
namespace Raicoin

open Lib

-- The highest block of each account up to a time.
def standing (blocks : Finset Block) (t : Nat) : Finset Block :=
  blocks.filter fun b => b.timestamp ≤ t ∧
    ∀ c ∈ blocks, c.account = b.account → c.timestamp ≤ t → c.height ≤ b.height

namespace Lattice

section UpTo

variable {env : Env} (A : Lattice env) {t : Nat} {b : Block}

theorem before_upTo (hb : b ∈ A.blocks) (hle : b.timestamp ≤ t) {o : Option Block}
    (ho : Before A.blocks o b) : Before (A.blocks.filter (·.timestamp ≤ t)) o b := by
  cases o with
  | none => exact ho
  | some p =>
      obtain ⟨hp, hf⟩ := ho
      have htime := (A.succeeds hp hb hf).timestamp
      exact ⟨Finset.mem_filter.mpr ⟨hp, by omega⟩, hf⟩

theorem gains_upTo (hb : b ∈ A.blocks) (hle : b.timestamp ≤ t) {amount : Amount}
    (h : Gains env A.blocks b amount) : Gains env (A.blocks.filter (·.timestamp ≤ t)) b amount := by
  obtain ⟨o, ho, hearned⟩ := h
  exact ⟨o, A.before_upTo hb hle ho, hearned⟩

-- What was received up to a time was sent before, and what was rewarded was earned before.
def upTo (t : Nat) (ht : epochTimestamp env.network ≤ t) : Lattice env where
  blocks := A.blocks.filter (·.timestamp ≤ t)
  genesis_mem := Finset.mem_filter.mpr
    ⟨A.genesis_mem, (genesisBlock_checked env.network).2.2.2.2.1.trans_le ht⟩
  unique b hb c hc := A.unique b (Finset.mem_filter.mp hb).1 c (Finset.mem_filter.mp hc).1
  hash_inj b hb c hc := A.hash_inj b (Finset.mem_filter.mp hb).1 c (Finset.mem_filter.mp hc).1
  hash_ne_zero b hb := A.hash_ne_zero b (Finset.mem_filter.mp hb).1
  hash_ne_link b hb := A.hash_ne_link b (Finset.mem_filter.mp hb).1
  height_ne b hb := A.height_ne b (Finset.mem_filter.mp hb).1
  legal b hb := A.legal b (Finset.mem_filter.mp hb).1
  epoch_le b hb := A.epoch_le b (Finset.mem_filter.mp hb).1
  opens b hb := A.opens b (Finset.mem_filter.mp hb).1
  linked b hb hz := by
    obtain ⟨hmem, hle⟩ := Finset.mem_filter.mp hb
    obtain ⟨p, hp, hs⟩ := A.linked b hmem hz
    have htime := hs.timestamp
    exact ⟨p, Finset.mem_filter.mpr ⟨hp, by omega⟩, hs⟩
  received r hr hop hg := by
    obtain ⟨hmem, hle⟩ := Finset.mem_filter.mp hr
    obtain ⟨info, ⟨s, hs, hsend, hkey, p, hp, hf, rfl⟩, htime, hgains⟩ := A.received r hmem hop hg
    dsimp only at htime
    have hbelow := (A.succeeds hp hs hf).timestamp
    exact ⟨_, ⟨s, Finset.mem_filter.mpr ⟨hs, by omega⟩, hsend, hkey, p,
      Finset.mem_filter.mpr ⟨hp, by omega⟩, hf, rfl⟩, htime, A.gains_upTo hmem hle hgains⟩
  rewarded r hr hop := by
    obtain ⟨hmem, hle⟩ := Finset.mem_filter.mp hr
    obtain ⟨info, ⟨b, hb, hrep, hkey, c, hc, hf, hne, rfl⟩, htime, hgains⟩ :=
      A.rewarded r hmem hop
    dsimp only at htime
    -- a reward is not valid before the block that ended its time
    have hbc := (A.succeeds hb hc hf).timestamp
    have hvalid := le_rewardTimestamp hbc (A.epoch_le b hb)
    exact ⟨_, ⟨b, Finset.mem_filter.mpr ⟨hb, by omega⟩, hrep, hkey, c,
      Finset.mem_filter.mpr ⟨hc, by omega⟩, hf, hne, rfl⟩, htime, A.gains_upTo hmem hle hgains⟩
  taken_once r hr q hq :=
    A.taken_once r (Finset.mem_filter.mp hr).1 q (Finset.mem_filter.mp hq).1
  ordered := by
    obtain ⟨rank, hrank⟩ := A.ordered
    exact ⟨rank, fun b hb c hc => hrank b (Finset.mem_filter.mp hb).1 c (Finset.mem_filter.mp hc).1⟩

theorem standing_eq (ht : epochTimestamp env.network ≤ t) :
    standing A.blocks t = (A.upTo t ht).heads := by
  ext b
  rw [mem_heads, standing, Finset.mem_filter, upTo, Finset.mem_filter]
  constructor
  · rintro ⟨hb, hle, htop⟩
    refine ⟨⟨hb, hle⟩, fun c hc hf => ?_⟩
    obtain ⟨hc, hct⟩ := Finset.mem_filter.mp hc
    have hheight := htop c hc hf.1 hct
    have hnext := hf.2
    omega
  · rintro ⟨⟨hb, hle⟩, htop⟩
    exact ⟨hb, hle, fun c hc haccount hct =>
      (A.upTo t ht).le_top htop (Finset.mem_filter.mpr ⟨hc, hct⟩) haccount⟩

-- Before the epoch there is nothing.
theorem standing_early (ht : t < epochTimestamp env.network) : standing A.blocks t = ∅ := by
  rw [Finset.eq_empty_iff_forall_notMem]
  intro b hb
  obtain ⟨hb, hle, -⟩ := Finset.mem_filter.mp hb
  have hepoch := A.epoch_le b hb
  omega

end UpTo

-- The coins that the blocks take in and send, where `previous` finds what a block stands on.
section Balances

variable {env : Env} {A : Lattice env} {previous : Block → Option Block}
  (hprevious : ∀ b ∈ A.blocks, Before A.blocks (previous b) b) {b : Block}
include hprevious

theorem sum_below (hb : b ∈ A.blocks) (g : Block → Nat) :
    ∑ p ∈ A.blocks with Follows p b, g p = (previous b).elim 0 g := by
  have hbefore := hprevious b hb
  cases ho : previous b with
  | none =>
      rw [ho] at hbefore
      refine Finset.sum_eq_zero fun p hp => ?_
      have hf := (Finset.mem_filter.mp hp).2
      unfold Before at hbefore
      unfold Follows at hf
      omega
  | some p =>
      rw [ho] at hbefore
      have hone : (A.blocks.filter fun q => Follows q b) = {p} := by
        ext q
        rw [Finset.mem_filter, Finset.mem_singleton]
        refine ⟨fun hq => Option.some.inj (A.before_unique (o := some q) hq hbefore), ?_⟩
        rintro rfl
        exact hbefore
      rw [hone, Finset.sum_singleton, Option.elim_some]

-- Every block but the heads is below exactly one other.
theorem sum_previous (g : Block → Nat) :
    ∑ b ∈ A.blocks, (previous b).elim 0 g + ∑ b ∈ A.heads, g b = ∑ b ∈ A.blocks, g b := by
  have hsplit := Finset.sum_filter_add_sum_filter_not A.blocks
    (fun p => ∃ c ∈ A.blocks, Follows p c) g
  have hheads : (A.blocks.filter fun p => ¬∃ c ∈ A.blocks, Follows p c) = A.heads := by
    unfold heads
    congr 1
    funext p
    simp
  rw [hheads] at hsplit
  rw [← hsplit, ← sum_by_match Follows g
    (fun p _ b hb c hc hpb hpc => A.follower_unique hb hc hpb hpc)]
  congr 1
  exact Finset.sum_congr rfl fun b hb => (sum_below hprevious hb g).symm

-- What a SEND takes from the balance.
def spent (previous : Option Block) (b : Block) : Nat :=
  previous.elim 0 fun p => p.balance.toNat - b.balance.toNat

omit hprevious in
theorem balance_le {o : Option Block} (hb : b ∈ A.blocks) (ho : Before A.blocks o b) :
    b.balance.toNat + (if b.opcode = .send then spent o b else 0) ≤
      o.elim 0 (fun p => p.balance.toNat) +
        (if b.opcode = .receive ∧ b ≠ genesisBlock env.network then earned env o b else 0) +
        (if b.opcode = .reward then earned env o b else 0) +
        if b = genesisBlock env.network then (genesisBalance env.network).toNat else 0 := by
  by_cases hgenesis : b = genesisBlock env.network
  · obtain ⟨-, hop, -, -, -, -, -, -, hbalance, -⟩ := genesisBlock_checked env.network
    rw [if_pos hgenesis, if_neg (by simp [hgenesis, hop]), hgenesis, hbalance]
    omega
  · rw [if_neg hgenesis]
    cases o with
    | none =>
        rcases (A.opens b hb ho).opcode with hop | hop <;>
          simp only [hop, hgenesis, earned, ne_eq, not_false_eq_true, and_true, reduceCtorEq,
            if_true, if_false] <;> omega
    | some p =>
        have hbalance := (A.succeeds ho.1 hb ho.2).balance
        unfold BalanceRule at hbalance
        cases hop : b.opcode <;> rw [hop] at hbalance <;>
          simp only [hgenesis, earned, spent, Option.elim_some, ne_eq, not_false_eq_true, and_true,
            reduceCtorEq, if_true, if_false]
        case invalid => exact hbalance.elim
        case change | bind => rw [hbalance]
        all_goals
          dsimp only at hbalance
          omega

-- What was sent pays for what was received.
theorem sum_received_le : ∑ r ∈ A.blocks with r.opcode = .receive ∧ r ≠ genesisBlock env.network,
      earned env (previous r) r ≤ ∑ s ∈ A.blocks with s.opcode = .send, spent (previous s) s := by
  refine sum_le_of_matched (fun r s => r.link = env.hash s) (fun r hr => ?_)
    (fun r hr q hq s _ hrs hqs => ?_)
  · obtain ⟨hr, hop, hgenesis⟩ := Finset.mem_filter.mp hr
    obtain ⟨info, ⟨s, hs, hsend, hkey, p, hp, hf, rfl⟩, -, o, ho, hearned⟩ :=
      A.received r hr hop hgenesis
    refine ⟨s, Finset.mem_filter.mpr ⟨hs, hsend⟩, (Prod.ext_iff.mp hkey).2, ?_⟩
    have hbalance := (A.succeeds hp hs hf).balance
    simp only [BalanceRule, hsend] at hbalance
    rw [A.before_unique (hprevious r hr) ho, hearned,
      A.before_unique (hprevious s hs) (show Before A.blocks (some p) s from ⟨hp, hf⟩), spent,
      Option.elim_some, BitVec.toNat_sub_of_le (BitVec.le_def.mpr hbalance.le)]
  · obtain ⟨hr, hop, -⟩ := Finset.mem_filter.mp hr
    obtain ⟨hq, hopq, -⟩ := Finset.mem_filter.mp hq
    exact A.taken_once r hr q hq (.inl hop) (hopq.trans hop.symm) (hqs.trans hrs.symm)

-- The accounts hold no more than the genesis block gave and rewards added.
theorem balances_le : ∑ b ∈ A.heads, b.balance.toNat ≤ (genesisBalance env.network).toNat +
    ∑ r ∈ A.blocks with r.opcode = .reward, earned env (previous r) r := by
  have hblocks := Finset.sum_le_sum fun b hb => balance_le hb (hprevious b hb)
  simp only [Finset.sum_add_distrib, ← Finset.sum_filter] at hblocks
  rw [Finset.filter_eq', if_pos A.genesis_mem, Finset.sum_singleton] at hblocks
  have hheads := sum_previous hprevious fun b => b.balance.toNat
  have hreceived := sum_received_le hprevious
  omega

end Balances

-- The rewards that the blocks yield, each for the seconds in which its block was the highest.
section Rewards

variable {env : Env} {A : Lattice env} {b c : Block}

theorem mem_standing (hb : b ∈ A.blocks) (hc : c ∈ A.blocks) (hf : Follows b c) {t : Nat}
    (hle : b.timestamp ≤ t) (hlt : t < c.timestamp) : b ∈ standing A.blocks t := by
  refine Finset.mem_filter.mpr ⟨hb, hle, fun d hd haccount hdt => ?_⟩
  by_contra hhigher
  have hheight := hf.2
  have htime := A.timestamp_le hc hd (hf.1.trans haccount.symm) (by omega)
  omega

theorem rewardAmount_le_standing (hb : b ∈ A.blocks) (hc : c ∈ A.blocks) (hf : Follows b c) :
    (rewardAmount env.network b.balance b.timestamp c.timestamp).toNat * (DAY * RAI) ≤
      ∑ t ∈ Finset.Icc (epochTimestamp env.network) (A.blocks.sup Block.timestamp) with
        b ∈ standing A.blocks t, rewardRate env.network t * b.balance.toNat := by
  have hepoch := A.epoch_le b hb
  calc
    _ ≤ b.balance.toNat * rewardRate env.network c.timestamp * (c.timestamp - b.timestamp) :=
      rewardAmount_le _ _ _ _
    _ = ∑ _t ∈ Finset.Ico b.timestamp c.timestamp,
          rewardRate env.network c.timestamp * b.balance.toNat := by
      rw [Finset.sum_const_nat fun _ _ => rfl, Nat.card_Ico]
      ring
    _ ≤ ∑ t ∈ Finset.Ico b.timestamp c.timestamp, rewardRate env.network t * b.balance.toNat := by
      refine Finset.sum_le_sum fun t ht => Nat.mul_le_mul_right _ ?_
      obtain ⟨hle, hlt⟩ := Finset.mem_Ico.mp ht
      exact rewardRate_antitone env.network (by omega) hlt.le
    _ ≤ _ := by
      refine Finset.sum_le_sum_of_subset fun t ht => ?_
      obtain ⟨hle, hlt⟩ := Finset.mem_Ico.mp ht
      have hlatest : c.timestamp ≤ A.blocks.sup Block.timestamp := Finset.le_sup hc
      exact Finset.mem_filter.mpr
        ⟨Finset.mem_Icc.mpr ⟨by omega, by omega⟩, mem_standing hb hc hf hle hlt⟩

-- The amount of the reward that `b` yields once there is a block on it.
def yielded (env : Env) (blocks : Finset Block) (b : Block) : Nat :=
  ∑ c ∈ blocks with Follows b c,
    if b.hasRepresentative = true then
      (rewardAmount env.network b.balance b.timestamp c.timestamp).toNat
    else 0

theorem yielded_eq (hc : c ∈ A.blocks) (hf : Follows b c) (hrep : b.hasRepresentative = true) :
    yielded env A.blocks b =
      (rewardAmount env.network b.balance b.timestamp c.timestamp).toNat := by
  have hone : (A.blocks.filter fun d => Follows b d) = {c} := by
    ext d
    rw [Finset.mem_filter, Finset.mem_singleton]
    refine ⟨fun hd => A.follower_unique hd.1 hc hd.2 hf, ?_⟩
    rintro rfl
    exact ⟨hc, hf⟩
  rw [yielded, hone, Finset.sum_singleton, if_pos hrep]

theorem yielded_le (hb : b ∈ A.blocks) : yielded env A.blocks b * (DAY * RAI) ≤
    ∑ t ∈ Finset.Icc (epochTimestamp env.network) (A.blocks.sup Block.timestamp) with
      b ∈ standing A.blocks t, rewardRate env.network t * b.balance.toNat := by
  by_cases hex : b.hasRepresentative = true ∧ ∃ c ∈ A.blocks, Follows b c
  · obtain ⟨hrep, c, hc, hf⟩ := hex
    rw [yielded_eq hc hf hrep]
    exact rewardAmount_le_standing hb hc hf
  · have hz : yielded env A.blocks b = 0 := by
      refine Finset.sum_eq_zero fun c hc => if_neg fun hrep => ?_
      obtain ⟨hc, hf⟩ := Finset.mem_filter.mp hc
      exact hex ⟨hrep, c, hc, hf⟩
    rw [hz, Nat.zero_mul]
    exact Nat.zero_le _

-- In each second the rewards accrue on no more than the coins that the accounts hold.
theorem sum_yielded_le (A : Lattice env) : (∑ b ∈ A.blocks, yielded env A.blocks b) * (DAY * RAI) ≤
    ∑ t ∈ Finset.Icc (epochTimestamp env.network) (A.blocks.sup Block.timestamp),
      rewardRate env.network t * ∑ b ∈ standing A.blocks t, b.balance.toNat := by
  rw [Finset.sum_mul]
  refine (Finset.sum_le_sum fun b hb => yielded_le hb).trans (Nat.le_of_eq ?_)
  simp only [Finset.mul_sum]
  refine Finset.sum_comm' fun b t => ?_
  rw [Finset.mem_filter]
  constructor
  · rintro ⟨-, ht, hstanding⟩
    exact ⟨hstanding, ht⟩
  · rintro ⟨hstanding, ht⟩
    exact ⟨(Finset.mem_filter.mp hstanding).1, ht, hstanding⟩

end Rewards

end Lattice

end Raicoin
