import Mathlib.Order.Lattice.Nat
import Raicoin.Lattice.Issuance
import Raicoin.Node.BlockProcessor.Replay
import Raicoin.Refinement.Reach

-- No coin earns twice for the same second.
namespace Raicoin

open Lib

namespace Store

variable (env : Env) (s : Store)

-- What the accounts held at a time, by the highest block of each up to then.
def balancesAt (t : Nat) : Nat := ∑ b ∈ standing s.blockSet t, b.balance.toNat

-- What a REWARD took in, which is the amount of the rewardable that it consumed.
def claimed (r : Block) : Nat := earned env (s.blockGet r.previous) r

def rewardBlocks : Finset Block := s.blockSet.filter fun r => r.opcode = .reward

-- All rewards that were ever yielded, pending or consumed.
def rewardsTotal : Nat :=
  (s.rewardables.sum fun _ info => info.amount.toNat) + ∑ r ∈ s.rewardBlocks, s.claimed env r

def latest : Nat := s.blockSet.sup Block.timestamp

end Store

structure IssuanceBounded (env : Env) (s : Store) : Prop where
  balances : ∀ t, s.balancesAt t ≤ (genesisBalance env.network).toNat +
    ∑ r ∈ s.rewardBlocks with r.timestamp ≤ t, s.claimed env r
  rewards : s.rewardsTotal env * (86400 * RAI) ≤
    ∑ t ∈ Finset.Icc (epochTimestamp env.network) s.latest,
      rewardRate env.network t * s.balancesAt t

section Shown

variable {env : Env} {A : Lattice env} {s : Store}

theorem Represents.before_previous (h : Represents s A) {b : Block} (hb : b ∈ A.blocks) :
    Before A.blocks (s.blockGet b.previous) b := by
  obtain ⟨o, ho⟩ := A.before_exists hb
  cases o with
  | none =>
      have hnone : s.blockGet b.previous = none := by
        rw [(A.opens b hb ho).previous, Option.eq_none_iff_forall_ne_some]
        intro p hp
        obtain ⟨hmem, hhash⟩ := h.mem_of_get hp
        exact A.hash_ne_zero p hmem hhash
      rwa [hnone]
  | some p =>
      obtain ⟨hp, hf⟩ := ho
      rw [(A.succeeds hp hb hf).previous, h.blockGet hp]
      exact ⟨hp, hf⟩

theorem Represents.balancesAt_le (h : Represents s A) (t : Nat) :
    s.balancesAt t ≤ (genesisBalance env.network).toNat +
      ∑ r ∈ s.rewardBlocks with r.timestamp ≤ t, s.claimed env r := by
  rw [Store.balancesAt, h.blockSet]
  rcases Nat.lt_or_ge t (epochTimestamp env.network) with ht | ht
  · rw [A.standing_early ht, Finset.sum_empty]
    exact Nat.zero_le _
  · have hprevious : ∀ b ∈ (A.upTo t ht).blocks,
        Before (A.upTo t ht).blocks (s.blockGet b.previous) b := by
      intro b hb
      obtain ⟨hmem, hle⟩ := Finset.mem_filter.mp hb
      exact A.before_upTo hmem hle (h.before_previous hmem)
    have hbound := Lattice.balances_le hprevious
    have hrewards : (A.upTo t ht).blocks.filter (fun r => r.opcode = .reward) =
        s.rewardBlocks.filter fun r => r.timestamp ≤ t := by
      rw [Store.rewardBlocks, h.blockSet, Finset.filter_filter, Lattice.upTo, Finset.filter_filter]
      exact Finset.filter_congr fun r _ => and_comm
    rw [A.standing_eq ht]
    rwa [hrewards] at hbound

-- A reward is pending or was claimed, and no more than once.
theorem Represents.rewardsTotal_le (h : Represents s A) :
    s.rewardsTotal env ≤ ∑ b ∈ A.blocks, Lattice.yielded env A.blocks b := by
  classical
  rw [Store.rewardsTotal, Store.rewardBlocks, h.blockSet,
    ← Finset.sum_filter_add_sum_filter_not A.blocks
      (fun b => ¬Taken A.blocks .reward (env.hash b))]
  refine Nat.add_le_add ?_ ?_
  · refine sum_le_of_matched (fun key b => key.2 = env.hash b) (fun key hkey => ?_)
      (fun key hkey key' hkey' b _ he he' => ?_)
    · obtain ⟨info, hget⟩ := (Table.mem_keys _ _).mp hkey
      obtain ⟨⟨b, hb, hrep, hk, c, hc, hf, -, rfl⟩, hfree⟩ := (h.rewardables _ _).mp hget
      have hhash : key.2 = env.hash b := (Prod.ext_iff.mp hk).2
      refine ⟨b, Finset.mem_filter.mpr ⟨hb, hhash ▸ hfree⟩, hhash, ?_⟩
      rw [hget, Option.elim_some, Lattice.yielded_eq hc hf hrep]
    · obtain ⟨info, hget⟩ := (Table.mem_keys _ _).mp hkey
      obtain ⟨info', hget'⟩ := (Table.mem_keys _ _).mp hkey'
      obtain ⟨⟨x, hx⟩, -⟩ := (h.rewardables _ _).mp hget
      obtain ⟨⟨y, hy⟩, -⟩ := (h.rewardables _ _).mp hget'
      exact (A.yields_unique hx hy (he.trans he'.symm)).2.1
  · refine sum_le_of_matched (fun r b => r.link = env.hash b) (fun r hr => ?_)
      (fun r hr q hq b _ he he' => ?_)
    · obtain ⟨hr, hop⟩ := Finset.mem_filter.mp hr
      obtain ⟨info, ⟨b, hb, hrep, hkey, c, hc, hf, -, rfl⟩, -, o, ho, hearned⟩ :=
        A.rewarded r hr hop
      have hlink : r.link = env.hash b := (Prod.ext_iff.mp hkey).2
      refine ⟨b, Finset.mem_filter.mpr ⟨hb, not_not.mpr ⟨r, hr, hop, hlink⟩⟩, hlink, ?_⟩
      rw [Store.claimed, A.before_unique (h.before_previous hr) ho, hearned,
        Lattice.yielded_eq hc hf hrep]
    · obtain ⟨hr, hop⟩ := Finset.mem_filter.mp hr
      obtain ⟨hq, hopq⟩ := Finset.mem_filter.mp hq
      exact A.taken_once r hr q hq (.inr hop) (hopq.trans hop.symm) (he'.trans he.symm)

theorem Represents.issuanceBounded (h : Represents s A) : IssuanceBounded env s where
  balances := h.balancesAt_le
  rewards := by
    have hday : 86400 * RAI = DAY * RAI := rfl
    have hyielded := A.sum_yielded_le
    have htotal := Nat.mul_le_mul_right (DAY * RAI) h.rewardsTotal_le
    simp only [Store.latest, Store.balancesAt, h.blockSet, hday]
    exact htotal.trans hyielded

theorem AppendChecks.claimed_eq {now : Nat} {on : Position} {b : Block} (h : Represents s A)
    (hext : A.Extends b) (hchecks : AppendChecks env now s b on) (hop : b.opcode = .reward) :
    ∃ info, s.rewardables.get (b.account, b.link) = some info ∧
      (appendedStore env s b on).claimed env b = info.amount.toNat := by
  obtain ⟨info, -, hget, -, -, -, hearned⟩ := hchecks.reward hop
  refine ⟨info, hget, ?_⟩
  have hmem : b ∈ (A.push b hext).blocks := Finset.mem_insert_self _ _
  have hprevious := (hchecks.represents h hext).before_previous hmem
  have hbefore : Before (A.push b hext).blocks on.head b :=
    (before_insert hext.top hmem).mpr (hchecks.before h)
  rw [Store.claimed, (A.push b hext).before_unique hprevious hbefore, hearned]

end Shown

-- What a REWARD is counted with is the amount of the entry that it consumes when it comes.
theorem reachable_issuance {env : Env} {blocks : Set Block} {l : Ledger}
    (hcf : CollisionFree env blocks) (h : Reachable env blocks l) :
    IssuanceBounded env l.store ∧
    ∀ now b fails t, b ∈ blocks → b.opcode = .reward →
      appendBlock_ env now b (.begin_ l fails) = .ok () t →
      ∃ info, l.store.rewardables.get (b.account, b.link) = some info ∧
        t.commit.store.claimed env b = info.amount.toNat := by
  obtain ⟨A, hA⟩ := h.tracks hcf
  refine ⟨hA.represents.issuanceBounded, fun now b fails t hb hop hrun => ?_⟩
  obtain ⟨on, hchecks, rfl⟩ := appendBlock_ok hrun
  have hext := hchecks.extends hA.represents (hcf.ne_zero b hb) (hcf.ne_genesis_link b hb)
    (hcf.height_ne b hb)
  rw [appended_commit, Ledger.appended_store]
  exact hchecks.claimed_eq hA.represents hext hop

theorem sampleLedger_issuance : IssuanceBounded sampleEnv sampleLedger.store :=
  (reachable_issuance sample_collisionFree sampleLedger_reachable).1

end Raicoin
