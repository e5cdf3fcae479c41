import Raicoin.Lib.Quorum
import Raicoin.Node.Election.TallySpec
import Raicoin.Node.BlockProcessor.Replay

-- Two tallies that confirm share most of the weight.
namespace Raicoin

open Lib

namespace Elections

variable {env : Env}

def weightIn (weights : Table Account Amount) (rep : Account) : Nat :=
  (weights.get rep).elim 0 BitVec.toNat

-- The weights of the node are those of `weights`, for the representatives that it has.
structure Uses (s : Elections env) (weights : Table Account Amount) (total : Amount) : Prop where
  weights : ∀ rep w, s.weights.get rep = some w → weights.get rep = some w
  total : s.weightTotal = total

-- Who is counted for a hash: with a weight, not in conflict, and with time left.
def counted (s : Elections env) (e : Election env) (clock : Account → UInt64) (hash : BlockHash) :
    Finset Account :=
  e.votes.keys.filter fun rep => (e.votes.get rep).any (s.counts e.timeDiff clock hash rep)

-- What one tally keeps apart: `invalid_` and `valid_` are sums that have not wrapped.
structure TallySound (s : Elections env) (e : Election env) (order : List Account)
    (clock : Account → UInt64) : Prop where
  unique : ∀ hash hash' amount amount', (hash, amount) ∈ (s.tallyVotes e order clock).candidates →
    (hash', amount') ∈ (s.tallyVotes e order clock).candidates →
    s.weightTotal.toNat * CONFIRM_WEIGHT_PERCENTAGE < amount.toNat * 100 →
    s.weightTotal.toNat * CONFIRM_WEIGHT_PERCENTAGE < amount'.toNat * 100 → hash = hash'
  amount : ∀ hash amount, (hash, amount) ∈ (s.tallyVotes e order clock).candidates →
    amount.toNat = ∑ rep ∈ s.counted e clock hash, (e.votes.get rep).elim 0
      (s.adjusted e.timeDiff clock hash rep)
  once : ∀ hash hash', hash ≠ hash' → Disjoint (s.counted e clock hash) (s.counted e clock hash')
  conflicting : ∀ rep info, e.votes.get rep = some info → info.conflictFound = true →
    ∀ hash, rep ∉ s.counted e clock hash
  fits : (s.tally_ e order clock).valid.toNat + (s.tally_ e order clock).invalid.toNat ≤
    ∑ rep ∈ e.votes.keys, s.weight rep

variable {s : Elections env} {e : Election env} {order : List Account} {clock : Account → UInt64}
  {weights : Table Account Amount} {total : Amount}

theorem mem_counted {rep : Account} {hash : BlockHash} : rep ∈ s.counted e clock hash ↔
    ∃ info, e.votes.get rep = some info ∧ s.counts e.timeDiff clock hash rep info = true := by
  unfold counted
  rw [Finset.mem_filter, Table.mem_keys]
  constructor
  · rintro ⟨⟨info, hinfo⟩, hany⟩
    rw [hinfo] at hany
    exact ⟨info, hinfo, hany⟩
  · rintro ⟨info, hinfo, hcounts⟩
    rw [hinfo]
    exact ⟨⟨info, rfl⟩, hcounts⟩

-- A weight that the node has is one of the weights that are used.
theorem Uses.weight_le (h : s.Uses weights total) (rep : Account) :
    s.weight rep ≤ weightIn weights rep := by
  unfold weight weightIn
  cases hw : s.weights.get rep with
  | none => exact Nat.zero_le _
  | some w =>
      rw [h.weights rep w hw]
      exact Nat.le_refl _

theorem Uses.counted_subset (h : s.Uses weights total) (hash : BlockHash) :
    s.counted e clock hash ⊆ weights.keys := by
  intro rep hrep
  obtain ⟨info, -, hcounts⟩ := mem_counted.mp hrep
  unfold counts at hcounts
  cases hw : s.weights.get rep with
  | none => simp [hw] at hcounts
  | some w => exact (Table.mem_keys _ _).mpr ⟨w, h.weights rep w hw⟩

-- The voters weigh no more than all representatives.
theorem Uses.voters_le (h : s.Uses weights total) (voters : Finset Account) :
    ∑ rep ∈ voters, s.weight rep ≤ ∑ rep ∈ weights.keys, weightIn weights rep := by
  calc
    ∑ rep ∈ voters, s.weight rep ≤ ∑ rep ∈ voters ∪ weights.keys, s.weight rep :=
      Finset.sum_le_sum_of_subset Finset.subset_union_left
    _ ≤ ∑ rep ∈ voters ∪ weights.keys, weightIn weights rep :=
      Finset.sum_le_sum fun rep _ => h.weight_le rep
    _ = ∑ rep ∈ weights.keys, weightIn weights rep := by
      symm
      apply Finset.sum_subset Finset.subset_union_right
      intro rep _ hrep
      unfold weightIn
      cases hw : weights.get rep with
      | none => rfl
      | some w => exact absurd ((Table.mem_keys _ _).mpr ⟨w, hw⟩) hrep

variable (horder : e.votes.Enumerates order)

include horder in
theorem sum_votes : ((e.votes.entriesIn order).map fun vote => s.weight vote.1).sum =
    ∑ rep ∈ e.votes.keys, s.weight rep := by
  rw [horder.sum_entriesIn fun rep _ => s.weight rep]
  apply Finset.sum_congr rfl
  intro rep hrep
  obtain ⟨info, hinfo⟩ := (Table.mem_keys _ _).mp hrep
  rw [hinfo]
  rfl

-- Only the votes of those who are counted weigh.
include horder in
theorem sum_adjusted (hash : BlockHash) :
    ((e.votes.entriesIn order).map fun vote =>
      s.adjusted e.timeDiff clock hash vote.1 vote.2).sum =
    ∑ rep ∈ s.counted e clock hash, (e.votes.get rep).elim 0
      (s.adjusted e.timeDiff clock hash rep) := by
  rw [horder.sum_entriesIn fun rep info => s.adjusted e.timeDiff clock hash rep info, Table.sum]
  symm
  apply Finset.sum_subset (Finset.filter_subset _ _)
  intro rep hrep hnot
  obtain ⟨info, hinfo⟩ := (Table.mem_keys _ _).mp hrep
  rw [hinfo]
  refine if_neg fun hcounts => hnot ?_
  exact mem_counted.mpr ⟨info, hinfo, hcounts⟩

include horder in
theorem tallied (huses : s.Uses weights total)
    (hsum : ∑ rep ∈ weights.keys, weightIn weights rep ≤ total.toNat) :
    s.Tallied e.timeDiff clock (e.votes.entriesIn order) (s.tallyVotes e order clock) := by
  apply tallied_foldl
  rw [sum_votes horder]
  exact ((huses.voters_le _).trans hsum).trans_lt total.isLt

-- Who is counted for a candidate weighs at least what the candidate has.
include horder in
theorem amount_le (huses : s.Uses weights total)
    (hsum : ∑ rep ∈ weights.keys, weightIn weights rep ≤ total.toNat) {hash : BlockHash} {amount : Amount}
    (hmem : (hash, amount) ∈ (s.tallyVotes e order clock).candidates) :
    amount.toNat ≤ ∑ rep ∈ s.counted e clock hash, weightIn weights rep := by
  rw [(tallied horder huses hsum).weight hash amount hmem, sum_adjusted horder hash]
  apply Finset.sum_le_sum
  intro rep hrep
  obtain ⟨info, hinfo, -⟩ := mem_counted.mp hrep
  rw [hinfo]
  exact (s.adjusted_le _ _ _ _ _).trans (huses.weight_le rep)

include horder in
theorem tallySound (huses : s.Uses weights total)
    (hsum : ∑ rep ∈ weights.keys, weightIn weights rep ≤ total.toNat) : s.TallySound e order clock := by
  have htallied := @tallied env s e order clock weights total horder huses hsum
  have honce : ∀ hash hash', hash ≠ hash' →
      Disjoint (s.counted e clock hash) (s.counted e clock hash') := by
    intro hash hash' hne
    rw [Finset.disjoint_left]
    intro rep hrep hrep'
    obtain ⟨info, hinfo, hcounts⟩ := mem_counted.mp hrep
    obtain ⟨info', hinfo', hcounts'⟩ := mem_counted.mp hrep'
    obtain rfl := Option.some.inj (hinfo.symm.trans hinfo')
    simp only [counts, Bool.and_eq_true, decide_eq_true_eq] at hcounts hcounts'
    exact hne (hcounts.2.symm.trans hcounts'.2)
  constructor
  · intro hash hash' amount amount' hmem hmem' habove habove'
    by_contra hne
    rw [huses.total] at habove habove'
    have hle := amount_le horder huses hsum hmem
    have hle' := amount_le horder huses hsum hmem'
    exact quorums_not_disjoint (show 50 ≤ CONFIRM_WEIGHT_PERCENTAGE by decide)
      (huses.counted_subset hash) (huses.counted_subset hash') hsum (by omega) (by omega)
      (honce hash hash' hne)
  · intro hash amount hmem
    rw [htallied.weight hash amount hmem, sum_adjusted horder hash]
  · exact honce
  · intro rep info hinfo hconflict hash hrep
    obtain ⟨info', hinfo', hcounts⟩ := mem_counted.mp hrep
    obtain rfl := Option.some.inj (hinfo.symm.trans hinfo')
    simp [counts, hconflict] at hcounts
  · obtain ⟨hvalid, hinvalid⟩ := s.tally_valid e order clock
    rw [hvalid, hinvalid, htallied.sum, sum_votes horder]

-- A tally that confirms a block has a quorum for its hash.
include horder in
theorem confirm_quorum (huses : s.Uses weights total)
    (hsum : ∑ rep ∈ weights.keys, weightIn weights rep ≤ total.toNat) {block : Block}
    (hconfirm : (s.tally_ e order clock).confirm = true)
    (hblock : (s.tally_ e order clock).block = some block) :
    total.toNat * CONFIRM_WEIGHT_PERCENTAGE <
      (∑ rep ∈ s.counted e clock (env.hash block), weightIn weights rep) * 100 := by
  rcases s.tally_cases e order clock with ⟨-, -, hnot, -⟩ | ⟨hash, amount, hmem, habove, -, -, hget⟩
  · rw [hconfirm] at hnot
    cases hnot
  · rw [hblock] at hget
    obtain ⟨ref, href, rfl⟩ := Option.map_eq_some_iff.mp hget.symm
    rw [ElectionBlocks.get_keyed href]
    have habove := habove hconfirm
    rw [huses.total] at habove
    have hle := amount_le horder huses hsum hmem
    omega

theorem onlineWeights_get (repWeights : RepWeights) (onlineReps : List Account) {rep : Account}
    {w : Amount} (h : (onlineWeights repWeights onlineReps).1.get rep = some w) :
    repWeights.weights.get rep = some w := by
  unfold onlineWeights at h
  induction onlineReps using List.reverseRecOn with
  | nil => simp at h
  | append_singleton onlineReps last ih =>
      rw [List.foldl_append, List.foldl_cons, List.foldl_nil] at h
      cases hlast : repWeights.weights.get last with
      | none =>
          rw [hlast] at h
          exact ih h
      | some weight =>
          rw [hlast] at h
          dsimp only at h
          rw [Table.get_put] at h
          split at h
          · rename_i heq
            rw [heq, hlast, h]
          · exact ih h

-- Every update makes the node use the weights of the ledger.
theorem updateWeightInfo_uses (s : Elections env) (now : UInt64) (repWeights : RepWeights)
    (peers : List Account) (hdue : ¬now < s.lastUpdate + 10) :
    (s.updateWeightInfo_ now repWeights peers).Uses repWeights.weights repWeights.total := by
  unfold updateWeightInfo_
  rw [if_neg hdue]
  exact ⟨fun _ _ h => onlineWeights_get repWeights peers.dedup h, rfl⟩

-- Tallies of two nodes, or of one node at two times, that both confirm: who is counted in
-- both weighs more than 60% of the total, whichever blocks they confirm.
theorem quorum_intersection {s s' : Elections env} {e e' : Election env}
    {order order' : List Account} (clock clock' : Account → UInt64)
    {weights : Table Account Amount} {total : Amount}
    (hsum : ∑ rep ∈ weights.keys, weightIn weights rep ≤ total.toNat)
    (huses : s.Uses weights total) (huses' : s'.Uses weights total)
    (horder : e.votes.Enumerates order) (horder' : e'.votes.Enumerates order') :
    (∀ block block', (s.tally_ e order clock).confirm = true →
      (s'.tally_ e' order' clock').confirm = true →
      (s.tally_ e order clock).block = some block →
      (s'.tally_ e' order' clock').block = some block' →
      total.toNat * 60 < (∑ rep ∈ s.counted e clock (env.hash block) ∩
        s'.counted e' clock' (env.hash block'), weightIn weights rep) * 100) ∧
    s.TallySound e order clock := by
  refine ⟨fun block block' hconfirm hconfirm' hblock hblock' => ?_, tallySound horder huses hsum⟩
  have hquorum := confirm_quorum horder huses hsum hconfirm hblock
  have hquorum' := confirm_quorum horder' huses' hsum hconfirm' hblock'
  have hinter := quorums_intersect (huses.counted_subset _) (huses'.counted_subset _) hsum hquorum
    hquorum'
  unfold CONFIRM_WEIGHT_PERCENTAGE at hinter
  omega

-- The first representative votes for both blocks of the height, the others for one.
def sampleWeights : Table Account Amount :=
  (((Table.empty.put 1 70).put 2 15).put 3 10).put 4 5

def sampleElections : Elections sampleEnv where
  lastUpdate := 0
  onlineReps := {1, 2, 3, 4}
  weightTotal := 100
  weightOnline := 100
  weights := sampleWeights
  elections := .empty
  concurrency := 16
  actives := ∅
  forks := ∅

def sampleChoice : Block := genesisBlock .test

def sampleRival : Block :=
  sampleTx .send 512 1 TEST_EPOCH_TIMESTAMP 0 (genesisPublicKey .test) 0 0 0 1

def sampleVote (weight : Amount) (block : Block) : RepVoteInfo :=
  ⟨false, weight, 1600000000, 0, sampleEnv.hash block⟩

-- At one node the third has contradicted itself.
def sampleElection : Election sampleEnv :=
  let e := ((Election.create (genesisPublicKey .test) 0 1 0).addBlock 0 sampleChoice).addBlock 0
    sampleRival
  { e with
    votes := (((Table.empty.put 1 (sampleVote 70 sampleChoice)).put 2
      (sampleVote 15 sampleChoice)).put 3 { sampleVote 10 sampleRival with conflictFound := true }).put
      4 (sampleVote 5 sampleRival) }

-- At the other node the first has another last vote.
def rivalElection : Election sampleEnv :=
  { sampleElection with
    votes := (((Table.empty.put 1 (sampleVote 70 sampleRival)).put 2
      (sampleVote 15 sampleChoice)).put 3 (sampleVote 10 sampleRival)).put 4
      (sampleVote 5 sampleRival) }

-- One confirms the one block, the other its rival, and the first is counted for both.
theorem quorum_intersection_sample :
    sampleEnv.hash sampleChoice ≠ sampleEnv.hash sampleRival ∧
      (sampleElections.tally_ sampleElection [1, 2, 3, 4] fun _ => 1600000001).block =
        some sampleChoice ∧
      (sampleElections.tally_ rivalElection [4, 2, 3, 1] fun _ => 1600000009).block =
        some sampleRival ∧
      100 * 60 < (∑ rep ∈ sampleElections.counted sampleElection (fun _ => 1600000001)
          (sampleEnv.hash sampleChoice) ∩
        sampleElections.counted rivalElection (fun _ => 1600000009)
          (sampleEnv.hash sampleRival), weightIn sampleWeights rep) * 100 := by
  have huses : sampleElections.Uses sampleWeights 100 := ⟨fun _ _ h => h, rfl⟩
  have horder : sampleElection.votes.Enumerates [1, 2, 3, 4] :=
    Table.enumerates_of_keys (by decide) (by decide)
  have hrival : rivalElection.votes.Enumerates [4, 2, 3, 1] :=
    Table.enumerates_of_keys (by decide) (by decide)
  have hblock : (sampleElections.tally_ sampleElection [1, 2, 3, 4] fun _ => 1600000001).block =
      some sampleChoice := by decide +kernel
  have hblock' : (sampleElections.tally_ rivalElection [4, 2, 3, 1] fun _ => 1600000009).block =
      some sampleRival := by decide +kernel
  refine ⟨by decide +kernel, hblock, hblock', ?_⟩
  exact (quorum_intersection (fun _ => 1600000001) (fun _ => 1600000009) (by decide) huses
    huses horder hrival).1 sampleChoice sampleRival (by decide +kernel) (by decide +kernel)
    hblock hblock'

end Elections

end Raicoin
