import Raicoin.Node.Election.Elections
import Mathlib.Algebra.Order.BigOperators.Group.List

-- What the loop of `Tally_` adds up.
namespace Raicoin

open Lib

namespace Candidates

def hashes (c : Candidates) : List BlockHash := c.map Prod.fst

theorem mem_hashes_increase (c : Candidates) (hash other : BlockHash) (amount : Amount) :
    other ∈ hashes (increase c hash amount) ↔ other = hash ∨ other ∈ hashes c := by
  induction c with
  | nil => simp [increase, hashes]
  | cons entry c ih =>
      obtain ⟨key, weight⟩ := entry
      unfold hashes at ih ⊢
      rw [increase]
      split
      · rename_i hkey
        subst hkey
        simp
      · rw [List.map_cons, List.mem_cons, ih, List.map_cons, List.mem_cons]
        exact or_left_comm

theorem nodup_increase {c : Candidates} (h : (hashes c).Nodup) (hash : BlockHash)
    (amount : Amount) : (hashes (increase c hash amount)).Nodup := by
  induction c with
  | nil => simp [increase, hashes]
  | cons entry c ih =>
      obtain ⟨key, weight⟩ := entry
      have hcons := List.nodup_cons.mp (show (key :: hashes c).Nodup from h)
      rw [increase]
      split
      · exact h
      · rename_i hkey
        change (key :: hashes (increase c hash amount)).Nodup
        refine List.nodup_cons.mpr ⟨fun hmem => ?_, ih hcons.2⟩
        rcases (mem_hashes_increase c hash key amount).mp hmem with heq | hold
        · exact hkey heq
        · exact hcons.1 hold

-- The other candidates keep their weight, and this one gets the amount.
theorem mem_increase {c : Candidates} (h : (hashes c).Nodup) {hash other : BlockHash}
    {amount weight : Amount} (hmem : (other, weight) ∈ increase c hash amount) :
    (other ≠ hash ∧ (other, weight) ∈ c) ∨
      (other = hash ∧ hash ∉ hashes c ∧ weight = amount) ∨
        (other = hash ∧ ∃ old, (hash, old) ∈ c ∧ weight = old + amount) := by
  induction c with
  | nil =>
      rw [increase, List.mem_singleton, Prod.mk.injEq] at hmem
      exact .inr (.inl ⟨hmem.1, by simp [hashes], hmem.2⟩)
  | cons entry c ih =>
      obtain ⟨key, first⟩ := entry
      have hcons := List.nodup_cons.mp (show (key :: hashes c).Nodup from h)
      rw [increase] at hmem
      split at hmem
      · rename_i hkey
        subst hkey
        rcases List.mem_cons.mp hmem with heq | hrest
        · obtain ⟨rfl, rfl⟩ := Prod.mk.inj heq
          exact .inr (.inr ⟨rfl, first, List.mem_cons_self .., rfl⟩)
        · refine .inl ⟨fun heq => hcons.1 ?_, List.mem_cons_of_mem _ hrest⟩
          exact heq ▸ List.mem_map.mpr ⟨_, hrest, rfl⟩
      · rename_i hkey
        rcases List.mem_cons.mp hmem with heq | hrest
        · obtain ⟨rfl, rfl⟩ := Prod.mk.inj heq
          exact .inl ⟨hkey, List.mem_cons_self ..⟩
        · rcases ih hcons.2 hrest with ⟨hne, hc⟩ | ⟨heq, hnew, hw⟩ | ⟨heq, old, hc, hw⟩
          · exact .inl ⟨hne, List.mem_cons_of_mem _ hc⟩
          · refine .inr (.inl ⟨heq, fun hin => ?_, hw⟩)
            rcases List.mem_cons.mp (show hash ∈ key :: hashes c from hin) with hk | hc
            · exact hkey hk.symm
            · exact hnew hc
          · exact .inr (.inr ⟨heq, old, List.mem_cons_of_mem _ hc, hw⟩)

end Candidates

private theorem percent_le (result : UInt64) :
    (if result > 100 then (0 : UInt64) else result).toNat ≤ 100 := by
  split
  · decide
  · rename_i hle
    exact Nat.not_lt.mp fun hlt => hle (UInt64.lt_iff_toNat_lt.mpr hlt)

theorem RepVoteInfo.weightFactor_le (info : RepVoteInfo) (now allow : UInt64) :
    (info.weightFactor now allow).toNat ≤ 100 := by
  unfold weightFactor
  split
  · decide
  · exact percent_le _

theorem adjustWeight_le (weight : Amount) {factor : UInt64} (h : factor.toNat ≤ 100) :
    (adjustWeight weight factor).toNat ≤ weight.toNat := by
  have hle : weight.toNat * factor.toNat / 100 ≤ weight.toNat := by
    apply Nat.div_le_of_le_mul
    rw [Nat.mul_comm 100]
    exact Nat.mul_le_mul_left _ h
  rw [adjustWeight, BitVec.toNat_ofNat]
  exact (Nat.mod_le _ _).trans hle

theorem adjustWeight_zero (weight : Amount) : (adjustWeight weight 0).toNat = 0 := by
  simp [adjustWeight]

namespace Elections

variable {env : Env} (s : Elections env)

-- The weight of a representative, none where it is not online.
def weight (rep : Account) : Nat := ((s.weights.get rep).map BitVec.toNat).getD 0

-- A vote counts for a hash: it has weight left and is not in conflict with another.
def counts (timeDiff : UInt64) (clock : Account → UInt64) (hash : BlockHash) (rep : Account)
    (info : RepVoteInfo) : Bool :=
  (s.weights.get rep).isSome && !info.conflictFound &&
    info.weightFactor (clock rep) timeDiff ≠ 0 && info.lastVote.hash = hash

-- What a vote adds to the candidate with the hash.
def adjusted (timeDiff : UInt64) (clock : Account → UInt64) (hash : BlockHash) (rep : Account)
    (info : RepVoteInfo) : Nat :=
  if s.counts timeDiff clock hash rep info then
    (adjustWeight ((s.weights.get rep).getD 0) (info.weightFactor (clock rep) timeDiff)).toNat
  else 0

theorem adjusted_le (timeDiff : UInt64) (clock : Account → UInt64) (hash : BlockHash)
    (rep : Account) (info : RepVoteInfo) : s.adjusted timeDiff clock hash rep info ≤ s.weight rep := by
  unfold adjusted weight
  split
  · have hle := adjustWeight_le ((s.weights.get rep).getD 0)
      (info.weightFactor_le (clock rep) timeDiff)
    cases hw : s.weights.get rep with
    | none => simp_all [counts]
    | some weight => simpa [hw] using hle
  · exact Nat.zero_le _

theorem sum_adjusted_le (timeDiff : UInt64) (clock : Account → UInt64) (hash : BlockHash)
    (votes : List (Account × RepVoteInfo)) :
    (votes.map fun vote => s.adjusted timeDiff clock hash vote.1 vote.2).sum ≤
      (votes.map fun vote => s.weight vote.1).sum :=
  List.sum_le_sum fun vote _ => s.adjusted_le timeDiff clock hash vote.1 vote.2

-- What is true of the sums after some of the votes.
structure Tallied (timeDiff : UInt64) (clock : Account → UInt64)
    (votes : List (Account × RepVoteInfo)) (t : Tally) : Prop where
  nodup : (Candidates.hashes t.candidates).Nodup
  weight : ∀ hash amount, (hash, amount) ∈ t.candidates →
    amount.toNat = (votes.map fun vote => s.adjusted timeDiff clock hash vote.1 vote.2).sum
  absent : ∀ hash, hash ∉ Candidates.hashes t.candidates →
    (votes.map fun vote => s.adjusted timeDiff clock hash vote.1 vote.2).sum = 0
  sum : t.valid.toNat + t.invalid.toNat = (votes.map fun vote => s.weight vote.1).sum

-- Only what was voted for is a candidate.
theorem mem_hashes_tallyVote {timeDiff : UInt64} {clock : Account → UInt64} {t : Tally}
    {vote : Account × RepVoteInfo} {hash : BlockHash}
    (h : hash ∈ Candidates.hashes (s.tallyVote timeDiff clock t vote).candidates) :
    hash = vote.2.lastVote.hash ∨ hash ∈ Candidates.hashes t.candidates := by
  unfold tallyVote at h
  split at h
  · exact .inr h
  · split at h
    · exact .inr h
    · dsimp only at h
      by_cases hadjust : adjustWeight ‹_› (vote.2.weightFactor (clock vote.1) timeDiff) = 0
      · rw [if_pos hadjust] at h
        split at h <;> exact .inr h
      · rw [if_neg hadjust] at h
        split at h <;> exact (Candidates.mem_hashes_increase _ _ _ _).mp h

theorem mem_hashes_foldl {timeDiff : UInt64} {clock : Account → UInt64} {hash : BlockHash}
    (votes : List (Account × RepVoteInfo)) (t : Tally)
    (h : hash ∈ Candidates.hashes (votes.foldl (s.tallyVote timeDiff clock) t).candidates) :
    (∃ vote ∈ votes, hash = vote.2.lastVote.hash) ∨ hash ∈ Candidates.hashes t.candidates := by
  induction votes generalizing t with
  | nil => exact .inr h
  | cons vote votes ih =>
      rcases ih _ h with ⟨other, hother, heq⟩ | hmem
      · exact .inl ⟨other, List.mem_cons_of_mem _ hother, heq⟩
      · rcases mem_hashes_tallyVote s hmem with heq | hold
        · exact .inl ⟨vote, List.mem_cons_self .., heq⟩
        · exact .inr hold

theorem mem_tallyVotes {e : Election env} {order : List Account} {clock : Account → UInt64}
    {hash : BlockHash} {amount : Amount}
    (h : (hash, amount) ∈ (s.tallyVotes e order clock).candidates) :
    ∃ rep info, e.votes.get rep = some info ∧ info.lastVote.hash = hash := by
  have hmem : hash ∈ Candidates.hashes (s.tallyVotes e order clock).candidates :=
    List.mem_map.mpr ⟨_, h, rfl⟩
  rcases mem_hashes_foldl s _ _ hmem with ⟨⟨rep, info⟩, hvote, heq⟩ | hnil
  · exact ⟨rep, info, ((Table.mem_entriesIn _ _ _ _).mp hvote).2, heq.symm⟩
  · cases hnil

variable {s} {timeDiff : UInt64} {clock : Account → UInt64} {votes : List (Account × RepVoteInfo)}
  {t : Tally} {rep : Account} {info : RepVoteInfo}

theorem tallied_nil : s.Tallied timeDiff clock [] ⟨[], 0, 0, 0⟩ where
  nodup := List.nodup_nil
  weight _ _ h := by cases h
  absent _ _ := rfl
  sum := rfl

-- A vote without weight for any candidate leaves the candidates as they are.
private theorem Tallied.without (h : s.Tallied timeDiff clock votes t) {t' : Tally}
    (hcandidates : t'.candidates = t.candidates)
    (hnone : ∀ hash, s.adjusted timeDiff clock hash rep info = 0)
    (hsum : t'.valid.toNat + t'.invalid.toNat = t.valid.toNat + t.invalid.toNat + s.weight rep) :
    s.Tallied timeDiff clock (votes ++ [(rep, info)]) t' := by
  constructor
  · rw [hcandidates]
    exact h.nodup
  · intro hash amount hmem
    rw [hcandidates] at hmem
    simp [hnone, h.weight hash amount hmem]
  · intro hash habsent
    rw [hcandidates] at habsent
    simp [hnone, h.absent hash habsent]
  · rw [hsum, h.sum, List.map_append, List.sum_append]
    simp

private theorem adjusted_of_none (hw : s.weights.get rep = none) (hash : BlockHash) :
    s.adjusted timeDiff clock hash rep info = 0 := by
  simp [adjusted, counts, hw]

private theorem adjusted_of_conflict (hconflict : info.conflictFound = true) (hash : BlockHash) :
    s.adjusted timeDiff clock hash rep info = 0 := by
  simp [adjusted, counts, hconflict]

private theorem adjusted_of_some {w : Amount} (hw : s.weights.get rep = some w)
    (hconflict : info.conflictFound = false) (hash : BlockHash) :
    s.adjusted timeDiff clock hash rep info = if info.lastVote.hash = hash then
      (adjustWeight w (info.weightFactor (clock rep) timeDiff)).toNat else 0 := by
  unfold adjusted counts
  by_cases hfactor : info.weightFactor (clock rep) timeDiff = 0
  · simp [hfactor, adjustWeight_zero]
  · simp [hw, hconflict, hfactor]

-- One vote, as long as the weights of the voters fit into 128 bits.
theorem Tallied.step (h : s.Tallied timeDiff clock votes t)
    (hfits : (votes.map fun vote => s.weight vote.1).sum + s.weight rep < 2 ^ 128) :
    s.Tallied timeDiff clock (votes ++ [(rep, info)]) (s.tallyVote timeDiff clock t (rep, info)) := by
  have hsum := h.sum
  unfold tallyVote
  cases hw : s.weights.get rep with
  | none =>
      have hweight : s.weight rep = 0 := by simp [Elections.weight, hw]
      exact h.without rfl (adjusted_of_none hw) (by dsimp only; omega)
  | some w =>
      have hweight : s.weight rep = w.toNat := by simp [Elections.weight, hw]
      dsimp only
      by_cases hconflict : info.conflictFound = true
      · rw [if_pos hconflict]
        refine h.without rfl (adjusted_of_conflict hconflict) ?_
        dsimp only
        rw [BitVec.toNat_add, Nat.mod_eq_of_lt (by omega)]
        omega
      rw [if_neg hconflict]
      have hadjusted := @adjusted_of_some env s timeDiff clock rep info w hw (by simpa using hconflict)
      have hle := adjustWeight_le w (info.weightFactor_le (clock rep) timeDiff)
      generalize adjustWeight w (info.weightFactor (clock rep) timeDiff) = adjust at hadjusted hle ⊢
      have hloss : (w - adjust).toNat = w.toNat - adjust.toNat := BitVec.toNat_sub_of_le hle
      by_cases hadjust : adjust = 0
      · rw [if_pos hadjust]
        have hzero : adjust.toNat = 0 := by rw [hadjust]; rfl
        have hnone (hash : BlockHash) : s.adjusted timeDiff clock hash rep info = 0 := by
          rw [hadjusted, hzero, ite_self]
        by_cases hlost : w - adjust = 0
        · rw [if_pos hlost]
          have hlost' : w.toNat - adjust.toNat = 0 := by
            rw [← hloss, hlost]
            rfl
          exact h.without rfl hnone (by omega)
        · rw [if_neg hlost]
          refine h.without rfl hnone ?_
          dsimp only
          rw [BitVec.toNat_add, hloss, Nat.mod_eq_of_lt (by omega)]
          omega
      · rw [if_neg hadjust]
        -- Both amounts of the vote are added: `valid` gets the adjusted one, `invalid` the rest.
        have hsum' (invalid : Amount) (hi : invalid.toNat = t.invalid.toNat + (w.toNat - adjust.toNat)) :
            (t.valid + adjust).toNat + invalid.toNat =
              ((votes ++ [(rep, info)]).map fun vote => s.weight vote.1).sum := by
          rw [BitVec.toNat_add, Nat.mod_eq_of_lt (by omega), List.map_append, List.sum_append, ← hsum]
          simp
          omega
        have hcounted (invalid : Amount)
            (hinvalid : invalid.toNat = t.invalid.toNat + (w.toNat - adjust.toNat)) :
            s.Tallied timeDiff clock (votes ++ [(rep, info)])
              { t with
                candidates := t.candidates.increase info.lastVote.hash adjust
                valid := t.valid + adjust
                invalid } := by
          refine ⟨Candidates.nodup_increase h.nodup _ _, fun hash amount hmem => ?_,
            fun hash habsent => ?_, hsum' invalid hinvalid⟩
          · rw [List.map_append, List.sum_append, List.map_cons, List.map_nil, List.sum_singleton,
              hadjusted]
            rcases Candidates.mem_increase h.nodup hmem with ⟨hne, hold⟩ | ⟨rfl, hnew, rfl⟩ |
              ⟨rfl, old, hold, rfl⟩
            · rw [if_neg (Ne.symm hne), ← h.weight hash amount hold, Nat.add_zero]
            · rw [if_pos rfl, h.absent _ hnew, Nat.zero_add]
            · have hold' := h.weight _ old hold
              have hbound := sum_adjusted_le s timeDiff clock info.lastVote.hash votes
              rw [if_pos rfl, BitVec.toNat_add, Nat.mod_eq_of_lt (by omega), hold']
          · rw [Candidates.mem_hashes_increase, not_or] at habsent
            rw [List.map_append, List.sum_append, h.absent hash habsent.2, List.map_cons, List.map_nil,
              List.sum_singleton, hadjusted, if_neg (Ne.symm habsent.1)]
        by_cases hlost : w - adjust = 0
        · rw [if_pos hlost]
          have hlost' : w.toNat - adjust.toNat = 0 := by
            rw [← hloss, hlost]
            rfl
          exact hcounted t.invalid (by omega)
        · rw [if_neg hlost]
          refine hcounted (t.invalid + (w - adjust)) ?_
          rw [BitVec.toNat_add, hloss, Nat.mod_eq_of_lt (by omega)]

theorem tallied_foldl (votes : List (Account × RepVoteInfo))
    (hfits : (votes.map fun vote => s.weight vote.1).sum < 2 ^ 128) :
    s.Tallied timeDiff clock votes (votes.foldl (s.tallyVote timeDiff clock) ⟨[], 0, 0, 0⟩) := by
  induction votes using List.reverseRecOn with
  | nil => exact tallied_nil
  | append_singleton votes vote ih =>
      rw [List.map_append, List.sum_append, List.map_cons, List.map_nil, List.sum_singleton] at hfits
      rw [List.foldl_append, List.foldl_cons, List.foldl_nil]
      exact (ih (by omega)).step hfits

-- How a tally ends: without candidates, or with the one that is first.
theorem tally_cases (s : Elections env) (e : Election env) (order : List Account)
    (clock : Account → UInt64) :
    ((s.tallyVotes e order clock).candidates = [] ∧ (s.tally_ e order clock).error = false ∧
      (s.tally_ e order clock).confirm = false ∧ (s.tally_ e order clock).win = false) ∨
    ∃ hash amount, (hash, amount) ∈ (s.tallyVotes e order clock).candidates ∧
      ((s.tally_ e order clock).confirm = true →
        s.weightTotal.toNat * CONFIRM_WEIGHT_PERCENTAGE < amount.toNat * 100) ∧
      ((s.tally_ e order clock).confirm = true → (s.tally_ e order clock).win = true) ∧
      (s.tally_ e order clock).error = (e.blocks.get hash).isNone ∧
      (s.tally_ e order clock).block = (e.blocks.get hash).map BlockReference.block := by
  have hperm := List.perm_insertionSort (fun first second => Candidates.before second first = false)
    (s.tallyVotes e order clock).candidates
  have htally : s.tally_ e order clock = s.tallyStatus e (s.tallyVotes e order clock) (s.notVoting e)
      ((s.tallyVotes e order clock).candidates.insertionSort
        fun first second => Candidates.before second first = false) := rfl
  rw [htally]
  generalize (s.tallyVotes e order clock).candidates.insertionSort
    (fun first second => Candidates.before second first = false) = sorted at hperm ⊢
  cases sorted with
  | nil => exact .inl ⟨List.perm_nil.mp hperm.symm, rfl, rfl, rfl⟩
  | cons first rest =>
      refine .inr ⟨first.1, first.2, hperm.subset (List.mem_cons_self ..), ?_⟩
      unfold tallyStatus
      cases hget : e.blocks.get first.1 with
      | none => simp +contextual [hget]
      | some ref => simp +contextual [hget]

theorem tally_valid (s : Elections env) (e : Election env) (order : List Account)
    (clock : Account → UInt64) :
    (s.tally_ e order clock).valid = (s.tallyVotes e order clock).valid ∧
      (s.tally_ e order clock).invalid = (s.tallyVotes e order clock).invalid := by
  unfold tally_ tallyStatus
  simp only
  split
  · exact ⟨rfl, rfl⟩
  · split
    · exact ⟨rfl, rfl⟩
    · exact ⟨rfl, rfl⟩

end Elections

end Raicoin
