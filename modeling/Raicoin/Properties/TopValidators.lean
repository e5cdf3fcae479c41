import Mathlib.Tactic.FieldSimp
import Mathlib.Tactic.Linarith
import Raicoin.Validator.TopValidators

-- The threshold and the top validators describe the same set, unless the genesis validator is the
-- lightest.
namespace Raicoin.Validator

open Lib

namespace EvmChainSync

def weightSum (self : EvmChainSync) (genesis : Uint256) (validators : List Uint256) : Nat :=
  (validators.map (self.weightOfValidator genesis)).sum

-- The top validators are heaviest, have the share and need the last one for it, whose weight is the
-- threshold.
structure TopExact (self : EvmChainSync) (genesis : Uint256) (percent : ℚ) : Prop where
  nodup : (self.topValidators genesis percent).Nodup
  positive : ∀ validator ∈ self.topValidators genesis percent,
    0 < self.weightOfValidator genesis validator
  heaviest : ∀ validator ∈ self.topValidators genesis percent,
    ∀ other ∉ self.topValidators genesis percent,
      self.weightOfValidator genesis other ≤ self.weightOfValidator genesis validator
  ends : ∃ front last, self.topValidators genesis percent = front ++ [last] ∧
    (self.weightSum genesis front : ℚ) < percent * (self.totalWeight.getD 0 : Nat) ∧
    percent * (self.totalWeight.getD 0 : Nat) ≤
      self.weightSum genesis (self.topValidators genesis percent) ∧
    self.weightThreshold percent = self.weightOfValidator genesis last ∧
    ∀ validator ∈ self.topValidators genesis percent,
      self.weightOfValidator genesis last ≤ self.weightOfValidator genesis validator

-- `check_validator` accepts those that are no lighter than the last of the top validators.
structure ChecksExact (self : EvmChainSync) (genesis : Uint256) : Prop where
  accepts : ∀ last, (self.topValidators genesis (99 / 100)).getLast? = some last →
    ∀ validator, self.checkValidator genesis validator = false ↔
      (validator = genesis ∨ ∃ validators, self.validators = some validators ∧
        validator ∈ names validators) ∧
      self.weightOfValidator genesis last ≤ self.weightOfValidator genesis validator
  positive : ∀ validator, self.checkValidator genesis validator = false →
    0 < self.weightOfValidator genesis validator

-- The genesis validator has its place before a lighter one, or is not needed.
def Merges (self : EvmChainSync) (validators : List ValidatorFullInfo) (percent : ℚ) : Prop :=
  validators = [] ∨ self.genesisWeight = 0 ∨ (∃ i ∈ validators, i.weight < self.genesisWeight) ∨
    percent * (self.totalWeight.getD 0 : Nat) ≤ ((validators.map ValidatorFullInfo.weight).sum : Nat)

section Merged

variable {genesis : Uint256} {genesisWeight totalWeight : Nat} {percent : ℚ}
  {validators : List ValidatorFullInfo}

def weighed (i : ValidatorFullInfo) : Uint256 × Nat := (i.validator, i.weight)

-- The list with the genesis validator in its place.
def merged (genesis : Uint256) (genesisWeight : Nat) :
    List ValidatorFullInfo → List (Uint256 × Nat)
  | [] => []
  | i :: rest =>
    if i.weight < genesisWeight then (genesis, genesisWeight) :: (i :: rest).map weighed
    else weighed i :: merged genesis genesisWeight rest

-- Once the genesis validator is in, the loop takes the heaviest of what is left.
theorem topLoop_included (weight : Nat) :
    topLoop genesis genesisWeight totalWeight percent true weight validators =
      (heaviest Prod.snd (Reaches totalWeight percent) weight (validators.map weighed)).map
        Prod.fst := by
  induction validators generalizing weight with
  | nil => rfl
  | cons i rest ih =>
      simp only [topLoop, heaviest, List.map_cons, weighed, Bool.true_eq_false, and_false, if_false,
        apply_ite (List.map Prod.fst), List.map_nil, ih]

theorem topLoop_eq (weight : Nat) :
    topLoop genesis genesisWeight totalWeight percent false weight validators =
      (heaviest Prod.snd (Reaches totalWeight percent) weight
        (merged genesis genesisWeight validators)).map Prod.fst := by
  induction validators generalizing weight with
  | nil => rfl
  | cons i rest ih =>
      by_cases hlight : i.weight < genesisWeight
      · have hpos : genesisWeight ≠ 0 := by omega
        simp only [topLoop, merged, heaviest, hlight, hpos, and_self, if_true, if_false,
          List.map_cons, weighed, apply_ite (List.map Prod.fst), List.map_nil, topLoop_included]
      · simp only [topLoop, merged, heaviest, hlight, false_and, if_false, List.map_cons, weighed,
          apply_ite (List.map Prod.fst), List.map_nil, ih]

theorem thresholdLoop_included (weight : Nat) :
    thresholdLoop genesisWeight totalWeight percent true weight validators =
      lastWeight Prod.snd (Reaches totalWeight percent) weight (validators.map weighed) := by
  induction validators generalizing weight with
  | nil => rfl
  | cons i rest ih =>
      simp only [thresholdLoop, lastWeight, List.map_cons, weighed, Bool.true_eq_false, and_false,
        if_false, ih]

theorem thresholdLoop_eq (weight : Nat) :
    thresholdLoop genesisWeight totalWeight percent false weight validators =
      lastWeight Prod.snd (Reaches totalWeight percent) weight
        (merged genesis genesisWeight validators) := by
  induction validators generalizing weight with
  | nil => rfl
  | cons i rest ih =>
      by_cases hlight : i.weight < genesisWeight
      · have hpos : genesisWeight ≠ 0 := by omega
        simp only [thresholdLoop, merged, lastWeight, hlight, hpos, and_self, if_true, if_false,
          List.map_cons, weighed, thresholdLoop_included]
      · simp only [thresholdLoop, merged, lastWeight, hlight, false_and, if_false, weighed, ih]

theorem mem_merged {item : Uint256 × Nat} (h : item ∈ merged genesis genesisWeight validators) :
    item = (genesis, genesisWeight) ∧ (∃ i ∈ validators, i.weight < genesisWeight) ∨
      ∃ i ∈ validators, item = weighed i := by
  induction validators with
  | nil => cases h
  | cons i rest ih =>
      unfold merged at h
      split_ifs at h with hlight
      · rcases List.mem_cons.mp h with rfl | h
        · exact .inl ⟨rfl, i, List.mem_cons_self, hlight⟩
        · obtain ⟨j, hj, rfl⟩ := List.mem_map.mp h
          exact .inr ⟨j, hj, rfl⟩
      · rcases List.mem_cons.mp h with rfl | h
        · exact .inr ⟨i, List.mem_cons_self, rfl⟩
        · rcases ih h with ⟨rfl, j, hj, hjlight⟩ | ⟨j, hj, rfl⟩
          · exact .inl ⟨rfl, j, List.mem_cons_of_mem _ hj, hjlight⟩
          · exact .inr ⟨j, List.mem_cons_of_mem _ hj, rfl⟩

theorem weighed_mem_merged {i : ValidatorFullInfo} (hi : i ∈ validators) :
    weighed i ∈ merged genesis genesisWeight validators := by
  induction validators with
  | nil => cases hi
  | cons j rest ih =>
      unfold merged
      split_ifs
      · exact List.mem_cons_of_mem _ (List.mem_map_of_mem hi)
      · rcases List.mem_cons.mp hi with rfl | hi
        · exact List.mem_cons_self
        · exact List.mem_cons_of_mem _ (ih hi)

theorem genesis_mem_merged (h : ∃ i ∈ validators, i.weight < genesisWeight) :
    (genesis, genesisWeight) ∈ merged genesis genesisWeight validators := by
  induction validators with
  | nil =>
      obtain ⟨i, hi, -⟩ := h
      cases hi
  | cons j rest ih =>
      unfold merged
      split_ifs with hlight
      · exact List.mem_cons_self
      · obtain ⟨i, hi, hilight⟩ := h
        rcases List.mem_cons.mp hi with rfl | hi
        · exact absurd hilight hlight
        · exact List.mem_cons_of_mem _ (ih ⟨i, hi, hilight⟩)

theorem sum_merged : ((merged genesis genesisWeight validators).map Prod.snd).sum =
    (validators.map ValidatorFullInfo.weight).sum +
      if ∃ i ∈ validators, i.weight < genesisWeight then genesisWeight else 0 := by
  induction validators with
  | nil => simp [merged]
  | cons i rest ih =>
      unfold merged
      by_cases hlight : i.weight < genesisWeight
      · have hex : ∃ j ∈ i :: rest, j.weight < genesisWeight := ⟨i, List.mem_cons_self, hlight⟩
        rw [if_pos hlight, if_pos hex, List.map_cons, List.sum_cons, List.map_map]
        exact Nat.add_comm _ _
      · have hiff : (∃ j ∈ i :: rest, j.weight < genesisWeight) ↔
            ∃ j ∈ rest, j.weight < genesisWeight := by
          simp [hlight]
        rw [if_neg hlight, List.map_cons, List.sum_cons, ih, List.map_cons, List.sum_cons,
          Nat.add_assoc]
        simp only [hiff]
        rfl

theorem merged_sorted
    (hsorted : validators.Pairwise fun first second => second.weight ≤ first.weight) :
    (merged genesis genesisWeight validators).Pairwise fun first second =>
      second.2 ≤ first.2 := by
  induction validators with
  | nil => exact List.Pairwise.nil
  | cons i rest ih =>
      unfold merged
      have hrest := List.pairwise_cons.mp hsorted
      split_ifs with hlight
      · rw [List.pairwise_cons]
        constructor
        · intro item hitem
          obtain ⟨j, hj, rfl⟩ := List.mem_map.mp hitem
          change j.weight ≤ genesisWeight
          rcases List.mem_cons.mp hj with rfl | hj
          · omega
          · have hle := hrest.1 j hj
            omega
        · rw [List.pairwise_map]
          exact hsorted
      · rw [List.pairwise_cons]
        refine ⟨fun item hitem => ?_, ih hrest.2⟩
        rcases mem_merged hitem with ⟨rfl, -⟩ | ⟨j, hj, rfl⟩
        · exact Nat.not_lt.mp hlight
        · exact hrest.1 j hj

theorem merged_nodup (hnodup : (names validators).Nodup) (hgenesis : genesis ∉ names validators) :
    ((merged genesis genesisWeight validators).map Prod.fst).Nodup := by
  induction validators with
  | nil => exact List.nodup_nil
  | cons i rest ih =>
      rw [names, List.map_cons, List.nodup_cons] at hnodup
      rw [names, List.map_cons, List.mem_cons, not_or] at hgenesis
      unfold merged
      split_ifs
      · rw [List.map_cons, List.map_map, List.nodup_cons]
        refine ⟨?_, ?_⟩
        · change genesis ∉ names (i :: rest)
          rw [names, List.map_cons, List.mem_cons, not_or]
          exact hgenesis
        · exact List.nodup_cons.mpr hnodup
      · rw [List.map_cons, List.nodup_cons]
        refine ⟨fun hmem => ?_, ih hnodup.2 hgenesis.2⟩
        obtain ⟨item, hitem, hname⟩ := List.mem_map.mp hmem
        rcases mem_merged hitem with ⟨rfl, -⟩ | ⟨j, hj, rfl⟩
        · exact hgenesis.1 hname
        · exact hnodup.1 (List.mem_map.mpr ⟨j, hj, hname⟩)

end Merged

section Exact

variable {self : EvmChainSync} {genesis : Uint256} {percent : ℚ}
  {validators : List ValidatorFullInfo}

theorem weightOf_listed (hlist : self.validators = some validators)
    (hnodup : (names validators).Nodup) (hgenesis : genesis ∉ names validators)
    {i : ValidatorFullInfo} (hi : i ∈ validators) :
    self.weightOfValidator genesis i.validator = i.weight := by
  have hne : i.validator ≠ genesis := by
    intro h
    exact hgenesis (h ▸ List.mem_map_of_mem hi)
  rw [weightOfValidator, if_neg hne, hlist, Option.bind_some, find_of_mem hnodup hi]
  rfl

theorem weightOf_merged (hlist : self.validators = some validators)
    (hnodup : (names validators).Nodup) (hgenesis : genesis ∉ names validators)
    {item : Uint256 × Nat} (hitem : item ∈ merged genesis self.genesisWeight validators) :
    self.weightOfValidator genesis item.1 = item.2 := by
  rcases mem_merged hitem with ⟨rfl, -⟩ | ⟨i, hi, rfl⟩
  · rw [weightOfValidator, if_pos rfl]
  · exact weightOf_listed hlist hnodup hgenesis hi

theorem weightSum_merged (hlist : self.validators = some validators)
    (hnodup : (names validators).Nodup) (hgenesis : genesis ∉ names validators)
    {items : List (Uint256 × Nat)}
    (hitems : ∀ item ∈ items, item ∈ merged genesis self.genesisWeight validators) :
    self.weightSum genesis (items.map Prod.fst) = (items.map Prod.snd).sum := by
  rw [weightSum, List.map_map]
  congr 1
  refine List.map_congr_left fun item hitem => ?_
  exact weightOf_merged hlist hnodup hgenesis (hitems item hitem)

-- Who is not in the list weighs nothing, or is a genesis validator that no one is lighter than.
theorem weightOf_other (hlist : self.validators = some validators) {other : Uint256}
    (hother : other ∉ (merged genesis self.genesisWeight validators).map Prod.fst) :
    self.weightOfValidator genesis other = 0 ∨ ∀ item ∈ merged genesis self.genesisWeight validators,
      self.weightOfValidator genesis other ≤ item.2 := by
  by_cases hsame : other = genesis
  · subst hsame
    refine .inr fun item hitem => ?_
    rw [weightOfValidator, if_pos rfl]
    have hnone : ¬∃ i ∈ validators, i.weight < self.genesisWeight := by
      intro h
      exact hother (List.mem_map_of_mem (genesis_mem_merged h))
    rcases mem_merged hitem with ⟨-, h⟩ | ⟨i, hi, rfl⟩
    · exact absurd h hnone
    · exact Nat.not_lt.mp fun hlight => hnone ⟨i, hi, hlight⟩
  · left
    rw [weightOfValidator, if_neg hsame, hlist, Option.bind_some]
    cases hfind : find validators other with
    | none => rfl
    | some i =>
        obtain ⟨hi, rfl⟩ := find_eq_some hfind
        exact absurd (List.mem_map_of_mem (weighed_mem_merged hi)) hother

theorem reaches_iff {totalWeight weight : Nat} (hpos : 0 < totalWeight) :
    Reaches totalWeight percent weight ↔ percent * (totalWeight : ℚ) ≤ (weight : ℚ) := by
  have htotal : (0 : ℚ) < (totalWeight : ℚ) := by exact_mod_cast hpos
  exact le_div_iff₀ htotal

theorem topValidators_eq (hlist : self.validators = some validators) (hne : validators ≠ []) :
    self.topValidators genesis percent = (heaviest Prod.snd
        (Reaches (self.totalWeight.getD 0) percent) 0
        (merged genesis self.genesisWeight validators)).map Prod.fst ∧
      self.weightThreshold percent = lastWeight Prod.snd
        (Reaches (self.totalWeight.getD 0) percent) 0
        (merged genesis self.genesisWeight validators) := by
  unfold topValidators weightThreshold
  rw [hlist]
  cases validators with
  | nil => exact absurd rfl hne
  | cons i rest => exact ⟨topLoop_eq 0, thresholdLoop_eq 0⟩

-- Where the list with the genesis validator has the share, all is well.
theorem topExact_of_reaches (hlist : self.validators = some validators) (hne : validators ≠ [])
    (hsorted : validators.Pairwise fun first second => second.weight ≤ first.weight)
    (hnodup : (names validators).Nodup) (hgenesis : genesis ∉ names validators)
    (htotal : 0 < self.totalWeight.getD 0) (hpercent : 0 < percent)
    (hreaches : Reaches (self.totalWeight.getD 0) percent
      ((merged genesis self.genesisWeight validators).map Prod.snd).sum) :
    self.TopExact genesis percent := by
  have hzero : ¬Reaches (self.totalWeight.getD 0) percent 0 := by
    rw [reaches_iff htotal]
    have hpos : (0 : ℚ) < percent * ((self.totalWeight.getD 0 : Nat) : ℚ) :=
      mul_pos hpercent (by exact_mod_cast htotal)
    push_cast
    linarith
  have hdown := @merged_sorted genesis self.genesisWeight _ hsorted
  obtain ⟨front, last, rest, hmerged, htop, hlast, hlastPos, hbefore, hafter⟩ :=
    heaviest_of_enough hzero (by rwa [Nat.zero_add]) hdown
  obtain ⟨htopEq, hthreshold⟩ := @topValidators_eq self genesis percent _ hlist hne
  rw [htop] at htopEq
  have hnames := @merged_nodup genesis self.genesisWeight _ hnodup hgenesis
  have hmem : ∀ item ∈ front ++ [last], item ∈ merged genesis self.genesisWeight validators := by
    intro item hitem
    rw [hmerged, List.append_cons]
    exact List.mem_append_left _ hitem
  have hweight : ∀ item ∈ front ++ [last], self.weightOfValidator genesis item.1 = item.2 :=
    fun item hitem => weightOf_merged hlist hnodup hgenesis (hmem item hitem)
  rw [hmerged, List.append_cons] at hdown hnames
  rw [List.map_append, List.nodup_append] at hnames
  rw [List.pairwise_append] at hdown
  have hleast : ∀ item ∈ front ++ [last], last.2 ≤ item.2 := by
    intro item hitem
    rcases List.mem_append.mp hitem with hitem | hitem
    · exact (List.pairwise_append.mp hdown.1).2.2 item hitem last (List.mem_singleton_self _)
    · rw [List.mem_singleton.mp hitem]
  refine ⟨?_, ?_, ?_, ?_⟩
  · rw [htopEq]
    exact hnames.1
  · intro validator hvalidator
    rw [htopEq] at hvalidator
    obtain ⟨item, hitem, rfl⟩ := List.mem_map.mp hvalidator
    rw [hweight item hitem]
    exact hlastPos.trans_le (hleast item hitem)
  · intro validator hvalidator other hother
    rw [htopEq] at hvalidator hother
    obtain ⟨item, hitem, rfl⟩ := List.mem_map.mp hvalidator
    rw [hweight item hitem]
    by_cases hlisted : other ∈ (merged genesis self.genesisWeight validators).map Prod.fst
    · obtain ⟨item', hitem', rfl⟩ := List.mem_map.mp hlisted
      rw [weightOf_merged hlist hnodup hgenesis hitem']
      rw [hmerged, List.append_cons] at hitem'
      rcases List.mem_append.mp hitem' with hin | hin
      · exact absurd (List.mem_map_of_mem hin) hother
      · exact hdown.2.2 item hitem item' hin
    · rcases weightOf_other hlist hlisted with hnone | hle
      · rw [hnone]
        exact Nat.zero_le _
      · exact hle item (hmem item hitem)
  · have hfront : ∀ item ∈ front, item ∈ merged genesis self.genesisWeight validators :=
      fun item hitem => hmem item (List.mem_append_left _ hitem)
    refine ⟨front.map Prod.fst, last.1, by rw [htopEq, List.map_append]; rfl, ?_, ?_, ?_, ?_⟩
    · rw [weightSum_merged hlist hnodup hgenesis hfront]
      rw [reaches_iff htotal, Nat.zero_add, not_le] at hbefore
      exact hbefore
    · rw [htopEq, weightSum_merged hlist hnodup hgenesis hmem]
      rw [reaches_iff htotal, Nat.zero_add] at hafter
      exact hafter
    · rw [hthreshold, hlast, hweight last (List.mem_append_right _ (List.mem_singleton_self _))]
    · intro validator hvalidator
      rw [htopEq] at hvalidator
      obtain ⟨item, hitem, rfl⟩ := List.mem_map.mp hvalidator
      rw [hweight item hitem, hweight last (List.mem_append_right _ (List.mem_singleton_self _))]
      exact hleast item hitem

-- With no one in the list, the genesis validator is alone.
theorem topExact_of_nil (hlist : self.validators = some [])
    (htotal : self.totalWeight.getD 0 = self.genesisWeight) (hpos : 0 < self.genesisWeight)
    (hpercent : 0 < percent) (hle : percent ≤ 1) : self.TopExact genesis percent := by
  have htop : self.topValidators genesis percent = [genesis] := by rw [topValidators, hlist]
  have hweight : self.weightOfValidator genesis genesis = self.genesisWeight := if_pos rfl
  have hlisted : ∀ validator ∈ self.topValidators genesis percent, validator = genesis := by
    rw [htop]
    exact fun _ h => List.mem_singleton.mp h
  have hgenesisPos : (0 : ℚ) < (self.genesisWeight : ℚ) := by exact_mod_cast hpos
  refine ⟨by rw [htop]; exact List.nodup_singleton _, fun validator hvalidator => ?_,
    fun validator hvalidator other hother => ?_, [], genesis, htop, ?_, ?_, ?_, ?_⟩
  · rw [hlisted validator hvalidator, hweight]
    exact hpos
  · have hne : other ≠ genesis := by
      rintro rfl
      rw [htop] at hother
      exact hother (List.mem_singleton_self _)
    rw [weightOfValidator, if_neg hne, hlist]
    exact Nat.zero_le _
  · rw [htotal]
    change ((0 : Nat) : ℚ) < _
    push_cast
    exact mul_pos hpercent hgenesisPos
  · rw [htotal, htop]
    change _ ≤ (((self.weightOfValidator genesis genesis + 0 : Nat)) : ℚ)
    rw [Nat.add_zero, hweight]
    nlinarith
  · rw [weightThreshold, hlist, hweight]
  · intro validator hvalidator
    rw [hlisted validator hvalidator]

theorem checksExact_of_topExact (hlist : self.validators = some validators) (h : self.TopExact genesis (99 / 100)) :
    self.ChecksExact genesis := by
  obtain ⟨-, hpositive, -, front, last, htop, -, -, hthreshold, -⟩ := h
  have hlast : last ∈ self.topValidators genesis (99 / 100) := by
    rw [htop]
    exact List.mem_append_right _ (List.mem_singleton_self _)
  have hcheck : ∀ validator, self.checkValidator genesis validator = false ↔
      (validator = genesis ∨ ∃ validators, self.validators = some validators ∧
        validator ∈ names validators) ∧
      self.weightOfValidator genesis last ≤ self.weightOfValidator genesis validator := by
    intro validator
    unfold checkValidator
    rw [hthreshold]
    by_cases hsame : validator = genesis
    · rw [if_neg (not_not.mpr hsame), decide_eq_false_iff_not, Nat.not_lt, hsame]
      have hweight : self.weightOfValidator genesis genesis = self.genesisWeight := if_pos rfl
      rw [hweight]
      exact ⟨fun hle => ⟨.inl rfl, hle⟩, fun h => h.2⟩
    · rw [if_pos hsame, hlist, Option.bind_some]
      have hweight : self.weightOfValidator genesis validator =
          ((find validators validator).map ValidatorFullInfo.weight).getD 0 := by
        rw [weightOfValidator, if_neg hsame, hlist, Option.bind_some]
      rw [hweight]
      cases hfind : find validators validator with
      | none =>
          refine ⟨fun h => (by cases h), fun h => ?_⟩
          obtain ⟨others, hothers, hmem⟩ := h.1.resolve_left hsame
          obtain rfl : validators = others := Option.some_inj.mp hothers
          exact absurd hmem (find_eq_none.mp hfind)
      | some info =>
          obtain ⟨hmem, rfl⟩ := find_eq_some hfind
          dsimp only [Option.map_some, Option.getD_some]
          rw [decide_eq_false_iff_not, Nat.not_lt]
          exact ⟨fun hle => ⟨.inr ⟨_, rfl, List.mem_map_of_mem hmem⟩, hle⟩, fun h => h.2⟩
  refine ⟨fun other hother => ?_, fun validator hvalidator => ?_⟩
  · rw [htop, List.getLast?_append, List.getLast?_singleton, Option.some_or] at hother
    rw [← Option.some_inj.mp hother]
    exact hcheck
  · exact (hpositive last hlast).trans_le ((hcheck validator).mp hvalidator).2

theorem top_exact_iff (hlist : self.validators = some validators)
    (hsorted : validators.Pairwise fun first second => second.weight ≤ first.weight)
    (hnodup : (names validators).Nodup) (hgenesis : genesis ∉ names validators)
    (htotal : self.totalWeight =
      some (self.genesisWeight + (validators.map ValidatorFullInfo.weight).sum))
    (hpos : 0 < self.genesisWeight + (validators.map ValidatorFullInfo.weight).sum)
    (hpercent : 0 < percent) (hle : percent ≤ 1) :
    (self.TopExact genesis percent ∧ (percent = 99 / 100 → self.ChecksExact genesis)) ↔
      self.Merges validators percent := by
  have htotal' : self.totalWeight.getD 0 =
      self.genesisWeight + (validators.map ValidatorFullInfo.weight).sum := by rw [htotal]; rfl
  have hsum := @sum_merged genesis self.genesisWeight validators
  have hpos' : (0 : ℚ) < ((self.totalWeight.getD 0 : Nat) : ℚ) := by
    rw [htotal']
    exact_mod_cast hpos
  constructor
  · rintro ⟨⟨-, -, -, _, _, -, -, hheld, -⟩, -⟩
    by_contra hmerges
    unfold Merges at hmerges
    simp only [not_or, not_le] at hmerges
    obtain ⟨hne, -, hlight, hshare⟩ := hmerges
    rw [if_neg hlight, Nat.add_zero] at hsum
    have hnot : ¬Reaches (self.totalWeight.getD 0) percent
        (0 + ((merged genesis self.genesisWeight validators).map Prod.snd).sum) := by
      rw [reaches_iff (htotal' ▸ hpos), Nat.zero_add, hsum, not_le]
      exact hshare
    have hmono : ∀ n m, n ≤ m → Reaches (self.totalWeight.getD 0) percent n →
        Reaches (self.totalWeight.getD 0) percent m := by
      intro n m hnm hn
      rw [reaches_iff (htotal' ▸ hpos)] at hn ⊢
      exact hn.trans (by exact_mod_cast hnm)
    obtain ⟨htop, -⟩ := @topValidators_eq self genesis percent _ hlist hne
    obtain ⟨htaken, -⟩ := heaviest_of_not_enough hmono hnot
      (@merged_sorted genesis self.genesisWeight _ hsorted)
    rw [htop, weightSum_merged hlist hnodup hgenesis fun item hitem => heaviest_subset hitem,
      htaken, hsum] at hheld
    exact absurd hheld (not_le.mpr hshare)
  · intro hmerges
    have hexact : self.TopExact genesis percent := by
      by_cases hne : validators = []
      · subst hne
        simp only [List.map_nil, List.sum_nil, Nat.add_zero] at htotal' hpos
        exact topExact_of_nil hlist htotal' hpos hpercent hle
      · refine topExact_of_reaches hlist hne hsorted hnodup hgenesis (htotal' ▸ hpos) hpercent ?_
        rw [reaches_iff (htotal' ▸ hpos), hsum]
        have hall : percent * ((self.totalWeight.getD 0 : Nat) : ℚ) ≤
            ((self.totalWeight.getD 0 : Nat) : ℚ) := by nlinarith
        rcases hmerges with h | h | h | h
        · exact absurd h hne
        · rw [if_neg (by rintro ⟨i, -, hi⟩; omega), Nat.add_zero]
          rw [h, Nat.zero_add] at htotal'
          rw [htotal'] at hall ⊢
          exact hall
        · rw [if_pos h, Nat.add_comm, ← htotal']
          exact hall
        · refine h.trans ?_
          exact_mod_cast Nat.le_add_right _ _
    exact ⟨hexact, fun h => checksExact_of_topExact hlist (h ▸ hexact)⟩

end Exact

-- The genesis validator is 9, and what the contract's validators weigh is filled up to the least
-- total weight.
section Sample

def sampleValidators (weights : List Nat) : List ValidatorFullInfo :=
  weights.zipIdx.map fun item => ⟨BitVec.ofNat 256 (item.2 + 1), 5, item.1, 0, 0, 0⟩

def sampleList (weights : List Nat) : EvmChainSync where
  fee := some 0
  syncedHeight := some 1
  validators := some (sampleValidators weights)
  rawSigners := []
  contractWeight := some weights.sum
  totalWeight := some (max weights.sum (2 * 10 ^ 16))
  activities := []

theorem top_exact_sample :
    (sampleList [15 * 10 ^ 15, 10 ^ 15]).TopExact 9 (99 / 100) ∧
      (sampleList [15 * 10 ^ 15, 10 ^ 15]).ChecksExact 9 := by
  have h := (@top_exact_iff (sampleList [15 * 10 ^ 15, 10 ^ 15]) 9 (99 / 100)
    (sampleValidators [15 * 10 ^ 15, 10 ^ 15]) rfl (by decide) (by decide)
    (by decide) (by decide) (by decide) (by norm_num) (by norm_num)).mpr
    (.inr (.inr (.inl (by decide))))
  exact ⟨h.1, h.2 rfl⟩

-- The genesis validator is lighter than the only other one: it is left out, and the threshold is
-- zero.
theorem lightest_genesis_left_out :
    ¬(sampleList [12 * 10 ^ 15]).TopExact 9 (99 / 100) ∧ ¬(sampleList [12 * 10 ^ 15]).ChecksExact 9 := by
  constructor
  · rintro ⟨-, -, -, _, _, -, -, hheld, -⟩
    exact absurd hheld (by decide +kernel)
  · rintro ⟨haccepts, -⟩
    have hlight := ((haccepts 1 (by decide +kernel) 9).mp (by decide +kernel)).2
    exact absurd hlight (by decide)

end Sample

end EvmChainSync

end Raicoin.Validator
