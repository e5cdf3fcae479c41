import Raicoin.Validator.Sync

-- What the steps of a round do to the local list.
namespace Raicoin.Validator

open Lib

namespace EvmChainSync

variable {validators : List ValidatorFullInfo} {entry found : ValidatorFullInfo}
  {validator : Uint256}

def names (validators : List ValidatorFullInfo) : List Uint256 :=
  validators.map ValidatorFullInfo.validator

theorem find_of_mem (hnodup : (names validators).Nodup) (hmem : found ∈ validators) :
    find validators found.validator = some found := by
  induction validators with
  | nil => cases hmem
  | cons first rest ih =>
      rw [names, List.map_cons, List.nodup_cons] at hnodup
      unfold find
      rw [List.find?_cons]
      rcases List.mem_cons.mp hmem with rfl | hmem
      · simp
      · have hne : first.validator ≠ found.validator := by
          intro h
          rw [h] at hnodup
          exact hnodup.1 (List.mem_map_of_mem hmem)
        simp only [hne, decide_false]
        exact ih hnodup.2 hmem

theorem find_eq_some (h : find validators validator = some found) :
    found ∈ validators ∧ found.validator = validator :=
  ⟨List.mem_of_find?_eq_some h, by simpa using List.find?_some h⟩

theorem find_eq_none : find validators validator = none ↔ validator ∉ names validators := by
  simp [find, names, List.find?_eq_none]

-- The order of the entries makes no difference.
theorem find_perm {others : List ValidatorFullInfo} (hnodup : (names validators).Nodup)
    (hperm : validators.Perm others) : find others validator = find validators validator := by
  have hnodup' : (names others).Nodup := (hperm.map _).nodup_iff.mp hnodup
  cases h : find validators validator with
  | none =>
      rw [find_eq_none] at h ⊢
      intro hmem
      exact h ((hperm.map ValidatorFullInfo.validator).mem_iff.mpr hmem)
  | some found =>
      obtain ⟨hmem, rfl⟩ := find_eq_some h
      exact find_of_mem hnodup' (hperm.mem_iff.mp hmem)

theorem sorted_perm : (sorted validators).Perm validators := List.perm_insertionSort _ _

theorem sorted_nodup (hnodup : (names validators).Nodup) : (names (sorted validators)).Nodup :=
  (sorted_perm.map _).nodup_iff.mpr hnodup

theorem find_sorted (hnodup : (names validators).Nodup) :
    find (sorted validators) validator = find validators validator :=
  find_perm hnodup sorted_perm.symm

def replaced (validators : List ValidatorFullInfo) (entry : ValidatorFullInfo) :
    List ValidatorFullInfo :=
  validators.replaceF fun other => if other.validator = entry.validator then some entry else none

theorem replaced_cons {first : ValidatorFullInfo} :
    replaced (first :: validators) entry =
      if first.validator = entry.validator then entry :: validators
      else first :: replaced validators entry := by
  unfold replaced
  by_cases h : first.validator = entry.validator <;> simp [h]

theorem names_replaced : names (replaced validators entry) = names validators := by
  induction validators with
  | nil => rfl
  | cons first rest ih =>
      rw [replaced_cons]
      by_cases h : first.validator = entry.validator
      · rw [if_pos h]
        simp [names, h]
      · rw [if_neg h]
        simp only [names, List.map_cons] at ih ⊢
        rw [ih]

theorem find_replaced : find (replaced validators entry) validator =
    if validator = entry.validator then (find validators validator).map fun _ => entry
    else find validators validator := by
  induction validators with
  | nil => simp [replaced, find]
  | cons first rest ih =>
      rw [replaced_cons]
      unfold find at ih ⊢
      by_cases hfirst : first.validator = entry.validator
      · rw [if_pos hfirst]
        by_cases hv : validator = entry.validator
        · simp [hv, hfirst]
        · simp [hv, hfirst, Ne.symm hv]
      · rw [if_neg hfirst, List.find?_cons, List.find?_cons]
        by_cases hv : first.validator = validator
        · have hne : validator ≠ entry.validator := hv ▸ hfirst
          simp [hv, hne]
        · simp only [hv, decide_false]
          exact ih

theorem updateValidator_nodup (hnodup : (names validators).Nodup) :
    (names (updateValidator validators entry).2).Nodup := by
  unfold updateValidator
  cases hfind : find validators entry.validator with
  | none =>
      refine sorted_nodup ?_
      rw [names, List.map_append, List.nodup_append]
      refine ⟨hnodup, by simp, fun name hmem other hother => ?_⟩
      rintro rfl
      rw [List.map_singleton, List.mem_singleton] at hother
      rw [hother] at hmem
      exact find_eq_none.mp hfind hmem
  | some existing =>
      dsimp only
      split_ifs
      · exact hnodup
      · refine sorted_nodup ?_
        change (names (replaced validators entry)).Nodup
        rw [names_replaced]
        exact hnodup

-- The entry is put in the list, and the others stay.
theorem find_updateValidator (hnodup : (names validators).Nodup) :
    find (updateValidator validators entry).2 validator =
      if validator = entry.validator then some entry else find validators validator := by
  unfold updateValidator
  cases hfind : find validators entry.validator with
  | none =>
      dsimp only
      have hnodup' : (names (validators ++ [entry])).Nodup := by
        rw [names, List.map_append, List.nodup_append]
        refine ⟨hnodup, by simp, fun name hmem other hother => ?_⟩
        rintro rfl
        rw [List.map_singleton, List.mem_singleton] at hother
        rw [hother] at hmem
        exact find_eq_none.mp hfind hmem
      rw [find_sorted hnodup']
      by_cases hv : validator = entry.validator
      · rw [if_pos hv, hv]
        exact find_of_mem hnodup' (List.mem_append_right _ (List.mem_singleton_self _))
      · rw [if_neg hv]
        unfold find
        rw [List.find?_append]
        simp [Ne.symm hv]
  | some existing =>
      dsimp only
      split_ifs with hsame hv hv
      · rw [hv, hfind, hsame]
      · rfl
      · change find (sorted (replaced validators entry)) validator = _
        rw [find_sorted (names_replaced.symm ▸ hnodup), find_replaced, if_pos hv, hv, hfind]
        rfl
      · change find (sorted (replaced validators entry)) validator = _
        rw [find_sorted (names_replaced.symm ▸ hnodup), find_replaced, if_neg hv]

-- Nothing has changed if the entry is there already.
theorem updateValidator_same {rawSigners : List (Uint256 × ForeignAddress)}
    (h : (updateValidator validators entry).1 = false) :
    find validators entry.validator = some entry ∧
      (updateValidator validators entry).2 = validators ∧
      updateRawSigners validators rawSigners entry = rawSigners := by
  unfold updateValidator at h ⊢
  cases hfind : find validators entry.validator with
  | none =>
      rw [hfind] at h
      cases h
  | some existing =>
      rw [hfind] at h
      dsimp only at h ⊢
      split_ifs at h ⊢ with hsame
      exact ⟨by rw [hsame], rfl, by rw [updateRawSigners, hfind]; rfl⟩

variable {activities : List (Uint256 × ValidatorActivity)} {other : Uint256}

-- The height of the last reading that an activity remembers.
def syncedAt (activities : List (Uint256 × ValidatorActivity)) (validator : Uint256) : Nat :=
  ((activity activities validator).map ValidatorActivity.syncHeight).getD 0

theorem activity_changeActivity {f : ValidatorActivity → ValidatorActivity} :
    activity (changeActivity activities validator f) other =
      if other = validator then (activity activities other).map f
      else activity activities other := by
  induction activities with
  | nil => simp [activity, changeActivity]
  | cons first rest ih =>
      unfold activity changeActivity at ih ⊢
      rw [List.map_cons, List.find?_cons, List.find?_cons]
      by_cases hfirst : first.1 = validator
      · rw [if_pos hfirst]
        by_cases hother : other = validator
        · simp [hother, hfirst]
        · have hne : first.1 ≠ other := fun h => hother (h.symm.trans hfirst)
          simp only [hne, decide_false]
          exact ih
      · rw [if_neg hfirst]
        by_cases hother : first.1 = other
        · have hne : other ≠ validator := hother ▸ hfirst
          simp [hother, hne]
        · simp only [hother, decide_false]
          exact ih

theorem activity_isSome : (activity activities validator).isSome ↔
    validator ∈ activities.map Prod.fst := by
  simp [activity]

theorem activity_updateActivity {log : Uint256 × Nat} :
    activity (updateActivity activities log) other =
      if other = log.1 then some ⟨log.2, syncedAt activities other⟩
      else activity activities other := by
  unfold updateActivity
  split_ifs with hsome hother hother
  · obtain ⟨found, hfound⟩ := Option.isSome_iff_exists.mp hsome
    rw [activity_changeActivity, if_pos hother, hother, syncedAt, hfound]
    rfl
  · rw [activity_changeActivity, if_neg hother]
  · rw [Option.not_isSome_iff_eq_none] at hsome
    rw [hother, syncedAt, hsome]
    unfold activity at hsome ⊢
    rw [Option.map_eq_none_iff] at hsome
    rw [List.find?_append, hsome]
    simp
  · unfold activity
    rw [List.find?_append]
    simp [Ne.symm hother]

theorem syncedAt_updateActivity {log : Uint256 × Nat} :
    syncedAt (updateActivity activities log) other = syncedAt activities other := by
  rw [syncedAt, activity_updateActivity]
  split_ifs
  · rfl
  · rfl

variable {logs : List (Uint256 × Nat)}

theorem syncedAt_updates :
    syncedAt (logs.foldl updateActivity activities) other = syncedAt activities other := by
  induction logs generalizing activities with
  | nil => rfl
  | cons log rest ih =>
      rw [List.foldl_cons, ih, syncedAt_updateActivity]

-- The last log that names a validator is the one that is remembered.
theorem activity_updates (hsorted : logs.Pairwise fun first second => first.2 ≤ second.2)
    {log : Uint256 × Nat} (hlog : log ∈ logs) :
    ∃ found, activity (logs.foldl updateActivity activities) log.1 = some found ∧
      log.2 ≤ found.logHeight ∧ (log.1, found.logHeight) ∈ logs := by
  induction logs using List.reverseRecOn with
  | nil => cases hlog
  | append_singleton logs last ih =>
      obtain ⟨hbefore, -, hlast⟩ := List.pairwise_append.mp hsorted
      rw [List.foldl_append, List.foldl_cons, List.foldl_nil, activity_updateActivity]
      by_cases hsame : log.1 = last.1
      · rw [if_pos hsame]
        refine ⟨_, rfl, ?_, ?_⟩
        · rcases List.mem_append.mp hlog with hlog | hlog
          · exact hlast log hlog last (List.mem_singleton_self _)
          · rw [List.mem_singleton.mp hlog]
        · rw [hsame]
          exact List.mem_append_right _ (List.mem_singleton_self _)
      · rw [if_neg hsame]
        rcases List.mem_append.mp hlog with hlog | hlog
        · obtain ⟨found, hfound, hle, hmem⟩ := ih hbefore hlog
          exact ⟨found, hfound, hle, List.mem_append_left _ hmem⟩
        · exact absurd (congrArg Prod.fst (List.mem_singleton.mp hlog)) hsame

theorem syncedAt_filter_le {keep : Uint256 → Bool} :
    syncedAt (activities.filter fun item => keep item.1) other ≤ syncedAt activities other := by
  unfold syncedAt activity
  rw [List.find?_filter]
  by_cases hkeep : keep other = true
  · have hsame : activities.find? (fun item => keep item.1 = true ∧ decide (item.1 = other) = true) =
        activities.find? fun item => item.1 = other := by
      congr 1
      funext item
      by_cases h : item.1 = other <;> simp [h, hkeep]
    rw [hsame]
  · have hnone : activities.find? (fun item => keep item.1 = true ∧ decide (item.1 = other) = true) =
        none := by
      rw [List.find?_eq_none]
      intro item _ h
      simp only [decide_eq_true_eq] at h
      exact hkeep (h.2 ▸ h.1)
    rw [hnone]
    exact Nat.zero_le _

end EvmChainSync

namespace ForeignChain

variable {chain : ForeignChain} {from_ : Int} {to_ height : Nat} {validator : Uint256}

theorem mem_logsBetween : (validator, height) ∈ chain.logsBetween from_ to_ ↔
    from_ ≤ (height : Int) ∧ height ≤ to_ ∧ validator ∈ (chain.block height).logs := by
  simp only [logsBetween, List.mem_flatMap, List.mem_filter, List.mem_range, List.mem_map,
    Prod.mk.injEq, decide_eq_true_eq]
  constructor
  · rintro ⟨n, ⟨hlt, hfrom⟩, name, hname, rfl, rfl⟩
    exact ⟨hfrom, by omega, hname⟩
  · rintro ⟨hfrom, hle, hname⟩
    exact ⟨height, ⟨by omega, hfrom⟩, validator, hname, rfl, rfl⟩

theorem logsBetween_sorted :
    (chain.logsBetween from_ to_).Pairwise fun first second => first.2 ≤ second.2 := by
  rw [logsBetween, List.pairwise_flatMap]
  constructor
  · intro n _
    rw [List.pairwise_map]
    exact List.pairwise_of_forall fun _ _ => Nat.le_refl _
  · refine ((List.pairwise_lt_range).filter _).imp ?_
    intro n m hlt first hfirst second hsecond
    obtain ⟨_, -, rfl⟩ := List.mem_map.mp hfirst
    obtain ⟨_, -, rfl⟩ := List.mem_map.mp hsecond
    exact Nat.le_of_lt hlt

end ForeignChain

namespace RpcM

variable {α : Type} {blockNumber : Nat} {answer : ForeignChain → α} {P : SyncState → Prop}
  {Q : α → SyncState → Prop} {F : SyncState → Prop}

theorem ask_spec
    (hok : ∀ s chain rest, P s → s.replies = some chain :: rest → blockNumber ≤ chain.height →
      Q (answer chain) { s with
        replies := rest, seen := ⟨chain, highestSeen s.seen⟩ :: s.seen })
    (hfailed : ∀ s replies, P s → F { s with replies }) :
    Process.Triple P (ask blockNumber answer) Q F := by
  intro s hs
  unfold ask
  split
  · rename_i chain rest hreplies
    split_ifs with hhigh
    · refine ⟨fun a s' h => ?_, fun code s' h => by cases h⟩
      cases h
      exact hok s chain rest hs hreplies hhigh
    · refine ⟨fun a s' h => (by cases h), fun code s' h => ?_⟩
      cases h
      exact hfailed s rest hs
  · refine ⟨fun a s' h => (by cases h), fun code s' h => ?_⟩
    cases h
    exact hfailed s _ hs
  · refine ⟨fun a s' h => (by cases h), fun code s' h => ?_⟩
    cases h
    exact hfailed s s.replies hs

theorem getBlockNumber_spec {Q : Nat → SyncState → Prop}
    (hok : ∀ s chain rest, P s → s.replies = some chain :: rest →
      Q chain.height { s with
        replies := rest, seen := ⟨chain, max (highestSeen s.seen) chain.height⟩ :: s.seen })
    (hfailed : ∀ s replies, P s → F { s with replies }) :
    Process.Triple P getBlockNumber Q F := by
  intro s hs
  unfold getBlockNumber
  split
  · rename_i chain rest hreplies
    refine ⟨fun a s' h => ?_, fun code s' h => by cases h⟩
    cases h
    exact hok s chain rest hs hreplies
  · refine ⟨fun a s' h => (by cases h), fun code s' h => ?_⟩
    cases h
    exact hfailed s _ hs
  · refine ⟨fun a s' h => (by cases h), fun code s' h => ?_⟩
    cases h
    exact hfailed s s.replies hs

theorem modifySelf_spec {f : EvmChainSync → EvmChainSync} {Q : PUnit → SyncState → Prop}
    (h : ∀ s, P s → Q ⟨⟩ { s with self := f s.self }) : Process.Triple P (modifySelf f) Q F :=
  Process.Triple.modify h

theorem updateValidator_spec {entry : ValidatorFullInfo} {Q : Bool → SyncState → Prop}
    (hok : ∀ s validators, P s → s.self.validators = some validators →
      Q (EvmChainSync.updateValidator validators entry).1 { s with self := { s.self with
        validators := some (EvmChainSync.updateValidator validators entry).2
        rawSigners := EvmChainSync.updateRawSigners validators s.self.rawSigners entry } })
    (hfailed : ∀ s, P s → s.self.validators = none → F s) :
    Process.Triple P (RpcM.updateValidator entry) Q F := by
  intro s hs
  unfold RpcM.updateValidator
  cases hlist : s.self.validators with
  | none =>
      refine ⟨fun a s' h => (by cases h), fun code s' h => ?_⟩
      cases h
      exact hfailed s hs hlist
  | some validators =>
      refine ⟨fun a s' h => ?_, fun code s' h => by cases h⟩
      cases h
      exact hok s validators hs hlist

end RpcM

end Raicoin.Validator
