import Raicoin.Validator.SyncSpec

-- What the answers to the calls of a round tell, whatever the round makes of them.
namespace Raicoin.Validator

open Lib EvmChainSync

-- A reader of answers; one that fails finds none.
abbrev Calls (α : Type) : Type := StateT (List (Option ForeignChain)) Option α

-- What the answers of a round tell that completes: the height it is for, the fee and the total
-- weight, the list if it is loaded, the chain whose logs are read, and the values of the validators
-- that are asked for.
structure RoundAnswers where
  height : Nat
  fee : Nat
  total : Nat
  listed : Option (List ValidatorFullInfo)
  logs : ForeignChain
  entries : List ValidatorFullInfo

-- The values of a validator stay until its last log is confirmed.
def ValidatorActivity.Settled (confirmations height : Nat) (activity : ValidatorActivity) : Prop :=
  activity.syncHeight ≥ activity.logHeight ∧ height < activity.logHeight + confirmations

instance (confirmations height : Nat) (activity : ValidatorActivity) :
    Decidable (activity.Settled confirmations height) :=
  inferInstanceAs (Decidable (_ ∧ _))

namespace EvmChainSync

def blockNumber (self : EvmChainSync) (answered : Nat) : Nat :=
  (self.syncedHeight.map fun height => min answered (height + 4000)).getD answered

-- The activities once the logs are read.
def logged (self : EvmChainSync) (confirmations height : Nat) (logs : ForeignChain) :
    List (Uint256 × ValidatorActivity) :=
  (logs.logsBetween ((RpcM.previousHeight self height : Int) - confirmations) height).foldl
    updateActivity self.activities

def withTotal (self : EvmChainSync) (total : Nat) : EvmChainSync :=
  if self.contractWeight = some total then self
  else { self with contractWeight := some total, totalWeight := some (max total (2 * 10 ^ 16)) }

def loaded (self : EvmChainSync) : Option (List ValidatorFullInfo) → EvmChainSync
  | none => self
  | some listed => { self with
      validators := some (sorted listed)
      rawSigners := listed.map rawSigner }

end EvmChainSync

namespace Calls

def height : Calls Nat
  | some chain :: rest => some (chain.height, rest)
  | _ => none

-- A call for the state at a height.
def state (height : Nat) : Calls ForeignChain
  | some chain :: rest => if height ≤ chain.height then some (chain, rest) else none
  | _ => none

def pages (height count : Nat) :
    Nat → Nat → List ValidatorFullInfo → Calls (List ValidatorFullInfo)
  | 0, _, validators => pure validators
  | pages + 1, begin_, validators =>
    if begin_ ≥ count then pure validators
    else do
      let end_ := min (begin_ + 1000) count
      let chain ← state height
      Calls.pages height count pages end_
        (validators ++ ((chain.state height).validators.drop begin_).take (end_ - begin_))

def listing (height : Nat) : Calls (List ValidatorFullInfo) := do
  let chain ← state height
  pages height (chain.state height).validators.length (chain.state height).validators.length 0 []

-- The list, if there is none yet.
def load (self : EvmChainSync) (height : Nat) : Calls (Option (List ValidatorFullInfo)) :=
  if self.validators.isNone then do
    let listed ← listing height
    return some listed
  else pure none

-- The chain that tells the weight: no call is made for the signer that is not there.
def weigher (chain : ForeignChain) (height : Nat) (validator : Uint256) : Calls ForeignChain :=
  if ((chain.state height).info validator).signer = 0 then pure chain else state height

def values (height : Nat) (validator : Uint256) : Calls ValidatorFullInfo := do
  let chain ← state height
  let weighed ← weigher chain height validator
  return ForeignChain.reading chain weighed height validator

-- The values of the validators whose activities are not settled.
def entries (confirmations height : Nat) : List Uint256 → List (Uint256 × ValidatorActivity) →
    Calls (List ValidatorFullInfo)
  | [], _ => pure []
  | validator :: rest, activities =>
    match activity activities validator with
    | none => entries confirmations height rest activities
    | some found =>
      if found.Settled confirmations height then entries confirmations height rest activities
      else do
        let entry ← values height validator
        let others ← entries confirmations height rest (changeActivity activities validator
          fun activity => { activity with syncHeight := height })
        return entry :: others

-- The calls of a round that starts with `self`: what is left of them when it comes to the logs, to
-- the list, to the weights and to the fee.
section Round

variable (confirmations : Nat) (self : EvmChainSync) (height : Nat)

def fromLogs (fee total : Nat) (listed : Option (List ValidatorFullInfo)) : Calls RoundAnswers := do
  let logs ← state height
  let activities := self.logged confirmations height logs
  let entries ← entries confirmations height (activities.map Prod.fst) activities
  return ⟨height, fee, total, listed, logs, entries⟩

def fromLoad (fee total : Nat) : Calls RoundAnswers := do
  let listed ← load self height
  fromLogs confirmations self height fee total listed

def fromTotal (fee : Nat) : Calls RoundAnswers := do
  let chain ← state height
  fromLoad confirmations self height fee (chain.state height).totalWeight

def fromFee : Calls RoundAnswers := do
  let chain ← state height
  fromTotal confirmations self height (chain.state height).fee

end Round

def round (confirmations : Nat) (self : EvmChainSync) : Calls RoundAnswers := do
  let answered ← height
  if self.syncedHeight.any fun synced => decide (answered ≤ synced) then failure
  else fromFee confirmations self (self.blockNumber answered)

end Calls

-- What is left of the calls comes to `result`.
def Leaves {β : Type} (calls : Calls β)
    (result : Option (β × List (Option ForeignChain))) (s : SyncState) : Prop :=
  calls s.replies = result

-- The list and the logs are read for what the weights and the fee leave alone.
theorem load_eq {self other : EvmChainSync} (h : other.validators = self.validators)
    (height : Nat) : Calls.load other height = Calls.load self height := by
  rw [Calls.load, h, Calls.load]

theorem logged_eq {self other : EvmChainSync} {confirmations height : Nat} {logs : ForeignChain}
    (hsynced : other.syncedHeight = self.syncedHeight)
    (hactivities : other.activities = self.activities) :
    other.logged confirmations height logs = self.logged confirmations height logs := by
  unfold EvmChainSync.logged RpcM.previousHeight
  rw [hsynced, hactivities]

-- The fields that a round has brought up to date when it comes to the activities.
def EvmChainSync.told (self : EvmChainSync) (answers : RoundAnswers) : EvmChainSync :=
  ({ self with fee := some answers.fee }.withTotal answers.total).loaded answers.listed

theorem withTotal_keeps (self : EvmChainSync) (total : Nat) :
    (self.withTotal total).validators = self.validators ∧
      (self.withTotal total).syncedHeight = self.syncedHeight ∧
      (self.withTotal total).activities = self.activities := by
  unfold EvmChainSync.withTotal
  split_ifs
  · exact ⟨rfl, rfl, rfl⟩
  · exact ⟨rfl, rfl, rfl⟩

theorem loaded_keeps (self : EvmChainSync) (listed : Option (List ValidatorFullInfo)) :
    (self.loaded listed).syncedHeight = self.syncedHeight ∧
      (self.loaded listed).activities = self.activities := by
  cases listed with
  | none => exact ⟨rfl, rfl⟩
  | some listed => exact ⟨rfl, rfl⟩

section Tells

open RpcM

variable {α β : Type} {confirmations blockNumber : Nat} {self : EvmChainSync}
  {result : Option (β × List (Option ForeignChain))}

theorem leaves_state {k : ForeignChain → Calls β} {s : SyncState} {chain : ForeignChain}
    {rest : List (Option ForeignChain)} (h : Leaves (Calls.state blockNumber >>= k) result s)
    (hreplies : s.replies = some chain :: rest) (hhigh : blockNumber ≤ chain.height) :
    k chain rest = result := by
  have hstate : Calls.state blockNumber s.replies = some (chain, rest) := by
    rw [hreplies]
    exact if_pos hhigh
  have hbind : (Calls.state blockNumber >>= k) s.replies = k chain rest := by
    change Option.bind (Calls.state blockNumber s.replies) _ = _
    rw [hstate]
    rfl
  exact hbind.symm.trans h

-- An answer is taken for the call that is due.
theorem ask_tells {answer : ForeignChain → α} {k : ForeignChain → Calls β} :
    Process.Triple (fun s => s.self = self ∧ Leaves (Calls.state blockNumber >>= k) result s)
      (ask blockNumber answer)
      (fun a s => ∃ chain, a = answer chain ∧ s.self = self ∧ Leaves (k chain) result s)
      (fun _ => True) := by
  refine ask_spec (fun s chain rest hs hreplies hhigh => ?_) fun _ _ _ => trivial
  exact ⟨chain, rfl, hs.1, leaves_state hs.2 hreplies hhigh⟩

theorem getBlockNumber_tells {k : Nat → Calls β} :
    Process.Triple (fun s => s.self = self ∧ Leaves (Calls.height >>= k) result s) getBlockNumber
      (fun answered s => s.self = self ∧ Leaves (k answered) result s) (fun _ => True) := by
  refine getBlockNumber_spec (fun s chain rest hs hreplies => ⟨hs.1, ?_⟩) fun _ _ _ => trivial
  have hbind : (Calls.height >>= k) s.replies = k chain.height rest := by
    rw [hreplies]
    rfl
  exact hbind.symm.trans hs.2

theorem syncFee_tells {k : ForeignChain → Calls β} :
    Process.Triple (fun s => s.self = self ∧ Leaves (Calls.state blockNumber >>= k) result s)
      (syncFee blockNumber)
      (fun updated s => ∃ chain, Leaves (k chain) result s ∧
        s.self = { self with fee := some (chain.state blockNumber).fee } ∧
        updated = decide (self.fee ≠ some (chain.state blockNumber).fee)) (fun _ => True) := by
  refine ask_tells.bind fun fee => .get_bind fun start hstart => ?_
  obtain ⟨chain, rfl, hself, hleaves⟩ := hstart
  refine .bind (modifySelf_spec (Q := fun _ s => Leaves (k chain) result s ∧
    s.self = { self with fee := some (chain.state blockNumber).fee }) ?_) fun _ => .pure ?_
  · rintro _ rfl
    exact ⟨hleaves, by rw [hself]⟩
  · rintro s ⟨hleaves, hs⟩
    exact ⟨chain, hleaves, hs, by rw [hself]⟩

theorem syncTotalWeight_tells {k : ForeignChain → Calls β} :
    Process.Triple (fun s => s.self = self ∧ Leaves (Calls.state blockNumber >>= k) result s)
      (syncTotalWeight blockNumber)
      (fun _ s => ∃ chain, Leaves (k chain) result s ∧
        s.self = self.withTotal (chain.state blockNumber).totalWeight) (fun _ => True) := by
  refine ask_tells.bind fun total => modifySelf_spec ?_
  rintro s ⟨chain, rfl, hself, hleaves⟩
  exact ⟨chain, hleaves, by rw [hself]; rfl⟩

theorem loadPages_tells {count : Nat} {k : List ValidatorFullInfo → Calls β} :
    ∀ pages at_ validators, Process.Triple
      (fun s => s.self = self ∧
        Leaves (Calls.pages blockNumber count pages at_ validators >>= k) result s)
      (loadPages blockNumber count pages at_ validators)
      (fun listed s => s.self = self ∧ Leaves (k listed) result s) (fun _ => True) := by
  intro pages
  induction pages with
  | zero => exact fun at_ validators => .pure fun s hs => hs
  | succ pages ih =>
      intro at_ validators
      rw [loadPages, Calls.pages]
      split_ifs
      · exact .pure fun s hs => hs
      · dsimp only
        rw [bind_assoc]
        refine ask_tells.bind fun array => (ih _ _).conseq ?_ (fun _ _ h => h) fun _ h => h
        rintro s ⟨chain, rfl, hself, hleaves⟩
        exact ⟨hself, hleaves⟩

theorem initializeValidators_tells {k : List ValidatorFullInfo → Calls β} :
    Process.Triple (fun s => s.self = self ∧ Leaves (Calls.listing blockNumber >>= k) result s)
      (initializeValidators blockNumber)
      (fun _ s => ∃ listed, Leaves (k listed) result s ∧ s.self = self.loaded (some listed))
      (fun _ => True) := by
  rw [Calls.listing, bind_assoc]
  refine .get_bind fun before hbefore => .bind (fun s hs => ask_tells s (hs ▸ hbefore))
    fun count => ?_
  refine .bind (R := fun listed s => s.self = self ∧ Leaves (k listed) result s) ?_ fun listed =>
    .bind (R := fun _ s => Leaves (k listed) result s ∧ s.self = self.loaded (some listed)) ?_
      fun _ => .pure fun s hs => ⟨listed, hs⟩
  · rintro s ⟨chain, rfl, hself, hleaves⟩
    exact loadPages_tells _ _ _ s ⟨hself, hleaves⟩
  · exact .modify fun s hs => ⟨hs.2, by rw [hs.1]; rfl⟩

theorem loadOnce_tells {k : Option (List ValidatorFullInfo) → Calls β} :
    Process.Triple (fun s => s.self = self ∧ Leaves (Calls.load self blockNumber >>= k) result s)
      (loadOnce blockNumber)
      (fun _ s => ∃ listed, Leaves (k listed) result s ∧ s.self = self.loaded listed)
      (fun _ => True) := by
  refine .get_bind fun start hstart => ?_
  obtain ⟨rfl, hleaves⟩ := hstart
  unfold Calls.load at hleaves
  split_ifs at hleaves ⊢
  · simp only [bind_assoc, pure_bind] at hleaves
    have hstart : start.self = start.self ∧
        Leaves (Calls.listing blockNumber >>= fun listed => k (some listed)) result start :=
      ⟨rfl, hleaves⟩
    refine .bind (R := fun _ s => ∃ listed, Leaves (k (some listed)) result s ∧
      s.self = start.self.loaded (some listed)) ?_ fun _ => .pure ?_
    · rintro _ rfl
      exact initializeValidators_tells _ hstart
    rintro s ⟨listed, hleaves, hself⟩
    exact ⟨some listed, hleaves, hself⟩
  · exact .pure fun s hs => ⟨none, hs ▸ hleaves, by rw [hs]; rfl⟩

theorem readLogs_tells {k : ForeignChain → Calls β} :
    Process.Triple (fun s => s.self = self ∧ Leaves (Calls.state blockNumber >>= k) result s)
      (readLogs confirmations blockNumber)
      (fun _ s => ∃ chain, Leaves (k chain) result s ∧
        s.self = { self with activities := self.logged confirmations blockNumber chain })
      (fun _ => True) := by
  refine .get_bind fun start hstart => .bind (fun s hs => ask_tells s (hs ▸ hstart)) fun logs =>
    modifySelf_spec ?_
  rintro s ⟨chain, rfl, hself, hleaves⟩
  exact ⟨chain, hleaves, by rw [hself, hstart.1]; rfl⟩

-- Unless something has changed in the list, only the activities have.
def Unchanged (self : EvmChainSync) (changed : Bool) (s : SyncState) : Prop :=
  changed = false → s.self = { self with activities := s.self.activities }

-- The values that are told are those of the list.
def Listed (self : EvmChainSync) (entries : List ValidatorFullInfo) : Prop :=
  ∀ entry ∈ entries, ∃ validators, self.validators = some validators ∧
    find validators entry.validator = some entry

-- The values of a validator, as the program puts them together from two answers.
def assembled (validator : Uint256) (info : ValidatorInfo) (weight : Nat) : ValidatorFullInfo :=
  ⟨validator, info.signer, weight, info.gasPrice, info.lastSubmit, info.epoch⟩

theorem values_tells {validator : Uint256} {k : ValidatorFullInfo → Calls β}
    {rest : ValidatorInfo → Nat → RpcM α} {P : SyncState → Prop} {Q : α → SyncState → Prop}
    (hkeeps : ∀ s replies seen, P s → P { s with replies, seen })
    (hrest : ∀ info weight, Process.Triple
      (fun s => P s ∧ Leaves (k (assembled validator info weight)) result s) (rest info weight) Q
      fun _ => True) :
    Process.Triple (fun s => P s ∧ Leaves (Calls.values blockNumber validator >>= k) result s)
      (do
        let info ← ask blockNumber fun chain => (chain.state blockNumber).info validator
        let weight ← getSignerWeight info.signer blockNumber
        rest info weight) Q fun _ => True := by
  rw [Calls.values, bind_assoc]
  refine .bind (R := fun info s => ∃ chain, info = (chain.state blockNumber).info validator ∧ P s ∧
    Leaves (Calls.weigher chain blockNumber validator >>= fun weighed =>
      k (ForeignChain.reading chain weighed blockNumber validator)) result s) ?_ fun info => ?_
  · refine ask_spec (fun s chain rest hs hreplies hhigh => ?_) fun _ _ _ => trivial
    refine ⟨chain, rfl, hkeeps s _ _ hs.1, ?_⟩
    have hleft := leaves_state hs.2 hreplies hhigh
    simp only [bind_assoc, pure_bind] at hleft
    exact hleft
  · refine .bind (R := fun weight s => P s ∧ Leaves (k (assembled validator info weight)) result s)
      ?_ fun weight => hrest info weight
    rintro s ⟨chain, rfl, hs, hleaves⟩
    revert hleaves
    unfold getSignerWeight Calls.weigher
    split_ifs with hsigner
    · intro hleaves
      rw [pure_bind, ForeignChain.reading, ContractState.signerWeight, if_pos hsigner] at hleaves
      refine Process.Triple.pure (fun s' (hsame : s' = s) => ?_) s rfl
      exact hsame ▸ ⟨hs, hleaves⟩
    · intro hleaves
      refine ask_spec (P := (· = s)) ?_ (fun _ _ _ => trivial) s rfl
      rintro _ weighed rest rfl hreplies hhigh
      have hleft := leaves_state hleaves hreplies hhigh
      rw [ForeignChain.reading, ContractState.signerWeight, if_neg hsigner] at hleft
      exact ⟨hkeeps _ _ _ hs, hleft⟩

-- An entry that brings nothing new is one of the list.
theorem Unchanged.update {changed : Bool} {s : SyncState} {validators : List ValidatorFullInfo}
    {entry : ValidatorFullInfo} (h : Unchanged self changed s)
    (hlist : s.self.validators = some validators) :
    Unchanged self (changed || (EvmChainSync.updateValidator validators entry).1)
        { s with self := { s.self with
          validators := some (EvmChainSync.updateValidator validators entry).2
          rawSigners := updateRawSigners validators s.self.rawSigners entry } } ∧
      ((changed || (EvmChainSync.updateValidator validators entry).1) = false →
        Listed self [entry]) := by
  have hsame : (changed || (EvmChainSync.updateValidator validators entry).1) = false →
      s.self = { self with activities := s.self.activities } ∧
        (EvmChainSync.updateValidator validators entry).1 = false := by
    intro hquiet
    rw [Bool.or_eq_false_iff] at hquiet
    exact ⟨h hquiet.1, hquiet.2⟩
  refine ⟨fun hquiet => ?_, fun hquiet other hother => ?_⟩
  · obtain ⟨hself, hsame⟩ := hsame hquiet
    obtain ⟨-, hvalidators, hraw⟩ := @updateValidator_same _ _ s.self.rawSigners hsame
    dsimp only
    rw [hvalidators, hraw, ← hlist]
    exact hself
  · obtain ⟨hself, hsame⟩ := hsame hquiet
    rw [List.mem_singleton.mp hother]
    refine ⟨validators, ?_, (@updateValidator_same _ _ s.self.rawSigners hsame).1⟩
    rw [← hlist, hself]

theorem syncActivity_tells {changed : Bool} {validator : Uint256} {rest : List Uint256}
    {activities : List (Uint256 × ValidatorActivity)} {k : List ValidatorFullInfo → Calls β} :
    Process.Triple
      (fun s => s.self.activities = activities ∧ Unchanged self changed s ∧ Leaves
        (Calls.entries confirmations blockNumber (validator :: rest) activities >>= k) result s)
      (syncActivity confirmations blockNumber validator)
      (fun answer s => ∃ told, Unchanged self (changed || answer.1) s ∧
        ((changed || answer.1) = false → Listed self told) ∧
        Leaves (Calls.entries confirmations blockNumber rest s.self.activities >>=
          fun others => k (told ++ others)) result s)
      (fun _ => True) := by
  refine .get_bind fun start hstart => ?_
  obtain ⟨rfl, hunchanged, hleaves⟩ := hstart
  have hskip : Leaves (Calls.entries confirmations blockNumber rest start.self.activities >>= k)
      result start → ∃ told, Unchanged self (changed || false) start ∧
        ((changed || false) = false → Listed self told) ∧
        Leaves (Calls.entries confirmations blockNumber rest start.self.activities >>=
          fun others => k (told ++ others)) result start := by
    rw [Bool.or_false]
    exact fun h => ⟨[], hunchanged, fun _ _ hmem => (by cases hmem), h⟩
  rw [Calls.entries] at hleaves
  split
  · rename_i hnone
    rw [hnone] at hleaves
    exact .pure fun s hs => hs ▸ hskip hleaves
  · rename_i found hfound
    rw [hfound] at hleaves
    dsimp only at hleaves
    by_cases hsettled : found.Settled confirmations blockNumber
    · rw [if_pos hsettled] at hleaves
      rw [if_pos (show found.syncHeight ≥ found.logHeight ∧
        blockNumber < found.logHeight + confirmations from hsettled)]
      exact .pure fun s hs => hs ▸ hskip hleaves
    · rw [if_neg hsettled] at hleaves
      rw [bind_assoc] at hleaves
      rw [if_neg (show ¬(found.syncHeight ≥ found.logHeight ∧
        blockNumber < found.logHeight + confirmations) from hsettled)]
      refine fun s hs => ?_
      obtain rfl : s = start := hs
      refine values_tells (P := fun next => next.self = s.self) (fun _ _ _ h => h)
        (fun info weight => ?_) s ⟨rfl, hleaves⟩
      rw [show (⟨validator, info.signer, weight, info.gasPrice, info.lastSubmit, info.epoch⟩ :
        ValidatorFullInfo) = assembled validator info weight from rfl]
      generalize assembled validator info weight = entry
      refine .bind (updateValidator_spec (Q := fun updated next =>
        next.self.activities = s.self.activities ∧ Unchanged self (changed || updated) next ∧
          ((changed || updated) = false → Listed self [entry]) ∧
          Leaves (Calls.entries confirmations blockNumber rest (changeActivity s.self.activities
            validator fun activity => { activity with syncHeight := blockNumber }) >>= fun others =>
              k (entry :: others)) result next) ?_ fun _ _ _ => trivial) fun updated =>
        .bind (R := fun _ next => Unchanged self (changed || updated) next ∧
          ((changed || updated) = false → Listed self [entry]) ∧
          Leaves (Calls.entries confirmations blockNumber rest next.self.activities >>= fun others =>
            k (entry :: others)) result next) (.modify ?_) fun _ => .pure fun next h => ⟨[entry], h⟩
      · rintro next validators ⟨hself, hread⟩ hlist
        simp only [bind_assoc, pure_bind] at hread
        have hnext : Unchanged self changed next := by
          unfold Unchanged
          rw [hself]
          exact hunchanged
        obtain ⟨hupdated, hlisted⟩ := hnext.update hlist
        exact ⟨by rw [hself], hupdated, hlisted, hread⟩
      · rintro next ⟨hactivities, hupdated, hlisted, hread⟩
        refine ⟨fun hquiet => ?_, hlisted, ?_⟩
        · dsimp only
          rw [hupdated hquiet]
        · dsimp only
          rw [hactivities]
          exact hread

theorem syncEach_tells : ∀ validators changed (k : List ValidatorFullInfo → Calls β),
    Process.Triple
      (fun s => Unchanged self changed s ∧
        Leaves (Calls.entries confirmations blockNumber validators s.self.activities >>= k) result s)
      (syncEach confirmations blockNumber validators)
      (fun answer s => ∃ told, Unchanged self (changed || answer.1) s ∧
        ((changed || answer.1) = false → Listed self told) ∧ Leaves (k told) result s)
      (fun _ => True) := by
  intro validators
  induction validators with
  | nil =>
      refine fun changed k => .pure fun s hs => ⟨[], ?_, fun _ _ hmem => (by cases hmem), hs.2⟩
      rw [Bool.or_false]
      exact hs.1
  | cons validator rest ih =>
      intro changed k
      refine .bind (R := fun answer s => ∃ told, Unchanged self (changed || answer.1) s ∧
        ((changed || answer.1) = false → Listed self told) ∧
        Leaves (Calls.entries confirmations blockNumber rest s.self.activities >>=
          fun others => k (told ++ others)) result s)
        (fun s hs => syncActivity_tells s ⟨rfl, hs⟩) fun answer => ?_
      rintro s ⟨told, hunchanged, hlisted, hleaves⟩
      refine (Process.Triple.bind (ih (changed || answer.1) _) fun others => .pure ?_) s
        ⟨hunchanged, hleaves⟩
      rintro s' ⟨told', hunchanged', hlisted', hleaves'⟩
      rw [Bool.or_assoc] at hunchanged' hlisted'
      refine ⟨told ++ told', hunchanged', fun hquiet entry hentry => ?_, hleaves'⟩
      rcases List.mem_append.mp hentry with hentry | hentry
      · rw [← Bool.or_assoc, Bool.or_eq_false_iff] at hquiet
        exact hlisted hquiet.1 entry hentry
      · exact hlisted' hquiet entry hentry

theorem syncActivities_tells {k : List ValidatorFullInfo → Calls β} :
    Process.Triple
      (fun s => s.self = self ∧ Leaves (Calls.entries confirmations blockNumber
        (self.activities.map Prod.fst) self.activities >>= k) result s)
      (syncActivities confirmations blockNumber)
      (fun updated s => ∃ told, Unchanged self updated s ∧ (updated = false → Listed self told) ∧
        Leaves (k told) result s)
      (fun _ => True) := by
  refine .get_bind fun start hstart => ?_
  obtain ⟨rfl, hleaves⟩ := hstart
  refine .bind (R := fun answer s => ∃ told, Unchanged start.self answer.1 s ∧
    (answer.1 = false → Listed start.self told) ∧ Leaves (k told) result s) ?_ fun answer =>
      .bind (modifySelf_spec (Q := fun _ s => ∃ told, Unchanged start.self answer.1 s ∧
        (answer.1 = false → Listed start.self told) ∧ Leaves (k told) result s) ?_)
          fun _ => .pure fun _ h => h
  · rintro _ rfl
    exact syncEach_tells _ false k _ ⟨fun _ => rfl, hleaves⟩
  · rintro s ⟨told, hunchanged, hlisted, hleaves⟩
    refine ⟨told, fun hquiet => ?_, hlisted, hleaves⟩
    dsimp only
    rw [hunchanged hquiet]

theorem syncValidators_tells {origin : EvmChainSync} {fee : Nat}
    {result : Option (RoundAnswers × List (Option ForeignChain))} :
    Process.Triple
      (fun s => s.self = { origin with fee := some fee } ∧
        Leaves (Calls.fromTotal confirmations origin blockNumber fee) result s)
      (syncValidators confirmations blockNumber)
      (fun updated s => ∃ told : RoundAnswers, result = some (told, s.replies) ∧
        told.height = blockNumber ∧ told.fee = fee ∧ Unchanged (origin.told told) updated s ∧
        (updated = false → Listed (origin.told told) told.entries))
      (fun _ => True) := by
  refine .bind (R := fun _ s => ∃ total : Nat, s.self = { origin with fee := some fee }.withTotal total ∧
    Leaves (Calls.fromLoad confirmations origin blockNumber fee total) result s) ?_ fun _ =>
    .bind (R := fun _ s => ∃ total listed,
      s.self = ({ origin with fee := some fee }.withTotal total).loaded listed ∧
        Leaves (Calls.fromLogs confirmations origin blockNumber fee total listed) result s) ?_
      fun _ => .bind (R := fun _ s => ∃ total listed logs, s.self = {
          ({ origin with fee := some fee }.withTotal total).loaded listed with
          activities := origin.logged confirmations blockNumber logs } ∧ Leaves (do
        let entries ← Calls.entries confirmations blockNumber
          ((origin.logged confirmations blockNumber logs).map Prod.fst)
          (origin.logged confirmations blockNumber logs)
        return ⟨blockNumber, fee, total, listed, logs, entries⟩) result s) ?_ fun _ => ?_
  · refine syncTotalWeight_tells.conseq (fun _ h => h) ?_ fun _ h => h
    rintro _ s ⟨chain, hleaves, hself⟩
    exact ⟨_, hself, hleaves⟩
  · rintro s ⟨total, hself, hleaves⟩
    rw [Calls.fromLoad, ← load_eq (hself ▸ (withTotal_keeps _ total).1)] at hleaves
    refine (loadOnce_tells.conseq (fun _ h => h) ?_ fun _ h => h) s ⟨rfl, hleaves⟩
    rintro _ s' ⟨listed, hleaves', hself'⟩
    exact ⟨total, listed, hself ▸ hself', hleaves'⟩
  · rintro s ⟨total, listed, hself, hleaves⟩
    refine (readLogs_tells.conseq (fun _ h => h) ?_ fun _ h => h) s ⟨rfl, hleaves⟩
    rintro _ s' ⟨chain, hleaves', hself'⟩
    have hkeeps := loaded_keeps ({ origin with fee := some fee }.withTotal total) listed
    have hweighed := withTotal_keeps { origin with fee := some fee } total
    rw [hself, logged_eq (hkeeps.1.trans hweighed.2.1) (hkeeps.2.trans hweighed.2.2)] at hself'
    exact ⟨total, listed, chain, hself', hleaves'⟩
  · rintro s ⟨total, listed, logs, hself, hleaves⟩
    have hactivities : s.self.activities = origin.logged confirmations blockNumber logs := by
      rw [hself]
    rw [← hactivities] at hleaves
    refine (syncActivities_tells.conseq (fun _ h => h) ?_ fun _ h => h) s ⟨rfl, hleaves⟩
    rintro updated s' ⟨entries, hunchanged, hlisted, hleaves'⟩
    refine ⟨_, hleaves'.symm, rfl, rfl, fun hquiet => ?_, fun hquiet entry hentry => ?_⟩
    · rw [hunchanged hquiet, hself, EvmChainSync.told]
    · have hfound := hlisted hquiet entry hentry
      rw [hself] at hfound
      exact hfound

-- A round that completes has been answered in full; one that completes without a word was told
-- nothing new of the fee and the entries.
theorem round_tells {result : Option (RoundAnswers × List (Option ForeignChain))} :
    Process.Triple (fun s => s.self = self ∧ Leaves (Calls.round confirmations self) result s)
      (round confirmations)
      (fun notify s => s.self.syncedHeight = self.syncedHeight ∨
        ∃ told, result = some (told, s.replies) ∧ s.self.syncedHeight = some told.height ∧
          (notify = false → self.fee = some told.fee ∧ Listed (self.told told) told.entries ∧
            s.self = { self.told told with
              activities := s.self.activities, syncedHeight := some told.height }))
      (fun _ => True) := by
  refine getBlockNumber_tells.bind fun answered => .get_bind fun start hstart => ?_
  obtain ⟨rfl, hleaves⟩ := hstart
  split_ifs with hold
  · exact .pure fun s hs => .inl (by rw [hs])
  · rw [if_neg hold] at hleaves
    unfold EvmChainSync.blockNumber at hleaves
    dsimp only
    generalize (start.self.syncedHeight.map fun height => min answered (height + 4000)).getD
      answered = blockNumber at hleaves ⊢
    refine .bind (R := fun updated s => ∃ fee, s.self = { start.self with fee := some fee } ∧
      updated = decide (start.self.fee ≠ some fee) ∧
      Leaves (Calls.fromTotal confirmations start.self blockNumber fee) result s) ?_
      fun feeUpdated => ?_
    · rintro _ rfl
      refine (syncFee_tells.conseq (fun _ h => h) ?_ fun _ h => h) _ ⟨rfl, hleaves⟩
      rintro _ s ⟨chain, hleft, hself, rfl⟩
      exact ⟨_, hself, rfl, hleft⟩
    · rintro s ⟨fee, hself, rfl, hleft⟩
      refine (Process.Triple.bind syncValidators_tells fun updated =>
        .bind (R := fun _ s => ∃ told : RoundAnswers, result = some (told, s.replies) ∧
          told.fee = fee ∧ s.self.syncedHeight = some told.height ∧
          (updated = false → s.self = { start.self.told told with
            activities := s.self.activities, syncedHeight := some told.height } ∧
              Listed (start.self.told told) told.entries)) (modifySelf_spec ?_) fun _ => .pure ?_) s
        ⟨hself, hleft⟩
      · rintro s ⟨told, hresult, hheight, hfee, hunchanged, hlisted⟩
        refine ⟨told, hresult, hfee, by rw [hheight], fun hquiet => ⟨?_, hlisted hquiet⟩⟩
        dsimp only
        rw [hunchanged hquiet, hheight]
      · rintro s ⟨told, hresult, hfee, hsynced, hquiet⟩
        refine .inr ⟨told, hresult, hsynced, fun hnotify => ?_⟩
        rw [Bool.or_eq_false_iff] at hnotify
        obtain ⟨hself, hlisted⟩ := hquiet hnotify.2
        rw [decide_eq_false_iff_not, not_not, ← hfee] at hnotify
        exact ⟨hnotify.1, hlisted, hself⟩

end Tells

end Raicoin.Validator
