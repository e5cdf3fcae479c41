import Raicoin.Validator.Calls

-- The local list of validators misses no logged change, unless the round that loads it is given up.
namespace Raicoin.Validator

open Lib EvmChainSync

namespace SyncState

-- The pages of a load are answered from chains whose contracts list the same validators, no more
-- than the first call has counted.
def LoadedWhole (s : SyncState) : Prop :=
  ∀ load, s.load = some load → ∃ listed,
    (∀ chain ∈ load.chains.dropLast, (chain.state load.height).names = listed) ∧
      ∀ counted ∈ load.chains.getLast?,
        listed.length ≤ (counted.state load.height).validators.length

def MayBeCurrent (confirmations : Nat) (s : SyncState) (current : ForeignChain) : Prop :=
  ∀ earlier ∈ s.seen, current.Follows confirmations earlier

-- The local entry of a validator has been read from chains that have all its logs that are
-- confirmed at `height`.
def Reflects (confirmations : Nat) (s : SyncState) (current : ForeignChain) (height : Nat)
    (validator : Uint256) : Prop :=
  ∃ chain ∈ s.chains, ∃ weighed ∈ s.chains, ∃ read,
    s.self.entry validator = ForeignChain.reading chain weighed read validator ∧
      ∀ log, log + confirmations ≤ height → validator ∈ (current.block log).logs →
        log ≤ read ∧ chain.AgreesUpTo current log ∧ weighed.AgreesUpTo current log

-- The height up to which the logs have been read: that of the last round to complete or else of
-- the load, or the height at hand where there is neither.
def anchor (s : SyncState) (height : Nat) : Nat :=
  s.self.syncedHeight.getD ((s.load.map Load.height).getD height)

section Conditions

variable (confirmations : Nat) (start : SyncState) (height : Nat) (logs : ForeignChain)

-- The logs of a round begin too late where the list has been loaded by an earlier round that was
-- given up. A validator that a block in between names, and no activity remembers, still has the
-- values that were loaded, and the load had the block.
def InTime : Prop :=
  ∀ validator log, start.anchor height < log + confirmations →
    log + confirmations < RpcM.previousHeight start.self height →
    validator ∈ (logs.block log).logs →
    activity (start.self.logged confirmations height logs) validator = none →
      start.read validator = none ∧ ∃ load, start.load = some load ∧ log ≤ load.height ∧
        ∀ chain ∈ load.chains, chain.AgreesUpTo logs log

-- The values of a validator are left alone until its last log is confirmed. The chains that told
-- them have the blocks before that one which get confirmed now.
def Spared : Prop :=
  ∀ validator found, activity (start.self.logged confirmations height logs) validator = some found →
    found.Settled confirmations height → ∀ log, start.anchor height < log + confirmations →
      log + confirmations ≤ height → validator ∈ (logs.block log).logs →
        ∀ chains, start.read validator = some chains → ∀ chain ∈ chains, chain.AgreesUpTo logs log

end Conditions

-- What is asked of a round whose calls are all answered.
def Keeping (confirmations : Nat) (start : SyncState) (replies : List (Option ForeignChain)) : Prop :=
  ∀ told rest, Calls.round confirmations start.self replies = some (told, rest) →
    start.InTime confirmations told.height told.logs ∧
      start.Spared confirmations told.height told.logs

end SyncState

-- The invariant: how an entry has been read, and what that covers.
section Invariant

variable {confirmations : Nat} {s s' : SyncState} {validator : Uint256}

structure Ambient (confirmations : Nat) (s : SyncState) : Prop where
  truthful : s.Truthful confirmations
  whole : s.LoadedWhole

-- The values come from the chains that were asked for them last, or else from the load.
structure ReadFrom (confirmations anchor : Nat) (s : SyncState) (validator : Uint256)
    (info weight : Seen) (height : Nat) : Prop where
  info_seen : info ∈ s.seen
  weight_seen : weight ∈ s.seen
  entry : s.self.entry validator = ForeignChain.reading info.chain weight.chain height validator
  synced : syncedAt s.self.activities validator ≤ height
  asked : ∀ chains, s.read validator = some chains → info.chain ∈ chains ∧ weight.chain ∈ chains
  loaded : s.read validator = none → syncedAt s.self.activities validator = 0 ∧
    ∃ load, s.load = some load ∧ info.chain ∈ load.chains ∧ weight.chain ∈ load.chains ∧
      height = load.height
  covers : ∀ current, s.MayBeCurrent confirmations current → ∀ log, log + confirmations ≤ anchor →
    validator ∈ (current.block log).logs → log ≤ height ∧ info.chain.AgreesUpTo current log ∧
      weight.chain.AgreesUpTo current log

def ReadWell (confirmations anchor : Nat) (s : SyncState) (validator : Uint256) : Prop :=
  ∃ info weight height, ReadFrom confirmations anchor s validator info weight height

-- A list that has been loaded.
structure Standing (confirmations : Nat) (s : SyncState) : Prop where
  list : ∃ validators, s.self.validators = some validators ∧ (names validators).Nodup
  high : s.anchor 0 ≤ highestSeen s.seen
  read : ∀ validator, ReadWell confirmations (s.anchor 0) s validator

structure Fresh (s : SyncState) : Prop where
  validators : s.self.validators = none
  synced : s.self.syncedHeight = none
  load : s.load = none
  activities : s.self.activities = []
  read : ∀ validator, s.read validator = none

structure Loaded (s : SyncState) : Prop where
  validators : s.self.validators ≠ none
  load : s.load ≠ none

theorem Loaded.anchor_eq (h : Loaded s) (height other : Nat) : s.anchor height = s.anchor other := by
  obtain ⟨load, hload⟩ := Option.ne_none_iff_exists'.mp h.load
  rw [SyncState.anchor, SyncState.anchor, hload]
  rfl

def Kept (confirmations : Nat) (s : SyncState) : Prop :=
  Fresh s ∨ Loaded s ∧ (Ambient confirmations s → Standing confirmations s)

-- Calls have been answered, and nothing of what follows has been changed.
structure Grows (s s' : SyncState) : Prop where
  validators : s'.self.validators = s.self.validators
  synced : s'.self.syncedHeight = s.self.syncedHeight
  activities : s'.self.activities = s.self.activities
  load : s'.load = s.load
  read : s'.read = s.read
  seen : ∃ added, s'.seen = added ++ s.seen ∧ ∀ call ∈ added, highestSeen s.seen ≤ call.highest

theorem Grows.highest (h : Grows s s') : highestSeen s.seen ≤ highestSeen s'.seen := by
  obtain ⟨added, hseen, hadded⟩ := h.seen
  rw [hseen]
  cases added with
  | nil => exact Nat.le_refl _
  | cons first rest => exact hadded first List.mem_cons_self

theorem Grows.trans {s'' : SyncState} (h : Grows s s') (h' : Grows s' s'') : Grows s s'' := by
  have hhighest := h.highest
  obtain ⟨added, hseen, hadded⟩ := h.seen
  obtain ⟨added', hseen', hadded'⟩ := h'.seen
  refine ⟨h'.validators.trans h.validators, h'.synced.trans h.synced,
    h'.activities.trans h.activities, h'.load.trans h.load, h'.read.trans h.read,
    added' ++ added, ?_, ?_⟩
  · rw [hseen', hseen, List.append_assoc]
  · intro call hcall
    rcases List.mem_append.mp hcall with hcall | hcall
    · exact hhighest.trans (hadded' call hcall)
    · exact hadded call hcall

theorem Grows.mem (h : Grows s s') {call : Seen} (hcall : call ∈ s.seen) : call ∈ s'.seen := by
  obtain ⟨added, hseen, -⟩ := h.seen
  rw [hseen]
  exact List.mem_append_right _ hcall

theorem Grows.anchor (h : Grows s s') (height : Nat) : s'.anchor height = s.anchor height := by
  rw [SyncState.anchor, SyncState.anchor, h.synced, h.load]

-- What is assumed of a longer run is assumed of a shorter one.
theorem Ambient.before {added : List Seen} (h : Ambient confirmations s')
    (hseen : s'.seen = added ++ s.seen) (hload : s.load = s'.load ∨ s.load = none) :
    Ambient confirmations s := by
  refine ⟨⟨fun chain hchain => h.truthful.logged chain ?_, ?_⟩, fun load hsome => ?_⟩
  · rw [SyncState.chains, hseen, List.map_append]
    exact List.mem_append_right _ hchain
  · have hfollow := h.truthful.follow
    rw [hseen, List.pairwise_append] at hfollow
    exact hfollow.2.1
  · rcases hload with hload | hload
    · exact h.whole load (hload ▸ hsome)
    · rw [hload] at hsome
      cases hsome

theorem Ambient.of_grows (h : Ambient confirmations s') (hgrows : Grows s s') :
    Ambient confirmations s := by
  obtain ⟨added, hseen, -⟩ := hgrows.seen
  exact h.before hseen (.inl hgrows.load.symm)

theorem entry_eq (h : s'.self.validators = s.self.validators) :
    s'.self.entry validator = s.self.entry validator := by
  rw [EvmChainSync.entry, EvmChainSync.entry, h]

theorem entry_of_find {validators : List ValidatorFullInfo}
    (h : s.self.validators = some validators) : s.self.entry validator =
      (find validators validator).getD ⟨validator, 0, 0, 0, 0, 0⟩ := by
  rw [EvmChainSync.entry, h]
  rfl

theorem ReadWell.mono {anchor : Nat} (h : ReadWell confirmations anchor s validator)
    (hseen : ∀ call ∈ s.seen, call ∈ s'.seen)
    (hentry : s'.self.entry validator = s.self.entry validator)
    (hsynced : syncedAt s'.self.activities validator ≤ syncedAt s.self.activities validator)
    (hread : s'.read validator = s.read validator) (hload : s'.load = s.load) :
    ReadWell confirmations anchor s' validator := by
  obtain ⟨info, weight, height, hfrom⟩ := h
  refine ⟨info, weight, height, ⟨hseen info hfrom.info_seen, hseen weight hfrom.weight_seen,
    hentry.trans hfrom.entry, hsynced.trans hfrom.synced, ?_, fun hnone => ?_, ?_⟩⟩
  · rw [hread]
    exact hfrom.asked
  · obtain ⟨hzero, hloaded⟩ := hfrom.loaded (hread.symm.trans hnone)
    exact ⟨by omega, hload ▸ hloaded⟩
  · intro current hcurrent
    exact hfrom.covers current fun earlier hearlier => hcurrent earlier (hseen earlier hearlier)

theorem ReadWell.grows {anchor : Nat} (h : ReadWell confirmations anchor s validator)
    (hgrows : Grows s s') : ReadWell confirmations anchor s' validator :=
  h.mono (fun _ hcall => hgrows.mem hcall) (entry_eq hgrows.validators)
    (Nat.le_of_eq (by rw [hgrows.activities])) (by rw [hgrows.read]) hgrows.load

theorem Standing.grows (h : Standing confirmations s) (hgrows : Grows s s') :
    Standing confirmations s' := by
  refine ⟨?_, ?_, fun v => ?_⟩
  · rw [hgrows.validators]
    exact h.list
  · rw [hgrows.anchor]
    exact h.high.trans hgrows.highest
  · rw [hgrows.anchor]
    exact (h.read v).grows hgrows

theorem Fresh.grows (h : Fresh s) (hgrows : Grows s s') : Fresh s' :=
  ⟨hgrows.validators.trans h.validators, hgrows.synced.trans h.synced, hgrows.load.trans h.load,
    hgrows.activities.trans h.activities, hgrows.read ▸ h.read⟩

theorem Loaded.grows (h : Loaded s) (hgrows : Grows s s') : Loaded s' :=
  ⟨hgrows.validators ▸ h.validators, hgrows.load ▸ h.load⟩

theorem Kept.grows (h : Kept confirmations s) (hgrows : Grows s s') : Kept confirmations s' := by
  rcases h with hfresh | ⟨hloaded, hstanding⟩
  · exact .inl (hfresh.grows hgrows)
  · exact .inr ⟨hloaded.grows hgrows,
      fun hambient => (hstanding (hambient.of_grows hgrows)).grows hgrows⟩

-- What a chain at hand has confirmed stays in every chain that can be current.
theorem agrees_current {current : ForeignChain} {call : Seen} {log : Nat}
    (hcurrent : s.MayBeCurrent confirmations current) (hcall : call ∈ s.seen)
    (hlog : log + confirmations ≤ call.highest) : call.chain.AgreesUpTo current log :=
  fun n hn => ((hcurrent call hcall).1 n (by omega)).symm

end Invariant

-- What each step of a round keeps, and what it adds.
section Stages

open RpcM

variable {confirmations blockNumber : Nat} {s s' start : SyncState}

theorem grows_replies {replies : List (Option ForeignChain)} : Grows s { s with replies } :=
  ⟨rfl, rfl, rfl, rfl, rfl, [], rfl, fun _ h => (by cases h)⟩

theorem grows_answer {replies : List (Option ForeignChain)} {call : Seen}
    (hhigh : highestSeen s.seen ≤ call.highest) :
    Grows s { s with replies, seen := call :: s.seen } :=
  ⟨rfl, rfl, rfl, rfl, rfl, [call], rfl, fun _ h => List.mem_singleton.mp h ▸ hhigh⟩

-- A round that started with `start` asks for the state at a height.
structure Asks (confirmations blockNumber : Nat) (start s : SyncState) : Prop where
  high : blockNumber ≤ highestSeen s.seen
  grows : Grows start s
  near : Fresh s ∨ Loaded s ∧ (Ambient confirmations s →
    Standing confirmations s ∧ s.anchor 0 ≤ blockNumber + confirmations)

theorem Asks.kept (h : Asks confirmations blockNumber start s) : Kept confirmations s := by
  rcases h.near with hfresh | ⟨hloaded, hstanding⟩
  · exact .inl hfresh
  · exact .inr ⟨hloaded, fun hambient => (hstanding hambient).1⟩

theorem Asks.grow (h : Asks confirmations blockNumber start s) (hgrows : Grows s s') :
    Asks confirmations blockNumber start s' := by
  refine ⟨h.high.trans hgrows.highest, h.grows.trans hgrows, ?_⟩
  rcases h.near with hfresh | ⟨hloaded, hnear⟩
  · exact .inl (hfresh.grows hgrows)
  · refine .inr ⟨hloaded.grows hgrows, fun hambient => ?_⟩
    obtain ⟨hstanding, hnear⟩ := hnear (hambient.of_grows hgrows)
    exact ⟨hstanding.grows hgrows, hgrows.anchor 0 ▸ hnear⟩

-- The chain that tells its height follows those that have answered.
theorem getBlockNumber_kept (hkept : Kept confirmations start) :
    Process.Triple (fun s => s = start) getBlockNumber
      (fun number s => number ≤ highestSeen s.seen ∧ Grows start s ∧
        (Fresh s ∨ Loaded s ∧ (Ambient confirmations s → Standing confirmations s ∧
          (s.self.syncedHeight = none → s.anchor 0 ≤ number + confirmations))))
      (Kept confirmations) := by
  refine getBlockNumber_spec ?_ ?_
  · rintro s chain rest rfl -
    have hgrows := @grows_answer s rest ⟨chain, max (highestSeen s.seen) chain.height⟩
      (Nat.le_max_left _ _)
    refine ⟨Nat.le_max_right _ _, hgrows, ?_⟩
    rcases hkept with hfresh | ⟨hloaded, hstanding⟩
    · exact .inl (hfresh.grows hgrows)
    · refine .inr ⟨hloaded.grows hgrows, fun hambient => ?_⟩
      have hstanding := hstanding (hambient.of_grows hgrows)
      refine ⟨hstanding.grows hgrows, fun _ => ?_⟩
      rw [hgrows.anchor]
      refine hstanding.high.trans ?_
      have hfollow := (List.pairwise_cons.mp hambient.truthful.follow).1
      cases hseen : s.seen with
      | nil => exact Nat.zero_le _
      | cons last earlier =>
          rw [hseen] at hfollow
          exact (hfollow last List.mem_cons_self).2
  · rintro s replies rfl
    exact hkept.grows grows_replies

theorem ask_keeps {α : Type} {answer : ForeignChain → α} :
    Process.Triple (Asks confirmations blockNumber start) (ask blockNumber answer)
      (fun _ => Asks confirmations blockNumber start) (Kept confirmations) :=
  ask_spec (fun _ _ _ hs _ _ => hs.grow (grows_answer (Nat.le_refl _)))
    fun _ _ hs => hs.kept.grows grows_replies

theorem syncFee_keeps : Process.Triple (Asks confirmations blockNumber start)
    (syncFee blockNumber) (fun _ => Asks confirmations blockNumber start) (Kept confirmations) := by
  refine ask_keeps.bind fun fee => .get_bind fun s hs => ?_
  refine .bind (modifySelf_spec (Q := fun _ => Asks confirmations blockNumber start) ?_)
    fun _ => .pure fun _ h => h
  rintro _ rfl
  exact hs.grow ⟨rfl, rfl, rfl, rfl, rfl, [], rfl, fun _ h => (by cases h)⟩

theorem syncTotalWeight_keeps : Process.Triple (Asks confirmations blockNumber start)
    (syncTotalWeight blockNumber) (fun _ => Asks confirmations blockNumber start)
    (Kept confirmations) := by
  refine ask_keeps.bind fun total => modifySelf_spec fun s hs => hs.grow ?_
  split_ifs
  · exact grows_replies
  · exact ⟨rfl, rfl, rfl, rfl, rfl, [], rfl, fun _ h => (by cases h)⟩

-- What a load has got so far, from `start` on: a count, and then pages.
structure Loading (blockNumber count : Nat) (start : SyncState) (at_ : Nat)
    (validators : List ValidatorFullInfo) (s : SyncState) : Prop where
  grows : Grows start s
  bounded : at_ ≤ count
  got : ∃ pages first, s.seen = pages ++ first :: start.seen ∧
    (∀ call ∈ pages ++ [first], highestSeen start.seen ≤ call.highest) ∧
    count = (first.chain.state blockNumber).validators.length ∧ (pages = [] → at_ = 0) ∧
    ∀ listed, (∀ call ∈ pages, (call.chain.state blockNumber).names = listed) →
      names validators = listed.take at_ ∧ ∀ entry ∈ validators,
        ∃ call ∈ pages, entry ∈ (call.chain.state blockNumber).validators

variable {count : Nat}

-- The pages of one list make up the list.
theorem loadPages_keeps : ∀ pages at_ validators, count ≤ at_ + pages →
    Process.Triple (Loading blockNumber count start at_ validators)
      (loadPages blockNumber count pages at_ validators)
      (fun loaded => Loading blockNumber count start count loaded) (Grows start) := by
  intro pages
  induction pages with
  | zero =>
      intro at_ validators hpages
      refine .pure fun s hs => ?_
      have hat : at_ = count := by
        have hbounded := hs.bounded
        omega
      exact hat ▸ hs
  | succ pages ih =>
      intro at_ validators hpages
      rw [loadPages]
      split_ifs with hend
      · refine .pure fun s hs => ?_
        have hat : at_ = count := by
          have hbounded := hs.bounded
          omega
        exact hat ▸ hs
      · refine .bind (ask_spec (Q := fun array => Loading blockNumber count start
          (min (at_ + 1000) count) (validators ++ array)) ?_ ?_) fun array => ih _ _ (by omega)
        · intro s chain replies hs _ _
          obtain ⟨hbefore, hbounded, added, first, hadded, hhigh, hcount, -, hgot⟩ := hs
          have hgrows := @grows_answer s replies ⟨chain, highestSeen s.seen⟩ (Nat.le_refl _)
          refine ⟨hbefore.trans hgrows, Nat.min_le_right _ _,
            ⟨chain, highestSeen s.seen⟩ :: added, first, ?_, ?_, hcount,
            fun h => (by cases h), ?_⟩
          · exact congrArg (_ :: ·) hadded
          · intro call hcall
            rcases List.mem_cons.mp hcall with rfl | hcall
            · exact hbefore.highest
            · exact hhigh call hcall
          · intro listed hlisted
            rw [List.forall_mem_cons] at hlisted
            obtain ⟨hnames, hentries⟩ := hgot listed hlisted.2
            constructor
            · have hpage : names (((chain.state blockNumber).validators.drop at_).take
                  (min (at_ + 1000) count - at_)) =
                  (listed.drop at_).take (min (at_ + 1000) count - at_) := by
                rw [← hlisted.1]
                simp only [names, ContractState.names, List.map_take, List.map_drop]
              rw [names, List.map_append]
              change names validators ++ names _ = _
              rw [hnames, hpage, ← List.take_add]
              congr 1
              omega
            · intro entry hentry
              rcases List.mem_append.mp hentry with hentry | hentry
              · obtain ⟨call, hcall, hmem⟩ := hentries entry hentry
                exact ⟨call, List.mem_cons_of_mem _ hcall, hmem⟩
              · exact ⟨_, List.mem_cons_self,
                  List.mem_of_mem_drop (List.mem_of_mem_take hentry)⟩
        · exact fun s replies hs => hs.grows.trans grows_replies

-- What the contract says of a validator that it lists, and of one that it does not.
theorem reading_of_mem {chain : ForeignChain} {height : Nat} {entry : ValidatorFullInfo}
    (hsound : (chain.state height).Sound) (hmem : entry ∈ (chain.state height).validators) :
    ForeignChain.reading chain chain height entry.validator = entry := by
  have hfind := find_of_mem hsound.nodup hmem
  rw [ForeignChain.reading, ContractState.info, show (chain.state height).validators.find? _ = _
    from hfind]
  dsimp only
  rw [hsound.weights entry hmem]

theorem reading_of_not_mem {chain : ForeignChain} {height : Nat} {validator : Uint256}
    (hmem : validator ∉ (chain.state height).names) :
    ForeignChain.reading chain chain height validator = ⟨validator, 0, 0, 0, 0, 0⟩ := by
  have hfind := find_eq_none.mpr hmem
  rw [ForeignChain.reading, ContractState.info, show (chain.state height).validators.find? _ = _
    from hfind]
  simp [ContractState.signerWeight]

-- What a whole load has got is the list of one of its chains.
theorem Loading.listed {validators : List ValidatorFullInfo} {calls : List Seen}
    (h : Loading blockNumber count start count validators s) (hcalls : s.seen = calls ++ start.seen)
    (hsound : ∀ call ∈ calls, (call.chain.state blockNumber).Sound) {listed : List Uint256}
    (hpages : ∀ chain ∈ (calls.map Seen.chain).dropLast, (chain.state blockNumber).names = listed)
    (hcounted : ∀ counted ∈ (calls.map Seen.chain).getLast?,
      listed.length ≤ (counted.state blockNumber).validators.length) :
    (names validators).Nodup ∧ (∀ call ∈ calls, highestSeen start.seen ≤ call.highest) ∧
      ∀ v, ∃ call ∈ calls, (find validators v).getD ⟨v, 0, 0, 0, 0, 0⟩ =
        ForeignChain.reading call.chain call.chain blockNumber v := by
  obtain ⟨-, -, pages, first, hseen, hhigh, hcount, hempty, hgot⟩ := h
  obtain rfl : calls = pages ++ [first] := by
    refine List.append_cancel_right (hcalls.symm.trans (hseen.trans ?_))
    rw [List.append_assoc]
    rfl
  rw [List.map_append, List.map_singleton, List.dropLast_concat] at hpages
  rw [List.map_append, List.map_singleton, List.getLast?_concat] at hcounted
  obtain ⟨hnames, hentries⟩ := hgot listed fun call hcall =>
    hpages _ (List.mem_map_of_mem hcall)
  have hlength : listed.length ≤ count := hcount ▸ hcounted _ rfl
  rw [List.take_of_length_le hlength] at hnames
  -- a chain that tells what is not listed
  have hother : ∃ call ∈ pages ++ [first], (call.chain.state blockNumber).names = listed := by
    cases pages with
    | nil =>
        have hzero := hempty rfl
        refine ⟨first, List.mem_singleton_self _, ?_⟩
        rw [List.length_eq_zero_iff.mp (show listed.length = 0 by omega), ContractState.names,
          List.map_eq_nil_iff, ← List.length_eq_zero_iff, ← hcount, hzero]
    | cons page rest =>
        exact ⟨page, List.mem_append_left _ List.mem_cons_self,
          hpages _ (List.mem_map_of_mem List.mem_cons_self)⟩
  obtain ⟨other, hotherMem, hotherNames⟩ := hother
  refine ⟨?_, hhigh, fun v => ?_⟩
  · rw [hnames, ← hotherNames]
    exact (hsound other hotherMem).nodup
  · cases hfind : find validators v with
    | none =>
        rw [find_eq_none, hnames, ← hotherNames] at hfind
        exact ⟨other, hotherMem, (reading_of_not_mem hfind).symm⟩
    | some entry =>
        obtain ⟨hentry, rfl⟩ := find_eq_some hfind
        obtain ⟨call, hcall, hpage⟩ := hentries entry hentry
        have hmem : call ∈ pages ++ [first] := List.mem_append_left _ hcall
        exact ⟨call, hmem, (reading_of_mem (hsound call hmem) hpage).symm⟩

-- The list has been loaded, by this round or by an earlier one.
structure Holds (confirmations blockNumber : Nat) (start s : SyncState) : Prop where
  high : blockNumber ≤ highestSeen s.seen
  loaded : Loaded s
  anchor : s.anchor 0 = start.anchor blockNumber
  load : ∀ load, start.load = some load → s.load = some load
  near : Ambient confirmations s →
    Standing confirmations s ∧ s.anchor 0 ≤ blockNumber + confirmations

-- The logs have not been read yet.
structure Unread (start s : SyncState) : Prop where
  synced : s.self.syncedHeight = start.self.syncedHeight
  activities : s.self.activities = start.self.activities
  read : s.read = start.read

theorem Grows.unread (h : Grows s s') : Unread s s' := ⟨h.synced, h.activities, h.read⟩

theorem Holds.kept (h : Holds confirmations blockNumber start s) : Kept confirmations s :=
  .inr ⟨h.loaded, fun hambient => (h.near hambient).1⟩

theorem Holds.grows (h : Holds confirmations blockNumber start s) (hgrows : Grows s s') :
    Holds confirmations blockNumber start s' := by
  refine ⟨h.high.trans hgrows.highest, h.loaded.grows hgrows, hgrows.anchor 0 ▸ h.anchor,
    fun load hload => hgrows.load.trans (h.load load hload), fun hambient => ?_⟩
  obtain ⟨hstanding, hnear⟩ := h.near (hambient.of_grows hgrows)
  exact ⟨hstanding.grows hgrows, hgrows.anchor 0 ▸ hnear⟩

-- The list that a load leaves behind.
theorem Loading.holds {before : SyncState} {validators : List ValidatorFullInfo}
    (hgrown : Grows start before) (hfresh : Fresh before)
    (hasked : blockNumber ≤ highestSeen before.seen)
    (h : Loading blockNumber count before count validators s) :
    Holds confirmations blockNumber start { s with
      self := { s.self with
        validators := some (sorted validators)
        rawSigners := validators.map rawSigner }
      load := some ⟨blockNumber, s.answersSince before⟩ } := by
  have hgrows := h.grows
  obtain ⟨calls, hcalls, -⟩ := hgrows.seen
  have hchains : s.answersSince before = calls.map Seen.chain := by
    rw [SyncState.answersSince, hcalls, List.length_append, Nat.add_sub_cancel, List.take_left]
  have hnone : start.self.syncedHeight = none ∧ start.load = none :=
    ⟨hgrown.synced ▸ hfresh.synced, hgrown.load ▸ hfresh.load⟩
  have hsynced : s.self.syncedHeight = none := hgrows.synced.trans hfresh.synced
  rw [hchains]
  refine ⟨hasked.trans hgrows.highest, ⟨Option.some_ne_none _, Option.some_ne_none _⟩, ?_,
    fun load hload => ?_, fun hambient => ?_⟩
  · rw [SyncState.anchor, SyncState.anchor, hnone.1, hnone.2]
    dsimp only
    rw [hsynced]
    rfl
  · rw [hnone.2] at hload
    cases hload
  have hanchor : SyncState.anchor { s with
      self := { s.self with
        validators := some (sorted validators)
        rawSigners := validators.map rawSigner }
      load := some ⟨blockNumber, calls.map Seen.chain⟩ } 0 = blockNumber := by
    rw [SyncState.anchor]
    dsimp only
    rw [hsynced]
    rfl
  have hmem : ∀ call ∈ calls, call ∈ s.seen := by
    intro call hcall
    rw [hcalls]
    exact List.mem_append_left _ hcall
  obtain ⟨listed, hpages, hcounted⟩ := hambient.whole _ rfl
  obtain ⟨hnodup, hhigh, hread⟩ := h.listed hcalls (fun call hcall =>
    (hambient.truthful.logged _ (List.mem_map_of_mem (hmem call hcall))).sound _) hpages hcounted
  have hactivities : s.self.activities = [] := hgrows.activities.trans hfresh.activities
  have hunread : ∀ v, s.read v = none := by
    rw [hgrows.read]
    exact hfresh.read
  refine ⟨⟨⟨_, rfl, sorted_nodup hnodup⟩, ?_, fun v => ?_⟩, ?_⟩
  · rw [hanchor]
    exact hasked.trans hgrows.highest
  · rw [hanchor]
    obtain ⟨call, hcall, hentry⟩ := hread v
    have hcallHigh := hasked.trans (hhigh call hcall)
    refine ⟨call, call, blockNumber, hmem call hcall, hmem call hcall, ?_, ?_, ?_, ?_, ?_⟩
    · rw [entry_of_find rfl, find_sorted hnodup, hentry]
    · dsimp only
      rw [hactivities]
      exact Nat.zero_le _
    · intro chains hchains
      rw [hunread v] at hchains
      cases hchains
    · intro _
      refine ⟨by dsimp only; rw [hactivities]; rfl, _, rfl, ?_, ?_, rfl⟩
      · exact List.mem_map_of_mem hcall
      · exact List.mem_map_of_mem hcall
    · intro current hcurrent log hlog _
      have hagrees := agrees_current hcurrent (hmem call hcall) (hlog.trans hcallHigh)
      exact ⟨by omega, hagrees, hagrees⟩
  · rw [hanchor]
    exact Nat.le_add_right _ _

theorem initializeValidators_keeps {before : SyncState} (hgrown : Grows start before)
    (hasked : blockNumber ≤ highestSeen before.seen) (hfresh : Fresh before) :
    Process.Triple (fun s => s = before) (initializeValidators blockNumber)
      (fun _ s => Holds confirmations blockNumber start s ∧ Unread start s)
      (Kept confirmations) := by
  have hkept : ∀ s, Grows before s → Kept confirmations s := fun s hgrows =>
    .inl (hfresh.grows hgrows)
  refine .get_bind fun before' hbefore => ?_
  subst hbefore
  refine .bind (R := fun count s => Loading blockNumber count before' 0 [] s) ?_ fun count => ?_
  · refine ask_spec ?_ ?_
    · rintro s chain replies rfl _ _
      refine ⟨grows_answer (Nat.le_refl _), Nat.zero_le _, [], _, rfl, ?_, rfl, fun _ => rfl, ?_⟩
      · intro call hcall
        rw [List.mem_singleton.mp hcall]
      · exact fun _ _ => ⟨by simp [names], fun _ h => (by cases h)⟩
    · rintro s replies rfl
      exact hkept _ grows_replies
  refine .bind ((loadPages_keeps count 0 [] (by omega)).conseq (fun _ h => h) (fun _ _ h => h)
    hkept) fun validators => .bind (.modify fun s hloading => ?_) fun _ => .pure fun _ h => h
  have hunread := (hgrown.trans hloading.grows).unread
  exact ⟨hloading.holds hgrown hfresh hasked, hunread.synced, hunread.activities, hunread.read⟩

theorem loadOnce_keeps : Process.Triple (Asks confirmations blockNumber start)
    (loadOnce blockNumber) (fun _ s => Holds confirmations blockNumber start s ∧ Unread start s)
    (Kept confirmations) := by
  refine .get_bind fun before hbefore => ?_
  split_ifs with hnone
  · rw [Option.isNone_iff_eq_none] at hnone
    rcases hbefore.near with hfresh | ⟨hloaded, -⟩
    · exact .bind (initializeValidators_keeps hbefore.grows hbefore.high hfresh) fun _ =>
        .pure fun _ h => h
    · exact absurd hnone hloaded.validators
  · refine .pure fun s hs => ?_
    subst hs
    rcases hbefore.near with hfresh | ⟨hloaded, hnear⟩
    · exact absurd (by rw [hfresh.validators]; rfl) hnone
    · have hanchor : s.anchor 0 = start.anchor blockNumber := by
        rw [hloaded.anchor_eq 0 blockNumber]
        exact hbefore.grows.anchor _
      exact ⟨⟨hbefore.high, hloaded, hanchor, fun load hload => hbefore.grows.load.trans hload,
        hnear⟩, hbefore.grows.unread⟩

variable {logs : ForeignChain} {done : List Uint256} {validator : Uint256}

-- The logs that a round asks for are remembered.
theorem logged_watched {self : EvmChainSync} {log : Nat}
    (hasked : previousHeight self blockNumber ≤ log + confirmations) (hlog : log ≤ blockNumber)
    (hnamed : validator ∈ (logs.block log).logs) :
    ∃ found, activity (self.logged confirmations blockNumber logs) validator = some found ∧
      log ≤ found.logHeight := by
  have hmem : (validator, log) ∈ logs.logsBetween
      ((previousHeight self blockNumber : Int) - confirmations) blockNumber := by
    rw [ForeignChain.mem_logsBetween]
    exact ⟨by omega, hlog, hnamed⟩
  obtain ⟨found, hfound, hle, -⟩ :=
    @activity_updates self.activities _ ForeignChain.logsBetween_sorted (validator, log) hmem
  exact ⟨found, hfound, hle⟩

-- The logs have been read from `logs`; `done` are the validators that have been gone through.
structure Syncs (confirmations blockNumber : Nat) (start : SyncState) (logs : ForeignChain)
    (done : List Uint256) (s : SyncState) : Prop where
  holds : Holds confirmations blockNumber start s
  answered : ∃ call ∈ s.seen, blockNumber ≤ call.highest ∧ call.chain = logs
  known : ∀ v, (activity s.self.activities v).isSome →
    (activity (start.self.logged confirmations blockNumber logs) v).isSome
  untouched : ∀ v ∉ done, activity s.self.activities v =
    activity (start.self.logged confirmations blockNumber logs) v ∧ s.read v = start.read v
  done : Ambient confirmations s → start.InTime confirmations blockNumber logs →
    start.Spared confirmations blockNumber logs → ∀ v ∈ done, ReadWell confirmations blockNumber s v

theorem readLogs_keeps {β : Type} {k : ForeignChain → Calls β}
    {result : Option (β × List (Option ForeignChain))} :
    Process.Triple
      (fun s => (Holds confirmations blockNumber start s ∧ Unread start s) ∧
        Leaves (Calls.state blockNumber >>= k) result s)
      (readLogs confirmations blockNumber)
      (fun _ s => ∃ logs, Syncs confirmations blockNumber start logs [] s ∧
        s.self.activities = start.self.logged confirmations blockNumber logs ∧
        Leaves (k logs) result s)
      (Kept confirmations) := by
  refine .get_bind fun before hbefore => ?_
  obtain ⟨⟨hholds, hunread⟩, hleaves⟩ := hbefore
  refine .bind (R := fun found s => ∃ logs, found = logs.logsBetween
      ((previousHeight before.self blockNumber : Int) - confirmations) blockNumber ∧
      Grows before s ∧ (∃ call ∈ s.seen, blockNumber ≤ call.highest ∧ call.chain = logs) ∧
      Leaves (k logs) result s) ?_ fun found => modifySelf_spec fun s hs => ?_
  · refine ask_spec ?_ fun s replies hs => (hs ▸ hholds.kept).grows grows_replies
    rintro s chain replies rfl hreplies hhigh
    refine ⟨chain, rfl, grows_answer (Nat.le_refl _), ⟨_, List.mem_cons_self, hholds.high, rfl⟩, ?_⟩
    exact leaves_state hleaves hreplies hhigh
  · obtain ⟨logs, rfl, hgrows, hanswered, hleft⟩ := hs
    have hheld := hholds.grows hgrows
    have hlogged : (logs.logsBetween ((previousHeight before.self blockNumber : Int) - confirmations)
        blockNumber).foldl updateActivity s.self.activities =
          start.self.logged confirmations blockNumber logs := by
      rw [hgrows.activities]
      exact logged_eq hunread.synced hunread.activities
    refine ⟨logs, ⟨⟨hheld.high, ⟨hheld.loaded.validators, hheld.loaded.load⟩, hheld.anchor,
        hheld.load, fun hambient => ?_⟩,
      hanswered, fun v hsome => ?_, fun v _ => ⟨?_, ?_⟩, fun _ _ _ _ h => (by cases h)⟩, hlogged,
      hleft⟩
    · obtain ⟨hstanding, hnear⟩ := hheld.near (@Ambient.before _ s _ [] hambient rfl (.inl rfl))
      refine ⟨⟨hstanding.list, hstanding.high, fun v => ?_⟩, hnear⟩
      exact (hstanding.read v).mono (fun _ h => h) rfl (Nat.le_of_eq syncedAt_updates) rfl rfl
    · rwa [← hlogged]
    · rw [← hlogged]
    · rw [← hunread.read, ← hgrows.read]

-- A validator that the round does not read again still has the values of its confirmed logs.
theorem Syncs.left (h : Syncs confirmations blockNumber start logs done s) (hnot : validator ∉ done)
    (hsettled : ∀ found, activity s.self.activities validator = some found →
      found.Settled confirmations blockNumber)
    (hambient : Ambient confirmations s) (hintime : start.InTime confirmations blockNumber logs)
    (hspared : start.Spared confirmations blockNumber logs) :
    ReadWell confirmations blockNumber s validator := by
  obtain ⟨call, hcall, hhigh, rfl⟩ := h.answered
  obtain ⟨hactivity, hread⟩ := h.untouched validator hnot
  obtain ⟨info, weight, height, hfrom⟩ := (h.holds.near hambient).1.read validator
  refine ⟨info, weight, height, { hfrom with covers := fun current hcurrent log hlog hnamed => ?_ }⟩
  by_cases hold : log + confirmations ≤ s.anchor 0
  · exact hfrom.covers current hcurrent log hold hnamed
  have hagrees : call.chain.AgreesUpTo current log :=
    agrees_current hcurrent hcall (hlog.trans hhigh)
  rw [← hagrees log (Nat.le_refl _)] at hnamed
  have hnew : start.anchor blockNumber < log + confirmations := by
    rw [← h.holds.anchor]
    omega
  have hhas : log ≤ height ∧ info.chain.AgreesUpTo call.chain log ∧
      weight.chain.AgreesUpTo call.chain log := by
    cases hfound : activity (start.self.logged confirmations blockNumber call.chain) validator with
    | none =>
        have hgap : log + confirmations < previousHeight start.self blockNumber := by
          by_contra hasked
          obtain ⟨found, hsome, -⟩ := @logged_watched confirmations blockNumber call.chain validator
            start.self log (by omega) (by omega) hnamed
          rw [hfound] at hsome
          cases hsome
        obtain ⟨hunread, load, hload, hle, hchains⟩ := hintime validator log hnew hgap hnamed hfound
        obtain ⟨-, load', hload', hinfo, hweight, rfl⟩ := hfrom.loaded (hread.trans hunread)
        obtain rfl : load = load' :=
          Option.some_inj.mp ((h.holds.load load hload).symm.trans hload')
        exact ⟨hle, hchains _ hinfo, hchains _ hweight⟩
    | some found =>
        have hsettled := hsettled found (hactivity.trans hfound)
        have hsynced := hfrom.synced
        obtain ⟨hsync, hlast⟩ := hsettled
        cases hasked : start.read validator with
        | none =>
            obtain ⟨hzero, -⟩ := hfrom.loaded (hread.trans hasked)
            rw [syncedAt, hactivity, hfound] at hzero
            change found.syncHeight = 0 at hzero
            omega
        | some chains =>
            obtain ⟨hinfo, hweight⟩ := hfrom.asked chains (hread.trans hasked)
            have hagree := hspared validator found hfound ⟨hsync, hlast⟩ log hnew hlog hnamed chains
              hasked
            rw [syncedAt, hactivity, hfound] at hsynced
            change found.syncHeight ≤ height at hsynced
            exact ⟨by omega, hagree _ hinfo, hagree _ hweight⟩
  exact ⟨hhas.1, fun n hn => (hhas.2.1 n hn).trans (hagrees n hn),
    fun n hn => (hhas.2.2 n hn).trans (hagrees n hn)⟩

theorem Holds.before (h : Holds confirmations blockNumber start s)
    (hambient : Ambient confirmations s') (hseen : s'.seen = s.seen) (hload : s'.load = s.load) :
    Standing confirmations s ∧ s.anchor 0 ≤ blockNumber + confirmations :=
  h.near (hambient.before (show s'.seen = [] ++ s.seen from hseen) (.inl hload.symm))

theorem Syncs.grows (h : Syncs confirmations blockNumber start logs done s) (hgrows : Grows s s') :
    Syncs confirmations blockNumber start logs done s' := by
  obtain ⟨call, hcall, hanswered⟩ := h.answered
  refine ⟨h.holds.grows hgrows, ⟨call, hgrows.mem hcall, hanswered⟩, ?_, ?_,
    fun hambient hintime hspared v hv => ?_⟩
  · rw [hgrows.activities]
    exact h.known
  · rw [hgrows.activities, hgrows.read]
    exact h.untouched
  · exact (h.done (hambient.of_grows hgrows) hintime hspared v hv).grows hgrows

-- The validator has been read once more, and the others are as they were.
theorem Syncs.reread {info weight : Seen} {validators : List ValidatorFullInfo}
    {entry : ValidatorFullInfo} {chains : List ForeignChain}
    (h : Syncs confirmations blockNumber start logs done s) (hinfo : info ∈ s.seen)
    (hweight : weight ∈ s.seen) (hinfoHigh : highestSeen s.seen ≤ info.highest)
    (hweightHigh : highestSeen s.seen ≤ weight.highest)
    (hentry : entry = ForeignChain.reading info.chain weight.chain blockNumber validator)
    (hchains : info.chain ∈ chains ∧ weight.chain ∈ chains)
    (hbefore : s.self.validators = some validators)
    (hself : s'.self = { s.self with
      validators := some (EvmChainSync.updateValidator validators entry).2
      rawSigners := updateRawSigners validators s.self.rawSigners entry
      activities := changeActivity s.self.activities validator fun activity =>
        { activity with syncHeight := blockNumber } })
    (hseen : s'.seen = s.seen) (hload : s'.load = s.load)
    (hread : s'.read = Function.update s.read validator (some chains)) :
    Syncs confirmations blockNumber start logs (validator :: done) s' := by
  have hvalidator : entry.validator = validator := by rw [hentry]; rfl
  have hanchor : ∀ height, s'.anchor height = s.anchor height := by
    intro height
    rw [SyncState.anchor, hself, hload]
    rfl
  have hactivity : ∀ v, activity s'.self.activities v = if v = validator then
      (activity s.self.activities v).map fun activity => { activity with syncHeight := blockNumber }
      else activity s.self.activities v := by
    intro v
    rw [hself, ← activity_changeActivity]
  have hlist : s'.self.validators =
      some (EvmChainSync.updateValidator validators entry).2 := by rw [hself]
  have hnodup : Ambient confirmations s' → (names validators).Nodup := by
    intro hambient
    obtain ⟨others, hothers, hnodup⟩ := (h.holds.before hambient hseen hload).1.list
    obtain rfl : validators = others := Option.some_inj.mp (hbefore.symm.trans hothers)
    exact hnodup
  have hfind : Ambient confirmations s' → ∀ v, s'.self.entry v =
      if v = validator then entry else s.self.entry v := by
    intro hambient v
    rw [entry_of_find hlist, entry_of_find hbefore, find_updateValidator (hnodup hambient),
      hvalidator]
    split_ifs <;> rfl
  have hsynced : syncedAt s'.self.activities validator ≤ blockNumber := by
    rw [syncedAt, hactivity, if_pos rfl]
    cases activity s.self.activities validator with
    | none => exact Nat.zero_le _
    | some found => exact Nat.le_refl _
  -- Whatever is already covered up to a height is so still.
  have hstill : ∀ covered, Ambient confirmations s' → covered ≤ highestSeen s.seen →
      covered ≤ blockNumber + confirmations → ∀ v,
        (v ≠ validator → ReadWell confirmations covered s v) →
          ReadWell confirmations covered s' v := by
    intro covered hambient hcovered hnear v hother
    by_cases hv : v = validator
    · subst hv
      refine ⟨info, weight, blockNumber, hseen ▸ hinfo, hseen ▸ hweight, ?_, hsynced,
        fun others hothers => ?_, fun hnone => ?_, fun current hcurrent log hlog _ => ?_⟩
      · rw [hfind hambient, if_pos rfl, hentry]
      · rw [hread, Function.update_self] at hothers
        rwa [← Option.some_inj.mp hothers]
      · rw [hread, Function.update_self] at hnone
        cases hnone
      · refine ⟨by omega, ?_, ?_⟩
        · exact agrees_current hcurrent (hseen ▸ hinfo) (by omega)
        · exact agrees_current hcurrent (hseen ▸ hweight) (by omega)
    · refine (hother hv).mono (fun call hcall => hseen ▸ hcall) ?_ ?_ ?_ hload
      · rw [hfind hambient, if_neg hv]
      · rw [syncedAt, hactivity, if_neg hv]
        exact Nat.le_refl _
      · rw [hread, Function.update_of_ne hv]
  obtain ⟨call, hcall, hanswered⟩ := h.answered
  refine ⟨⟨hseen ▸ h.holds.high, ⟨hlist ▸ Option.some_ne_none _, hload ▸ h.holds.loaded.load⟩,
    (hanchor 0).trans h.holds.anchor, fun load hsome => hload.trans (h.holds.load load hsome),
    fun hambient => ?_⟩, ⟨call, hseen ▸ hcall, hanswered⟩, fun v hsome => ?_, fun v hv => ?_,
    fun hambient hintime hspared v hv => ?_⟩
  · obtain ⟨hstanding, hnear⟩ := h.holds.before hambient hseen hload
    rw [hanchor]
    refine ⟨⟨⟨_, hlist, updateValidator_nodup (hnodup hambient)⟩, ?_, fun v => ?_⟩, hnear⟩
    · rw [hanchor, hseen]
      exact hstanding.high
    · rw [hanchor]
      exact hstill _ hambient hstanding.high hnear v fun _ => hstanding.read v
  · rw [hactivity] at hsome
    split_ifs at hsome
    · rw [Option.isSome_map] at hsome
      exact h.known v hsome
    · exact h.known v hsome
  · rw [List.mem_cons, not_or] at hv
    obtain ⟨hactivities, hreads⟩ := h.untouched v hv.2
    rw [hactivity, if_neg hv.1, hread, Function.update_of_ne hv.1]
    exact ⟨hactivities, hreads⟩
  · refine hstill _ hambient h.holds.high (Nat.le_add_right _ _) v fun hne => ?_
    refine h.done (hambient.before (show s'.seen = [] ++ s.seen from hseen) (.inl hload.symm))
      hintime hspared v ?_
    exact (List.mem_cons.mp hv).resolve_left hne

-- Two answers, or one where the weight is not asked for, tell the values of a validator.
theorem getSignerWeight_keeps {before : SyncState} {info : ValidatorInfo} {chain : ForeignChain}
    (hkept : Kept confirmations before) (hinfo : info = (chain.state blockNumber).info validator) :
    Process.Triple
      (fun s => ∃ replies, s = { before with
        replies, seen := ⟨chain, highestSeen before.seen⟩ :: before.seen })
      (getSignerWeight info.signer blockNumber)
      (fun weight s => ∃ added replies, s = { before with replies, seen := added ++ before.seen } ∧
        (∀ call ∈ added, call.highest = highestSeen before.seen) ∧ added ≠ [] ∧
        ∃ call ∈ added, ∃ weighed ∈ added, assembled validator info weight =
          ForeignChain.reading call.chain weighed.chain blockNumber validator)
      (Kept confirmations) := by
  subst hinfo
  unfold getSignerWeight
  split_ifs with hsigner
  · refine .pure fun s hs => ?_
    obtain ⟨replies, rfl⟩ := hs
    refine ⟨[⟨chain, highestSeen before.seen⟩], replies, rfl, ?_, List.cons_ne_nil _ _, _,
      List.mem_singleton_self _, _, List.mem_singleton_self _, ?_⟩
    · exact fun call hcall => by rw [List.mem_singleton.mp hcall]
    · simp only [assembled, ForeignChain.reading, ContractState.signerWeight, if_pos hsigner]
  · refine ask_spec ?_ ?_
    · rintro s weighed rest ⟨replies, rfl⟩ _ _
      refine ⟨[⟨weighed, highestSeen before.seen⟩, ⟨chain, highestSeen before.seen⟩], rest, rfl, ?_,
        List.cons_ne_nil _ _, ⟨chain, _⟩, List.mem_cons_of_mem _ (List.mem_singleton_self _),
        ⟨weighed, _⟩, List.mem_cons_self, ?_⟩
      · intro call hcall
        rcases List.mem_cons.mp hcall with rfl | hcall
        · rfl
        · rw [List.mem_singleton.mp hcall]
      · simp only [assembled, ForeignChain.reading, ContractState.signerWeight, if_neg hsigner]
    · rintro s rest ⟨replies, rfl⟩
      exact (hkept.grows (grows_answer (Nat.le_refl _))).grows grows_replies

theorem grows_answers {added : List Seen} {replies : List (Option ForeignChain)}
    (hadded : ∀ call ∈ added, call.highest = highestSeen s.seen) :
    Grows s { s with replies, seen := added ++ s.seen } :=
  ⟨rfl, rfl, rfl, rfl, rfl, added, rfl, fun call hcall => Nat.le_of_eq (hadded call hcall).symm⟩

theorem highestSeen_answers {added earlier : List Seen} (hne : added ≠ [])
    (hadded : ∀ call ∈ added, call.highest = highestSeen earlier) :
    highestSeen (added ++ earlier) = highestSeen earlier := by
  cases added with
  | nil => exact absurd rfl hne
  | cons call rest => exact hadded call List.mem_cons_self

theorem syncActivity_keeps :
    Process.Triple (Syncs confirmations blockNumber start logs done)
      (syncActivity confirmations blockNumber validator)
      (fun _ => Syncs confirmations blockNumber start logs (validator :: done))
      (Kept confirmations) := by
  refine .get_bind fun before hsyncs => ?_
  have hkept : Kept confirmations before := hsyncs.holds.kept
  have hskip : (∀ found, activity before.self.activities validator = some found →
      found.Settled confirmations blockNumber) →
        Syncs confirmations blockNumber start logs (validator :: done) before := by
    refine fun hsettled => ⟨hsyncs.holds, hsyncs.answered, hsyncs.known, fun v hv => ?_,
      fun hambient hintime hspared v hv => ?_⟩
    · rw [List.mem_cons, not_or] at hv
      exact hsyncs.untouched v hv.2
    · by_cases hdone : v ∈ done
      · exact hsyncs.done hambient hintime hspared v hdone
      · obtain rfl := (List.mem_cons.mp hv).resolve_right hdone
        exact hsyncs.left hdone hsettled hambient hintime hspared
  split
  · rename_i hnone
    refine .pure fun s hs => ?_
    subst hs
    refine hskip fun found hfound => ?_
    rw [hnone] at hfound
    cases hfound
  · rename_i found hfound
    split_ifs with hsettled
    · refine .pure fun s hs => ?_
      subst hs
      refine hskip fun other hother => ?_
      rw [hfound] at hother
      cases hother
      exact hsettled
    · refine .bind (R := fun info s => ∃ chain, info = (chain.state blockNumber).info validator ∧
        ∃ replies, s = { before with
          replies, seen := ⟨chain, highestSeen before.seen⟩ :: before.seen }) ?_ fun info =>
        .bind (R := fun weight s => ∃ added replies,
          s = { before with replies, seen := added ++ before.seen } ∧
          (∀ call ∈ added, call.highest = highestSeen before.seen) ∧ added ≠ [] ∧
          ∃ call ∈ added, ∃ weighed ∈ added, assembled validator info weight =
            ForeignChain.reading call.chain weighed.chain blockNumber validator) ?_ fun weight => ?_
      · refine ask_spec ?_ ?_
        · rintro s chain rest rfl _ _
          exact ⟨chain, rfl, rest, rfl⟩
        · rintro s replies rfl
          exact hkept.grows grows_replies
      · rintro s ⟨chain, hinfo, hs⟩
        exact getSignerWeight_keeps hkept hinfo s hs
      · refine .bind (updateValidator_spec (Q := fun _ next => ∃ added replies validators,
          (∀ call ∈ added, call.highest = highestSeen before.seen) ∧ added ≠ [] ∧
          (∃ call ∈ added, ∃ weighed ∈ added, assembled validator info weight =
            ForeignChain.reading call.chain weighed.chain blockNumber validator) ∧
          before.self.validators = some validators ∧ next = { before with
            replies
            seen := added ++ before.seen
            self := { before.self with
              validators := some
                (EvmChainSync.updateValidator validators (assembled validator info weight)).2
              rawSigners := updateRawSigners validators before.self.rawSigners
                (assembled validator info weight) } }) ?_ ?_) fun updated =>
          .bind (R := fun _ => Syncs confirmations blockNumber start logs (validator :: done))
            (.modify ?_) fun _ => .pure fun _ h => h
        · rintro s validators ⟨added, replies, rfl, hhigh, hne, htold⟩ hlist
          exact ⟨added, replies, validators, hhigh, hne, htold, hlist, rfl⟩
        · rintro s ⟨added, replies, rfl, -, -, -⟩ hlist
          exact absurd hlist hsyncs.holds.loaded.validators
        · rintro s ⟨added, replies, validators, hhigh, hne, ⟨call, hcall, weighed, hweighed, hentry⟩,
            hlist, rfl⟩
          have hsince : SyncState.answersSince { before with
              replies, seen := added ++ before.seen } before = added.map Seen.chain := by
            rw [SyncState.answersSince]
            dsimp only
            rw [List.length_append, Nat.add_sub_cancel, List.take_left]
          have hlast := highestSeen_answers hne hhigh
          have hgrown := @Syncs.grows confirmations blockNumber before
            { before with replies, seen := added ++ before.seen } start logs done hsyncs
            (grows_answers hhigh)
          refine hgrown.reread (List.mem_append_left _ hcall) (List.mem_append_left _ hweighed) ?_ ?_
            hentry ⟨List.mem_map_of_mem (f := Seen.chain) hcall, List.mem_map_of_mem hweighed⟩ hlist
            rfl rfl rfl ?_
          · dsimp only
            rw [hlast, hhigh call hcall]
          · dsimp only
            rw [hlast, hhigh weighed hweighed]
          · dsimp only
            rw [← hsince]
            rfl

theorem syncEach_keeps : ∀ validators done,
    Process.Triple (Syncs confirmations blockNumber start logs done)
      (syncEach confirmations blockNumber validators)
      (fun _ => Syncs confirmations blockNumber start logs (validators.reverse ++ done))
      (Kept confirmations) := by
  intro validators
  induction validators with
  | nil => exact fun done => .pure fun _ h => h
  | cons validator rest ih =>
      intro done
      refine .bind syncActivity_keeps fun result => .bind (ih _) fun others => .pure fun s h => ?_
      rw [List.reverse_cons, List.append_assoc]
      exact h

-- All validators are covered up to the height of the round.
structure Synced (confirmations blockNumber : Nat) (start : SyncState) (logs : ForeignChain)
    (s : SyncState) : Prop where
  holds : Holds confirmations blockNumber start s
  read : Ambient confirmations s → start.InTime confirmations blockNumber logs →
    start.Spared confirmations blockNumber logs → ∀ v, ReadWell confirmations blockNumber s v

theorem syncActivities_keeps : Process.Triple
    (fun s => Syncs confirmations blockNumber start logs [] s ∧
      s.self.activities = start.self.logged confirmations blockNumber logs)
    (syncActivities confirmations blockNumber)
    (fun _ => Synced confirmations blockNumber start logs) (Kept confirmations) := by
  refine .get_bind fun before hbefore => ?_
  obtain ⟨hsyncs, hactivities⟩ := hbefore
  refine .bind (R := fun _ => Syncs confirmations blockNumber start logs
    ((before.self.activities.map Prod.fst).reverse ++ [])) ?_ fun result =>
      .bind (modifySelf_spec (Q := fun _ => Synced confirmations blockNumber start logs)
        fun s hs => ?_) fun _ => .pure fun _ h => h
  · rintro s rfl
    exact syncEach_keeps _ [] s hsyncs
  have hfilter : ∀ v, syncedAt (s.self.activities.filter fun item =>
      !(result.2.contains item.1)) v ≤ syncedAt s.self.activities v := fun v =>
    @syncedAt_filter_le _ _ fun name => !(result.2.contains name)
  refine ⟨⟨hs.holds.high, ⟨hs.holds.loaded.validators, hs.holds.loaded.load⟩, hs.holds.anchor,
    hs.holds.load, fun hafter => ?_⟩, fun hafter hintime hspared v => ?_⟩
  · obtain ⟨hstanding, hnear⟩ := hs.holds.before hafter rfl rfl
    refine ⟨⟨hstanding.list, hstanding.high, fun v => ?_⟩, hnear⟩
    exact (hstanding.read v).mono (fun _ h => h) rfl (hfilter v) rfl rfl
  · have hambient := @Ambient.before _ s _ [] hafter rfl (.inl rfl)
    have hread : ReadWell confirmations blockNumber s v := by
      by_cases hdone : v ∈ (before.self.activities.map Prod.fst).reverse ++ []
      · exact hs.done hambient hintime hspared v hdone
      · refine hs.left hdone (fun found hfound => ?_) hambient hintime hspared
        have hsome := hs.known v (by rw [hfound]; rfl)
        rw [← hactivities, activity_isSome] at hsome
        rw [List.append_nil, List.mem_reverse] at hdone
        exact absurd hsome hdone
    exact hread.mono (fun _ h => h) rfl (hfilter v) rfl rfl

theorem Synced.kept {height : Nat} (h : Synced confirmations height start logs s)
    (hintime : start.InTime confirmations height logs)
    (hspared : start.Spared confirmations height logs) :
    Kept confirmations { s with self := { s.self with syncedHeight := some height } } := by
  refine .inr ⟨⟨h.holds.loaded.validators, h.holds.loaded.load⟩, fun hambient => ?_⟩
  have hbefore := @Ambient.before _ s _ [] hambient rfl (.inl rfl)
  refine ⟨(h.holds.near hbefore).1.list, h.holds.high, fun v => ?_⟩
  exact (h.read hbefore hintime hspared v).mono (fun _ h => h) rfl (Nat.le_refl _) rfl rfl

theorem syncValidators_keeps {fee : Nat}
    {result : Option (RoundAnswers × List (Option ForeignChain))} :
    Process.Triple
      (fun s => Asks confirmations blockNumber start s ∧
        Leaves (Calls.fromTotal confirmations start.self blockNumber fee) result s)
      (syncValidators confirmations blockNumber)
      (fun _ s => ∃ told rest, result = some (told, rest) ∧ told.height = blockNumber ∧
        Synced confirmations blockNumber start told.logs s)
      (Kept confirmations) := by
  refine .bind (R := fun _ s => ∃ total, Asks confirmations blockNumber start s ∧
    Leaves (Calls.fromLoad confirmations start.self blockNumber fee total) result s) ?_ fun _ =>
    .bind (R := fun _ s => ∃ total listed,
      (Holds confirmations blockNumber start s ∧ Unread start s) ∧
        Leaves (Calls.fromLogs confirmations start.self blockNumber fee total listed) result s) ?_
      fun _ => .bind (R := fun _ s => ∃ total listed logs,
        Syncs confirmations blockNumber start logs [] s ∧
        s.self.activities = start.self.logged confirmations blockNumber logs ∧ Leaves (do
          let entries ← Calls.entries confirmations blockNumber
            ((start.self.logged confirmations blockNumber logs).map Prod.fst)
            (start.self.logged confirmations blockNumber logs)
          return ⟨blockNumber, fee, total, listed, logs, entries⟩) result s) ?_ fun _ => ?_
  · rintro s ⟨hasks, hleaves⟩
    refine ((syncTotalWeight_keeps.also syncTotalWeight_tells).conseq (fun _ h => h) ?_
      fun _ h => h) s ⟨hasks, rfl, hleaves⟩
    rintro _ s' ⟨hasks', chain, hleaves', -⟩
    exact ⟨_, hasks', hleaves'⟩
  · rintro s ⟨total, hasks, hleaves⟩
    rw [Calls.fromLoad, ← load_eq hasks.grows.validators] at hleaves
    refine ((loadOnce_keeps.also loadOnce_tells).conseq (fun _ h => h) ?_ fun _ h => h) s
      ⟨hasks, rfl, hleaves⟩
    rintro _ s' ⟨hholds, listed, hleaves', -⟩
    exact ⟨total, listed, hholds, hleaves'⟩
  · rintro s ⟨total, listed, hholds, hleaves⟩
    refine (readLogs_keeps.conseq (fun _ h => h) ?_ fun _ h => h) s ⟨hholds, hleaves⟩
    rintro _ s' ⟨logs, hsyncs, hactivities, hleaves'⟩
    exact ⟨total, listed, logs, hsyncs, hactivities, hleaves'⟩
  · rintro s ⟨total, listed, logs, hsyncs, hactivities, hleaves⟩
    rw [← hactivities] at hleaves
    refine ((syncActivities_keeps.also syncActivities_tells).conseq (fun _ h => h) ?_
      fun _ h => h) s ⟨⟨hsyncs, hactivities⟩, rfl, hleaves⟩
    rintro _ s' ⟨hsynced, entries, -, -, hleaves'⟩
    exact ⟨_, _, hleaves'.symm, rfl, hsynced⟩

theorem round_keeps (hkept : Kept confirmations start)
    {result : Option (RoundAnswers × List (Option ForeignChain))} :
    Process.Triple
      (fun s => s = start ∧ Leaves (Calls.round confirmations start.self) result s)
      (round confirmations)
      (fun _ s => (∀ told rest, result = some (told, rest) →
        start.InTime confirmations told.height told.logs ∧
          start.Spared confirmations told.height told.logs) → Kept confirmations s)
      (Kept confirmations) := by
  refine .bind (fun s hs => ((getBlockNumber_kept hkept).also
    (@getBlockNumber_tells _ start.self result _)) s ⟨hs.1, by rw [hs.1], hs.2⟩) fun answered =>
      .get_bind fun s hs => ?_
  obtain ⟨⟨hhigh, hgrows, hnear⟩, hself, hleaves⟩ := hs
  split_ifs with hold
  · refine .pure fun s' hs' _ => ?_
    subst hs'
    exact hnear.imp_right fun h => ⟨h.1, fun hambient => (h.2 hambient).1⟩
  · rw [← hself, if_neg hold, hself] at hleaves
    unfold EvmChainSync.blockNumber at hleaves
    rw [hself] at hold ⊢
    have hasks : Asks confirmations ((start.self.syncedHeight.map fun height =>
        min answered (height + 4000)).getD answered) start s := by
      cases hheight : start.self.syncedHeight with
      | none =>
          exact ⟨hhigh, hgrows, hnear.imp_right fun h => ⟨h.1, fun hambient =>
            ⟨(h.2 hambient).1, (h.2 hambient).2 (hgrows.synced.trans hheight)⟩⟩⟩
      | some height =>
          rw [hheight, Option.any_some, decide_eq_true_eq] at hold
          refine ⟨(Nat.min_le_left _ _).trans hhigh, hgrows, hnear.imp_right fun h =>
            ⟨h.1, fun hambient => ⟨(h.2 hambient).1, ?_⟩⟩⟩
          rw [hgrows.anchor, SyncState.anchor, hheight]
          change height ≤ min answered (height + 4000) + confirmations
          omega
    generalize (start.self.syncedHeight.map fun height => min answered (height + 4000)).getD
      answered = blockNumber at hasks hleaves ⊢
    refine .bind (R := fun _ s => ∃ fee, Asks confirmations blockNumber start s ∧
      Leaves (Calls.fromTotal confirmations start.self blockNumber fee) result s) ?_ fun fee => ?_
    · rintro _ rfl
      refine ((syncFee_keeps.also syncFee_tells).conseq (fun _ h => h) ?_ fun _ h => h) _
        ⟨hasks, rfl, hleaves⟩
      rintro _ s ⟨hasks', chain, hleaves', -, -⟩
      exact ⟨_, hasks', hleaves'⟩
    · rintro s ⟨fee, hasks', hleft⟩
      refine (Process.Triple.bind syncValidators_keeps fun updated =>
        .bind (modifySelf_spec (Q := fun _ s => (∀ told rest, result = some (told, rest) →
          start.InTime confirmations told.height told.logs ∧
            start.Spared confirmations told.height told.logs) → Kept confirmations s) ?_) fun _ =>
          .pure fun _ h => h) s ⟨hasks', hleft⟩
      rintro s ⟨told, rest, hresult, rfl, hsynced⟩ hmeets
      obtain ⟨hintime, hspared⟩ := hmeets told rest hresult
      exact hsynced.kept hintime hspared

end Stages

section Runs

variable {confirmations : Nat} {s : SyncState} {replies : List (Option ForeignChain)}

theorem take_kept (h : Kept confirmations s) (hkeeping : s.Keeping confirmations replies) :
    Kept confirmations (s.take confirmations replies) := by
  have hround := @round_keeps confirmations { s with replies } (h.grows grows_replies) _
    { s with replies } ⟨rfl, rfl⟩
  unfold SyncState.take
  cases hrun : RpcM.round confirmations { s with replies } with
  | ok notify next => exact hround.1 notify next hrun hkeeping
  | error code next => exact hround.2 code next hrun

-- What no block above names stays as it is.
theorem ForeignChain.Logged.unchanged {chain : ForeignChain} {validator : Uint256}
    (h : chain.Logged) {n m : Nat} (hle : n ≤ m)
    (hlogs : ∀ log ≤ m, validator ∈ (chain.block log).logs → log ≤ n) :
    reading chain chain m validator = reading chain chain n validator := by
  induction m, hle using Nat.le_induction with
  | base => rfl
  | succ m hle ih =>
      have hnot : validator ∉ (chain.block (m + 1)).logs := by
        intro hmem
        have hlow := hlogs (m + 1) (Nat.le_refl _) hmem
        omega
      rw [h.changes m validator hnot]
      exact ih fun log hlog hmem => hlogs log (by omega) hmem

-- Two chains that name a validator in the same blocks have the same values for it.
theorem ForeignChain.Logged.reading_eq {chain current : ForeignChain} {validator : Uint256}
    (hchain : chain.Logged) (hcurrent : current.Logged) {n m : Nat}
    (hforth : ∀ log ≤ n, validator ∈ (chain.block log).logs → log ≤ m ∧
      chain.AgreesUpTo current log)
    (hback : ∀ log ≤ m, validator ∈ (current.block log).logs → log ≤ n ∧
      chain.AgreesUpTo current log) :
    reading chain chain n validator = reading current current m validator := by
  induction n with
  | zero =>
      by_cases hnamed : validator ∈ (chain.block 0).logs
      · obtain ⟨hle, hagrees⟩ := hforth 0 (Nat.le_refl _) hnamed
        rw [hcurrent.unchanged hle fun log hlog hmem => (hback log hlog hmem).1]
        simp only [reading, state, hagrees 0 (Nat.le_refl _)]
      · have hnone : ∀ log ≤ m, validator ∉ (current.block log).logs := by
          intro log hlog hmem
          obtain ⟨hzero, hagrees⟩ := hback log hlog hmem
          obtain rfl : log = 0 := by omega
          exact hnamed (hagrees 0 (Nat.le_refl _) ▸ hmem)
        rw [hchain.first validator hnamed, hcurrent.unchanged (Nat.zero_le m)
          fun log hlog hmem => absurd hmem (hnone log hlog),
          hcurrent.first validator (hnone 0 (Nat.zero_le _))]
  | succ n ih =>
      by_cases hnamed : validator ∈ (chain.block (n + 1)).logs
      · obtain ⟨hle, hagrees⟩ := hforth (n + 1) (Nat.le_refl _) hnamed
        rw [hcurrent.unchanged hle fun log hlog hmem => (hback log hlog hmem).1]
        simp only [reading, state, hagrees (n + 1) (Nat.le_refl _)]
      · rw [hchain.changes n validator hnamed]
        refine ih (fun log hlog hmem => hforth log (by omega) hmem) fun log hlog hmem => ?_
        obtain ⟨hle, hagrees⟩ := hback log hlog hmem
        refine ⟨?_, hagrees⟩
        have hne : log ≠ n + 1 := by
          rintro rfl
          exact hnamed (hagrees (n + 1) (Nat.le_refl _) ▸ hmem)
        omega

-- Where nothing that names the validator is left to be confirmed, its entry is what the contract
-- holds at the confirmed height.
theorem SyncState.Reflects.entry_eq {current : ForeignChain} {height : Nat} {validator : Uint256}
    (h : s.Reflects confirmations current height validator)
    (hlogged : ∀ chain ∈ s.chains, chain.Logged) (hcurrent : current.Logged)
    (hle : confirmations ≤ height) (hsettled : ∀ chain ∈ s.chains, ∀ log,
      validator ∈ (chain.block log).logs → log + confirmations ≤ height ∧
        chain.AgreesUpTo current log) :
    s.self.entry validator =
      ForeignChain.reading current current (height - confirmations) validator := by
  obtain ⟨chain, hchain, weighed, hweighed, read, hentry, hcovers⟩ := h
  have heq : ∀ answer ∈ s.chains, (∀ log, log + confirmations ≤ height →
      validator ∈ (current.block log).logs → log ≤ read ∧ answer.AgreesUpTo current log) →
        ForeignChain.reading answer answer read validator =
          ForeignChain.reading current current (height - confirmations) validator := by
    intro answer hanswer hcovered
    refine (hlogged answer hanswer).reading_eq hcurrent (fun log _ hmem => ?_)
      fun log hlog hmem => hcovered log (by omega) hmem
    obtain ⟨hold, hagrees⟩ := hsettled answer hanswer log hmem
    exact ⟨by omega, hagrees⟩
  have hinfo := heq chain hchain fun log hlog hmem =>
    ⟨(hcovers log hlog hmem).1, (hcovers log hlog hmem).2.1⟩
  have hweight := heq weighed hweighed fun log hlog hmem =>
    ⟨(hcovers log hlog hmem).1, (hcovers log hlog hmem).2.2⟩
  rw [hentry, ← hinfo]
  have hsame := hinfo.trans hweight.symm
  simp only [ForeignChain.reading, ValidatorFullInfo.mk.injEq, true_and] at hsame ⊢
  obtain ⟨hsigner, hweights, -⟩ := hsame
  refine ⟨?_, trivial⟩
  rw [hweights, hsigner]

theorem run_kept {history : History SyncState (List (Option ForeignChain))}
    (hrun : (syncMachine confirmations).Run
      (fun history _ => ∀ taken ∈ history, taken.1.Keeping confirmations taken.2) history s) :
    s.Truthful confirmations ∧ Kept confirmations s := by
  refine hrun.invariant (P := fun _ s => s.Truthful confirmations ∧ Kept confirmations s) ?_ ?_
  · rintro _ rfl
    exact ⟨⟨fun _ h => (by cases h), List.Pairwise.nil⟩,
      .inl ⟨rfl, rfl, rfl, rfl, fun _ => rfl⟩⟩
  · intro history s replies _ hfits hkeeping ih
    exact ⟨hfits, take_kept ih.2 (hkeeping (s, replies) List.mem_cons_self)⟩

-- After every round, the entries reflect the logs that are confirmed.
theorem no_change_missed {history : History SyncState (List (Option ForeignChain))}
    (hrun : (syncMachine confirmations).Run
      (fun history _ => ∀ taken ∈ history, taken.1.Keeping confirmations taken.2) history s)
    (hwhole : s.LoadedWhole) {height : Nat} (hsynced : s.self.syncedHeight = some height)
    {current : ForeignChain} (hcurrent : s.MayBeCurrent confirmations current)
    (validator : Uint256) : s.Reflects confirmations current height validator := by
  obtain ⟨htruthful, hkept⟩ := run_kept hrun
  rcases hkept with hfresh | ⟨-, hstanding⟩
  · rw [hfresh.synced] at hsynced
    cases hsynced
  · obtain ⟨info, weight, read, hread⟩ := (hstanding ⟨htruthful, hwhole⟩).read validator
    refine ⟨info.chain, List.mem_map_of_mem hread.info_seen, weight.chain,
      List.mem_map_of_mem hread.weight_seen, read, hread.entry, fun log hlog hnamed => ?_⟩
    refine hread.covers current hcurrent log ?_ hnamed
    rw [SyncState.anchor, hsynced]
    exact hlog

end Runs

-- One validator, which submits its signer in block 15 and again in 24 and 25. Two blocks make a
-- confirmation.
section Sample

def submittedInfo (lastSubmit : Nat) : ValidatorFullInfo := ⟨1, 5, 100, 2, lastSubmit, 4⟩

def submittedState (lastSubmit : Nat) : ContractState :=
  ⟨[submittedInfo lastSubmit], fun signer => if signer = 5 then 100 else 0, 100, 1⟩

def sampleForeignBlock (height : Nat) : ForeignBlock where
  logs := if height = 15 ∨ height = 24 ∨ height = 25 then [1] else []
  state :=
    if height < 15 then ⟨[], fun _ => 0, 0, 1⟩
    else submittedState (if height < 24 then 15 else if height < 25 then 24 else 25)

def sampleForeign (height : Nat) : ForeignChain := ⟨height, sampleForeignBlock⟩

theorem submittedState_sound (lastSubmit : Nat) : (submittedState lastSubmit).Sound where
  nodup := List.nodup_singleton _
  weights entry hentry := by
    rw [List.mem_singleton.mp hentry]
    rfl

theorem sampleForeign_logged (height : Nat) : (sampleForeign height).Logged where
  sound n := by
    unfold ForeignChain.state sampleForeign sampleForeignBlock
    dsimp only
    split_ifs
    · exact ⟨List.nodup_nil, fun _ h => by cases h⟩
    all_goals exact submittedState_sound _
  first validator _ := rfl
  changes n validator hnot := by
    by_cases hv : validator = 1
    · have hne : ¬(n + 1 = 15 ∨ n + 1 = 24 ∨ n + 1 = 25) := by
        intro h
        have hlogs : ((sampleForeign height).block (n + 1)).logs = [1] := if_pos h
        exact hnot (by rw [hlogs, hv]; exact List.mem_singleton_self _)
      have hfirst : n + 1 < 15 ↔ n < 15 := by omega
      have hsecond : n + 1 < 24 ↔ n < 24 := by omega
      have hthird : n + 1 < 25 ↔ n < 25 := by omega
      simp only [ForeignChain.reading, ForeignChain.state, sampleForeign, sampleForeignBlock, hfirst,
        hsecond, hthird]
    · have hnone : ∀ k, validator ∉ ((sampleForeign height).state k).names := by
        intro k
        unfold ForeignChain.state sampleForeign sampleForeignBlock
        dsimp only
        split_ifs
        · exact List.not_mem_nil
        all_goals simpa [ContractState.names, submittedState, submittedInfo] using hv
      rw [reading_of_not_mem (hnone _), reading_of_not_mem (hnone _)]

def sampleSync (rounds : List (List (Option ForeignChain))) :
    History SyncState (List (Option ForeignChain)) × SyncState :=
  (syncMachine 2).exec .empty rounds

def answers (height calls : Nat) : List (Option ForeignChain) :=
  List.replicate calls (some (sampleForeign height))

-- The chains have answered when they were highest.
def sampleSeen (heights : List Nat) : List Seen :=
  heights.map fun height => ⟨sampleForeign height, height⟩

theorem sample_truthful {s : SyncState} {heights : List Nat} (hseen : s.seen = sampleSeen heights)
    (hheights : heights.Pairwise fun later earlier => earlier ≤ later + 2) : s.Truthful 2 := by
  constructor
  · intro chain hchain
    rw [SyncState.chains, hseen, sampleSeen, List.map_map, List.mem_map] at hchain
    obtain ⟨height, -, rfl⟩ := hchain
    exact sampleForeign_logged height
  · rw [hseen, sampleSeen, List.pairwise_map]
    exact hheights.imp fun h => ⟨fun _ _ => rfl, h⟩

theorem sample_current {s : SyncState} {heights : List Nat} {height : Nat}
    (hseen : s.seen = sampleSeen heights) (hheights : ∀ earlier ∈ heights, earlier ≤ height + 2) :
    s.MayBeCurrent 2 (sampleForeign height) := by
  intro seen hmem
  rw [hseen, sampleSeen, List.mem_map] at hmem
  obtain ⟨earlier, hearlier, rfl⟩ := hmem
  exact ⟨fun _ _ => rfl, hheights earlier hearlier⟩

theorem sampleForeign_agrees {first second height log : Nat} :
    ∀ chain ∈ [sampleForeign first, sampleForeign second],
      chain.AgreesUpTo (sampleForeign height) log := by
  intro chain hchain
  rcases List.mem_pair.mp hchain with rfl | rfl
  · exact fun _ _ => rfl
  · exact fun _ _ => rfl

theorem mem_sample_logs {height log : Nat} {validator : Uint256}
    (h : validator ∈ ((sampleForeign height).block log).logs) :
    validator = 1 ∧ (log = 15 ∨ log = 24 ∨ log = 25) := by
  unfold sampleForeign sampleForeignBlock at h
  dsimp only at h
  split_ifs at h with hlog
  · exact ⟨List.mem_singleton.mp h, hlog⟩
  · cases h

-- What a round leaves that comes after the load.
def keptState (synced : Option Nat) (lastSubmit : Nat)
    (activities : List (Uint256 × ValidatorActivity)) (heights : List Nat)
    (read : Uint256 → Option (List ForeignChain)) : SyncState where
  self := ⟨some 1, synced, some [submittedInfo lastSubmit], [(1, 5)], some 100, some (2 * 10 ^ 16),
    activities⟩
  replies := []
  seen := sampleSeen heights
  load := some ⟨16, [sampleForeign 16, sampleForeign 16]⟩
  read := read

-- A state is told by its fields.
theorem eq_keptState {s : SyncState} {synced : Option Nat} {lastSubmit : Nat}
    {activities : List (Uint256 × ValidatorActivity)} {heights : List Nat}
    {read : Uint256 → Option (List ForeignChain)}
    (hsynced : s.self.syncedHeight = synced)
    (hvalidators : s.self.validators = some [submittedInfo lastSubmit])
    (hactivities : s.self.activities = activities) (hseen : s.seen = sampleSeen heights)
    (hread : s.read = read)
    (hself : s.self.fee = some 1 ∧ s.self.rawSigners = [(1, 5)] ∧ s.self.contractWeight = some 100 ∧
      s.self.totalWeight = some (2 * 10 ^ 16))
    (hrest : s.replies = [] ∧ s.load = some ⟨16, [sampleForeign 16, sampleForeign 16]⟩) :
    s = keptState synced lastSubmit activities heights read := by
  obtain ⟨self, replies, seen, load, read⟩ := s
  obtain ⟨fee, synced, validators, rawSigners, contractWeight, totalWeight, activities⟩ := self
  obtain ⟨rfl, rfl, rfl, rfl⟩ := hself
  obtain ⟨rfl, rfl⟩ := hrest
  subst hsynced hvalidators hactivities hseen hread
  rfl

-- The round that loads the list at 16 is given up, and the next one asks for the logs from 18 on:
-- the load has had block 15. When block 24 is confirmed, the values read at 25 are left alone.
def keptRounds : List (List (Option ForeignChain)) :=
  [answers 16 5, answers 20 4, answers 25 6, answers 26 4]

def readAt25 : Uint256 → Option (List ForeignChain) :=
  Function.update (fun _ => none) 1 (some [sampleForeign 25, sampleForeign 25])

def loadedState : SyncState := keptState none 15 [] (List.replicate 5 16) fun _ => none

def quietState : SyncState :=
  keptState (some 20) 15 [] (List.replicate 4 20 ++ List.replicate 5 16) fun _ => none

def readState : SyncState :=
  keptState (some 25) 25 [(1, ⟨25, 25⟩)]
    (List.replicate 6 25 ++ (List.replicate 4 20 ++ List.replicate 5 16)) readAt25

def sparedState : SyncState :=
  keptState (some 26) 25 [(1, ⟨25, 25⟩)] (List.replicate 4 26 ++ (List.replicate 6 25 ++
    (List.replicate 4 20 ++ List.replicate 5 16))) readAt25

theorem keptRounds_states :
    SyncState.empty.take 2 (answers 16 5) = loadedState ∧
      loadedState.take 2 (answers 20 4) = quietState ∧
      quietState.take 2 (answers 25 6) = readState ∧
      readState.take 2 (answers 26 4) = sparedState :=
  ⟨eq_keptState rfl rfl rfl rfl rfl ⟨rfl, rfl, rfl, rfl⟩ ⟨rfl, rfl⟩,
    eq_keptState rfl rfl rfl rfl rfl ⟨rfl, rfl, rfl, rfl⟩ ⟨rfl, rfl⟩,
    eq_keptState rfl rfl rfl rfl rfl ⟨rfl, rfl, rfl, rfl⟩ ⟨rfl, rfl⟩,
    eq_keptState rfl rfl rfl rfl rfl ⟨rfl, rfl, rfl, rfl⟩ ⟨rfl, rfl⟩⟩

theorem keptRounds_exec : sampleSync keptRounds =
    ([(readState, answers 26 4), (quietState, answers 25 6), (loadedState, answers 20 4),
      (.empty, answers 16 5)], sparedState) := by
  simp only [sampleSync, keptRounds, Machine.exec, List.foldl_cons, List.foldl_nil, keptRounds_states]

theorem keeping_of_answers {s : SyncState} {confirmations : Nat} {told : RoundAnswers}
    {replies rest : List (Option ForeignChain)}
    (hround : Calls.round confirmations s.self replies = some (told, rest))
    (hin : s.InTime confirmations told.height told.logs)
    (hspared : s.Spared confirmations told.height told.logs) : s.Keeping confirmations replies := by
  intro other left hother
  cases hround.symm.trans hother
  exact ⟨hin, hspared⟩

theorem loadedState_keeping : loadedState.Keeping 2 (answers 20 4) := by
  obtain ⟨total, entries, rest, hround⟩ : ∃ total entries rest,
      Calls.round 2 loadedState.self (answers 20 4) =
        some (⟨20, 1, total, none, sampleForeign 20, entries⟩, rest) := ⟨_, _, _, rfl⟩
  refine keeping_of_answers hround (fun validator log _ hgap hnamed _ => ?_) ?_
  · have hgap : log + 2 < 20 := hgap
    obtain ⟨rfl, hlog⟩ := mem_sample_logs hnamed
    exact ⟨rfl, _, rfl, show log ≤ 16 by omega, sampleForeign_agrees⟩
  · intro validator found _ _ log _ _ _ chains hchains
    cases hchains

-- No log is left out where a round has been completed.
theorem inTime_of_synced {s : SyncState} {confirmations height synced : Nat} {logs : ForeignChain}
    (h : s.self.syncedHeight = some (synced + 1)) : s.InTime confirmations height logs := by
  intro validator log hlast hgap
  unfold SyncState.anchor at hlast
  unfold RpcM.previousHeight at hgap
  rw [h] at hlast hgap
  dsimp only [Option.getD_some] at hlast hgap
  omega

theorem quietState_keeping : quietState.Keeping 2 (answers 25 6) := by
  obtain ⟨total, entries, rest, hround⟩ : ∃ total entries rest,
      Calls.round 2 quietState.self (answers 25 6) =
        some (⟨25, 1, total, none, sampleForeign 25, entries⟩, rest) := ⟨_, _, _, rfl⟩
  refine keeping_of_answers hround (inTime_of_synced rfl) ?_
  intro validator found _ _ log _ _ _ chains hchains
  cases hchains

theorem readState_keeping : readState.Keeping 2 (answers 26 4) := by
  obtain ⟨total, entries, rest, hround⟩ : ∃ total entries rest,
      Calls.round 2 readState.self (answers 26 4) =
        some (⟨26, 1, total, none, sampleForeign 26, entries⟩, rest) := ⟨_, _, _, rfl⟩
  refine keeping_of_answers hround (inTime_of_synced rfl) ?_
  intro validator found _ _ log _ _ hnamed chains hchains
  obtain ⟨rfl, -⟩ := mem_sample_logs hnamed
  cases hchains
  exact sampleForeign_agrees

theorem no_change_missed_sample :
    (sampleSync keptRounds).2.Reflects 2 (sampleForeign 26) 26 1 ∧
      (sampleSync keptRounds).2.self.validators = some [submittedInfo 25] := by
  have hkeeping : ∀ taken ∈ (sampleSync keptRounds).1, taken.1.Keeping 2 taken.2 := by
    rw [keptRounds_exec]
    simp only [List.forall_mem_cons]
    exact ⟨readState_keeping, quietState_keeping, loadedState_keeping,
      fun told rest htold => (by cases htold), fun _ h => (by cases h)⟩
  have htruthful : ∀ taken ∈ (sampleSync keptRounds).1, (taken.1.take 2 taken.2).Truthful 2 := by
    rw [keptRounds_exec]
    simp only [List.forall_mem_cons, keptRounds_states]
    exact ⟨sample_truthful rfl (by decide), sample_truthful rfl (by decide),
      sample_truthful rfl (by decide), sample_truthful rfl (by decide), fun _ h => (by cases h)⟩
  have hrun : (syncMachine 2).Run (fun history _ => ∀ taken ∈ history, taken.1.Keeping 2 taken.2)
      (sampleSync keptRounds).1 (sampleSync keptRounds).2 :=
    Machine.exec_run_of_fits rfl (fun _ hn => htruthful _ (Machine.taken_mem_exec hn))
      fun _ _ taken htaken => hkeeping taken (Machine.mem_exec_of_take htaken)
  have hwhole : sparedState.LoadedWhole := by
    intro load hload
    cases hload
    refine ⟨[1], fun chain hchain => ?_, fun counted hcounted => ?_⟩
    · rw [List.mem_singleton.mp hchain]
      rfl
    · cases hcounted
      decide
  rw [keptRounds_exec] at hrun ⊢
  exact ⟨no_change_missed hrun hwhole rfl (sample_current rfl (by decide)) 1, rfl⟩

-- The list is loaded at 10, and the round is given up. The next one asks for the logs from 18 on.
def gapRounds : List (List (Option ForeignChain)) := [answers 10 4, answers 20 4]

theorem change_missed :
    (syncMachine 2).Run (fun _ _ => True) (sampleSync gapRounds).1 (sampleSync gapRounds).2 ∧
      (sampleSync gapRounds).2.LoadedWhole ∧ (sampleSync gapRounds).2.self.syncedHeight = some 20 ∧
      (sampleSync gapRounds).2.MayBeCurrent 2 (sampleForeign 20) ∧
      ¬(sampleSync gapRounds).2.Reflects 2 (sampleForeign 20) 20 1 := by
  have hfirst : (sampleSync [answers 10 4]).2.seen = sampleSeen (List.replicate 4 10) := rfl
  have hseen : (sampleSync gapRounds).2.seen =
      sampleSeen (List.replicate 4 20 ++ List.replicate 4 10) := rfl
  refine ⟨.step (.step (.start rfl trivial) (sample_truthful hfirst (by decide)) trivial)
    (sample_truthful hseen (by decide)) trivial, fun load hload => ?_, rfl,
    sample_current hseen (by decide), ?_⟩
  · cases hload
    exact ⟨[], fun _ h => (by cases h), fun _ _ => Nat.zero_le _⟩
  rintro ⟨chain, hchain, weighed, hweighed, read, hentry, hcovers⟩
  obtain ⟨hread, -⟩ := hcovers 15 (by decide) (by decide)
  rw [SyncState.chains, hseen, sampleSeen, List.map_map, List.mem_map] at hchain
  obtain ⟨height, -, rfl⟩ := hchain
  have habsent : (sampleSync gapRounds).2.self.entry 1 = ⟨1, 0, 0, 0, 0, 0⟩ := by decide
  have hsigner := congrArg ValidatorFullInfo.signer (habsent.symm.trans hentry)
  have hstate : (sampleForeign height).state read =
      submittedState (if read < 24 then 15 else if read < 25 then 24 else 25) :=
    if_neg (by omega)
  change (0 : ForeignAddress) = (((sampleForeign height).state read).info 1).signer at hsigner
  rw [hstate] at hsigner
  cases hsigner

end Sample

end Raicoin.Validator
