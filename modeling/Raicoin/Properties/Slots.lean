import Raicoin.Node.BlockProcessor.Replay
import Raicoin.Node.Election.StepSpec

-- The slots of the elections that take turns.
namespace Raicoin

open Lib

variable {env : Env}

namespace Elections

variable {s : Elections env} {e : Election env}

-- Each slot is held by a live election of its kind, and there are no more than the limits.
structure SlotsKept (s : Elections env) : Prop where
  seated : s.Seated
  apart : Disjoint s.actives s.forks
  actives : ∀ account ∈ s.actives, ∃ e, s.elections.get account = some e ∧ e.forkFound = false
  forks : ∀ account ∈ s.forks, ∃ e, s.elections.get account = some e ∧ e.forkFound = true
  fewActives : s.actives.card ≤ s.concurrency
  fewForks : s.forks.card ≤ FORK_CONCURRENCY

-- The container has an election of the account, and it is as far as forks go.
def Stands (s : Elections env) (e : Election env) : Prop :=
  ∃ old, s.elections.get e.account = some old ∧ old.forkFound = e.forkFound

-- A slot says nothing about an election of another account.
private theorem live_modify {kind : Bool} {slots : Finset Account}
    (h : ∀ account ∈ slots, ∃ e, s.elections.get account = some e ∧ e.forkFound = kind)
    (hself : e.account ∈ slots → e.forkFound = kind) :
    ∀ account ∈ slots, ∃ e', (s.modify e).elections.get account = some e' ∧
      e'.forkFound = kind := by
  intro account hmem
  rw [modify_get]
  by_cases heq : account = e.account
  · rw [if_pos heq]
    exact ⟨e, rfl, hself (heq ▸ hmem)⟩
  · rw [if_neg heq]
    exact h account hmem

theorem Seated.modify (h : s.Seated) : (s.modify e).Seated := by
  intro account other hget
  rw [modify_get] at hget
  split at hget
  · cases hget
    exact Eq.symm ‹_›
  · exact h account other hget

namespace SlotsKept

-- An election is written back with its slot, or without one.
theorem modify (h : s.SlotsKept) (hactive : e.account ∈ s.actives → e.forkFound = false)
    (hfork : e.account ∈ s.forks → e.forkFound = true) : (s.modify e).SlotsKept where
  seated := h.seated.modify
  apart := h.apart
  actives := live_modify h.actives hactive
  forks := live_modify h.forks hfork
  fewActives := h.fewActives
  fewForks := h.fewForks

theorem kind_of_active (h : s.SlotsKept) (hstands : s.Stands e) (hmem : e.account ∈ s.actives) :
    e.forkFound = false := by
  obtain ⟨old, hget, hkind⟩ := hstands
  obtain ⟨other, hother, hfalse⟩ := h.actives _ hmem
  rw [hget] at hother
  cases hother
  exact hkind.symm.trans hfalse

theorem kind_of_fork (h : s.SlotsKept) (hstands : s.Stands e) (hmem : e.account ∈ s.forks) :
    e.forkFound = true := by
  obtain ⟨old, hget, hkind⟩ := hstands
  obtain ⟨other, hother, htrue⟩ := h.forks _ hmem
  rw [hget] at hother
  cases hother
  exact hkind.symm.trans htrue

theorem modify_standing (h : s.SlotsKept) (hstands : s.Stands e) : (s.modify e).SlotsKept :=
  h.modify (h.kind_of_active hstands) (h.kind_of_fork hstands)

theorem erase_ (h : s.SlotsKept) (e : Election env) : (s.erase_ e).SlotsKept := by
  have hlive {kind : Bool} {slots : Finset Account}
      (hslots : ∀ account ∈ slots, ∃ e, s.elections.get account = some e ∧ e.forkFound = kind) :
      ∀ account ∈ slots.erase e.account,
        ∃ e', (s.erase_ e).elections.get account = some e' ∧ e'.forkFound = kind := by
    intro account hmem
    obtain ⟨hne, hold⟩ := Finset.mem_erase.mp hmem
    rw [erase_get, if_neg hne]
    exact hslots account hold
  constructor
  case seated =>
    intro account other hget
    rw [erase_get] at hget
    split at hget
    · cases hget
    · exact h.seated account other hget
  case apart =>
    exact h.apart.mono (Finset.erase_subset _ _) (Finset.erase_subset _ _)
  case actives => exact hlive h.actives
  case forks => exact hlive h.forks
  case fewActives => exact (Finset.card_erase_le).trans h.fewActives
  case fewForks => exact (Finset.card_erase_le).trans h.fewForks

end SlotsKept

-- The greatest account of a set is one of its members.
private theorem greatest_mem {slots : Finset Account} (h : slots.Nonempty) :
    BitVec.ofNat 256 (slots.sup BitVec.toNat) ∈ slots := by
  obtain ⟨greatest, hmem, heq⟩ := slots.exists_mem_eq_sup h BitVec.toNat
  rw [heq, BitVec.ofNat_toNat, BitVec.setWidth_eq]
  exact hmem

-- What a fork makes of the slots: the active slot is given back, and the fork gets one of
-- its own, for which the greatest account may have to go.
theorem tryConcurrency_fork (s : Elections env) (hfork : e.forkFound = true) :
    ∃ forks, (s.tryConcurrency_ e).1 =
        { s with actives := s.actives.erase e.account, forks := forks } ∧
      forks ⊆ insert e.account s.forks ∧
      (s.forks.card ≤ FORK_CONCURRENCY → forks.card ≤ FORK_CONCURRENCY) := by
  unfold tryConcurrency_
  rw [if_pos hfork]
  dsimp only
  by_cases hmem : e.account ∈ s.forks
  · rw [if_pos hmem]
    exact ⟨s.forks, rfl, Finset.subset_insert _ _, id⟩
  · rw [if_neg hmem]
    refine ⟨_, rfl, ?_, fun hfew => ?_⟩
    · split
      · exact Finset.erase_subset _ _
      · exact subset_rfl
    · split
      · have hcard := Finset.card_insert_of_notMem hmem
        rw [Finset.card_erase_of_mem (greatest_mem (Finset.insert_nonempty _ _)), hcard]
        omega
      · omega

-- An election without a fork gets a slot while there are some left.
theorem tryConcurrency_single (s : Elections env) (hfork : e.forkFound = false) :
    ((s.tryConcurrency_ e).1 = { s with forks := s.forks.erase e.account } ∧
        ((s.tryConcurrency_ e).2 = true →
          e.account ∉ s.actives ∧ s.concurrency ≤ s.actives.card)) ∨
      ((s.tryConcurrency_ e).1 =
          { s with forks := s.forks.erase e.account, actives := insert e.account s.actives } ∧
        (s.tryConcurrency_ e).2 = false ∧ e.account ∉ s.actives ∧
        s.actives.card < s.concurrency) := by
  unfold tryConcurrency_
  rw [if_neg (by simp [hfork])]
  dsimp only
  by_cases hmem : e.account ∈ s.actives
  · rw [if_pos hmem]
    exact .inl ⟨rfl, fun hwaits => nomatch hwaits⟩
  · rw [if_neg hmem]
    by_cases hfull : s.actives.card ≥ s.concurrency
    · rw [if_pos hfull]
      exact .inl ⟨rfl, fun _ => ⟨hmem, hfull⟩⟩
    · rw [if_neg hfull]
      exact .inr ⟨rfl, rfl, hmem, by omega⟩

namespace SlotsKept

-- The slots after a fork has got its turn, over a container that shows the fork.
private theorem entered (h : s.SlotsKept) {account : Account} {forks : Finset Account}
    {elections : Table Account (Election env)} (hsub : forks ⊆ insert account s.forks)
    (hfew : s.forks.card ≤ FORK_CONCURRENCY → forks.card ≤ FORK_CONCURRENCY)
    (hseated : ∀ other e, elections.get other = some e → e.account = other)
    (hsame : ∀ other, other ≠ account → elections.get other = s.elections.get other)
    (hshown : ∃ e, elections.get account = some e ∧ e.forkFound = true) :
    ({ s with actives := s.actives.erase account, forks := forks, elections := elections } :
      Elections env).SlotsKept where
  seated := hseated
  apart := by
    rw [Finset.disjoint_left]
    intro other hactive hmem
    obtain ⟨hne, hold⟩ := Finset.mem_erase.mp hactive
    have hforks := (Finset.mem_insert.mp (hsub hmem)).resolve_left hne
    exact Finset.disjoint_left.mp h.apart hold hforks
  actives other hmem := by
    obtain ⟨hne, hold⟩ := Finset.mem_erase.mp hmem
    dsimp only
    rw [hsame other hne]
    exact h.actives other hold
  forks other hmem := by
    by_cases heq : other = account
    · exact heq ▸ hshown
    · dsimp only
      rw [hsame other heq]
      exact h.forks other ((Finset.mem_insert.mp (hsub hmem)).resolve_left heq)
  fewActives := (Finset.card_erase_le).trans h.fewActives
  fewForks := hfew h.fewForks

-- A fork that has just been found, or that a new election starts with.
theorem enter_fork (h : s.SlotsKept) (hfork : e.forkFound = true) :
    ((s.tryConcurrency_ e).1.modify e).SlotsKept := by
  obtain ⟨forks, hstate, hsub, hfew⟩ := s.tryConcurrency_fork hfork
  rw [hstate]
  refine h.entered hsub hfew (Seated.modify h.seated) (fun other hne => ?_) ⟨e, ?_, hfork⟩
  · exact (s.modify_get e other).trans (if_neg hne)
  · exact (s.modify_get e e.account).trans (if_pos rfl)

-- An election that is in the container asks for its turn.
theorem tryConcurrency (h : s.SlotsKept) (hstands : s.Stands e) :
    (s.tryConcurrency_ e).1.SlotsKept := by
  obtain ⟨old, hget, hkind⟩ := hstands
  cases hfork : e.forkFound with
  | true =>
      obtain ⟨forks, hstate, hsub, hfew⟩ := s.tryConcurrency_fork hfork
      rw [hstate]
      exact h.entered hsub hfew h.seated (fun _ _ => rfl) ⟨old, hget, hkind.trans hfork⟩
  | false =>
      have hforks : ∀ account ∈ s.forks.erase e.account,
          ∃ e, s.elections.get account = some e ∧ e.forkFound = true :=
        fun account hmem => h.forks account (Finset.mem_of_mem_erase hmem)
      have hfew : (s.forks.erase e.account).card ≤ FORK_CONCURRENCY :=
        (Finset.card_erase_le).trans h.fewForks
      have hapart : Disjoint s.actives (s.forks.erase e.account) :=
        h.apart.mono_right (Finset.erase_subset _ _)
      rcases s.tryConcurrency_single hfork with ⟨hstate, -⟩ | ⟨hstate, -, hmem, hroom⟩
      · rw [hstate]
        exact ⟨h.seated, hapart, h.actives, hforks, h.fewActives, hfew⟩
      · rw [hstate]
        constructor
        case seated => exact h.seated
        case apart => exact Finset.disjoint_insert_left.mpr ⟨Finset.notMem_erase _ _, hapart⟩
        case actives =>
          intro account hin
          rcases Finset.mem_insert.mp hin with rfl | hold
          · exact ⟨old, hget, hkind.trans hfork⟩
          · exact h.actives account hold
        case forks => exact hforks
        case fewActives =>
          dsimp only
          rw [Finset.card_insert_of_notMem hmem]
          exact hroom
        case fewForks => exact hfew

end SlotsKept

section Steps

theorem stands_of_get (hseated : s.Seated) {account : Account}
    (h : s.elections.get account = some e) : s.Stands e :=
  ⟨e, (hseated _ _ h) ▸ h, rfl⟩

theorem stands_modify : (s.modify e).Stands e :=
  ⟨e, (s.modify_get e e.account).trans (if_pos rfl), rfl⟩

-- Another election in its place, that has found a fork or not as it had.
theorem Stands.of_eq {e' : Election env} (h : s.Stands e) (haccount : e'.account = e.account)
    (hfork : e'.forkFound = e.forkFound) : s.Stands e' := by
  obtain ⟨old, hget, hkind⟩ := h
  exact ⟨old, haccount ▸ hget, hkind.trans hfork.symm⟩

theorem countSingle_forkFound (e : Election env) (r : Readings) :
    (countSingle e r).forkFound = e.forkFound := by
  unfold countSingle
  split <;> rfl

theorem countRound_forkFound (e : Election env) (status : ElectionStatus) :
    (countRound e status).forkFound = e.forkFound := by
  unfold countRound
  dsimp only
  split
  · split <;> rfl
  · rfl

namespace SlotsKept

theorem addBlock_ (h : s.SlotsKept) (hstands : s.Stands e) (steady : Int) (block : Block) :
    (s.addBlock_ e steady block).1.SlotsKept ∧
      (s.addBlock_ e steady block).1.Stands (s.addBlock_ e steady block).2 := by
  obtain ⟨haccount, -, -, -, -, hkeep⟩ := e.addBlock_steady steady block
  refine ⟨?_, stands_modify⟩
  unfold Elections.addBlock_
  dsimp only
  by_cases hnew : e.forkFound = false ∧ (e.addBlock steady block).forkFound = true
  · rw [if_pos hnew]
    exact h.enter_fork hnew.2
  · rw [if_neg hnew]
    refine h.modify_standing (hstands.of_eq haccount ?_)
    cases hold : e.forkFound with
    | true => exact hkeep hold
    | false => simpa [hold] using hnew

theorem addBlocks (h : s.SlotsKept) (hstands : s.Stands e) (steady : Int) (blocks : List Block) :
    (blocks.foldl (fun (p : Elections env × Election env) b => p.1.addBlock_ p.2 steady b)
      (s, e)).1.SlotsKept := by
  induction blocks generalizing s e with
  | nil => exact h
  | cons b blocks ih =>
      obtain ⟨hnext, hstands'⟩ := h.addBlock_ hstands steady b
      exact ih hnext hstands'

theorem not_held (h : s.SlotsKept) {account : Account} (hnone : s.elections.get account = none) :
    account ∉ s.actives ∧ account ∉ s.forks := by
  constructor
  · intro hmem
    obtain ⟨e, hget, -⟩ := h.actives account hmem
    rw [hnone] at hget
    cases hget
  · intro hmem
    obtain ⟨e, hget, -⟩ := h.forks account hmem
    rw [hnone] at hget
    cases hget

-- A new election of an account that has none.
theorem start (h : s.SlotsKept) (hnone : s.elections.get e.account = none) :
    (if e.forkFound then ((s.modify e).tryConcurrency_ e).1 else s.modify e).SlotsKept := by
  obtain ⟨hactive, hfork⟩ := h.not_held hnone
  by_cases hfound : e.forkFound = true
  · rw [if_pos hfound]
    have hcommute : ((s.modify e).tryConcurrency_ e).1 = (s.tryConcurrency_ e).1.modify e := by
      unfold Elections.tryConcurrency_ Elections.modify
      rw [if_pos hfound, if_pos hfound]
      dsimp only
      split <;> rfl
    rw [hcommute]
    exact h.enter_fork hfound
  · rw [if_neg hfound]
    exact h.modify (fun hmem => absurd hmem hactive) fun hmem => absurd hmem hfork

theorem add (h : s.SlotsKept) (delay : UInt32) (steady : Int) (blocks : List Block) :
    (s.add delay steady blocks).SlotsKept := by
  unfold Elections.add
  cases blocks with
  | nil => exact h
  | cons first rest =>
      dsimp only
      split
      · exact h
      have haccount := @create_account env first rest delay steady
      cases hget : s.elections.get first.account with
      | none =>
          dsimp only
          exact h.start (by rw [haccount, hget])
      | some e =>
          dsimp only
          split
          · exact h
          split
          · refine (h.erase_ e).start ?_
            rw [haccount, erase_get, h.seated _ _ hget, if_pos rfl]
          · exact h.addBlocks (stands_of_get h.seated hget) steady (first :: rest)

theorem processConfirm (h : s.SlotsKept) (steady : Int) (representative : Account)
    (timestamp : UInt64) (signature : Signature) (block : Block) (weight : Amount) :
    (s.processConfirm steady representative timestamp signature block
      weight).elections.SlotsKept := by
  unfold Elections.processConfirm
  cases hget : s.elections.get block.account with
  | none => exact h
  | some e =>
      have hstands := stands_of_get h.seated hget
      dsimp only
      split
      · exact h
      split
      · refine (h.addBlock_ (hstands.of_eq ?_ ?_) steady block).1
        · rfl
        · rfl
      split
      · exact h
      split
      · refine (h.addBlock_ (hstands.of_eq ?_ ?_) steady block).1
        · rfl
        · rfl
      split
      · exact h
      · refine (h.addBlock_ (hstands.of_eq ?_ ?_) steady block).1
        · exact (e.delBlock_steady _).account
        · rw [Election.addRepVoteInfo_, Election.delBlock_eq]

theorem addConflictingVotes (h : s.SlotsKept) (hstands : s.Stands e) (steady : Int)
    (representative : Account) (voteFirst voteSecond : Vote) (blockFirst blockSecond : Block)
    (weight : Amount) :
    (s.addConflictingVotes e steady representative voteFirst voteSecond blockFirst blockSecond
      weight).elections.SlotsKept := by
  unfold Elections.addConflictingVotes
  dsimp only
  have hvoted : s.Stands (e.addRepVoteInfo_ representative ⟨true, weight, voteFirst⟩) :=
    hstands.of_eq rfl rfl
  obtain ⟨hfirst, hstands'⟩ := h.addBlock_ hvoted steady blockFirst
  refine (hfirst.addBlock_ (hstands'.of_eq ?_ ?_) steady blockSecond).1
  · rfl
  · rfl

theorem processConflict (h : s.SlotsKept) (steady : Int) (representative : Account)
    (timestampFirst timestampSecond : UInt64) (signatureFirst signatureSecond : Signature)
    (blockFirst blockSecond : Block) (weight : Amount) :
    (s.processConflict steady representative timestampFirst timestampSecond signatureFirst
      signatureSecond blockFirst blockSecond weight).elections.SlotsKept := by
  unfold Elections.processConflict
  split
  · exact h
  dsimp only
  split
  · exact h
  cases hget : s.elections.get blockFirst.account with
  | none => exact h
  | some e =>
      have hstands := stands_of_get h.seated hget
      dsimp only
      split
      · exact h
      split
      · exact h.addConflictingVotes hstands _ _ _ _ _ _ _
      split
      · exact h
      · refine h.addConflictingVotes (hstands.of_eq ?_ ?_) _ _ _ _ _ _ _
        · exact (e.delBlock_steady _).account
        · rw [Election.delBlock_eq]

-- Everything that follows the tally erases the election or writes it back.
theorem processTally (h : s.SlotsKept) (hstands : s.Stands e) (r : Readings)
    (status : ElectionStatus) : (s.processTally e r status).elections.SlotsKept := by
  have hback {e' : Election env} (haccount : e'.account = e.account)
      (hfork : e'.forkFound = e.forkFound) : (s.modify e').SlotsKept :=
    h.modify_standing (hstands.of_eq haccount hfork)
  unfold Elections.processTally
  split
  · exact h.erase_ e
  split
  · unfold Elections.processSingle
    split
    · exact h.erase_ e
    dsimp only
    split
    · exact h.erase_ _
    · exact hback (countSingle_kept e r).1 (countSingle_forkFound e r)
  split
  · exact hback rfl rfl
  · unfold Elections.processFork
    dsimp only
    split
    · exact h.erase_ _
    · exact hback (countRound_kept e status).1 (countRound_forkFound e status)

theorem processElection (h : s.SlotsKept) (hstands : s.Stands e) (r : Readings) :
    (s.processElection e r).elections.SlotsKept := by
  have hpurged : s.Stands (e.purgeOutdatedVotes r.order r.purgeClock) :=
    hstands.of_eq (e.purgeOutdatedVotes_steady r.order r.purgeClock).account
      (e.purgeOutdatedVotes_forkFound r.order r.purgeClock)
  unfold Elections.processElection
  generalize e.purgeOutdatedVotes r.order r.purgeClock = purged at hpurged
  have hturn := h.tryConcurrency hpurged
  have hstands' : (s.tryConcurrency_ purged).1.Stands purged := by
    unfold Stands
    rw [tryConcurrency_elections]
    exact hpurged
  dsimp only
  split
  · exact hturn.modify_standing (hstands'.of_eq rfl rfl)
  · exact hturn.processTally hstands' r _

-- What one operation preserves.
theorem take (h : s.SlotsKept) (action : ElectionAction) :
    (s.take action).elections.SlotsKept := by
  cases action with
  | add delay steady blocks => exact h.add delay steady blocks
  | confirm steady rep timestamp signature block weight =>
      exact h.processConfirm steady rep timestamp signature block weight
  | conflict steady rep timestampFirst timestampSecond signatureFirst signatureSecond blockFirst
      blockSecond weight =>
      exact h.processConflict steady rep timestampFirst timestampSecond signatureFirst
        signatureSecond blockFirst blockSecond weight
  | weights now repWeights peers =>
      unfold Elections.take updateWeightInfo_
      dsimp only
      split
      · exact h
      · exact ⟨h.seated, h.apart, h.actives, h.forks, h.fewActives, h.fewForks⟩
  | purge account order clock =>
      rw [Elections.take]
      cases hget : s.elections.get account with
      | none => exact h
      | some e =>
          exact h.modify_standing ((stands_of_get h.seated hget).of_eq
            (e.purgeOutdatedVotes_steady order clock).account
            (e.purgeOutdatedVotes_forkFound order clock))
  | process account r =>
      rw [Elections.take]
      cases hget : s.elections.get account with
      | none => exact h
      | some e => exact h.processElection (stands_of_get h.seated hget) r

end SlotsKept

end Steps

-- The node begins without slots that are held.
def BeginsFree (history : ElectionHistory env) (s : Elections env) : Prop :=
  history = [] → s.actives = ∅ ∧ s.forks = ∅

-- `ProcessElection` is refused a slot for an election in which no fork was found.
def RefusedSingle (s : Elections env) (account : Account) : Prop :=
  ∃ (e : Election env) (r : Readings), s.elections.get account = some e ∧ e.forkFound = false ∧
    (s.tryConcurrency_ (e.purgeOutdatedVotes r.order r.purgeClock)).2 = true

-- As many others hold a slot as there may be, and each is live and has no fork.
def AllTaken (s : Elections env) (account : Account) : Prop :=
  s.actives.card = s.concurrency ∧ account ∉ s.actives ∧
    ∀ other ∈ s.actives, ∃ e, s.elections.get other = some e ∧ e.forkFound = false

theorem SlotsKept.refused (h : s.SlotsKept) {account : Account} (hrefused : s.RefusedSingle account) :
    s.AllTaken account := by
  obtain ⟨e, r, hget, hfork, hwaits⟩ := hrefused
  have haccount := (e.purgeOutdatedVotes_steady r.order r.purgeClock).account
  have hsingle := (e.purgeOutdatedVotes_forkFound r.order r.purgeClock).trans hfork
  rcases s.tryConcurrency_single hsingle with ⟨-, hfull⟩ | ⟨-, hserved, -⟩
  · obtain ⟨hmem, hcard⟩ := hfull hwaits
    rw [haccount, h.seated _ _ hget] at hmem
    exact ⟨le_antisymm h.fewActives hcard, hmem, h.actives⟩
  · rw [hserved] at hwaits
    cases hwaits

end Elections

-- In whatever order the operations come.
theorem slots_never_leak {history : ElectionHistory env} {s : Elections env}
    (h : (electionMachine env).Run Elections.BeginsFree history s) :
    s.SlotsKept ∧ ∀ account, s.RefusedSingle account → s.AllTaken account := by
  have hkept : s.SlotsKept := by
    apply h.invariant (P := fun history s => Elections.BeginsFree history s → s.SlotsKept)
    · intro s hstart hbegins
      obtain ⟨hactives, hforks⟩ := hbegins rfl
      have hempty : s.elections = .empty := hstart
      constructor
      case seated =>
        intro account e hget
        rw [hempty, Table.get_empty] at hget
        cases hget
      case apart => simp [hactives]
      case actives => simp [hactives]
      case forks => simp [hforks]
      case fewActives => simp [hactives]
      case fewForks => simp [hforks]
    · intro history s action hrun _ _ ih _
      exact (ih hrun.last_allowed).take action
    · exact h.last_allowed
  exact ⟨hkept, fun account => hkept.refused⟩

def slotStart : Elections sampleEnv where
  lastUpdate := 0
  onlineReps := ∅
  weightTotal := 0
  weightOnline := 0
  weights := .empty
  elections := .empty
  concurrency := 1
  actives := ∅
  forks := ∅

-- Two elections for one slot. The first gets it and gives it back when a fork is found; the second
-- is refused it, gets it then, and is done with when its block is confirmed.
def slotBlock (account : Account) (representative : Account) : Block :=
  sampleTx .change 1 1 0 1 account 1 representative 0 0

def slotReadings : Readings where
  order := [9]
  purgeClock := fun _ => 1000
  tallyClock := fun _ => 1000
  steady := 5
  random n := n
  qualified := false

def slotWeights : RepWeights := ⟨Table.empty.put 9 100, 100, false⟩

def slotActions : List ElectionAction :=
  [.weights 20 slotWeights [9], .add 0 0 [slotBlock 1 1], .add 0 0 [slotBlock 2 1],
    .process 1 slotReadings, .process 2 slotReadings, .add 0 0 [slotBlock 1 2],
    .process 2 slotReadings, .confirm 6 9 995 0 (slotBlock 2 1) 100, .process 2 slotReadings]

def slotsAfter (n : Nat) : Elections sampleEnv :=
  ((electionMachine sampleEnv).exec slotStart (slotActions.take n)).2

-- The readings iterate over all votes, if there are any.
def readable (s : Elections sampleEnv) : ElectionAction → Bool
  | .process account r =>
    (s.elections.get account).all fun e => decide (e.votes.keys ⊆ r.order.toFinset ∧ r.order.Nodup)
  | .purge _ _ _ => false
  | _ => true

theorem fits_of_readable {s : Elections sampleEnv} {action : ElectionAction}
    (h : readable s action = true) : s.Fits action := by
  cases action with
  | process account r =>
      intro e hget
      rw [readable, hget, Option.all_some, decide_eq_true_iff] at h
      exact Table.enumerates_of_keys h.2 h.1
  | purge => cases h
  | add => trivial
  | confirm => trivial
  | conflict => trivial
  | weights => trivial

theorem slotsAfter_run {n : Nat} (h : n ≤ slotActions.length) :
    ∃ history, (electionMachine sampleEnv).Run Elections.BeginsFree history (slotsAfter n) := by
  have hreadable : ∀ m < slotActions.length, ∀ action ∈ slotActions[m]?,
      readable (slotsAfter m) action = true := by decide +kernel
  refine ⟨_, Machine.exec_run_of_fits rfl (fun m hm => ?_) fun m hm hnil => ?_⟩
  · rw [List.length_take] at hm
    rw [List.take_take, Nat.min_eq_left (by omega), List.getElem_take]
    exact fits_of_readable (hreadable m (by omega) _ (List.getElem?_eq_getElem _))
  · cases m with
    | zero => exact ⟨rfl, rfl⟩
    | succ m =>
        rw [List.take_succ_eq_append_getElem hm, Machine.exec_append] at hnil
        cases hnil

theorem slots_passed_on :
    (slotsAfter 4).RefusedSingle 2 ∧ (slotsAfter 4).AllTaken 2 ∧
      (slotsAfter 7).actives = {2} ∧ (slotsAfter 7).forks = {1} ∧
      (slotsAfter 9).actives = ∅ ∧ ∀ n ≤ 9, (slotsAfter n).SlotsKept := by
  have hkept : ∀ n ≤ 9, (slotsAfter n).SlotsKept ∧
      ∀ account, (slotsAfter n).RefusedSingle account → (slotsAfter n).AllTaken account := by
    intro n hn
    obtain ⟨history, hrun⟩ := slotsAfter_run hn
    exact slots_never_leak hrun
  have hrefused : (slotsAfter 4).RefusedSingle 2 := by
    have hwaits : ((slotsAfter 4).elections.get 2).any (fun e => !e.forkFound &&
        ((slotsAfter 4).tryConcurrency_ (e.purgeOutdatedVotes [9] fun _ => 1000)).2) = true := by
      decide
    obtain ⟨e, hget, hboth⟩ := (Option.any_eq_true _ _).mp hwaits
    rw [Bool.and_eq_true, Bool.not_eq_true'] at hboth
    exact ⟨e, slotReadings, hget, hboth.1, hboth.2⟩
  have hslots : (slotsAfter 7).actives = {2} ∧ (slotsAfter 7).forks = {1} ∧
      (slotsAfter 9).actives = ∅ := by decide +kernel
  exact ⟨hrefused, (hkept 4 (by decide)).2 2 hrefused, hslots.1, hslots.2.1, hslots.2.2,
    fun n hn => (hkept n hn).1⟩

end Raicoin
