import Raicoin.Validator.Calls

-- Which rounds tell the clients of a change.
namespace Raicoin.Validator

open Lib RpcM

structure ReportedInfo where
  validator : Uint256
  signer : ForeignAddress
  weight : Nat
  gasPrice : Nat
  lastSubmit : Nat
  epoch : Nat
  deriving DecidableEq

-- What `to_chain_info` reports of the fields that a round changes, apart from the height.
structure ChainInfo where
  fee : Nat
  totalWeight : Option Nat
  genesisWeight : Nat
  validators : Option (List ReportedInfo)
  deriving DecidableEq

namespace EvmChainSync

-- The signer that is reported is `signer_raw`.
def report (self : EvmChainSync) (entry : ValidatorFullInfo) : ReportedInfo where
  validator := entry.validator
  signer := ((self.rawSigners.find? fun raw => raw.1 = entry.validator).map Prod.snd).getD entry.signer
  weight := entry.weight
  gasPrice := entry.gasPrice
  lastSubmit := entry.lastSubmit
  epoch := entry.epoch

def toChainInfo (self : EvmChainSync) : ChainInfo where
  fee := self.fee.getD 0
  totalWeight := self.totalWeight
  genesisWeight := self.genesisWeight
  validators := self.validators.map fun validators => validators.map self.report

end EvmChainSync

-- `notified` is what the last notification has told.
structure Notifier where
  sync : SyncState
  notified : Option ChainInfo

namespace Notifier

variable (confirmations : Nat)

def result (s : Notifier) (replies : List (Option ForeignChain)) :
    EStateM.Result Unit SyncState Bool :=
  round confirmations { s.sync with replies }

def next (s : Notifier) (replies : List (Option ForeignChain)) : SyncState :=
  match s.result confirmations replies with
  | .ok _ next => next
  | .error _ next => next

-- The round calls `notify_chain_info`.
def sends (s : Notifier) (replies : List (Option ForeignChain)) : Bool :=
  match s.result confirmations replies with
  | .ok notify _ => notify
  | .error _ _ => false

def take (s : Notifier) (replies : List (Option ForeignChain)) : Notifier where
  sync := s.next confirmations replies
  notified :=
    if s.sends confirmations replies then some (s.next confirmations replies).self.toChainInfo
    else s.notified

-- The round sets `synced_height`.
def completes (s : Notifier) (replies : List (Option ForeignChain)) : Bool :=
  match s.result confirmations replies with
  | .ok _ next => decide (next.self.syncedHeight ≠ s.sync.self.syncedHeight)
  | .error _ _ => false

-- A round that completes sends a notification, if there is something to tell.
def Tells (s : Notifier) (replies : List (Option ForeignChain)) : Prop :=
  s.completes confirmations replies = true →
    s.notified ≠ some (s.next confirmations replies).self.toChainInfo →
      s.sends confirmations replies = true

-- If the calls of a round are all answered, and tell the fee that is known and the entries that the
-- list has, then the last notification has told what the round reports: the weight that the answers
-- tell, and the list if it is loaded only now.
def Telling (s : Notifier) (replies : List (Option ForeignChain)) : Prop :=
  ∀ told rest, Calls.round confirmations s.sync.self replies = some (told, rest) →
    s.sync.self.fee = some told.fee → Listed (s.sync.self.told told) told.entries →
      s.notified = some (s.sync.self.told told).toChainInfo

end Notifier

@[reducible] def notifierMachine (confirmations : Nat) :
    Machine Notifier (List (Option ForeignChain)) where
  start s := s = ⟨.empty, none⟩
  fits _ _ := True
  step s replies := s.take confirmations replies

section Runs

variable {confirmations : Nat} {s : Notifier} {replies : List (Option ForeignChain)}

-- A round that completes without a word was answered in full and has heard nothing new; all that
-- it reports is what its answers tell.
theorem Notifier.quiet (hcompletes : s.completes confirmations replies = true)
    (hsends : s.sends confirmations replies = false) :
    ∃ told rest, Calls.round confirmations s.sync.self replies = some (told, rest) ∧
      s.sync.self.fee = some told.fee ∧ Listed (s.sync.self.told told) told.entries ∧
      (s.next confirmations replies).self.toChainInfo = (s.sync.self.told told).toChainInfo := by
  obtain ⟨hround, -⟩ := round_tells { s.sync with replies } ⟨rfl, rfl⟩
  unfold completes at hcompletes
  unfold sends at hsends
  unfold next
  unfold result at hcompletes hsends ⊢
  cases hrun : round confirmations { s.sync with replies } with
  | error code after =>
      rw [hrun] at hcompletes
      cases hcompletes
  | ok notify after =>
      rw [hrun] at hcompletes hsends
      dsimp only at hcompletes hsends ⊢
      rw [decide_eq_true_eq] at hcompletes
      obtain ⟨told, htold, -, hquiet⟩ := (hround notify after hrun).resolve_left hcompletes
      obtain ⟨hfee, hlisted, hself⟩ := hquiet hsends
      refine ⟨told, _, htold, hfee, hlisted, ?_⟩
      rw [hself]
      rfl

theorem Notifier.Telling.tells (h : s.Telling confirmations replies) :
    s.Tells confirmations replies := by
  intro hcompletes hnews
  by_contra hquiet
  rw [Bool.not_eq_true] at hquiet
  obtain ⟨told, rest, htold, hfee, hlisted, hreport⟩ := Notifier.quiet hcompletes hquiet
  rw [hreport] at hnews
  exact hnews (h told rest htold hfee hlisted)

-- In a run whose rounds are all of that kind, the clients are told of every change.
theorem clients_told {history : History Notifier (List (Option ForeignChain))}
    (hrun : (notifierMachine confirmations).Run
      (fun history _ => ∀ taken ∈ history, taken.1.Telling confirmations taken.2) history s) :
    ∀ taken ∈ history, taken.1.Tells confirmations taken.2 :=
  fun taken htaken => (hrun.last_allowed taken htaken).tells

-- The fee goes up in block 15 and in block 25.
def feeChain (height : Nat) : ForeignChain :=
  ⟨height, fun n => ⟨[], ⟨[], fun _ => 0, 0, if n < 15 then 1 else if n < 25 then 2 else 3⟩⟩⟩

def feeAnswers (height calls : Nat) : List (Option ForeignChain) :=
  List.replicate calls (some (feeChain height))

def feeRun (rounds : List (List (Option ForeignChain))) :
    History Notifier (List (Option ForeignChain)) × Notifier :=
  (notifierMachine 2).exec ⟨.empty, none⟩ rounds

theorem feeRun_run (rounds : List (List (Option ForeignChain))) :
    (notifierMachine 2).Run (fun _ _ => True) (feeRun rounds).1 (feeRun rounds).2 :=
  Machine.exec_run rfl (fun _ _ _ => trivial) fun _ _ => trivial

theorem telling_of_answers {told : RoundAnswers} {rest : List (Option ForeignChain)}
    (hround : Calls.round confirmations s.sync.self replies = some (told, rest))
    (htold : s.sync.self.fee = some told.fee →
      s.notified = some (s.sync.self.told told).toChainInfo) : s.Telling confirmations replies := by
  intro other rest' hother hfee _
  cases hround.symm.trans hother
  exact htold hfee

-- The list is loaded with the first fee; the second round reads a new one and is given up; the
-- third has still another one to tell, and the last one has nothing to add.
def toldRounds : List (List (Option ForeignChain)) :=
  [feeAnswers 10 5, feeAnswers 20 2, feeAnswers 30 4, feeAnswers 31 4]

theorem clients_told_sample :
    (feeRun toldRounds).1.map (fun taken => (taken.1.completes 2 taken.2, taken.1.sends 2 taken.2)) =
        [(true, false), (true, true), (false, false), (true, true)] ∧
      ∀ taken ∈ (feeRun toldRounds).1, taken.1.Tells 2 taken.2 := by
  refine ⟨by decide, clients_told (Machine.exec_run rfl (fun _ _ _ => trivial)
    fun n _ taken htaken => ?_)⟩
  replace htaken := Machine.mem_exec_of_take htaken
  rcases List.mem_cons.mp htaken with rfl | htaken
  · exact telling_of_answers rfl fun _ => by decide
  rcases List.mem_cons.mp htaken with rfl | htaken
  · exact telling_of_answers rfl fun hfee => absurd hfee (by decide)
  rcases List.mem_cons.mp htaken with rfl | htaken
  · exact fun told rest htold => (by cases htold)
  rw [List.mem_singleton.mp htaken]
  exact telling_of_answers rfl fun hfee => absurd hfee (by decide)

def lateRounds : List (List (Option ForeignChain)) :=
  [feeAnswers 10 5, feeAnswers 20 2, feeAnswers 21 4]

-- The second round has read the new fee when it is given up, and the third one finds nothing new.
theorem fee_not_told :
    (notifierMachine 2).Run (fun _ _ => True) (feeRun lateRounds).1 (feeRun lateRounds).2 ∧
      ∃ taken ∈ (feeRun lateRounds).1, ¬taken.1.Tells 2 taken.2 := by
  refine ⟨feeRun_run _, _, List.mem_cons_self, fun h => ?_⟩
  exact absurd (h (by decide) (by decide)) (by decide)

end Runs

end Raicoin.Validator
