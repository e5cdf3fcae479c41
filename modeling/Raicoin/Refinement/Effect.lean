import Raicoin.Node.BlockProcessor.Atomicity
import Raicoin.Refinement.Simulation

-- What a transaction of the block processor makes of a ledger.
namespace Raicoin

open Lib

section Ledgers

variable (env : Env) (l : Ledger)

def Ledger.appended (b : Block) (on : Position) : Ledger :=
  { (({ l with store := appendedStore env l.store b on } : Ledger).updateRichList
      b).updateDelegatorList b with
    repWeights := repWeightsCommit_ l.repWeights (movedWeights b on.head) }

def Ledger.removed (b : Block) (info : AccountInfo) (previous : Option Block) : Ledger :=
  { l with
    store := removedStore env l.store b info previous
    repWeights := repWeightsCommit_ l.repWeights (restoredWeights b previous) }

def prependedStore (s : Store) (b : Block) (info : AccountInfo) : Store :=
  { s.withBlock (env.hash b) b info.tail with
    accounts := s.accounts.put b.account
      { info with tail := env.hash b, tailHeight := b.height } }

def confirmedStore (s : Store) (b : Block) (info : AccountInfo) : Store :=
  { s with accounts := s.accounts.put b.account { info with confirmedHeight := b.height } }

end Ledgers

section Commit

variable {env : Env} {l : Ledger} {t : Transaction} {b : Block} {fails : StoreCall → Bool}

@[simp] theorem Ledger.updateRichList_repWeights :
    (l.updateRichList b).repWeights = l.repWeights := by
  unfold Ledger.updateRichList
  split <;> rfl

@[simp] theorem Ledger.updateDelegatorList_repWeights :
    (l.updateDelegatorList b).repWeights = l.repWeights := by
  unfold Ledger.updateDelegatorList
  split <;> rfl

@[simp] theorem Ledger.updateRichList_store : (l.updateRichList b).store = l.store := by
  unfold Ledger.updateRichList
  split <;> rfl

@[simp] theorem Ledger.updateDelegatorList_store :
    (l.updateDelegatorList b).store = l.store := by
  unfold Ledger.updateDelegatorList
  split <;> rfl

@[simp] theorem Ledger.appended_store (on : Position) :
    (l.appended env b on).store = appendedStore env l.store b on := by
  simp [Ledger.appended]

@[simp] theorem Ledger.appended_repWeights (on : Position) :
    (l.appended env b on).repWeights = repWeightsCommit_ l.repWeights (movedWeights b on.head) :=
  rfl

theorem appended_commit (on : Position) :
    (Raicoin.appended env (.begin_ l fails) b on).commit = l.appended env b on := by
  simp [Raicoin.appended, moved, Transaction.commit, Ledger.appended, Transaction.begin_,
    Transaction.store]

theorem removed_commit (info : AccountInfo) (previous : Option Block) :
    (Raicoin.removed env (.begin_ l fails) b info previous).commit =
      l.removed env b info previous := by
  simp [Raicoin.removed, movedBack, Transaction.commit, Ledger.removed, Transaction.begin_,
    Transaction.setStore, Transaction.store]

end Commit

-- The ledgers that a transaction can end with.
inductive Effect (env : Env) (l : Ledger) : BlockCall → Ledger → Prop where
  | append {now : Nat} {b : Block} {on : Position}
      (hchecks : AppendChecks env now l.store b on) :
      Effect env l (.append now b) (l.appended env b on)
  | rollback {b : Block} {info : AccountInfo} {previous : Option Block}
      (hchecks : RollbackChecks env l.store b info previous) :
      Effect env l (.rollback b) (l.removed env b info previous)
  | prepend {b : Block} {info : AccountInfo} (hchecks : checkPrepend env l.store b = .ok info) :
      Effect env l (.prepend b) { l with store := prependedStore env l.store b info }
  | confirm {b : Block} {info : AccountInfo} (hchecks : checkConfirm env l.store b = .ok info) :
      Effect env l (.confirm b) { l with store := confirmedStore l.store b info }
  | confirmed {b : Block} : Effect env l (.confirm b) l

-- A committed call has the effect that its checks decide.
theorem BlockCall.effect {env : Env} {l : Ledger} {call : BlockCall} {fails : StoreCall → Bool}
    {t : Transaction} {u : Unit} (hrun : call.run env (.begin_ l fails) = .ok u t) :
    Effect env l call t.commit := by
  cases call with
  | append now b =>
      obtain ⟨on, hchecks, rfl⟩ := appendBlock_ok hrun
      rw [appended_commit]
      exact .append hchecks
  | rollback b =>
      obtain ⟨info, previous, hchecks, rfl⟩ := rollbackBlock_ok hrun
      rw [removed_commit]
      exact .rollback hchecks
  | prepend b =>
      simp only [run, prependBlock_, Process.bind_eq_ok, examine_eq_ok, write_eq_ok,
        Store.accountInfoPut_eq_some] at hrun
      obtain ⟨info, _, ⟨hchecks, rfl⟩, _, _, ⟨s, hs, rfl⟩, _, ⟨-, rfl⟩, rfl⟩ := hrun
      obtain rfl := Store.blockPut_eq_some hs
      exact .prepend hchecks
  | confirm b =>
      simp only [run, confirmBlock_, Process.bind_eq_ok, examine_eq_ok] at hrun
      obtain ⟨_, _, ⟨info, _, ⟨hchecks, rfl⟩, hwrite⟩, hpure⟩ := hrun
      obtain ⟨-, rfl⟩ := (Process.pure_eq_ok _ _ _ _).mp hpure
      split at hwrite
      · simp only [Process.bind_eq_ok, write_eq_ok, Store.accountInfoPut_eq_some] at hwrite
        obtain ⟨_, _, ⟨_, ⟨-, rfl⟩, rfl⟩, hpure⟩ := hwrite
        obtain ⟨-, rfl⟩ := (Process.pure_eq_ok _ _ _ _).mp hpure
        exact .confirm hchecks
      · obtain ⟨-, rfl⟩ := (Process.pure_eq_ok _ _ _ _).mp hwrite
        exact .confirmed

-- A step commits a call, changes nothing, or leaves traces in the two lists only.
theorem Step.cases {env : Env} {blocks : Set Block} {l l' : Ledger} (h : Step env blocks l l') :
    (∃ call, call.block ∈ blocks ∧ Effect env l call l') ∨ l' = l ∨
      ∃ (call : BlockCall) (fails : StoreCall → Bool) (code : ErrorCode) (t : Transaction),
        call.run env (.begin_ l fails) = .error code t ∧ l' = t.abort l := by
  obtain ⟨call, fails, hmem, houtcome⟩ := h
  cases houtcome with
  | commit hrun => exact .inl ⟨call, hmem, BlockCall.effect hrun⟩
  | keep code hrun hkeeps =>
      rw [BlockCall.keep_unchanged hrun hkeeps]
      exact .inr (.inl rfl)
  | abort code hrun => exact .inr (.inr ⟨call, fails, code, _, hrun, rfl⟩)

end Raicoin
