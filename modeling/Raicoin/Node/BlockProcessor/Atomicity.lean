import Raicoin.Lattice.Rules
import Raicoin.Node.BlockProcessor.Run

-- A call that fails has written nothing, unless it failed because a write was refused.
namespace Raicoin

open Lib Lib.Process

abbrev Refused (code : ErrorCode) : Prop := code.refused = true

theorem write_fails {f : (StoreCall → Bool) → Store → Option Store} {code : ErrorCode}
    (h : Refused code) : FailsLate Refused (write f code) :=
  FailsLate.update h

theorem write_bind_fails {f : (StoreCall → Bool) → Store → Option Store} {code : ErrorCode}
    {rest : Unit → TransactionM Unit} (h : Refused code) (hrest : FailsLate Refused (rest ())) :
    FailsLate Refused (write f code >>= rest) :=
  (write_fails h).bind fun _ => hrest

theorem examine_bind_fails {α β : Type} {f : Store → Except ErrorCode α}
    {rest : α → TransactionM β} (h : ∀ a, FailsClean Refused (rest a)) :
    FailsClean Refused (examine f >>= rest) :=
  FailsClean.check_bind h

namespace AppendBlockVisitor

variable {env : Env} {now : Nat} {b p : Block} {info : AccountInfo}

theorem putBlockSuccessor_fails : FailsLate Refused (putBlockSuccessor env b) :=
  write_bind_fails rfl (write_fails rfl)

theorem updateAccountInfo_fails : FailsLate Refused (updateAccountInfo env b info) :=
  write_bind_fails rfl (FailsLate.modify _)

theorem updateRepInfo_fails : FailsLate Refused (updateRepInfo p b) := by
  unfold updateRepInfo
  split
  · exact FailsLate.pure _
  · exact FailsLate.modify _

theorem openRepInfo_fails : FailsLate Refused (openRepInfo b) := by
  unfold openRepInfo
  split
  · exact FailsLate.modify _
  · exact FailsLate.pure _

theorem putRewardableInfo_fails : FailsLate Refused (putRewardableInfo env p b) := by
  unfold putRewardableInfo
  split
  · exact FailsLate.pure _
  · dsimp only
    split
    · exact write_fails rfl
    · exact FailsLate.pure _

theorem extend_fails : FailsLate Refused (extend env b info p) :=
  putBlockSuccessor_fails.bind fun _ => updateAccountInfo_fails.bind fun _ =>
    updateRepInfo_fails.bind fun _ => putRewardableInfo_fails

theorem send_fails : FailsClean Refused (send env now b) :=
  examine_bind_fails fun _ => (extend_fails.bind fun _ => write_fails rfl).clean

theorem extend_only_fails {check : Store → Except ErrorCode (AccountInfo × Block)} :
    FailsClean Refused (do
      let (info, headBlock) ← examine check
      extend env b info headBlock) :=
  examine_bind_fails fun _ => extend_fails.clean

theorem receive_fails : FailsClean Refused (receive env now b) := by
  refine examine_bind_fails fun found => ?_
  cases found with
  | none =>
      refine examine_bind_fails fun _ => FailsLate.clean ?_
      exact write_bind_fails rfl (write_bind_fails rfl ((FailsLate.modify _).bind fun _ =>
        openRepInfo_fails.bind fun _ => write_fails rfl))
  | some info =>
      exact examine_bind_fails fun _ => (extend_fails.bind fun _ => write_fails rfl).clean

theorem reward_fails : FailsClean Refused (reward env now b) := by
  refine examine_bind_fails fun found => ?_
  cases found with
  | none =>
      refine examine_bind_fails fun _ => FailsLate.clean ?_
      exact write_bind_fails rfl (write_bind_fails rfl (write_fails rfl))
  | some info =>
      refine examine_bind_fails fun _ => FailsLate.clean ?_
      exact putBlockSuccessor_fails.bind fun _ => updateAccountInfo_fails.bind fun _ =>
        write_fails rfl

theorem bind_fails : FailsClean Refused (bind env now b) :=
  examine_bind_fails fun _ => (write_bind_fails rfl (write_bind_fails rfl extend_fails)).clean

end AppendBlockVisitor

theorem appendBlock_fails (env : Env) (now : Nat) (b : Block) :
    FailsClean Refused (appendBlock_ env now b) := by
  unfold appendBlock_
  by_cases hlegal : b.Legal
  · rw [Block.visit_legal _ _ hlegal]
    cases b.opcode with
    | invalid => exact FailsClean.throw _
    | send => exact AppendBlockVisitor.send_fails
    | receive => exact AppendBlockVisitor.receive_fails
    | change => exact AppendBlockVisitor.extend_only_fails
    | credit => exact AppendBlockVisitor.extend_only_fails
    | reward => exact AppendBlockVisitor.reward_fails
    | destroy => exact AppendBlockVisitor.extend_only_fails
    | bind => exact AppendBlockVisitor.bind_fails
  · rw [Block.visit_illegal _ _ hlegal]
    exact FailsClean.throw _

namespace RollbackBlockVisitor

variable {env : Env} {b : Block}

theorem deleteBlockSuccessor_fails : FailsLate Refused (deleteBlockSuccessor env b) := by
  refine write_bind_fails rfl ?_
  split
  · exact write_fails rfl
  · exact FailsLate.pure _

theorem updateAccountInfo_fails {info : AccountInfo} :
    FailsLate Refused (updateAccountInfo b info) := by
  unfold updateAccountInfo
  split <;> exact write_fails rfl

theorem deleteRewardableInfo_fails {checked : Checked} :
    FailsLate Refused (deleteRewardableInfo env checked) := by
  unfold deleteRewardableInfo
  split
  · exact write_fails rfl
  · exact FailsLate.pure _

theorem updateRepWeight_fails {previous : Option Block} :
    FailsLate Refused (updateRepWeight b previous) := by
  unfold updateRepWeight
  split
  · exact FailsLate.pure _
  · exact FailsLate.modify _

theorem shrink_fails {checked : Checked} : FailsLate Refused (shrink env b checked) :=
  deleteBlockSuccessor_fails.bind fun _ => write_bind_fails rfl
    (updateAccountInfo_fails.bind fun _ => deleteRewardableInfo_fails.bind fun _ =>
      updateRepWeight_fails)

theorem write_shrink_fails {α : Type} {check : Store → Except ErrorCode α}
    {f : α → (StoreCall → Bool) → Store → Option Store} {code : ErrorCode} {checked : α → Checked}
    (h : Refused code) :
    FailsClean Refused (do
      let found ← examine check
      write (f found) code
      shrink env b (checked found)) :=
  examine_bind_fails fun _ => (write_bind_fails h shrink_fails).clean

theorem bind_fails : FailsClean Refused (bind env b) := by
  refine examine_bind_fails fun _ => FailsLate.clean (write_bind_fails rfl ?_)
  dsimp only
  split
  · exact write_bind_fails rfl shrink_fails
  · exact write_bind_fails rfl shrink_fails

end RollbackBlockVisitor

theorem rollbackBlock_fails (env : Env) (b : Block) :
    FailsClean Refused (rollbackBlock_ env b) := by
  unfold rollbackBlock_
  by_cases hlegal : b.Legal
  · rw [Block.visit_legal _ _ hlegal]
    cases b.opcode with
    | invalid => exact FailsClean.throw _
    | send => exact RollbackBlockVisitor.write_shrink_fails rfl
    | receive => exact RollbackBlockVisitor.write_shrink_fails rfl
    | change => exact examine_bind_fails fun _ => RollbackBlockVisitor.shrink_fails.clean
    | credit => exact examine_bind_fails fun _ => RollbackBlockVisitor.shrink_fails.clean
    | reward => exact RollbackBlockVisitor.write_shrink_fails rfl
    | destroy => exact examine_bind_fails fun _ => RollbackBlockVisitor.shrink_fails.clean
    | bind => exact RollbackBlockVisitor.bind_fails
  · rw [Block.visit_illegal _ _ hlegal]
    exact FailsClean.throw _

theorem prependBlock_fails (env : Env) (b : Block) : FailsClean Refused (prependBlock_ env b) :=
  examine_bind_fails fun _ => (write_bind_fails rfl (write_fails rfl)).clean

theorem confirmBlock_fails (env : Env) (b : Block) : FailsClean Refused (confirmBlock_ env b) := by
  refine examine_bind_fails fun _ => FailsLate.clean ?_
  split
  · exact (write_fails rfl).bind fun _ => FailsLate.pure _
  · exact FailsLate.pure _

theorem BlockCall.run_fails (env : Env) (call : BlockCall) :
    FailsClean Refused (call.run env) := by
  cases call with
  | append now b => exact appendBlock_fails env now b
  | prepend b => exact prependBlock_fails env b
  | rollback b => exact rollbackBlock_fails env b
  | confirm b =>
      intro t code t' h
      rcases (Process.bind_eq_error _ _ _ _ _).mp h with h | ⟨_, _, -, h⟩
      · exact confirmBlock_fails env b t code t' h
      · cases h

theorem BlockCall.keeps_not_refused {call : BlockCall} {code : ErrorCode}
    (hkeeps : call.keeps code = true) : ¬Refused code := by
  cases call <;> cases code <;> simp_all [keeps, Refused, ErrorCode.refused]

-- What is committed after an error is the ledger as it was.
theorem BlockCall.keep_unchanged {env : Env} {call : BlockCall} {t t' : Transaction}
    {code : ErrorCode} (hrun : call.run env t = .error code t')
    (hkeeps : call.keeps code = true) : t' = t := by
  rcases call.run_fails env t code t' hrun with h | h
  · exact h
  · exact absurd h (keeps_not_refused hkeeps)

end Raicoin
