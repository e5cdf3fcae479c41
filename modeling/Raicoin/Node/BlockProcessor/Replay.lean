import Raicoin.Node.BlockProcessor.Run

-- Runs that can be computed.
namespace Raicoin

open Lib

-- The ledger after calls that all commit, on a store that refuses no write, when
-- every ledger on the way passes a test.
def replay (env : Env) (test : Ledger → Bool) (l : Ledger) : List BlockCall → Option Ledger
  | [] => some l
  | call :: calls =>
    match call.run env (.begin_ l StoreCall.never) with
    | .ok _ t => if test t.commit then replay env test t.commit calls else none
    | .error _ _ => none

section Reached

variable {env : Env} {blocks : Set Block} {test : Ledger → Bool} {l l' : Ledger}

-- The tests do not change where a run goes.
theorem replay_untested {calls : List BlockCall} (hrun : replay env test l calls = some l') :
    replay env (fun _ => true) l calls = some l' := by
  induction calls generalizing l with
  | nil => exact hrun
  | cons call calls ih =>
      rw [replay] at hrun ⊢
      split at hrun
      · split at hrun
        · exact ih hrun
        · cases hrun
      · cases hrun

theorem replay_cons {call : BlockCall} {calls : List BlockCall}
    (hrun : replay env test l (call :: calls) = some l') :
    ∃ t, call.run env (.begin_ l StoreCall.never) = .ok () t ∧ test t.commit = true ∧
      replay env test t.commit calls = some l' := by
  rw [replay] at hrun
  split at hrun
  · rename_i t hcall
    split at hrun
    · exact ⟨t, hcall, ‹_›, hrun⟩
    · cases hrun
  · cases hrun

theorem replay_one {call : BlockCall} (hrun : replay env test l [call] = some l') :
    ∃ t, call.run env (.begin_ l StoreCall.never) = .ok () t ∧ t.commit = l' ∧
      test l' = true := by
  obtain ⟨t, hcall, htest, hrest⟩ := replay_cons hrun
  obtain rfl := Option.some.inj hrest
  exact ⟨t, hcall, rfl, htest⟩

theorem ReachableWithin.replay {bound : Ledger → Prop} (h : ReachableWithin env blocks bound l)
    (hbound : ∀ l, test l = true → bound l) {calls : List BlockCall}
    (hmem : ∀ call ∈ calls, call.block ∈ blocks) (hrun : replay env test l calls = some l') :
    ReachableWithin env blocks bound l' := by
  induction calls generalizing l with
  | nil =>
      obtain rfl := Option.some.inj hrun
      exact h
  | cons call calls ih =>
      obtain ⟨t, hcall, htest, hrest⟩ := replay_cons hrun
      exact ih (h.step ⟨call, _, hmem call List.mem_cons_self, .commit hcall⟩ (hbound _ htest))
        (fun c hc => hmem c (List.mem_cons_of_mem _ hc)) hrest

theorem Reachable.within (h : Reachable env blocks l) :
    ReachableWithin env blocks (fun _ => True) l := by
  induction h with
  | genesis => exact .genesis _ _ trivial
  | step _ hstep ih => exact .step ih hstep trivial

theorem Reachable.replay (h : Reachable env blocks l) {calls : List BlockCall}
    (hmem : ∀ call ∈ calls, call.block ∈ blocks) (hrun : replay env test l calls = some l') :
    Reachable env blocks l' :=
  (h.within.replay (fun _ _ => trivial) hmem hrun).reachable

end Reached

-- A small run for the examples, on a node that takes every signature and whose
-- hash is the number that the bytes spell.
section Sample

def sampleEnv : Env where
  network := .test
  blake2b bytes := BitVec.ofNat 256 (bytes.foldl (fun sum byte => sum * 257 + byte.toNat + 1) 0)
  validateMessage _ _ _ := false

def sampleTx (opcode : BlockOpcode) (credit counter timestamp : Nat) (height : UInt64)
    (account : Account) (previous : BlockHash) (representative : Account) (balance : Nat)
    (link : Uint256) : Block := .tx {
  opcode, height, account, previous, representative, link
  credit := UInt16.ofNat credit
  counter := UInt32.ofNat counter
  timestamp := UInt64.ofNat timestamp
  balance := BitVec.ofNat 128 balance
  extensions := []
  signature := 0
  extensions_le := noExtensions_le }

def sampleRep (opcode : BlockOpcode) (counter timestamp : Nat) (height : UInt64)
    (account : Account) (previous : BlockHash) (balance : Nat) (link : Uint256) : Block := .rep {
  opcode, height, account, previous, link
  credit := 1
  counter := UInt32.ofNat counter
  timestamp := UInt64.ofNat timestamp
  balance := BitVec.ofNat 128 balance
  chain := Chain.INVALID
  signature := 0
  chain_eq := fun _ => rfl }

-- The genesis account sends to the account 1, which opens and sends a part back;
-- the representative of both claims the reward for the first ten days.
def sampleSend : Block :=
  sampleTx .send 512 1 (TEST_EPOCH_TIMESTAMP + 10 * DAY) 1 (genesisPublicKey .test)
    (sampleEnv.hash (genesisBlock .test)) (genesisRepresentative .test) (9000000 * RAI) 1

def sampleReceive : Block :=
  sampleTx .receive 1 1 (TEST_EPOCH_TIMESTAMP + 10 * DAY + 60) 0 1 0
    (genesisRepresentative .test) (999999 * RAI) (sampleEnv.hash sampleSend)

def sampleReward : Block :=
  sampleRep .reward 0 (TEST_EPOCH_TIMESTAMP + 11 * DAY) 0
    (genesisRepresentative .test) 0 (779999 * RAI) (sampleEnv.hash (genesisBlock .test))

def sampleReturn : Block :=
  sampleTx .send 1 1 (TEST_EPOCH_TIMESTAMP + 20 * DAY) 1 1
    (sampleEnv.hash sampleReceive) (genesisRepresentative .test) (899999 * RAI)
    (genesisPublicKey .test)

def sampleBlocks : List Block :=
  [genesisBlock .test, sampleSend, sampleReceive, sampleReward, sampleReturn]

theorem sampleSend_mem : sampleSend ∈ sampleBlocks :=
  List.mem_cons_of_mem _ List.mem_cons_self

theorem sampleReward_mem : sampleReward ∈ sampleBlocks :=
  List.mem_cons_of_mem _ (List.mem_cons_of_mem _ (List.mem_cons_of_mem _ List.mem_cons_self))

def sampleNow : Nat := TEST_EPOCH_TIMESTAMP + 20 * DAY

def sampleCalls : List BlockCall :=
  [.append sampleNow sampleSend, .append sampleNow sampleReceive, .append sampleNow sampleReward,
    .confirm sampleReceive, .append sampleNow sampleReturn, .rollback sampleReturn,
    .append sampleNow sampleReturn]

def sampleLedger : Ledger :=
  (replay sampleEnv (fun _ => true) (genesisLedger sampleEnv true true) sampleCalls).getD
    (genesisLedger sampleEnv true true)

theorem sample_collisionFree : CollisionFree sampleEnv {b | b ∈ sampleBlocks} where
  hashInput := by
    change ∀ a ∈ sampleBlocks, ∀ b ∈ sampleBlocks, _
    decide +kernel
  ne_zero := by
    change ∀ b ∈ sampleBlocks, _
    decide +kernel
  ne_genesis_link := by
    change ∀ b ∈ sampleBlocks, _
    decide +kernel
  height_ne := by
    change ∀ b ∈ sampleBlocks, _
    decide +kernel
  genesis_mem := List.mem_cons_self

theorem sampleLedger_reachable : Reachable sampleEnv {b | b ∈ sampleBlocks} sampleLedger := by
  have hsome : (replay sampleEnv (fun _ => true) (genesisLedger sampleEnv true true)
      sampleCalls).isSome := by
    decide +kernel
  obtain ⟨l, hl⟩ := Option.isSome_iff_exists.mp hsome
  have hmem : ∀ call ∈ sampleCalls, call.block ∈ sampleBlocks := by decide +kernel
  rw [sampleLedger, hl]
  exact (Reachable.genesis true true).replay hmem hl

end Sample

end Raicoin
