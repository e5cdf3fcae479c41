import Raicoin.Node.BlockProcessor.Replay
import Raicoin.Refinement.Blocked
import Raicoin.Refinement.Reach

-- A block that is rolled back takes along what depends on it, and nothing else.
namespace Raicoin

open Lib

-- A round after which the loop goes on, on a store that refuses no write.
def processBlockDynamicStep (env : Env) (now : Nat) (l : Ledger) (stack : List BlockDynamic) :
    Option (Ledger × List BlockDynamic) :=
  match processBlockDynamicRound env now StoreCall.never l stack with
  | .next l' stack' => some (l', stack')
  | .wait _ _ => none
  | .finish _ => none

-- The loop works off a rollback of `b`, at any times of the clock and whatever is below it on
-- the stack, and what it removes is exactly what cannot stay without `b`.
structure ForcedRollback (env : Env) (l : Ledger) (b : Block) (l' : Ledger) : Prop where
  finishes : ∃ n, Finishes (processBlockDynamicStep env) n l ⟨.rollback, some b⟩ l'
  subset : l'.store.blockSet ⊆ l.store.blockSet
  removed : IsLeast
    {S : Set Block | b ∈ S ∧ ∀ x ∈ S, ∀ y ∈ l.store.blockSet, Depends env x y → y ∈ S}
    {y | y ∈ l.store.blockSet ∧ y ∉ l'.store.blockSet}

section Loop

variable {env : Env} {blocks : Set Block} {l l' : Ledger} {A : Lattice env} {b : Block}

theorem step_of_ok
    (h : ∀ stack, processBlockDynamicRollback_ env StoreCall.never l stack b =
      ⟨l', stack, .ok ()⟩) (now : Nat) (rest : List BlockDynamic) :
    processBlockDynamicStep env now l (⟨.rollback, some b⟩ :: rest) = some (l', rest) := by
  simp only [processBlockDynamicStep, processBlockDynamicRound, processBlockDynamicTop, h,
    List.tail_cons]

theorem step_of_push {d : Block}
    (h : ∀ stack, processBlockDynamicRollback_ env StoreCall.never l stack b =
      ⟨l, ⟨.rollback, some d⟩ :: stack, .error .BLOCK_PROCESS_CONTINUE⟩)
    (now : Nat) (rest : List BlockDynamic) :
    processBlockDynamicStep env now l (⟨.rollback, some b⟩ :: rest) =
      some (l, ⟨.rollback, some d⟩ :: ⟨.rollback, some b⟩ :: rest) := by
  simp only [processBlockDynamicStep, processBlockDynamicRound, processBlockDynamicTop, h]

-- The ledgers on the way are reachable and gain no block.
def OnTheWay (env : Env) (blocks : Set Block) (l l' : Ledger) : Prop :=
  Reachable env blocks l' ∧ l'.store.blockSet ⊆ l.store.blockSet

theorem removal (hcf : CollisionFree env blocks) (h : Represents l.store A) {rank : Block → Nat}
    (hrank : ∀ b ∈ A.blocks, ∀ c ∈ A.blocks, Depends env b c → rank b < rank c) :
    Removal (processBlockDynamicStep env) (fun b => ⟨.rollback, some b⟩) (Depends env)
      (fun l => l.store.blockSet) (OnTheWay env blocks l) (· ≠ genesisBlock env.network) rank
      (A.blocks.sup rank) where
  ordered l' hl' x hx y hy := by
    rw [← h.blockSet] at hrank
    exact hrank x (hl'.2 hx) y (hl'.2 hy)
  rank_le l' hl' x hx := by
    rw [← h.blockSet]
    exact Finset.le_sup (hl'.2 hx)
  allowed_next l' hl' x hx _ y _ hxy := by
    obtain ⟨A', hA'⟩ := hl'.1.tracks hcf
    rw [hA'.represents.blockSet] at hx
    exact A'.ne_genesis_of_depends hx hxy
  attempt l' hl' x hx hgenesis := by
    obtain ⟨A', hA'⟩ := hl'.1.tracks hcf
    have hblocks := hA'.represents.blockSet
    rw [hblocks] at hx ⊢
    rcases rollback_or_push hA'.represents hx hgenesis with
      ⟨hrem, l'', hpop, houtcome, hok⟩ | ⟨c, hc, hxc, d, hd, hpush⟩
    · have hafter := hpop.blockSet
      refine .inl ⟨l'', ⟨.step hl'.1 ⟨.rollback x, _, hA'.subset x hx, houtcome⟩, ?_⟩, hafter,
        hrem.not_depends, step_of_ok hok⟩
      rw [hafter]
      exact fun y hy => hl'.2 (hblocks ▸ Finset.mem_of_mem_erase hy)
    · exact .inr ⟨c, hc, hxc, d, hd, step_of_push hpush⟩

end Loop

-- Every block but the genesis block can be forced out.
theorem forced_rollback {env : Env} {blocks : Set Block} {l : Ledger} {b : Block}
    (hcf : CollisionFree env blocks) (h : Reachable env blocks l) (hb : b ∈ l.store.blockSet)
    (hgenesis : b ≠ genesisBlock env.network) :
    ∃ l', ForcedRollback env l b l' ∧ Reachable env blocks l' := by
  obtain ⟨A, hA⟩ := h.tracks hcf
  obtain ⟨rank, hrank⟩ := A.ordered
  obtain ⟨n, l', hfinishes, ⟨hreachable, hsubset⟩, hlive⟩ :=
    (removal hcf hA.represents hrank).finishes ⟨h, subset_rfl⟩ hb hgenesis
  refine ⟨l', ⟨⟨n, hfinishes⟩, hsubset, ?_⟩, hreachable⟩
  have hremoved : {y | y ∈ l.store.blockSet ∧ y ∉ l'.store.blockSet} =
      dependents (Depends env) l.store.blockSet b := by
    ext y
    have hy := hlive y
    constructor
    · rintro ⟨hmem, hgone⟩
      by_contra hnot
      exact hgone (hy.mpr ⟨hmem, hnot⟩)
    · intro hdep
      have hmem := (dependents_induction (P := fun _ => True) hb trivial
        (fun _ _ _ _ _ _ => trivial) hdep).1
      exact ⟨hmem, fun hstays => (hy.mp hstays).2 hdep⟩
  rw [hremoved]
  exact dependents_least _ _

theorem sampleSend_forced : ∃ l', ForcedRollback sampleEnv sampleLedger sampleSend l' ∧
    Reachable sampleEnv {b | b ∈ sampleBlocks} l' :=
  forced_rollback sample_collisionFree sampleLedger_reachable
    (by decide +kernel) (by decide +kernel)

-- The genesis block received coins that no block sent: its rollback waits for the source.
theorem genesis_not_forced : CollisionFree sampleEnv {b | b ∈ sampleBlocks} ∧
    Reachable sampleEnv {b | b ∈ sampleBlocks} (genesisLedger sampleEnv true true) ∧
    genesisBlock .test ∈ (genesisLedger sampleEnv true true).store.blockSet ∧
    (∃ l' stack, processBlockDynamicRound sampleEnv 0 StoreCall.never
      (genesisLedger sampleEnv true true) [⟨.rollback, some (genesisBlock .test)⟩] =
        .wait l' stack) ∧
    ¬∃ l', ForcedRollback sampleEnv (genesisLedger sampleEnv true true) (genesisBlock .test) l' := by
  have hwaits : (match processBlockDynamicRound sampleEnv 0 StoreCall.never
      (genesisLedger sampleEnv true true) [⟨.rollback, some (genesisBlock .test)⟩] with
    | .wait _ _ => true
    | _ => false) = true := by
    decide +kernel
  have hwait : ∃ l' stack, processBlockDynamicRound sampleEnv 0 StoreCall.never
      (genesisLedger sampleEnv true true) [⟨.rollback, some (genesisBlock .test)⟩] =
        .wait l' stack := by
    split at hwaits
    · rename_i l' stack hround
      exact ⟨l', stack, hround⟩
    · cases hwaits
  refine ⟨sample_collisionFree, .genesis true true, by decide +kernel, hwait, ?_⟩
  rintro ⟨l', ⟨n, hfinishes⟩, -, -⟩
  have hsome := hfinishes.step_isSome 0 []
  obtain ⟨l'', stack, hround⟩ := hwait
  rw [processBlockDynamicStep, hround] at hsome
  cases hsome

end Raicoin
