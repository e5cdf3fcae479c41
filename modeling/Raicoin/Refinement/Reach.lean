import Raicoin.Refinement.Effect

-- Every ledger that can be reached from the genesis ledger shows a lattice.
namespace Raicoin

open Lib

variable {env : Env} {blocks : Set Block}

section Genesis

private theorem genesis_alone {p : Block → Prop}
    (h : p (genesisBlock env.network)) :
    ∀ b ∈ ({genesisBlock env.network} : Finset Block), p b := by
  simpa using h

-- The lattice of the genesis ledger.
def Lattice.genesis (hcf : CollisionFree env blocks) : Lattice env where
  blocks := {genesisBlock env.network}
  genesis_mem := Finset.mem_singleton_self _
  unique := by simp
  hash_inj := by simp
  hash_ne_zero := genesis_alone (hcf.ne_zero _ hcf.genesis_mem)
  hash_ne_link := genesis_alone (hcf.ne_genesis_link _ hcf.genesis_mem)
  height_ne := genesis_alone (hcf.height_ne _ hcf.genesis_mem)
  legal := genesis_alone (genesisBlock_legal env.network)
  epoch_le := genesis_alone (genesisBlock_checked env.network).2.2.2.2.1.ge
  opens := genesis_alone fun _ => genesisBlock_opens env.network
  linked := genesis_alone fun h => absurd (genesisBlock_opens env.network).height h
  received := genesis_alone fun _ h => absurd rfl h
  rewarded := genesis_alone fun h => by simp [(genesisBlock_checked env.network).2.1] at h
  taken_once := by simp
  ordered := by
    refine ⟨fun _ => 0, genesis_alone (genesis_alone ?_)⟩
    obtain ⟨-, hop, -⟩ := genesisBlock_checked env.network
    rintro (hf | ⟨hsend, -⟩ | ⟨-, hreward, -⟩)
    · exact absurd hf (Follows.irrefl _)
    · simp [hop] at hsend
    · simp [hop] at hreward

-- What `InitLedger` puts into an empty database.
def genesisStore (env : Env) : Store :=
  let block := genesisBlock env.network
  { Store.empty.withBlock (env.hash block) block 0 with
    accounts := Table.empty.put block.account (.first block.type (env.hash block)) }

theorem genesisLedger_eq (env : Env) (enableRichList enableDelegatorList : Bool) :
    genesisLedger env enableRichList enableDelegatorList =
      { Ledger.start enableRichList enableDelegatorList (genesisStore env) with
        repWeights := repWeightsCommit_ .empty
          [⟨true, (genesisBlock env.network).representative,
            (genesisBlock env.network).balance⟩] } := by
  have hz : (genesisBlock env.network).height = 0 := (genesisBlock_opens env.network).height
  have hput : Store.empty.blockPut StoreCall.never (env.hash (genesisBlock env.network))
      (genesisBlock env.network) 0 = some (Store.empty.withBlock
        (env.hash (genesisBlock env.network)) (genesisBlock env.network) 0) := by
    simp [Store.blockPut, Store.blockIndexPut_, Store.withBlock, StoreCall.never, hz]
  have hrun : initLedger env (.begin_ (Ledger.start enableRichList enableDelegatorList .empty)
      StoreCall.never) = .ok ()
        (((Transaction.begin_ (Ledger.start enableRichList enableDelegatorList .empty)
          StoreCall.never).repWeightAdd (genesisBlock env.network).representative
            (genesisBlock env.network).balance).setStore (genesisStore env)) := by
    unfold initLedger
    simp only [Process.bind_eq_ok, write_eq_ok, Process.modify_eq_ok]
    exact ⟨(), _, ⟨_, hput, rfl⟩, ⟨⟩, _, rfl, _, Store.accountInfoPut_eq_some.mpr ⟨rfl, rfl⟩, rfl⟩
  simp only [genesisLedger, hrun]
  rfl

theorem represents_genesis (hcf : CollisionFree env blocks) :
    Represents (genesisStore env) (Lattice.genesis hcf) := by
  have hopens := genesisBlock_opens env.network
  obtain ⟨-, hop, -⟩ := genesisBlock_checked env.network
  have htop : ∀ c ∈ (Lattice.genesis hcf).blocks, ¬Follows (genesisBlock env.network) c :=
    genesis_alone (Follows.irrefl _)
  constructor
  · constructor
    · exact genesis_alone (by simp [genesisStore])
    · intro account info hget
      simp only [genesisStore, Table.get_put, Table.get_empty] at hget
      split at hget <;> cases hget
      rename_i he
      subst he
      have hmem := (Lattice.genesis hcf).genesis_mem
      exact ⟨⟨_, hmem, rfl, hopens.height, rfl, rfl, htop⟩, ⟨_, hmem, rfl, hopens.height, rfl⟩,
        rfl, .inl rfl⟩
  · intro hash stored
    simp only [genesisStore, Store.withBlock, Store.empty, Table.get_put, Table.get_empty]
    constructor
    · intro h
      split at h <;> cases h
      rename_i he
      exact ⟨(Lattice.genesis hcf).genesis_mem, he.symm, .inr ⟨htop, rfl⟩⟩
    · rintro ⟨hmem, hhash, hs⟩
      have he := Finset.mem_singleton.mp hmem
      have hz : stored.successor = 0 := by
        rcases hs with ⟨c, hc, hf, -⟩ | ⟨-, hz⟩
        · exact absurd (he ▸ hf) (htop c hc)
        · exact hz
      rw [if_pos (by rw [← hhash, he])]
      cases stored
      simp_all
  · intro account height hash
    simp only [genesisStore, Store.withBlock, Store.empty, hopens.height]
    rw [if_pos (by decide), Table.get_put, Table.get_empty]
    constructor
    · intro h
      split at h <;> cases h
      rename_i he
      obtain ⟨rfl, rfl⟩ := Prod.mk.inj he
      exact ⟨by decide, _, (Lattice.genesis hcf).genesis_mem, rfl, hopens.height, rfl⟩
    · rintro ⟨-, c, hc, rfl, rfl, rfl⟩
      obtain rfl := Finset.mem_singleton.mp hc
      rw [if_pos (by rw [hopens.height])]
  · intro key info
    refine iff_of_false (by simp [genesisStore, Store.withBlock, Store.empty]) ?_
    rintro ⟨⟨s, hs, hsend, -⟩, -⟩
    obtain rfl := Finset.mem_singleton.mp hs
    simp [hop] at hsend
  · intro key info
    refine iff_of_false (by simp [genesisStore, Store.withBlock, Store.empty]) ?_
    rintro ⟨⟨s, hs, -, -, c, hc, hf, -⟩, -⟩
    obtain rfl := Finset.mem_singleton.mp hs
    exact htop c hc hf
  · intro account
    have hnone : bindings (Lattice.genesis hcf).blocks account = 0 := by
      simp [bindings, Lattice.genesis, Finset.filter_singleton, hop]
    rw [if_pos hnone]
    rfl
  · intro key signer
    refine iff_of_false (by simp [genesisStore, Store.withBlock, Store.empty]) ?_
    rintro ⟨c, hc, hbind, -⟩
    obtain rfl := Finset.mem_singleton.mp hc
    simp [hop] at hbind

end Genesis

-- A ledger shows a lattice of blocks of the run.
structure Tracks (blocks : Set Block) (l : Ledger) (A : Lattice env) : Prop where
  represents : Represents l.store A
  subset : ∀ b ∈ A.blocks, b ∈ blocks

variable {l l' : Ledger} {A : Lattice env}

-- Nothing stands below a tail at height zero.
theorem checkPrepend_ne_ok (h : Represents l.store A) {b : Block}
    (hheight : b.height ≠ INVALID_HEIGHT) {info : AccountInfo} :
    checkPrepend env l.store b ≠ .ok info := by
  intro hok
  simp only [checkPrepend, Except.bind_eq_ok, returnIf_eq_ok, orReturn_eq_ok,
    Decidable.not_not] at hok
  obtain ⟨-, -, info', hinfo, -, htail, -⟩ := hok
  have hzero := (h.accounts.describes _ _ hinfo).tailHeight
  have hlt := b.height_lt
  unfold INVALID_HEIGHT at hheight
  omega

theorem represents_confirm (hcf : CollisionFree env blocks) (h : Tracks blocks l A) {b : Block}
    (hb : b ∈ blocks) {info : AccountInfo} (hok : checkConfirm env l.store b = .ok info) :
    Represents (confirmedStore l.store b info) A := by
  simp only [checkConfirm, Except.bind_eq_ok, returnIf_eq_ok, orReturn_eq_ok,
    Bool.not_eq_false] at hok
  obtain ⟨-, hexists, hinfo⟩ := hok
  obtain ⟨stored, hstored⟩ := (Table.contains_iff _ _).mp hexists
  have hrep := h.represents
  obtain ⟨hmem, hhash, -⟩ := (hrep.blocks _ _).mp hstored
  -- the block that is stored under this hash has the place of `b`
  obtain ⟨haccount, hheight⟩ := Block.place_of_hashInput
    (hcf.hashInput _ (h.subset _ hmem) b hb hhash)
  obtain ⟨⟨c, hc, hca, hch, hchash, htype, htop⟩, htail, hzero, -⟩ :=
    hrep.accounts.describes _ _ hinfo
  have hle := A.le_top htop hmem (haccount.trans hca.symm)
  have hnew : Describes env A.blocks b.account { info with confirmedHeight := b.height } :=
    ⟨⟨c, hc, hca, hch, hchash, htype, htop⟩, htail, hzero, .inr (by dsimp only; omega)⟩
  refine { hrep with accounts := ⟨fun d hd => ?_, fun account info' hget => ?_⟩ }
  · simp only [confirmedStore, Table.get_put]
    split
    · rfl
    · exact hrep.accounts.opened d hd
  · simp only [confirmedStore, Table.get_put] at hget
    split at hget
    · rename_i he
      cases hget
      exact he ▸ hnew
    · exact hrep.accounts.describes account info' hget

-- What a committed call does to the lattice.
inductive Moves (A : Lattice env) : BlockCall → Lattice env → Prop where
  | push {now : Nat} {b : Block} (hext : A.Extends b) : Moves A (.append now b) (A.push b hext)
  | pop {b : Block} (hrem : A.Removable b) : Moves A (.rollback b) (A.pop b hrem)
  | stay {b : Block} : Moves A (.confirm b) A

theorem Effect.tracks (hcf : CollisionFree env blocks) {call : BlockCall}
    (heffect : Effect env l call l') (hmem : call.block ∈ blocks) (h : Tracks blocks l A) :
    ∃ A', Moves A call A' ∧ Tracks blocks l' A' := by
  cases heffect with
  | append hchecks =>
      have hext := hchecks.extends h.represents (hcf.ne_zero _ hmem) (hcf.ne_genesis_link _ hmem)
        (hcf.height_ne _ hmem)
      refine ⟨_, .push hext, ?_, ?_⟩
      · rw [Ledger.appended_store]
        exact hchecks.represents h.represents hext
      · exact Finset.forall_mem_insert _ _ _ |>.mpr ⟨hmem, h.subset⟩
  | rollback hchecks =>
      have hrem := hchecks.removable h.represents
      exact ⟨_, .pop hrem, hchecks.represents h.represents hrem,
        fun c hc => h.subset c (Finset.mem_of_mem_erase hc)⟩
  | prepend hchecks => exact absurd hchecks (checkPrepend_ne_ok h.represents (hcf.height_ne _ hmem))
  | confirm hchecks => exact ⟨A, .stay, represents_confirm hcf h hmem hchecks, h.subset⟩
  | confirmed => exact ⟨A, .stay, h⟩

theorem Step.tracks (hcf : CollisionFree env blocks) (hstep : Step env blocks l l')
    (h : Tracks blocks l A) : ∃ A' : Lattice env, Tracks blocks l' A' := by
  rcases hstep.cases with ⟨call, hmem, heffect⟩ | rfl | ⟨call, fails, code, t, -, rfl⟩
  · obtain ⟨A', -, hA'⟩ := heffect.tracks hcf hmem h
    exact ⟨A', hA'⟩
  · exact ⟨A, h⟩
  · exact ⟨A, h.represents, h.subset⟩

theorem tracks_genesis (hcf : CollisionFree env blocks)
    (enableRichList enableDelegatorList : Bool) :
    Tracks blocks (genesisLedger env enableRichList enableDelegatorList)
      (Lattice.genesis hcf) := by
  rw [genesisLedger_eq]
  exact ⟨represents_genesis hcf, genesis_alone hcf.genesis_mem⟩

-- The run lemma: whatever was appended, prepended, rolled back, confirmed, committed
-- or aborted, the store shows a lattice.
theorem Reachable.tracks (hcf : CollisionFree env blocks) (h : Reachable env blocks l) :
    ∃ A : Lattice env, Tracks blocks l A := by
  induction h with
  | genesis enableRichList enableDelegatorList =>
      exact ⟨_, tracks_genesis hcf enableRichList enableDelegatorList⟩
  | step _ hstep ih =>
      obtain ⟨A, hA⟩ := ih
      exact hstep.tracks hcf hA

end Raicoin
