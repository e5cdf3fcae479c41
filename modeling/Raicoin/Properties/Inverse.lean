import Raicoin.Properties.Weights

-- A rollback undoes an append.
namespace Raicoin

open Lib

variable {env : Env} {blocks : Set Block} {l : Ledger} {A : Lattice env} {b : Block} {now : Nat}
  {on : Position}

-- The info that a rollback leaves is the one that the append found.
theorem shortened_appendedInfo {info : AccountInfo} {p : Block}
    (hchecks : OnHead l.store b info p) (hdescribes : Describes env A.blocks b.account info) :
    RollbackBlockVisitor.shortened b (appendedInfo env b (some (info, p))) = info := by
  have hheight := hchecks.height
  have hconfirmed := hdescribes.confirmedHeight
  simp only [RollbackBlockVisitor.shortened, appendedInfo, hchecks.previous,
    show b.height - 1 = info.headHeight by omega]
  rw [if_neg (by omega)]

-- The accounts table comes back whole, with forks and confirmed heights.
theorem accounts_restored (h : Represents l.store A) (hchecks : AppendChecks env now l.store b on) :
    (if b.height = 0 then (appendedStore env l.store b on).accounts.del b.account
      else (appendedStore env l.store b on).accounts.put b.account
        (RollbackBlockVisitor.shortened b (appendedInfo env b on))) = l.store.accounts := by
  have hplaced := hchecks.placed
  cases on with
  | none =>
      obtain ⟨hinfo, hopens⟩ := hplaced
      rw [if_pos hopens.height]
      exact Table.del_put _ _ _ (h.accountInfo_eq ▸ hinfo)
  | some place =>
      obtain ⟨info, p⟩ := place
      obtain ⟨hhead, -⟩ := hplaced
      have hheight := hhead.height
      rw [if_neg (by omega),
        shortened_appendedInfo hhead (h.accounts.describes _ _ hhead.info_get)]
      ext1 account
      simp only [appendedStore, Table.get_put]
      split
      · rename_i he
        rw [he, hhead.info_get]
      · rfl

theorem store_restored (h : Represents l.store A) (hext : A.Extends b)
    (hchecks : AppendChecks env now l.store b on) {info : AccountInfo} {previous : Option Block}
    (hback : RollbackChecks env (appendedStore env l.store b on) b info previous) :
    removedStore env (appendedStore env l.store b on) b info previous =
      { l.store with rollbacks := l.store.rollbacks.put (env.hash b) b } := by
  have hafter := hback.represents (hchecks.represents h hext) hext.removable
  have hinfo : appendedInfo env b on = info := by
    simpa [appendedStore] using hback.info_get
  obtain ⟨hblocks, hindex, hreceivables, hrewardables, hcount, hentries⟩ :=
    hafter.tables_eq h hext.erase_push
  have haccounts := accounts_restored h hchecks
  rw [hinfo] at haccounts
  unfold removedStore at hblocks hindex hreceivables hrewardables hcount hentries ⊢
  rw [haccounts]
  dsimp only at hblocks hindex hreceivables hrewardables hcount hentries
  rw [hblocks, hindex, hreceivables, hrewardables, hcount, hentries]
  rfl

-- Where the heads come back, so do the weights.
theorem weights_restored {l' : Ledger} {info : AccountInfo} {previous : Option Block}
    (hafter : Represents l'.store A) (hback : RollbackChecks env l'.store b info previous)
    (hsame : ∀ g, (removedStore env l'.store b info previous).sumHeads g = l.store.sumHeads g)
    (hshown : WeightsShown l) (hfits : WeightsFit l) (hshown' : WeightsShown l') :
    (l'.removed env b info previous).repWeights = l.repWeights := by
  have hweight : (l'.removed env b info previous).store.weight = l.store.weight :=
    funext fun r => hsame (·.weight r)
  have htotal : (l'.removed env b info previous).store.totalWeight = l.store.totalWeight :=
    hsame Block.totalWeight
  have hback' := rollback_weights hafter hback hshown' (htotal.trans_lt hfits)
  unfold WeightsShown at hback'
  rw [hweight, htotal] at hback'
  exact hback'.unique hshown

-- Every block that was appended can be rolled back at once, and that gives back all tables but
-- the one of the rollbacks. The weights come back too, as long as they fit into 128 bits.
theorem rollback_append (hcf : CollisionFree env blocks) (h : Reachable env blocks l)
    (hb : b ∈ blocks) {fails : StoreCall → Bool} {t : Transaction}
    (hrun : appendBlock_ env now b (.begin_ l fails) = .ok () t) :
    ∃ t', rollbackBlock_ env b (.begin_ t.commit StoreCall.never) = .ok () t' ∧
      t'.commit.store = { l.store with rollbacks := l.store.rollbacks.put (env.hash b) b } ∧
      (ReachableWithin env blocks WeightsFit l → WeightsFit t.commit →
        t'.commit.repWeights = l.repWeights) := by
  obtain ⟨A, hA⟩ := h.tracks hcf
  obtain ⟨on, hchecks, rfl⟩ := appendBlock_ok hrun
  have hext := hchecks.extends hA.represents (hcf.ne_zero b hb) (hcf.ne_genesis_link b hb)
    (hcf.height_ne b hb)
  have hafter : Represents (l.appended env b on).store (A.push b hext) := by
    rw [Ledger.appended_store]
    exact hchecks.represents hA.represents hext
  rw [appended_commit]
  obtain ⟨info, previous, hback, hok⟩ := rollbackBlock_of_removable
    (t := .begin_ (l.appended env b on) StoreCall.never) hafter hext.removable rfl
  rw [Transaction.begin_store] at hback
  have hstore : removedStore env (l.appended env b on).store b info previous =
      { l.store with rollbacks := l.store.rollbacks.put (env.hash b) b } := by
    rw [Ledger.appended_store] at hback ⊢
    exact store_restored hA.represents hext hchecks hback
  refine ⟨_, hok, ?_, fun hwithin hfits => ?_⟩ <;> rw [removed_commit]
  · exact hstore
  · have hshown := append_weights hA.represents hext hchecks (hwithin.weights hcf) hfits
    refine weights_restored hafter hback (fun g => ?_) (hwithin.weights hcf) hwithin.within hshown
    rw [hstore]
    rfl

theorem rollback_append_sample : ∃ t t',
    appendBlock_ sampleEnv sampleNow sampleSend
      (.begin_ (genesisLedger sampleEnv true true) StoreCall.never) = .ok () t ∧
    rollbackBlock_ sampleEnv sampleSend (.begin_ t.commit StoreCall.never) = .ok () t' ∧
    t'.commit.repWeights = (genesisLedger sampleEnv true true).repWeights := by
  have hrun : (replay sampleEnv (fun l => l.store.totalWeight < 2 ^ 128)
      (genesisLedger sampleEnv true true) [.append sampleNow sampleSend]).isSome := by
    decide +kernel
  obtain ⟨l, hl⟩ := Option.isSome_iff_exists.mp hrun
  obtain ⟨t, hok, rfl, htest⟩ := replay_one hl
  obtain ⟨t', hback, -, hweights⟩ := rollback_append sample_collisionFree
    (Reachable.genesis true true) sampleSend_mem hok
  refine ⟨t, t', hok, hback, hweights (.genesis true true ?_) (by simpa [WeightsFit] using htest)⟩
  unfold WeightsFit
  decide +kernel

-- Where the weights have wrapped, a rollback does not give them back.
theorem overflow_not_restored : CollisionFree sampleEnv {b | b ∈ overflowBlocks} ∧
    Reachable sampleEnv {b | b ∈ overflowBlocks} overflowLedger ∧ ∃ t t',
      appendBlock_ sampleEnv overflowTime4 overflowLast (.begin_ overflowLedger StoreCall.never) =
        .ok () t ∧
      rollbackBlock_ sampleEnv overflowLast (.begin_ t.commit StoreCall.never) = .ok () t' ∧
      t'.commit.repWeights ≠ overflowLedger.repWeights := by
  have hrun : (replay sampleEnv (fun _ => true) overflowLedger
      [.append overflowTime4 overflowLast]).any fun l =>
        (replay sampleEnv (fun l => l.repWeights ≠ overflowLedger.repWeights) l
          [.rollback overflowLast]).isSome := by
    decide +kernel
  obtain ⟨l, hl, hback⟩ := Option.any_eq_true _ _ |>.mp hrun
  obtain ⟨l', hl'⟩ := Option.isSome_iff_exists.mp hback
  obtain ⟨t, hok, rfl, -⟩ := replay_one hl
  obtain ⟨t', hok', rfl, hne⟩ := replay_one hl'
  exact ⟨overflow_collisionFree, overflowLedger_reachable, t, t', hok, hok', by simpa using hne⟩

end Raicoin
