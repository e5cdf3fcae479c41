import Raicoin.Refinement.Represents

-- `AppendBlock_` pushes a block on the lattice that the store shows, and
-- `RollbackBlock_` pops one.
namespace Raicoin

open Lib

variable {env : Env} {A : Lattice env} {s : Store} {b : Block}

section Append

variable {now : Nat} {on : Position}

-- What the position of an append is in the lattice.
theorem AppendChecks.position (hchecks : AppendChecks env now s b on) (h : Represents s A) :
    match on with
    | none => (∀ c ∈ A.blocks, c.account ≠ b.account) ∧ Opens b
    | some (info, p) => Describes env A.blocks b.account info ∧ p ∈ A.blocks ∧
        Succeeds env p b ∧ b.type = info.type ∧ b.height = info.headHeight + 1 ∧
        ∀ c ∈ A.blocks, ¬Follows p c := by
  have hplaced := hchecks.placed
  cases on with
  | none =>
      obtain ⟨hinfo, hopens⟩ := hplaced
      rw [h.accountInfo_eq] at hinfo
      exact ⟨h.no_block hinfo, hopens⟩
  | some place =>
      obtain ⟨info, p⟩ := place
      obtain ⟨hhead, hrule⟩ := hplaced
      obtain ⟨q, hq, haccount, hheight, hhash, htype, htop, hget⟩ := h.head hhead.info_get
      obtain rfl := Option.some.inj (hget.symm.trans hhead.head_get)
      have hfollows : Follows q b := ⟨haccount.symm, by rw [hhead.height, hheight]⟩
      have hsame : b.type = q.type := hhead.type.trans htype.symm
      refine ⟨h.accounts.describes _ _ hhead.info_get, hq, ⟨hfollows, hsame, ?_, hhead.timestamp,
        hrule.credit, hrule.counter, fun hop => ?_, hrule.balance⟩, hhead.type, hhead.height, htop⟩
      · rw [hhead.previous, hhash]
      · by_cases hrep : b.hasRepresentative = true
        · exact (hrule.representative hop hrep).symm
        · have hrepBlock : b.type = .repBlock := by
            simpa [b.hasRepresentative_iff] using hrep
          rw [(Block.representative_of_repBlock hrepBlock).2,
            (Block.representative_of_repBlock (hsame ▸ hrepBlock)).2]

theorem AppendChecks.before (hchecks : AppendChecks env now s b on) (h : Represents s A) :
    Before A.blocks on.head b := by
  have hposition := hchecks.position h
  cases on with
  | none => exact hposition.2.height
  | some place => exact ⟨hposition.2.1, hposition.2.2.1.follows⟩

theorem AppendChecks.gains (hchecks : AppendChecks env now s b on) (h : Represents s A)
    {amount : Amount} (hearned : earned env on.head b = amount.toNat) :
    Gains env A.blocks b amount :=
  ⟨on.head, hchecks.before h, hearned⟩

theorem AppendChecks.extends (hchecks : AppendChecks env now s b on) (h : Represents s A)
    (hzero : env.hash b ≠ 0) (hlink : env.hash b ≠ (genesisBlock env.network).link)
    (hheight : b.height ≠ INVALID_HEIGHT) : A.Extends b where
  vacant := by
    intro c hc haccount hheight
    have hposition := hchecks.position h
    cases on with
    | none => exact hposition.1 c hc haccount
    | some place =>
        obtain ⟨-, -, hs, -, -, htop⟩ := hposition
        exact htop c hc ⟨haccount.trans hs.follows.1, hheight.trans hs.follows.2⟩
  fresh := by
    intro c hc hhash
    obtain ⟨_, -, hget⟩ := h.blocks.get hc
    rw [hhash, hchecks.fresh] at hget
    cases hget
  hash_ne_zero := hzero
  hash_ne_link := hlink
  height_ne := hheight
  legal := hchecks.legal
  epoch_le := hchecks.epoch_le
  opens := by
    intro hz
    have hposition := hchecks.position h
    cases on with
    | none => exact hposition.2
    | some place =>
        have hheight := hposition.2.2.1.follows.2
        omega
  linked := by
    intro hz
    have hposition := hchecks.position h
    cases on with
    | none => exact absurd hposition.2.height hz
    | some place => exact ⟨place.2, hposition.2.1, hposition.2.2.1⟩
  received := by
    intro hop
    obtain ⟨info, source, hinfo, hsource, htime, hearned⟩ := hchecks.receive hop
    obtain ⟨⟨x, hx⟩, -⟩ := (h.receivables _ _).mp hinfo
    obtain ⟨hmem, hhash⟩ := h.mem_of_get hsource
    have hxs : x = source := A.hash_inj x hx.1 source hmem
      ((Prod.ext_iff.mp hx.2.2.1).2.symm.trans hhash.symm)
    refine ⟨info, ⟨x, hx⟩, ?_, hchecks.gains h hearned⟩
    obtain ⟨-, -, -, p, -, -, rfl⟩ := hx
    exact hxs ▸ htime
  rewarded := by
    intro hop
    obtain ⟨info, source, hinfo, -, -, hvalid, hearned⟩ := hchecks.reward hop
    obtain ⟨hyields, -⟩ := (h.rewardables _ _).mp hinfo
    exact ⟨info, hyields, hvalid, hchecks.gains h hearned⟩
  not_taken := by
    rintro (hop | hop) <;> rw [hop]
    · obtain ⟨info, _, hinfo, -⟩ := hchecks.receive hop
      exact ((h.receivables _ _).mp hinfo).2
    · obtain ⟨info, _, hinfo, -⟩ := hchecks.reward hop
      exact ((h.rewardables _ _).mp hinfo).2

-- A successful append is a push.
theorem AppendChecks.represents (hchecks : AppendChecks env now s b on) (h : Represents s A)
    (hext : A.Extends b) : Represents (appendedStore env s b on) (A.push b hext) where
  accounts := by
    refine showsAccounts_append h.accounts (describes_appended hext ?_)
    have hposition := hchecks.position h
    cases on with
    | none => exact hposition.2.height
    | some place =>
        obtain ⟨hdescribes, hp, hs, htype, hheight, -⟩ := hposition
        exact ⟨hdescribes, hp, hs.follows, htype, hheight⟩
  blocks := showsBlocks_append hext (hchecks.before h) h.blocks
  blocksIndex := showsIndex_append hext h.blocksIndex
  receivables := showsReceivables_append hext (hchecks.before h) h.receivables
  rewardables := showsRewardables_append hext (hchecks.before h) h.rewardables
  bindingCount := showsBindingCount_append hext h.bindingCount
  bindingEntries := showsBindings_append hext h.bindingEntries

end Append

section Rollback

variable {info : AccountInfo} {previous : Option Block}

theorem CheckPassed.mem (hpassed : CheckPassed env s b info previous) (h : Represents s A) :
    b ∈ A.blocks := (h.mem_of_get hpassed.head_get).1

theorem CheckPassed.top (hpassed : CheckPassed env s b info previous) (h : Represents s A) :
    ∀ c ∈ A.blocks, ¬Follows b c := by
  obtain ⟨c, hc, haccount, hheight, -, -, htop, -⟩ := h.head hpassed.info_get
  obtain rfl := A.unique c hc b (hpassed.mem h) haccount (hheight.trans hpassed.height.symm)
  exact htop

theorem CheckPassed.before (hpassed : CheckPassed env s b info previous) (h : Represents s A) :
    Before A.blocks previous b := by
  have hstanding := hpassed.standing
  cases previous with
  | none => exact hstanding
  | some p =>
      obtain ⟨hz, hp, -⟩ := hstanding
      obtain ⟨hmem, hhash⟩ := h.mem_of_get hp
      obtain ⟨q, hq, hs⟩ := A.linked b (hpassed.mem h) hz
      obtain rfl := A.hash_inj p hmem q hq (hhash.trans hs.previous)
      exact ⟨hmem, hs.follows⟩

theorem RollbackChecks.removable (hchecks : RollbackChecks env s b info previous)
    (h : Represents s A) : A.Removable b where
  mem := hchecks.mem h
  ne_genesis := by
    rintro rfl
    obtain ⟨-, hop, -⟩ := genesisBlock_checked env.network
    obtain ⟨source, hsource⟩ := Option.isSome_iff_exists.mp (hchecks.receive hop)
    obtain ⟨hmem, hhash⟩ := h.mem_of_get hsource
    exact A.hash_ne_link source hmem hhash
  top := hchecks.top h
  unreceived := by
    intro hop
    obtain ⟨receivable, hget⟩ := Option.isSome_iff_exists.mp (hchecks.send hop)
    exact ((h.receivables _ _).mp hget).2
  unrewarded := by
    rintro p hp hf ⟨r, hr, hop, hlink⟩
    obtain rfl := A.before_unique (o := some p) ⟨hp, hf⟩ (hchecks.before h)
    obtain ⟨info, ⟨x, hx, hrep, hkey, c, hc, hxc, hne, -⟩, -⟩ := A.rewarded r hr hop
    obtain rfl := A.hash_inj x hx p hp ((Prod.ext_iff.mp hkey).2.symm.trans hlink)
    obtain rfl := A.follower_unique hc (hchecks.mem h) hxc hf
    have hended : endedReward env c x = some (x.representative, env.hash x) := by
      rw [endedReward, if_pos]
      exact ⟨by rwa [Block.hasRepresentative_of_type (A.succeeds hp hc hf).type], hne⟩
    obtain ⟨reward, hget⟩ := Option.isSome_iff_exists.mp (hchecks.standing.2.2 _ hended)
    exact ((h.rewardables _ _).mp hget).2 ⟨r, hr, hop, hlink⟩

-- A successful rollback is a pop.
theorem RollbackChecks.represents (hchecks : RollbackChecks env s b info previous)
    (h : Represents s A) (hrem : A.Removable b) :
    Represents (removedStore env s b info previous) (A.pop b hrem) := by
  have hext := hrem.extends
  have hbefore := hrem.before (hchecks.before h)
  have hall := hrem.insert_pop
  obtain ⟨haccounts, hblocks, hindex, hreceivables, hrewardables, hcount, hentries⟩ := h
  rw [← hall] at haccounts hblocks hindex hreceivables hrewardables hcount hentries
  exact ⟨showsAccounts_remove hext hbefore haccounts hchecks.info_get,
    showsBlocks_remove hext hbefore hblocks, showsIndex_remove hext hindex,
    showsReceivables_remove hext hbefore hblocks hreceivables,
    showsRewardables_remove hext hbefore hblocks hrewardables,
    showsBindingCount_remove hext hcount, showsBindings_remove hext hentries⟩

end Rollback

section Ready

variable {t : Transaction}

-- The checks of a rollback before those of an opcode.
theorem checkPassed_of_top (h : Represents s A) (hb : b ∈ A.blocks)
    (htop : ∀ c ∈ A.blocks, ¬Follows b c)
    (hreward : ∀ p ∈ A.blocks, Follows p b → ¬Taken A.blocks .reward (env.hash p)) :
    ∃ info previous, CheckPassed env s b info previous ∧ Before A.blocks previous b := by
  obtain ⟨info, hinfo⟩ := Option.isSome_iff_exists.mp (h.accounts.opened b hb)
  obtain ⟨c, hc, haccount, hheight, hhash, -, hctop, hget⟩ := h.head hinfo
  obtain rfl := A.top_unique hb hc haccount.symm htop hctop
  obtain ⟨previous, hbefore⟩ := A.before_exists hb
  have htail := (h.accounts.describes _ _ hinfo).tailHeight
  refine ⟨info, previous, ⟨hinfo, h.valid hinfo, by omega, by omega, hheight, hhash, hget, ?_⟩,
    hbefore⟩
  cases previous with
  | none => exact hbefore
  | some p =>
      obtain ⟨hp, hf⟩ := hbefore
      have hs := A.succeeds hp hb hf
      refine ⟨by have := hf.2; omega, hs.previous ▸ h.blockGet hp, fun key hkey => ?_⟩
      rw [endedReward_eq hs, Option.map_eq_some_iff] at hkey
      obtain ⟨⟨key', reward⟩, hy, rfl⟩ := hkey
      obtain ⟨hrep, rfl, hne, rfl⟩ := yieldedReward_eq_some.mp hy
      exact Option.isSome_iff_exists.mpr ⟨_, (h.rewardables _ _).mpr
        ⟨⟨p, hp, hrep, rfl, b, hb, hf, hne, rfl⟩, hreward p hp hf⟩⟩

-- A block that may leave the lattice passes all checks of a rollback.
theorem rollbackChecks_of_removable (h : Represents s A) (hrem : A.Removable b) :
    ∃ info previous, RollbackChecks env s b info previous := by
  obtain ⟨info, previous, hpassed, -⟩ := checkPassed_of_top h hrem.mem hrem.top hrem.unrewarded
  refine ⟨info, previous, hpassed, A.legal b hrem.mem, fun hop => ?_, fun hop => ?_,
    fun hop => ?_, fun hop => ?_⟩
  · obtain ⟨p, hp, hs⟩ := A.linked b hrem.mem
      (fun hz => by simpa [hop] using (A.opens b hrem.mem hz).opcode)
    exact Option.isSome_iff_exists.mpr ⟨_, (h.receivables _ _).mpr
      ⟨⟨b, hrem.mem, hop, rfl, p, hp, hs.follows, rfl⟩, hrem.unreceived hop⟩⟩
  · obtain ⟨receivable, ⟨source, hsource, -, hkey, -⟩, -⟩ :=
      A.received b hrem.mem hop hrem.ne_genesis
    rw [show b.link = env.hash source from (Prod.ext_iff.mp hkey).2, h.blockGet hsource]
    rfl
  · obtain ⟨reward, ⟨x, hx, -, hkey, c, hc, hf, -⟩, -⟩ := A.rewarded b hrem.mem hop
    obtain ⟨hash, hs, hget⟩ := h.blocks.get hx
    refine ⟨⟨x, hash⟩, ?_⟩
    rcases hs with ⟨d, hd, -, rfl⟩ | ⟨hno, -⟩
    · exact ⟨d, by rw [show b.link = env.hash x from (Prod.ext_iff.mp hkey).2]; exact hget,
        h.blockGet hd⟩
    · exact absurd hf (hno c hc)
  · have hcount : bindings A.blocks b.account ≠ 0 :=
      Finset.card_ne_zero_of_mem (Finset.mem_filter.mpr ⟨hrem.mem, rfl, hop⟩)
    refine ⟨Option.isSome_iff_exists.mpr
      ⟨_, (h.bindingEntries _ _).mpr ⟨b, hrem.mem, hop, rfl, rfl⟩⟩, _, ?_, hcount⟩
    rw [h.bindingCount b.account, if_neg hcount]

-- Every block that may leave the lattice can be rolled back.
theorem rollbackBlock_of_removable (h : Represents t.store A) (hrem : A.Removable b)
    (hnever : t.fails = StoreCall.never) :
    ∃ info previous, RollbackChecks env t.store b info previous ∧
      rollbackBlock_ env b t = .ok () (removed env t b info previous) := by
  obtain ⟨info, previous, hchecks⟩ := rollbackChecks_of_removable h hrem
  refine ⟨info, previous, hchecks, rollbackBlock_never ⟨hchecks, hnever, fun hstride => ?_, ?_⟩⟩
  · exact Option.isSome_iff_exists.mpr
      ⟨_, (h.blocksIndex _ _ _).mpr ⟨hstride, b, hrem.mem, rfl, rfl, rfl⟩⟩
  · intro hself
    by_cases hz : b.height = 0
    · exact A.hash_ne_zero b hrem.mem (hself.symm.trans (A.opens b hrem.mem hz).previous)
    · obtain ⟨p, hp, hs⟩ := A.linked b hrem.mem hz
      obtain rfl := A.hash_inj p hp b hrem.mem (hs.previous.symm.trans hself)
      exact hs.follows.irrefl _

end Ready

end Raicoin
