import Raicoin.Refinement.Tables

namespace Raicoin

open Lib

section Shows

variable (env : Env) (blocks : Finset Block)

-- What the info of an account says of its chain; the fork count says nothing.
structure Describes (account : Account) (info : AccountInfo) : Prop where
  head : ∃ b ∈ blocks, b.account = account ∧ b.height = info.headHeight ∧
    env.hash b = info.head ∧ b.type = info.type ∧ ∀ c ∈ blocks, ¬Follows b c
  tail : ∃ b ∈ blocks, b.account = account ∧ b.height = 0 ∧ env.hash b = info.tail
  tailHeight : info.tailHeight = 0
  confirmedHeight : info.confirmedHeight = INVALID_HEIGHT ∨ info.confirmedHeight ≤ info.headHeight

structure ShowsAccounts (t : Table Account AccountInfo) : Prop where
  opened : ∀ b ∈ blocks, (t.get b.account).isSome
  describes : ∀ account info, t.get account = some info → Describes env blocks account info

end Shows

-- The store is the lattice, table by table. The rollbacks table is a mere record.
structure Represents {env : Env} (s : Store) (A : Lattice env) : Prop where
  accounts : ShowsAccounts env A.blocks s.accounts
  blocks : ShowsBlocks env A.blocks s.blocks
  blocksIndex : ShowsIndex env A.blocks s.blocksIndex
  receivables : ShowsReceivables env A.blocks s.receivables
  rewardables : ShowsRewardables env A.blocks s.rewardables
  bindingCount : ShowsBindingCount A.blocks s.bindingCount
  bindingEntries : ShowsBindings A.blocks s.bindingEntries

variable {env : Env} {A : Lattice env} {s : Store} {b : Block} {info : AccountInfo}

namespace Represents

theorem mem_of_get (h : Represents s A) {hash : BlockHash} {block : Block}
    (hget : s.blockGet hash = some block) : block ∈ A.blocks ∧ env.hash block = hash := by
  rw [Store.blockGet, Option.map_eq_some_iff] at hget
  obtain ⟨stored, hstored, rfl⟩ := hget
  obtain ⟨hmem, hhash, -⟩ := (h.blocks hash stored).mp hstored
  exact ⟨hmem, hhash⟩

theorem blockGet (h : Represents s A) {block : Block} (hb : block ∈ A.blocks) :
    s.blockGet (env.hash block) = some block :=
  h.blocks.blockGet hb

theorem blockSet (h : Represents s A) : s.blockSet = A.blocks := by
  ext block
  rw [Store.mem_blockSet]
  exact ⟨fun ⟨_, hget⟩ => (h.mem_of_get hget).1, fun hb => ⟨_, h.blockGet hb⟩⟩

-- The head of an account, and its info, which is always valid.
theorem head (h : Represents s A) {account : Account} (hinfo : s.accounts.get account = some info) :
    ∃ b ∈ A.blocks, b.account = account ∧ b.height = info.headHeight ∧
      env.hash b = info.head ∧ b.type = info.type ∧ (∀ c ∈ A.blocks, ¬Follows b c) ∧
      s.blockGet info.head = some b := by
  obtain ⟨b, hb, haccount, hheight, hhash, htype, htop⟩ := (h.accounts.describes _ _ hinfo).head
  exact ⟨b, hb, haccount, hheight, hhash, htype, htop, hhash ▸ h.blockGet hb⟩

theorem valid (h : Represents s A) {account : Account}
    (hinfo : s.accounts.get account = some info) : info.valid = true := by
  obtain ⟨b, hb, -, hheight, hhash, -⟩ := (h.accounts.describes _ _ hinfo).head
  obtain ⟨c, hc, -, -, hchash⟩ := (h.accounts.describes _ _ hinfo).tail
  have htail := (h.accounts.describes _ _ hinfo).tailHeight
  have hne := A.height_ne b hb
  have hzero : (0 : Nat) ≠ INVALID_HEIGHT := by decide
  have hhead := hhash ▸ A.hash_ne_zero b hb
  have hfirst := hchash ▸ A.hash_ne_zero c hc
  simp only [AccountInfo.valid, htail, Bool.and_eq_true, Bool.not_eq_true', Bool.or_eq_false_iff,
    decide_eq_false_iff_not]
  exact ⟨⟨by omega, hzero⟩, hhead, hfirst⟩

theorem accountInfo_eq (h : Represents s A) :
    AppendBlockVisitor.accountInfo s b = s.accounts.get b.account := by
  unfold AppendBlockVisitor.accountInfo Store.accountInfoGet
  cases hget : s.accounts.get b.account with
  | none => rfl
  | some info => simp [Option.filter, h.valid hget]

theorem no_block (h : Represents s A) (hnone : s.accounts.get b.account = none) :
    ∀ c ∈ A.blocks, c.account ≠ b.account := by
  intro c hc haccount
  have hsome := h.accounts.opened c hc
  simp [haccount, hnone] at hsome

-- The blocks decide every table but the infos of the accounts.
theorem tables_eq (h : Represents s A) {s' : Store} {A' : Lattice env} (h' : Represents s' A')
    (hblocks : A.blocks = A'.blocks) :
    s.blocks = s'.blocks ∧ s.blocksIndex = s'.blocksIndex ∧ s.receivables = s'.receivables ∧
      s.rewardables = s'.rewardables ∧ s.bindingCount = s'.bindingCount ∧
      s.bindingEntries = s'.bindingEntries := by
  obtain ⟨-, hb, hindex, hreceivables, hrewardables, hcount, hentries⟩ := h
  obtain ⟨-, hb', hindex', hreceivables', hrewardables', hcount', hentries'⟩ := h'
  rw [hblocks] at hb hindex hreceivables hrewardables hcount hentries
  refine ⟨Table.ext_some fun k v => (hb k v).trans (hb' k v).symm,
    Table.ext_some fun k v => (hindex k.1 k.2 v).trans (hindex' k.1 k.2 v).symm,
    Table.ext_some fun k v => (hreceivables k v).trans (hreceivables' k v).symm,
    Table.ext_some fun k v => (hrewardables k v).trans (hrewardables' k v).symm,
    Table.ext fun k => (hcount k).trans (hcount' k).symm,
    Table.ext_some fun k v => (hentries k v).trans (hentries' k v).symm⟩

end Represents

section Accounts

variable {t : Table Account AccountInfo} {o : Option Block}

theorem describes_insert {account : Account} (hne : account ≠ b.account) :
    Describes env (insert b A.blocks) account info ↔ Describes env A.blocks account info := by
  have hmem {c : Block} (hc : c ∈ insert b A.blocks) (haccount : c.account = account) :
      c ∈ A.blocks := by
    rcases Finset.mem_insert.mp hc with rfl | hc
    · exact absurd haccount.symm hne
    · exact hc
  constructor
  · rintro ⟨⟨c, hc, haccount, hheight, hhash, htype, htop⟩, ⟨d, hd, hda, hrest⟩, htail, hconf⟩
    exact ⟨⟨c, hmem hc haccount, haccount, hheight, hhash, htype,
      fun x hx => htop x (Finset.mem_insert_of_mem hx)⟩, ⟨d, hmem hd hda, hda, hrest⟩, htail, hconf⟩
  · rintro ⟨⟨c, hc, haccount, hheight, hhash, htype, htop⟩, ⟨d, hd, hrest⟩, htail, hconf⟩
    refine ⟨⟨c, Finset.mem_insert_of_mem hc, haccount, hheight, hhash, htype, ?_⟩,
      ⟨d, Finset.mem_insert_of_mem hd, hrest⟩, htail, hconf⟩
    refine Finset.forall_mem_insert _ _ _ |>.mpr ⟨fun hf => ?_, htop⟩
    exact hne (haccount.symm.trans hf.1.symm)

-- The info of the account after an append.
theorem describes_appended (h : A.Extends b) {on : Position}
    (hon : match on with
      | none => b.height = 0
      | some (info, p) => Describes env A.blocks b.account info ∧ p ∈ A.blocks ∧
          Follows p b ∧ b.type = info.type ∧ b.height = info.headHeight + 1) :
    Describes env (insert b A.blocks) b.account (appendedInfo env b on) := by
  have htop : ∀ c ∈ insert b A.blocks, ¬Follows b c :=
    Finset.forall_mem_insert _ _ _ |>.mpr ⟨Follows.irrefl b, h.top⟩
  cases on with
  | none =>
      exact ⟨⟨b, Finset.mem_insert_self _ _, rfl, hon, rfl, rfl, htop⟩,
        ⟨b, Finset.mem_insert_self _ _, rfl, hon, rfl⟩, rfl, .inl rfl⟩
  | some place =>
      obtain ⟨info, p⟩ := place
      obtain ⟨⟨-, ⟨d, hd, htail⟩, hzero, hconf⟩, hp, hf, htype, hheight⟩ := hon
      refine ⟨⟨b, Finset.mem_insert_self _ _, rfl, rfl, rfl, htype, htop⟩,
        ⟨d, Finset.mem_insert_of_mem hd, htail⟩, hzero, ?_⟩
      simp only [appendedInfo]
      omega

theorem showsAccounts_append (ht : ShowsAccounts env A.blocks t) {new : AccountInfo}
    (hnew : Describes env (insert b A.blocks) b.account new) :
    ShowsAccounts env (insert b A.blocks) (t.put b.account new) where
  opened := by
    intro c hc
    rw [Table.get_put]
    split
    · rfl
    · rename_i hne
      rcases Finset.mem_insert.mp hc with rfl | hc
      · exact absurd rfl hne
      · exact ht.opened c hc
  describes := by
    intro account info hget
    rw [Table.get_put] at hget
    split at hget
    · rename_i he
      cases hget
      exact he ▸ hnew
    · rename_i hne
      exact (describes_insert hne).mpr (ht.describes account info hget)

theorem showsAccounts_remove (h : A.Extends b) (ho : Before A.blocks o b)
    (ht : ShowsAccounts env (insert b A.blocks) t) (hinfo : t.get b.account = some info) :
    ShowsAccounts env A.blocks (if b.height = 0 then t.del b.account
      else t.put b.account (RollbackBlockVisitor.shortened b info)) := by
  have hother {account : Account} {info : AccountInfo} (hne : account ≠ b.account)
      (hget : t.get account = some info) : Describes env A.blocks account info :=
    (describes_insert hne).mp (ht.describes account info hget)
  cases o with
  | none =>
      have hz : b.height = 0 := ho
      rw [if_pos hz]
      constructor
      · intro c hc
        have hne : c.account ≠ b.account := by
          intro haccount
          obtain ⟨d, hd, hda, hdh⟩ := A.below hc (Nat.zero_le _)
          exact h.vacant d hd (hda.trans haccount) (hdh.trans hz.symm)
        simpa [hne] using ht.opened c (Finset.mem_insert_of_mem hc)
      · intro account info hget
        rw [Table.get_del] at hget
        split at hget
        · cases hget
        · rename_i hne
          exact hother hne hget
  | some p =>
      obtain ⟨hp, hs, htop⟩ := h.before ho
      obtain ⟨haccount, hheight⟩ := hs.follows
      rw [if_neg (by omega)]
      have hnew : Describes env A.blocks b.account (RollbackBlockVisitor.shortened b info) := by
        obtain ⟨⟨c, hc, hca, hch, -, htype, hctop⟩, ⟨d, hd, hda, hdh, hdhash⟩, hzero, hconf⟩ :=
          ht.describes _ _ hinfo
        have hcb : c = b := (A.push b h).top_unique hc (Finset.mem_insert_self _ _) hca hctop
          (Finset.forall_mem_insert _ _ _ |>.mpr ⟨Follows.irrefl b, h.top⟩)
        subst hcb
        refine ⟨⟨p, hp, haccount.symm, ?_, ?_, ?_, htop⟩, ⟨d, ?_, hda, hdh, hdhash⟩, hzero, ?_⟩
        · simp only [RollbackBlockVisitor.shortened]
          omega
        · exact hs.previous.symm
        · exact hs.type.symm.trans htype
        · rcases Finset.mem_insert.mp hd with rfl | hd
          · omega
          · exact hd
        · simp only [RollbackBlockVisitor.shortened]
          split <;> omega
      constructor
      · intro c hc
        rw [Table.get_put]
        split
        · rfl
        · exact ht.opened c (Finset.mem_insert_of_mem hc)
      · intro account info' hget
        rw [Table.get_put] at hget
        split at hget
        · rename_i he
          cases hget
          exact he ▸ hnew
        · rename_i hne
          exact hother hne hget

end Accounts

end Raicoin
