import Raicoin.Lattice.Change
import Raicoin.Node.BlockProcessor.AppendSpec
import Raicoin.Node.BlockProcessor.RollbackSpec

-- How each table shows a lattice, and that it goes on to do so when a block is
-- appended or removed.
namespace Raicoin

open Lib

section Shows

variable (env : Env) (blocks : Finset Block)

def SuccessorHash (b : Block) (hash : BlockHash) : Prop :=
  (∃ c ∈ blocks, Follows b c ∧ env.hash c = hash) ∨ (∀ c ∈ blocks, ¬Follows b c) ∧ hash = 0

def ShowsBlocks (t : Table BlockHash StoredBlock) : Prop := ∀ hash stored,
  t.get hash = some stored ↔ stored.block ∈ blocks ∧ env.hash stored.block = hash ∧
    SuccessorHash env blocks stored.block stored.successor

def ShowsIndex (t : Table (Account × Nat) BlockHash) : Prop := ∀ account height hash,
  t.get (account, height) = some hash ↔ height % BLOCKS_PER_INDEX = 0 ∧
    ∃ b ∈ blocks, b.account = account ∧ b.height = height ∧ env.hash b = hash

def ShowsReceivables (t : Table (Account × BlockHash) ReceivableInfo) : Prop := ∀ key info,
  t.get key = some info ↔ (∃ s, Sends env blocks s key info) ∧ ¬Taken blocks .receive key.2

def ShowsRewardables (t : Table (Account × BlockHash) RewardableInfo) : Prop := ∀ key info,
  t.get key = some info ↔ (∃ b, Yields env blocks b key info) ∧ ¬Taken blocks .reward key.2

def ShowsBindings (t : Table BindingKey SignerAddress) : Prop := ∀ key signer,
  t.get key = some signer ↔
    ∃ b ∈ blocks, b.opcode = .bind ∧ RollbackBlockVisitor.bindingKey b = key ∧ b.link = signer

def bindings (account : Account) : Nat :=
  (blocks.filter fun b => b.account = account ∧ b.opcode = .bind).card

def ShowsBindingCount (t : Table Account Nat) : Prop := ∀ account,
  t.get account = if bindings blocks account = 0 then none else some (bindings blocks account)

end Shows

variable {env : Env} {A : Lattice env} {b : Block} {o : Option Block}

-- Only a block with something below it has a previous block.
theorem Lattice.Extends.before (h : A.Extends b) (ho : Before A.blocks o b) :
    match o with
    | none => b.height = 0
    | some p => p ∈ A.blocks ∧ Succeeds env p b ∧ ∀ c ∈ A.blocks, ¬Follows p c := by
  cases o with
  | none => exact ho
  | some p =>
      obtain ⟨hp, hf⟩ := ho
      obtain ⟨q, hq, hs⟩ := h.linked (by unfold Follows at hf; omega)
      obtain ⟨haccount, hheight⟩ := hf.unique_left hs.follows
      obtain rfl := A.unique p hp q hq haccount hheight
      refine ⟨hp, hs, fun c hc hpc => ?_⟩
      obtain ⟨hca, hch⟩ := hpc.unique_right hf
      exact h.vacant c hc hca hch

section Blocks

variable {t : Table BlockHash StoredBlock}

theorem successorHash_insert_self (h : A.Extends b) {hash : BlockHash} :
    SuccessorHash env (insert b A.blocks) b hash ↔ hash = 0 := by
  have hno : ∀ c ∈ insert b A.blocks, ¬Follows b c :=
    Finset.forall_mem_insert _ _ _ |>.mpr ⟨Follows.irrefl b, h.top⟩
  constructor
  · rintro (⟨c, hc, hf, -⟩ | ⟨-, hz⟩)
    · exact absurd hf (hno c hc)
    · exact hz
  · exact fun hz => .inr ⟨hno, hz⟩

theorem successorHash_insert_below {p : Block} {hash : BlockHash} (hf : Follows p b)
    (hp : ∀ c ∈ A.blocks, ¬Follows p c) :
    SuccessorHash env (insert b A.blocks) p hash ↔ hash = env.hash b := by
  constructor
  · rintro (⟨c, hc, hpc, rfl⟩ | ⟨hno, -⟩)
    · rcases Finset.mem_insert.mp hc with rfl | hc
      · rfl
      · exact absurd hpc (hp c hc)
    · exact absurd hf (hno b (Finset.mem_insert_self _ _))
  · rintro rfl
    exact .inl ⟨b, Finset.mem_insert_self _ _, hf, rfl⟩

theorem successorHash_insert {x : Block} {hash : BlockHash} (hf : ¬Follows x b) :
    SuccessorHash env (insert b A.blocks) x hash ↔ SuccessorHash env A.blocks x hash := by
  unfold SuccessorHash
  constructor
  · rintro (⟨c, hc, hxc, hhash⟩ | ⟨hno, hz⟩)
    · rcases Finset.mem_insert.mp hc with rfl | hc
      · exact absurd hxc hf
      · exact .inl ⟨c, hc, hxc, hhash⟩
    · exact .inr ⟨fun c hc => hno c (Finset.mem_insert_of_mem hc), hz⟩
  · rintro (⟨c, hc, hxc, hhash⟩ | ⟨hno, hz⟩)
    · exact .inl ⟨c, Finset.mem_insert_of_mem hc, hxc, hhash⟩
    · exact .inr ⟨Finset.forall_mem_insert _ _ _ |>.mpr ⟨hf, hno⟩, hz⟩

-- Away from the new block and the one below it, the blocks table is the same on both sides.
theorem stored_insert (ho : Before A.blocks o b) {hash : BlockHash}
    {stored : StoredBlock} (hb : hash ≠ env.hash b) (hp : ∀ p, o = some p → hash ≠ env.hash p) :
    (stored.block ∈ insert b A.blocks ∧ env.hash stored.block = hash ∧
      SuccessorHash env (insert b A.blocks) stored.block stored.successor) ↔
    (stored.block ∈ A.blocks ∧ env.hash stored.block = hash ∧
      SuccessorHash env A.blocks stored.block stored.successor) := by
  have hne : env.hash stored.block = hash → stored.block ≠ b := by
    rintro rfl he
    exact hb (he ▸ rfl)
  have hnot : stored.block ∈ A.blocks → env.hash stored.block = hash →
      ¬Follows stored.block b := by
    intro hmem hhash hf
    obtain rfl := A.before_unique (o := some stored.block) ⟨hmem, hf⟩ ho
    exact hp _ rfl hhash.symm
  constructor
  · rintro ⟨hmem, hhash, hs⟩
    have hmem := Finset.mem_of_mem_insert_of_ne hmem (hne hhash)
    exact ⟨hmem, hhash, (successorHash_insert (hnot hmem hhash)).mp hs⟩
  · rintro ⟨hmem, hhash, hs⟩
    exact ⟨Finset.mem_insert_of_mem hmem, hhash, (successorHash_insert (hnot hmem hhash)).mpr hs⟩

theorem stored_insert_self (h : A.Extends b) {stored : StoredBlock} :
    (stored.block ∈ insert b A.blocks ∧ env.hash stored.block = env.hash b ∧
      SuccessorHash env (insert b A.blocks) stored.block stored.successor) ↔
    stored = ⟨b, 0⟩ := by
  constructor
  · rintro ⟨hmem, hhash, hs⟩
    rcases Finset.mem_insert.mp hmem with he | hmem
    · rw [he, successorHash_insert_self h] at hs
      cases stored
      simp_all
    · exact absurd hhash (h.fresh _ hmem)
  · rintro rfl
    exact ⟨Finset.mem_insert_self _ _, rfl, (successorHash_insert_self h).mpr rfl⟩

theorem stored_insert_below (h : A.Extends b) {p : Block} (hp : p ∈ A.blocks) (hf : Follows p b)
    (htop : ∀ c ∈ A.blocks, ¬Follows p c) {stored : StoredBlock} :
    (stored.block ∈ insert b A.blocks ∧ env.hash stored.block = env.hash p ∧
      SuccessorHash env (insert b A.blocks) stored.block stored.successor) ↔
    stored = ⟨p, env.hash b⟩ := by
  constructor
  · rintro ⟨hmem, hhash, hs⟩
    have he : stored.block = p := by
      rcases Finset.mem_insert.mp hmem with he | hmem
      · exact absurd (he ▸ hhash).symm (h.fresh p hp)
      · exact A.hash_inj _ hmem p hp hhash
    rw [he, successorHash_insert_below hf htop] at hs
    cases stored
    simp_all
  · rintro rfl
    exact ⟨Finset.mem_insert_of_mem hp, rfl, (successorHash_insert_below hf htop).mpr rfl⟩

theorem stored_below {p : Block} (hp : p ∈ A.blocks) (htop : ∀ c ∈ A.blocks, ¬Follows p c)
    {stored : StoredBlock} :
    (stored.block ∈ A.blocks ∧ env.hash stored.block = env.hash p ∧
      SuccessorHash env A.blocks stored.block stored.successor) ↔ stored = ⟨p, 0⟩ := by
  constructor
  · rintro ⟨hmem, hhash, hs⟩
    have he := A.hash_inj _ hmem p hp hhash
    rcases hs with ⟨c, hc, hf, -⟩ | ⟨-, hz⟩
    · exact absurd (he ▸ hf) (htop c hc)
    · cases stored
      simp_all
  · rintro rfl
    exact ⟨hp, rfl, .inr ⟨htop, rfl⟩⟩

theorem successorHash_exists (blocks : Finset Block) (x : Block) :
    ∃ hash, SuccessorHash env blocks x hash := by
  by_cases hc : ∃ c ∈ blocks, Follows x c
  · obtain ⟨c, hc, hf⟩ := hc
    exact ⟨_, .inl ⟨c, hc, hf, rfl⟩⟩
  · exact ⟨0, .inr ⟨by simpa using hc, rfl⟩⟩

theorem ShowsBlocks.get {blocks : Finset Block} (ht : ShowsBlocks env blocks t) {x : Block}
    (hx : x ∈ blocks) : ∃ hash, SuccessorHash env blocks x hash ∧
      t.get (env.hash x) = some ⟨x, hash⟩ := by
  obtain ⟨hash, hs⟩ : ∃ hash, SuccessorHash env blocks x hash := successorHash_exists blocks x
  exact ⟨hash, hs, (ht _ _).mpr ⟨hx, rfl, hs⟩⟩

theorem ShowsBlocks.blockGet {blocks : Finset Block} {s : Store}
    (ht : ShowsBlocks env blocks s.blocks) {x : Block} (hx : x ∈ blocks) :
    s.blockGet (env.hash x) = some x := by
  obtain ⟨hash, -, hget⟩ := ht.get hx
  simp [Store.blockGet, hget]

theorem showsBlocks_append (h : A.Extends b) (ho : Before A.blocks o b)
    (ht : ShowsBlocks env A.blocks t) :
    ShowsBlocks env (insert b A.blocks) (appendedBlocks env t b o) := by
  intro hash stored
  by_cases hb : hash = env.hash b
  · subst hb
    rw [stored_insert_self h]
    cases o with
    | none => simp [appendedBlocks, eq_comm]
    | some p =>
        obtain ⟨hp, hs, -⟩ := h.before ho
        have hne : env.hash b ≠ b.previous := by
          rw [hs.previous]
          exact (h.fresh p hp).symm
        simp [appendedBlocks, hne, eq_comm]
  · cases o with
    | none =>
        rw [stored_insert ho hb (by simp), ← ht hash stored]
        simp [appendedBlocks, hb]
    | some p =>
        obtain ⟨hp, hs, htop⟩ := h.before ho
        by_cases hprev : hash = env.hash p
        · subst hprev
          rw [stored_insert_below h hp hs.follows htop]
          simp [appendedBlocks, hs.previous, eq_comm]
        · rw [stored_insert ho hb (by rintro q ⟨⟩; exact hprev), ← ht hash stored]
          simp [appendedBlocks, hs.previous, hb, hprev]

theorem showsBlocks_remove (h : A.Extends b) (ho : Before A.blocks o b)
    (ht : ShowsBlocks env (insert b A.blocks) t) :
    ShowsBlocks env A.blocks (removedBlocks env t b o) := by
  intro hash stored
  by_cases hb : hash = env.hash b
  · subst hb
    have hfalse : ¬(stored.block ∈ A.blocks ∧ env.hash stored.block = env.hash b ∧
        SuccessorHash env A.blocks stored.block stored.successor) :=
      fun ⟨hmem, hhash, _⟩ => h.fresh _ hmem hhash
    cases o with
    | none => simpa [removedBlocks] using hfalse
    | some p =>
        obtain ⟨hp, hs, -⟩ := h.before ho
        have hne : env.hash b ≠ b.previous := by
          rw [hs.previous]
          exact (h.fresh p hp).symm
        simpa [removedBlocks, hne] using hfalse
  · cases o with
    | none =>
        rw [← stored_insert ho hb (by simp), ← ht hash stored]
        simp [removedBlocks, hb]
    | some p =>
        obtain ⟨hp, hs, htop⟩ := h.before ho
        by_cases hprev : hash = env.hash p
        · subst hprev
          rw [stored_below hp htop]
          simp [removedBlocks, hs.previous, eq_comm]
        · rw [← stored_insert ho hb (by rintro q ⟨⟩; exact hprev), ← ht hash stored]
          simp [removedBlocks, hs.previous, hb, hprev]

end Blocks

section Index

variable {t : Table (Account × Nat) BlockHash}

-- A block is the only one at its place.
theorem at_place_insert (h : A.Extends b) {hash : BlockHash} :
    (∃ c ∈ insert b A.blocks, c.account = b.account ∧ c.height = b.height ∧ env.hash c = hash) ↔
      hash = env.hash b := by
  constructor
  · rintro ⟨c, hc, haccount, hheight, rfl⟩
    rcases Finset.mem_insert.mp hc with rfl | hc
    · rfl
    · exact absurd hheight (h.vacant c hc haccount)
  · rintro rfl
    exact ⟨b, Finset.mem_insert_self _ _, rfl, rfl, rfl⟩

theorem at_other_place_insert {account : Account} {height : Nat} {hash : BlockHash}
    (hne : (account, height) ≠ (b.account, b.height)) :
    (∃ c ∈ insert b A.blocks, c.account = account ∧ c.height = height ∧ env.hash c = hash) ↔
      ∃ c ∈ A.blocks, c.account = account ∧ c.height = height ∧ env.hash c = hash := by
  constructor
  · rintro ⟨c, hc, rfl, rfl, hhash⟩
    rcases Finset.mem_insert.mp hc with rfl | hc
    · exact absurd rfl hne
    · exact ⟨c, hc, rfl, rfl, hhash⟩
  · rintro ⟨c, hc, h⟩
    exact ⟨c, Finset.mem_insert_of_mem hc, h⟩

theorem showsIndex_append (h : A.Extends b) (ht : ShowsIndex env A.blocks t) :
    ShowsIndex env (insert b A.blocks) (appendedIndex env t b) := by
  intro account height hash
  unfold appendedIndex
  by_cases hplace : (account, height) = (b.account, b.height)
  · obtain ⟨rfl, rfl⟩ := Prod.mk.inj hplace
    rw [at_place_insert h]
    split <;> rename_i hstride
    · simp [hstride, eq_comm]
    · simp [ht b.account b.height hash, hstride]
  · rw [at_other_place_insert hplace, ← ht account height hash]
    split
    · rw [Table.get_put, if_neg hplace]
    · rfl

theorem showsIndex_remove (h : A.Extends b) (ht : ShowsIndex env (insert b A.blocks) t) :
    ShowsIndex env A.blocks (if b.height % BLOCKS_PER_INDEX = 0 then
      t.del (b.account, b.height) else t) := by
  intro account height hash
  by_cases hplace : (account, height) = (b.account, b.height)
  · obtain ⟨rfl, rfl⟩ := Prod.mk.inj hplace
    have hfalse : ¬∃ c ∈ A.blocks, c.account = b.account ∧ c.height = b.height ∧
        env.hash c = hash := by
      rintro ⟨c, hc, haccount, hheight, -⟩
      exact h.vacant c hc haccount hheight
    split <;> rename_i hstride
    · simpa using fun _ => not_exists.mp hfalse
    · simp [ht b.account b.height hash, hstride]
  · rw [← at_other_place_insert hplace, ← ht account height hash]
    split
    · rw [Table.get_del, if_neg hplace]
    · rfl

end Index

section Receivables

variable {t : Table (Account × BlockHash) ReceivableInfo}

theorem sends_insert_of_ne (h : A.Extends b) (hop : b.opcode ≠ .send) {s : Block}
    {key : Account × BlockHash} {info : ReceivableInfo} :
    Sends env (insert b A.blocks) s key info ↔ Sends env A.blocks s key info := by
  rw [sends_insert h.top, or_iff_left]
  exact fun ⟨_, hsend, _⟩ => hop hsend

theorem taken_insert_of_ne {opcode : BlockOpcode} (hop : b.opcode ≠ opcode) {hash : BlockHash} :
    Taken (insert b A.blocks) opcode hash ↔ Taken A.blocks opcode hash := by
  rw [taken_insert, or_iff_left]
  exact fun h => hop h.1

-- What a SEND adds.
theorem receivable_insert_send (h : A.Extends b) (hop : b.opcode = .send) {p : Block}
    (hp : p ∈ A.blocks) (hf : Follows p b) {key : Account × BlockHash} {info : ReceivableInfo} :
    (∃ s, Sends env (insert b A.blocks) s key info) ∧ ¬Taken (insert b A.blocks) .receive key.2 ↔
      (key = (b.link, env.hash b) ∧ info = ⟨b.account, p.balance - b.balance, b.timestamp⟩) ∨
      ((∃ s, Sends env A.blocks s key info) ∧ ¬Taken A.blocks .receive key.2) := by
  rw [taken_insert_of_ne (by simp [hop])]
  simp only [sends_insert h.top, exists_or, or_and_right]
  rw [or_comm]
  refine or_congr_left ⟨?_, ?_⟩
  · rintro ⟨⟨s, rfl, -, rfl, q, hq, hqf, rfl⟩, -⟩
    obtain ⟨haccount, hheight⟩ := hqf.unique_left hf
    obtain rfl := A.unique q hq p hp haccount hheight
    exact ⟨rfl, rfl⟩
  · rintro ⟨rfl, rfl⟩
    exact ⟨⟨b, rfl, hop, rfl, p, hp, hf, rfl⟩, fun ⟨r, hr, hrop, hlink⟩ =>
      h.unreceived hr hrop hlink⟩

-- What a RECEIVE takes away.
theorem receivable_insert_receive (h : A.Extends b) (hop : b.opcode = .receive)
    {key : Account × BlockHash} {info : ReceivableInfo} :
    (∃ s, Sends env (insert b A.blocks) s key info) ∧ ¬Taken (insert b A.blocks) .receive key.2 ↔
      key ≠ (b.account, b.link) ∧
      ((∃ s, Sends env A.blocks s key info) ∧ ¬Taken A.blocks .receive key.2) := by
  obtain ⟨taken, ⟨source, hsource⟩, -⟩ := h.received hop
  simp only [sends_insert_of_ne h (show b.opcode ≠ .send by simp [hop]), taken_insert, hop,
    true_and, not_or]
  constructor
  · rintro ⟨hs, hnot, hlink⟩
    exact ⟨fun hkey => hlink (by rw [hkey]), hs, hnot⟩
  · rintro ⟨hkey, ⟨s, hs⟩, hnot⟩
    exact ⟨⟨s, hs⟩, hnot, fun hlink => hkey (A.sends_unique hs hsource hlink.symm).2.1⟩

theorem showsReceivables_append (h : A.Extends b) (ho : Before A.blocks o b)
    (ht : ShowsReceivables env A.blocks t) :
    ShowsReceivables env (insert b A.blocks) (appendedReceivables env t b o) := by
  intro key info
  by_cases hsend : b.opcode = .send
  · cases o with
    | none =>
        have hopens := (h.opens ho).opcode
        simp [hsend] at hopens
    | some p =>
        obtain ⟨hp, hs, -⟩ := h.before ho
        rw [receivable_insert_send h hsend hp hs.follows, ← ht key info]
        simp only [appendedReceivables, hsend, Table.get_put]
        split <;> rename_i hkey
        · have hnone : t.get key = none := by
            rw [Option.eq_none_iff_forall_ne_some]
            intro i hi
            obtain ⟨⟨s, hs, -, hk, -⟩, -⟩ := (ht key i).mp hi
            exact h.fresh s hs (Prod.ext_iff.mp (hk.symm.trans hkey)).2
          simp [hkey ▸ hnone, hkey, eq_comm]
        · simp [hkey]
  · by_cases hreceive : b.opcode = .receive
    · rw [receivable_insert_receive h hreceive, ← ht key info]
      simp only [appendedReceivables, hreceive, Table.get_del]
      split <;> simp_all
    · simp only [sends_insert_of_ne h hsend, taken_insert_of_ne hreceive, ← ht key info]
      unfold appendedReceivables
      split
      · contradiction
      · contradiction
      · rfl

-- The 128-bit amount that a rollback computes is the one that was taken.
theorem amount_of_gains (h : A.Extends b) (ho : Before A.blocks o b) {amount : Amount}
    (hgains : Gains env A.blocks b amount) (hop : b.opcode = .receive ∨ b.opcode = .reward) :
    RollbackBlockVisitor.amount env b o = amount := by
  obtain ⟨o', ho', hearned⟩ := hgains
  obtain rfl := A.before_unique ho' ho
  apply BitVec.eq_of_toNat_eq
  rw [← hearned]
  cases o' with
  | none =>
      have hlt := amount.isLt
      simp only [RollbackBlockVisitor.amount, earned] at hearned ⊢
      rw [BitVec.toNat_ofNat, Nat.mod_eq_of_lt (hearned ▸ hlt)]
  | some p =>
      obtain ⟨-, hs, -⟩ := h.before ho
      have hbalance := hs.balance
      have hle : p.balance.toNat < b.balance.toNat := by
        unfold BalanceRule at hbalance
        rcases hop with hop | hop <;> simpa [hop] using hbalance
      rw [RollbackBlockVisitor.amount, earned, BitVec.toNat_sub_of_le (BitVec.le_def.mpr hle.le)]

theorem showsReceivables_remove (h : A.Extends b) (ho : Before A.blocks o b) {s : Store}
    (hblocks : ShowsBlocks env (insert b A.blocks) s.blocks)
    (ht : ShowsReceivables env (insert b A.blocks) s.receivables) :
    ShowsReceivables env A.blocks (removedReceivables env s b o) := by
  intro key info
  by_cases hsend : b.opcode = .send
  · obtain ⟨p, hp, hs⟩ := h.linked (fun hz => by simpa [hsend] using (h.opens hz).opcode)
    have hkey := ht key info
    rw [receivable_insert_send h hsend hp hs.follows] at hkey
    simp only [removedReceivables, hsend, Table.get_del]
    split <;> rename_i hk
    · refine iff_of_false (by simp) ?_
      rintro ⟨⟨s, hs, -, hsk, -⟩, -⟩
      exact h.fresh s hs (Prod.ext_iff.mp (hsk.symm.trans hk)).2
    · simpa [hk] using hkey
  · by_cases hreceive : b.opcode = .receive
    · obtain ⟨taken, ⟨source, hsource⟩, -, hgains⟩ := h.received hreceive
      have hlink : (b.account, b.link).2 = env.hash source := by rw [hsource.2.2.1]
      -- the SEND is still stored, and it gives back what it gave before
      have hstored : s.blockGet b.link = some source := by
        rw [show b.link = env.hash source from hlink]
        exact hblocks.blockGet (Finset.mem_insert_of_mem hsource.1)
      have htaken : (⟨source.account, RollbackBlockVisitor.amount env b o, source.timestamp⟩ :
          ReceivableInfo) = taken := by
        rw [amount_of_gains h ho hgains (.inl hreceive)]
        obtain ⟨-, -, -, p, -, -, rfl⟩ := hsource
        rfl
      have hkey := ht key info
      rw [receivable_insert_receive h hreceive] at hkey
      simp only [removedReceivables, hreceive, hstored, Table.get_put, htaken]
      split <;> rename_i hk
      · subst hk
        constructor
        · rintro ⟨⟩
          exact ⟨⟨source, hsource⟩, by simpa [hreceive] using h.not_taken (.inl hreceive)⟩
        · rintro ⟨⟨s, hs⟩, -⟩
          rw [(A.sends_unique hs hsource rfl).2.2]
      · simpa [hk] using hkey
    · have hkey := ht key info
      simp only [sends_insert_of_ne h hsend, taken_insert_of_ne hreceive] at hkey
      rw [← hkey]
      unfold removedReceivables
      split
      · contradiction
      · contradiction
      · rfl

end Receivables

section Rewardables

variable {t : Table (Account × BlockHash) RewardableInfo}

theorem yieldedReward_eq_some {p : Block} {key : Account × BlockHash} {info : RewardableInfo} :
    yieldedReward env p b = some (key, info) ↔
      p.hasRepresentative = true ∧ key = (p.representative, env.hash p) ∧
        rewardAmount env.network p.balance p.timestamp b.timestamp ≠ 0 ∧
        info = ⟨p.account, rewardAmount env.network p.balance p.timestamp b.timestamp,
          rewardTimestamp env.network p.timestamp b.timestamp⟩ := by
  unfold yieldedReward
  constructor
  · intro h
    split at h
    · rename_i hif
      cases h
      exact ⟨hif.1, rfl, hif.2, rfl⟩
    · cases h
  · rintro ⟨hrep, rfl, hne, rfl⟩
    rw [if_pos ⟨hrep, hne⟩]

-- The reward that ends with `b` is the one that came with it.
theorem endedReward_eq {p : Block} (hs : Succeeds env p b) :
    endedReward env b p = (yieldedReward env p b).map Prod.fst := by
  unfold endedReward yieldedReward
  rw [Block.hasRepresentative_of_type hs.type]
  split <;> rfl

theorem yields_insert_iff (h : A.Extends b) (ho : Before A.blocks o b)
    {key : Account × BlockHash} {info : RewardableInfo} :
    (∃ x, Yields env (insert b A.blocks) x key info) ↔
      o.bind (fun p => yieldedReward env p b) = some (key, info) ∨
        ∃ x, Yields env A.blocks x key info := by
  simp only [yields_insert h.top, exists_or]
  rw [or_comm]
  refine or_congr_left ⟨?_, ?_⟩
  · rintro ⟨x, hx, hf, hrep, hkey, hne, hinfo⟩
    obtain rfl := A.before_unique (o := some x) ⟨hx, hf⟩ ho
    exact yieldedReward_eq_some.mpr ⟨hrep, hkey, hne, hinfo⟩
  · cases o with
    | none => simp
    | some p =>
        intro hy
        obtain ⟨hrep, hkey, hne, hinfo⟩ := yieldedReward_eq_some.mp hy
        exact ⟨p, ho.1, ho.2, hrep, hkey, hne, hinfo⟩

-- REWARD blocks end no reward: they and the blocks below them have no representative.
theorem yieldedReward_of_reward (h : A.Extends b) (ho : Before A.blocks o b)
    (hop : b.opcode = .reward) : o.bind (fun p => yieldedReward env p b) = none := by
  cases o with
  | none => rfl
  | some p =>
      obtain ⟨-, hs, -⟩ := h.before ho
      have hrep := (Block.representative_of_repBlock (h.legal.repBlock (.inl hop))).1
      rw [Block.hasRepresentative_of_type hs.type] at hrep
      simp [yieldedReward, hrep]

theorem yieldedReward_fresh (h : A.Extends b) (ho : Before A.blocks o b)
    {key : Account × BlockHash} {info : RewardableInfo}
    (hy : o.bind (fun p => yieldedReward env p b) = some (key, info)) :
    ¬Taken A.blocks .reward key.2 ∧ ∀ x i, ¬Yields env A.blocks x key i := by
  cases o with
  | none => simp at hy
  | some p =>
      obtain ⟨hp, hs, htop⟩ := h.before ho
      obtain ⟨-, rfl, -⟩ := yieldedReward_eq_some.mp hy
      constructor
      · rintro ⟨r, hr, hop, hlink⟩
        exact h.unrewarded hp hs.follows hr hop hlink
      · rintro x i ⟨hx, -, hkey, c, hc, hf, -⟩
        obtain rfl := A.hash_inj x hx p hp (Prod.ext_iff.mp hkey).2.symm
        exact htop c hc hf

theorem rewardable_insert_reward (h : A.Extends b) (ho : Before A.blocks o b)
    (hop : b.opcode = .reward) {key : Account × BlockHash} {info : RewardableInfo} :
    (∃ x, Yields env (insert b A.blocks) x key info) ∧ ¬Taken (insert b A.blocks) .reward key.2 ↔
      key ≠ (b.account, b.link) ∧
      ((∃ x, Yields env A.blocks x key info) ∧ ¬Taken A.blocks .reward key.2) := by
  obtain ⟨taken, ⟨source, hsource⟩, -⟩ := h.rewarded hop
  simp only [yields_insert_iff h ho, yieldedReward_of_reward h ho hop, reduceCtorEq, false_or,
    taken_insert, hop, true_and, not_or]
  constructor
  · rintro ⟨hx, hnot, hlink⟩
    exact ⟨fun hkey => hlink (by rw [hkey]), hx, hnot⟩
  · rintro ⟨hkey, ⟨x, hx⟩, hnot⟩
    exact ⟨⟨x, hx⟩, hnot, fun hlink => hkey (A.yields_unique hx hsource hlink.symm).2.1⟩

theorem rewardable_insert (h : A.Extends b) (ho : Before A.blocks o b) (hop : b.opcode ≠ .reward)
    {key : Account × BlockHash} {info : RewardableInfo} :
    (∃ x, Yields env (insert b A.blocks) x key info) ∧ ¬Taken (insert b A.blocks) .reward key.2 ↔
      o.bind (fun p => yieldedReward env p b) = some (key, info) ∨
      ((∃ x, Yields env A.blocks x key info) ∧ ¬Taken A.blocks .reward key.2) := by
  rw [taken_insert_of_ne hop, yields_insert_iff h ho, or_and_right]
  exact or_congr_left (and_iff_left_of_imp fun hy => (yieldedReward_fresh h ho hy).1)

theorem showsRewardables_append (h : A.Extends b) (ho : Before A.blocks o b)
    (ht : ShowsRewardables env A.blocks t) :
    ShowsRewardables env (insert b A.blocks) (appendedRewardables env t b o) := by
  intro key info
  unfold appendedRewardables
  split <;> rename_i hop
  · rw [rewardable_insert_reward h ho hop, ← ht key info, Table.get_del]
    split <;> simp_all
  · rw [rewardable_insert h ho hop, ← ht key info]
    cases hy : o.bind (fun p => yieldedReward env p b) with
    | none => simp
    | some entry =>
        obtain ⟨key', info'⟩ := entry
        have hnone : t.get key' = none := by
          rw [Option.eq_none_iff_forall_ne_some]
          intro i hi
          obtain ⟨⟨x, hx⟩, -⟩ := (ht key' i).mp hi
          exact (yieldedReward_fresh h ho hy).2 x i hx
        simp only [Table.get_put, Option.some.injEq, Prod.mk.injEq]
        split <;> rename_i hkey
        · simp [hkey, hnone]
        · simp [Ne.symm hkey]

-- The source of a REWARD and the block after it are still stored.
theorem restoredReward_eq (h : A.Extends b) (ho : Before A.blocks o b) {s : Store}
    (hblocks : ShowsBlocks env (insert b A.blocks) s.blocks) (hop : b.opcode = .reward)
    {x : Block} {taken : RewardableInfo} (hx : Yields env A.blocks x (b.account, b.link) taken)
    (hgains : Gains env A.blocks b taken.amount) : restoredReward env s b o = some taken := by
  have hamount := amount_of_gains h ho hgains (.inr hop)
  obtain ⟨hmem, -, hkey, c, hc, hf, -, rfl⟩ := hx
  obtain ⟨hash, hs, hget⟩ := hblocks.get (Finset.mem_insert_of_mem hmem)
  have hlink : b.link = env.hash x := (Prod.ext_iff.mp hkey).2
  have hhash : hash = env.hash c := by
    rcases hs with ⟨d, hd, hxd, rfl⟩ | ⟨hno, -⟩
    · obtain ⟨haccount, hheight⟩ := hxd.unique_right hf
      rcases Finset.mem_insert.mp hd with rfl | hd
      · exact absurd hheight.symm (h.vacant c hc haccount.symm)
      · rw [A.unique d hd c hc haccount hheight]
    · exact absurd hf (hno c (Finset.mem_insert_of_mem hc))
  subst hhash
  have hnext := hblocks.blockGet (Finset.mem_insert_of_mem hc)
  simp only [restoredReward, hlink, hget, Option.bind_eq_bind, Option.bind_some, hnext, hamount]
  rfl

theorem showsRewardables_remove (h : A.Extends b) (ho : Before A.blocks o b) {s : Store}
    (hblocks : ShowsBlocks env (insert b A.blocks) s.blocks)
    (ht : ShowsRewardables env (insert b A.blocks) s.rewardables) :
    ShowsRewardables env A.blocks (removedRewardables env s b o) := by
  intro key info
  have hkey := ht key info
  unfold removedRewardables
  split <;> rename_i hop
  · obtain ⟨taken, ⟨x, hx⟩, -, hgains⟩ := h.rewarded hop
    rw [rewardable_insert_reward h ho hop] at hkey
    rw [restoredReward_eq h ho hblocks hop hx hgains]
    simp only [Table.get_put]
    split <;> rename_i hk
    · subst hk
      constructor
      · rintro ⟨⟩
        exact ⟨⟨x, hx⟩, by simpa [hop] using h.not_taken (.inr hop)⟩
      · rintro ⟨⟨y, hy⟩, -⟩
        rw [(A.yields_unique hy hx rfl).2.2]
    · simpa [hk] using hkey
  · rw [rewardable_insert h ho hop] at hkey
    have hended : o.bind (endedReward env b) =
        (o.bind (fun p => yieldedReward env p b)).map Prod.fst := by
      cases o with
      | none => rfl
      | some p => exact endedReward_eq (h.before ho).2.1
    rw [hended]
    cases hy : o.bind (fun p => yieldedReward env p b) with
    | none => simpa [hy] using hkey
    | some entry =>
        obtain ⟨key', info'⟩ := entry
        simp only [Option.map_some, Table.get_del]
        split <;> rename_i hk
        · subst hk
          refine iff_of_false (by simp) ?_
          rintro ⟨⟨x, hx⟩, -⟩
          exact (yieldedReward_fresh h ho hy).2 x info hx
        · rw [hkey, or_iff_right]
          rw [hy]
          rintro ⟨⟩
          exact hk rfl

end Rewardables

section Bindings

variable {t : Table BindingKey SignerAddress} {counts : Table Account Nat}

theorem bindingKey_insert (h : A.Extends b) {key : BindingKey} {signer : SignerAddress} :
    (∃ c ∈ insert b A.blocks, c.opcode = .bind ∧ RollbackBlockVisitor.bindingKey c = key ∧
      c.link = signer) ↔
    if b.opcode = .bind ∧ key = RollbackBlockVisitor.bindingKey b then b.link = signer
    else ∃ c ∈ A.blocks, c.opcode = .bind ∧ RollbackBlockVisitor.bindingKey c = key ∧
      c.link = signer := by
  split <;> rename_i hkey
  · obtain ⟨hop, rfl⟩ := hkey
    constructor
    · rintro ⟨c, hc, -, hkey, rfl⟩
      rcases Finset.mem_insert.mp hc with rfl | hc
      · rfl
      · simp only [RollbackBlockVisitor.bindingKey, BindingKey.mk.injEq] at hkey
        exact absurd hkey.2.2 (h.vacant c hc hkey.1)
    · intro hlink
      exact ⟨b, Finset.mem_insert_self _ _, hop, rfl, hlink⟩
  · constructor
    · rintro ⟨c, hc, hop, rfl, hlink⟩
      rcases Finset.mem_insert.mp hc with rfl | hc
      · exact absurd ⟨hop, rfl⟩ hkey
      · exact ⟨c, hc, hop, rfl, hlink⟩
    · rintro ⟨c, hc, hrest⟩
      exact ⟨c, Finset.mem_insert_of_mem hc, hrest⟩

theorem showsBindings_append (h : A.Extends b) (ht : ShowsBindings A.blocks t) :
    ShowsBindings (insert b A.blocks) (if b.opcode = .bind then
      t.put (RollbackBlockVisitor.bindingKey b) b.link else t) := by
  intro key signer
  rw [bindingKey_insert h, ← ht key signer]
  by_cases hop : b.opcode = .bind
  · simp only [hop, if_true, true_and, Table.get_put]
    split <;> simp
  · simp only [hop, if_false, false_and]

theorem showsBindings_remove (h : A.Extends b) (ht : ShowsBindings (insert b A.blocks) t) :
    ShowsBindings A.blocks (if b.opcode = .bind then
      t.del (RollbackBlockVisitor.bindingKey b) else t) := by
  intro key signer
  have hkey := ht key signer
  rw [bindingKey_insert h] at hkey
  by_cases hop : b.opcode = .bind
  · simp only [hop, if_true, true_and, Table.get_del] at hkey ⊢
    split <;> rename_i hk
    · refine iff_of_false (by simp) ?_
      rintro ⟨c, hc, -, hck, -⟩
      rw [hk] at hck
      simp only [RollbackBlockVisitor.bindingKey, BindingKey.mk.injEq] at hck
      exact h.vacant c hc hck.1 hck.2.2
    · simpa [hk] using hkey
  · simpa [hop] using hkey

theorem bindings_insert (h : A.Extends b) (account : Account) :
    bindings (insert b A.blocks) account =
      bindings A.blocks account + if b.account = account ∧ b.opcode = .bind then 1 else 0 := by
  unfold bindings
  rw [Finset.filter_insert]
  split
  · rw [Finset.card_insert_of_notMem]
    simp [h.not_mem]
  · rfl

theorem showsBindingCount_append (h : A.Extends b) (ht : ShowsBindingCount A.blocks counts) :
    ShowsBindingCount (insert b A.blocks) (if b.opcode = .bind then
      counts.put b.account ((counts.get b.account).getD 0 + 1) else counts) := by
  have hold : (counts.get b.account).getD 0 = bindings A.blocks b.account := by
    rw [ht b.account]
    split <;> simp_all
  intro account
  rw [bindings_insert h, hold]
  by_cases hop : b.opcode = .bind
  · simp only [hop, if_true, and_true, Table.get_put]
    by_cases ha : account = b.account
    · simp [ha]
    · simp [ha, Ne.symm ha, ht account]
  · simp [hop, ht account]

theorem showsBindingCount_remove (h : A.Extends b)
    (ht : ShowsBindingCount (insert b A.blocks) counts) :
    ShowsBindingCount A.blocks (if b.opcode = .bind then
      if (counts.get b.account).getD 0 - 1 = 0 then counts.del b.account
      else counts.put b.account ((counts.get b.account).getD 0 - 1)
    else counts) := by
  intro account
  by_cases hop : b.opcode = .bind
  · have hold : (counts.get b.account).getD 0 = bindings A.blocks b.account + 1 := by
      rw [ht b.account, bindings_insert h]
      simp [hop]
    have hget := ht account
    rw [bindings_insert h] at hget
    simp only [hop, if_true, hold, Nat.add_sub_cancel, and_true] at hget ⊢
    by_cases ha : account = b.account
    · subst ha
      split <;> simp_all
    · split <;> simp_all [Ne.symm ha]
  · simpa [hop, bindings_insert h] using ht account

end Bindings

end Raicoin
