import Raicoin.Node.BlockProcessor.Replay
import Raicoin.Refinement.Reach
import Mathlib.Data.Finset.Max

-- What every later lookup trusts of the chains, and the quota of each account.
namespace Raicoin

section WellFormed

variable (env : Env) (s : Store)

-- The chain of one account, from its tail to its head.
structure ChainWellFormed (account : Account) (info : AccountInfo) : Prop where
  tail_le_head : info.tailHeight ≤ info.headHeight
  at_height : ∀ height, info.tailHeight ≤ height → height ≤ info.headHeight →
    ∃! b, b ∈ s.blockSet ∧ b.account = account ∧ b.height = height
  within : ∀ b ∈ s.blockSet, b.account = account →
    info.tailHeight ≤ b.height ∧ b.height ≤ info.headHeight
  tail : ∃ b ∈ s.blockSet, b.account = account ∧ b.height = info.tailHeight ∧
    env.hash b = info.tail
  head : ∃ b ∈ s.blockSet, b.account = account ∧ b.height = info.headHeight ∧
    env.hash b = info.head
  linked : ∀ p ∈ s.blockSet, ∀ b ∈ s.blockSet, p.account = account → b.account = account →
    b.height = p.height + 1 →
      b.previous = env.hash p ∧ s.blockSuccessorGet (env.hash p) = some (env.hash b)
  last : s.blockSuccessorGet info.head = some 0
  type : ∀ b ∈ s.blockSet, b.account = account → b.type = info.type
  monotone : ∀ b ∈ s.blockSet, ∀ c ∈ s.blockSet, b.account = account → c.account = account →
    b.height ≤ c.height → b.timestamp ≤ c.timestamp ∧ b.credit ≤ c.credit
  credit : ∀ b ∈ s.blockSet, b.account = account → 1 ≤ b.credit
  index : ∀ height hash, s.blocksIndex.get (account, height) = some hash ↔
    height % BLOCKS_PER_INDEX = 0 ∧
      ∃ b ∈ s.blockSet, b.account = account ∧ b.height = height ∧ env.hash b = hash
  confirmed : info.confirmedHeight = INVALID_HEIGHT ∨ info.confirmedHeight ≤ info.headHeight

structure WellFormed : Prop where
  stored : ∀ hash b, s.blockGet hash = some b → env.hash b = hash
  chains : ∀ account info, s.accounts.get account = some info →
    ChainWellFormed env s account info
  owned : ∀ b ∈ s.blockSet, ∃ info, s.accounts.get b.account = some info

variable {env s} {A : Lattice env}

theorem ShowsBlocks.successorGet {blocks : Finset Block}
    (h : ShowsBlocks env blocks s.blocks) {b : Block} (hb : b ∈ blocks) :
    ∃ hash, SuccessorHash env blocks b hash ∧ s.blockSuccessorGet (env.hash b) = some hash := by
  obtain ⟨hash, hs, hget⟩ := h.get hb
  exact ⟨hash, hs, by simp [Store.blockSuccessorGet, hget]⟩

theorem Represents.successor_of_follows (h : Represents s A) {p b : Block} (hp : p ∈ A.blocks)
    (hb : b ∈ A.blocks) (hf : Follows p b) :
    s.blockSuccessorGet (env.hash p) = some (env.hash b) := by
  obtain ⟨hash, ⟨c, hc, hpc, rfl⟩ | ⟨hno, -⟩, hget⟩ := h.blocks.successorGet hp
  · rw [hget, A.follower_unique hc hb hpc hf]
  · exact absurd hf (hno b hb)

theorem Represents.successor_of_top (h : Represents s A) {b : Block} (hb : b ∈ A.blocks)
    (htop : ∀ c ∈ A.blocks, ¬Follows b c) : s.blockSuccessorGet (env.hash b) = some 0 := by
  obtain ⟨hash, ⟨c, hc, hf, -⟩ | ⟨-, rfl⟩, hget⟩ := h.blocks.successorGet hb
  · exact absurd hf (htop c hc)
  · exact hget

theorem Represents.chainWellFormed (h : Represents s A) {account : Account} {info : AccountInfo}
    (hinfo : s.accounts.get account = some info) : ChainWellFormed env s account info := by
  obtain ⟨top, htopmem, htopa, htoph, htophash, htoptype, htop, -⟩ := h.head hinfo
  have hdescribes := h.accounts.describes _ _ hinfo
  have hzero := hdescribes.tailHeight
  have hle {b : Block} (hb : b ∈ A.blocks) (ha : b.account = account) :
      b.height ≤ info.headHeight := htoph ▸ A.le_top htop hb (ha.trans htopa.symm)
  constructor
  case tail_le_head => omega
  case tail =>
    rw [h.blockSet, hzero]
    exact hdescribes.tail
  case last =>
    rw [← htophash]
    exact h.successor_of_top htopmem htop
  case index => simpa only [h.blockSet] using h.blocksIndex account
  case confirmed => exact hdescribes.confirmedHeight
  all_goals rw [h.blockSet]
  case at_height =>
    intro height _ hheight
    obtain ⟨b, hb, ha, rfl⟩ := A.below htopmem (htoph ▸ hheight)
    refine ⟨b, ⟨hb, ha.trans htopa, rfl⟩, ?_⟩
    rintro c ⟨hc, hca, hch⟩
    exact A.unique c hc b hb (hca.trans (ha.trans htopa).symm) hch
  case within =>
    intro b hb ha
    exact ⟨by omega, hle hb ha⟩
  case head => exact ⟨top, htopmem, htopa, htoph, htophash⟩
  case linked =>
    intro p hp b hb hpa hba hheight
    have hf : Follows p b := ⟨hba.trans hpa.symm, hheight⟩
    exact ⟨(A.succeeds hp hb hf).previous, h.successor_of_follows hp hb hf⟩
  case type =>
    intro b hb ha
    rw [← htoptype, A.type_eq hb htopmem (ha.trans htopa.symm)]
  case monotone =>
    intro b hb c hc hba hca hheight
    have ha := hba.trans hca.symm
    exact ⟨A.timestamp_le hb hc ha hheight, A.credit_le hb hc ha hheight⟩
  case credit =>
    intro b hb _
    exact A.credit_pos hb

theorem Represents.wellFormed (h : Represents s A) : WellFormed env s where
  stored _ _ hget := (h.mem_of_get hget).2
  chains _ _ hinfo := h.chainWellFormed hinfo
  owned b hb := Option.isSome_iff_exists.mp (h.accounts.opened b (h.blockSet ▸ hb))

-- Appends, prepends, rollbacks and confirms, in any order, with any writes refused.
theorem reachable_wellFormed {blocks : Set Block} {l : Ledger} (hcf : CollisionFree env blocks)
    (h : Reachable env blocks l) : WellFormed env l.store := by
  obtain ⟨A, hA⟩ := h.tracks hcf
  exact hA.represents.wellFormed

theorem sampleLedger_wellFormed : WellFormed sampleEnv sampleLedger.store :=
  reachable_wellFormed sample_collisionFree sampleLedger_reachable

end WellFormed

section Quota

-- The blocks of the account of `b`, up to `b`, that count for its day.
def counted (blocks : Finset Block) (b : Block) : Finset Block :=
  blocks.filter fun c => c.account = b.account ∧ c.height ≤ b.height ∧ c.opcode ≠ .reward ∧
    SameDay c.timestamp b.timestamp

-- The blocks of an account that count for a day.
def countedOn (blocks : Finset Block) (account : Account) (day : Nat) : Finset Block :=
  blocks.filter fun c => c.account = account ∧ c.opcode ≠ .reward ∧ c.timestamp / DAY = day

structure Quota (s : Store) : Prop where
  counter : ∀ b ∈ s.blockSet, b.counter = (counted s.blockSet b).card
  allowed : ∀ b ∈ s.blockSet, b.opcode ≠ .reward →
    1 ≤ b.counter ∧ b.counter ≤ b.credit * TRANSACTIONS_PER_CREDIT
  day : ∀ account day, countedOn s.blockSet account day = ∅ ∨
    ∃ c ∈ countedOn s.blockSet account day,
      (countedOn s.blockSet account day).card ≤ c.credit * TRANSACTIONS_PER_CREDIT
  no_wrap : ∀ b ∈ s.blockSet, b.counter + 1 < 2 ^ 32
  no_wrap_credit : ∀ b : Block, b.credit * TRANSACTIONS_PER_CREDIT < 2 ^ 32

theorem Block.quota_lt (b : Block) : b.credit * TRANSACTIONS_PER_CREDIT + 1 < 2 ^ 32 := by
  have hlt := b.credit_lt
  unfold TRANSACTIONS_PER_CREDIT
  omega

variable {env : Env} (A : Lattice env) {p b : Block}

namespace Lattice

-- Only the block itself counts when its day is new to the chain.
theorem counted_alone (hb : b ∈ A.blocks)
    (hnew : ∀ c ∈ A.blocks, c.account = b.account → c.height < b.height →
      ¬SameDay c.timestamp b.timestamp) :
    counted A.blocks b = if b.opcode = .reward then ∅ else {b} := by
  ext c
  have hself : c ∈ counted A.blocks b ↔ c = b ∧ b.opcode ≠ .reward := by
    rw [counted, Finset.mem_filter]
    constructor
    · rintro ⟨hc, haccount, hle, hop, hday⟩
      rcases Nat.lt_or_eq_of_le hle with hlt | heq
      · exact absurd hday (hnew c hc haccount hlt)
      · obtain rfl := A.unique c hc b hb haccount heq
        exact ⟨rfl, hop⟩
    · rintro ⟨rfl, hop⟩
      exact ⟨hb, rfl, Nat.le_refl _, hop, rfl⟩
  rw [hself]
  split <;> simp_all

-- On one day the count goes on from the block below.
theorem counted_next (hb : b ∈ A.blocks) (hf : Follows p b)
    (hday : SameDay b.timestamp p.timestamp) :
    counted A.blocks b =
      if b.opcode = .reward then counted A.blocks p else insert b (counted A.blocks p) := by
  obtain ⟨haccount, hheight⟩ := hf
  ext c
  have hnext : c ∈ counted A.blocks b ↔
      c ∈ counted A.blocks p ∨ c = b ∧ b.opcode ≠ .reward := by
    simp only [counted, Finset.mem_filter]
    constructor
    · rintro ⟨hc, hca, hle, hop, hcb⟩
      rcases Nat.lt_or_eq_of_le hle with hlt | heq
      · exact .inl ⟨hc, hca.trans haccount, by omega, hop, hcb.trans hday⟩
      · obtain rfl := A.unique c hc b hb hca heq
        exact .inr ⟨rfl, hop⟩
    · rintro (⟨hc, hca, hle, hop, hcp⟩ | ⟨rfl, hop⟩)
      · exact ⟨hc, hca.trans haccount.symm, by omega, hop, hcp.trans hday.symm⟩
      · exact ⟨hb, rfl, Nat.le_refl _, hop, rfl⟩
  rw [hnext]
  split <;> simp_all [or_comm]

theorem not_mem_counted_below (hf : Follows p b) : b ∉ counted A.blocks p := by
  intro hmem
  have hle := (Finset.mem_filter.mp hmem).2.2.1
  have hheight := hf.2
  omega

-- Time does not run backwards, so a day that is over does not come again.
theorem day_new (hp : p ∈ A.blocks) (hs : Succeeds env p b)
    (hday : ¬SameDay b.timestamp p.timestamp) {c : Block} (hc : c ∈ A.blocks)
    (haccount : c.account = b.account) (hlt : c.height < b.height) :
    ¬SameDay c.timestamp b.timestamp := by
  obtain ⟨hpa, hph⟩ := hs.follows
  have hcp := A.timestamp_le hc hp (haccount.trans hpa) (by omega)
  have hpb := hs.timestamp
  have hlow : c.timestamp / DAY ≤ p.timestamp / DAY := Nat.div_le_div_right hcp
  have hhigh : p.timestamp / DAY ≤ b.timestamp / DAY := Nat.div_le_div_right hpb
  unfold SameDay at hday ⊢
  omega

-- The counter counts, and stays within the credit. The induction is along the chain.
theorem counter_eq (hb : b ∈ A.blocks) :
    b.counter = (counted A.blocks b).card ∧ b.counter ≤ b.credit * TRANSACTIONS_PER_CREDIT := by
  induction hheight : b.height generalizing b with
  | zero =>
      have hopens := A.opens b hb hheight
      have hcredit := A.credit_pos hb
      have hcounter := hopens.counter
      rw [A.counted_alone hb fun c _ _ hlt => by omega]
      unfold TRANSACTIONS_PER_CREDIT
      split at hcounter <;> rename_i hop <;> simp only [hop, if_true, if_false,
        Finset.card_empty, Finset.card_singleton] <;> omega
  | succ height ih =>
      obtain ⟨p, hp, hs⟩ := A.linked b hb (by omega)
      obtain ⟨hcount, hallowed⟩ := ih hp (by have := hs.follows.2; omega)
      have hcredit := A.credit_pos hb
      have hmore := A.credit_le hp hb hs.follows.1.symm (by have := hs.follows.2; omega)
      have hlt := p.quota_lt
      have hcounter := hs.counter
      have hquota : p.credit * TRANSACTIONS_PER_CREDIT ≤ b.credit * TRANSACTIONS_PER_CREDIT :=
        Nat.mul_le_mul_right _ hmore
      have hpos : 1 ≤ b.credit * TRANSACTIONS_PER_CREDIT := by
        unfold TRANSACTIONS_PER_CREDIT
        omega
      by_cases hday : SameDay b.timestamp p.timestamp
      · rw [A.counted_next hb hs.follows hday]
        split at hcounter <;> rename_i hop <;> simp only [hop, if_true, if_false]
        · -- a REWARD leaves the counter as it was
          rw [CounterSame, if_pos hday] at hcounter
          exact ⟨hcounter.trans hcount, by omega⟩
        · rw [CounterIncrease, if_pos hday, Nat.mod_eq_of_lt (by omega)] at hcounter
          rw [Finset.card_insert_of_notMem (A.not_mem_counted_below hs.follows)]
          exact ⟨by omega, hcounter.2⟩
      · rw [A.counted_alone hb fun c hc ha hlt => A.day_new hp hs hday hc ha hlt]
        split at hcounter <;> rename_i hop <;> simp only [hop, if_true, if_false]
        · rw [CounterSame, if_neg hday] at hcounter
          exact ⟨by simpa using hcounter, by omega⟩
        · rw [CounterIncrease, if_neg hday] at hcounter
          exact ⟨by simpa using hcounter, by omega⟩

-- The last block of a day has counted all of them.
theorem countedOn_eq {account : Account} {day : Nat} {last : Block}
    (hlast : last ∈ countedOn A.blocks account day)
    (hmax : ∀ c ∈ countedOn A.blocks account day, c.height ≤ last.height) :
    countedOn A.blocks account day = counted A.blocks last := by
  obtain ⟨-, rfl, -, rfl⟩ := Finset.mem_filter.mp hlast
  ext c
  constructor
  · intro hc
    obtain ⟨hmem, haccount, hop, hday⟩ := Finset.mem_filter.mp hc
    exact Finset.mem_filter.mpr ⟨hmem, haccount, hmax c hc, hop, hday⟩
  · intro hc
    obtain ⟨hmem, haccount, -, hop, hday⟩ := Finset.mem_filter.mp hc
    exact Finset.mem_filter.mpr ⟨hmem, haccount, hop, hday⟩

end Lattice

theorem Represents.quota {s : Store} (h : Represents s A) : Quota s := by
  constructor
  case no_wrap_credit =>
    intro b
    have hlt := b.quota_lt
    omega
  all_goals rw [h.blockSet]
  case counter => exact fun b hb => (A.counter_eq hb).1
  case no_wrap =>
    intro b hb
    have hle := (A.counter_eq hb).2
    have hlt := b.quota_lt
    omega
  case allowed =>
    intro b hb hop
    obtain ⟨hcount, hle⟩ := A.counter_eq hb
    have hself : b ∈ counted A.blocks b :=
      Finset.mem_filter.mpr ⟨hb, rfl, Nat.le_refl _, hop, rfl⟩
    exact ⟨hcount ▸ Finset.card_pos.mpr ⟨b, hself⟩, hle⟩
  case day =>
    intro account day
    rcases (countedOn A.blocks account day).eq_empty_or_nonempty with hempty | hnonempty
    · exact .inl hempty
    · obtain ⟨last, hlast, hmax⟩ := Finset.exists_max_image _ Block.height hnonempty
      refine .inr ⟨last, hlast, ?_⟩
      obtain ⟨hcount, hle⟩ := A.counter_eq (Finset.mem_filter.mp hlast).1
      rw [A.countedOn_eq hlast hmax, ← hcount]
      exact hle

theorem reachable_quota {blocks : Set Block} {l : Ledger} (hcf : CollisionFree env blocks)
    (h : Reachable env blocks l) : Quota l.store := by
  obtain ⟨A, hA⟩ := h.tracks hcf
  exact hA.represents.quota

theorem sampleLedger_quota : Quota sampleLedger.store :=
  reachable_quota sample_collisionFree sampleLedger_reachable

end Quota

end Raicoin
