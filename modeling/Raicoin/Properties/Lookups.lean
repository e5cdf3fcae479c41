import Raicoin.Properties.Chains
import Raicoin.Properties.ForkCounts
import Raicoin.Secure.BlockWalk

-- The lookups by height, against the chain itself.
namespace Raicoin

open Lib

variable {env : Env} {s : Store} {account : Account} {info : AccountInfo} {height : Nat}

-- The chain of an account in the tables: its blocks from tail to head, linked by
-- hashes both ways, and the index over every eighth height.
structure LinkedChain (env : Env) (s : Store) (account : Account) (info : AccountInfo) :
    Prop where
  opened : s.accountInfoGet account = some info
  stored : ∀ hash b, s.blockGet hash = some b → env.hash b = hash
  tail_le_head : info.tailHeight ≤ info.headHeight
  at_height : ∀ height, info.tailHeight ≤ height → height ≤ info.headHeight →
    ∃! b, b ∈ s.blockSet ∧ b.account = account ∧ b.height = height
  tail : ∃ b ∈ s.blockSet, b.account = account ∧ b.height = info.tailHeight ∧
    env.hash b = info.tail
  head : ∃ b ∈ s.blockSet, b.account = account ∧ b.height = info.headHeight ∧
    env.hash b = info.head
  linked : ∀ p ∈ s.blockSet, ∀ b ∈ s.blockSet, p.account = account → b.account = account →
    b.height = p.height + 1 →
      b.previous = env.hash p ∧ s.blockSuccessorGet (env.hash p) = some (env.hash b)
  last : s.blockSuccessorGet info.head = some 0
  index : ∀ height hash, s.blocksIndex.get (account, height) = some hash ↔
    height % BLOCKS_PER_INDEX = 0 ∧
      ∃ b ∈ s.blockSet, b.account = account ∧ b.height = height ∧ env.hash b = hash

-- Every chain of a ledger that the node can reach is linked.
theorem WellFormed.linkedChain (h : WellFormed env s)
    (hinfo : s.accounts.get account = some info) : LinkedChain env s account info where
  opened := hinfo
  stored := h.stored
  tail_le_head := (h.chains account info hinfo).tail_le_head
  at_height := (h.chains account info hinfo).at_height
  tail := (h.chains account info hinfo).tail
  head := (h.chains account info hinfo).head
  linked := (h.chains account info hinfo).linked
  last := (h.chains account info hinfo).last
  index := (h.chains account info hinfo).index

-- The hash of the block one above, or zero for the head.
def SuccessorAt (env : Env) (s : Store) (account : Account) (info : AccountInfo) (height : Nat)
    (successor : BlockHash) : Prop :=
  if height = info.headHeight then successor = 0
  else ∃ b ∈ s.blockSet, b.account = account ∧ b.height = height + 1 ∧ env.hash b = successor

-- What both overloads return at a height, by the chain.
structure LookupExact (env : Env) (s : Store) (account : Account) (info : AccountInfo)
    (height : Nat) : Prop where
  inside : info.tailHeight ≤ height → height ≤ info.headHeight →
    ∃ b successor, (b ∈ s.blockSet ∧ b.account = account ∧ b.height = height) ∧
      (∀ c ∈ s.blockSet, c.account = account → c.height = height → c = b) ∧
      SuccessorAt env s account info height successor ∧
      s.blockAt account height = .found b ∧
      s.blockAndSuccessorAt account height = .found (b, successor)
  outside : height < info.tailHeight ∨ info.headHeight < height →
    s.blockAt account height = .error ∧ s.blockAndSuccessorAt account height = .error

namespace LinkedChain

-- One of the blocks of the chain.
def Member (s : Store) (account : Account) (b : Block) : Prop :=
  b ∈ s.blockSet ∧ b.account = account

theorem get_hash (h : LinkedChain env s account info) {b : Block} (hb : b ∈ s.blockSet) :
    ∃ stored, s.blocks.get (env.hash b) = some stored ∧ stored.block = b := by
  obtain ⟨hash, hget⟩ := Store.mem_blockSet.mp hb
  rw [h.stored hash b hget]
  exact Option.map_eq_some_iff.mp hget

theorem member_unique (h : LinkedChain env s account info) {b c : Block}
    (hb : Member s account b) (hc : Member s account c) (hheight : b.height = c.height)
    (htail : info.tailHeight ≤ c.height) (hhead : c.height ≤ info.headHeight) : b = c :=
  (h.at_height c.height htail hhead).unique ⟨hb.1, hb.2, hheight⟩ ⟨hc.1, hc.2, rfl⟩

theorem member_at (h : LinkedChain env s account info) {height : Nat}
    (htail : info.tailHeight ≤ height) (hhead : height ≤ info.headHeight) :
    ∃ b, Member s account b ∧ b.height = height := by
  obtain ⟨b, ⟨hmem, haccount, hheight⟩, -⟩ := h.at_height height htail hhead
  exact ⟨b, ⟨hmem, haccount⟩, hheight⟩

-- The record that the blocks table keeps of a block of the chain.
def Record (env : Env) (s : Store) (b : Block) (stored : StoredBlock) : Prop :=
  s.blocks.get (env.hash b) = some stored ∧ stored.block = b

theorem record_successor (h : LinkedChain env s account info) {b : Block} {stored : StoredBlock}
    (hb : Member s account b) (hrecord : Record env s b stored)
    (htail : info.tailHeight ≤ b.height) (hhead : b.height ≤ info.headHeight) :
    SuccessorAt env s account info b.height stored.successor := by
  unfold SuccessorAt
  split_ifs with htop
  · obtain ⟨top, hmem, haccount, hheight, hhash⟩ := h.head
    have hsame : b = top := h.member_unique hb ⟨hmem, haccount⟩ (by omega) (by omega) (by omega)
    have hlast := h.last
    rw [← hhash, ← hsame, Store.blockSuccessorGet, hrecord.1] at hlast
    exact Option.some_inj.mp hlast
  · obtain ⟨c, hc, hheight⟩ := h.member_at (show info.tailHeight ≤ b.height + 1 by omega)
      (by omega)
    obtain ⟨-, hnext⟩ := h.linked b hb.1 c hc.1 hb.2 hc.2 hheight
    rw [Store.blockSuccessorGet, hrecord.1] at hnext
    exact ⟨c, hc.1, hc.2, hheight, (Option.some_inj.mp hnext).symm⟩

-- A step of a walk: the block asked for, or on to the next.
theorem walk_step (h : LinkedChain env s account info) (next : StoredBlock → BlockHash)
    (height rounds : Nat) {b : Block} (hb : Member s account b) :
    ∃ stored, Record env s b stored ∧
      s.walk account next height (rounds + 1) (env.hash b) =
        if height = b.height then .found stored
        else s.walk account next height rounds (next stored) := by
  obtain ⟨stored, hget, hblock⟩ := h.get_hash hb.1
  refine ⟨stored, ⟨hget, hblock⟩, ?_⟩
  rw [Store.walk, hget]
  dsimp only
  rw [hblock, hb.2]
  simp only [and_true]

-- Upwards, each successor is the block one above.
theorem walk_up (h : LinkedChain env s account info) {rounds : Nat} {b c : Block}
    (hb : Member s account b) (hc : Member s account c) (htail : info.tailHeight ≤ b.height)
    (hle : b.height ≤ c.height) (hhead : c.height ≤ info.headHeight)
    (hrounds : c.height < b.height + rounds) :
    ∃ stored, Record env s c stored ∧
      s.walk account StoredBlock.successor c.height rounds (env.hash b) = .found stored := by
  induction rounds generalizing b with
  | zero => omega
  | succ rounds ih =>
      obtain ⟨stored, hrecord, hwalk⟩ := h.walk_step StoredBlock.successor c.height rounds hb
      rw [hwalk]
      by_cases hsame : c.height = b.height
      · have hbc : b = c := h.member_unique hb hc hsame.symm (by omega) hhead
        exact ⟨stored, hbc ▸ hrecord, if_pos hsame⟩
      · rw [if_neg hsame]
        have hnext := h.record_successor hb hrecord htail (by omega)
        rw [SuccessorAt, if_neg (show ¬b.height = info.headHeight by omega)] at hnext
        obtain ⟨above, hmem, haccount, hheight, hhash⟩ := hnext
        rw [← hhash]
        exact ih ⟨hmem, haccount⟩ (by omega) (by omega) (by omega)

-- Downwards, each previous hash is the block one below.
theorem walk_down (h : LinkedChain env s account info) {rounds : Nat} {b c : Block}
    (hb : Member s account b) (hc : Member s account c) (htail : info.tailHeight ≤ c.height)
    (hle : c.height ≤ b.height) (hhead : b.height ≤ info.headHeight)
    (hrounds : b.height < c.height + rounds) :
    ∃ stored, Record env s c stored ∧
      s.walk account (fun stored => stored.block.previous) c.height rounds (env.hash b) =
        .found stored := by
  induction rounds generalizing b with
  | zero => omega
  | succ rounds ih =>
      obtain ⟨stored, hrecord, hwalk⟩ := h.walk_step (fun stored => stored.block.previous) c.height
        rounds hb
      rw [hwalk]
      by_cases hsame : c.height = b.height
      · have hbc : b = c := h.member_unique hb hc hsame.symm (by omega) (by omega)
        exact ⟨stored, hbc ▸ hrecord, if_pos hsame⟩
      · rw [if_neg hsame, hrecord.2]
        obtain ⟨below, hbelow, hheight⟩ :=
          h.member_at (show info.tailHeight ≤ b.height - 1 by omega) (by omega)
        obtain ⟨hprevious, -⟩ :=
          h.linked below hbelow.1 b hb.1 hbelow.2 hb.2 (show b.height = below.height + 1 by omega)
        rw [hprevious]
        exact ih hbelow (by omega) (by omega) (by omega)

-- A walk starts at one end of the chain, or at a height that the index covers.
theorem walkFrom_eq (h : LinkedChain env s account info) {next : StoredBlock → BlockHash}
    {rounds start own : Nat} {b first : Block} (hb : Member s account b)
    (hstart : b.height = start) (hfirst : Member s account first) (hown : first.height = own)
    (htail : info.tailHeight ≤ start) (hhead : start ≤ info.headHeight)
    (hindex : start ≠ own → start % BLOCKS_PER_INDEX = 0) :
    s.walkFrom account next height rounds start own (env.hash first) =
      s.walk account next height rounds (env.hash b) := by
  unfold Store.walkFrom
  by_cases hsame : start = own
  · rw [if_neg (not_not_intro hsame)]
    have hbf : b = first := h.member_unique hb hfirst (by omega) (by omega) (by omega)
    rw [hbf]
  · have hget := (h.index start (env.hash b)).mpr
      ⟨hindex hsame, b, hb.1, hb.2, hstart, rfl⟩
    rw [if_pos hsame, Store.blockIndexGet_, hget]

theorem walkUp_finds (h : LinkedChain env s account info) {start : Nat} {c : Block}
    (hc : Member s account c) (htail : info.tailHeight ≤ start) (hle : start ≤ c.height)
    (hhead : c.height ≤ info.headHeight)
    (hindex : start ≠ info.tailHeight → start % BLOCKS_PER_INDEX = 0) :
    ∃ stored, Record env s c stored ∧ s.walkUp account info c.height start = .found stored := by
  obtain ⟨b, hb, hheight⟩ := h.member_at htail (show start ≤ info.headHeight by omega)
  obtain ⟨first, hmem, haccount, hfirst, hhash⟩ := h.tail
  rw [Store.walkUp, ← hhash,
    h.walkFrom_eq hb hheight ⟨hmem, haccount⟩ hfirst htail (by omega) hindex]
  exact h.walk_up hb hc (by omega) (by omega) hhead (by omega)

theorem walkDown_finds (h : LinkedChain env s account info) {end_ : Nat} {c : Block}
    (hc : Member s account c) (htail : info.tailHeight ≤ c.height) (hle : c.height ≤ end_)
    (hhead : end_ ≤ info.headHeight)
    (hindex : end_ ≠ info.headHeight → end_ % BLOCKS_PER_INDEX = 0) :
    ∃ stored, Record env s c stored ∧ s.walkDown account info c.height end_ = .found stored := by
  obtain ⟨b, hb, hheight⟩ := h.member_at (show info.tailHeight ≤ end_ by omega) hhead
  obtain ⟨first, hmem, haccount, hfirst, hhash⟩ := h.head
  rw [Store.walkDown, ← hhash,
    h.walkFrom_eq hb hheight ⟨hmem, haccount⟩ hfirst (by omega) hhead hindex]
  exact h.walk_down hb hc htail (by omega) (by omega) (by omega)

end LinkedChain

-- The end of the stride does not wrap around, or the walk goes up from its start.
def WalkInRange (info : AccountInfo) (height : Nat) : Prop :=
  Store.strideStart height + BLOCKS_PER_INDEX < 2 ^ 64 ∨
    2 * height < max (Store.strideStart height) info.tailHeight + 2 ^ 64

instance (info : AccountInfo) (height : Nat) : Decidable (WalkInRange info height) :=
  inferInstanceAs (Decidable (_ ∨ _))

theorem Store.strideStart_spec (height : Nat) : strideStart height ≤ height ∧
    height < strideStart height + BLOCKS_PER_INDEX ∧
    strideStart height % BLOCKS_PER_INDEX = 0 := by
  unfold strideStart BLOCKS_PER_INDEX
  omega

theorem Store.walkStart_spec (htail : info.tailHeight ≤ height) :
    info.tailHeight ≤ walkStart info height ∧ walkStart info height ≤ height ∧
      (walkStart info height ≠ info.tailHeight →
        walkStart info height % BLOCKS_PER_INDEX = 0) := by
  obtain ⟨hbelow, -, hmod⟩ := strideStart_spec height
  unfold walkStart
  dsimp only
  split_ifs with hclamp
  · exact ⟨le_rfl, htail, fun hne => absurd rfl hne⟩
  · exact ⟨by omega, hbelow, fun _ => hmod⟩

theorem Store.walkEnd_spec (hhead : height ≤ info.headHeight)
    (hrange : strideStart height + BLOCKS_PER_INDEX < 2 ^ 64) :
    height ≤ walkEnd info height ∧ walkEnd info height ≤ info.headHeight ∧
      (walkEnd info height ≠ info.headHeight →
        walkEnd info height % BLOCKS_PER_INDEX = 0) := by
  obtain ⟨-, habove, hmod⟩ := strideStart_spec height
  unfold walkEnd
  rw [Nat.mod_eq_of_lt hrange]
  unfold BLOCKS_PER_INDEX at *
  dsimp only
  split_ifs with hclamp
  · exact ⟨hhead, le_rfl, fun hne => absurd rfl hne⟩
  · exact ⟨by omega, by omega, fun _ => by omega⟩

-- In the last stride of all, `end` is zero and the difference to it is that to 2^64.
theorem Store.last_stride (hlt : height < 2 ^ 64) (htail : info.tailHeight ≤ height)
    (hrange : ¬strideStart height + BLOCKS_PER_INDEX < 2 ^ 64) :
    walkEnd info height = 0 ∧ (goesUp info height = true ↔
      2 * height < max (strideStart height) info.tailHeight + 2 ^ 64) := by
  obtain ⟨hbelow, habove, hmod⟩ := strideStart_spec height
  unfold BLOCKS_PER_INDEX at hrange habove hmod
  have hzero : walkEnd info height = 0 := by
    unfold walkEnd BLOCKS_PER_INDEX
    dsimp only
    rw [show strideStart height + 8 = 2 ^ 64 by omega]
    simp
  refine ⟨hzero, ?_⟩
  have hstart : walkStart info height = max (strideStart height) info.tailHeight := by
    unfold walkStart
    dsimp only
    split_ifs <;> omega
  rw [goesUp, decide_eq_true_iff, hzero, hstart]
  unfold sub64
  omega

namespace LinkedChain

theorem lookupAt_inside (h : LinkedChain env s account info) {c : Block}
    (hc : Member s account c) (htail : info.tailHeight ≤ c.height)
    (hhead : c.height ≤ info.headHeight) (hrange : WalkInRange info c.height) :
    ∃ stored, Record env s c stored ∧ s.lookupAt account c.height = .found stored := by
  rw [Store.lookupAt, h.opened]
  dsimp only
  rw [if_neg (by omega)]
  obtain ⟨hstart, hstartle, hstartmod⟩ := Store.walkStart_spec htail
  by_cases hup : Store.goesUp info c.height = true
  · rw [if_pos hup]
    exact h.walkUp_finds hc hstart hstartle hhead hstartmod
  · rw [if_neg hup]
    have hstride : Store.strideStart c.height + BLOCKS_PER_INDEX < 2 ^ 64 := by
      by_contra hwrap
      have hgoes := (Store.last_stride c.height_lt htail hwrap).2
      exact hup (hgoes.mpr (hrange.resolve_left hwrap))
    obtain ⟨hend, hendle, hendmod⟩ := Store.walkEnd_spec hhead hstride
    exact h.walkDown_finds hc htail hend hendle hendmod

-- Where the stride wraps around, no round of the loop downwards is made.
theorem lookupAt_wraps (h : LinkedChain env s account info) (htail : info.tailHeight ≤ height)
    (hhead : height ≤ info.headHeight) (hrange : ¬WalkInRange info height) :
    s.lookupAt account height = .aborted := by
  obtain ⟨top, -, -, htop, -⟩ := h.head
  have hlt := top.height_lt
  obtain ⟨hwrap, hdown⟩ := not_or.mp hrange
  obtain ⟨hzero, hgoes⟩ := Store.last_stride (show height < 2 ^ 64 by omega) htail hwrap
  have hpos : 0 < height := by
    unfold Store.strideStart BLOCKS_PER_INDEX at hwrap
    omega
  rw [Store.lookupAt, h.opened]
  dsimp only
  rw [if_neg (by omega), if_neg (fun hup => hdown (hgoes.mp hup)), Store.walkDown, hzero,
    show 0 + 1 - height = 0 by omega, Store.walkFrom]
  split_ifs
  · split <;> rfl
  · rfl

theorem lookupAt_outside (h : LinkedChain env s account info)
    (hout : height < info.tailHeight ∨ info.headHeight < height) :
    s.lookupAt account height = .error := by
  rw [Store.lookupAt, h.opened]
  exact if_pos hout

end LinkedChain

-- Exact, that is, wherever a height of the chain is in range of the walk.
theorem lookups_exact_iff (h : LinkedChain env s account info) (height : Nat) :
    LookupExact env s account info height ↔
      (info.tailHeight ≤ height → height ≤ info.headHeight → WalkInRange info height) := by
  constructor
  · intro hexact htail hhead
    by_contra hrange
    obtain ⟨b, successor, -, -, -, hfound, -⟩ := hexact.inside htail hhead
    rw [Store.blockAt, h.lookupAt_wraps htail hhead hrange] at hfound
    nomatch hfound
  · intro hrange
    constructor
    case inside =>
      intro htail hhead
      obtain ⟨c, hc, rfl⟩ := h.member_at htail hhead
      obtain ⟨stored, hrecord, hlookup⟩ := h.lookupAt_inside hc htail hhead (hrange htail hhead)
      refine ⟨c, stored.successor, ⟨hc.1, hc.2, rfl⟩, ?_,
        h.record_successor hc hrecord htail hhead, ?_, ?_⟩
      · intro other hmem haccount hheight
        exact h.member_unique ⟨hmem, haccount⟩ hc hheight htail hhead
      · rw [Store.blockAt, hlookup, Lookup.map, hrecord.2]
      · rw [Store.blockAndSuccessorAt, hlookup, Lookup.map, hrecord.2]
    case outside =>
      intro hout
      rw [Store.blockAt, Store.blockAndSuccessorAt, h.lookupAt_outside hout]
      exact ⟨rfl, rfl⟩

-- In a ledger of the sample blocks, at the head of the first account.
theorem sampleLookup_exact : ∃ info,
    LinkedChain sampleEnv sampleLedger.store (genesisPublicKey .test) info ∧
      (LookupExact sampleEnv sampleLedger.store (genesisPublicKey .test) info 1 ↔
        (info.tailHeight ≤ 1 → 1 ≤ info.headHeight → WalkInRange info 1)) := by
  have hopen : (sampleLedger.store.accounts.get (genesisPublicKey .test)).isSome = true := by
    decide +kernel
  obtain ⟨info, hinfo⟩ := Option.isSome_iff_exists.mp hopen
  obtain ⟨A, hA⟩ := sampleLedger_reachable.tracks sample_collisionFree
  have hchain := hA.represents.wellFormed.linkedChain hinfo
  exact ⟨info, hchain, lookups_exact_iff hchain 1⟩

section LastStride

-- A chain of three blocks that ends one below the largest height.
def lateHeight : Nat := 2 ^ 64 - 4

def lateBlock (n : Nat) : Block :=
  sampleTx .change 1 1 0 (UInt64.ofNat (lateHeight + n)) 1 (BitVec.ofNat 256 (lateHeight + n)) 1 0 0

def lateHash (n : Nat) : BlockHash := BitVec.ofNat 256 (lateHeight + n + 1)

def lateInfo : AccountInfo where
  type := .txBlock
  forks := 0
  headHeight := lateHeight + 2
  tailHeight := lateHeight
  confirmedHeight := INVALID_HEIGHT
  head := lateHash 2
  tail := lateHash 0

def lateStore : Store :=
  { Store.empty with
    accounts := Table.empty.put 1 lateInfo
    blocks := ((Table.empty.put (lateHash 0) ⟨lateBlock 0, lateHash 1⟩).put (lateHash 1)
      ⟨lateBlock 1, lateHash 2⟩).put (lateHash 2) ⟨lateBlock 2, 0⟩ }

theorem lateStore_get (hash : BlockHash) (b : Block) :
    lateStore.blockGet hash = some b ↔ ∃ n < 3, hash = lateHash n ∧ b = lateBlock n := by
  have hnumbers (p : Nat → Prop) : (∃ n < 3, p n) ↔ p 0 ∨ p 1 ∨ p 2 := by
    constructor
    · intro ⟨n, hn, hp⟩
      match n, hn with
      | 0, _ => exact .inl hp
      | 1, _ => exact .inr (.inl hp)
      | 2, _ => exact .inr (.inr hp)
    · intro h
      rcases h with h | h | h
      · exact ⟨0, by omega, h⟩
      · exact ⟨1, by omega, h⟩
      · exact ⟨2, by omega, h⟩
  have h01 : lateHash 0 ≠ lateHash 1 := by decide
  have h02 : lateHash 0 ≠ lateHash 2 := by decide
  have h12 : lateHash 1 ≠ lateHash 2 := by decide
  rw [hnumbers]
  simp only [Store.blockGet, lateStore, Table.get_put, Table.get_empty]
  by_cases h2 : hash = lateHash 2
  · simp [h2, h02.symm, h12.symm, eq_comm]
  by_cases h1 : hash = lateHash 1
  · simp [h1, h01.symm, h12, eq_comm]
  by_cases h0 : hash = lateHash 0
  · simp [h0, h01, h02, eq_comm]
  · simp [h0, h1, h2]

theorem mem_lateStore {b : Block} : b ∈ lateStore.blockSet ↔ ∃ n < 3, b = lateBlock n := by
  rw [Store.mem_blockSet]
  constructor
  · rintro ⟨hash, hget⟩
    obtain ⟨n, hn, -, hb⟩ := (lateStore_get hash b).mp hget
    exact ⟨n, hn, hb⟩
  · rintro ⟨n, hn, rfl⟩
    exact ⟨lateHash n, (lateStore_get _ _).mpr ⟨n, hn, rfl, rfl⟩⟩

theorem lateBlock_height {n : Nat} (h : n < 3) : (lateBlock n).height = lateHeight + n := by
  unfold lateHeight
  exact UInt64.toNat_ofNat_of_lt' (show 2 ^ 64 - 4 + n < 2 ^ 64 by omega)

theorem lateBlock_hash {n : Nat} (h : n < 3) : chainEnv.hash (lateBlock n) = lateHash n := by
  rw [chainEnv_hash, lateBlock_height h, lateHash]

theorem lateChain : LinkedChain chainEnv lateStore 1 lateInfo := by
  have hmem {n : Nat} (hn : n < 3) : lateBlock n ∈ lateStore.blockSet := mem_lateStore.mpr ⟨n, hn, rfl⟩
  constructor
  case opened => rfl
  case stored =>
    intro hash b hget
    obtain ⟨n, hn, rfl, rfl⟩ := (lateStore_get hash b).mp hget
    exact lateBlock_hash hn
  case tail_le_head => exact Nat.le_add_right _ _
  case at_height =>
    intro height htail hhead
    obtain ⟨n, rfl⟩ := Nat.exists_eq_add_of_le (show lateHeight ≤ height from htail)
    have hn : n < 3 := by
      change lateHeight + n ≤ lateHeight + 2 at hhead
      omega
    refine ⟨lateBlock n, ⟨hmem hn, rfl, lateBlock_height hn⟩, ?_⟩
    rintro b ⟨hb, -, hheight⟩
    obtain ⟨m, hm, rfl⟩ := mem_lateStore.mp hb
    rw [lateBlock_height hm] at hheight
    rw [show m = n by omega]
  case tail => exact ⟨lateBlock 0, hmem (by omega), rfl, lateBlock_height (by omega),
    lateBlock_hash (by omega)⟩
  case head => exact ⟨lateBlock 2, hmem (by omega), rfl, lateBlock_height (by omega),
    lateBlock_hash (by omega)⟩
  case linked =>
    intro p hp b hb _ _ hheight
    obtain ⟨n, hn, rfl⟩ := mem_lateStore.mp hp
    obtain ⟨m, hm, rfl⟩ := mem_lateStore.mp hb
    rw [lateBlock_height hn, lateBlock_height hm] at hheight
    obtain rfl : m = n + 1 := by omega
    rw [lateBlock_hash hn, lateBlock_hash hm]
    refine ⟨rfl, ?_⟩
    obtain rfl | rfl : n = 0 ∨ n = 1 := by omega
    · decide
    · decide
  case last => decide
  case index =>
    intro height hash
    refine iff_of_false (fun hget => nomatch hget) ?_
    rintro ⟨hmod, b, hb, -, rfl, -⟩
    obtain ⟨n, hn, rfl⟩ := mem_lateStore.mp hb
    rw [lateBlock_height hn] at hmod
    unfold lateHeight BLOCKS_PER_INDEX at hmod
    omega

theorem lateHead_aborts : LinkedChain chainEnv lateStore 1 lateInfo ∧
    lateInfo.tailHeight ≤ lateHeight + 2 ∧ lateHeight + 2 ≤ lateInfo.headHeight ∧
    lateStore.blockAt 1 (lateHeight + 2) = .aborted ∧
    ¬LookupExact chainEnv lateStore 1 lateInfo (lateHeight + 2) := by
  have htail : lateInfo.tailHeight ≤ lateHeight + 2 := Nat.le_add_right _ _
  have haborts : lateStore.blockAt 1 (lateHeight + 2) = .aborted := by
    rw [Store.blockAt, lateChain.lookupAt_wraps htail le_rfl (by decide)]
    rfl
  refine ⟨lateChain, htail, le_rfl, haborts, fun hexact => ?_⟩
  obtain ⟨b, successor, -, -, -, hfound, -⟩ := hexact.inside htail le_rfl
  rw [haborts] at hfound
  nomatch hfound

end LastStride

end Raicoin
