import Raicoin.Common.Stream
import Raicoin.Properties.Builders
import Raicoin.Refinement.Dynamic

-- The forks that are counted against an account are the ones that are stored.
namespace Raicoin

open Lib

namespace Processor

-- What the accounting promises of a state without pending operations.
structure ForksExact (p : Processor) : Prop where
  forks : ∀ account info, p.ledger.store.accountInfoGet account = some info →
    info.forks = p.forks.count account
  height : ∀ account info, p.ledger.store.accountInfoGet account = some info →
    ∀ height entry, p.forks.get (account, height) = some entry → height ≤ info.headHeight
  none : ∀ account, p.ledger.store.accountInfoGet account = none → p.forks.count account = 0

-- A step that keeps the accounts countable: an entry is counted only while the account
-- has less than 2 ^ 16 - 1 of them, LMDB takes what `UpdateForks_` writes, and no
-- operation gets a number that is in use.
def Countable (env : Env) (p : Processor) : Action → Prop
  | .block .. => True
  | .fork now _ first second => Room env now p.ledger p.forks first second
  | .forced operation fails _ => fails = ForkCall.never ∧
      (operation < DYNAMIC_BEGIN → p.dynamic.get (dynamicOpration_ p.operation).1 = none)

-- The invariant: accounts that no pending operation has touched are counted.
structure Accounted (env : Env) (blocks : Set Block) (p : Processor) : Prop where
  tracks : ∃ A : Lattice env, Tracks blocks p.ledger A
  keyed : p.forks.Keyed
  few : ∀ account, p.forks.count account < 2 ^ 16
  counted : ∀ account, (∀ number pending, p.dynamic.get number = some pending →
    account ∉ pending.accounts) → Counted p.ledger p.forks account
  within : ∀ number pending, p.dynamic.get number = some pending →
    StackWithin blocks pending.stack pending.accounts

variable {env : Env} {blocks : Set Block} {p p' : Processor} {A : Lattice env}

theorem Accounted.exact (h : Accounted env blocks p) (hidle : p.dynamic = .empty) :
    ForksExact p := by
  have hcounted (account : Account) : Counted p.ledger p.forks account := by
    refine h.counted account fun number pending hget => ?_
    rw [hidle, Table.get_empty] at hget
    cases hget
  constructor
  · intro account info hinfo
    have hc := hcounted account
    unfold Counted at hc
    rw [hinfo] at hc
    exact hc.1
  · intro account info hinfo
    have hc := hcounted account
    unfold Counted at hc
    rw [hinfo] at hc
    exact hc.2
  · intro account hinfo
    have hc := hcounted account
    unfold Counted at hc
    rw [hinfo] at hc
    exact hc

theorem start_accounted (hcf : CollisionFree env blocks) (enableRichList enableDelegatorList : Bool) :
    Accounted env blocks (start env enableRichList enableDelegatorList) where
  tracks := ⟨_, tracks_genesis hcf _ _⟩
  keyed := by
    intro key entry hget
    simp [start] at hget
  few := by
    intro account
    simp [start, ForkTable.count_empty]
  counted := by
    intro account _
    unfold Counted
    rw [show (start env enableRichList enableDelegatorList).ledger.store = genesisStore env by
      rw [start, genesisLedger_eq]; rfl]
    simp only [start, ForkTable.count_empty, Store.accountInfoGet, genesisStore, Table.get_put,
      Table.get_empty, Table.get_empty]
    split
    · trivial
    · rename_i info hget
      split at hget
      · cases hget
        exact ⟨rfl, fun height entry hentry => by simp at hentry⟩
      · cases hget
  within := by
    intro number pending hget
    simp [start] at hget

-- A forced block starts or continues an operation, and its account is recorded.
theorem forced_within (h : Accounted env blocks p) {operation number next : UInt64} {b : Block}
    (hb : b ∈ blocks)
    (hfresh : operation < DYNAMIC_BEGIN → p.dynamic.get (dynamicOpration_ p.operation).1 = none)
    {pending : Pending} (hforced : p.processBlockForced_ operation b = some (number, pending, next)) :
    StackWithin blocks pending.stack pending.accounts ∧
      ∀ old, p.dynamic.get number = some old → ∀ a ∈ old.accounts, a ∈ pending.accounts := by
  unfold processBlockForced_ at hforced
  split at hforced
  · obtain ⟨old, hold, heq⟩ := Option.map_eq_some_iff.mp hforced
    simp only [Prod.mk.injEq] at heq
    obtain ⟨rfl, rfl, -⟩ := heq
    have hsub : ∀ a ∈ old.accounts, a ∈ old.accounts.insert b.account :=
      fun a ha => List.mem_insert_of_mem ha
    refine ⟨fun top htop c hc => ?_, fun other hother => ?_⟩
    · have hwithin := (h.within _ _ hold).mono hsub
      dsimp only [answer] at htop
      split at htop
      · exact absurd htop List.not_mem_nil
      · rename_i first rest hstack
        rcases List.mem_cons.mp htop with rfl | htop
        · obtain rfl := Option.some.inj hc
          exact ⟨hb, fun _ => List.mem_insert_self ..⟩
        · exact hwithin top (hstack ▸ List.mem_cons_of_mem _ htop) c hc
    · obtain rfl := Option.some.inj (hold.symm.trans hother)
      exact hsub
  · rename_i hnew
    obtain ⟨forced, -, heq⟩ := Option.map_eq_some_iff.mp hforced
    simp only [Prod.mk.injEq] at heq
    obtain ⟨rfl, rfl, -⟩ := heq
    refine ⟨fun top htop c hc => ?_, fun other hother => ?_⟩
    · obtain rfl := List.mem_singleton.mp htop
      obtain rfl := Option.some.inj hc
      exact ⟨hb, fun _ => List.mem_singleton_self _⟩
    · rw [hfresh (UInt64.not_le.mp hnew)] at hother
      cases hother

-- An account that is clean after an operation was clean before it.
theorem clean_before {number : UInt64} {pending : Pending} {accounts : List Account}
    {account : Account}
    (hold : ∀ old, p.dynamic.get number = some old → ∀ a ∈ old.accounts, a ∈ pending.accounts)
    (hsub : ∀ a ∈ pending.accounts, a ∈ accounts) (hout : account ∉ accounts)
    (hothers : ∀ other pending', other ≠ number → p.dynamic.get other = some pending' →
      account ∉ pending'.accounts) :
    ∀ other pending', p.dynamic.get other = some pending' → account ∉ pending'.accounts := by
  intro other pending' hget hin
  by_cases he : other = number
  · subst he
    exact hout (hsub _ (hold pending' hget _ hin))
  · exact hothers other pending' he hget hin

theorem Step.accounted {action : Action} (hstep : Step env p action p')
    (hcf : CollisionFree env blocks) (hmem : action.Within blocks)
    (hallowed : Countable env p action) (h : Accounted env blocks p) :
    Accounted env blocks p' := by
  obtain ⟨A, hA⟩ := h.tracks
  cases hstep with
  | @block now fails b =>
      unfold processBlock_
      cases hrun : appendBlock_ env now b (.begin_ p.ledger fails) with
      | ok u t =>
          have heffect := @BlockCall.effect env p.ledger (.append now b) fails t u hrun
          obtain ⟨A', -, hA'⟩ := heffect.tracks hcf hmem hA
          exact ⟨⟨A', hA'⟩, h.keyed, h.few, fun account hclean =>
            heffect.counted hcf hmem hA (by simp) (h.counted account hclean), h.within⟩
      | error code t =>
          exact ⟨⟨A, hA.represents, hA.subset⟩, h.keyed, h.few, fun account hclean =>
            (h.counted account hclean).of_store rfl, h.within⟩
  | blockRefused => exact h
  | @fork now fails first second result hresult =>
      have hforked := @processBlockFork_spec env blocks A p.ledger p.forks first second now fails hA
        h.keyed h.few hallowed
      rw [hresult] at hforked
      exact ⟨⟨A, hforked.tracks⟩, hforked.keyed, hforked.few, fun account hclean =>
        hforked.counted account (h.counted account hclean), h.within⟩
  | ignored _ => exact h
  | @waits operation number next fails b pending pending' l hforced hrun =>
      obtain ⟨hstack, hold⟩ := forced_within h hmem hallowed.2 hforced
      have hcarried := @loop_carried env blocks A p.ledger p.forks pending hcf hA hstack _ hrun
      obtain ⟨hcarried, hwithin⟩ := hcarried
      refine ⟨hcarried.tracks, h.keyed, h.few, fun account hclean => ?_, fun other pending'' hget => ?_⟩
      · have hout : account ∉ pending'.accounts := hclean number pending' (by simp)
        refine hcarried.counted account hout (h.counted account ?_)
        refine clean_before hold hcarried.accounts_sub hout fun other pending'' hne hget => ?_
        exact hclean other pending'' (by simp [hne, hget])
      · dsimp only at hget
        rw [Table.get_put] at hget
        split at hget
        · cases hget
          exact hwithin
        · exact h.within other pending'' hget
  | @finishes operation number next fails b pending l accounts hforced hrun =>
      obtain ⟨hstack, hold⟩ := forced_within h hmem hallowed.2 hforced
      have hcarried := @loop_carried env blocks A p.ledger p.forks pending hcf hA hstack _ hrun
      dsimp only at hcarried
      obtain ⟨A', hA'⟩ := hcarried.tracks
      have hswept := @updateForks_spec env blocks A' l p.forks accounts hA' h.keyed h.few
      obtain rfl := hallowed.1
      refine ⟨⟨A', hswept.tracks⟩, hswept.keyed, fun account =>
        Nat.lt_of_le_of_lt (hswept.count_le account) (h.few account), fun account hclean =>
        hswept.counted account ?_, fun other pending'' hget => ?_⟩
      · by_cases hin : account ∈ accounts
        · exact .inl hin
        · refine .inr (hcarried.counted account hin (h.counted account ?_))
          refine clean_before hold hcarried.accounts_sub hin fun other pending'' hne hget => ?_
          exact hclean other pending'' (by simp [hne, hget])
      · dsimp only at hget
        rw [Table.get_del] at hget
        split at hget
        · cases hget
        · exact h.within other pending'' hget

-- The run lemma.
theorem Reachable.accounted (hcf : CollisionFree env blocks)
    (h : Reachable env blocks (Countable env) p) : Accounted env blocks p := by
  induction h with
  | start enableRichList enableDelegatorList => exact start_accounted hcf _ _
  | step _ hmem hallowed hstep ih => exact hstep.accounted hcf hmem hallowed ih

-- As long as no fork is counted against an account that has 2 ^ 16 - 1 of them already,
-- the counts are exact whenever no operation is pending.
theorem fork_accounting (hcf : CollisionFree env blocks)
    (h : Reachable env blocks (Countable env) p) (hidle : p.dynamic = .empty) : ForksExact p :=
  (h.accounted hcf).exact hidle

-- A fork of the genesis block, counted.
def sampleTwin : Block :=
  sampleTx .send 512 1 TEST_EPOCH_TIMESTAMP 0 (genesisPublicKey .test) 0 0 0 1

theorem fork_accounting_sample : ForksExact
    { start sampleEnv true true with
      ledger := (processBlockFork_ sampleEnv sampleNow ForkCall.never (start sampleEnv true true).ledger
        .empty (genesisBlock .test) sampleTwin).ledger
      forks := (processBlockFork_ sampleEnv sampleNow ForkCall.never (start sampleEnv true true).ledger
        .empty (genesisBlock .test) sampleTwin).forks } := by
  have hroom : Countable sampleEnv (start sampleEnv true true)
      (.fork sampleNow ForkCall.never (genesisBlock .test) sampleTwin) := by
    intro info head _ _ _ _ _ _
    change ForkTable.count .empty _ < _
    rw [ForkTable.count_empty]
    decide
  have hstart : Reachable sampleEnv {b | b ∈ sampleBlocks} (Countable sampleEnv)
      (start sampleEnv true true) := .start true true
  exact fork_accounting sample_collisionFree
    (hstart.step (show Action.Within _ (.fork ..) from trivial) hroom (.fork rfl)) rfl

end Processor

-- The genesis account buys all the credit there is and makes 2 ^ 16 blocks in one day, and
-- then a second block for each height.
section Wrap

-- The hash is the next height, which keeps the blocks of one chain apart.
def chainEnv : Env where
  network := .test
  blake2b bytes := BitVec.ofNat 256 (fromBigEndian ((bytes.drop 16).take 8) + 1)
  validateMessage _ _ _ := false

theorem chainEnv_hash (b : Block) : chainEnv.hash b = BitVec.ofNat 256 (b.height + 1) := by
  have hsplit : ∃ before after, before.length = 16 ∧
      b.hashInput = before ++ (bigEndian 8 b.height ++ after) := by
    refine ⟨bigEndian 1 b.type.number ++ bigEndian 1 b.opcode.number ++ bigEndian 2 b.credit ++
      bigEndian 4 b.counter ++ bigEndian 8 b.timestamp, ?_, ?_, ?_⟩
    rotate_left
    · simp
    · simp only [Block.hashInput, Block.hashHeader, List.flatten_cons, List.append_assoc]
      rfl
  obtain ⟨before, after, hlength, hinput⟩ := hsplit
  have hlt := b.height_lt
  unfold Env.hash chainEnv
  dsimp only
  rw [hinput, List.drop_left' hlength, List.take_left' (bigEndian_length 8 _),
    fromBigEndian_bigEndian 8 (by omega)]

def chainTime : Nat := TEST_EPOCH_TIMESTAMP + DAY

def chainBlock : Nat → Block
  | 0 => genesisBlock .test
  | 1 => sampleTx .credit 65535 1 chainTime 1 (genesisPublicKey .test) 1
      (genesisRepresentative .test) (10000000 * RAI - 65023 * RAI) 0
  | n + 2 => sampleTx .change 65535 (n + 2) chainTime (UInt64.ofNat (n + 2)) (genesisPublicKey .test)
      (BitVec.ofNat 256 (n + 2)) (genesisRepresentative .test) (10000000 * RAI - 65023 * RAI) 0

-- What else the account could have put at a height.
def twinBlock (n : Nat) : Block :=
  sampleTx .send 65535 1 chainTime (UInt64.ofNat n) (genesisPublicKey .test)
    (BitVec.ofNat 256 n) (genesisRepresentative .test) 0 1

theorem chainBlock_height {n : Nat} (h : n < 2 ^ 16) : (chainBlock n).height = n := by
  match n with
  | 0 => decide
  | 1 => decide
  | n + 2 => exact UInt64.toNat_ofNat_of_lt' (by change n + 2 < 2 ^ 64; omega)

theorem chainBlock_account (n : Nat) : (chainBlock n).account = genesisPublicKey .test := by
  match n with
  | 0 => rfl
  | 1 => rfl
  | n + 2 => rfl

-- The blocks after the genesis block are alike but for their heights and counters.
theorem chainBlock_fields (n : Nat) : (chainBlock (n + 1)).type = .txBlock ∧
    (chainBlock (n + 1)).timestamp = chainTime ∧ (chainBlock (n + 1)).credit = 65535 ∧
    (chainBlock (n + 1)).representative = genesisRepresentative .test ∧
    (chainBlock (n + 1)).balance = BitVec.ofNat 128 (10000000 * RAI - 65023 * RAI) := by
  match n with
  | 0 => exact ⟨rfl, rfl, rfl, rfl, rfl⟩
  | n + 1 => exact ⟨rfl, rfl, rfl, rfl, rfl⟩

theorem chainBlock_ne_twin (n : Nat) : chainBlock n ≠ twinBlock n := by
  intro heq
  have hopcode := congrArg Block.opcode heq
  match n with
  | 0 => exact absurd hopcode (by decide)
  | 1 => exact absurd hopcode (by decide)
  | n + 2 => exact absurd hopcode (by simp [chainBlock, twinBlock, sampleTx, Block.opcode])

theorem chainBlock_counter {n : Nat} (h : n + 1 < 2 ^ 16) : (chainBlock (n + 1)).counter = n + 1 := by
  match n with
  | 0 => rfl
  | n + 1 => exact UInt32.toNat_ofNat_of_lt' (by change n + 2 < 2 ^ 32; omega)

-- The second block buys credit.
theorem credit_built : BlockBuilder.Built chainEnv (UInt64.ofNat chainTime)
    (genesisPublicKey .test) (some (chainBlock 0)) none (chainBlock 1) := by
  refine ⟨rfl, rfl, rfl, by decide, by decide, fun _ => rfl, by decide,
    ⟨rfl, ?_, by decide, by decide, by decide, ?_, fun _ _ => rfl, ?_⟩, fun hop => by cases hop⟩
  · rw [chainEnv_hash]
    decide
  · rw [if_neg (by decide)]
    unfold CounterIncrease
    decide
  · change (chainBlock 0).balance.toNat = (chainBlock 1).balance.toNat +
      creditPrice .test (chainBlock 1).timestamp * ((chainBlock 1).credit - (chainBlock 0).credit)
    decide

-- Every later one changes nothing, and uses up one transaction of the day.
theorem change_built {n : Nat} (h : n + 2 < 2 ^ 16) :
    BlockBuilder.Built chainEnv (UInt64.ofNat chainTime) (genesisPublicKey .test)
      (some (chainBlock (n + 1))) none (chainBlock (n + 2)) := by
  obtain ⟨htype, htime, hcredit, hrep, hbalance⟩ := chainBlock_fields n
  have hheight := chainBlock_height (show n + 1 < 2 ^ 16 by omega)
  have hheight' := chainBlock_height h
  have hcounter := chainBlock_counter (show n + 1 < 2 ^ 16 by omega)
  have hcounter' := chainBlock_counter h
  obtain ⟨-, htime', hcredit', -, hbalance'⟩ := chainBlock_fields (n + 1)
  refine ⟨rfl, rfl, rfl, ?_, ?_, fun _ => rfl, ⟨by simp [chainBlock, sampleTx, Block.opcode],
    by simp [chainBlock, sampleTx, Block.opcode]⟩, ⟨htype.symm, ?_, ?_, ?_, ?_, ?_, ?_, ?_⟩,
    fun hop => by cases hop⟩
  · rw [htime']
    decide
  · rw [htime']
    decide
  · rw [chainEnv_hash, hheight]
    rfl
  · rw [hheight, hheight']
    omega
  · rw [htime, htime']
  · exact hcredit'.trans hcredit.symm
  · rw [if_neg (by simp [chainBlock, sampleTx, Block.opcode])]
    unfold CounterIncrease
    rw [htime, htime', if_pos (show SameDay chainTime chainTime from rfl), hcounter, hcounter']
    rw [hcredit']
    unfold TRANSACTIONS_PER_CREDIT
    omega
  · intro _ _
    exact hrep
  · exact hbalance'.trans hbalance.symm

theorem chain_built {n : Nat} (h : n + 1 < 2 ^ 16) :
    BlockBuilder.Built chainEnv (UInt64.ofNat chainTime) (genesisPublicKey .test)
      (some (chainBlock n)) none (chainBlock (n + 1)) := by
  cases n with
  | zero => exact credit_built
  | succ n => exact change_built h

def chainBlocks : Set Block := {b | ∃ n < 2 ^ 16, b = chainBlock n}

theorem chain_collisionFree : CollisionFree chainEnv chainBlocks where
  hashInput := by
    rintro _ ⟨n, hn, rfl⟩ _ ⟨m, hm, rfl⟩ hhash
    rw [chainEnv_hash, chainEnv_hash, chainBlock_height hn, chainBlock_height hm] at hhash
    have heq := congrArg BitVec.toNat hhash
    rw [BitVec.toNat_ofNat, BitVec.toNat_ofNat] at heq
    have hnm : n = m := by omega
    rw [hnm]
  ne_zero := by
    rintro _ ⟨n, hn, rfl⟩ hzero
    rw [chainEnv_hash, chainBlock_height hn] at hzero
    have heq := congrArg BitVec.toNat hzero
    rw [BitVec.toNat_ofNat] at heq
    change _ = 0 at heq
    omega
  ne_genesis_link := by
    rintro _ ⟨n, hn, rfl⟩ hlink
    rw [chainEnv_hash, chainBlock_height hn] at hlink
    have heq := congrArg BitVec.toNat hlink
    rw [BitVec.toNat_ofNat] at heq
    have hlarge : 2 ^ 64 < (genesisBlock chainEnv.network).link.toNat := by decide
    omega
  height_ne := by
    rintro _ ⟨n, hn, rfl⟩
    rw [chainBlock_height hn]
    unfold INVALID_HEIGHT
    omega
  genesis_mem := ⟨0, by decide, rfl⟩

open Processor

theorem Processor.Reachable.free {env : Env} {blocks : Set Block}
    {allowed : Processor → Action → Prop} {p : Processor}
    (h : Processor.Reachable env blocks allowed p) :
    Processor.Reachable env blocks (fun _ _ => True) p := by
  induction h with
  | start enableRichList enableDelegatorList => exact .start _ _
  | step _ hmem _ hstep ih => exact ih.step hmem trivial hstep

-- The chain is appended, block by block.
theorem chain_reached {n : Nat} (h : n < 2 ^ 16) : ∃ (p : Processor) (A : Lattice chainEnv),
    Processor.Reachable chainEnv chainBlocks (Countable chainEnv) p ∧ Tracks chainBlocks p.ledger A ∧
      Stands p.ledger.store (genesisPublicKey .test) (some (chainBlock n)) ∧
      p.forks = .empty ∧ p.dynamic = .empty := by
  induction n with
  | zero =>
      refine ⟨start chainEnv true true, _, .start true true,
        tracks_genesis chain_collisionFree true true, ?_, rfl, rfl⟩
      exact ⟨.first .txBlock (chainEnv.hash (genesisBlock .test)), by decide,
        by decide +kernel⟩
  | succ n ih =>
      obtain ⟨p, A, hp, hA, hstands, hforks, hdynamic⟩ := ih (by omega)
      have hmem : chainBlock (n + 1) ∈ chainBlocks := ⟨n + 1, h, rfl⟩
      obtain ⟨on, hready⟩ := built_ready chain_collisionFree hA hmem (chain_built h) hstands
        (fun _ hcoins => by cases hcoins) (by decide) (by decide)
      obtain ⟨t, hrun⟩ := appendBlock_never hready
      obtain ⟨A', hA', hon⟩ := built_appended chain_collisionFree hA hmem hrun
      have hledger : processBlock_ chainEnv (UInt64.ofNat chainTime).toNat StoreCall.never p.ledger
          (chainBlock (n + 1)) = t.commit := by
        rw [processBlock_, hrun]
      refine ⟨{ p with ledger := t.commit }, A', hledger ▸ hp.step (show Action.Within _
        (.block (UInt64.ofNat chainTime).toNat StoreCall.never (chainBlock (n + 1))) from hmem)
        trivial .block, hA', ?_, hforks, hdynamic⟩
      rw [chainBlock_account] at hon
      exact hon

-- What `ProcessBlockFork_` does with a new fork of an account that may have more.
theorem processBlockFork_new {env : Env} {now : Nat} {l : Ledger} {forks : ForkTable}
    {first second head : Block} {info : AccountInfo} (hfork : first.forkWith second = true)
    (hinfo : l.store.accountInfoGet first.account = some info) (hvalid : info.valid = true)
    (hheight : first.height ≤ info.headHeight)
    (hnew : forks.get (first.account, first.height) = none)
    (hhead : l.store.blockGet info.head = some head)
    (hallowed : info.forks < maxAllowedForks env.network now head.credit + 2) :
    ∃ election, processBlockFork_ env now ForkCall.never l forks first second =
      ⟨l.putInfo first.account { info with forks := (info.forks + 1) % 2 ^ 16 },
        forks.put (first.account, first.height) (first, second), true, election, none⟩ := by
  have hfilter : (l.store.accountInfoGet first.account).filter AccountInfo.valid = some info := by
    simp [hinfo, Option.filter, hvalid]
  unfold processBlockFork_
  simp only [hfork, hfilter, hhead, ForkCall.never, Table.contains, hnew, Option.isSome_none,
    Nat.not_lt.mpr hheight, hallowed, if_true, if_false, or_self, Bool.true_eq_false,
    Bool.false_eq_true]
  exact ⟨_, rfl⟩

-- Fork after fork is stored, and the 16 bits count them.
theorem twins_reached {k : Nat} (h : k ≤ 2 ^ 16) : ∃ (p : Processor) (info : AccountInfo),
    Processor.Reachable chainEnv chainBlocks (fun _ _ => True) p ∧ p.dynamic = .empty ∧
      p.ledger.store.accountInfoGet (genesisPublicKey .test) = some info ∧ info.valid = true ∧
      info.headHeight = 2 ^ 16 - 1 ∧
      p.ledger.store.blockGet info.head = some (chainBlock (2 ^ 16 - 1)) ∧
      info.forks = k % 2 ^ 16 ∧ p.forks.count (genesisPublicKey .test) = k ∧
      ∀ height, k ≤ height → p.forks.get (genesisPublicKey .test, height) = none := by
  induction k with
  | zero =>
      obtain ⟨p, A, hp, hA, ⟨info, hinfo, hhead⟩, hforks, hdynamic⟩ :=
        chain_reached (show 2 ^ 16 - 1 < 2 ^ 16 by decide)
      obtain ⟨b, hb, -, hheight, -, -, -, hget⟩ := hA.represents.head hinfo
      obtain rfl := Option.some.inj (hget.symm.trans hhead)
      have hcount := ((hp.accounted chain_collisionFree).exact hdynamic).forks _ _ hinfo
      rw [hforks, ForkTable.count_empty] at hcount
      refine ⟨p, info, hp.free, hdynamic, hinfo, hA.represents.valid hinfo, ?_, hhead, hcount, ?_,
        fun height _ => ?_⟩
      · rw [← hheight, chainBlock_height (by decide)]
      · rw [hforks, ForkTable.count_empty]
      · rw [hforks, Table.get_empty]
  | succ k ih =>
      obtain ⟨p, info, hp, hdynamic, hinfo, hvalid, hheight, hhead, hforks, hcount, hnone⟩ :=
        ih (by omega)
      have hk := chainBlock_height (show k < 2 ^ 16 by omega)
      have haccount := chainBlock_account k
      have hfork : (chainBlock k).forkWith (twinBlock k) = true := by
        have htwin : (twinBlock k).height = k :=
          UInt64.toNat_ofNat_of_lt' (by change k < 2 ^ 64; omega)
        have haccount' : (chainBlock k).account = (twinBlock k).account := haccount
        simp [Block.forkWith, haccount', hk, htwin, chainBlock_ne_twin k]
      have hallowed : info.forks <
          maxAllowedForks chainEnv.network chainTime (chainBlock (2 ^ 16 - 1)).credit + 2 := by
        have hcredit : (chainBlock (2 ^ 16 - 1)).credit = 65535 :=
          (chainBlock_fields (2 ^ 16 - 2)).2.2.1
        have hbase : baseAllowedForks chainEnv.network chainTime = 4 := by decide
        unfold maxAllowedForks EXTRA_FORKS_PER_CREDIT
        rw [hbase, hcredit]
        omega
      obtain ⟨election, hresult⟩ := @processBlockFork_new chainEnv chainTime p.ledger p.forks
        (chainBlock k) (twinBlock k) (chainBlock (2 ^ 16 - 1)) info hfork (haccount ▸ hinfo) hvalid
        (by omega) (by rw [haccount, hk]; exact hnone k (Nat.le_refl k)) hhead hallowed
      rw [haccount, hk] at hresult
      refine ⟨_, { info with forks := (info.forks + 1) % 2 ^ 16 },
        hp.step (show Action.Within _ (.fork chainTime ForkCall.never (chainBlock k)
          (twinBlock k)) from trivial) trivial (.fork hresult),
        hdynamic, ?_, hvalid, hheight, hhead, ?_, ?_, fun height hle => ?_⟩
      · rw [putInfo_accountInfoGet, if_pos rfl]
      · dsimp only
        rw [hforks]
        omega
      · dsimp only
        rw [ForkTable.count_put_new (hnone k (Nat.le_refl k)), hcount]
      · dsimp only
        rw [Table.get_put, if_neg (by simp only [Prod.mk.injEq, true_and]; omega)]
        exact hnone height (by omega)

-- With 2 ^ 16 forks stored the account counts none.
theorem forks_wrap : CollisionFree chainEnv chainBlocks ∧ ∃ p : Processor,
    Processor.Reachable chainEnv chainBlocks (fun _ _ => True) p ∧ p.dynamic = .empty ∧
      ¬p.ForksExact := by
  obtain ⟨p, info, hp, hdynamic, hinfo, -, -, -, hforks, hcount, -⟩ := twins_reached (Nat.le_refl _)
  refine ⟨chain_collisionFree, p, hp, hdynamic, fun hexact => ?_⟩
  have heq := hexact.forks _ _ hinfo
  rw [hforks, hcount] at heq
  omega

end Wrap

end Raicoin
