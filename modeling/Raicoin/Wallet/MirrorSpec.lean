import Raicoin.Lib.Chains
import Raicoin.Wallet.Mirror

-- The wallet's ledger shows one chain for each account.
namespace Raicoin

open Lib

def blockShape (env : Env) : Shape Block BlockHash Account where
  hash := env.hash
  previous := Block.previous
  owner := Block.account
  height := Block.height

-- What is assumed of the blocks that reach the wallet: no chain receives one link twice.
structure ReceivesOnce (env : Env) (blocks : Set Block) : Prop where
  apart : (blockShape env).Apart blocks
  ne_zero : ∀ b ∈ blocks, env.hash b ≠ 0
  height_ne : ∀ b ∈ blocks, b.height ≠ INVALID_HEIGHT
  once : ∀ account chain, (∀ b ∈ chain, b ∈ blocks) → (blockShape env).Chain account chain →
    ((chain.filter fun b => b.opcode = .receive).map Block.link).Nodup

-- And what is sent is sent to one account.
structure InPlay (env : Env) (blocks : Set Block) : Prop extends ReceivesOnce env blocks where
  own : ∀ b ∈ blocks, ∀ c ∈ blocks, b.opcode = .receive → c.opcode = .receive →
    b.link = c.link → b.account = c.account

def rows (blocks : Table BlockHash StoredBlock) (hash : BlockHash) : Option (Block × BlockHash) :=
  (blocks.get hash).map fun stored => (stored.block, stored.successor)

theorem rows_eq_some {blocks : Table BlockHash StoredBlock} {hash successor : BlockHash}
    {block : Block} :
    rows blocks hash = some (block, successor) ↔ blocks.get hash = some ⟨block, successor⟩ := by
  unfold rows
  rw [Option.map_eq_some_iff]
  constructor
  · rintro ⟨stored, hstored, heq⟩
    cases heq
    exact hstored
  · intro hget
    exact ⟨_, hget, rfl⟩

theorem rows_put (blocks : Table BlockHash StoredBlock) (hash : BlockHash) (stored : StoredBlock) :
    rows (blocks.put hash stored) =
      Function.update (rows blocks) hash (some (stored.block, stored.successor)) := by
  funext key
  by_cases hkey : key = hash <;> simp [rows, hkey]

theorem rows_del (blocks : Table BlockHash StoredBlock) (hash : BlockHash) :
    rows (blocks.del hash) = Function.update (rows blocks) hash none := by
  funext key
  by_cases hkey : key = hash <;> simp [rows, hkey]

def ShowsInfo (env : Env) : List Block → Option AccountInfo → Prop
  | [], o => o = none
  | b :: rest, o => ∃ info, o = some info ∧ info.head = env.hash b ∧
      info.headHeight = rest.length ∧ info.tailHeight = 0 ∧ info.tail ≠ 0 ∧
      (info.confirmedHeight = INVALID_HEIGHT ∨ info.confirmedHeight ≤ info.headHeight)

def ShowsHeights (env : Env) (chains : Account → List Block)
    (index : Table (Account × Nat) BlockHash) : Prop :=
  ∀ account height hash, index.get (account, height) = some hash ↔
    height % BLOCKS_PER_INDEX = 0 ∧ ∃ b ∈ chains account, b.height = height ∧ env.hash b = hash

-- What is received is a source, and nobody could take it in once more.
def ReceivedOnce (chains : Account → List Block) (l : WalletLedger) : Prop :=
  ∀ account, ∀ b ∈ chains account, b.opcode = .receive →
    l.sources.contains b.link = true ∧ l.store.receivableInfoGet account b.link = none

structure Shows (env : Env) (blocks : Set Block) (l : WalletLedger) (chains : Account → List Block) :
    Prop where
  stores : (blockShape env).Stores blocks 0 chains (rows l.store.blocks)
  infos : ∀ account, ShowsInfo env (chains account) (l.store.accountInfoGet account)
  heights : ShowsHeights env chains l.store.blocksIndex
  received : ReceivedOnce chains l

section Chains

variable {env : Env} {blocks : Set Block} {chains : Account → List Block} {l : WalletLedger}
  {account : Account} {b p : Block} {rest : List Block}

theorem Shows.empty : Shows env blocks .empty fun _ => [] where
  stores := Shape.Stores.empty
  infos := fun _ => rfl
  heights := fun _ _ _ => ⟨fun h => (by cases h), fun ⟨_, _, h, _⟩ => (by cases h)⟩
  received := fun _ _ h => (by cases h)

theorem Shows.account_eq (h : Shows env blocks l chains) (hb : b ∈ chains account) :
    b.account = account :=
  (h.stores.chain account).owner_eq hb

theorem Shows.height_eq (h : Shows env blocks l chains) (hchain : chains account = b :: rest) :
    b.height = rest.length := by
  have hc := h.stores.chain account
  rw [hchain] at hc
  exact hc.2.1

theorem Shows.mem (h : Shows env blocks l chains) (hchain : chains account = b :: rest) :
    b ∈ blocks :=
  h.stores.mem account b (hchain ▸ List.mem_cons_self)

theorem Shows.head_get (h : Shows env blocks l chains) (hchain : chains account = b :: rest) :
    l.store.blocks.get (env.hash b) = some ⟨b, 0⟩ := by
  have hentry : (b, (0 : BlockHash)) ∈ (blockShape env).entries 0 (chains account) := by
    rw [hchain]
    exact List.mem_cons_self
  have hrow := h.stores.get_of_entry hentry
  exact rows_eq_some.mp hrow

-- The chains of the other accounts stay as they are.
theorem ShowsInfo.update {accounts accounts' : Account → Option AccountInfo} {chain : List Block}
    (h : ∀ account, ShowsInfo env (chains account) (accounts account))
    (hown : ShowsInfo env chain (accounts' account))
    (hother : ∀ other, other ≠ account → accounts' other = accounts other) (other : Account) :
    ShowsInfo env (Function.update chains account chain other) (accounts' other) := by
  by_cases hne : other = account
  · rw [hne, Function.update_self]
    exact hown
  · rw [Function.update_of_ne hne, hother other hne]
    exact h other

theorem ShowsHeights.push {index : Table (Account × Nat) BlockHash}
    (h : ShowsHeights env chains index) (hheight : b.height = (chains b.account).length)
    (hchain : (blockShape env).Chain b.account (chains b.account)) :
    ShowsHeights env (Function.update chains b.account (b :: chains b.account))
      (if b.height % BLOCKS_PER_INDEX = 0 then index.put (b.account, b.height) (env.hash b)
        else index) := by
  intro account height hash
  have hlow : ∀ c ∈ chains b.account, c.height ≠ b.height := fun c hc heq => by
    have hlt := hchain.height_lt hc
    change c.height < _ at hlt
    omega
  by_cases hne : account = b.account
  · subst hne
    rw [Function.update_self]
    by_cases htop : height = b.height
    · subst htop
      split_ifs with hmod
      · rw [Table.get_put, if_pos rfl]
        constructor
        · rintro heq
          cases heq
          exact ⟨hmod, b, List.mem_cons_self, rfl, rfl⟩
        · rintro ⟨-, c, hc, hsame, rfl⟩
          rcases List.mem_cons.mp hc with rfl | hc
          · rfl
          · exact absurd hsame (hlow c hc)
      · refine iff_of_false (fun hget => hmod ((h _ _ _).mp hget).1) fun hget => hmod hget.1
    · have hget : (if b.height % BLOCKS_PER_INDEX = 0 then
          index.put (b.account, b.height) (env.hash b) else index).get (b.account, height) =
            index.get (b.account, height) := by
        split_ifs
        · rw [Table.get_put, if_neg fun heq => htop (congrArg Prod.snd heq)]
        · rfl
      rw [hget, h b.account height hash]
      refine and_congr_right fun _ => ⟨fun ⟨c, hc, hrest⟩ => ⟨c, List.mem_cons_of_mem _ hc, hrest⟩, ?_⟩
      rintro ⟨c, hc, hsame, hhash⟩
      rcases List.mem_cons.mp hc with rfl | hc
      · exact absurd hsame.symm htop
      · exact ⟨c, hc, hsame, hhash⟩
  · rw [Function.update_of_ne hne, ← h account height hash]
    split_ifs
    · rw [Table.get_put, if_neg fun heq => hne (congrArg Prod.fst heq)]
    · rfl

theorem ShowsHeights.pop {index : Table (Account × Nat) BlockHash}
    (h : ShowsHeights env chains index) (hchain : (blockShape env).Chain account (chains account))
    (hcons : chains account = b :: rest) :
    ShowsHeights env (Function.update chains account rest)
      (if b.height % BLOCKS_PER_INDEX = 0 then index.del (b.account, b.height) else index) := by
  rw [hcons] at hchain
  have hown : b.account = account := hchain.1
  have hlow : ∀ c ∈ rest, c.height ≠ b.height := fun c hc heq => by
    have hlt := hchain.tail.height_lt hc
    have htop := hchain.2.1
    change c.height < _ at hlt
    change b.height = _ at htop
    omega
  intro other height hash
  by_cases hne : other = account
  · subst hne
    rw [Function.update_self, hown]
    have hold := h other height hash
    rw [hcons] at hold
    by_cases htop : height = b.height
    · subst htop
      refine iff_of_false ?_ ?_
      · split_ifs with hmod
        · simp
        · exact fun hget => hmod (hold.mp hget).1
      · rintro ⟨-, c, hc, hsame, -⟩
        exact hlow c hc hsame
    · have hget : (if b.height % BLOCKS_PER_INDEX = 0 then index.del (other, b.height)
          else index).get (other, height) = index.get (other, height) := by
        split_ifs
        · rw [Table.get_del, if_neg fun heq => htop (congrArg Prod.snd heq)]
        · rfl
      rw [hget, hold]
      refine and_congr_right fun _ => ⟨?_, fun ⟨c, hc, hrest⟩ => ⟨c, List.mem_cons_of_mem _ hc, hrest⟩⟩
      rintro ⟨c, hc, hsame, hhash⟩
      rcases List.mem_cons.mp hc with rfl | hc
      · exact absurd hsame.symm htop
      · exact ⟨c, hc, hsame, hhash⟩
  · rw [Function.update_of_ne hne, ← h other height hash]
    split_ifs
    · rw [Table.get_del, if_neg fun heq => hne ((congrArg Prod.fst heq).trans hown)]
    · rfl

end Chains

namespace WalletLedger

section Operations

variable {env : Env} {blocks : Set Block} {chains : Account → List Block} {l l' : WalletLedger}
  {account : Account} {b p : Block} {rest : List Block} {info : AccountInfo} {confirmed : Bool}

-- `receiveSource` touches two tables, of which one only grows and the other one only shrinks.
structure Takes (l l' : WalletLedger) (b : Block) : Prop where
  accounts : l'.store.accounts = l.store.accounts
  blocks : l'.store.blocks = l.store.blocks
  blocksIndex : l'.store.blocksIndex = l.store.blocksIndex
  sources : ∀ hash, l.sources.contains hash = true → l'.sources.contains hash = true
  receivables : ∀ account hash, l.store.receivableInfoGet account hash = none →
    l'.store.receivableInfoGet account hash = none
  taken : b.opcode = .receive → l'.sources.contains b.link = true ∧
    l'.store.receivableInfoGet b.account b.link = none

theorem contains_put (sources : Table BlockHash (Option Block)) (hash key : BlockHash)
    (block : Option Block) (h : sources.contains key = true) :
    (sources.put hash block).contains key = true := by
  obtain ⟨stored, hget⟩ := (Table.contains_iff _ _).mp h
  refine (Table.contains_iff _ _).mpr ?_
  rw [Table.get_put]
  split_ifs
  · exact ⟨block, rfl⟩
  · exact ⟨stored, hget⟩

theorem receiveSource_takes (l : WalletLedger) (b : Block) : Takes l (l.receiveSource b) b := by
  unfold receiveSource
  split_ifs with hop
  · have hdel : ∃ store, (l.store.receivableInfoDel StoreCall.never b.account b.link).getD l.store =
        store ∧ store.accounts = l.store.accounts ∧ store.blocks = l.store.blocks ∧
          store.blocksIndex = l.store.blocksIndex ∧
          store.receivableInfoGet b.account b.link = none ∧
          ∀ account hash, l.store.receivableInfoGet account hash = none →
            store.receivableInfoGet account hash = none := by
      refine ⟨_, rfl, ?_⟩
      unfold Store.receivableInfoDel
      split_ifs with hnone
      · refine ⟨rfl, rfl, rfl, ?_, fun _ _ h => h⟩
        exact hnone.resolve_left (by simp [StoreCall.never])
      · refine ⟨rfl, rfl, rfl, by simp [Store.receivableInfoGet], fun account hash h => ?_⟩
        simp only [Store.receivableInfoGet, Option.getD_some, Table.get_del] at h ⊢
        rw [h, ite_self]
    obtain ⟨store, hstore, haccounts, hblocks, hindex, hown, hkeep⟩ := hdel
    simp only [hstore]
    split_ifs with hsource
    · exact ⟨haccounts, hblocks, hindex, fun _ h => h, hkeep, fun _ => ⟨hsource, hown⟩⟩
    · refine ⟨haccounts, hblocks, hindex, fun hash h => contains_put _ _ _ _ h, hkeep,
        fun _ => ⟨?_, hown⟩⟩
      simp [sourcePut, Table.contains]
  · exact ⟨rfl, rfl, rfl, fun _ h => h, fun _ _ h => h, fun h => absurd h hop⟩

-- A block has come on top of the chain of its account.
theorem received_push (h : ReceivedOnce chains l) (htakes : Takes l l' b) :
    ReceivedOnce (Function.update chains b.account (b :: chains b.account)) l' := by
  intro account c hc hop
  have hold : c ∈ chains account → l'.sources.contains c.link = true ∧
      l'.store.receivableInfoGet account c.link = none := fun hmem =>
    ⟨htakes.sources _ (h account c hmem hop).1, htakes.receivables _ _ (h account c hmem hop).2⟩
  by_cases hne : account = b.account
  · subst hne
    rw [Function.update_self] at hc
    rcases List.mem_cons.mp hc with rfl | hc
    · exact htakes.taken hop
    · exact hold hc
  · rw [Function.update_of_ne hne] at hc
    exact hold hc

-- The ledger after a block was put on top of its chain.
theorem shows_push (hplay : InPlay env blocks) (h : Shows env blocks l chains) (hb : b ∈ blocks)
    (hheight : b.height = (chains b.account).length)
    (hprevious : ∀ p ∈ (chains b.account).head?, b.previous = env.hash p) {store : Store}
    (hown : ShowsInfo env (b :: chains b.account) (store.accountInfoGet b.account))
    (hother : ∀ other, other ≠ b.account →
      store.accountInfoGet other = l.store.accountInfoGet other)
    (hrows : rows store.blocks =
      (blockShape env).pushed 0 (rows l.store.blocks) b (chains b.account))
    (hindex : store.blocksIndex = if b.height % BLOCKS_PER_INDEX = 0 then
      l.store.blocksIndex.put (b.account, b.height) (env.hash b) else l.store.blocksIndex)
    (hreceivables : store.receivables = l.store.receivables) :
    Shows env blocks (receiveSource { l with store } b)
      (Function.update chains b.account (b :: chains b.account)) := by
  have htakes := receiveSource_takes { l with store } b
  refine ⟨?_, ?_, ?_, received_push (fun account c hc hop => ?_) htakes⟩
  · rw [htakes.blocks, hrows]
    exact h.stores.push hplay.apart hb hheight hprevious
  · refine ShowsInfo.update h.infos ?_ fun other hne => ?_
    · rw [Store.accountInfoGet, htakes.accounts]
      exact hown
    · rw [Store.accountInfoGet, htakes.accounts]
      exact hother other hne
  · rw [htakes.blocksIndex, hindex]
    exact h.heights.push hheight (h.stores.chain _)
  · have hold := h.received account c hc hop
    refine ⟨hold.1, ?_⟩
    rw [Store.receivableInfoGet, hreceivables]
    exact hold.2

theorem openAccount_shows (hplay : InPlay env blocks) (h : Shows env blocks l chains)
    (hb : b ∈ blocks) (hchain : chains b.account = []) (hheight : b.height = 0) :
    ∃ l', l.openAccount env b confirmed = some l' ∧
      Shows env blocks l' (Function.update chains b.account (b :: chains b.account)) ∧
      ∃ info, l'.store.accountInfoGet b.account = some info ∧
        (confirmed = true → info.confirmedHeight = b.height) := by
  obtain ⟨info, hinfo⟩ : ∃ info, (if confirmed then
      { AccountInfo.first b.type (env.hash b) with confirmedHeight := 0 }
    else AccountInfo.first b.type (env.hash b)) = info := ⟨_, rfl⟩
  have hown : ShowsInfo env (b :: chains b.account) (some info) := by
    rw [hchain]
    refine ⟨info, rfl, ?_⟩
    rw [← hinfo]
    split_ifs
    · exact ⟨rfl, rfl, rfl, hplay.ne_zero b hb, .inr (Nat.zero_le _)⟩
    · exact ⟨rfl, rfl, rfl, hplay.ne_zero b hb, .inl rfl⟩
  have hput : ((l.store.accounts.put b.account info).get b.account) = some info := by simp
  refine ⟨receiveSource { l with store := ({ l.store with
    accounts := l.store.accounts.put b.account info }).withBlock (env.hash b) b 0 } b, ?_, ?_, info,
    ?_, ?_⟩
  · simp only [openAccount, hinfo, Store.accountInfoPut, StoreCall.never, Bool.false_eq_true,
      if_false, Option.bind_eq_bind, Option.bind_some, Store.blockPut_never, Option.pure_def]
  · refine shows_push hplay h hb (by rw [hheight, hchain]; rfl) (fun p hp => ?_) ?_
      (fun other hne => ?_) ?_ rfl rfl
    · rw [hchain] at hp
      cases hp
    · change ShowsInfo env _ ((l.store.accounts.put b.account info).get b.account)
      rw [hput]
      exact hown
    · simp [Store.accountInfoGet, Store.withBlock, hne]
    · rw [hchain]
      exact rows_put _ _ _
  · rw [Store.accountInfoGet, (receiveSource_takes _ b).accounts]
    exact hput
  · intro hconfirmed
    rw [← hinfo, if_pos hconfirmed, hheight]

theorem extend_shows (hplay : InPlay env blocks) (h : Shows env blocks l chains) (hb : b ∈ blocks)
    (hchain : chains b.account = p :: rest) (hinfo : l.store.accountInfoGet b.account = some info)
    (hheight : b.height = info.headHeight + 1) (hprevious : b.previous = info.head) :
    ∃ l', l.extend env info b confirmed = some l' ∧
      Shows env blocks l' (Function.update chains b.account (b :: chains b.account)) ∧
      ∃ info, l'.store.accountInfoGet b.account = some info ∧
        (confirmed = true → info.confirmedHeight = b.height) := by
  have hold := h.infos b.account
  rw [hchain, hinfo] at hold
  obtain ⟨info', hsame, hhead, hlength, htail, htailHash, hconfirmed⟩ := hold
  cases hsame
  have hp : b.previous = env.hash p := hprevious.trans hhead
  have hplace : b.height = (chains b.account).length := by
    rw [hheight, hlength, hchain]
    rfl
  obtain ⟨next, hnext⟩ : ∃ next, (if confirmed then
      { info with headHeight := b.height, head := env.hash b, confirmedHeight := b.height }
    else { info with headHeight := b.height, head := env.hash b }) = next := ⟨_, rfl⟩
  have hown : ShowsInfo env (b :: chains b.account) (some next) := by
    refine ⟨next, rfl, ?_⟩
    rw [← hnext]
    split_ifs
    · exact ⟨rfl, hplace, htail, htailHash, .inr (Nat.le_refl _)⟩
    · refine ⟨rfl, hplace, htail, htailHash, hconfirmed.imp_right fun hle => ?_⟩
      dsimp only
      omega
  have hput : ((l.store.accounts.put b.account next).get b.account) = some next := by simp
  have hfresh : env.hash p ≠ env.hash b := by
    refine h.stores.fresh hplay.apart hb hplace b.account p ?_
    rw [hchain]
    exact List.mem_cons_self
  have hpGet := h.head_get hchain
  refine ⟨receiveSource { l with store := { ({ l.store with
    accounts := l.store.accounts.put b.account next }).withBlock (env.hash b) b 0 with
    blocks := (l.store.blocks.put (env.hash b) ⟨b, 0⟩).put (env.hash p) ⟨p, env.hash b⟩ } } b,
    ?_, ?_, next, ?_, ?_⟩
  · simp only [extend, hnext, Store.accountInfoPut, StoreCall.never, Bool.false_eq_true,
      if_false, Option.bind_eq_bind, Option.bind_some, Store.blockPut_never, Option.pure_def,
      Store.blockSuccessorSet, hp]
    simp [Store.withBlock, hfresh, hpGet]
  · refine shows_push hplay h hb hplace (fun q hq => ?_) ?_ (fun other hne => ?_) ?_ rfl rfl
    · rw [hchain] at hq
      cases hq
      exact hp
    · change ShowsInfo env _ ((l.store.accounts.put b.account next).get b.account)
      rw [hput]
      exact hown
    · simp [Store.accountInfoGet, Store.withBlock, hne]
    · rw [hchain]
      exact (rows_put _ _ _).trans (congrArg (fun f => Function.update f _ _) (rows_put _ _ _))
  · rw [Store.accountInfoGet, (receiveSource_takes _ b).accounts]
    exact hput
  · intro hconfirmed
    rw [← hnext, if_pos hconfirmed]

-- Nothing else that is stored takes in what the head of a chain takes in.
theorem link_ne (hplay : InPlay env blocks) (h : Shows env blocks l chains)
    (hchain : chains account = b :: rest) (hop : b.opcode = .receive) {other : Account} {c : Block}
    (hc : c ∈ Function.update chains account rest other) (hcop : c.opcode = .receive) :
    c.link ≠ b.link := by
  intro hlink
  have hb : b ∈ chains account := hchain ▸ List.mem_cons_self
  by_cases hne : other = account
  · subst hne
    rw [Function.update_self] at hc
    have honce := hplay.once other (chains other) (h.stores.mem other) (h.stores.chain other)
    rw [hchain, List.filter_cons_of_pos (by simp [hop]), List.map_cons, List.nodup_cons] at honce
    refine honce.1 (hlink ▸ List.mem_map_of_mem (List.mem_filter.mpr ⟨hc, ?_⟩))
    simp [hcop]
  · rw [Function.update_of_ne hne] at hc
    have hsame := hplay.own c (h.stores.mem other c hc) b (h.mem hchain) hcop hop hlink
    rw [h.account_eq hc, h.account_eq hb] at hsame
    exact hne hsame

-- What is left of the tables without the head.
structure Removed (env : Env) (l : WalletLedger) (account : Account) (b : Block) (rest : List Block)
    (store : Store) : Prop where
  own : ShowsInfo env rest (store.accountInfoGet account)
  info : ∀ info, l.store.accountInfoGet account = some info → rest ≠ [] →
    store.accountInfoGet account = some (rolledBack info b)
  other : ∀ other, other ≠ account → store.accountInfoGet other = l.store.accountInfoGet other
  rows : rows store.blocks = (blockShape env).popped 0 (rows l.store.blocks) b rest
  index : store.blocksIndex = if b.height % BLOCKS_PER_INDEX = 0 then
    l.store.blocksIndex.del (b.account, b.height) else l.store.blocksIndex
  receivables : store.receivables = l.store.receivables

-- The ledger after the head of a chain was taken away.
theorem shows_pop (hplay : InPlay env blocks) (h : Shows env blocks l chains)
    (hchain : chains account = b :: rest) {store : Store} (hremoved : Removed env l account b rest store)
    {sources : Table BlockHash (Option Block)}
    (hsources : sources = if b.opcode = .receive then l.sources.del b.link else l.sources) :
    Shows env blocks ⟨store, sources⟩ (Function.update chains account rest) := by
  refine ⟨?_, ShowsInfo.update h.infos hremoved.own hremoved.other, ?_, fun other c hc hop => ?_⟩
  · rw [hremoved.rows]
    exact h.stores.pop hplay.apart hchain
  · rw [hremoved.index]
    exact h.heights.pop (h.stores.chain account) hchain
  · have hold : c ∈ chains other := by
      by_cases hne : other = account
      · subst hne
        rw [Function.update_self] at hc
        exact hchain ▸ List.mem_cons_of_mem _ hc
      · rwa [Function.update_of_ne hne] at hc
    obtain ⟨hsource, hreceivable⟩ := h.received other c hold hop
    refine ⟨?_, by rw [Store.receivableInfoGet, hremoved.receivables]; exact hreceivable⟩
    rw [hsources]
    split_ifs with hbop
    · rw [Table.contains, Table.get_del, if_neg (link_ne hplay h hchain hbop hc hop)]
      exact hsource
    · exact hsource

theorem info_of_head (hplay : InPlay env blocks) (h : Shows env blocks l chains)
    (hchain : chains account = b :: rest) : ∃ info, l.store.accountInfoGet account = some info ∧
      info.valid = true ∧ info.head = env.hash b ∧ info.headHeight = rest.length ∧
      info.headHeight + 1 < 2 ^ 64 ∧ info.tailHeight = 0 ∧ info.tail ≠ 0 ∧
      (info.confirmedHeight = INVALID_HEIGHT ∨ info.confirmedHeight ≤ info.headHeight) := by
  have hold := h.infos account
  rw [hchain] at hold
  obtain ⟨info, hinfo, hhead, hlength, htail, htailHash, hconfirmed⟩ := hold
  have hheight := h.height_eq hchain
  have hne := hplay.height_ne b (h.mem hchain)
  have hzero := hplay.ne_zero b (h.mem hchain)
  have hlt := b.height_lt
  refine ⟨info, hinfo, ?_, hhead, hlength, ?_, htail, htailHash, hconfirmed⟩
  · have hvalid : info.headHeight ≠ INVALID_HEIGHT := by
      rw [hlength, ← hheight]
      exact hne
    have htailValid : info.tailHeight ≠ INVALID_HEIGHT := by
      rw [htail]
      decide
    rw [← hhead] at hzero
    simp only [AccountInfo.valid, hvalid, htailValid, hzero, htailHash, decide_false, Bool.or_self,
      Bool.not_false, Bool.and_self]
  · unfold INVALID_HEIGHT at hne
    omega

theorem removeHead_removed (hplay : InPlay env blocks) (h : Shows env blocks l chains)
    (hchain : chains account = b :: rest) (hinfo : l.store.accountInfoGet account = some info) :
    ∃ store, removeHead l.store account info b = some store ∧ Removed env l account b rest store := by
  obtain ⟨info', hsame, -, hhead, hlength, -, htail, htailHash, hconfirmed⟩ :=
    info_of_head hplay h hchain
  cases hsame.symm.trans hinfo
  have hheight := h.height_eq hchain
  have haccount : b.account = account := h.account_eq (hchain ▸ List.mem_cons_self)
  have hget : l.store.blockGet (env.hash b) = some b := by
    rw [Store.blockGet, h.head_get hchain]
    rfl
  have hindexed : b.height % BLOCKS_PER_INDEX = 0 →
      (l.store.blocksIndex.get (b.account, b.height)).isSome := by
    intro hmod
    have hmem := (h.heights account b.height (env.hash b)).mpr
      ⟨hmod, b, hchain ▸ List.mem_cons_self, rfl, rfl⟩
    rw [haccount, hmem]
    rfl
  have hdel : Store.blockDel StoreCall.never
      { l.store with rollbacks := l.store.rollbacks.put (env.hash b) b } (env.hash b) = some _ :=
    Store.blockDel_never hget hindexed
  cases rest with
  | nil =>
      have hzero : b.height = 0 := hheight
      have hinfoZero : info.headHeight = 0 := hlength
      have hsome : l.store.accounts.get account = some info := hinfo
      refine ⟨{ ({ l.store with rollbacks := l.store.rollbacks.put (env.hash b) b }).withoutBlock
        (env.hash b) b with accounts := l.store.accounts.del account }, ?_, ?_⟩
      · simp only [removeHead, hhead, Store.rollbackBlockPut, StoreCall.never, Bool.false_eq_true,
          if_false, Option.bind_eq_bind, Option.bind_some, hdel, hzero, ne_eq, not_true_eq_false,
          hinfoZero, if_true, Store.accountInfoDel, Store.withoutBlock, hsome, or_self,
          reduceCtorEq]
      · refine ⟨?_, fun _ _ hne => absurd rfl hne, fun other hne => ?_, rows_del _ _, rfl, rfl⟩
        · exact (Table.get_del _ _ _).trans (if_pos rfl)
        · exact (Table.get_del _ _ _).trans (if_neg hne)
  | cons p rest =>
      have hc := h.stores.chain account
      rw [hchain] at hc
      have hprevious : b.previous = env.hash p := hc.2.2.1 p rfl
      have hpb : env.hash p ≠ env.hash b :=
        (@Shape.Stores.alone _ _ _ _ _ _ (0 : BlockHash) _ _ _ _ _ h.stores hplay.apart hchain).1
          (p, 0) List.mem_cons_self
      have hp : l.store.blocks.get (env.hash p) = some ⟨p, env.hash b⟩ := by
        have hentry : (p, env.hash b) ∈ (blockShape env).entries 0 (chains account) := by
          rw [hchain]
          exact List.mem_cons_of_mem _ List.mem_cons_self
        have hrow := h.stores.get_of_entry hentry
        exact rows_eq_some.mp hrow
      have hpDel : (l.store.blocks.del (env.hash b)).get (env.hash p) = some ⟨p, env.hash b⟩ := by
        rw [Table.get_del, if_neg hpb]
        exact hp
      have hne : b.height ≠ 0 := by
        rw [hheight]
        exact Nat.succ_ne_zero _
      have hinfoNe : info.headHeight ≠ 0 := by
        rw [hlength]
        exact Nat.succ_ne_zero _
      refine ⟨{ ({ l.store with rollbacks := l.store.rollbacks.put (env.hash b) b }).withoutBlock
        (env.hash b) b with
        blocks := (l.store.blocks.del (env.hash b)).put (env.hash p) ⟨p, 0⟩
        accounts := l.store.accounts.put account (rolledBack info b) }, ?_, ?_⟩
      · simp only [removeHead, hhead, Store.rollbackBlockPut, StoreCall.never, Bool.false_eq_true,
          if_false, Option.bind_eq_bind, Option.bind_some, hdel, ne_eq, hne, not_false_eq_true,
          if_true, Store.blockSuccessorSet, Store.withoutBlock, hprevious, hpDel, hinfoNe,
          Store.accountInfoPut]
      · have hown : (l.store.accounts.put account (rolledBack info b)).get account =
            some (rolledBack info b) := (Table.get_put _ _ _ _).trans (if_pos rfl)
        refine ⟨⟨rolledBack info b, hown, hprevious, ?_, htail, htailHash, ?_⟩, fun info' hinfo' _ => by
          cases hinfo'.symm.trans hinfo; exact hown, fun other hne => (Table.get_put _ _ _ _).trans (if_neg hne), ?_, rfl, rfl⟩
        · change info.headHeight - 1 = rest.length
          rw [hlength]
          rfl
        · change (if _ then _ else _) = INVALID_HEIGHT ∨ (if _ then _ else _) ≤ info.headHeight - 1
          split_ifs with hover
          · exact .inr (Nat.le_refl _)
          · by_cases hinvalid : info.confirmedHeight = INVALID_HEIGHT
            · exact .inl hinvalid
            · exact .inr (Nat.not_lt.mp fun hlt => hover ⟨hinvalid, hlt⟩)
        · exact (rows_put _ _ _).trans (congrArg (fun f => Function.update f _ _) (rows_del _ _))

theorem rollback_shows (hplay : InPlay env blocks) (h : Shows env blocks l chains)
    (hchain : chains account = b :: rest) : ∃ l', l.rollback_ account = some l' ∧
      Shows env blocks l' (Function.update chains account rest) ∧
      ∀ info, l.store.accountInfoGet account = some info → rest ≠ [] →
        l'.store.accountInfoGet account = some (rolledBack info b) := by
  obtain ⟨info, hinfo, hvalid, hhead, -⟩ := info_of_head hplay h hchain
  have hget : l.store.blockGet info.head = some b := by
    rw [hhead, Store.blockGet, h.head_get hchain]
    rfl
  obtain ⟨store, hstore, hremoved⟩ := removeHead_removed hplay h hchain hinfo
  have hrun : l.rollback_ account =
      if b.opcode = .receive then sourceDel { l with store } b.link else some { l with store } := by
    simp only [rollback_, hinfo, Option.filter_some, hvalid, if_true, Option.bind_eq_bind,
      Option.bind_some, hget, hstore]
  rw [hrun]
  by_cases hop : b.opcode = .receive
  · have hsource : l.sources.contains b.link = true :=
      (h.received account b (hchain ▸ List.mem_cons_self) hop).1
    refine ⟨⟨store, l.sources.del b.link⟩, ?_, ?_, hremoved.info⟩
    · simp only [if_pos hop, sourceDel, hsource, if_true]
    · exact shows_pop hplay h hchain hremoved (if_pos hop).symm
  · exact ⟨{ l with store }, if_neg hop, shows_pop hplay h hchain hremoved (if_neg hop).symm,
      hremoved.info⟩

theorem shows_info (h : Shows env blocks l chains)
    (hown : ShowsInfo env (chains account) (some info)) :
    Shows env blocks { l with store := { l.store with accounts := l.store.accounts.put account info } }
      chains := by
  refine ⟨h.stores, fun other => ?_, h.heights, h.received⟩
  rw [Store.accountInfoGet, Table.get_put]
  split_ifs with hsame
  · rw [hsame]
    exact hown
  · exact h.infos other

theorem confirm_shows (h : Shows env blocks l chains) (hchain : chains b.account = p :: rest)
    (hinfo : l.store.accountInfoGet b.account = some info) (hle : b.height ≤ info.headHeight) :
    ∃ l', l.confirm info b = some l' ∧ Shows env blocks l' chains ∧
      l'.store.accountInfoGet b.account = some { info with confirmedHeight := b.height } := by
  have hold := h.infos b.account
  rw [hchain, hinfo] at hold
  obtain ⟨info', hsame, hhead, hlength, htail, htailHash, -⟩ := hold
  cases hsame
  refine ⟨_, rfl, shows_info h ?_, (Table.get_put _ _ _ _).trans (if_pos rfl)⟩
  rw [hchain]
  exact ⟨_, rfl, hhead, hlength, htail, htailHash, .inr hle⟩

theorem unconfirm_shows (h : Shows env blocks l chains) (hchain : chains account = p :: rest)
    (hinfo : l.store.accountInfoGet account = some info) :
    ∃ l', l.unconfirm account info = some l' ∧ Shows env blocks l' chains := by
  have hold := h.infos account
  rw [hchain, hinfo] at hold
  obtain ⟨info', hsame, hhead, hlength, htail, htailHash, -⟩ := hold
  cases hsame
  refine ⟨_, rfl, shows_info h ?_⟩
  rw [hchain]
  refine ⟨_, rfl, hhead, hlength, htail, htailHash, ?_⟩
  dsimp only
  split_ifs
  · exact .inl rfl
  · exact .inr (Nat.sub_le _ _)

theorem blockExists_iff (h : Shows env blocks l chains) (hash : BlockHash) :
    l.store.blockExists hash = true ↔ ∃ account, ∃ c ∈ chains account, env.hash c = hash := by
  rw [Store.blockExists, Table.contains_iff]
  constructor
  · rintro ⟨stored, hget⟩
    obtain ⟨hhash, account, hentry⟩ := (h.stores.stored hash (stored.block, stored.successor)).mp
      (rows_eq_some.mpr hget)
    exact ⟨account, stored.block, Shape.mem_of_entry hentry, hhash⟩
  · rintro ⟨account, c, hc, rfl⟩
    obtain ⟨above, hentry⟩ := @Shape.entry_of_mem _ _ _ (blockShape env) _ _ (0 : BlockHash) hc
    have hrow := h.stores.get_of_entry hentry
    exact ⟨_, rows_eq_some.mp hrow⟩

theorem rollbackWhile_shows (hplay : InPlay env blocks) (h : Shows env blocks l chains)
    (hb : b ∈ blocks) {fuel : Nat} (hfuel : (chains b.account).length < fuel) :
    ∃ l' chains', rollbackWhile (env.hash b) b.account fuel l = some l' ∧
      Shows env blocks l' chains' ∧ l'.store.blockExists (env.hash b) = false := by
  induction fuel generalizing l chains with
  | zero => exact absurd hfuel (Nat.not_lt_zero _)
  | succ fuel ih =>
      unfold rollbackWhile
      split_ifs with hexists
      · obtain ⟨account, c, hc, hhash⟩ := (blockExists_iff h _).mp hexists
        have hsame : c.account = b.account :=
          (hplay.apart c (h.stores.mem account c hc) b hb hhash).1
        rw [h.account_eq hc] at hsame
        subst hsame
        cases hchain : chains b.account with
        | nil => rw [hchain] at hc; cases hc
        | cons p rest =>
            obtain ⟨l₁, hrun, hshows, -⟩ := rollback_shows hplay h hchain
            rw [hchain, List.length_cons] at hfuel
            obtain ⟨l', chains', hloop, hdone⟩ := ih hshows (by
              rw [Function.update_self]
              omega)
            refine ⟨l', chains', ?_, hdone⟩
            rw [hrun]
            exact hloop
      · exact ⟨l, chains, rfl, h, by simpa using hexists⟩

variable {isMyAccount : Account → Bool}

-- After a rollback the block is not stored.
theorem processBlockRollback_shows (hplay : InPlay env blocks) (h : Shows env blocks l chains)
    (hb : b ∈ blocks) : ∃ chains',
      Shows env blocks (l.processBlockRollback env isMyAccount b) chains' ∧
        (isMyAccount b.account = true →
          (l.processBlockRollback env isMyAccount b).store.blockExists (env.hash b) = false) := by
  unfold processBlockRollback
  split_ifs with hmine
  · exact ⟨chains, h, fun htrue => by rw [hmine] at htrue; cases htrue⟩
  · have hrounds : (chains b.account).length < l.rollbackRounds b.account := by
      have hold := h.infos b.account
      unfold rollbackRounds
      cases hchain : chains b.account with
      | nil =>
          rw [hchain] at hold
          have hnone : l.store.accountInfoGet b.account = none := hold
          rw [hnone]
          exact Nat.zero_lt_one
      | cons p rest =>
          rw [hchain] at hold
          obtain ⟨info, hinfo, -, hlength, -⟩ := hold
          rw [hinfo, List.length_cons]
          dsimp only
          omega
    obtain ⟨l', chains', hrun, hshows, hgone⟩ := rollbackWhile_shows hplay h hb hrounds
    rw [hrun]
    exact ⟨chains', hshows, fun _ => hgone⟩

theorem processReceivableInfo_shows (h : Shows env blocks l chains) {hash : BlockHash}
    {receivable : ReceivableInfo} {now : Option Nat} :
    Shows env blocks (l.processReceivableInfo env isMyAccount account hash receivable b now)
      chains := by
  unfold processReceivableInfo
  by_cases hmine : isMyAccount account = false
  · rw [if_pos hmine]
    exact h
  rw [if_neg hmine]
  cases now with
  | none => exact h
  | some now =>
      dsimp only
      split_ifs with htime hhash hsource hget
      · exact h
      · exact h
      · exact h
      · exact h
      · refine ⟨h.stores, h.infos, h.heights, fun other c hc hop => ?_⟩
        obtain ⟨hsourceC, hreceivable⟩ := h.received other c hc hop
        refine ⟨contains_put _ _ _ _ hsourceC, ?_⟩
        have hne : c.link ≠ hash := fun heq => hsource (heq ▸ hsourceC)
        refine (Table.get_put _ _ _ _).trans ?_
        rw [if_neg fun heq => hne (congrArg Prod.snd heq)]
        exact hreceivable

theorem processBlock_of_nil (h : Shows env blocks l chains) (hmine : isMyAccount b.account = true)
    (hchain : chains b.account = []) : l.processBlock env isMyAccount b confirmed =
      if b.height ≠ 0 then (l, false) else ((l.openAccount env b confirmed).getD l, false) := by
  have hold := h.infos b.account
  rw [hchain] at hold
  have hnone : l.store.accountInfoGet b.account = none := hold
  simp only [processBlock, hmine, hnone, Bool.true_eq_false, if_false, Option.filter_none]

theorem processBlock_of_cons (hplay : InPlay env blocks) (h : Shows env blocks l chains)
    (hmine : isMyAccount b.account = true) (hchain : chains b.account = p :: rest)
    (hinfo : l.store.accountInfoGet b.account = some info) :
    l.processBlock env isMyAccount b confirmed =
      if b.height > info.headHeight + 1 then (l, false)
      else if b.height = info.headHeight + 1 then
        if b.previous ≠ info.head then
          if confirmed = false ∨ info.confirmedHeight ≠ info.headHeight then (l, false)
          else ((l.unconfirm b.account info).getD l, false)
        else ((l.extend env info b confirmed).getD l, false)
      else if confirmed = false then (l, false)
      else if l.store.blockExists (env.hash b) then
        if info.confirmedHeight ≠ INVALID_HEIGHT ∧ info.confirmedHeight ≥ b.height then (l, false)
        else ((l.confirm info b).getD l, false)
      else
        match l.rollback_ b.account with
        | none => (l, false)
        | some l => (l, true) := by
  obtain ⟨info', hsame, hvalid, -, -, hlt, -⟩ := info_of_head hplay h hchain
  cases hsame.symm.trans hinfo
  have hown : ¬isMyAccount b.account = false := by
    rw [hmine]
    exact Bool.noConfusion
  have hfound : (l.store.accountInfoGet b.account).filter AccountInfo.valid = some info := by
    rw [hinfo, Option.filter_some, if_pos hvalid]
  unfold processBlock
  rewrite [if_neg hown, hfound]
  dsimp only
  rewrite [Nat.mod_eq_of_lt hlt]
  rfl

-- Whatever comes, the ledger goes on to show chains.
theorem processBlock_shows (hplay : InPlay env blocks) (h : Shows env blocks l chains)
    (hb : b ∈ blocks) :
    ∃ chains', Shows env blocks (l.processBlock env isMyAccount b confirmed).1 chains' := by
  cases hmine : isMyAccount b.account with
  | false =>
      unfold processBlock
      rw [if_pos hmine]
      exact ⟨chains, h⟩
  | true =>
      cases hchain : chains b.account with
      | nil =>
          rw [processBlock_of_nil h hmine hchain]
          split_ifs with hheight
          · exact ⟨chains, h⟩
          · obtain ⟨l', hrun, hshows, -⟩ :=
              @openAccount_shows _ _ _ _ _ confirmed hplay h hb hchain (not_not.mp hheight)
            rw [hrun]
            exact ⟨_, hshows⟩
      | cons p rest =>
          obtain ⟨info, hinfo, -⟩ := info_of_head hplay h hchain
          rw [processBlock_of_cons hplay h hmine hchain hinfo]
          by_cases hhigh : b.height > info.headHeight + 1
          · rw [if_pos hhigh]
            exact ⟨chains, h⟩
          rw [if_neg hhigh]
          by_cases hnext : b.height = info.headHeight + 1
          · rw [if_pos hnext]
            split_ifs with hprevious hconfirmed
            · exact ⟨chains, h⟩
            · obtain ⟨l', hrun, hshows⟩ := unconfirm_shows h hchain hinfo
              rw [hrun]
              exact ⟨chains, hshows⟩
            · obtain ⟨l', hrun, hshows, -⟩ :=
                @extend_shows _ _ _ _ _ _ _ _ confirmed hplay h hb hchain hinfo hnext
                  (not_not.mp hprevious)
              rw [hrun]
              exact ⟨_, hshows⟩
          rw [if_neg hnext]
          by_cases hconfirmed : confirmed = false
          · rw [if_pos hconfirmed]
            exact ⟨chains, h⟩
          rw [if_neg hconfirmed]
          by_cases hexists : l.store.blockExists (env.hash b) = true
          · rw [if_pos hexists]
            split_ifs with hdone
            · exact ⟨chains, h⟩
            · obtain ⟨l', hrun, hshows, -⟩ := confirm_shows h hchain hinfo (by omega)
              rw [hrun]
              exact ⟨chains, hshows⟩
          · obtain ⟨l', hrun, hshows, -⟩ := rollback_shows hplay h hchain
            rw [if_neg hexists, hrun]
            exact ⟨_, hshows⟩

end Operations

end WalletLedger

end Raicoin
