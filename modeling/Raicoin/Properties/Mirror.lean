import Raicoin.Node.BlockProcessor.Replay
import Raicoin.Wallet.MirrorSpec

-- The wallet's mirror is well formed, and comes to show the confirmed chain.
namespace Raicoin

open Lib WalletLedger

structure WellMirrored (env : Env) (l : WalletLedger) : Prop where
  keyed : ∀ hash stored, l.store.blocks.get hash = some stored → env.hash stored.block = hash
  heights : ∀ account info, l.store.accountInfoGet account = some info → ∀ height,
    (∃ hash stored, l.store.blocks.get hash = some stored ∧ stored.block.account = account ∧
      stored.block.height = height) ↔ height ≤ info.headHeight
  single : ∀ hash hash' stored stored', l.store.blocks.get hash = some stored →
    l.store.blocks.get hash' = some stored' → stored.block.account = stored'.block.account →
      stored.block.height = stored'.block.height → stored = stored'
  head : ∀ account info, l.store.accountInfoGet account = some info →
    ∃ b, l.store.blocks.get info.head = some ⟨b, 0⟩ ∧ b.account = account ∧
      b.height = info.headHeight
  linked : ∀ hash stored, l.store.blocks.get hash = some stored → stored.block.height ≠ 0 →
    ∃ p, l.store.blocks.get stored.block.previous = some ⟨p, hash⟩ ∧
      p.account = stored.block.account ∧ stored.block.height = p.height + 1
  confirmed : ∀ account info, l.store.accountInfoGet account = some info →
    info.confirmedHeight = INVALID_HEIGHT ∨ info.confirmedHeight ≤ info.headHeight
  sources : ∀ hash stored, l.store.blocks.get hash = some stored →
    stored.block.opcode = .receive → l.sources.contains stored.block.link = true ∧
      l.store.receivableInfoGet stored.block.account stored.block.link = none

-- The chain from its first block on.
def IsChain (env : Env) (account : Account) (chain : List Block) : Prop :=
  (blockShape env).Chain account chain.reverse

-- The wallet has the blocks of the chain, the last one of them confirmed.
structure MirrorsChain (env : Env) (l : WalletLedger) (account : Account) (chain : List Block) :
    Prop where
  stored : ∀ c ∈ chain, ∃ stored, l.store.blocks.get (env.hash c) = some stored ∧
    stored.block.account = account ∧ stored.block.height = c.height
  confirmed : ∃ info, l.store.accountInfoGet account = some info ∧
    info.confirmedHeight ≠ INVALID_HEIGHT ∧ chain.length ≤ info.confirmedHeight + 1

section Runs

variable {env : Env} {blocks : Set Block} {chains : Account → List Block} {l : WalletLedger}
  {isMyAccount : Account → Bool}

theorem Shows.stored_of_get (h : Shows env blocks l chains) {hash : BlockHash}
    {stored : StoredBlock} (hget : l.store.blocks.get hash = some stored) :
    env.hash stored.block = hash ∧ stored.block ∈ chains stored.block.account ∧
      (stored.block, stored.successor) ∈
        (blockShape env).entries 0 (chains stored.block.account) := by
  obtain ⟨hhash, account, hentry⟩ := (h.stores.stored hash (stored.block, stored.successor)).mp
    (rows_eq_some.mpr hget)
  have hmem := Shape.mem_of_entry hentry
  have haccount : stored.block.account = account := h.account_eq hmem
  subst haccount
  exact ⟨hhash, hmem, hentry⟩

theorem Shows.get_of_mem (h : Shows env blocks l chains) {account : Account} {b : Block}
    (hb : b ∈ chains account) :
    ∃ successor, l.store.blocks.get (env.hash b) = some ⟨b, successor⟩ := by
  obtain ⟨above, hentry⟩ := @Shape.entry_of_mem _ _ _ (blockShape env) _ _ (0 : BlockHash) hb
  have hrow := h.stores.get_of_entry hentry
  exact ⟨above, rows_eq_some.mp hrow⟩

theorem Shows.chain_of_info (h : Shows env blocks l chains) {account : Account} {info : AccountInfo}
    (hinfo : l.store.accountInfoGet account = some info) :
    ∃ b rest, chains account = b :: rest ∧ info.head = env.hash b ∧
      info.headHeight = rest.length ∧
      (info.confirmedHeight = INVALID_HEIGHT ∨ info.confirmedHeight ≤ info.headHeight) := by
  have hold := h.infos account
  rw [hinfo] at hold
  cases hchain : chains account with
  | nil => rw [hchain] at hold; cases hold
  | cons b rest =>
      rw [hchain] at hold
      obtain ⟨info', hsame, hhead, hlength, -, -, hconfirmed⟩ := hold
      cases hsame
      exact ⟨b, rest, rfl, hhead, hlength, hconfirmed⟩

theorem Shows.wellMirrored (h : Shows env blocks l chains) : WellMirrored env l where
  keyed := fun hash stored hget => (h.stored_of_get hget).1
  heights := by
    intro account info hinfo height
    obtain ⟨b, rest, hchain, -, hlength, -⟩ := h.chain_of_info hinfo
    have hc := h.stores.chain account
    constructor
    · rintro ⟨hash, stored, hget, rfl, rfl⟩
      have hlt := hc.height_lt (h.stored_of_get hget).2.1
      rw [hchain, List.length_cons] at hlt
      change stored.block.height < _ at hlt
      omega
    · intro hle
      obtain ⟨c, hmem, hheight⟩ := hc.exists_height (show height < (chains account).length by
        rw [hchain, List.length_cons]
        omega)
      obtain ⟨successor, hget⟩ := h.get_of_mem hmem
      exact ⟨_, _, hget, h.account_eq hmem, hheight⟩
  single := by
    intro hash hash' stored stored' hget hget' haccount hheight
    have hentry := (h.stored_of_get hget).2.2
    have hentry' := (h.stored_of_get hget').2.2
    rw [← haccount] at hentry'
    have hsame := (h.stores.chain _).entry_unique hentry hentry' hheight
    cases stored
    cases stored'
    simpa using hsame
  head := by
    intro account info hinfo
    obtain ⟨b, rest, hchain, hhead, hlength, -⟩ := h.chain_of_info hinfo
    refine ⟨b, ?_, h.account_eq (hchain ▸ List.mem_cons_self), ?_⟩
    · rw [hhead]
      exact h.head_get hchain
    · rw [hlength]
      exact h.height_eq hchain
  linked := by
    intro hash stored hget hne
    obtain ⟨hhash, hmem, -⟩ := h.stored_of_get hget
    obtain ⟨p, hentry, hprevious, hheight⟩ :=
      @Shape.Chain.exists_previous _ _ _ _ _ _ _ (0 : BlockHash) (h.stores.chain _) hmem hne
    have hrow := h.stores.get_of_entry hentry
    have hpGet := rows_eq_some.mp hrow
    change stored.block.previous = env.hash p at hprevious
    refine ⟨p, ?_, h.account_eq (Shape.mem_of_entry hentry), hheight⟩
    rw [hprevious, ← hhash]
    exact hpGet
  confirmed := fun account info hinfo => by
    obtain ⟨b, rest, -, -, -, hconfirmed⟩ := h.chain_of_info hinfo
    exact hconfirmed
  sources := fun hash stored hget hop => h.received _ _ (h.stored_of_get hget).2.1 hop

-- In every run the ledger shows chains.
theorem reachable_shows (hplay : InPlay env blocks) {history : History WalletLedger WalletEvent}
    (h : (mirrorMachine env isMyAccount blocks).Run (fun _ _ => True) history l) :
    ∃ chains, Shows env blocks l chains := by
  refine h.invariant (P := fun _ l => ∃ chains, Shows env blocks l chains) (fun l hstart => ?_)
    fun _ l event _ hfits _ ih => ?_
  · cases hstart
    exact ⟨_, Shows.empty⟩
  · obtain ⟨chains, hshows⟩ := ih
    cases event with
    | block b confirmed => exact processBlock_shows hplay hshows hfits
    | rollback b =>
        obtain ⟨chains', hshows', -⟩ := @processBlockRollback_shows _ _ _ _ _ isMyAccount hplay
          hshows hfits
        exact ⟨chains', hshows'⟩
    | receivable account hash info b now => exact ⟨chains, processReceivableInfo_shows hshows⟩

end Runs

section Convergence

variable {env : Env} {blocks : Set Block} {chains : Account → List Block} {l : WalletLedger}
  {isMyAccount : Account → Bool} {account : Account} {c : Block} {done todo above base : List Block}

-- The wallet has the blocks `done` of the confirmed chain, the last one first, and others above.
structure Reached (env : Env) (blocks : Set Block) (l : WalletLedger) (chains : Account → List Block)
    (account : Account) (above base done : List Block) : Prop where
  shows_ : Shows env blocks l chains
  chain : chains account = above ++ base
  same : base.map env.hash = done.map env.hash
  confirmed : done ≠ [] → ∃ info, l.store.accountInfoGet account = some info ∧
    info.confirmedHeight ≠ INVALID_HEIGHT ∧ done.length ≤ info.confirmedHeight + 1

-- The next block of the chain.
structure NextOf (env : Env) (blocks : Set Block) (account : Account) (done : List Block) (c : Block) :
    Prop where
  mem : c ∈ blocks
  account_eq : c.account = account
  height : c.height = done.length
  previous : ∀ p ∈ done.head?, c.previous = env.hash p

theorem Reached.length_eq (h : Reached env blocks l chains account above base done) :
    base.length = done.length := by
  have hlength := congrArg List.length h.same
  rwa [List.length_map, List.length_map] at hlength

-- The confirmed block has just been put on top.
theorem reached_top (hplay : InPlay env blocks) {l' : WalletLedger}
    (h : Reached env blocks l chains account [] base done) (hnext : NextOf env blocks account done c)
    (hshows : Shows env blocks l' (Function.update chains c.account (c :: chains c.account)))
    (hinfo : ∃ info, l'.store.accountInfoGet c.account = some info ∧
      (true = true → info.confirmedHeight = c.height)) :
    Reached env blocks l' (Function.update chains c.account (c :: chains c.account)) account []
      (c :: base) (c :: done) := by
  have hchain := h.chain
  have hheight := hnext.height
  have hne := hplay.height_ne c hnext.mem
  obtain ⟨info, hget, hconfirmed⟩ := hinfo
  rw [hnext.account_eq] at hget ⊢
  refine ⟨hnext.account_eq ▸ hshows, ?_, ?_, fun _ => ⟨info, hget, ?_, ?_⟩⟩
  · rw [Function.update_self, hchain]
    rfl
  · rw [List.map_cons, List.map_cons, h.same]
  · rw [hconfirmed rfl]
    exact hne
  · rw [hconfirmed rfl, List.length_cons]
    omega

theorem handle_top (hplay : InPlay env blocks) (hmine : isMyAccount account = true)
    (h : Reached env blocks l chains account [] base done) (hnext : NextOf env blocks account done c) :
    ∃ l' chains', l.processBlock env isMyAccount c true = (l', false) ∧
      Reached env blocks l' chains' account [] (c :: base) (c :: done) := by
  have hchain := h.chain
  rw [List.nil_append] at hchain
  have hlength := h.length_eq
  have hheight := hnext.height
  have howner := hnext.account_eq
  rw [← howner] at hmine hchain
  cases base with
  | nil =>
      have hzero : c.height = 0 := hheight.trans hlength.symm
      obtain ⟨l', hrun, hshows, hinfo⟩ :=
        @openAccount_shows _ _ _ _ _ true hplay h.shows_ hnext.mem hchain hzero
      refine ⟨l', _, ?_, reached_top hplay h hnext hshows hinfo⟩
      rw [processBlock_of_nil h.shows_ hmine hchain, if_neg (not_not.mpr hzero), hrun]
      rfl
  | cons p rest =>
      obtain ⟨info, hinfo, -, hhead, hinfoLength, -⟩ := info_of_head hplay h.shows_ hchain
      have hup : c.height = info.headHeight + 1 := by
        rw [hheight, ← hlength, hinfoLength]
        rfl
      have hprevious : c.previous = info.head := by
        cases done with
        | nil => cases hlength
        | cons d done =>
            rw [hhead, hnext.previous d rfl]
            exact (List.cons.inj h.same).1.symm
      obtain ⟨l', hrun, hshows, hnew⟩ :=
        @extend_shows _ _ _ _ _ _ _ _ true hplay h.shows_ hnext.mem hchain hinfo hup hprevious
      refine ⟨l', _, ?_, reached_top hplay h hnext hshows hnew⟩
      rw [processBlock_of_cons hplay h.shows_ hmine hchain hinfo, if_neg (by omega), if_pos hup,
        if_neg (not_not.mpr hprevious), hrun]
      rfl

-- One of the blocks above is the confirmed one already.
theorem handle_stored (hplay : InPlay env blocks) (hmine : isMyAccount account = true) {x : Block}
    (h : Reached env blocks l chains account (x :: above) base done)
    (hnext : NextOf env blocks account done c)
    (hexists : l.store.blockExists (env.hash c) = true) :
    ∃ l' above' z, l.processBlock env isMyAccount c true = (l', false) ∧
      above'.length ≤ above.length ∧
      Reached env blocks l' chains account above' (z :: base) (c :: done) := by
  have hchain := h.chain
  have hlength := h.length_eq
  have hheight := hnext.height
  have howner := hnext.account_eq
  obtain ⟨other, y, hy, hhash⟩ := (blockExists_iff h.shows_ _).mp hexists
  obtain ⟨hsame, hyHeight⟩ :=
    hplay.apart y (h.shows_.stores.mem other y hy) c hnext.mem hhash
  change y.account = c.account at hsame
  change y.height = c.height at hyHeight
  rw [h.shows_.account_eq hy, howner] at hsame
  subst hsame
  -- the lowest block above the base stands at the height of the confirmed one
  obtain ⟨above', z, hsplit⟩ : ∃ above' z, x :: above = above' ++ [z] :=
    (List.eq_nil_or_concat' (x :: above)).resolve_left (List.cons_ne_nil _ _)
  have hc := h.shows_.stores.chain other
  rw [hsplit, List.append_assoc, List.singleton_append] at hchain
  have hz : z ∈ chains other := by
    rw [hchain]
    exact List.mem_append_right _ List.mem_cons_self
  have hzHeight : z.height = base.length := by
    rw [hchain] at hc
    exact hc.height_middle
  have hyz : y = z := hc.unique hy hz (by
    change y.height = z.height
    omega)
  subst hyz
  have hshort : above'.length ≤ above.length := by
    have hlengths := congrArg List.length hsplit
    rw [List.length_cons, List.length_append, List.length_singleton] at hlengths
    omega
  have hmap : (y :: base).map env.hash = (c :: done).map env.hash := by
    rw [List.map_cons, List.map_cons, h.same, hhash]
  have hxChain : chains c.account = x :: (above ++ base) := howner ▸ h.chain
  rw [← howner] at hmine
  obtain ⟨info, hinfo, -, -, hinfoLength, -⟩ := info_of_head hplay h.shows_ hxChain
  have hlow : c.height ≤ info.headHeight := by
    rw [hinfoLength, List.length_append]
    omega
  rw [processBlock_of_cons hplay h.shows_ hmine hxChain hinfo, if_neg (by omega), if_neg (by omega),
    if_neg Bool.true_eq_false.mp, if_pos hexists]
  by_cases hdone : info.confirmedHeight ≠ INVALID_HEIGHT ∧ info.confirmedHeight ≥ c.height
  · rw [if_pos hdone]
    refine ⟨l, above', y, rfl, hshort, h.shows_, hchain, hmap, fun _ => ⟨info, ?_, hdone.1, ?_⟩⟩
    · rw [← howner]
      exact hinfo
    · rw [List.length_cons]
      omega
  · obtain ⟨l', hrun, hshows, hinfo'⟩ := confirm_shows h.shows_ hxChain hinfo hlow
    rw [if_neg hdone, hrun]
    refine ⟨l', above', y, rfl, hshort, hshows, hchain, hmap,
      fun _ => ⟨{ info with confirmedHeight := c.height }, ?_, ?_, ?_⟩⟩
    · rw [← howner]
      exact hinfo'
    · exact hplay.height_ne c hnext.mem
    · rw [List.length_cons]
      dsimp only
      omega

-- The block on top is another one: it goes, and the confirmed block comes once more.
theorem handle_other (hplay : InPlay env blocks) (hmine : isMyAccount account = true) {x : Block}
    (h : Reached env blocks l chains account (x :: above) base done)
    (hnext : NextOf env blocks account done c)
    (hexists : ¬l.store.blockExists (env.hash c) = true) :
    ∃ l' chains', l.processBlock env isMyAccount c true = (l', true) ∧
      Reached env blocks l' chains' account above base done := by
  have hlength := h.length_eq
  have hheight := hnext.height
  have howner := hnext.account_eq
  have hchain : chains account = x :: (above ++ base) := h.chain
  obtain ⟨info, hinfo, -, -, hinfoLength, -⟩ := info_of_head hplay h.shows_ hchain
  obtain ⟨l', hrun, hshows, hkept⟩ := rollback_shows hplay h.shows_ hchain
  have hlow : c.height ≤ info.headHeight := by
    rw [hinfoLength, List.length_append]
    omega
  subst howner
  refine ⟨l', _, ?_, hshows, Function.update_self .., h.same, fun hne => ?_⟩
  · rw [processBlock_of_cons hplay h.shows_ hmine hchain hinfo, if_neg (by omega),
      if_neg (by omega), if_neg Bool.true_eq_false.mp, if_neg hexists, hrun]
  · have hbase : base ≠ [] := by
      rintro rfl
      exact hne (List.length_eq_zero_iff.mp hlength.symm)
    have hpositive := List.length_pos_iff.mpr hbase
    obtain ⟨info', hsame, hvalid, hle⟩ := h.confirmed hne
    cases hsame.symm.trans hinfo
    have htop := hplay.height_ne x (h.shows_.mem hchain)
    have hxHeight := h.shows_.height_eq hchain
    have hxLt := x.height_lt
    refine ⟨_, hkept info hinfo (by simp [hbase]), ?_, ?_⟩
    · change (if _ then _ else _) ≠ INVALID_HEIGHT
      split_ifs
      · unfold INVALID_HEIGHT at htop ⊢
        omega
      · exact hvalid
    · change _ ≤ (if _ then _ else _) + 1
      rw [List.length_append] at hinfoLength
      split_ifs <;> omega

theorem handle_reaches (hplay : InPlay env blocks) (hmine : isMyAccount account = true)
    (h : Reached env blocks l chains account above base done)
    (hnext : NextOf env blocks account done c) {fuel : Nat} (hfuel : above.length < fuel) :
    ∃ l' chains' above' base', l.handle env isMyAccount c fuel = some l' ∧
      above'.length ≤ above.length ∧ Reached env blocks l' chains' account above' base' (c :: done) := by
  induction above generalizing l chains fuel with
  | nil =>
      obtain ⟨l', chains', hrun, hreached⟩ := handle_top hplay hmine h hnext
      cases fuel with
      | zero => cases hfuel
      | succ fuel =>
          refine ⟨l', chains', [], c :: base, ?_, Nat.le_refl _, hreached⟩
          rw [handle, hrun]
  | cons x above ih =>
      cases fuel with
      | zero => cases hfuel
      | succ fuel =>
          rw [List.length_cons] at hfuel
          by_cases hexists : l.store.blockExists (env.hash c) = true
          · obtain ⟨l', above', z, hrun, hshort, hreached⟩ := handle_stored hplay hmine h hnext hexists
            refine ⟨l', chains, above', z :: base, ?_, ?_, hreached⟩
            · rw [handle, hrun]
            · rw [List.length_cons]
              omega
          · obtain ⟨l₁, chains₁, hrun, hreached⟩ := handle_other hplay hmine h hnext hexists
            obtain ⟨l', chains', above', base', hhandle, hshort, hlast⟩ := ih hreached
              (show above.length < fuel by omega)
            refine ⟨l', chains', above', base', ?_, ?_, hlast⟩
            · rw [handle, hrun]
              exact hhandle
            · rw [List.length_cons]
              omega

-- The rest of the chain, on what is done of it.
theorem handleAll_reaches (hplay : InPlay env blocks) (hmine : isMyAccount account = true)
    (h : Reached env blocks l chains account above base done)
    (hmem : ∀ c ∈ todo, c ∈ blocks)
    (htodo : (blockShape env).Chain account (todo.reverse ++ done)) {fuel : Nat}
    (hfuel : above.length < fuel) :
    ∃ l' chains' above' base', l.handleAll env isMyAccount fuel todo = some l' ∧
      Reached env blocks l' chains' account above' base' (todo.reverse ++ done) := by
  induction todo generalizing l chains above base done with
  | nil => exact ⟨l, chains, above, base, rfl, h⟩
  | cons c todo ih =>
      rw [List.reverse_cons, List.append_assoc, List.singleton_append] at htodo ⊢
      have hown : (blockShape env).Chain account (c :: done) := htodo.lower
      have hnext : NextOf env blocks account done c :=
        ⟨hmem c List.mem_cons_self, hown.1, hown.2.1, hown.2.2.1⟩
      obtain ⟨l₁, chains₁, above₁, base₁, hhandle, hshort, hreached⟩ :=
        handle_reaches hplay hmine h hnext hfuel
      obtain ⟨l', chains', above', base', hrest, hlast⟩ :=
        ih hreached (fun b hb => hmem b (List.mem_cons_of_mem _ hb)) htodo
          (Nat.lt_of_le_of_lt hshort hfuel)
      refine ⟨l', chains', above', base', ?_, hlast⟩
      rw [handleAll, hhandle]
      exact hrest

end Convergence

-- In every run the mirror is well formed, and from wherever it has come the confirmed blocks of
-- a chain, handled in their order, make it show this chain.
theorem mirror_converges {env : Env} {blocks : Set Block} {isMyAccount : Account → Bool}
    (hplay : InPlay env blocks) {history : History WalletLedger WalletEvent} {l : WalletLedger}
    (h : (mirrorMachine env isMyAccount blocks).Run (fun _ _ => True) history l) :
    WellMirrored env l ∧ ∀ account chain, isMyAccount account = true → chain ≠ [] →
      (∀ c ∈ chain, c ∈ blocks) → IsChain env account chain →
        ∃ fuel l', l.handleAll env isMyAccount fuel chain = some l' ∧ WellMirrored env l' ∧
          MirrorsChain env l' account chain := by
  obtain ⟨chains, hshows⟩ := reachable_shows hplay h
  refine ⟨hshows.wellMirrored, fun account chain hmine hne hmem hchain => ?_⟩
  have hstart : Reached env blocks l chains account (chains account) [] [] :=
    ⟨hshows, (List.append_nil _).symm, rfl, fun hnil => absurd rfl hnil⟩
  obtain ⟨l', chains', above, base, hrun, hreached⟩ := handleAll_reaches hplay hmine hstart hmem
    (by rwa [List.append_nil]) (Nat.lt_succ_self _)
  rw [List.append_nil] at hreached
  refine ⟨_, l', hrun, hreached.shows_.wellMirrored, fun c hc => ?_, ?_⟩
  · have hhash : env.hash c ∈ base.map env.hash := by
      rw [hreached.same]
      exact List.mem_map_of_mem (List.mem_reverse.mpr hc)
    obtain ⟨z, hz, hsame⟩ := List.mem_map.mp hhash
    have hzChain : z ∈ chains' account := by
      rw [hreached.chain]
      exact List.mem_append_right _ hz
    obtain ⟨successor, hget⟩ := hreached.shows_.get_of_mem hzChain
    obtain ⟨-, hheight⟩ :=
      hplay.apart z (hreached.shows_.stores.mem account z hzChain) c (hmem c hc) hsame
    rw [hsame] at hget
    exact ⟨_, hget, hreached.shows_.account_eq hzChain, hheight⟩
  · obtain ⟨info, hinfo, hvalid, hle⟩ := hreached.confirmed (by simpa using hne)
    rw [List.length_reverse] at hle
    exact ⟨info, hinfo, hvalid, hle⟩

section Sample

-- The first block of an account.
def firstReceive (place : Account × Uint256) : Block :=
  sampleTx .receive 1 1 TEST_EPOCH_TIMESTAMP 0 place.1 0 0 5 place.2

def firstReceives (places : List (Account × Uint256)) : Set Block :=
  {b | b ∈ places.map firstReceive}

theorem firstReceives_once {places : List (Account × Uint256)}
    (hapart : (blockShape sampleEnv).Apart (firstReceives places))
    (hzero : ∀ b ∈ firstReceives places, sampleEnv.hash b ≠ 0) :
    ReceivesOnce sampleEnv (firstReceives places) where
  apart := hapart
  ne_zero := hzero
  height_ne := by
    rintro b hb
    obtain ⟨place, -, rfl⟩ := List.mem_map.mp hb
    change (0 : UInt64).toNat ≠ INVALID_HEIGHT
    decide
  once := by
    intro account chain hmem hchain
    cases chain with
    | nil => exact List.nodup_nil
    | cons b rest =>
        obtain ⟨place, -, rfl⟩ := List.mem_map.mp (hmem b List.mem_cons_self)
        have hlength : 0 = rest.length := hchain.2.1
        rw [List.length_eq_zero_iff.mp hlength.symm]
        exact List.nodup_singleton _

def mirrorRun (places : List (Account × Uint256)) (events : List WalletEvent) :
    History WalletLedger WalletEvent × WalletLedger :=
  (mirrorMachine sampleEnv (fun _ => true) (firstReceives places)).exec .empty events

-- Two accounts take in what is under one link, and the second one is rolled back.
def sharedPlaces : List (Account × Uint256) := [(1, 7), (2, 7)]

def sharedEvents : List WalletEvent :=
  [.block (firstReceive (1, 7)) false, .block (firstReceive (2, 7)) false,
    .rollback (firstReceive (2, 7))]

theorem sharedPlaces_once : ReceivesOnce sampleEnv (firstReceives sharedPlaces) := by
  refine firstReceives_once ?_ ?_
  · change ∀ b ∈ sharedPlaces.map firstReceive, ∀ c ∈ sharedPlaces.map firstReceive,
      sampleEnv.hash b = sampleEnv.hash c → b.account = c.account ∧ b.height = c.height
    decide +kernel
  · change ∀ b ∈ sharedPlaces.map firstReceive, sampleEnv.hash b ≠ 0
    decide +kernel

-- The first account still has its block, whose link is no source any more.
theorem shared_link_forgotten : ReceivesOnce sampleEnv (firstReceives sharedPlaces) ∧
    (mirrorMachine sampleEnv (fun _ => true) (firstReceives sharedPlaces)).Run (fun _ _ => True)
      (mirrorRun sharedPlaces sharedEvents).1 (mirrorRun sharedPlaces sharedEvents).2 ∧
    ¬WellMirrored sampleEnv (mirrorRun sharedPlaces sharedEvents).2 := by
  refine ⟨sharedPlaces_once, ?_, fun h => ?_⟩
  · refine Machine.exec_run rfl (fun event hmem l => ?_) fun _ _ => trivial
    simp only [sharedEvents, List.mem_cons, List.not_mem_nil, or_false] at hmem
    rcases hmem with rfl | rfl | rfl
    · exact List.mem_cons_self
    · exact List.mem_cons_of_mem _ List.mem_cons_self
    · exact List.mem_cons_of_mem _ List.mem_cons_self
  · have hstate : (mirrorRun sharedPlaces sharedEvents).2.store.blocks.get
          (sampleEnv.hash (firstReceive (1, 7))) = some ⟨firstReceive (1, 7), 0⟩ ∧
        (mirrorRun sharedPlaces sharedEvents).2.sources.contains 7 = false := by
      decide +kernel
    have hsource := (h.sources _ _ hstate.1 rfl).1
    exact absurd (hsource.symm.trans hstate.2) Bool.true_eq_false.mp

-- Two first blocks of one account.
def forkPlaces : List (Account × Uint256) := [(1, 7), (1, 8)]

theorem forkPlaces_inPlay : InPlay sampleEnv (firstReceives forkPlaces) where
  toReceivesOnce := by
    refine firstReceives_once ?_ ?_
    · change ∀ b ∈ forkPlaces.map firstReceive, ∀ c ∈ forkPlaces.map firstReceive,
        sampleEnv.hash b = sampleEnv.hash c → b.account = c.account ∧ b.height = c.height
      decide +kernel
    · change ∀ b ∈ forkPlaces.map firstReceive, sampleEnv.hash b ≠ 0
      decide +kernel
  own := by
    change ∀ b ∈ forkPlaces.map firstReceive, ∀ c ∈ forkPlaces.map firstReceive, _
    decide

-- The wallet holds the second one when the first one is confirmed.
theorem mirror_converges_sample :
    ∃ fuel l', (mirrorRun forkPlaces [.block (firstReceive (1, 8)) false]).2.handleAll sampleEnv
        (fun _ => true) fuel [firstReceive (1, 7)] = some l' ∧ WellMirrored sampleEnv l' ∧
      MirrorsChain sampleEnv l' 1 [firstReceive (1, 7)] := by
  have hrun : (mirrorMachine sampleEnv (fun _ => true) (firstReceives forkPlaces)).Run
      (fun _ _ => True) (mirrorRun forkPlaces [.block (firstReceive (1, 8)) false]).1
      (mirrorRun forkPlaces [.block (firstReceive (1, 8)) false]).2 := by
    refine Machine.exec_run rfl (fun event hmem l => ?_) fun _ _ => trivial
    rw [List.mem_singleton.mp hmem]
    exact List.mem_cons_of_mem _ List.mem_cons_self
  refine (mirror_converges forkPlaces_inPlay hrun).2 1 [firstReceive (1, 7)] rfl
    (List.cons_ne_nil _ _) (fun c hc => ?_) ⟨rfl, rfl, fun p hp => ?_, trivial⟩
  · rw [List.mem_singleton.mp hc]
    exact List.mem_cons_self
  · cases hp

end Sample

end Raicoin
