import Raicoin.Node.BlockProcessor.Replay
import Raicoin.Refinement.Builders

-- A client-built block is always accepted.
namespace Raicoin

open Lib BlockBuilder

-- The account is where the builder believes it to be.
def Stands (s : Store) (account : Account) : Option Block → Prop
  | none => s.accountInfoGet account = none
  | some p => ∃ info, s.accountInfoGet account = some info ∧ s.blockGet info.head = some p

-- The ledger has what the client says it receives.
def Offered (s : Store) (account : Account) (incoming : Option Incoming) : Prop :=
  ∀ coins, incoming = some coins → ∃ info, s.receivableInfoGet account coins.source = some info ∧
    info.amount = coins.amount ∧ info.timestamp = coins.sentAt.toNat

section Step

variable {env : Env} {blocks : Set Block} {l : Ledger} {A : Lattice env} {b : Block}
  {now : UInt64} {account : Account} {previous : Option Block} {incoming : Option Incoming}

-- A block on top of its account is new to the ledger.
theorem prepared_fresh (hcf : CollisionFree env blocks) (h : Tracks blocks l A) (hb : b ∈ blocks)
    (hprepared : Prepared env now account previous b)
    (hstands : Stands l.store account previous) : l.store.blocks.get (env.hash b) = none := by
  cases hget : l.store.blocks.get (env.hash b) with
  | none => rfl
  | some stored =>
      obtain ⟨hmem, hhash, -⟩ := (h.represents.blocks _ _).mp hget
      obtain ⟨haccount, hheight⟩ := Block.place_of_hashInput
        (hcf.hashInput _ (h.subset _ hmem) b hb hhash)
      have hplaced := hprepared.placed
      exfalso
      cases previous with
      | none =>
          refine h.represents.no_block (b := b) ?_ _ hmem haccount
          rw [hprepared.account]
          exact hstands
      | some p =>
          obtain ⟨info, hinfo, hhead⟩ := hstands
          obtain ⟨q, hq, hqa, -, -, -, htop, hget⟩ := h.represents.head hinfo
          obtain rfl := Option.some.inj (hget.symm.trans hhead)
          have hle := A.le_top htop hmem (haccount.trans (hprepared.account.trans hqa.symm))
          have hne := A.height_ne q hq
          have hlt := q.height_lt
          have hup := hplaced.height
          unfold INVALID_HEIGHT at hne
          omega

theorem prepared_placed (h : Tracks blocks l A) (hprepared : Prepared env now account previous b)
    (hstands : Stands l.store account previous) :
    ∃ on, Placed env l.store b on ∧ on.head = previous := by
  have hplaced := hprepared.placed
  cases previous with
  | none =>
      refine ⟨none, ⟨?_, hplaced⟩, rfl⟩
      rw [h.represents.accountInfo_eq, hprepared.account]
      exact hstands
  | some p =>
      obtain ⟨info, hinfo, hhead⟩ := hstands
      obtain ⟨q, hq, -, hheight, hhash, htype, -, hget⟩ := h.represents.head hinfo
      obtain rfl := Option.some.inj (hget.symm.trans hhead)
      have hne := A.height_ne q hq
      have hlt := q.height_lt
      have hup := hplaced.height
      unfold INVALID_HEIGHT at hne
      refine ⟨some (info, q), ⟨⟨?_, hhead, by omega, hplaced.type.trans htype,
        hplaced.previous.trans hhash, hplaced.timestamp⟩, hplaced.rule⟩, rfl⟩
      rw [hprepared.account]
      exact hinfo

-- A prepared block passes every check of the node, if it takes in what there is.
theorem prepared_ready (hcf : CollisionFree env blocks) (h : Tracks blocks l A) (hb : b ∈ blocks)
    (hprepared : Prepared env now account previous b)
    (hstands : Stands l.store account previous) (hepoch : epochTimestamp env.network ≤ now.toNat)
    (hclock : now.toNat + MAX_TIMESTAMP_DIFF < 2 ^ 64)
    (hreceive : b.opcode = .receive → ∃ info source,
      l.store.receivables.get (b.account, b.link) = some info ∧
        l.store.blockGet b.link = some source ∧ source.timestamp ≤ b.timestamp ∧
          earned env previous b = info.amount.toNat)
    (hreward : b.opcode = .reward → ∃ info source,
      l.store.rewardables.get (b.account, b.link) = some info ∧
        l.store.blockGet b.link = some source ∧ source.timestamp ≤ b.timestamp ∧
          info.validTimestamp ≤ b.timestamp ∧ earned env previous b = info.amount.toNat)
    (hchain : b.opcode = .bind → b.hasChain = true ∧ b.chain ≠ Chain.INVALID)
    (hbindings : b.opcode = .bind → ∀ p count, previous = some p →
      l.store.bindingCount.get b.account = some count → count < allowedBindings p.credit) :
    ∃ on, AppendBlockVisitor.Ready env now.toNat (.begin_ l StoreCall.never) b on := by
  obtain ⟨on, hplaced, rfl⟩ := prepared_placed h hprepared hstands
  have hnow := hprepared.now_le
  have hlate := hprepared.timestamp_le
  unfold MAX_TIMESTAMP_DIFF at hclock
  refine ⟨on, ⟨hprepared.legal, hprepared.signature, by omega, ?_,
    prepared_fresh hcf h hb hprepared hstands, hplaced, hreceive, hreward⟩, rfl, ?_,
    hprepared.link, hchain, hbindings⟩
  · unfold MAX_TIMESTAMP_DIFF
    omega
  · intro info p hsome
    rw [hsome] at hplaced
    have hinfo := hplaced.1.info_get
    have hzero := (h.represents.accounts.describes _ _ hinfo).tailHeight
    exact ⟨h.represents.valid hinfo, by omega⟩

-- What the ledger offers comes from a block that it has.
theorem offered_source (h : Tracks blocks l A) {coins : Incoming}
    (hoffered : Offered l.store account (some coins)) (haccount : b.account = account)
    (hlink : b.link = coins.source) (hsent : coins.sentAt.toNat ≤ b.timestamp)
    (hearned : earned env previous b = coins.amount.toNat) : ∃ info source,
      l.store.receivables.get (b.account, b.link) = some info ∧
        l.store.blockGet b.link = some source ∧ source.timestamp ≤ b.timestamp ∧
          earned env previous b = info.amount.toNat := by
  obtain ⟨info, hinfo, hamount, htime⟩ := hoffered coins rfl
  obtain ⟨⟨source, hsource⟩, -⟩ := (h.represents.receivables _ _).mp hinfo
  have hkey : coins.source = env.hash source := (Prod.ext_iff.mp hsource.2.2.1).2
  refine ⟨info, source, ?_, ?_, ?_, ?_⟩
  · rw [haccount, hlink]
    exact hinfo
  · rw [hlink, hkey]
    exact h.represents.blockGet hsource.1
  · obtain ⟨-, -, -, p, -, -, rfl⟩ := hsource
    dsimp only at htime
    omega
  · rw [hearned, hamount]

-- What a builder returns passes every check of the node.
theorem built_ready (hcf : CollisionFree env blocks) (h : Tracks blocks l A) (hb : b ∈ blocks)
    (hbuilt : Built env now account previous incoming b)
    (hstands : Stands l.store account previous) (hoffered : Offered l.store account incoming)
    (hepoch : epochTimestamp env.network ≤ now.toNat)
    (hclock : now.toNat + MAX_TIMESTAMP_DIFF < 2 ^ 64) :
    ∃ on, AppendBlockVisitor.Ready env now.toNat (.begin_ l StoreCall.never) b on := by
  obtain ⟨hreward, hbind⟩ := hbuilt.opcode
  refine prepared_ready hcf h hb hbuilt.prepared hstands hepoch hclock (fun hop => ?_)
    (fun hop => absurd hop hreward) (fun hop => absurd hop hbind) (fun hop => absurd hop hbind)
  obtain ⟨coins, rfl, hlink, hsent, hearned⟩ := hbuilt.receive hop
  exact offered_source h hoffered hbuilt.account hlink hsent hearned

-- After the append the account stands on the new block.
theorem built_appended (hcf : CollisionFree env blocks) (h : Tracks blocks l A) (hb : b ∈ blocks)
    {time : Nat} {t : Transaction}
    (hrun : appendBlock_ env time b (.begin_ l StoreCall.never) = .ok () t) :
    ∃ A' : Lattice env, Tracks blocks t.commit A' ∧ Stands t.commit.store b.account (some b) := by
  obtain ⟨on, hchecks, ht⟩ := appendBlock_ok hrun
  obtain ⟨A', hmoves, htracks⟩ := (@BlockCall.effect env l (.append time b) _ t () hrun).tracks hcf hb h
  refine ⟨A', htracks, ?_⟩
  cases hmoves with
  | push hext =>
      refine ⟨appendedInfo env b on, ?_, ?_⟩
      · rw [ht, appended_commit, Ledger.appended_store]
        simp [Store.accountInfoGet, appendedStore]
      · have hhead : (appendedInfo env b on).head = env.hash b := by
          cases on with
          | none => rfl
          | some place => rfl
        rw [hhead]
        exact htracks.represents.blockGet (Finset.mem_insert_self _ _)

end Step

inductive TxCall where
  | change (rep : Account) (extensions : List UInt8)
  | receive (incoming : Incoming) (extensions : List UInt8)
  | send (destination : Account) (amount : Amount) (extensions : List UInt8)

def TxCall.incoming : TxCall → Option Incoming
  | .receive incoming _ => some incoming
  | _ => none

inductive RepCall where
  | credit (creditInc : UInt16)
  | receive (incoming : Incoming)

def RepCall.incoming : RepCall → Option Incoming
  | .receive incoming => some incoming
  | _ => none

section Sessions

variable (env : Env) (signMessage : SignMessage)

def TxBlockBuilder.call (now : UInt64) (builder : TxBlockBuilder) :
    TxCall → Except ErrorCode (Block × TxBlockBuilder)
  | .change rep extensions => builder.change env signMessage rep now extensions
  | .receive incoming extensions =>
    builder.receive env signMessage incoming.source incoming.amount incoming.sentAt now extensions
  | .send destination amount extensions =>
    builder.send env signMessage destination amount now extensions

def RepBlockBuilder.call (now : UInt64) (builder : RepBlockBuilder) :
    RepCall → Except ErrorCode (Block × RepBlockBuilder)
  | .credit creditInc => builder.credit env signMessage creditInc now
  | .receive incoming =>
    builder.receive env signMessage incoming.source incoming.amount incoming.sentAt now

-- A builder is called, each time at its own hour, and what it returns is appended at
-- once; a call that fails leaves both as they are. Every append succeeds.
def Accepted {β κ : Type} (blocks : Set Block) (account : Account)
    (call : UInt64 → β → κ → Except ErrorCode (Block × β)) (incoming : κ → Option Incoming) :
    β → Ledger → List (UInt64 × κ) → Prop
  | _, _, [] => True
  | builder, l, (now, request) :: rest =>
    match call now builder request with
    | .error _ => Accepted blocks account call incoming builder l rest
    | .ok (b, builder') => b ∈ blocks → Offered l.store account (incoming request) →
      ∃ t, appendBlock_ env now.toNat b (.begin_ l StoreCall.never) = .ok () t ∧
        Accepted blocks account call incoming builder' t.commit rest

end Sessions

section Run

variable {env : Env} {signMessage : SignMessage} {blocks : Set Block} {l : Ledger}
  {A : Lattice env}

theorem TxBlockBuilder.call_built {builder builder' : TxBlockBuilder} {key : RawKey}
    (hkey : builder.privateKey = some key) (hsigns : Signs env signMessage key builder.account)
    {now : UInt64} {request : TxCall} {b : Block}
    (h : builder.call env signMessage now request = .ok (b, builder')) :
    Built env now builder.account builder.previous request.incoming b ∧
      builder' = { builder with previous := some b } := by
  cases request with
  | change rep extensions => exact change_built hkey hsigns h
  | receive incoming extensions => exact receive_built hkey hsigns h
  | send destination amount extensions => exact send_built hkey hsigns h

theorem RepBlockBuilder.call_built {builder builder' : RepBlockBuilder} {key : RawKey}
    (hkey : builder.privateKey = some key) (hsigns : Signs env signMessage key builder.account)
    {now : UInt64} {request : RepCall} {b : Block}
    (h : builder.call env signMessage now request = .ok (b, builder')) :
    Built env now builder.account builder.previous request.incoming b ∧
      builder' = { builder with previous := some b } := by
  cases request with
  | credit creditInc => exact credit_built hkey hsigns h
  | receive incoming => exact receive_built hkey hsigns h

-- One accepted block after the other: the induction is on the calls that are left, and
-- what it carries is where the account stands.
theorem accepted_of_built {β κ : Type} {account : Account} {previous : β → Option Block}
    {call : UInt64 → β → κ → Except ErrorCode (Block × β)} {incoming : κ → Option Incoming}
    {P : β → Prop}
    (hcall : ∀ now builder request b builder', P builder →
      call now builder request = .ok (b, builder') →
        Built env now account (previous builder) (incoming request) b ∧ P builder' ∧
          previous builder' = some b)
    (hcf : CollisionFree env blocks) {requests : List (UInt64 × κ)}
    (hclock : ∀ request ∈ requests, epochTimestamp env.network ≤ request.1.toNat ∧
      request.1.toNat + MAX_TIMESTAMP_DIFF < 2 ^ 64)
    {builder : β} (hown : P builder) (h : Tracks blocks l A)
    (hstands : Stands l.store account (previous builder)) :
    Accepted env blocks account call incoming builder l requests := by
  induction requests generalizing builder l A with
  | nil => trivial
  | cons request rest ih =>
      obtain ⟨now, request⟩ := request
      have hrest := fun r hr => hclock r (List.mem_cons_of_mem _ hr)
      obtain ⟨hepoch, hlate⟩ := hclock (now, request) List.mem_cons_self
      unfold Accepted
      split
      · exact ih hrest hown h hstands
      · rename_i b builder' hok
        intro hb hoffered
        obtain ⟨hbuilt, hown', hprevious⟩ := hcall now builder request b builder' hown hok
        obtain ⟨on, hready⟩ := built_ready hcf h hb hbuilt hstands hoffered hepoch hlate
        obtain ⟨t, hrun⟩ := appendBlock_never hready
        obtain ⟨A', htracks, hon⟩ := built_appended hcf h hb hrun
        refine ⟨t, hrun, ih hrest hown' htracks ?_⟩
        rw [hprevious, ← hbuilt.account]
        exact hon

end Run

-- Whatever a client builds on its own head, the node takes, and so on for every
-- block that it builds on the blocks it has built.
theorem built_blocks_accepted {env : Env} {signMessage : SignMessage} {blocks : Set Block}
    (hcf : CollisionFree env blocks) {l : Ledger} {A : Lattice env} (h : Tracks blocks l A)
    {key : RawKey} {account : Account} (hsigns : Signs env signMessage key account) :
    (∀ (builder : TxBlockBuilder) (requests : List (UInt64 × TxCall)),
      builder.privateKey = some key → builder.account = account →
      Stands l.store account builder.previous →
      (∀ request ∈ requests, epochTimestamp env.network ≤ request.1.toNat ∧
        request.1.toNat + MAX_TIMESTAMP_DIFF < 2 ^ 64) →
      Accepted env blocks account (TxBlockBuilder.call env signMessage) TxCall.incoming
        builder l requests) ∧
    (∀ (builder : RepBlockBuilder) (requests : List (UInt64 × RepCall)),
      builder.privateKey = some key → builder.account = account →
      Stands l.store account builder.previous →
      (∀ request ∈ requests, epochTimestamp env.network ≤ request.1.toNat ∧
        request.1.toNat + MAX_TIMESTAMP_DIFF < 2 ^ 64) →
      Accepted env blocks account (RepBlockBuilder.call env signMessage) RepCall.incoming
        builder l requests) := by
  constructor
  · intro builder requests hkey haccount hstands hclock
    refine accepted_of_built (P := fun builder : TxBlockBuilder =>
      builder.privateKey = some key ∧ builder.account = account) ?_ hcf hclock
      ⟨hkey, haccount⟩ h hstands
    rintro now builder request b builder' ⟨hkey, rfl⟩ hok
    obtain ⟨hbuilt, rfl⟩ := TxBlockBuilder.call_built hkey hsigns hok
    exact ⟨hbuilt, ⟨hkey, rfl⟩, rfl⟩
  · intro builder requests hkey haccount hstands hclock
    refine accepted_of_built (P := fun builder : RepBlockBuilder =>
      builder.privateKey = some key ∧ builder.account = account) ?_ hcf hclock
      ⟨hkey, haccount⟩ h hstands
    rintro now builder request b builder' ⟨hkey, rfl⟩ hok
    obtain ⟨hbuilt, rfl⟩ := RepBlockBuilder.call_built hkey hsigns hok
    exact ⟨hbuilt, ⟨hkey, rfl⟩, rfl⟩

section Sample

def sampleSign : SignMessage := fun _ _ _ => 0

-- The genesis account, about to build on the genesis block.
def sampleBuilder : TxBlockBuilder where
  privateKey := some 0
  account := genesisPublicKey .test
  rep := 0
  previous := some (genesisBlock .test)

theorem sampleBuilder_stands : Stands (genesisLedger sampleEnv true true).store
    sampleBuilder.account sampleBuilder.previous :=
  ⟨.first .txBlock (sampleEnv.hash (genesisBlock .test)), by decide +kernel, by decide +kernel⟩

theorem built_blocks_accepted_sample : Accepted sampleEnv {b | b ∈ sampleBlocks}
    (genesisPublicKey .test) (TxBlockBuilder.call sampleEnv sampleSign) TxCall.incoming
    sampleBuilder (genesisLedger sampleEnv true true)
    [(UInt64.ofNat (TEST_EPOCH_TIMESTAMP + 10 * DAY), .send 1 (1000000000000000#128) [])] := by
  refine (built_blocks_accepted sample_collisionFree (tracks_genesis sample_collisionFree true true)
    (fun _ => rfl)).1 sampleBuilder _ rfl rfl sampleBuilder_stands ?_
  decide

-- At the end of the 64-bit clock the node adds its tolerance past zero while the
-- builder still adds its own below 2 ^ 64.
def lateNow : UInt64 := UInt64.ofNat (2 ^ 64 - MAX_TIMESTAMP_DIFF)

def lateChange : Block :=
  sampleTx .change 512 1 (2 ^ 64 - MAX_TIMESTAMP_DIFF) 1 (genesisPublicKey .test)
    (sampleEnv.hash (genesisBlock .test)) 0 (10000000 * RAI) 0

theorem late_change_refused :
    Tracks {b | b ∈ sampleBlocks} (genesisLedger sampleEnv true true)
      (Lattice.genesis sample_collisionFree) ∧
    epochTimestamp sampleEnv.network ≤ lateNow.toNat ∧
    Stands (genesisLedger sampleEnv true true).store sampleBuilder.account
      sampleBuilder.previous ∧
    sampleBuilder.change sampleEnv sampleSign 0 lateNow [] =
      .ok (lateChange, { sampleBuilder with previous := some lateChange }) ∧
    ∀ t, appendBlock_ sampleEnv lateNow.toNat lateChange
      (.begin_ (genesisLedger sampleEnv true true) StoreCall.never) ≠ .ok () t := by
  refine ⟨tracks_genesis sample_collisionFree true true, by decide, sampleBuilder_stands,
    by decide +kernel, ?_⟩
  intro t hrun
  obtain ⟨on, hchecks, -⟩ := appendBlock_ok hrun
  have hlate := hchecks.timestamp_le
  revert hlate
  decide

end Sample

end Raicoin
