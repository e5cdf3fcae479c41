import Raicoin.Properties.Builders
import Raicoin.Wallet.ActionsSpec

-- Which blocks of the wallet the node takes.
namespace Raicoin

open Lib BlockBuilder

-- The wallet has the account as the node has it.
structure Agrees (wallet node : Store) (account : Account) : Prop where
  info : wallet.accountInfoGet account = node.accountInfoGet account
  head : ∀ info, node.accountInfoGet account = some info →
    wallet.blockGet info.head = node.blockGet info.head
  receivables : ∀ hash, wallet.receivableInfoGet account hash = node.receivableInfoGet account hash

-- A request moves coins if it says so, and the balance that it leads to has 128 bits.
def WalletRequest.Sound (s : Store) (account : Account) : WalletRequest → Prop
  | .change _ _ => True
  | .credit _ => True
  | .destroy => ∀ p, Stands s account (some p) → p.balance ≠ 0
  | .send _ amount _ => amount ≠ 0
  | .receive hash => ∀ p info, Stands s account (some p) →
    s.receivableInfoGet account hash = some info → p.balance.toNat + info.amount.toNat < 2 ^ 128

section Step

variable {env : Env} {blocks : Set Block} {l : Ledger} {A : Lattice env} {b : Block}
  {account : Account} {wallets : Wallets}

theorem Agrees.knows (hagree : Agrees wallets.ledger l.store account) (h : Tracks blocks l A) :
    wallets.Knows env account := by
  intro info p hinfo hp
  rw [hagree.info] at hinfo
  rw [hagree.head info hinfo] at hp
  obtain ⟨q, -, -, -, hhash, htype, -, hq⟩ := h.represents.head hinfo
  cases hq.symm.trans hp
  exact ⟨htype, hhash⟩

theorem Agrees.stands (hagree : Agrees wallets.ledger l.store account) {info : AccountInfo}
    {p : Block} (hinfo : wallets.ledger.accountInfoGet account = some info)
    (hp : wallets.ledger.blockGet info.head = some p) : Stands l.store account (some p) := by
  rw [hagree.info] at hinfo
  rw [hagree.head info hinfo] at hp
  exact ⟨info, hinfo, hp⟩

theorem stands_unique {s : Store} {p q : Block} (hp : Stands s account (some p))
    (hq : Stands s account (some q)) : p = q := by
  obtain ⟨info, hinfo, hp⟩ := hp
  obtain ⟨info', hinfo', hq⟩ := hq
  cases hinfo.symm.trans hinfo'
  exact Option.some.inj (hp.symm.trans hq)

-- There are always coins in what can be received.
theorem receivable_positive (h : Tracks blocks l A) {hash : BlockHash} {info : ReceivableInfo}
    (hinfo : l.store.receivableInfoGet account hash = some info) :
    info.amount ≠ 0 ∧ info.timestamp < 2 ^ 64 := by
  obtain ⟨⟨s, hs, hop, -, p, hp, hfollows, rfl⟩, -⟩ := (h.represents.receivables _ _).mp hinfo
  refine ⟨fun hzero => ?_, s.timestamp_lt⟩
  have hbalance := (A.succeeds hp hs hfollows).balance
  simp only [BalanceRule, hop] at hbalance
  have hdiff := BitVec.toNat_sub_of_le (BitVec.le_def.mpr (Nat.le_of_lt hbalance))
  dsimp only at hzero
  rw [hzero] at hdiff
  change 0 = _ at hdiff
  omega

-- The node takes the block if the clock has room for its tolerance and the block is sound.
theorem issued_accepted_iff (hcf : CollisionFree env blocks) (h : Tracks blocks l A) (hb : b ∈ blocks)
    {now : UInt64} {previous : Option Block} {incoming : Option Incoming} {sound : Prop}
    (hissued : Issued env now account previous incoming b sound)
    (hstands : Stands l.store account previous) (hoffered : Offered l.store account incoming)
    (hepoch : epochTimestamp env.network ≤ now.toNat) :
    (∃ t, appendBlock_ env now.toNat b (.begin_ l StoreCall.never) = .ok () t) ↔
      now.toNat + MAX_TIMESTAMP_DIFF < 2 ^ 64 ∧ sound := by
  constructor
  · rintro ⟨t, hrun⟩
    obtain ⟨on, hchecks, -⟩ := appendBlock_ok hrun
    have hlate := hchecks.timestamp_le
    have hnow := hissued.now_le
    have hlt := b.timestamp_lt
    refine ⟨?_, ?_⟩
    · unfold MAX_TIMESTAMP_DIFF at hlate ⊢
      omega
    · by_contra hunsound
      obtain ⟨p, rfl, hbalance⟩ := hissued.unsound hunsound
      have hplaced : Placed env l.store b on := hchecks.placed
      cases on with
      | none =>
          obtain ⟨info, hinfo, -⟩ := hstands
          have hnone := hplaced.1
          rw [h.represents.accountInfo_eq, hissued.owner] at hnone
          cases hnone.symm.trans hinfo
      | some place =>
          obtain ⟨info, q⟩ := place
          have hq : Stands l.store account (some q) := by
            refine ⟨info, ?_, hplaced.1.head_get⟩
            rw [← hissued.owner]
            exact hplaced.1.info_get
          rw [stands_unique hstands hq] at hbalance
          exact hbalance hplaced.2.balance
  · rintro ⟨hclock, hsound⟩
    obtain ⟨on, hready⟩ :=
      built_ready hcf h hb (hissued.built hsound) hstands hoffered hepoch hclock
    exact appendBlock_never hready

end Step

-- A block that the wallet builds is taken by the node just when the clock has room for the
-- tolerance of the node, what is sent or destroyed is not nothing and no sum wraps.
theorem wallet_blocks_accepted {env : Env} {blocks : Set Block} (hcf : CollisionFree env blocks)
    {l : Ledger} {A : Lattice env} (h : Tracks blocks l A) {wallets : Wallets} {wallet : Wallet}
    {account : Account} (hagree : Agrees wallets.ledger l.store account)
    {signMessage : SignMessage}
    (hsigns : ∀ key, wallet.privateKey account = .ok key → Signs env signMessage key account)
    {extensionsToPtree : List UInt8 → Bool} {randomRepresentative : Account} {now : UInt64}
    (hepoch : epochTimestamp env.network ≤ now.toNat) {request : WalletRequest} {b : Block}
    (hb : b ∈ blocks)
    (hbuild : wallets.process env signMessage extensionsToPtree randomRepresentative wallet
      (some now) account request = .ok b) :
    (∃ t, appendBlock_ env now.toNat b (.begin_ l StoreCall.never) = .ok () t) ↔
      now.toNat + MAX_TIMESTAMP_DIFF < 2 ^ 64 ∧ request.Sound l.store account := by
  have hknows := hagree.knows h
  have hopened : ∀ {info p}, wallets.openAccount account = .ok (info, p) →
      Stands l.store account (some p) := by
    intro info p hopen
    obtain ⟨hinfo, hp, -⟩ := Wallets.openAccount_ok hknows hopen
    exact hagree.stands hinfo hp
  have hnothing : Offered l.store account none := fun coins hcoins => by cases hcoins
  cases request with
  | change rep extensions =>
      obtain ⟨info, p, n, hopen, hn, hissued⟩ :=
        Wallets.processAccountChange_issued hknows hsigns hbuild
      cases hn
      exact issued_accepted_iff hcf h hb hissued (hopened hopen) hnothing hepoch
  | credit creditInc =>
      obtain ⟨info, p, n, hopen, hn, hissued⟩ :=
        Wallets.processAccountCredit_issued hknows hsigns hbuild
      cases hn
      exact issued_accepted_iff hcf h hb hissued (hopened hopen) hnothing hepoch
  | destroy =>
      obtain ⟨info, p, n, hopen, hn, hissued⟩ :=
        Wallets.processAccountDestroy_issued hknows hsigns hbuild
      cases hn
      rw [issued_accepted_iff hcf h hb hissued (hopened hopen) hnothing hepoch]
      refine and_congr_right fun _ => ⟨fun hne q hq => ?_, fun hall => hall p (hopened hopen)⟩
      rw [stands_unique hq (hopened hopen)]
      exact hne
  | send destination amount extensions =>
      obtain ⟨info, p, n, hopen, hn, hissued⟩ :=
        Wallets.processAccountSend_issued hknows hsigns hbuild
      cases hn
      exact issued_accepted_iff hcf h hb hissued (hopened hopen) hnothing hepoch
  | receive hash =>
      simp only [Wallets.process, Wallets.processAccountReceive, Except.bind_eq_ok, returnIf_eq_ok,
        orReturn_eq_ok] at hbuild
      obtain ⟨-, -, receivable, hreceivable, hbuild⟩ := hbuild
      rw [hagree.receivables] at hreceivable
      obtain ⟨hpositive, hlt⟩ := receivable_positive h hreceivable
      have hoffered : Offered l.store account
          (some ⟨hash, receivable.amount, UInt64.ofNat receivable.timestamp⟩) := by
        rintro coins hcoins
        cases hcoins
        exact ⟨receivable, hreceivable, rfl, (UInt64.toNat_ofNat_of_lt' hlt).symm⟩
      split at hbuild
      · rename_i hnone
        obtain ⟨n, hn, hissued⟩ := Wallets.receiveFirst_issued hsigns hpositive hlt hbuild
        cases hn
        have hstands : Stands l.store account none := by
          rw [hagree.info, Option.filter_eq_none_iff] at hnone
          cases hinfo : l.store.accountInfoGet account with
          | none => exact hinfo
          | some info => exact absurd (h.represents.valid hinfo) (hnone info hinfo)
        rw [issued_accepted_iff hcf h hb hissued hstands hoffered hepoch]
        refine and_congr_right fun _ => ⟨fun _ p info hp => ?_, fun _ => trivial⟩
        obtain ⟨info', hinfo', -⟩ := hp
        cases hstands.symm.trans hinfo'
      · rename_i info hsome
        obtain ⟨hinfo, -⟩ := Option.filter_eq_some_iff.mp hsome
        obtain ⟨p, n, hp, hn, hissued⟩ :=
          Wallets.receiveNext_issued hknows hsigns hinfo hpositive hlt hbuild
        cases hn
        have hstands := hagree.stands hinfo hp
        rw [issued_accepted_iff hcf h hb hissued hstands hoffered hepoch]
        refine and_congr_right fun _ => ⟨fun hsum q info' hq hinfo' => ?_, fun hall =>
          hall p receivable hstands hreceivable⟩
        cases hinfo'.symm.trans hreceivable
        rw [stands_unique hq hstands]
        exact hsum

section Sample

def sampleWallet : Wallet := ⟨true, fun _ => .ok 0⟩

def sampleWallets : Wallets := ⟨(genesisLedger sampleEnv true true).store, .txBlock⟩

def walletNow : UInt64 := UInt64.ofNat (TEST_EPOCH_TIMESTAMP + 10 * DAY)

def walletProcess : WalletRequest → Except ErrorCode Block :=
  sampleWallets.process sampleEnv sampleSign (fun _ => false) 0 sampleWallet (some walletNow)
    (genesisPublicKey .test)

theorem sampleWallets_agrees :
    Agrees sampleWallets.ledger (genesisLedger sampleEnv true true).store (genesisPublicKey .test) :=
  ⟨rfl, fun _ _ => rfl, fun _ => rfl⟩

-- A SEND of nothing.
def emptySend : Block :=
  sampleTx .send 512 1 (TEST_EPOCH_TIMESTAMP + 10 * DAY) 1 (genesisPublicKey .test)
    (sampleEnv.hash (genesisBlock .test)) (genesisRepresentative .test) (10000000 * RAI) 1

theorem emptySend_collisionFree :
    CollisionFree sampleEnv {b | b ∈ [genesisBlock .test, emptySend]} where
  hashInput := by
    change ∀ a ∈ [genesisBlock .test, emptySend], ∀ b ∈ [genesisBlock .test, emptySend], _
    decide +kernel
  ne_zero := by
    change ∀ b ∈ [genesisBlock .test, emptySend], _
    decide +kernel
  ne_genesis_link := by
    change ∀ b ∈ [genesisBlock .test, emptySend], _
    decide +kernel
  height_ne := by
    change ∀ b ∈ [genesisBlock .test, emptySend], _
    decide +kernel
  genesis_mem := by
    change genesisBlock sampleEnv.network ∈ [genesisBlock .test, emptySend]
    decide +kernel

-- The wallet builds it, and no node takes it.
theorem empty_send_refused :
    Tracks {b | b ∈ [genesisBlock .test, emptySend]} (genesisLedger sampleEnv true true)
      (Lattice.genesis emptySend_collisionFree) ∧
    Agrees sampleWallets.ledger (genesisLedger sampleEnv true true).store
      (genesisPublicKey .test) ∧
    epochTimestamp sampleEnv.network ≤ walletNow.toNat ∧
    walletProcess (.send 1 0 []) = .ok emptySend ∧
    ∀ t, appendBlock_ sampleEnv walletNow.toNat emptySend
      (.begin_ (genesisLedger sampleEnv true true) StoreCall.never) ≠ .ok () t := by
  have hbuild : epochTimestamp sampleEnv.network ≤ walletNow.toNat ∧
      walletProcess (.send 1 0 []) = .ok emptySend := by decide +kernel
  have htracks := tracks_genesis emptySend_collisionFree true true
  refine ⟨htracks, sampleWallets_agrees, hbuild.1, hbuild.2, ?_⟩
  intro t hrun
  obtain ⟨on, hchecks, -⟩ := appendBlock_ok hrun
  have hplaced : Placed sampleEnv (genesisLedger sampleEnv true true).store emptySend on :=
    hchecks.placed
  cases on with
  | none =>
      obtain ⟨info, hinfo, -⟩ := sampleBuilder_stands
      have hnone := hplaced.1
      rw [htracks.represents.accountInfo_eq] at hnone
      cases hnone.symm.trans hinfo
  | some place =>
      obtain ⟨info, p⟩ := place
      have hp : p = genesisBlock .test :=
        stands_unique ⟨info, hplaced.1.info_get, hplaced.1.head_get⟩ sampleBuilder_stands
      have hbalance := hplaced.2.balance
      rw [hp] at hbalance
      revert hbalance
      change ¬(10000000 * RAI < 10000000 * RAI)
      exact Nat.lt_irrefl _

theorem wallet_blocks_accepted_sample : ∃ t, appendBlock_ sampleEnv walletNow.toNat sampleSend
    (.begin_ (genesisLedger sampleEnv true true) StoreCall.never) = .ok () t := by
  have hbuild : epochTimestamp sampleEnv.network ≤ walletNow.toNat ∧
      walletNow.toNat + MAX_TIMESTAMP_DIFF < 2 ^ 64 ∧
      walletProcess (.send 1 (1000000000000000#128) []) = .ok sampleSend ∧
      sampleSend ∈ sampleBlocks := by decide +kernel
  exact (wallet_blocks_accepted sample_collisionFree (tracks_genesis sample_collisionFree true true)
    sampleWallets_agrees (fun _ _ _ => rfl) hbuild.1 hbuild.2.2.2 hbuild.2.2.1).mpr
    ⟨hbuild.2.1, fun hzero => absurd hzero (by decide)⟩

end Sample

end Raicoin
