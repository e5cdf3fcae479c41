import Raicoin.Node.Rewarder
import Raicoin.Properties.Builders

-- What a node builds for its own account and what its own block processor does with it.
namespace Raicoin

open Lib BlockBuilder

inductive RewarderCall where
  | reward (amount : Amount) (hash : BlockHash)
  | send (destination : Account)
  | receive (hash : BlockHash)
  | bind (chain : Chain) (signer : SignerAddress) (bound : Option SignerAddress)
  | credit

namespace Rewarder

section Calls

variable (env : Env) (signMessage : SignMessage) (r : Rewarder)

def process : RewarderCall → Except ErrorCode (Option Block)
  | .reward amount hash => r.processReward_ env signMessage amount hash
  | .send destination => r.processSend_ env signMessage destination
  | .receive hash => r.processReceive_ env signMessage hash
  | .bind chain signer bound => r.processBind_ env signMessage chain signer bound
  | .credit => r.processCredit_ env signMessage

-- The block that the next block of the account stands on.
def ownHead : Option Block := (r.infoOf r.account).bind fun info => r.store.blockGet info.head

-- What the rewarder does not look at before it builds: the sum of a reward and the
-- balance, and the number of bindings that the credit allows.
def Safe : RewarderCall → Prop
  | .reward amount _ => ∀ p ∈ r.ownHead, p.balance.toNat + amount.toNat < 2 ^ 128
  | .bind chain _ _ => chain ≠ Chain.INVALID ∧ ∀ p ∈ r.ownHead,
      ∀ count ∈ r.store.bindingCountGet r.account, count < allowedBindings p.credit
  | _ => True

end Calls

section Own

variable {env : Env} {signMessage : SignMessage} {r : Rewarder} {A : Lattice env}
  {info : AccountInfo} {b p : Block}

theorem infoOf_eq (h : Represents r.store A) (account : Account) :
    r.infoOf account = r.store.accountInfoGet account := by
  unfold infoOf Store.accountInfoGet
  cases hget : r.store.accounts.get account with
  | none => rfl
  | some info => simp [Option.filter, h.valid hget]

-- The account of a node is not open, or its head is a block of a representative.
structure Own (r : Rewarder) (A : Lattice env) : Prop where
  represents : Represents r.store A
  type : ∀ info, r.store.accountInfoGet r.account = some info → info.type = .repBlock

theorem Own.stands_none (h : Own r A) (hinfo : r.infoOf r.account = none) :
    r.ownHead = none ∧ Stands r.store r.account none := by
  refine ⟨by rw [ownHead, hinfo]; rfl, ?_⟩
  rw [infoOf_eq h.represents] at hinfo
  exact hinfo

theorem Own.stands_some (h : Own r A) (hinfo : r.infoOf r.account = some info)
    (hhead : r.store.blockGet info.head = some p) :
    r.ownHead = some p ∧ Stands r.store r.account (some p) ∧ p.type = .repBlock ∧
      env.hash p = info.head := by
  refine ⟨by rw [ownHead, hinfo]; exact hhead, ?_⟩
  rw [infoOf_eq h.represents] at hinfo
  obtain ⟨q, -, -, -, hhash, htype, -, hget⟩ := h.represents.head hinfo
  obtain rfl := Option.some.inj (hget.symm.trans hhead)
  exact ⟨⟨info, hinfo, hhead⟩, htype.trans (h.type info hinfo), hhash⟩

theorem Own.stands (h : Own r A) : Stands r.store r.account r.ownHead := by
  cases hinfo : r.infoOf r.account with
  | none =>
      obtain ⟨hnone, hstands⟩ := h.stands_none hinfo
      rw [hnone]
      exact hstands
  | some info =>
      have hget := hinfo
      rw [infoOf_eq h.represents] at hget
      obtain ⟨q, -, -, -, -, -, -, hhead⟩ := h.represents.head hget
      obtain ⟨hsome, hstands, -⟩ := h.stands_some hinfo hhead
      rw [hsome]
      exact hstands

-- What the constructor gives to every block.
theorem repBlock_signed (hsigns : Signs env signMessage r.key r.account) {opcode : BlockOpcode}
    {credit counter timestamp height : Nat} {previous : BlockHash} {balance : Amount}
    {link : Uint256} :
    env.checkSignature (r.repBlock env signMessage opcode credit counter timestamp height
      previous balance link) = false :=
  hsigns _

end Own

section Reward

variable {env : Env} {signMessage : SignMessage} {r : Rewarder} {A : Lattice env} {b p : Block}
  {amount : Amount} {hash : BlockHash}

-- A reward that opens the account pays for the credit.
theorem reward_first (hsigns : Signs env signMessage r.key r.account)
    (hprice : creditPrice env.network r.now.toNat ≤ amount.toNat)
    (hb : b = r.repBlock env signMessage .reward 1 0 r.now.toNat 0 0
      (amount - BitVec.ofNat 128 (creditPrice env.network r.now.toNat)) hash) :
    Prepared env r.now r.account none b ∧ earned env none b = amount.toNat := by
  have htime : b.timestamp = r.now.toNat := by
    rw [hb]
    exact UInt64.toNat_ofNat_of_lt' r.now.toNat_lt
  refine ⟨⟨by rw [hb]; rfl, by rw [hb]; rfl, by rw [hb]; exact repBlock_signed hsigns, by omega,
    by omega, ?_, ⟨by rw [hb]; rfl, .inr (by rw [hb]; rfl), by rw [hb]; rfl, ?_, ?_⟩⟩, ?_⟩
  · intro hop
    rw [hb] at hop
    rcases hop with hop | hop <;> cases hop
  · rw [hb]
    exact Nat.one_ne_zero
  · rw [hb]
    rfl
  · have hcredit : b.credit = 1 := by rw [hb]; rfl
    have hbalance : b.balance =
        amount - BitVec.ofNat 128 (creditPrice env.network r.now.toNat) := by rw [hb]; rfl
    have hlt := amount.isLt
    rw [earned, htime, hcredit, hbalance, BitVec.toNat_sub, BitVec.toNat_ofNat]
    omega

-- A reward on a head keeps its counter for the day and adds to its balance.
theorem reward_next (hsigns : Signs env signMessage r.key r.account)
    (htype : p.type = .repBlock) (hlate : p.timestamp ≤ r.now.toNat) (hamount : amount ≠ 0)
    (hsum : p.balance.toNat + amount.toNat < 2 ^ 128)
    (hb : b = r.repBlock env signMessage .reward p.credit
      (if SameDay r.now.toNat p.timestamp then p.counter else 0) r.now.toNat (p.height + 1)
      (env.hash p) (p.balance + amount) hash) :
    Prepared env r.now r.account (some p) b ∧ earned env (some p) b = amount.toNat := by
  have htime : b.timestamp = r.now.toNat := by
    rw [hb]
    exact UInt64.toNat_ofNat_of_lt' r.now.toNat_lt
  have hop : b.opcode = .reward := by rw [hb]; rfl
  have hcredit : b.credit = p.credit := by
    rw [hb]
    exact UInt16.toNat_ofNat_of_lt' p.credit_lt
  have hcounter : CounterSame p b := by
    have hlt := p.counter_lt
    rw [CounterSame, htime]
    rw [hb]
    split
    · exact UInt32.toNat_ofNat_of_lt' hlt
    · rfl
  have hbalance : b.balance.toNat = p.balance.toNat + amount.toNat := by
    have hadd : b.balance = p.balance + amount := by rw [hb]; rfl
    rw [hadd, BitVec.toNat_add, Nat.mod_eq_of_lt hsum]
  have hpositive : 0 < amount.toNat := by
    refine Nat.pos_of_ne_zero fun hz => hamount ?_
    exact BitVec.eq_of_toNat_eq hz
  refine ⟨⟨by rw [hb]; rfl, by rw [hb]; rfl, by rw [hb]; exact repBlock_signed hsigns, by omega,
    by omega, by simp [hop], ⟨?_, by rw [hb]; rfl, ?_, by omega, ?_⟩⟩, ?_⟩
  · rw [htype, hb]
    rfl
  · rw [hb]
    exact UInt64.toNat_ofNat' ..
  · refine ⟨by rw [if_neg (by simp [hop])]; exact hcredit, by rw [if_pos hop]; exact hcounter,
      fun _ hrep => ?_, ?_⟩
    · rw [hb] at hrep
      cases hrep
    · simp only [BalanceRule, hop]
      omega
  · rw [earned, hbalance]
    omega

-- What the ledger rewards comes from a block that it has, and that was succeeded in time.
theorem rewardable_source (h : Represents r.store A) {info : RewardableInfo}
    (hget : r.store.rewardableInfoGet r.account hash = some info)
    (haccount : b.account = r.account) (hlink : b.link = hash)
    (hvalid : info.validTimestamp ≤ b.timestamp)
    (hearned : earned env r.ownHead b = info.amount.toNat) : ∃ info source,
      r.store.rewardables.get (b.account, b.link) = some info ∧
        r.store.blockGet b.link = some source ∧ source.timestamp ≤ b.timestamp ∧
          info.validTimestamp ≤ b.timestamp ∧ earned env r.ownHead b = info.amount.toNat := by
  obtain ⟨⟨source, hsource, -, hkey, c, -, -, hne, hinfo⟩, -⟩ := (h.rewardables _ _).mp hget
  have hhash : hash = env.hash source := (Prod.ext_iff.mp hkey).2
  refine ⟨info, source, ?_, ?_, ?_, hvalid, hearned⟩
  · rw [haccount, hlink]
    exact hget
  · rw [hlink, hhash]
    exact h.blockGet hsource
  · obtain ⟨hle, hepoch⟩ := rewardAmount_ne_zero hne
    have hend := le_rewardTimestamp hle hepoch
    rw [hinfo] at hvalid
    dsimp only at hvalid
    omega

theorem rewardable_amount (h : Represents r.store A) {info : RewardableInfo}
    (hget : r.store.rewardableInfoGet r.account hash = some info) : info.amount ≠ 0 := by
  obtain ⟨⟨source, -, -, -, c, -, -, hne, rfl⟩, -⟩ := (h.rewardables _ _).mp hget
  exact hne

end Reward

-- What a block that the node yields promises: it stands on the head, it takes in what
-- the ledger offers, and a binding is the one that was asked for.
structure Yielded (env : Env) (r : Rewarder) (request : RewarderCall) (b : Block) : Prop where
  prepared : Prepared env r.now r.account r.ownHead b
  receive : b.opcode = .receive → ∃ info source,
    r.store.receivables.get (b.account, b.link) = some info ∧
      r.store.blockGet b.link = some source ∧ source.timestamp ≤ b.timestamp ∧
        earned env r.ownHead b = info.amount.toNat
  reward : b.opcode = .reward → ∃ info source,
    r.store.rewardables.get (b.account, b.link) = some info ∧
      r.store.blockGet b.link = some source ∧ source.timestamp ≤ b.timestamp ∧
        info.validTimestamp ≤ b.timestamp ∧ earned env r.ownHead b = info.amount.toNat
  bind : b.opcode = .bind → ∃ chain signer bound, request = .bind chain signer bound ∧
    b.hasChain = true ∧ b.chain = chain

section Yields

variable {env : Env} {signMessage : SignMessage} {blocks : Set Block} {l : Ledger}
  {A : Lattice env} {r : Rewarder} {b : Block} {amount : Amount} {hash : BlockHash}

theorem reward_yields (hown : Own r A) (hsigns : Signs env signMessage r.key r.account)
    (h : r.processReward_ env signMessage amount hash = .ok (some b))
    (hsafe : r.Safe (.reward amount hash)) : r.Yielded env (.reward amount hash) b := by
  unfold processReward_ at h
  simp only [Except.bind_eq_ok, orReturn_eq_ok, returnIf_eq_ok, Decidable.not_not] at h
  obtain ⟨rewardable, hget, -, rfl, h⟩ := h
  have hne := rewardable_amount hown.represents hget
  cases hinfo : r.infoOf r.account with
  | none =>
      rw [hinfo] at h
      simp only [Except.bind_eq_ok, returnIf_eq_ok, Except.pure_eq_ok, Option.some.injEq,
        Nat.not_lt] at h
      obtain ⟨-, hvalid, -, hprice, rfl⟩ := h
      obtain ⟨hprepared, hearned⟩ := @reward_first env signMessage r _ _ hash hsigns hprice rfl
      have hnone := (hown.stands_none hinfo).1
      rw [← hnone] at hprepared hearned
      refine ⟨hprepared, fun hop => (by cases hop), fun _ => ?_, fun hop => (by cases hop)⟩
      refine rewardable_source hown.represents hget rfl rfl ?_ hearned
      exact hvalid.trans hprepared.now_le
  | some info =>
      rw [hinfo] at h
      simp only [Except.bind_eq_ok, orReturn_eq_ok, returnIf_eq_ok, Except.pure_eq_ok,
        Option.some.injEq, Nat.not_lt] at h
      obtain ⟨p, hhead, -, hvalid, -, hlate, -, -, rfl⟩ := h
      obtain ⟨hsome, -, htype, hhash⟩ := hown.stands_some hinfo hhead
      obtain ⟨hprepared, hearned⟩ := @reward_next env signMessage r _ p _ hash hsigns htype hlate
        hne (hsafe p hsome) (by rw [hhash])
      rw [← hsome] at hprepared hearned
      refine ⟨hprepared, fun hop => (by cases hop), fun _ => ?_, fun hop => (by cases hop)⟩
      refine rewardable_source hown.represents hget rfl rfl ?_ hearned
      exact hvalid.trans hprepared.now_le

-- What the last clause of a call gives on a head: the fields of every successor.
theorem filled_own {opcode : BlockOpcode} {p : Block} {timestamp : Nat} {balance : Amount}
    {link : Uint256} (htype : p.type = .repBlock) (htime : timestamp < 2 ^ 64) :
    Filled env p (r.repBlock env signMessage opcode p.credit (nextCounter timestamp p) timestamp
      (p.height + 1) (env.hash p) balance link) p.credit timestamp :=
  filled_rep htype p.credit_lt htime rfl (UInt64.toNat_ofNat' ..) rfl rfl rfl

theorem send_yields (hown : Own r A) (hsigns : Signs env signMessage r.key r.account)
    {destination : Account} (h : r.processSend_ env signMessage destination = .ok (some b)) :
    r.Yielded env (.send destination) b := by
  unfold processSend_ at h
  simp only [Except.bind_eq_ok, returnIf_eq_ok] at h
  obtain ⟨-, -, -, -, h⟩ := h
  cases hinfo : r.infoOf r.account with
  | none =>
      rw [hinfo] at h
      cases h
  | some info =>
      rw [hinfo] at h
      simp only [Except.bind_eq_ok, orReturn_eq_ok, returnIf_eq_ok, Except.pure_eq_ok,
        Option.some.injEq, Nat.not_lt, checkCounter_eq_ok] at h
      obtain ⟨p, hhead, -, hbalance, -, htime, -, -, -, hquota, hb⟩ := h
      obtain ⟨hsome, -, htype, hhash⟩ := hown.stands_some hinfo hhead
      rw [← hhash] at hb
      have hlater := laterOf_ge r.now.toNat p.timestamp
      have hfilled : Filled env p b p.credit (laterOf r.now.toNat p.timestamp) := by
        rw [← hb]
        exact filled_own htype (by omega)
      have hop : b.opcode = .send := by rw [← hb]; rfl
      refine ⟨⟨by rw [← hb]; rfl, by rw [← hb]; rfl, by rw [← hb]; exact repBlock_signed hsigns, ?_,
        ?_, by simp [hop], ?_⟩, by simp [hop], by simp [hop], by simp [hop]⟩
      · rw [hfilled.timestamp]
        exact hlater.1
      · rw [hfilled.timestamp]
        omega
      · rw [hsome]
        refine hfilled.builtOn hlater.2 hquota (by simp [hop]) ?_ ?_ ?_
        · rw [if_neg (by simp [hop])]
          exact hfilled.credit
        · intro _ hrep
          rw [← hb] at hrep
          cases hrep
        · have hpositive : 0 < p.balance.toNat := by
            refine Nat.pos_of_ne_zero fun hz => hbalance ?_
            exact BitVec.eq_of_toNat_eq hz
          simp only [BalanceRule, hop]
          rw [← hb]
          exact hpositive

-- A builder of the node is a builder as clients use it.
theorem built_yields {previous : Option Block} {incoming : Option Incoming}
    (hbuilt : Built env r.now r.account previous incoming b) (hown : r.ownHead = previous)
    (request : RewarderCall) (hreceive : b.opcode = .receive → ∃ info source,
      r.store.receivables.get (b.account, b.link) = some info ∧
        r.store.blockGet b.link = some source ∧ source.timestamp ≤ b.timestamp ∧
          earned env r.ownHead b = info.amount.toNat) : r.Yielded env request b := by
  refine ⟨?_, hreceive, fun hop => absurd hop hbuilt.opcode.1, fun hop => absurd hop hbuilt.opcode.2⟩
  rw [hown]
  exact hbuilt.prepared

theorem receive_yields (htracks : Tracks blocks l A) (hstore : r.store = l.store) (hown : Own r A)
    (hsigns : Signs env signMessage r.key r.account)
    (h : r.processReceive_ env signMessage hash = .ok (some b)) :
    r.Yielded env (.receive hash) b := by
  unfold processReceive_ at h
  cases hget : r.store.receivableInfoGet r.account hash with
  | none =>
      rw [hget] at h
      cases h
  | some receivable =>
      rw [hget] at h
      dsimp only at h
      -- the time in the ledger is that of a block
      have htime : receivable.timestamp < 2 ^ 64 := by
        obtain ⟨⟨source, -, -, -, p, -, -, rfl⟩, -⟩ := (hown.represents.receivables _ _).mp hget
        exact source.timestamp_lt
      have hyields : ∀ {previous : Option Block} {builder' : RepBlockBuilder},
          r.ownHead = previous → (r.builderOn previous).receive env signMessage hash
            receivable.amount (UInt64.ofNat receivable.timestamp) r.now = .ok (b, builder') →
          r.Yielded env (.receive hash) b := by
        intro previous builder' hprevious hbuild
        have hkey : (r.builderOn previous).privateKey = some r.key := rfl
        obtain ⟨hbuilt, -⟩ := RepBlockBuilder.receive_built hkey hsigns hbuild
        refine built_yields hbuilt hprevious _ fun hop => ?_
        obtain ⟨coins, hcoins, hlink, hsent, hearned⟩ := hbuilt.receive hop
        obtain rfl := Option.some.inj hcoins
        rw [hstore, hprevious]
        refine offered_source htracks (fun coins hcoins => ?_) hbuilt.account hlink hsent hearned
        obtain rfl := Option.some.inj hcoins
        refine ⟨receivable, hstore ▸ hget, rfl, ?_⟩
        exact (UInt64.toNat_ofNat_of_lt' htime).symm
      cases hinfo : r.infoOf r.account with
      | none =>
          rw [hinfo] at h
          dsimp only at h
          split at h
          · cases h
          · simp only [Except.bind_eq_ok, Except.pure_eq_ok, Option.some.injEq] at h
            obtain ⟨⟨block, builder'⟩, hbuild, rfl⟩ := h
            exact hyields (hown.stands_none hinfo).1 hbuild
      | some info =>
          rw [hinfo] at h
          simp only [Except.bind_eq_ok, orReturn_eq_ok, returnIf_eq_ok, Except.pure_eq_ok,
            Option.some.injEq] at h
          obtain ⟨p, hhead, -, -, ⟨block, builder'⟩, hbuild, rfl⟩ := h
          exact hyields (hown.stands_some hinfo hhead).1 hbuild

theorem bind_yields (hown : Own r A) (hsigns : Signs env signMessage r.key r.account)
    {chain : Chain} {signer : SignerAddress} {bound : Option SignerAddress}
    (h : r.processBind_ env signMessage chain signer bound = .ok (some b)) :
    r.Yielded env (.bind chain signer bound) b ∧ b.opcode = .bind ∧ ∃ p, r.ownHead = some p := by
  unfold processBind_ at h
  simp only [Except.bind_eq_ok, orReturn_eq_ok, returnIf_eq_ok, Except.pure_eq_ok,
    Option.some.injEq] at h
  obtain ⟨-, -, info, hinfo, p, hhead, -, -, ⟨block, builder'⟩, hbuild, rfl⟩ := h
  obtain ⟨hsome, -⟩ := hown.stands_some hinfo hhead
  have hkey : (r.builderOn (some p)).privateKey = some r.key := rfl
  obtain ⟨hprepared, hop, hchain, heq⟩ := RepBlockBuilder.bind_prepared hkey hsigns hbuild
  refine ⟨⟨?_, by simp [hop], by simp [hop], fun _ => ⟨chain, signer, bound, rfl, hchain, heq⟩⟩,
    hop, p, hsome⟩
  rw [hsome]
  exact hprepared

theorem credit_yields (hown : Own r A) (hsigns : Signs env signMessage r.key r.account)
    (h : r.processCredit_ env signMessage = .ok (some b)) : r.Yielded env .credit b := by
  unfold processCredit_ at h
  cases hinfo : r.infoOf r.account with
  | none =>
      rw [hinfo] at h
      cases h
  | some info =>
      rw [hinfo] at h
      simp only [Except.bind_eq_ok, orReturn_eq_ok] at h
      obtain ⟨p, hhead, h⟩ := h
      split at h
      · simp only [Except.bind_eq_ok, returnIf_eq_ok, Except.pure_eq_ok, Option.some.injEq] at h
        obtain ⟨-, -, ⟨block, builder'⟩, hbuild, rfl⟩ := h
        have hkey : (r.builderOn (some p)).privateKey = some r.key := rfl
        obtain ⟨hbuilt, -⟩ := RepBlockBuilder.credit_built hkey hsigns hbuild
        refine built_yields hbuilt (hown.stands_some hinfo hhead).1 _ fun hop => ?_
        obtain ⟨coins, hcoins, -⟩ := hbuilt.receive hop
        cases hcoins
      · cases h

-- Every call, where it is safe.
theorem process_yields (htracks : Tracks blocks l A) (hstore : r.store = l.store) (hown : Own r A)
    (hsigns : Signs env signMessage r.key r.account) {request : RewarderCall}
    (h : r.process env signMessage request = .ok (some b)) (hsafe : r.Safe request) :
    r.Yielded env request b := by
  cases request with
  | reward amount hash => exact reward_yields hown hsigns h hsafe
  | send destination => exact send_yields hown hsigns h
  | receive hash => exact receive_yields htracks hstore hown hsigns h
  | bind chain signer bound => exact (bind_yields hown hsigns h).1
  | credit => exact credit_yields hown hsigns h

-- What is yielded is ready for the ledger of the node.
theorem Yielded.ready {request : RewarderCall} (h : r.Yielded env request b)
    (hcf : CollisionFree env blocks) (htracks : Tracks blocks l A) (hstore : r.store = l.store)
    (hown : Own r A) (hb : b ∈ blocks) (hepoch : epochTimestamp env.network ≤ r.now.toNat)
    (hclock : r.now.toNat + MAX_TIMESTAMP_DIFF < 2 ^ 64) (hsafe : r.Safe request) :
    ∃ on, AppendBlockVisitor.Ready env r.now.toNat (.begin_ l StoreCall.never) b on := by
  have hstands := hown.stands
  obtain ⟨hprepared, hreceive, hreward, hbind⟩ := h
  rw [hstore] at hstands hreceive hreward
  refine prepared_ready hcf htracks hb hprepared hstands hepoch hclock hreceive hreward ?_ ?_
  · intro hop
    obtain ⟨chain, signer, bound, rfl, hchain, rfl⟩ := hbind hop
    exact ⟨hchain, hsafe.1⟩
  · intro hop p count hp hcount
    obtain ⟨chain, signer, bound, rfl, -, -⟩ := hbind hop
    rw [hprepared.account] at hcount
    exact hsafe.2 p hp count (by rw [hstore]; exact hcount)

-- There is one head that a block of the account can stand on.
theorem Own.onHead_eq (hown : Own r A) (hstore : r.store = l.store) {info : AccountInfo}
    {p q : Block} (hp : r.ownHead = some p) (haccount : b.account = r.account)
    (hhead : OnHead l.store b info q) : q = p := by
  obtain ⟨own, hinfo, hget⟩ := Option.bind_eq_some_iff.mp hp
  rw [infoOf_eq hown.represents, hstore, ← haccount] at hinfo
  obtain rfl := Option.some.inj (hinfo.symm.trans hhead.info_get)
  rw [hstore] at hget
  exact Option.some.inj (hhead.head_get.symm.trans hget)

-- A block that was appended obeys the rules of the head.
theorem Own.appended_rule (hown : Own r A) (hstore : r.store = l.store) {p : Block}
    (hp : r.ownHead = some p) (haccount : b.account = r.account) {t : Transaction}
    (hrun : appendBlock_ env r.now.toNat b (.begin_ l StoreCall.never) = .ok () t) :
    ChainRule env p b := by
  obtain ⟨on, hchecks, -⟩ := appendBlock_ok hrun
  have hplaced : Placed env l.store b on := hchecks.placed
  cases on with
  | none =>
      obtain ⟨own, hinfo, -⟩ := Option.bind_eq_some_iff.mp hp
      have hnone := hplaced.1
      rw [← hstore, hown.represents.accountInfo_eq, haccount] at hnone
      rw [infoOf_eq hown.represents, Store.accountInfoGet, hnone] at hinfo
      cases hinfo
  | some place =>
      obtain ⟨hhead, hrule⟩ := hplaced
      rw [← hown.onHead_eq hstore hp haccount hhead]
      exact hrule

-- A reward on a head: what it adds is what was asked for.
theorem reward_sum (h : r.processReward_ env signMessage amount hash = .ok (some b)) {p : Block}
    (hp : r.ownHead = some p) :
    b.account = r.account ∧ b.opcode = .reward ∧ b.balance = p.balance + amount := by
  obtain ⟨info, hinfo, hhead⟩ := Option.bind_eq_some_iff.mp hp
  unfold processReward_ at h
  simp only [Except.bind_eq_ok, orReturn_eq_ok, returnIf_eq_ok, Decidable.not_not] at h
  obtain ⟨rewardable, -, -, rfl, h⟩ := h
  rw [hinfo] at h
  simp only [Except.bind_eq_ok, orReturn_eq_ok, returnIf_eq_ok, Except.pure_eq_ok,
    Option.some.injEq] at h
  obtain ⟨q, hq, -, -, -, -, -, -, rfl⟩ := h
  obtain rfl := Option.some.inj (hq.symm.trans hhead)
  exact ⟨rfl, rfl, rfl⟩

-- A reward that was taken did not overflow, a binding that was taken is within the limit.
theorem safe_of_appended (hown : Own r A) (hsigns : Signs env signMessage r.key r.account)
    (hstore : r.store = l.store) {request : RewarderCall}
    (h : r.process env signMessage request = .ok (some b)) {t : Transaction}
    (hrun : appendBlock_ env r.now.toNat b (.begin_ l StoreCall.never) = .ok () t) :
    r.Safe request := by
  cases request with
  | reward amount hash =>
      intro p hp
      obtain ⟨haccount, hop, hbalance⟩ := reward_sum h hp
      have hrule := (hown.appended_rule hstore hp haccount hrun).balance
      simp only [BalanceRule, hop] at hrule
      rw [hbalance, BitVec.toNat_add] at hrule
      have hamount := amount.isLt
      by_contra hover
      omega
  | bind chain signer bound =>
      obtain ⟨hyields, hop, p, hp⟩ := bind_yields hown hsigns h
      obtain ⟨hchain, info, q, hhead, hcount⟩ := appendBlock_bind hop hrun
      obtain ⟨_, _, _, hrequest, -, heq⟩ := hyields.bind hop
      obtain ⟨rfl, rfl, rfl⟩ := RewarderCall.bind.inj hrequest
      obtain rfl := hown.onHead_eq hstore hp hyields.prepared.account hhead
      refine ⟨heq ▸ hchain, fun q' hq' count hread => ?_⟩
      obtain rfl := Option.some.inj (hp.symm.trans hq')
      rw [hstore, ← hyields.prepared.account] at hread
      exact hcount count hread
  | send destination => trivial
  | receive hash => trivial
  | credit => trivial

end Yields

end Rewarder

-- A node takes the block that it has built for itself if and only if the clock leaves room
-- for its tolerance, a reward does not overflow the balance, and a binding is within the
-- limit of the account.
theorem own_blocks_accepted {env : Env} {signMessage : SignMessage} {blocks : Set Block}
    (hcf : CollisionFree env blocks) {l : Ledger} {A : Lattice env} (h : Tracks blocks l A)
    {r : Rewarder} (hstore : r.store = l.store)
    (htype : ∀ info, l.store.accountInfoGet r.account = some info → info.type = .repBlock)
    (hsigns : Signs env signMessage r.key r.account)
    (hepoch : epochTimestamp env.network ≤ r.now.toNat) {request : RewarderCall} {b : Block}
    (hyield : r.process env signMessage request = .ok (some b)) (hb : b ∈ blocks) :
    (∃ t, appendBlock_ env r.now.toNat b (.begin_ l StoreCall.never) = .ok () t) ↔
      r.now.toNat + MAX_TIMESTAMP_DIFF < 2 ^ 64 ∧ r.Safe request := by
  have hown : r.Own A := ⟨hstore ▸ h.represents, fun info hinfo => htype info (hstore ▸ hinfo)⟩
  constructor
  · rintro ⟨t, hrun⟩
    have hsafe := Rewarder.safe_of_appended hown hsigns hstore hyield hrun
    have hnow := (Rewarder.process_yields h hstore hown hsigns hyield hsafe).prepared.now_le
    obtain ⟨on, hchecks, -⟩ := appendBlock_ok hrun
    have hlate := hchecks.timestamp_le
    have hlt := r.now.toNat_lt
    unfold MAX_TIMESTAMP_DIFF at hlate ⊢
    exact ⟨by omega, hsafe⟩
  · rintro ⟨hclock, hsafe⟩
    have hyields := Rewarder.process_yields h hstore hown hsigns hyield hsafe
    obtain ⟨on, hready⟩ := hyields.ready hcf h hstore hown hb hepoch hclock hsafe
    exact appendBlock_never hready

section Sample

-- The representative of the genesis account, with nothing of its own, on the day of its
-- first reward.
def sampleRewarder (store : Store) : Rewarder where
  account := genesisRepresentative .test
  key := 0
  store := store
  now := UInt64.ofNat (TEST_EPOCH_TIMESTAMP + 11 * DAY)

theorem sampleRewarder_store (store : Store) : (sampleRewarder store).store = store := rfl

def rewardingLedger : Ledger :=
  (replay sampleEnv (fun _ => true) (genesisLedger sampleEnv true true)
    [.append sampleNow sampleSend]).getD (genesisLedger sampleEnv true true)

-- What the ledger comes to, in one evaluation.
theorem rewarding_facts :
    (replay sampleEnv (fun _ => true) (genesisLedger sampleEnv true true)
      [.append sampleNow sampleSend]).isSome ∧
    rewardingLedger.store.accountInfoGet (genesisRepresentative .test) = none ∧
    (sampleRewarder rewardingLedger.store).process sampleEnv sampleSign
      (.reward (BitVec.ofNat 128 (780000 * RAI)) (sampleEnv.hash (genesisBlock .test))) =
        .ok (some sampleReward) ∧
    (sampleRewarder rewardingLedger.store).ownHead = none := by
  decide +kernel

theorem rewardingLedger_reachable : Reachable sampleEnv {b | b ∈ sampleBlocks} rewardingLedger := by
  obtain ⟨l, hl⟩ := Option.isSome_iff_exists.mp rewarding_facts.1
  have hmem : ∀ call ∈ [BlockCall.append sampleNow sampleSend], call.block ∈ sampleBlocks := by
    rintro _ (_ | ⟨_, ⟨⟩⟩)
    exact sampleSend_mem
  rw [rewardingLedger, hl]
  exact (Reachable.genesis true true).replay hmem hl

theorem own_blocks_accepted_sample :
    ∃ t, appendBlock_ sampleEnv (sampleRewarder rewardingLedger.store).now.toNat sampleReward
      (.begin_ rewardingLedger StoreCall.never) = .ok () t := by
  obtain ⟨-, hnone, hyield, hhead⟩ := rewarding_facts
  obtain ⟨A, hA⟩ := rewardingLedger_reachable.tracks sample_collisionFree
  have htype : ∀ info, rewardingLedger.store.accountInfoGet
      (sampleRewarder rewardingLedger.store).account = some info → info.type = .repBlock := by
    intro info hinfo
    change rewardingLedger.store.accountInfoGet (genesisRepresentative .test) = some info at hinfo
    rw [hnone] at hinfo
    cases hinfo
  have hsigns : Signs sampleEnv sampleSign (sampleRewarder rewardingLedger.store).key
      (sampleRewarder rewardingLedger.store).account := fun _ => rfl
  have hstore := sampleRewarder_store rewardingLedger.store
  refine (own_blocks_accepted sample_collisionFree hA hstore htype hsigns (by decide) hyield
    sampleReward_mem).mpr ⟨by decide, fun p hp => ?_⟩
  rw [hhead] at hp
  cases hp

-- On one day the representative binds 17 signers, as many as its credit allows, and pays
-- out all that it has.
def sampleBinding (n : Nat) (p : Block) : Block := .rep {
  opcode := .bind
  credit := 1
  counter := UInt32.ofNat (n + 1)
  timestamp := UInt64.ofNat p.timestamp
  height := UInt64.ofNat (n + 1)
  account := p.account
  previous := sampleEnv.hash p
  balance := p.balance
  link := BitVec.ofNat 256 (n + 1)
  chain := 3
  signature := 0
  chain_eq := fun hne => absurd rfl hne }

def sampleBindings : Nat → Block
  | 0 => sampleReward
  | n + 1 => sampleBinding n (sampleBindings n)

def samplePayout : Block :=
  sampleRep .send 18 (TEST_EPOCH_TIMESTAMP + 11 * DAY) 18 (genesisRepresentative .test)
    (sampleEnv.hash (sampleBindings 17)) 0 1

def boundBlocks : List Block :=
  sampleSend :: (List.range 18).map sampleBindings ++ [samplePayout]

-- With them comes the binding that is over the limit.
def boundSet : List Block := genesisBlock .test :: sampleBinding 18 samplePayout :: boundBlocks

def boundLedger : Ledger :=
  (replay sampleEnv (fun _ => true) (genesisLedger sampleEnv true true)
    (boundBlocks.map (BlockCall.append sampleNow))).getD (genesisLedger sampleEnv true true)

theorem bound_collisionFree : CollisionFree sampleEnv {b | b ∈ boundSet} := by
  -- one evaluation for all the fields, which hash the same blocks
  have hall : (∀ a ∈ boundSet, ∀ b ∈ boundSet, sampleEnv.hash a = sampleEnv.hash b →
      a.hashInput = b.hashInput) ∧
    ∀ b ∈ boundSet, sampleEnv.hash b ≠ 0 ∧
      sampleEnv.hash b ≠ (genesisBlock sampleEnv.network).link ∧ b.height ≠ INVALID_HEIGHT := by
    decide +kernel
  exact ⟨hall.1, fun b hb => (hall.2 b hb).1, fun b hb => (hall.2 b hb).2.1,
    fun b hb => (hall.2 b hb).2.2, List.mem_cons_self⟩

-- What the run comes to, in one evaluation.
theorem bound_facts :
    (replay sampleEnv (fun _ => true) (genesisLedger sampleEnv true true)
      (boundBlocks.map (BlockCall.append sampleNow))).isSome ∧
    (boundLedger.store.accountInfoGet (genesisRepresentative .test)).map
      AccountInfo.type = some .repBlock ∧
    (sampleRewarder boundLedger.store).processCredit_ sampleEnv sampleSign =
      .error .ACCOUNT_ACTION_BALANCE ∧
    (sampleRewarder boundLedger.store).processBind_ sampleEnv sampleSign 3 19 none =
      .ok (some (sampleBinding 18 samplePayout)) ∧
    (replay sampleEnv (fun _ => true) boundLedger [.append
      (sampleRewarder boundLedger.store).now.toNat (sampleBinding 18 samplePayout)]).isNone := by
  decide +kernel

theorem boundLedger_reachable : Reachable sampleEnv {b | b ∈ boundSet} boundLedger := by
  obtain ⟨l, hl⟩ := Option.isSome_iff_exists.mp bound_facts.1
  have hmem : ∀ call ∈ boundBlocks.map (BlockCall.append sampleNow), call.block ∈ boundSet := by
    intro call hcall
    obtain ⟨b, hb, rfl⟩ := List.mem_map.mp hcall
    exact List.mem_cons_of_mem _ (List.mem_cons_of_mem _ hb)
  rw [boundLedger, hl]
  exact (Reachable.genesis true true).replay hmem hl

-- No credit can be bought, the next binding is built all the same, and refused.
theorem binding_over_limit :
    (∃ A : Lattice sampleEnv, Tracks {b | b ∈ boundSet} boundLedger A) ∧
    (∀ info, boundLedger.store.accountInfoGet (genesisRepresentative .test) = some info →
      info.type = .repBlock) ∧
    epochTimestamp sampleEnv.network ≤ (sampleRewarder boundLedger.store).now.toNat ∧
    (sampleRewarder boundLedger.store).processCredit_ sampleEnv sampleSign =
      .error .ACCOUNT_ACTION_BALANCE ∧
    (sampleRewarder boundLedger.store).processBind_ sampleEnv sampleSign 3 19 none =
      .ok (some (sampleBinding 18 samplePayout)) ∧
    sampleBinding 18 samplePayout ∈ boundSet ∧
    ∀ t, appendBlock_ sampleEnv (sampleRewarder boundLedger.store).now.toNat
      (sampleBinding 18 samplePayout) (.begin_ boundLedger StoreCall.never) ≠ .ok () t := by
  obtain ⟨-, htype, hcredit, hbind, hrefused⟩ := bound_facts
  refine ⟨boundLedger_reachable.tracks bound_collisionFree, fun info hget => ?_, by decide, hcredit,
    hbind, List.mem_cons_of_mem _ List.mem_cons_self, fun t hrun => ?_⟩
  · rw [hget] at htype
    exact Option.some.inj htype
  · simp only [replay, BlockCall.run] at hrefused
    rw [hrun] at hrefused
    cases hrefused

end Sample

end Raicoin
