import Raicoin.Common.BlockBuilder
import Raicoin.Node.BlockProcessor.AppendReady
import Raicoin.Refinement.Reach

-- What the builders promise of a block, in the terms of the checks of the node.
namespace Raicoin

open Lib

-- The key signs for the account.
def Signs (env : Env) (signMessage : SignMessage) (key : RawKey) (account : Account) : Prop :=
  ∀ message, env.validateMessage account message (signMessage key account message) = false

-- What a client knows of the coins that it receives.
structure Incoming where
  source : BlockHash
  amount : Amount
  sentAt : UInt64

namespace BlockBuilder

structure BuiltOn (env : Env) (p b : Block) : Prop where
  type : b.type = p.type
  previous : b.previous = env.hash p
  height : b.height = (p.height + 1) % 2 ^ 64
  timestamp : p.timestamp ≤ b.timestamp
  rule : ChainRule env p b

structure Built (env : Env) (now : UInt64) (account : Account) (previous : Option Block)
    (incoming : Option Incoming) (b : Block) : Prop where
  account : b.account = account
  legal : b.Legal
  signature : env.checkSignature b = false
  now_le : now.toNat ≤ b.timestamp
  timestamp_le : b.timestamp ≤ (now.toNat + 60) % 2 ^ 64
  link : b.opcode = .change ∨ b.opcode = .credit → b.link = 0
  opcode : b.opcode ≠ .reward ∧ b.opcode ≠ .bind
  placed : match previous with
    | none => Opens b
    | some p => BuiltOn env p b
  receive : b.opcode = .receive → ∃ info, incoming = some info ∧ b.link = info.source ∧
    info.sentAt.toNat ≤ b.timestamp ∧ earned env previous b = info.amount.toNat

-- What every block that the node has built has in common, whatever its opcode.
structure Prepared (env : Env) (now : UInt64) (account : Account) (previous : Option Block)
    (b : Block) : Prop where
  account : b.account = account
  legal : b.Legal
  signature : env.checkSignature b = false
  now_le : now.toNat ≤ b.timestamp
  timestamp_le : b.timestamp ≤ now.toNat + 60
  link : b.opcode = .change ∨ b.opcode = .credit → b.link = 0
  placed : match previous with
    | none => Opens b
    | some p => BuiltOn env p b

variable {env : Env} {now : UInt64} {account : Account} {p b : Block} {timestamp : Nat}

theorem Built.prepared {previous : Option Block} {incoming : Option Incoming}
    (h : Built env now account previous incoming b) : Prepared env now account previous b := by
  have hlate := h.timestamp_le
  exact ⟨h.account, h.legal, h.signature, h.now_le, by omega, h.link, h.placed⟩

theorem laterOf_ge (now timestamp : Nat) :
    now ≤ laterOf now timestamp ∧ timestamp ≤ laterOf now timestamp := by
  unfold laterOf
  split <;> omega

theorem checkTimestamp_eq_ok {u : Unit} :
    checkTimestamp now timestamp = .ok u ↔ timestamp ≤ (now.toNat + 60) % 2 ^ 64 := by
  rw [checkTimestamp, returnIf_eq_ok, Nat.not_lt]

theorem checkCounter_eq_ok {credit counter : Nat} {code : ErrorCode} {u : Unit} :
    checkCounter credit counter code = .ok u ↔ counter ≤ credit * TRANSACTIONS_PER_CREDIT := by
  rw [checkCounter, returnIf_eq_ok, Nat.not_lt]

theorem nextCounter_lt (timestamp : Nat) (p : Block) : nextCounter timestamp p < 2 ^ 32 := by
  unfold nextCounter
  split <;> omega

-- The fields that every block on `p` gets alike.
structure Filled (env : Env) (p b : Block) (newCredit time : Nat) : Prop where
  type : b.type = p.type
  previous : b.previous = env.hash p
  height : b.height = (p.height + 1) % 2 ^ 64
  timestamp : b.timestamp = time
  counter : b.counter = nextCounter time p
  credit : b.credit = newCredit

variable {credit : Nat}

-- The counter and the quota of a built block are those of the node.
theorem Filled.counterIncrease (h : Filled env p b credit timestamp)
    (hquota : nextCounter timestamp p ≤ credit * TRANSACTIONS_PER_CREDIT) :
    CounterIncrease p b := by
  have hcounter := h.counter
  unfold nextCounter at hquota hcounter
  unfold CounterIncrease
  rw [h.timestamp, h.credit]
  split_ifs at hquota hcounter ⊢
  · exact ⟨hcounter, by omega⟩
  · exact hcounter

theorem Filled.builtOn (h : Filled env p b credit timestamp) (htime : p.timestamp ≤ timestamp)
    (hquota : nextCounter timestamp p ≤ credit * TRANSACTIONS_PER_CREDIT)
    (hop : b.opcode ≠ .reward)
    (hcredit : if b.opcode = .credit then p.credit < b.credit else b.credit = p.credit)
    (hrep : b.opcode ≠ .change → b.hasRepresentative = true →
      p.representative = b.representative)
    (hbalance : BalanceRule env p b) : BuiltOn env p b where
  type := h.type
  previous := h.previous
  height := h.height
  timestamp := h.timestamp ▸ htime
  rule := ⟨hcredit, by rw [if_neg hop]; exact h.counterIncrease hquota, hrep, hbalance⟩

theorem filled_tx {block : TxBlock} (htype : p.type = .txBlock) (hcredit : credit < 2 ^ 16)
    (htime : timestamp < 2 ^ 64) (hprevious : block.previous = env.hash p)
    (hheight : block.height.toNat = (p.height + 1) % 2 ^ 64)
    (htimestamp : block.timestamp = UInt64.ofNat timestamp)
    (hcounter : block.counter = UInt32.ofNat (nextCounter timestamp p))
    (hcreditEq : block.credit = UInt16.ofNat credit) :
    Filled env p (.tx block) credit timestamp where
  type := htype.symm
  previous := hprevious
  height := hheight
  timestamp := by
    change block.timestamp.toNat = timestamp
    rw [htimestamp, UInt64.toNat_ofNat_of_lt' htime]
  counter := by
    change block.counter.toNat = _
    rw [hcounter, UInt32.toNat_ofNat_of_lt' (nextCounter_lt timestamp p)]
  credit := by
    change block.credit.toNat = credit
    rw [hcreditEq, UInt16.toNat_ofNat_of_lt' hcredit]

theorem filled_rep {block : RepBlock} (htype : p.type = .repBlock) (hcredit : credit < 2 ^ 16)
    (htime : timestamp < 2 ^ 64) (hprevious : block.previous = env.hash p)
    (hheight : block.height.toNat = (p.height + 1) % 2 ^ 64)
    (htimestamp : block.timestamp = UInt64.ofNat timestamp)
    (hcounter : block.counter = UInt32.ofNat (nextCounter timestamp p))
    (hcreditEq : block.credit = UInt16.ofNat credit) :
    Filled env p (.rep block) credit timestamp where
  type := htype.symm
  previous := hprevious
  height := hheight
  timestamp := by
    change block.timestamp.toNat = timestamp
    rw [htimestamp, UInt64.toNat_ofNat_of_lt' htime]
  counter := by
    change block.counter.toNat = _
    rw [hcounter, UInt32.toNat_ofNat_of_lt' (nextCounter_lt timestamp p)]
  credit := by
    change block.credit.toNat = credit
    rw [hcreditEq, UInt16.toNat_ofNat_of_lt' hcredit]

-- What `Receive` computes on a previous block.
theorem receiveNext_ok {type : BlockType} {amount : Amount} {sentAt : Nat} {received : Received}
    (h : receiveNext env type p amount sentAt now = .ok received) :
    p.type = type ∧ received.credit = p.credit ∧
      received.counter = nextCounter received.timestamp p ∧
      received.height = (p.height + 1) % 2 ^ 64 ∧ received.previous = env.hash p ∧
      received.balance.toNat = p.balance.toNat + amount.toNat ∧
      now.toNat ≤ received.timestamp ∧ p.timestamp ≤ received.timestamp ∧
      sentAt ≤ received.timestamp ∧ received.timestamp ≤ (now.toNat + 60) % 2 ^ 64 ∧
      nextCounter received.timestamp p ≤ p.credit * TRANSACTIONS_PER_CREDIT := by
  simp only [receiveNext, Except.bind_eq_ok, returnIf_eq_ok, Except.pure_eq_ok,
    Decidable.not_not, checkTimestamp_eq_ok, checkCounter_eq_ok] at h
  obtain ⟨-, htype, -, htime, -, hquota, -, hbalance, rfl⟩ := h
  have hlater := laterOf_ge now.toNat p.timestamp
  refine ⟨htype, rfl, rfl, rfl, rfl, ?_, ?_, ?_, ?_, htime, hquota⟩
  · have hp := p.balance.isLt
    have ha := amount.isLt
    rw [BitVec.toNat_add] at hbalance ⊢
    omega
  all_goals
    dsimp only
    split <;> omega

theorem receiveFirst_ok {amount : Amount} {sentAt : Nat} {received : Received}
    (h : receiveFirst env amount sentAt now = .ok received) :
    received.credit = 1 ∧ received.counter = 1 ∧ received.height = 0 ∧ received.previous = 0 ∧
      creditPrice env.network received.timestamp + received.balance.toNat = amount.toNat ∧
      now.toNat ≤ received.timestamp ∧ sentAt ≤ received.timestamp ∧
      received.timestamp ≤ (now.toNat + 60) % 2 ^ 64 := by
  simp only [receiveFirst, Except.bind_eq_ok, returnIf_eq_ok, Except.pure_eq_ok, Nat.not_lt,
    checkTimestamp_eq_ok] at h
  obtain ⟨-, htime, -, hamount, rfl⟩ := h
  refine ⟨rfl, rfl, rfl, rfl, ?_, ?_, ?_, htime⟩
  · have ha := amount.isLt
    rw [BitVec.toNat_sub, BitVec.toNat_ofNat]
    dsimp only at hamount ⊢
    omega
  all_goals
    dsimp only
    split <;> omega

end BlockBuilder

open BlockBuilder

section Tx

variable {env : Env} {signMessage : SignMessage} {key : RawKey} {builder builder' : TxBlockBuilder}
  {b : Block} {now : UInt64} {extensions : List UInt8}

-- The block of a builder is the one it was given, with a signature that holds.
theorem TxBlockBuilder.build_spec (hkey : builder.privateKey = some key)
    (hsigns : Signs env signMessage key builder.account) {block : TxBlock}
    (haccount : block.account = builder.account)
    (h : builder.build env signMessage block = (b, builder')) :
    (∃ signature, b = .tx { block with signature }) ∧ env.checkSignature b = false ∧
      builder' = { builder with previous := some b } := by
  simp only [build, Prod.mk.injEq] at h
  obtain ⟨rfl, rfl⟩ := h
  refine ⟨⟨_, rfl⟩, ?_, rfl⟩
  rw [hkey]
  change env.validateMessage block.account (env.hash (.tx block)) _ = false
  rw [haccount]
  exact hsigns _

theorem TxBlockBuilder.change_built (hkey : builder.privateKey = some key)
    (hsigns : Signs env signMessage key builder.account) {rep : Account}
    (h : builder.change env signMessage rep now extensions = .ok (b, builder')) :
    Built env now builder.account builder.previous none b ∧
      builder' = { builder with previous := some b } := by
  simp only [change, Except.bind_eq_ok, returnIf_eq_ok, orReturn_eq_ok, Except.pure_eq_ok,
    Decidable.not_not, checkTimestamp_eq_ok, checkCounter_eq_ok] at h
  obtain ⟨p, hp, -, htype, checked, -, -, htime, -, hquota, hbuild⟩ := h
  obtain ⟨⟨signature, hb⟩, hsigned, hnext⟩ := build_spec hkey hsigns rfl hbuild
  have hlater := laterOf_ge now.toNat p.timestamp
  have hfilled : Filled env p b p.credit (laterOf now.toNat p.timestamp) := by
    subst hb
    exact filled_tx htype p.credit_lt (by omega) rfl (UInt64.toNat_ofNat' ..) rfl rfl rfl
  have hop : b.opcode = .change := by rw [hb]; rfl
  refine ⟨⟨by rw [hb]; rfl, by rw [hb]; rfl, hsigned, ?_, ?_, fun _ => by rw [hb]; rfl,
    by simp [hop], ?_, by simp [hop]⟩, hnext⟩
  · rw [hfilled.timestamp]
    exact hlater.1
  · rw [hfilled.timestamp]
    exact htime
  · rw [hp]
    refine hfilled.builtOn hlater.2 hquota (by simp [hop]) ?_ (by simp [hop]) ?_
    · rw [if_neg (by simp [hop])]
      exact hfilled.credit
    · simp only [BalanceRule, hop]
      rw [hb]
      rfl

theorem TxBlockBuilder.send_built (hkey : builder.privateKey = some key)
    (hsigns : Signs env signMessage key builder.account) {destination : Account} {amount : Amount}
    (h : builder.send env signMessage destination amount now extensions = .ok (b, builder')) :
    Built env now builder.account builder.previous none b ∧
      builder' = { builder with previous := some b } := by
  simp only [send, Except.bind_eq_ok, returnIf_eq_ok, orReturn_eq_ok, Except.pure_eq_ok,
    Decidable.not_not, checkTimestamp_eq_ok, checkCounter_eq_ok, Nat.not_lt] at h
  obtain ⟨p, hp, -, htype, -, hamount, checked, -, -, htime, -, hquota, -, hbalance, hbuild⟩ := h
  obtain ⟨⟨signature, hb⟩, hsigned, hnext⟩ := build_spec hkey hsigns rfl hbuild
  have hlater := laterOf_ge now.toNat p.timestamp
  have hfilled : Filled env p b p.credit (laterOf now.toNat p.timestamp) := by
    subst hb
    exact filled_tx htype p.credit_lt (by omega) rfl (UInt64.toNat_ofNat' ..) rfl rfl rfl
  have hop : b.opcode = .send := by rw [hb]; rfl
  refine ⟨⟨by rw [hb]; rfl, by rw [hb]; rfl, hsigned, ?_, ?_, by simp [hop], by simp [hop], ?_,
    by simp [hop]⟩, hnext⟩
  · rw [hfilled.timestamp]
    exact hlater.1
  · rw [hfilled.timestamp]
    exact htime
  · rw [hp]
    refine hfilled.builtOn hlater.2 hquota (by simp [hop]) ?_ ?_ ?_
    · rw [if_neg (by simp [hop])]
      exact hfilled.credit
    · intro _ _
      rw [hb]
      rfl
    · have hpositive : 0 < amount.toNat := by
        refine Nat.pos_of_ne_zero fun hz => hamount ?_
        exact BitVec.eq_of_toNat_eq hz
      have hless : (p.balance - amount).toNat < p.balance.toNat := by
        rw [BitVec.toNat_sub_of_le (BitVec.le_def.mpr hbalance)]
        omega
      simp only [BalanceRule, hop]
      rw [hb]
      exact hless

-- What the two `Receive` have in common: a block with the fields that were computed.
theorem BlockBuilder.received_built {type : BlockType} {account : Account} {previous : Option Block}
    {amount : Amount} {sentAt : UInt64} {source : BlockHash} {received : Received}
    (hreceived : receiveOn env type previous amount sentAt now = .ok received)
    (hamount : amount ≠ 0) (htype : b.type = type) (hlegal : b.Legal) (hop : b.opcode = .receive)
    (haccount : b.account = account) (hsigned : env.checkSignature b = false)
    (hlink : b.link = source)
    (hcredit : received.credit < 2 ^ 16 → b.credit = received.credit)
    (hcounter : received.counter < 2 ^ 32 → b.counter = received.counter)
    (htimestamp : received.timestamp < 2 ^ 64 → b.timestamp = received.timestamp)
    (hheight : received.height < 2 ^ 64 → b.height = received.height)
    (hprevious : b.previous = received.previous) (hbalance : b.balance = received.balance)
    (hrep : ∀ p, previous = some p → b.hasRepresentative = true →
      p.representative = b.representative) :
    Built env now account previous (some ⟨source, amount, sentAt⟩) b := by
  have hpositive : 0 < amount.toNat := by
    refine Nat.pos_of_ne_zero fun hz => hamount ?_
    exact BitVec.eq_of_toNat_eq hz
  cases previous with
  | none =>
      obtain ⟨hone, hfirst, hzero, hnull, hsum, hnow, hsent, htime⟩ := receiveFirst_ok hreceived
      have hat := htimestamp (by omega)
      have hcreditOne := hcredit (by omega)
      refine ⟨haccount, hlegal, hsigned, by omega, by omega, by simp [hop], by simp [hop],
        ⟨?_, .inl hop, ?_, ?_, ?_⟩, fun _ => ⟨_, rfl, hlink, ?_, ?_⟩⟩
      · rw [hheight (by omega), hzero]
      · rw [hprevious, hnull]
      · omega
      · rw [if_neg (by simp [hop]), hcounter (by omega), hfirst]
      · rw [hat]
        exact hsent
      · simp only [earned]
        rw [hat, hbalance, hcreditOne, hone, Nat.mul_one]
        exact hsum
  | some p =>
      obtain ⟨hpt, hsame, hnext, hup, hhash, hsum, hnow, hpast, hsent, htime, hquota⟩ :=
        receiveNext_ok hreceived
      have hat := htimestamp (by omega)
      have hcreditP := p.credit_lt
      have hcounterP := nextCounter_lt received.timestamp p
      have hfilled : Filled env p b p.credit received.timestamp := by
        refine ⟨htype.trans hpt.symm, hprevious.trans hhash, ?_, hat, ?_, ?_⟩
        · rw [hheight (by omega), hup]
        · rw [hcounter (by omega), hnext]
        · rw [hcredit (by omega), hsame]
      refine ⟨haccount, hlegal, hsigned, by omega, by omega, by simp [hop], by simp [hop], ?_,
        fun _ => ⟨_, rfl, hlink, ?_, ?_⟩⟩
      · refine hfilled.builtOn hpast hquota (by simp [hop]) ?_ (fun _ => hrep p rfl) ?_
        · rw [if_neg (by simp [hop])]
          exact hfilled.credit
        · simp only [BalanceRule, hop]
          rw [hbalance, hsum]
          omega
      · rw [hat]
        exact hsent
      · simp only [earned]
        rw [hbalance, hsum]
        omega

theorem TxBlockBuilder.receive_built (hkey : builder.privateKey = some key)
    (hsigns : Signs env signMessage key builder.account) {source : BlockHash} {amount : Amount}
    {sentAt : UInt64}
    (h : builder.receive env signMessage source amount sentAt now extensions = .ok (b, builder')) :
    Built env now builder.account builder.previous (some ⟨source, amount, sentAt⟩) b ∧
      builder' = { builder with previous := some b } := by
  simp only [receive, Except.bind_eq_ok, returnIf_eq_ok, Except.pure_eq_ok] at h
  obtain ⟨checked, -, -, hamount, received, hreceived, hbuild⟩ := h
  obtain ⟨⟨signature, hb⟩, hsigned, hnext⟩ := build_spec hkey hsigns rfl hbuild
  refine ⟨received_built hreceived hamount (by rw [hb]; rfl) (by rw [hb]; rfl)
    (by rw [hb]; rfl) (by rw [hb]; rfl) hsigned (by rw [hb]; rfl) ?_ ?_ ?_ ?_ (by rw [hb]; rfl)
    (by rw [hb]; rfl) ?_, hnext⟩
  · rw [hb]
    exact UInt16.toNat_ofNat_of_lt'
  · rw [hb]
    exact UInt32.toNat_ofNat_of_lt'
  · rw [hb]
    exact UInt64.toNat_ofNat_of_lt'
  · rw [hb]
    exact UInt64.toNat_ofNat_of_lt'
  · intro p hp _
    rw [hb, hp]
    rfl

end Tx

section Rep

variable {env : Env} {signMessage : SignMessage} {key : RawKey}
  {builder builder' : RepBlockBuilder} {b : Block} {now : UInt64}

theorem RepBlockBuilder.build_spec (hkey : builder.privateKey = some key)
    (hsigns : Signs env signMessage key builder.account) {block : RepBlock}
    (haccount : block.account = builder.account)
    (h : builder.build env signMessage block = (b, builder')) :
    (∃ signature, b = .rep { block with signature }) ∧ env.checkSignature b = false ∧
      builder' = { builder with previous := some b } := by
  simp only [build, Prod.mk.injEq] at h
  obtain ⟨rfl, rfl⟩ := h
  refine ⟨⟨_, rfl⟩, ?_, rfl⟩
  rw [hkey]
  change env.validateMessage block.account (env.hash (.rep block)) _ = false
  rw [haccount]
  exact hsigns _

-- What credit costs does not come near 128 bits.
theorem creditCost_lt (network : RaiNetworks) (timestamp : Nat) (inc : UInt16) :
    creditPrice network timestamp * inc.toNat < 2 ^ 128 := by
  have hprice : creditPrice network timestamp ≤ 1000 * mRAI := by
    have hrows : ∀ price ∈ creditPrices, price ≤ 1000 := by decide
    unfold creditPrice
    split
    · exact Nat.zero_le _
    · split
      · exact Nat.le_mul_of_pos_left mRAI (by decide)
      · refine Nat.mul_le_mul_right mRAI ?_
        rw [List.getD_eq_getElem?_getD]
        cases hrow : creditPrices[(timestamp - epochTimestamp network) / QUARTER]? with
        | none => exact Nat.zero_le _
        | some price => exact hrows price (List.mem_of_getElem? hrow)
  have hinc := inc.toNat_lt
  calc creditPrice network timestamp * inc.toNat
      ≤ 1000 * mRAI * 2 ^ 16 := Nat.mul_le_mul hprice (Nat.le_of_lt hinc)
    _ < 2 ^ 128 := by decide

theorem RepBlockBuilder.credit_built (hkey : builder.privateKey = some key)
    (hsigns : Signs env signMessage key builder.account) {creditInc : UInt16}
    (h : builder.credit env signMessage creditInc now = .ok (b, builder')) :
    Built env now builder.account builder.previous none b ∧
      builder' = { builder with previous := some b } := by
  simp only [credit, Except.bind_eq_ok, returnIf_eq_ok, orReturn_eq_ok, Except.pure_eq_ok,
    Decidable.not_not, checkTimestamp_eq_ok, checkCounter_eq_ok, Nat.not_lt, Nat.not_le] at h
  obtain ⟨p, hp, -, htype, -, hmore, -, htime, -, hquota, -, hcost, hbuild⟩ := h
  obtain ⟨⟨signature, hb⟩, hsigned, hnext⟩ := build_spec hkey hsigns rfl hbuild
  have hlater := laterOf_ge now.toNat p.timestamp
  have hfilled : Filled env p b ((p.credit + creditInc.toNat) % 2 ^ 16)
      (laterOf now.toNat p.timestamp) := by
    subst hb
    exact filled_rep htype (Nat.mod_lt _ (by decide)) (by omega) rfl (UInt64.toNat_ofNat' ..)
      rfl rfl rfl
  have hop : b.opcode = .credit := by rw [hb]; rfl
  have hrepBlock : b.type = .repBlock := by rw [hb]; rfl
  refine ⟨⟨by rw [hb]; rfl, by rw [hb]; rfl, hsigned, ?_, ?_, fun _ => by rw [hb]; rfl,
    by simp [hop], ?_, by simp [hop]⟩, hnext⟩
  · rw [hfilled.timestamp]
    exact hlater.1
  · rw [hfilled.timestamp]
    exact htime
  · rw [hp]
    have hcredit := hfilled.credit
    have hinc := creditInc.toNat_lt
    have hcreditP := p.credit_lt
    refine hfilled.builtOn hlater.2 hquota (by simp [hop]) ?_ ?_ ?_
    · rw [if_pos hop, hcredit]
      exact hmore
    · intro _ hrep
      rw [(Block.representative_of_repBlock hrepBlock).1] at hrep
      cases hrep
    · -- the sum of the credits did not wrap, so the difference is what was asked for
      have hdiff : b.credit - p.credit = creditInc.toNat := by omega
      have hbalance : b.balance = p.balance - BitVec.ofNat 128
          (creditPrice env.network (laterOf now.toNat p.timestamp) * creditInc.toNat) := by
        rw [hb]
        rfl
      have hlt := creditCost_lt env.network (laterOf now.toNat p.timestamp) creditInc
      rw [BitVec.toNat_ofNat, Nat.mod_eq_of_lt hlt] at hcost
      simp only [BalanceRule, hop]
      rw [hdiff, hfilled.timestamp, hbalance,
        BitVec.toNat_sub_of_le (BitVec.le_def.mpr (by rwa [BitVec.toNat_ofNat, Nat.mod_eq_of_lt hlt])),
        BitVec.toNat_ofNat, Nat.mod_eq_of_lt hlt]
      omega

theorem RepBlockBuilder.bind_prepared (hkey : builder.privateKey = some key)
    (hsigns : Signs env signMessage key builder.account) {chain : Chain} {signer : SignerAddress}
    (h : builder.bind env signMessage chain signer now = .ok (b, builder')) :
    Prepared env now builder.account builder.previous b ∧ b.opcode = .bind ∧
      b.hasChain = true ∧ b.chain = chain := by
  simp only [bind, Except.bind_eq_ok, returnIf_eq_ok, orReturn_eq_ok, Except.pure_eq_ok,
    Decidable.not_not, checkTimestamp_eq_ok, checkCounter_eq_ok] at h
  obtain ⟨p, hp, -, htype, -, htime, -, hquota, hbuild⟩ := h
  obtain ⟨⟨signature, hb⟩, hsigned, -⟩ := build_spec hkey hsigns rfl hbuild
  have hlater := laterOf_ge now.toNat p.timestamp
  have hfilled : Filled env p b p.credit (laterOf now.toNat p.timestamp) := by
    subst hb
    exact filled_rep htype p.credit_lt (by omega) rfl (UInt64.toNat_ofNat' ..) rfl rfl rfl
  have hop : b.opcode = .bind := by rw [hb]; rfl
  refine ⟨⟨by rw [hb]; rfl, by rw [hb]; rfl, hsigned, ?_, ?_, by simp [hop], ?_⟩, hop,
    by rw [hb]; rfl, by rw [hb]; rfl⟩
  · rw [hfilled.timestamp]
    exact hlater.1
  · rw [hfilled.timestamp]
    omega
  · rw [hp]
    refine hfilled.builtOn hlater.2 hquota (by simp [hop]) ?_ ?_ ?_
    · rw [if_neg (by simp [hop])]
      exact hfilled.credit
    · intro _ hrep
      rw [hb] at hrep
      cases hrep
    · simp only [BalanceRule, hop]
      rw [hb]
      rfl

theorem RepBlockBuilder.receive_built (hkey : builder.privateKey = some key)
    (hsigns : Signs env signMessage key builder.account) {source : BlockHash} {amount : Amount}
    {sentAt : UInt64}
    (h : builder.receive env signMessage source amount sentAt now = .ok (b, builder')) :
    Built env now builder.account builder.previous (some ⟨source, amount, sentAt⟩) b ∧
      builder' = { builder with previous := some b } := by
  simp only [receive, Except.bind_eq_ok, returnIf_eq_ok, Except.pure_eq_ok] at h
  obtain ⟨-, hamount, received, hreceived, hbuild⟩ := h
  obtain ⟨⟨signature, hb⟩, hsigned, hnext⟩ := build_spec hkey hsigns rfl hbuild
  refine ⟨received_built hreceived hamount (by rw [hb]; rfl) (by rw [hb]; rfl)
    (by rw [hb]; rfl) (by rw [hb]; rfl) hsigned (by rw [hb]; rfl) ?_ ?_ ?_ ?_ (by rw [hb]; rfl)
    (by rw [hb]; rfl) ?_, hnext⟩
  · rw [hb]
    exact UInt16.toNat_ofNat_of_lt'
  · rw [hb]
    exact UInt32.toNat_ofNat_of_lt'
  · rw [hb]
    exact UInt64.toNat_ofNat_of_lt'
  · rw [hb]
    exact UInt64.toNat_ofNat_of_lt'
  · intro p _ hrep
    rw [hb] at hrep
    cases hrep

end Rep

end Raicoin
