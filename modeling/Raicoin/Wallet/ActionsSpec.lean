import Raicoin.Refinement.Builders
import Raicoin.Wallet.Actions

-- What the wallet promises of a block, in the terms of the checks of the node.
namespace Raicoin

open Lib BlockBuilder

-- What the node's checks of the block come down to: without `sound` it is the balance that
-- does not fit the previous block.
structure Issued (env : Env) (now : UInt64) (account : Account) (previous : Option Block)
    (incoming : Option Incoming) (b : Block) (sound : Prop) : Prop where
  owner : b.account = account
  now_le : now.toNat ≤ b.timestamp
  built : sound → Built env now account previous incoming b
  unsound : ¬sound → ∃ p, previous = some p ∧ ¬BalanceRule env p b

theorem BlockBuilder.Built.issued {env : Env} {now : UInt64} {account : Account}
    {previous : Option Block} {incoming : Option Incoming} {b : Block}
    (h : Built env now account previous incoming b) :
    Issued env now account previous incoming b True :=
  ⟨h.account, h.now_le, fun _ => h, fun hfalse => absurd trivial hfalse⟩

-- The head that the wallet has of an account is the one that its info names.
def Wallets.Knows (env : Env) (wallets : Wallets) (account : Account) : Prop :=
  ∀ info p, wallets.ledger.accountInfoGet account = some info →
    wallets.ledger.blockGet info.head = some p → p.type = info.type ∧ env.hash p = info.head

-- The block was made from the draft.
structure Drawn (env : Env) (draft : Draft) (type : BlockType) (b : Block) : Prop where
  type : b.type = type
  opcode : b.opcode = draft.opcode
  credit : b.credit = draft.credit.toNat
  counter : b.counter = draft.counter.toNat
  timestamp : b.timestamp = draft.timestamp.toNat
  height : b.height = draft.height.toNat
  account : b.account = draft.account
  previous : b.previous = draft.previous
  representative : b.representative = draft.representative
  balance : b.balance = draft.balance
  link : b.link = draft.link
  signature : env.checkSignature b = false

section Drafts

variable {env : Env} {signMessage : SignMessage} {draft : Draft} {key : RawKey} {type : BlockType}
  {allowed : List BlockType} {b p : Block} {credit timestamp : Nat}

theorem Draft.block_ok (hsigns : Signs env signMessage key draft.account)
    (h : draft.block env signMessage key type allowed = .ok b) :
    Drawn env draft type b ∧ type ∈ allowed := by
  unfold Draft.block at h
  split at h
  · rename_i htx
    obtain ⟨rfl, hallowed⟩ := htx
    cases h
    exact ⟨⟨rfl, rfl, rfl, rfl, rfl, rfl, rfl, rfl, rfl, rfl, rfl, hsigns _⟩, hallowed⟩
  · split at h
    · rename_i had
      obtain ⟨rfl, hallowed⟩ := had
      cases h
      exact ⟨⟨rfl, rfl, rfl, rfl, rfl, rfl, rfl, rfl, rfl, rfl, rfl, hsigns _⟩, hallowed⟩
    · cases h

theorem Drawn.legal (h : Drawn env draft type b) (hallowed : type.allows draft.opcode = true) :
    b.Legal := by
  unfold Block.Legal
  rw [h.type, h.opcode]
  exact hallowed

-- The draft of a block that goes on from `p`.
structure Draft.Next (env : Env) (draft : Draft) (account : Account) (p : Block)
    (credit timestamp : Nat) : Prop where
  credit : draft.credit = UInt16.ofNat credit
  counter : draft.counter = UInt32.ofNat (nextCounter timestamp p)
  timestamp : draft.timestamp = UInt64.ofNat timestamp
  height : draft.height = UInt64.ofNat (p.height + 1)
  previous : draft.previous = env.hash p
  account : draft.account = account

variable {account : Account}

theorem Drawn.filled (h : Drawn env draft type b) (hnext : draft.Next env account p credit timestamp)
    (htype : p.type = type) (hcredit : credit < 2 ^ 16) (htime : timestamp < 2 ^ 64) :
    Filled env p b credit timestamp where
  type := h.type.trans htype.symm
  previous := h.previous.trans hnext.previous
  height := by
    rw [h.height, hnext.height]
    exact UInt64.toNat_ofNat' ..
  timestamp := by
    rw [h.timestamp, hnext.timestamp, UInt64.toNat_ofNat_of_lt' htime]
  counter := by
    rw [h.counter, hnext.counter, UInt32.toNat_ofNat_of_lt' (nextCounter_lt timestamp p)]
  credit := by
    rw [h.credit, hnext.credit, UInt16.toNat_ofNat_of_lt' hcredit]

-- The wallet's checks of the time and of the quota make a block that fits, if its balance does.
theorem Drawn.built {now : UInt64} (h : Drawn env draft type b)
    (hnext : draft.Next env account p credit timestamp) (htype : p.type = type)
    (hallowed : type.allows draft.opcode = true) (hcreditLt : credit < 2 ^ 16)
    (hnow : now.toNat ≤ timestamp) (hlate : timestamp ≤ (now.toNat + 60) % 2 ^ 64)
    (hpast : p.timestamp ≤ timestamp)
    (hquota : nextCounter timestamp p ≤ credit * TRANSACTIONS_PER_CREDIT)
    (hop : draft.opcode = .send ∨ draft.opcode = .change ∨ draft.opcode = .credit ∨
      draft.opcode = .destroy)
    (hcredit : if draft.opcode = .credit then p.credit < credit else credit = p.credit)
    (hrep : draft.opcode ≠ .change → draft.representative = p.representative)
    (hlink : draft.opcode ≠ .send → draft.link = 0)
    (hbalance : BalanceRule env p b) : Built env now account (some p) none b := by
  have hfilled := h.filled hnext htype hcreditLt (by omega)
  have hopcode := h.opcode
  refine ⟨h.account.trans hnext.account, h.legal hallowed, h.signature, ?_, ?_, ?_, ?_, ?_, ?_⟩
  · rw [hfilled.timestamp]
    exact hnow
  · rw [hfilled.timestamp]
    exact hlate
  · intro hchange
    rw [h.link]
    refine hlink fun hsend => ?_
    rw [hopcode, hsend] at hchange
    simp at hchange
  · rw [hopcode]
    rcases hop with hop | hop | hop | hop <;> simp [hop]
  · refine hfilled.builtOn hpast hquota ?_ ?_ ?_ hbalance
    · rw [hopcode]
      rcases hop with hop | hop | hop | hop <;> simp [hop]
    · rw [hopcode, hfilled.credit]
      exact hcredit
    · intro hchange _
      rw [h.representative]
      exact (hrep (hopcode ▸ hchange)).symm
  · intro hreceive
    rw [hopcode] at hreceive
    rcases hop with hop | hop | hop | hop <;> simp [hop] at hreceive

end Drafts

namespace Wallets

section Requests

variable {env : Env} {signMessage : SignMessage} {extensionsToPtree : List UInt8 → Bool}
  {randomRepresentative : Account} {wallets : Wallets} {wallet : Wallet} {now : Option UInt64}
  {account : Account} {b : Block}

theorem openAccount_ok (hknows : wallets.Knows env account) {info : AccountInfo} {p : Block}
    (h : wallets.openAccount account = .ok (info, p)) :
    wallets.ledger.accountInfoGet account = some info ∧
      wallets.ledger.blockGet info.head = some p ∧ p.type = info.type ∧ env.hash p = info.head := by
  simp only [openAccount, Except.bind_eq_ok, orReturn_eq_ok, Except.pure_eq_ok,
    Option.filter_eq_some_iff, Prod.mk.injEq] at h
  obtain ⟨info', ⟨hinfo, -⟩, p', hp, rfl, rfl⟩ := h
  exact ⟨hinfo, hp, hknows _ _ hinfo hp⟩

variable (hknows : wallets.Knows env account)
  (hsigns : ∀ key, wallet.privateKey account = .ok key → Signs env signMessage key account)
include hknows hsigns

theorem processAccountChange_issued {rep : Account} {extensions : List UInt8}
    (h : processAccountChange env signMessage extensionsToPtree wallets wallet now account rep
      extensions = .ok b) :
    ∃ info p n, wallets.openAccount account = .ok (info, p) ∧ now = some n ∧
      Issued env n account (some p) none b True := by
  simp only [processAccountChange, checkForks, Except.bind_eq_ok, returnIf_eq_ok, orReturn_eq_ok,
    checkTimestamp_eq_ok, checkCounter_eq_ok] at h
  obtain ⟨-, -, ⟨info, p⟩, hopen, n, hn, -, hlate, -, -, -, hquota, checked, -, -, -, key, hkey,
    hblock⟩ := h
  obtain ⟨-, -, htype, hhash⟩ := openAccount_ok hknows hopen
  obtain ⟨hdrawn, hmem⟩ := Draft.block_ok (hsigns key hkey) hblock
  have hlater := laterOf_ge n.toNat p.timestamp
  refine ⟨info, p, n, hopen, hn, Built.issued ?_⟩
  refine hdrawn.built ⟨rfl, rfl, rfl, rfl, hhash.symm, rfl⟩ htype ?_ p.credit_lt hlater.1 hlate
    hlater.2 hquota (by simp) (by simp) (by simp) (by simp) ?_
  · simp only [List.mem_cons, List.not_mem_nil, or_false] at hmem
    rcases hmem with hmem | hmem <;> rw [hmem] <;> rfl
  · simp only [BalanceRule, hdrawn.opcode]
    exact hdrawn.balance

theorem processAccountCredit_issued {creditInc : UInt16}
    (h : processAccountCredit env signMessage wallets wallet now account creditInc = .ok b) :
    ∃ info p n, wallets.openAccount account = .ok (info, p) ∧ now = some n ∧
      Issued env n account (some p) none b True := by
  simp only [processAccountCredit, Except.bind_eq_ok, returnIf_eq_ok, orReturn_eq_ok,
    checkTimestamp_eq_ok, checkCounter_eq_ok, Nat.not_le, Nat.not_lt] at h
  obtain ⟨-, -, ⟨info, p⟩, hopen, -, hmore, n, hn, -, hlate, -, hquota, -, hcost, key, hkey,
    hblock⟩ := h
  dsimp only at hmore hlate hquota hcost
  obtain ⟨-, -, htype, hhash⟩ := openAccount_ok hknows hopen
  obtain ⟨hdrawn, hmem⟩ := Draft.block_ok (hsigns key hkey) hblock
  have hlater := laterOf_ge n.toNat p.timestamp
  have hcreditLt : (p.credit + creditInc.toNat) % 2 ^ 16 < 2 ^ 16 := Nat.mod_lt _ (by decide)
  have hfilled : Filled env p b ((p.credit + creditInc.toNat) % 2 ^ 16)
      (laterOf n.toNat p.timestamp) :=
    hdrawn.filled ⟨rfl, rfl, rfl, rfl, hhash.symm, rfl⟩ htype hcreditLt (by omega)
  refine ⟨info, p, n, hopen, hn, Built.issued ?_⟩
  refine hdrawn.built ⟨rfl, rfl, rfl, rfl, hhash.symm, rfl⟩ htype ?_ hcreditLt hlater.1 hlate hlater.2 hquota (by simp)
    (by simpa using hmore) (by simp) (by simp) ?_
  · rw [List.mem_singleton.mp hmem]
    rfl
  · have hinc := creditInc.toNat_lt
    have hcreditP := p.credit_lt
    -- the sum of the credits did not wrap, so the difference is what was asked for
    have hdiff : b.credit - p.credit = creditInc.toNat := by
      rw [hfilled.credit]
      omega
    have hlt := creditCost_lt env.network (laterOf n.toNat p.timestamp) creditInc
    rw [BitVec.toNat_ofNat, Nat.mod_eq_of_lt hlt] at hcost
    simp only [BalanceRule, hdrawn.opcode]
    rw [hdiff, hfilled.timestamp, hdrawn.balance]
    dsimp only
    rw [BitVec.toNat_sub_of_le (BitVec.le_def.mpr (by rwa [BitVec.toNat_ofNat, Nat.mod_eq_of_lt hlt])),
      BitVec.toNat_ofNat, Nat.mod_eq_of_lt hlt]
    omega

-- What is destroyed is the whole balance.
theorem processAccountDestroy_issued
    (h : processAccountDestroy env signMessage wallets wallet now account = .ok b) :
    ∃ info p n, wallets.openAccount account = .ok (info, p) ∧ now = some n ∧
      Issued env n account (some p) none b (p.balance ≠ 0) := by
  simp only [processAccountDestroy, checkForks, Except.bind_eq_ok, returnIf_eq_ok, orReturn_eq_ok,
    checkTimestamp_eq_ok, checkCounter_eq_ok] at h
  obtain ⟨-, -, ⟨info, p⟩, hopen, n, hn, -, hlate, -, -, -, hquota, key, hkey, hblock⟩ := h
  dsimp only at hlate hquota
  obtain ⟨-, -, htype, hhash⟩ := openAccount_ok hknows hopen
  obtain ⟨hdrawn, hmem⟩ := Draft.block_ok (hsigns key hkey) hblock
  have hlater := laterOf_ge n.toNat p.timestamp
  have hfilled : Filled env p b p.credit (laterOf n.toNat p.timestamp) :=
    hdrawn.filled ⟨rfl, rfl, rfl, rfl, hhash.symm, rfl⟩ htype p.credit_lt (by omega)
  refine ⟨info, p, n, hopen, hn, hdrawn.account, hfilled.timestamp ▸ hlater.1, fun hsound => ?_,
    fun hzero => ?_⟩
  · refine hdrawn.built ⟨rfl, rfl, rfl, rfl, hhash.symm, rfl⟩ htype ?_ p.credit_lt hlater.1 hlate hlater.2 hquota (by simp)
      (by simp) (by simp) (by simp) ?_
    · rw [List.mem_singleton.mp hmem]
      rfl
    · simp only [BalanceRule, hdrawn.opcode]
      rw [hdrawn.balance]
      exact Nat.pos_of_ne_zero fun hz => hsound (BitVec.eq_of_toNat_eq hz)
  · refine ⟨p, rfl, ?_⟩
    simp only [BalanceRule, hdrawn.opcode]
    rw [hdrawn.balance, not_not.mp hzero]
    exact Nat.lt_irrefl _

theorem processAccountSend_issued {destination : Account} {amount : Amount}
    {extensions : List UInt8}
    (h : processAccountSend env signMessage extensionsToPtree wallets wallet now account destination
      amount extensions = .ok b) :
    ∃ info p n, wallets.openAccount account = .ok (info, p) ∧ now = some n ∧
      Issued env n account (some p) none b (amount ≠ 0) := by
  simp only [processAccountSend, checkForks, Except.bind_eq_ok, returnIf_eq_ok, orReturn_eq_ok,
    checkTimestamp_eq_ok, checkCounter_eq_ok, Nat.not_lt] at h
  obtain ⟨-, -, ⟨info, p⟩, hopen, n, hn, -, hlate, -, -, -, hquota, -, hbalance, checked, -, -, -,
    key, hkey, hblock⟩ := h
  dsimp only at hlate hquota hbalance
  obtain ⟨-, -, htype, hhash⟩ := openAccount_ok hknows hopen
  obtain ⟨hdrawn, hmem⟩ := Draft.block_ok (hsigns key hkey) hblock
  have hlater := laterOf_ge n.toNat p.timestamp
  have hfilled : Filled env p b p.credit (laterOf n.toNat p.timestamp) :=
    hdrawn.filled ⟨rfl, rfl, rfl, rfl, hhash.symm, rfl⟩ htype p.credit_lt (by omega)
  have hleft : b.balance.toNat = p.balance.toNat - amount.toNat := by
    rw [hdrawn.balance, BitVec.toNat_sub_of_le (BitVec.le_def.mpr hbalance)]
  refine ⟨info, p, n, hopen, hn, hdrawn.account, hfilled.timestamp ▸ hlater.1, fun hsound => ?_,
    fun hzero => ?_⟩
  · refine hdrawn.built ⟨rfl, rfl, rfl, rfl, hhash.symm, rfl⟩ htype ?_ p.credit_lt hlater.1 hlate hlater.2 hquota (by simp)
      (by simp) (by simp) (by simp) ?_
    · rw [List.mem_singleton.mp hmem]
      rfl
    · have hpositive : 0 < amount.toNat :=
        Nat.pos_of_ne_zero fun hz => hsound (BitVec.eq_of_toNat_eq hz)
      simp only [BalanceRule, hdrawn.opcode]
      omega
  · refine ⟨p, rfl, ?_⟩
    simp only [BalanceRule, hdrawn.opcode]
    rw [hleft, not_not.mp hzero]
    exact Nat.lt_irrefl _

omit hknows in
theorem receiveFirst_issued {hash : BlockHash} {receivable : ReceivableInfo}
    (hpositive : receivable.amount ≠ 0) (hlt : receivable.timestamp < 2 ^ 64)
    (h : receiveFirst env signMessage randomRepresentative wallets wallet now account hash
      receivable = .ok b) :
    ∃ n, now = some n ∧ Issued env n account none
      (some ⟨hash, receivable.amount, UInt64.ofNat receivable.timestamp⟩) b True := by
  simp only [receiveFirst, Except.bind_eq_ok, returnIf_eq_ok, orReturn_eq_ok, Nat.not_lt] at h
  obtain ⟨n, hn, -, hlate, -, hprice, key, hkey, hblock⟩ := h
  obtain ⟨hdrawn, hmem⟩ := Draft.block_ok (hsigns key hkey) hblock
  have hsent : (UInt64.ofNat receivable.timestamp).toNat = receivable.timestamp :=
    UInt64.toNat_ofNat_of_lt' hlt
  have hat : (if n.toNat ≤ receivable.timestamp then receivable.timestamp else n.toNat) =
      if n.toNat ≥ receivable.timestamp then n.toNat else receivable.timestamp := by
    split <;> split <;> omega
  rw [hat] at hlate hprice hdrawn
  obtain ⟨timestamp, htimestamp⟩ : ∃ timestamp,
    (if n.toNat ≥ receivable.timestamp then n.toNat else receivable.timestamp) = timestamp := ⟨_, rfl⟩
  rw [htimestamp] at hlate hprice hdrawn
  have hreceived : receiveOn env wallets.blockType none receivable.amount
      (UInt64.ofNat receivable.timestamp) n = .ok ⟨1, 1, timestamp, 0, 0,
        receivable.amount - BitVec.ofNat 128 (creditPrice env.network timestamp)⟩ := by
    simp only [receiveOn, BlockBuilder.receiveFirst, Except.bind_eq_ok, returnIf_eq_ok,
      Except.pure_eq_ok, Nat.not_lt, checkTimestamp_eq_ok, hsent, htimestamp]
    exact ⟨(), hlate, (), hprice, trivial⟩
  refine ⟨n, hn, Built.issued ?_⟩
  refine received_built hreceived hpositive hdrawn.type (hdrawn.legal ?_) hdrawn.opcode
    hdrawn.account hdrawn.signature hdrawn.link (fun _ => hdrawn.credit) (fun _ => hdrawn.counter)
    (fun htime => ?_) (fun _ => hdrawn.height) hdrawn.previous hdrawn.balance
    (fun p hp => by cases hp)
  · simp only [List.mem_cons, List.not_mem_nil, or_false] at hmem
    rcases hmem with hmem | hmem <;> rw [hmem] <;> rfl
  · rw [hdrawn.timestamp]
    exact UInt64.toNat_ofNat_of_lt' htime

-- The sum of the balance and of what is received is taken in 128 bits.
theorem receiveNext_issued {hash : BlockHash} {receivable : ReceivableInfo} {info : AccountInfo}
    (hinfo : wallets.ledger.accountInfoGet account = some info)
    (hpositive : receivable.amount ≠ 0) (hlt : receivable.timestamp < 2 ^ 64)
    (h : receiveNext env signMessage wallets wallet now account hash receivable info = .ok b) :
    ∃ p n, wallets.ledger.blockGet info.head = some p ∧ now = some n ∧
      Issued env n account (some p)
        (some ⟨hash, receivable.amount, UInt64.ofNat receivable.timestamp⟩) b
        (p.balance.toNat + receivable.amount.toNat < 2 ^ 128) := by
  simp only [receiveNext, checkForks, Except.bind_eq_ok, returnIf_eq_ok, orReturn_eq_ok,
    checkTimestamp_eq_ok, checkCounter_eq_ok] at h
  obtain ⟨p, hp, n, hn, -, hlate, -, -, -, hquota, key, hkey, hblock⟩ := h
  obtain ⟨htype, hhash⟩ := hknows _ _ hinfo hp
  obtain ⟨hdrawn, hmem⟩ := Draft.block_ok (hsigns key hkey) hblock
  have hlater := laterOf_ge n.toNat p.timestamp
  have hsent : (UInt64.ofNat receivable.timestamp).toNat = receivable.timestamp :=
    UInt64.toNat_ofNat_of_lt' hlt
  have hpos : 0 < receivable.amount.toNat :=
    Nat.pos_of_ne_zero fun hz => hpositive (BitVec.eq_of_toNat_eq hz)
  obtain ⟨timestamp, htimestamp⟩ : ∃ timestamp,
    (if laterOf n.toNat p.timestamp < receivable.timestamp then receivable.timestamp
      else laterOf n.toNat p.timestamp) = timestamp := ⟨_, rfl⟩
  rw [htimestamp] at hlate hquota hdrawn
  have hnow : n.toNat ≤ timestamp := by
    rw [← htimestamp]
    split <;> omega
  refine ⟨p, n, hp, hn, hdrawn.account, ?_, fun hsound => ?_, fun hover => ⟨p, rfl, ?_⟩⟩
  · rw [hdrawn.timestamp]
    dsimp only
    rw [UInt64.toNat_ofNat_of_lt' (show timestamp < 2 ^ 64 by omega)]
    exact hnow
  · have hreceived : receiveOn env info.type (some p) receivable.amount
        (UInt64.ofNat receivable.timestamp) n = .ok ⟨p.credit, nextCounter timestamp p, timestamp,
          (p.height + 1) % 2 ^ 64, info.head, p.balance + receivable.amount⟩ := by
      simp only [receiveOn, BlockBuilder.receiveNext, Except.bind_eq_ok, returnIf_eq_ok,
        Except.pure_eq_ok, checkTimestamp_eq_ok, checkCounter_eq_ok, hsent, htimestamp]
      refine ⟨(), not_not.mpr htype, (), hlate, (), hquota, (), ?_, ?_⟩
      · rw [BitVec.toNat_add, Nat.mod_eq_of_lt hsound]
        omega
      · rw [hhash]
    refine received_built hreceived hpositive hdrawn.type (hdrawn.legal ?_) hdrawn.opcode
      hdrawn.account hdrawn.signature hdrawn.link (fun hcredit => ?_) (fun hcounter => ?_)
      (fun htime => ?_) (fun _ => ?_) hdrawn.previous hdrawn.balance (fun q hq _ => ?_)
    · simp only [List.mem_cons, List.not_mem_nil, or_false] at hmem
      rcases hmem with hmem | hmem <;> rw [hmem] <;> rfl
    · rw [hdrawn.credit]
      exact UInt16.toNat_ofNat_of_lt' hcredit
    · rw [hdrawn.counter]
      exact UInt32.toNat_ofNat_of_lt' hcounter
    · rw [hdrawn.timestamp]
      exact UInt64.toNat_ofNat_of_lt' htime
    · rw [hdrawn.height]
      exact UInt64.toNat_ofNat' ..
    · cases hq
      exact hdrawn.representative.symm
  · simp only [BalanceRule, hdrawn.opcode]
    rw [hdrawn.balance, BitVec.toNat_add]
    have hamount := receivable.amount.isLt
    have hbalance := p.balance.isLt
    omega

end Requests

end Wallets

end Raicoin
