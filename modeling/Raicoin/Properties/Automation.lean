import Raicoin.Node.BlockProcessor.Replay
import Raicoin.Wallet.ActionsSpec
import Raicoin.Wallet.Automation

-- Whether the wallet service asks for what the wallet would do.
namespace Raicoin

open Lib BlockBuilder

-- The first of the entries with the greatest amount.
def Best (entries : List (ReceivableInfo × BlockHash)) (entry : ReceivableInfo × BlockHash) : Prop :=
  ∃ before after, entries = before ++ entry :: after ∧
    (∀ other ∈ before, other.1.amount.toNat < entry.1.amount.toNat) ∧
    ∀ other ∈ after, other.1.amount.toNat ≤ entry.1.amount.toNat

namespace ReceivableInfos

variable {entries : List (ReceivableInfo × BlockHash)} {entry first : ReceivableInfo × BlockHash}

theorem keep_greater (h : first.1.amount.toNat < entry.1.amount.toNat) :
    keep 1 [first] entry = [entry] := by
  unfold keep emplace
  rw [if_pos h]
  rfl

theorem keep_le (h : entry.1.amount.toNat ≤ first.1.amount.toNat) : keep 1 [first] entry = [first] := by
  unfold keep emplace
  rw [if_neg (Nat.not_lt.mpr h)]
  rfl

theorem foldl_le (h : ∀ other ∈ entries, other.1.amount.toNat ≤ first.1.amount.toNat) :
    entries.foldl (keep 1) [first] = [first] := by
  induction entries with
  | nil => rfl
  | cons entry entries ih =>
      rw [List.forall_mem_cons] at h
      rw [List.foldl_cons, keep_le h.1]
      exact ih h.2

-- One entry is kept of some.
theorem foldl_mem (h : entries ≠ []) : ∃ kept ∈ entries, entries.foldl (keep 1) [] = [kept] := by
  induction entries using List.reverseRecOn with
  | nil => exact absurd rfl h
  | append_singleton entries entry ih =>
      rw [List.foldl_append, List.foldl_cons, List.foldl_nil]
      by_cases hnil : entries = []
      · subst hnil
        exact ⟨entry, List.mem_singleton_self _, rfl⟩
      · obtain ⟨kept, hkept, hfold⟩ := ih hnil
        rw [hfold]
        rcases Nat.lt_or_ge kept.1.amount.toNat entry.1.amount.toNat with hlt | hge
        · exact ⟨entry, by simp, keep_greater hlt⟩
        · exact ⟨kept, by simp [hkept], keep_le hge⟩

theorem foldl_best (h : Best entries entry) : entries.foldl (keep 1) [] = [entry] := by
  obtain ⟨before, after, rfl, hbefore, hafter⟩ := h
  rw [List.foldl_append, List.foldl_cons]
  have hfirst : keep 1 (before.foldl (keep 1) []) entry = [entry] := by
    by_cases hnil : before = []
    · subst hnil
      rfl
    · obtain ⟨kept, hkept, hfold⟩ := foldl_mem hnil
      rw [hfold]
      exact keep_greater (hbefore kept hkept)
  rw [hfirst]
  exact foldl_le hafter

theorem exists_best (h : entries ≠ []) : ∃ entry, Best entries entry := by
  induction entries using List.reverseRecOn with
  | nil => exact absurd rfl h
  | append_singleton entries entry ih =>
      by_cases hnil : entries = []
      · subst hnil
        exact ⟨entry, [], [], rfl, fun _ h => (by cases h), fun _ h => (by cases h)⟩
      · obtain ⟨best, before, after, rfl, hbefore, hafter⟩ := ih hnil
        rcases Nat.lt_or_ge best.1.amount.toNat entry.1.amount.toNat with hlt | hge
        · refine ⟨entry, before ++ best :: after, [], rfl, fun other hother => ?_, fun _ h => (by cases h)⟩
          rcases List.mem_append.mp hother with hother | hother
          · exact Nat.lt_trans (hbefore other hother) hlt
          · rcases List.mem_cons.mp hother with rfl | hother
            · exact hlt
            · exact Nat.lt_of_le_of_lt (hafter other hother) hlt
        · refine ⟨best, before, after ++ [entry], by simp, hbefore, fun other hother => ?_⟩
          rcases List.mem_append.mp hother with hother | hother
          · exact hafter other hother
          · rw [List.mem_singleton.mp hother]
            exact hge

-- What is kept of the search is the best of what was searched.
theorem head_eq_some : (entries.foldl (keep 1) []).head? = some entry ↔ Best entries entry := by
  constructor
  · intro hhead
    have hne : entries ≠ [] := by
      rintro rfl
      cases hhead
    obtain ⟨best, hbest⟩ := exists_best hne
    rw [foldl_best hbest] at hhead
    cases hhead
    exact hbest
  · intro hbest
    rw [foldl_best hbest]
    rfl

end ReceivableInfos

theorem Best.stored {s : Store} {account : Account} {maxSearch : Nat} {info : ReceivableInfo}
    {hash : BlockHash} (h : Best (s.receivableEntries account maxSearch) (info, hash)) :
    s.receivableInfoGet account hash = some info := by
  obtain ⟨before, after, hentries, -, -⟩ := h
  have hmem : (info, hash) ∈ s.receivableEntries account maxSearch := by
    rw [hentries]
    exact List.mem_append_right _ List.mem_cons_self
  obtain ⟨other, -, hget⟩ := List.mem_filterMap.mp hmem
  obtain ⟨found, hfound, heq⟩ := Option.map_eq_some_iff.mp hget
  cases heq
  exact hfound

theorem creditPrice_lt (network : RaiNetworks) (timestamp : Nat) :
    creditPrice network timestamp < 2 ^ 128 := by
  unfold creditPrice
  have hprices : ∀ price ∈ creditPrices, price * mRAI < 2 ^ 128 := by decide
  split_ifs
  · exact Nat.pow_pos (by decide)
  · decide
  · rw [List.getD_eq_getElem?_getD]
    cases hget : creditPrices[(timestamp - epochTimestamp network) / QUARTER]? with
    | none => decide
    | some price => exact hprices price (List.mem_of_getElem? hget)

-- The wallet is unlocked and synchronized, and its ledger has the head of the account.
structure WalletReady (wallets : Wallets) (wallet : Wallet) (now : UInt64) (account : Account)
    (info : AccountInfo) (head : Block) : Prop where
  unlocked : wallet.validPassword = true
  key : ∃ key, wallet.privateKey account = .ok key
  opened : (wallets.ledger.accountInfoGet account).filter AccountInfo.valid = some info
  stored : wallets.ledger.blockGet info.head = some head
  type : info.type = .txBlock
  credit_pos : 1 ≤ head.credit
  quota : head.counter ≤ head.credit * TRANSACTIONS_PER_CREDIT
  past : head.timestamp ≤ now.toNat

section Rules

variable (env : Env) (signMessage : SignMessage) (extensionsToPtree : List UInt8 → Bool)
  (randomRepresentative : Account) (wallets : Wallets) (wallet : Wallet) (now : UInt64)
  (account : Account) (receiveMininum : Amount)

-- Nothing can be sent, for want of credit that can be bought.
def WantsCredit : Prop :=
  (Wallets.processAccountSend env signMessage extensionsToPtree wallets wallet (some now) account 0 0
      [] = .error .ACCOUNT_RESTRICTED ∨
    Wallets.processAccountSend env signMessage extensionsToPtree wallets wallet (some now) account 0 0
      [] = .error .ACCOUNT_ACTION_CREDIT) ∧
  ∃ b, Wallets.processAccountCredit env signMessage wallets wallet (some now) account 1 = .ok b

def Accepts (hash : BlockHash) (b : Block) : Prop :=
  Wallets.processAccountReceive env signMessage randomRepresentative wallets wallet (some now)
    account hash = .ok b

-- A receivable that is large enough could be received soon.
def HasReceivable : Prop :=
  ∃ hash receivable b, wallets.ledger.receivableInfoGet account hash = some receivable ∧
    receiveMininum.toNat ≤ receivable.amount.toNat ∧
    Accepts env signMessage randomRepresentative wallets wallet now account hash b ∧
    b.timestamp ≤ now.toNat + 30

-- The service asks for what the wallet would do.
structure FollowsWallet : Prop where
  credit : Wallets.processAutoCredit env wallets now account = true ↔
    WantsCredit env signMessage extensionsToPtree wallets wallet now account
  receive : Wallets.processAutoCredit env wallets now account = false →
    HasReceivable env signMessage randomRepresentative wallets wallet now account receiveMininum →
      ∃ hash, Wallets.processAutoReceive env wallets now account receiveMininum = some hash
  accepted : ∀ hash, Wallets.processAutoReceive env wallets now account receiveMininum = some hash →
    ∃ b, Accepts env signMessage randomRepresentative wallets wallet now account hash b

end Rules

section Conditions

variable (env : Env) (wallets : Wallets) (now : UInt64) (account : Account) (info : AccountInfo)
  (head : Block) (receiveMininum : Amount)

def Affords : Prop := creditPrice env.network now.toNat ≤ head.balance.toNat

-- The quota of the head, of whatever day it is.
def Spent : Prop := head.credit * TRANSACTIONS_PER_CREDIT ≤ head.counter

def Restricted : Prop := info.forks > maxAllowedForks env.network now.toNat head.credit

-- The wallet adds a minute to the time.
def InTime : Prop := now.toNat + 60 < 2 ^ 64

def ReceiveTime (receivable : ReceivableInfo) : Nat := max now.toNat receivable.timestamp

-- What the wallet would receive soon.
structure Due (receivable : ReceivableInfo) : Prop where
  enough : receiveMininum.toNat ≤ receivable.amount.toNat
  soon : ReceiveTime now receivable ≤ now.toNat + 30
  inTime : InTime now
  forks : info.forks ≤ maxAllowedForks env.network (ReceiveTime now receivable) head.credit
  quota : SameDay (ReceiveTime now receivable) head.timestamp → ¬Spent head

-- The best of the first 10000 receivables can be received soon, as far as it goes.
def Chosen (entry : ReceivableInfo × BlockHash) : Prop :=
  Best (wallets.ledger.receivableEntries account 10000) entry ∧
    entry.1.timestamp ≤ (now.toNat + 30) % 2 ^ 64 ∧ receiveMininum.toNat ≤ entry.1.amount.toNat

structure GuardsFit : Prop where
  credit : Affords env now head → Restricted env now info head ∨ Spent head →
    InTime now ∧ head.credit < 2 ^ 16 - 1 ∧
      (Restricted env now info head ∨ SameDay now.toNat head.timestamp)
  receive : ¬(Affords env now head ∧ (Restricted env now info head ∨ Spent head)) →
    (∃ hash receivable, wallets.ledger.receivableInfoGet account hash = some receivable ∧
      Due env now info head receiveMininum receivable) →
      ¬Restricted env now info head ∧ ¬Spent head ∧ ∃ entry, Chosen wallets now account receiveMininum entry
  inTime : ¬Restricted env now info head → ¬Spent head →
    (∃ entry, Chosen wallets now account receiveMininum entry) → InTime now

end Conditions

namespace WalletReady

variable {env : Env} {signMessage : SignMessage} {extensionsToPtree : List UInt8 → Bool}
  {randomRepresentative : Account} {wallets : Wallets} {wallet : Wallet} {now : UInt64}
  {account : Account} {info : AccountInfo} {head : Block} {receiveMininum : Amount}
  (h : WalletReady wallets wallet now account info head)

include h

theorem openAccount_eq : wallets.openAccount account = .ok (info, head) := by
  unfold Wallets.openAccount
  rw [orReturn_pass h.opened, orReturn_pass h.stored]
  rfl

theorem laterOf_eq : laterOf now.toNat head.timestamp = now.toNat := by
  have hpast := h.past
  unfold laterOf
  split <;> omega

-- Neither the quota nor a day's first block lets the 32 bits of the counter run over.
theorem nextCounter_le_iff (timestamp : Nat) :
    nextCounter timestamp head ≤ head.credit * TRANSACTIONS_PER_CREDIT ↔
      (SameDay timestamp head.timestamp → ¬Spent head) := by
  have hcredit := head.credit_lt
  have hpos := h.credit_pos
  have hquota := h.quota
  unfold nextCounter Spent
  unfold TRANSACTIONS_PER_CREDIT at *
  split_ifs with hday
  · rw [Nat.mod_eq_of_lt (by omega)]
    exact ⟨fun hle _ => by omega, fun hspent => by have := hspent hday; omega⟩
  · exact iff_of_true (by omega) fun hsame => absurd hsame hday

omit h in
theorem inTime_iff : now.toNat > (now.toNat + 60) % 2 ^ 64 ↔ ¬InTime now := by
  have hlt := now.toNat_lt
  unfold InTime
  omega

omit h in
theorem restricted_iff :
    info.forks > maxAllowedForks env.network now.toNat head.credit ↔ Restricted env now info head :=
  Iff.rfl

-- The quota of a block with a credit of at least the head's.
theorem over_quota_iff : nextCounter now.toNat head > head.credit * TRANSACTIONS_PER_CREDIT ↔
    SameDay now.toNat head.timestamp ∧ Spent head := by
  rw [gt_iff_lt, ← Nat.not_le, h.nextCounter_le_iff]
  exact ⟨fun hnot => by_contra fun hneg => hnot fun hday hspent => hneg ⟨hday, hspent⟩,
    fun ⟨hday, hspent⟩ hfree => hfree hday hspent⟩

-- The checks of a block that is sent now, one by one.
theorem send_refused_iff :
    (Wallets.processAccountSend env signMessage extensionsToPtree wallets wallet (some now) account
        0 0 [] = .error .ACCOUNT_RESTRICTED ∨
      Wallets.processAccountSend env signMessage extensionsToPtree wallets wallet (some now) account
        0 0 [] = .error .ACCOUNT_ACTION_CREDIT) ↔
      InTime now ∧ (Restricted env now info head ∨ SameDay now.toNat head.timestamp ∧ Spent head) := by
  obtain ⟨key, hkey⟩ := h.key
  unfold Wallets.processAccountSend checkTimestamp Wallets.checkForks checkCounter
  rw [returnIf_pass (by simp [h.unlocked]), h.openAccount_eq, Except.ok_bind]
  dsimp only
  rw [orReturn_pass rfl, h.laterOf_eq]
  by_cases htime : InTime now
  swap
  · rw [returnIf_stop (inTime_iff.mpr htime)]
    exact iff_of_false (by simp) fun hwants => htime hwants.1
  rw [returnIf_pass (fun hlate => inTime_iff.mp hlate htime)]
  by_cases hforks : Restricted env now info head
  · rw [returnIf_stop (restricted_iff.mpr hforks)]
    exact iff_of_true (.inl rfl) ⟨htime, .inl hforks⟩
  rw [returnIf_pass (mt restricted_iff.mp hforks)]
  by_cases hquota : SameDay now.toNat head.timestamp ∧ Spent head
  · rw [returnIf_stop (h.over_quota_iff.mpr hquota)]
    exact iff_of_true (.inr rfl) ⟨htime, .inr hquota⟩
  have hbalance : ¬head.balance.toNat < (0 : Amount).toNat := Nat.not_lt_zero _
  rw [returnIf_pass (fun hover => hquota (h.over_quota_iff.mp hover)), returnIf_pass hbalance]
  -- What may still go wrong goes wrong with another error.
  refine iff_of_false ?_ fun hwants => hwants.2.elim hforks hquota
  have hextensions : checkExtensions [] = .ok Draft.noExtensions := rfl
  rw [hextensions, Except.ok_bind]
  by_cases hptree : extensionsToPtree Draft.noExtensions.val = true
  · rw [returnIf_stop hptree]
    simp
  · rw [returnIf_pass hptree, hkey, Except.ok_bind, h.type]
    exact fun hor => hor.elim (fun heq => (by cases heq)) fun heq => (by cases heq)

-- Credit can be bought in time, when there is more of it and it can be paid.
theorem credit_accepted_iff :
    (∃ b, Wallets.processAccountCredit env signMessage wallets wallet (some now) account 1 = .ok b) ↔
      InTime now ∧ head.credit < 2 ^ 16 - 1 ∧ Affords env now head := by
  obtain ⟨key, hkey⟩ := h.key
  have hcredit := head.credit_lt
  have hone : (1 : UInt16).toNat = 1 := rfl
  unfold Wallets.processAccountCredit checkTimestamp checkCounter
  rw [returnIf_pass (by simp [h.unlocked]), h.openAccount_eq, Except.ok_bind]
  dsimp only
  rw [hone]
  by_cases hmore : head.credit < 2 ^ 16 - 1
  swap
  · rw [returnIf_stop (by omega)]
    exact iff_of_false (fun ⟨b, hb⟩ => (by cases hb)) fun hwants => hmore hwants.2.1
  rw [Nat.mod_eq_of_lt (by omega), returnIf_pass (by omega), orReturn_pass rfl, h.laterOf_eq]
  by_cases htime : InTime now
  swap
  · rw [returnIf_stop (inTime_iff.mpr htime)]
    exact iff_of_false (fun ⟨b, hb⟩ => (by cases hb)) fun hwants => htime hwants.1
  rw [returnIf_pass (fun hlate => inTime_iff.mp hlate htime)]
  -- A head within its quota leaves room for a block with more credit.
  have hquota : ¬nextCounter now.toNat head > (head.credit + 1) * TRANSACTIONS_PER_CREDIT := by
    have hheld := h.quota
    unfold nextCounter
    unfold TRANSACTIONS_PER_CREDIT at *
    split_ifs
    · rw [Nat.mod_eq_of_lt (by omega)]
      omega
    · omega
  rw [returnIf_pass hquota, Nat.mul_one, BitVec.toNat_ofNat, Nat.mod_eq_of_lt (creditPrice_lt _ _)]
  by_cases haffords : Affords env now head
  · rw [returnIf_pass (Nat.not_lt.mpr haffords), hkey, Except.ok_bind, h.type]
    exact iff_of_true ⟨_, rfl⟩ ⟨htime, hmore, haffords⟩
  · rw [returnIf_stop (Nat.not_le.mp haffords)]
    exact iff_of_false (fun ⟨b, hb⟩ => (by cases hb)) fun hwants => haffords hwants.2.2

theorem processAutoCredit_eq : Wallets.processAutoCredit env wallets now account = true ↔
    Affords env now head ∧ (Restricted env now info head ∨ Spent head) := by
  unfold Wallets.processAutoCredit Affords Restricted Spent
  rw [h.opened]
  dsimp only
  rw [h.stored]
  dsimp only
  unfold AccountInfo.restricted
  split_ifs with hbalance hfree
  · exact iff_of_false (by decide) (by omega)
  · simp only [decide_eq_false_iff_not] at hfree
    exact iff_of_false (by decide) (by omega)
  · simp only [decide_eq_false_iff_not, not_and] at hfree
    refine iff_of_true rfl ⟨by omega, ?_⟩
    by_cases hforks : info.forks > maxAllowedForks env.network now.toNat head.credit
    · exact .inl hforks
    · exact .inr (Nat.not_lt.mp (hfree hforks))

-- A receivable can be received at its time, or now if that is past.
theorem receive_accepted_iff {hash : BlockHash} {receivable : ReceivableInfo}
    (hget : wallets.ledger.receivableInfoGet account hash = some receivable) :
    (∃ b, Accepts env signMessage randomRepresentative wallets wallet now account hash b) ↔
      ReceiveTime now receivable ≤ (now.toNat + 60) % 2 ^ 64 ∧
      info.forks ≤ maxAllowedForks env.network (ReceiveTime now receivable) head.credit ∧
      (SameDay (ReceiveTime now receivable) head.timestamp → ¬Spent head) := by
  obtain ⟨key, hkey⟩ := h.key
  have hlatest : (if now.toNat < receivable.timestamp then receivable.timestamp else now.toNat) =
      ReceiveTime now receivable := by
    unfold ReceiveTime
    split <;> omega
  unfold Accepts Wallets.processAccountReceive
  rw [returnIf_pass (by simp [h.unlocked]), orReturn_pass hget, h.opened]
  dsimp only
  unfold Wallets.receiveNext checkTimestamp Wallets.checkForks checkCounter
  rw [orReturn_pass h.stored, orReturn_pass rfl]
  dsimp only
  rw [h.laterOf_eq, hlatest, ← h.nextCounter_le_iff]
  by_cases htime : ReceiveTime now receivable ≤ (now.toNat + 60) % 2 ^ 64
  swap
  · rw [returnIf_stop (Nat.not_le.mp htime)]
    exact iff_of_false (fun ⟨b, hb⟩ => (by cases hb)) fun haccepts => htime haccepts.1
  rw [returnIf_pass (Nat.not_lt.mpr htime)]
  by_cases hforks : info.forks ≤ maxAllowedForks env.network (ReceiveTime now receivable) head.credit
  swap
  · rw [returnIf_stop (Nat.not_le.mp hforks)]
    exact iff_of_false (fun ⟨b, hb⟩ => (by cases hb)) fun haccepts => hforks haccepts.2.1
  rw [returnIf_pass (Nat.not_lt.mpr hforks)]
  by_cases hquota : nextCounter (ReceiveTime now receivable) head ≤
      head.credit * TRANSACTIONS_PER_CREDIT
  swap
  · rw [returnIf_stop (Nat.not_le.mp hquota)]
    exact iff_of_false (fun ⟨b, hb⟩ => (by cases hb)) fun haccepts => hquota haccepts.2.2
  rw [returnIf_pass (Nat.not_lt.mpr hquota), hkey, Except.ok_bind, h.type]
  exact iff_of_true ⟨_, rfl⟩ ⟨htime, hforks, hquota⟩

-- The block has the time at which it is received.
theorem accepts_timestamp {hash : BlockHash} {receivable : ReceivableInfo} {b : Block}
    (hget : wallets.ledger.receivableInfoGet account hash = some receivable)
    (haccepts : Accepts env signMessage randomRepresentative wallets wallet now account hash b) :
    b.timestamp = ReceiveTime now receivable := by
  have htime := ((h.receive_accepted_iff hget).mp ⟨b, haccepts⟩).1
  have hlatest : (if now.toNat < receivable.timestamp then receivable.timestamp else now.toNat) =
      ReceiveTime now receivable := by
    unfold ReceiveTime
    split <;> omega
  unfold Accepts Wallets.processAccountReceive at haccepts
  rw [returnIf_pass (by simp [h.unlocked]), orReturn_pass hget, h.opened] at haccepts
  dsimp only at haccepts
  unfold Wallets.receiveNext at haccepts
  rw [orReturn_pass h.stored, orReturn_pass rfl] at haccepts
  dsimp only at haccepts
  rw [h.laterOf_eq, hlatest] at haccepts
  simp only [Except.bind_eq_ok] at haccepts
  obtain ⟨_, -, _, -, _, -, key, -, hblock⟩ := haccepts
  rw [h.type] at hblock
  cases hblock
  exact UInt64.toNat_ofNat_of_lt' (Nat.lt_of_le_of_lt htime (Nat.mod_lt _ (Nat.pow_pos (by decide))))

theorem processAutoReceive_eq {hash : BlockHash} :
    Wallets.processAutoReceive env wallets now account receiveMininum = some hash ↔
      (∃ receivable, Chosen wallets now account receiveMininum (receivable, hash)) ∧
        ¬Restricted env now info head ∧ ¬Spent head := by
  have hallowed {amount : Amount} : Wallets.receiveAllowed env wallets now account amount = true ↔
      ¬Restricted env now info head ∧ ¬Spent head := by
    unfold Wallets.receiveAllowed AccountInfo.restricted Restricted Spent
    rw [h.opened]
    dsimp only
    rw [h.stored]
    dsimp only
    split_ifs with hforks
    · exact iff_of_false (by decide) fun hfree => hfree.1 (of_decide_eq_true hforks)
    · rw [decide_eq_true_eq] at hforks ⊢
      exact ⟨fun hfree => ⟨hforks, hfree⟩, And.right⟩
  unfold Wallets.processAutoReceive Store.receivableInfosGet Chosen
  cases hhead : ((wallets.ledger.receivableEntries account 10000).foldl
      (ReceivableInfos.keep 1) []).head? with
  | none =>
      refine iff_of_false (fun heq => (by cases heq)) ?_
      rintro ⟨⟨receivable, hbest, -⟩, -⟩
      rw [ReceivableInfos.head_eq_some.mpr hbest] at hhead
      cases hhead
  | some entry =>
      obtain ⟨receivable, own⟩ := entry
      dsimp only
      have hbest := ReceivableInfos.head_eq_some.mp hhead
      have hunique {other : ReceivableInfo × BlockHash}
          (hother : Best (wallets.ledger.receivableEntries account 10000) other) :
          other = (receivable, own) :=
        Option.some.inj ((ReceivableInfos.head_eq_some.mpr hother).symm.trans hhead)
      split_ifs with hlate hfree
      · refine iff_of_false (fun heq => (by cases heq)) ?_
        rintro ⟨⟨found, hfound, hsoon, henough⟩, -⟩
        cases hunique hfound
        omega
      · rw [hallowed] at hfree
        rw [Option.some.injEq]
        constructor
        · rintro rfl
          exact ⟨⟨receivable, hbest, by omega, by omega⟩, hfree⟩
        · rintro ⟨⟨found, hfound, -, -⟩, -⟩
          cases hunique hfound
          rfl
      · rw [hallowed] at hfree
        exact iff_of_false (fun heq => (by cases heq)) fun hasks => hfree hasks.2

end WalletReady

section Exact

variable {env : Env} {signMessage : SignMessage} {extensionsToPtree : List UInt8 → Bool}
  {randomRepresentative : Account} {wallets : Wallets} {wallet : Wallet} {now : UInt64}
  {account : Account} {info : AccountInfo} {head : Block} {receiveMininum : Amount}

-- Later, more forks are allowed.
theorem maxAllowedForks_le {network : RaiNetworks} {earlier later credit : Nat}
    (h : earlier ≤ later) : maxAllowedForks network earlier credit ≤ maxAllowedForks network later credit := by
  have hquarter : (earlier - epochTimestamp network) / QUARTER ≤
      (later - epochTimestamp network) / QUARTER := Nat.div_le_div_right (by omega)
  unfold maxAllowedForks baseAllowedForks
  refine Nat.add_le_add_right ?_ _
  split_ifs
  · exact Nat.le_refl _
  · exact Nat.le_min.mpr ⟨Nat.le_add_left _ _, by decide⟩
  · omega
  · exact Nat.le_min.mpr ⟨Nat.le_trans (Nat.min_le_left _ _) (Nat.add_le_add_right hquarter 4),
      Nat.min_le_right _ _⟩

namespace WalletReady

theorem hasReceivable_iff (h : WalletReady wallets wallet now account info head) :
    HasReceivable env signMessage randomRepresentative wallets wallet now account receiveMininum ↔
      ∃ hash receivable, wallets.ledger.receivableInfoGet account hash = some receivable ∧
        Due env now info head receiveMininum receivable := by
  have hlt := now.toNat_lt
  constructor
  · rintro ⟨hash, receivable, b, hget, henough, haccepts, hsoon⟩
    rw [h.accepts_timestamp hget haccepts] at hsoon
    obtain ⟨htime, hforks, hquota⟩ := (h.receive_accepted_iff hget).mp ⟨b, haccepts⟩
    refine ⟨hash, receivable, hget, henough, hsoon, ?_, hforks, hquota⟩
    unfold InTime
    unfold ReceiveTime at htime
    omega
  · rintro ⟨hash, receivable, hget, hdue⟩
    have htime : ReceiveTime now receivable ≤ (now.toNat + 60) % 2 ^ 64 := by
      have hsoon := hdue.soon
      rw [Nat.mod_eq_of_lt hdue.inTime]
      omega
    obtain ⟨b, haccepts⟩ := (h.receive_accepted_iff hget).mpr ⟨htime, hdue.forks, hdue.quota⟩
    refine ⟨hash, receivable, b, hget, hdue.enough, haccepts, ?_⟩
    rw [h.accepts_timestamp hget haccepts]
    exact hdue.soon

-- What is asked for is accepted, if the time does not run over.
theorem chosen_accepted_iff (h : WalletReady wallets wallet now account info head)
    (hforks : ¬Restricted env now info head) (hspent : ¬Spent head) {receivable : ReceivableInfo}
    {hash : BlockHash} (hchosen : Chosen wallets now account receiveMininum (receivable, hash)) :
    (∃ b, Accepts env signMessage randomRepresentative wallets wallet now account hash b) ↔
      InTime now := by
  have hlt := now.toNat_lt
  have hget := hchosen.1.stored
  have hsoon := hchosen.2.1
  have hbound : now.toNat ≤ ReceiveTime now receivable := Nat.le_max_left _ _
  rw [h.receive_accepted_iff hget]
  constructor
  · rintro ⟨htime, -, -⟩
    unfold InTime
    omega
  · intro htime
    refine ⟨?_, ?_, fun _ => hspent⟩
    · unfold InTime at htime
      unfold ReceiveTime
      dsimp only at hsoon
      omega
    · have hmore := @maxAllowedForks_le env.network _ _ head.credit hbound
      unfold Restricted at hforks
      omega

end WalletReady

-- The service follows the wallet exactly where its guards agree with the wallet's checks.
theorem automation_exact (h : WalletReady wallets wallet now account info head) :
    FollowsWallet env signMessage extensionsToPtree randomRepresentative wallets wallet now account
        receiveMininum ↔
      GuardsFit env wallets now account info head receiveMininum := by
  have hcredit : WantsCredit env signMessage extensionsToPtree wallets wallet now account ↔
      (InTime now ∧ (Restricted env now info head ∨ SameDay now.toNat head.timestamp ∧ Spent head)) ∧
        InTime now ∧ head.credit < 2 ^ 16 - 1 ∧ Affords env now head :=
    and_congr h.send_refused_iff h.credit_accepted_iff
  have hauto : Wallets.processAutoCredit env wallets now account = false ↔
      ¬(Affords env now head ∧ (Restricted env now info head ∨ Spent head)) := by
    rw [← h.processAutoCredit_eq, Bool.not_eq_true]
  constructor
  · intro hfollows
    refine ⟨fun haffords hblocked => ?_, fun hquiet hdue => ?_, ?_⟩
    · have hasks := h.processAutoCredit_eq.mpr ⟨haffords, hblocked⟩
      obtain ⟨⟨htime, hwants⟩, -, hmore, -⟩ := hcredit.mp (hfollows.credit.mp hasks)
      exact ⟨htime, hmore, hwants.imp_right And.left⟩
    · obtain ⟨hash, hasks⟩ := hfollows.receive (hauto.mpr hquiet) (h.hasReceivable_iff.mpr hdue)
      obtain ⟨⟨receivable, hchosen⟩, hforks, hspent⟩ := h.processAutoReceive_eq.mp hasks
      exact ⟨hforks, hspent, _, hchosen⟩
    · rintro hforks hspent ⟨⟨receivable, hash⟩, hchosen⟩
      have hasks := h.processAutoReceive_eq.mpr ⟨⟨receivable, hchosen⟩, hforks, hspent⟩
      exact (h.chosen_accepted_iff hforks hspent hchosen).mp (hfollows.accepted hash hasks)
  · intro hfit
    refine ⟨?_, fun hquiet hdue => ?_, fun hash hasks => ?_⟩
    · rw [h.processAutoCredit_eq, hcredit]
      constructor
      · rintro ⟨haffords, hblocked⟩
        obtain ⟨htime, hmore, hreason⟩ := hfit.credit haffords hblocked
        refine ⟨⟨htime, ?_⟩, htime, hmore, haffords⟩
        rcases hblocked with hforks | hspent
        · exact .inl hforks
        · exact hreason.imp_right fun hday => ⟨hday, hspent⟩
      · rintro ⟨⟨-, hwants⟩, -, -, haffords⟩
        exact ⟨haffords, hwants.imp_right And.right⟩
    · obtain ⟨hforks, hspent, ⟨receivable, hash⟩, hchosen⟩ :=
        hfit.receive (hauto.mp hquiet) (h.hasReceivable_iff.mp hdue)
      exact ⟨hash, h.processAutoReceive_eq.mpr ⟨⟨receivable, hchosen⟩, hforks, hspent⟩⟩
    · obtain ⟨⟨receivable, hchosen⟩, hforks, hspent⟩ := h.processAutoReceive_eq.mp hasks
      exact (h.chosen_accepted_iff hforks hspent hchosen).mpr (hfit.inTime hforks hspent ⟨_, hchosen⟩)

end Exact

-- An account with one block, of a day on which the account used up its quota.
section Yesterday

def spentHead : Block :=
  sampleTx .receive 1 20 TEST_EPOCH_TIMESTAMP 0 1 0 (genesisRepresentative .test) (5000 * RAI) 7

def spentInfo : AccountInfo := .first .txBlock (sampleEnv.hash spentHead)

def spentWallets : Wallets where
  ledger := { Store.empty with
    accounts := Table.empty.put 1 spentInfo
    blocks := Table.empty.put (sampleEnv.hash spentHead) ⟨spentHead, 0⟩ }
  blockType := .txBlock

def openWallet : Wallet := ⟨true, fun _ => .ok 1⟩

theorem spent_ready {now : UInt64} (h : spentHead.timestamp ≤ now.toNat) :
    WalletReady spentWallets openWallet now 1 spentInfo spentHead where
  unlocked := rfl
  key := ⟨1, rfl⟩
  opened := by decide +kernel
  stored := by decide +kernel
  type := rfl
  credit_pos := by decide
  quota := by decide
  past := h

def yesterdayNow : UInt64 := UInt64.ofNat (TEST_EPOCH_TIMESTAMP + 2 * DAY)

-- The service buys credit, though the wallet would send.
theorem spent_yesterday_buys : WalletReady spentWallets openWallet yesterdayNow 1 spentInfo spentHead ∧
    Wallets.processAutoCredit sampleEnv spentWallets yesterdayNow 1 = true ∧
    ¬FollowsWallet sampleEnv (fun _ _ _ => 0) (fun _ => false) 1 spentWallets openWallet yesterdayNow
      1 (BitVec.ofNat 128 RAI) := by
  have hready : WalletReady spentWallets openWallet yesterdayNow 1 spentInfo spentHead :=
    spent_ready (by decide)
  have hasks : Wallets.processAutoCredit sampleEnv spentWallets yesterdayNow 1 = true := by
    decide +kernel
  refine ⟨hready, hasks, fun hfollows => ?_⟩
  rcases (hready.send_refused_iff.mp (hfollows.credit.mp hasks).1).2 with hforks | ⟨hday, -⟩
  · change spentInfo.forks > maxAllowedForks sampleEnv.network yesterdayNow.toNat spentHead.credit at hforks
    exact absurd hforks (by decide)
  · exact absurd hday (by decide)

def todayNow : UInt64 := UInt64.ofNat TEST_EPOCH_TIMESTAMP

-- An account that has used little of its quota, and can receive: the best receivable is not too
-- new, while one that is and one that is too small are passed over.
def freeHead : Block :=
  sampleTx .receive 1 3 TEST_EPOCH_TIMESTAMP 0 1 0 (genesisRepresentative .test) (5000 * RAI) 7

def freeInfo : AccountInfo := .first .txBlock (sampleEnv.hash freeHead)

def freeReceivables : Table (Account × BlockHash) ReceivableInfo :=
  (((Table.empty.put (1, 12) ⟨3, BitVec.ofNat 128 (20 * RAI), TEST_EPOCH_TIMESTAMP + 100⟩).put
    (1, 13) ⟨3, BitVec.ofNat 128 (30 * RAI), TEST_EPOCH_TIMESTAMP + 30⟩).put
      (1, 14) ⟨4, 1, TEST_EPOCH_TIMESTAMP⟩).put (2, 15) ⟨3, BitVec.ofNat 128 (90 * RAI), 0⟩

def freeWallets : Wallets where
  ledger := { Store.empty with
    accounts := Table.empty.put 1 freeInfo
    blocks := Table.empty.put (sampleEnv.hash freeHead) ⟨freeHead, 0⟩
    receivables := freeReceivables }
  blockType := .txBlock

theorem free_ready : WalletReady freeWallets openWallet todayNow 1 freeInfo freeHead where
  unlocked := rfl
  key := ⟨1, rfl⟩
  opened := by decide +kernel
  stored := by decide +kernel
  type := rfl
  credit_pos := by decide
  quota := by decide
  past := by decide

theorem free_chosen : Chosen freeWallets todayNow 1 (BitVec.ofNat 128 RAI)
    (⟨3, BitVec.ofNat 128 (30 * RAI), TEST_EPOCH_TIMESTAMP + 30⟩, 13) :=
  ⟨ReceivableInfos.head_eq_some.mp (by decide), by decide, by decide⟩

theorem free_unspent : ¬Spent freeHead := by
  change ¬freeHead.credit * TRANSACTIONS_PER_CREDIT ≤ freeHead.counter
  decide

theorem free_unrestricted : ¬Restricted sampleEnv todayNow freeInfo freeHead := by
  change ¬freeInfo.forks > maxAllowedForks sampleEnv.network todayNow.toNat freeHead.credit
  decide

theorem today_in_time : InTime todayNow := by
  change todayNow.toNat + 60 < 2 ^ 64
  decide

-- On the day itself the service does what the wallet does: it buys credit for the account without
-- quota, and receives for the other one.
theorem today_follows :
    (Wallets.processAutoCredit sampleEnv spentWallets todayNow 1 = true ∧
      FollowsWallet sampleEnv (fun _ _ _ => 0) (fun _ => false) 1 spentWallets openWallet todayNow 1
        (BitVec.ofNat 128 RAI)) ∧
    Wallets.processAutoCredit sampleEnv freeWallets todayNow 1 = false ∧
      Wallets.processAutoReceive sampleEnv freeWallets todayNow 1 (BitVec.ofNat 128 RAI) = some 13 ∧
      FollowsWallet sampleEnv (fun _ _ _ => 0) (fun _ => false) 1 freeWallets openWallet todayNow 1
        (BitVec.ofNat 128 RAI) := by
  refine ⟨⟨by decide +kernel, (automation_exact (spent_ready (by decide +kernel))).mpr ⟨?_, ?_, ?_⟩⟩,
    by decide +kernel, by decide +kernel, (automation_exact free_ready).mpr ⟨?_, ?_, ?_⟩⟩
  · exact fun _ _ => ⟨today_in_time, by decide, .inr (by decide)⟩
  · rintro - ⟨hash, receivable, hget, -⟩
    cases hget
  · exact fun _ _ _ => today_in_time
  · rintro - (hforks | hspent)
    · exact absurd hforks free_unrestricted
    · exact absurd hspent free_unspent
  · exact fun _ _ => ⟨free_unrestricted, free_unspent, _, free_chosen⟩
  · exact fun _ _ _ => today_in_time

end Yesterday

end Raicoin
