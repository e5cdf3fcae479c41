import Raicoin.Lib.Ordered
import Raicoin.Wallet.Actions

-- What the wallet service does on its own: it buys credit for the selected account and receives what
-- has been sent to it.
namespace Raicoin

open Lib

-- The order of the keys of the `receivables` table, for one account.
def hashBefore (a b : BlockHash) : Prop := a.toNat ≤ b.toNat

instance : DecidableRel hashBefore := fun a b => inferInstanceAs (Decidable (a.toNat ≤ b.toNat))
instance : IsTrans BlockHash hashBefore := ⟨fun _ _ _ => Nat.le_trans⟩
instance : Std.Antisymm hashBefore := ⟨fun _ _ h h' => BitVec.eq_of_toNat_eq (Nat.le_antisymm h h')⟩
instance : Std.Total hashBefore := ⟨fun a b => Nat.le_total a.toNat b.toNat⟩

-- `ReceivableInfos`, the greatest amounts first. What has come later stands behind its equals.
abbrev ReceivableInfos := List (ReceivableInfo × BlockHash)

namespace ReceivableInfos

def emplace (entry : ReceivableInfo × BlockHash) : ReceivableInfos → ReceivableInfos
  | [] => [entry]
  | first :: rest =>
    if entry.1.amount.toNat > first.1.amount.toNat then entry :: first :: rest
    else first :: emplace entry rest

-- One more, of which the last may go again.
def keep (maxSize : Nat) (kept : ReceivableInfos) (entry : ReceivableInfo × BlockHash) :
    ReceivableInfos :=
  let kept := emplace entry kept
  if kept.length > maxSize then kept.dropLast else kept

end ReceivableInfos

namespace Store

variable (s : Store) (account : Account)

-- From `ReceivableInfoLowerBound` to `ReceivableInfoUpperBound`: the iteration ends before the
-- greatest hash there is.
def receivableHashes : List BlockHash :=
  inOrder hashBefore
    (((s.receivables.keys.filter fun key => key.1 = account).image Prod.snd).erase
      (BitVec.allOnes 256))

-- What the loop of `ReceivableInfosGet` goes through.
def receivableEntries (maxSearch : Nat) : List (ReceivableInfo × BlockHash) :=
  ((s.receivableHashes account).take maxSearch).filterMap fun hash =>
    (s.receivableInfoGet account hash).map fun info => (info, hash)

-- `ReceivableInfosGet` of the type ALL.
def receivableInfosGet (maxSize maxSearch : Nat) : ReceivableInfos :=
  (s.receivableEntries account maxSearch).foldl (ReceivableInfos.keep maxSize) []

end Store

-- The guards of the two functions, and what they ask for. Both read one clock.
namespace Wallets

variable (env : Env) (wallets : Wallets) (now : UInt64) (account : Account)

-- `ProcessAutoCredit_`
def processAutoCredit : Bool :=
  match (wallets.ledger.accountInfoGet account).filter AccountInfo.valid with
  | none => false
  | some info =>
    match wallets.ledger.blockGet info.head with
    | none => false
    | some block =>
      if block.balance.toNat < creditPrice env.network now.toNat then false
      else if info.restricted env.network now.toNat block.credit = false ∧
        block.counter < block.credit * TRANSACTIONS_PER_CREDIT then false
      else true

-- The part of `ProcessAutoReceive_` that looks at the account.
def receiveAllowed (amount : Amount) : Bool :=
  match (wallets.ledger.accountInfoGet account).filter AccountInfo.valid with
  | none => ¬amount.toNat < creditPrice env.network now.toNat
  | some info =>
    match wallets.ledger.blockGet info.head with
    | none => false
    | some block =>
      if info.restricted env.network now.toNat block.credit then false
      else ¬block.counter ≥ block.credit * TRANSACTIONS_PER_CREDIT

-- `ProcessAutoReceive_`
def processAutoReceive (receiveMininum : Amount) : Option BlockHash :=
  match (wallets.ledger.receivableInfosGet account 1 10000).head? with
  | none => none
  | some (info, hash) =>
    if info.timestamp > (now.toNat + 30) % 2 ^ 64 ∨ info.amount.toNat < receiveMininum.toNat then none
    else if receiveAllowed env wallets now account info.amount then some hash
    else none

end Wallets

end Raicoin
