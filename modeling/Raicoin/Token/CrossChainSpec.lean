import Raicoin.Token.CrossChain
import Raicoin.Token.Effects

-- When an event of another chain is taken, and what it makes of the tables.
namespace Raicoin

open Lib Process

-- A refused write is refused whatever it needs to find.
private theorem not_of_fails {env : TokenEnv} {call : TokenCall}
    (hfails : env.fails call = true ∨ true = false) :
    ¬env.fails call = false := by
  rcases hfails with hfails | habsent
  · simp [hfails]
  · cases habsent

-- Something is told from one session to the next exactly if `told`.
def Tells (told : Prop) (s s' : TokenSession) : Prop :=
  (told → s'.told ≠ []) ∧ (¬told → s'.told = s.told)

theorem Tells.trans {P Q : Prop} {s s₁ s' : TokenSession} (h₁ : Tells P s s₁) (h₂ : Tells Q s₁ s') :
    Tells (P ∨ Q) s s' := by
  by_cases hQ : Q
  · exact ⟨fun _ => h₂.1 hQ, fun hno => absurd (.inr hQ) hno⟩
  · refine ⟨fun hor => ?_, fun hno => (h₂.2 hQ).trans (h₁.2 fun hP => hno (.inl hP))⟩
    rw [h₂.2 hQ]
    exact h₁.1 (hor.resolve_right hQ)

theorem Tells.congr {P Q : Prop} {s s' : TokenSession} (h : Tells P s s') (hiff : P ↔ Q) :
    Tells Q s s' :=
  ⟨fun hQ => h.1 (hiff.mpr hQ), fun hno => h.2 fun hP => hno (hiff.mp hP)⟩

namespace Deposit

variable (d : Deposit) (env : TokenEnv) (l : TokenLedger)

-- By how much the local supply of the token rises.
def amount : TokenValue := if d.tokenType = .t20 then d.value else 1

-- The ledger knows the token and lacks the deposit: the event can be credited.
structure Fits : Prop where
  known : ∃ info, l.tokens.get d.token = some info ∧ info.type = d.tokenType ∧
    info.localSupply.toNat + d.amount.toNat < 2 ^ 256
  type : d.tokenType ≠ .invalid
  new : d.recorded l = false
  away : d.tokenType = .t721 → ∀ idInfo, l.tokenIds.get (d.token, d.value) = some idInfo →
    d.away idInfo = true

-- The event gets as far as its receivable, which is told as soon as it is put.
structure Credits : Prop where
  fits : d.Fits l
  idPut : d.tokenType = .t721 → env.fails .tokenIdInfoPut = false
  receivablePut : env.fails .tokenReceivablePut = false

structure Accepts : Prop where
  credits : d.Credits env l
  tokenPut : env.fails .tokenInfoPut = false
  recordPut : env.fails d.call = false

def returned : TokenLedger :=
  { l with
    tokenIds := if d.tokenType = .t721 then
        l.tokenIds.put (d.token, d.value)
          (((l.tokenIds.get (d.token, d.value)).map d.back).getD (.init ""))
      else l.tokenIds }

def applied : TokenLedger :=
  d.record { (d.returned l).credited d.receivableKey d.receivable with
    tokens := l.tokens.change d.token fun info =>
      { info with localSupply := info.localSupply + d.amount } }

variable {d env l}

theorem raisedSupply_eq_ok {info : TokenInfo} {value localSupply : TokenValue} :
    raisedSupply info value = .ok localSupply ↔
      info.localSupply.toNat + value.toNat < 2 ^ 256 ∧ info.localSupply + value = localSupply := by
  unfold raisedSupply
  simp only [Except.bind_eq_ok, returnIf_eq_ok, Except.pure_eq_ok, exists_const]
  have hno : ¬info.localSupply + value < info.localSupply ↔
      info.localSupply.toNat + value.toNat < 2 ^ 256 := by
    rw [BitVec.lt_def, BitVec.toNat_add]
    have h₁ := info.localSupply.isLt
    have h₂ := value.isLt
    omega
  rw [hno]

theorem returnedId_eq_ok {idInfo : TokenIdInfo} :
    d.returnedId l = .ok idInfo ↔
      (∀ found, l.tokenIds.get (d.token, d.value) = some found → d.away found = true) ∧
        ((l.tokenIds.get (d.token, d.value)).map d.back).getD (.init "") = idInfo := by
  unfold returnedId
  cases l.tokenIds.get (d.token, d.value) with
  | none => simp
  | some found =>
      simp only [Except.bind_eq_ok, returnIf_eq_ok, Except.pure_eq_ok, exists_const,
        Option.some.injEq, forall_eq', Option.map_some, Option.getD_some, Bool.not_eq_false]

-- A plan holds the token as it is, its new supply and, for an id, its info once it is back.
structure Planned (d : Deposit) (l : TokenLedger) (plan : Plan) : Prop where
  info : l.tokens.get d.token = some plan.info
  localSupply : plan.localSupply = plan.info.localSupply + d.amount
  idInfo : plan.idInfo = if d.tokenType = .t721 then
    some (((l.tokenIds.get (d.token, d.value)).map d.back).getD (.init "")) else none

theorem plan_eq_ok {plan : Plan} : d.plan l = .ok plan ↔ d.Fits l ∧ d.Planned l plan := by
  unfold Deposit.plan
  simp only [Except.bind_eq_ok, orReturn_eq_ok, returnIf_eq_ok, exists_const, not_not,
    Bool.not_eq_true]
  constructor
  · rintro ⟨info, hinfo, htype, hnew, hplan⟩
    cases hcase : info.type with
    | invalid =>
        rw [hcase] at hplan
        cases hplan
    | t20 =>
        rw [hcase] at hplan
        obtain ⟨localSupply, hraise, hplan⟩ := (Except.bind_eq_ok _ _ _).mp hplan
        obtain ⟨hroom, rfl⟩ := raisedSupply_eq_ok.mp hraise
        cases hplan
        have hd : d.tokenType = .t20 := htype ▸ hcase
        refine ⟨⟨⟨info, hinfo, htype, ?_⟩, ?_, hnew, ?_⟩, ⟨hinfo, ?_, ?_⟩⟩
        · rw [amount, if_pos hd]
          exact hroom
        · rw [hd]
          decide
        · intro h721
          rw [hd] at h721
          cases h721
        · rw [amount, if_pos hd]
        · rw [hd]
          rfl
    | t721 =>
        rw [hcase] at hplan
        obtain ⟨localSupply, hraise, hplan⟩ := (Except.bind_eq_ok _ _ _).mp hplan
        obtain ⟨hroom, rfl⟩ := raisedSupply_eq_ok.mp hraise
        obtain ⟨idInfo, hid, hplan⟩ := (Except.bind_eq_ok _ _ _).mp hplan
        obtain ⟨haway, rfl⟩ := returnedId_eq_ok.mp hid
        cases hplan
        have hd : d.tokenType = .t721 := htype ▸ hcase
        have hamount : d.amount = 1 := by rw [amount, hd]; rfl
        refine ⟨⟨⟨info, hinfo, htype, ?_⟩, ?_, hnew, fun _ => haway⟩, ⟨hinfo, ?_, ?_⟩⟩
        · rw [hamount]
          exact hroom
        · rw [hd]
          decide
        · rw [hamount]
        · rw [if_pos hd]
  · rintro ⟨⟨⟨info, hinfo, htype, hroom⟩, hvalid, hnew, haway⟩, hget, hsupply, hid⟩
    refine ⟨info, hinfo, htype, hnew, ?_⟩
    rw [hinfo] at hget
    cases hget
    obtain ⟨planInfo, localSupply, idInfo⟩ := plan
    cases hcase : d.tokenType with
    | invalid => exact absurd hcase hvalid
    | t20 =>
        have hamount : d.amount = d.value := by rw [amount, if_pos hcase]
        rw [hamount] at hroom hsupply
        rw [htype, hcase]
        refine (Except.bind_eq_ok _ _ _).mpr ⟨_, raisedSupply_eq_ok.mpr ⟨hroom, rfl⟩, ?_⟩
        rw [hcase, if_neg (by decide)] at hid
        simp only at hsupply hid
        rw [hsupply, hid]
        rfl
    | t721 =>
        have hamount : d.amount = 1 := by rw [amount, hcase]; rfl
        rw [hamount] at hroom hsupply
        rw [htype, hcase]
        refine (Except.bind_eq_ok _ _ _).mpr ⟨_, raisedSupply_eq_ok.mpr ⟨hroom, rfl⟩, ?_⟩
        refine (Except.bind_eq_ok _ _ _).mpr ⟨_, returnedId_eq_ok.mpr ⟨haway hcase, rfl⟩, ?_⟩
        rw [if_pos hcase] at hid
        simp only at hsupply hid
        rw [hsupply, hid]
        rfl

theorem plan_error {code : ErrorCode} (h : d.plan l = .error code) : ¬d.Fits l := by
  intro hfits
  obtain ⟨info, hinfo, -, -⟩ := hfits.known
  have hplanned : d.Planned l ⟨info, info.localSupply + d.amount, if d.tokenType = .t721 then
      some (((l.tokenIds.get (d.token, d.value)).map d.back).getD (.init "")) else none⟩ :=
    ⟨hinfo, rfl, rfl⟩
  have hok := plan_eq_ok.mpr ⟨hfits, hplanned⟩
  rw [h] at hok
  cases hok

section Process

variable {s s' : TokenSession} {u : Unit} {plan : Plan}

theorem updateLedgerReceivable_ok {key : TokenReceivableKey} {receivable : TokenReceivable}
    {info : TokenInfo} {block : Option Block}
    (h : updateLedgerReceivable_ env key receivable info block s = .ok u s') :
    env.fails .tokenReceivablePut = false ∧
      s' = { s with
        ledger := s.ledger.credited key receivable
        told := s.told ++ [.receivable key receivable info block] } := by
  obtain ⟨_, s₁, hput, htell⟩ := (bind_eq_ok _ _ _ _ _).mp h
  obtain ⟨hfails, -, rfl⟩ := (store_eq_ok _ _ _ _ _).mp hput
  obtain rfl := (tell_eq_ok _ _).mp htell
  exact ⟨hfails, rfl⟩

theorem updateLedgerSupplies_ok {token : TokenKey} {info : TokenInfo}
    {totalSupply localSupply : TokenValue} (hget : s.ledger.tokens.get token = some info)
    (h : updateLedgerSupplies_ env token totalSupply localSupply s = .ok u s') :
    env.fails .tokenInfoPut = false ∧
      s' = { s with
        ledger := { s.ledger with
          tokens := s.ledger.tokens.put token { info with totalSupply, localSupply } }
        told := s.told ++ [.token token { info with totalSupply, localSupply }] } := by
  obtain ⟨found, s₁, hread, h⟩ := (bind_eq_ok _ _ _ _ _).mp h
  obtain ⟨hfound, rfl⟩ := (query_eq_ok _ _).mp hread
  have hsame := (orReturn_eq_ok _ _ _).mp hfound
  rw [hget] at hsame
  cases hsame
  obtain ⟨_, s₂, hput, htell⟩ := (bind_eq_ok _ _ _ _ _).mp h
  obtain ⟨hfails, -, rfl⟩ := (store_eq_ok _ _ _ _ _).mp hput
  obtain rfl := (tell_eq_ok _ _).mp htell
  exact ⟨hfails, rfl⟩

theorem putId_ok (hplan : d.Planned s.ledger plan) (h : d.putId env plan.idInfo s = .ok u s') :
    (d.tokenType = .t721 → env.fails .tokenIdInfoPut = false) ∧
      { s with ledger := d.returned s.ledger } = s' := by
  have hid := hplan.idInfo
  unfold returned
  by_cases h721 : d.tokenType = .t721
  · rw [if_pos h721] at hid
    rw [hid, putId, tokenIdInfoPut] at h
    obtain ⟨hfails, -, rfl⟩ := (store_eq_ok _ _ _ _ _).mp h
    rw [if_pos h721]
    exact ⟨fun _ => hfails, rfl⟩
  · rw [if_neg h721] at hid
    rw [hid] at h
    obtain ⟨-, rfl⟩ := (pure_eq_ok _ _ _ _).mp h
    rw [if_neg h721]
    exact ⟨fun hd => absurd hd h721, rfl⟩

theorem putId_error {code : ErrorCode} (hplan : d.Planned s.ledger plan)
    (h : d.putId env plan.idInfo s = .error code s') :
    d.tokenType = .t721 ∧ env.fails .tokenIdInfoPut = true ∧ s = s' := by
  have hid := hplan.idInfo
  by_cases h721 : d.tokenType = .t721
  · rw [if_pos h721] at hid
    rw [hid, putId, tokenIdInfoPut] at h
    obtain ⟨hfails, -, hs⟩ := (store_eq_error _ _ _ _ _).mp h
    refine ⟨h721, ?_, hs⟩
    rcases hfails with hfails | habsent
    · exact hfails
    · cases habsent
  · rw [if_neg h721] at hid
    rw [hid] at h
    cases h

theorem process_ok (h : d.process env s = .ok u s') :
    d.Accepts env s.ledger ∧ s'.ledger = d.applied s.ledger ∧ s'.told ≠ [] := by
  obtain ⟨plan, s₁, hread, h⟩ := (bind_eq_ok _ _ _ _ _).mp h
  obtain ⟨hplan, rfl⟩ := (query_eq_ok _ _).mp hread
  obtain ⟨hfits, hplan⟩ := plan_eq_ok.mp hplan
  obtain ⟨_, s₁, hput, h⟩ := (bind_eq_ok _ _ _ _ _).mp h
  obtain ⟨hidPut, rfl⟩ := putId_ok hplan hput
  obtain ⟨_, s₂, hcredit, h⟩ := (bind_eq_ok _ _ _ _ _).mp h
  obtain ⟨hreceivablePut, rfl⟩ := updateLedgerReceivable_ok hcredit
  obtain ⟨_, s₃, hsupply, h⟩ := (bind_eq_ok _ _ _ _ _).mp h
  obtain ⟨htokenPut, rfl⟩ := updateLedgerSupplies_ok (by exact hplan.info) hsupply
  obtain ⟨_, s₄, hrecord, h⟩ := (bind_eq_ok _ _ _ _ _).mp h
  obtain ⟨hrecordPut, -, rfl⟩ := (store_eq_ok _ _ _ _ _).mp hrecord
  obtain rfl := (observe_eq_ok _ _).mp h
  refine ⟨⟨⟨hfits, hidPut, hreceivablePut⟩, htokenPut, hrecordPut⟩, ?_, by simp⟩
  simp only [applied, Table.change_of_get hplan.info, hplan.localSupply]
  rfl

theorem process_error {code : ErrorCode} (h : d.process env s = .error code s') :
    ¬d.Accepts env s.ledger ∧ Tells (d.Credits env s.ledger) s s' := by
  have early {s' : TokenSession} (hno : ¬d.Credits env s.ledger) (hs : s = s') :
      ¬d.Accepts env s.ledger ∧ Tells (d.Credits env s.ledger) s s' :=
    ⟨fun haccepts => hno haccepts.credits, fun hcredits => absurd hcredits hno, fun _ => hs ▸ rfl⟩
  rcases (bind_eq_error _ _ _ _ _).mp h with hread | ⟨plan, s₁, hread, h⟩
  · obtain ⟨hplan, hs⟩ := (query_eq_error _ _).mp hread
    exact early (fun hcredits => plan_error hplan hcredits.fits) hs
  obtain ⟨hplan, rfl⟩ := (query_eq_ok _ _).mp hread
  obtain ⟨hfits, hplan⟩ := plan_eq_ok.mp hplan
  rcases (bind_eq_error _ _ _ _ _).mp h with hput | ⟨_, s₁, hput, h⟩
  · obtain ⟨h721, hfails, hs⟩ := putId_error hplan hput
    refine early (fun hcredits => ?_) hs
    rw [hcredits.idPut h721] at hfails
    cases hfails
  obtain ⟨hidPut, rfl⟩ := putId_ok hplan hput
  rcases (bind_eq_error _ _ _ _ _).mp h with hcredit | ⟨_, s₂, hcredit, h⟩
  · rcases (bind_eq_error _ _ _ _ _).mp hcredit with hcredit | ⟨_, s₂, -, htell⟩
    · obtain ⟨hfails, -, rfl⟩ := (store_eq_error _ _ _ _ _).mp hcredit
      exact ⟨fun haccepts => not_of_fails hfails haccepts.credits.receivablePut,
        fun hcredits => absurd hcredits.receivablePut (not_of_fails hfails), fun _ => rfl⟩
    · cases htell
  obtain ⟨hreceivablePut, rfl⟩ := updateLedgerReceivable_ok hcredit
  -- from here on the receivable has been told
  have hcredits : d.Credits env s.ledger := ⟨hfits, hidPut, hreceivablePut⟩
  suffices hlate : ¬d.Accepts env s.ledger ∧ s'.told ≠ [] from
    ⟨hlate.1, fun _ => hlate.2, fun hno => absurd hcredits hno⟩
  rcases (bind_eq_error _ _ _ _ _).mp h with hsupply | ⟨_, s₃, hsupply, h⟩
  · rcases (bind_eq_error _ _ _ _ _).mp hsupply with hget | ⟨info, s₄, hget, hsupply⟩
    · obtain ⟨hmissing, -⟩ := (query_eq_error _ _).mp hget
      have hnone : s.ledger.tokens.get d.token = none := ((orReturn_eq_error _ _ _).mp hmissing).1
      rw [hplan.info] at hnone
      cases hnone
    · obtain ⟨-, rfl⟩ := (query_eq_ok _ _).mp hget
      rcases (bind_eq_error _ _ _ _ _).mp hsupply with hputInfo | ⟨_, s₅, -, htell⟩
      · obtain ⟨hfails, -, rfl⟩ := (store_eq_error _ _ _ _ _).mp hputInfo
        exact ⟨fun haccepts => not_of_fails hfails haccepts.tokenPut, by simp⟩
      · cases htell
  obtain ⟨-, rfl⟩ := updateLedgerSupplies_ok (by exact hplan.info) hsupply
  rcases (bind_eq_error _ _ _ _ _).mp h with hrecord | ⟨_, s₄, -, h⟩
  · obtain ⟨hfails, -, rfl⟩ := (store_eq_error _ _ _ _ _).mp hrecord
    exact ⟨fun haccepts => not_of_fails hfails haccepts.recordPut, by simp⟩
  · cases h

end Process

end Deposit

namespace CrossChainEvent

def deposit : CrossChainEvent → Option Deposit
  | .map log tokenType from_ to_ value => some (log.mapDeposit tokenType from_ to_ value)
  | .unwrap log tokenType original from_ to_ value =>
    some (log.unwrapDeposit tokenType original from_ to_ value)
  | _ => none

-- What the event needs to be taken.
def Accepts (env : TokenEnv) (l : TokenLedger) : CrossChainEvent → Prop
  | .token log tokenType _ wrapped => wrapped = false →
    l.tokens.get log.token = none ∧ tokenType ≠ .invalid ∧ env.fails .tokenInfoPut = false
  | .create log => l.wrappedTokens.get log.token = none ∧ env.fails .wrappedTokenInfoPut = false
  | .map log tokenType from_ to_ value => (log.mapDeposit tokenType from_ to_ value).Accepts env l
  | .unmap _ from_ fromHeight => (∃ block, waitBlock env.app from_ fromHeight = .ok block) ∧
    l.unmapInfos.contains (from_, fromHeight) = true ∧ env.fails .tokenUnmapInfoPut = false
  | .wrap _ from_ fromHeight => (∃ block, waitBlock env.app from_ fromHeight = .ok block) ∧
    (l.wrapInfos.contains (from_, fromHeight) = true → env.fails .tokenWrapInfoPut = false)
  | .unwrap log tokenType original from_ to_ value =>
    (log.unwrapDeposit tokenType original from_ to_ value).Accepts env l

-- The event gets as far as a receivable.
def Credits (env : TokenEnv) (l : TokenLedger) (event : CrossChainEvent) : Prop :=
  ∃ d, event.deposit = some d ∧ d.Credits env l

def applied (l : TokenLedger) : CrossChainEvent → TokenLedger
  | .token log tokenType decimals wrapped =>
    if wrapped then l
    else match newTokenInfo log decimals tokenType with
      | .ok info => { l with tokens := l.tokens.put log.token info }
      | .error _ => l
  | .create log => { l with
      wrappedTokens := l.wrappedTokens.put log.token
        ⟨log.chain, log.address, log.blockHeight, log.txHash⟩ }
  | .map log tokenType from_ to_ value => (log.mapDeposit tokenType from_ to_ value).applied l
  | .unmap log from_ fromHeight => { l with
      unmapInfos := l.unmapInfos.change (from_, fromHeight) fun info => { info with
        targetHeight := log.blockHeight, targetTx := log.txHash, targetIndex := log.index } }
  | .wrap log from_ fromHeight => { l with
      wrapInfos := l.wrapInfos.change (from_, fromHeight) fun info => { info with
        targetHeight := log.blockHeight, targetTx := log.txHash, wrappedToken := log.address } }
  | .unwrap log tokenType original from_ to_ value =>
    (log.unwrapDeposit tokenType original from_ to_ value).applied l

variable {env : TokenEnv} {s s' : TokenSession} {u : Unit} {event : CrossChainEvent}

theorem applied_deposit {l : TokenLedger} {d : Deposit} (h : event.deposit = some d) :
    event.applied l = d.applied l := by
  cases event <;> cases h <;> rfl

theorem accepts_deposit {l : TokenLedger} {d : Deposit} (h : event.deposit = some d) :
    event.Accepts env l ↔ d.Accepts env l := by
  cases event <;> cases h <;> exact Iff.rfl

theorem process_deposit {d : Deposit} (h : event.deposit = some d) :
    processCrossChainEvent_ env event = d.process env := by
  cases event <;> cases h <;> rfl

private theorem newTokenInfo_valid (log : CrossChainLog) (decimals : UInt8)
    {tokenType : TokenType} (h : tokenType ≠ .invalid) :
    ∃ info, newTokenInfo log decimals tokenType = .ok info := by
  cases tokenType
  · exact absurd rfl h
  · exact ⟨_, rfl⟩
  · exact ⟨_, rfl⟩

private theorem absent_of_pass {κ ν : Type} [DecidableEq κ] {t : Table κ ν} {k : κ}
    {code : ErrorCode} {u : Unit} (h : returnIf (t.contains k = true) code = .ok u) :
    t.get k = none := by
  have hcontains := (returnIf_eq_ok _ _ _).mp h
  simpa [Table.contains] using hcontains

private theorem contains_of_stop {κ ν : Type} [DecidableEq κ] {t : Table κ ν} {k : κ}
    {code other : ErrorCode} (h : returnIf (t.contains k = true) code = .error other) :
    t.get k ≠ none := by
  obtain ⟨v, hv⟩ := (Table.contains_iff t k).mp ((returnIf_eq_error _ _ _).mp h).1
  rw [hv]
  simp

-- An event that is not a deposit tells nothing before the commit.
theorem process_silent_ok (hnone : event.deposit = none)
    (h : processCrossChainEvent_ env event s = .ok u s') :
    event.Accepts env s.ledger ∧ s'.ledger = event.applied s.ledger ∧ s'.told = s.told := by
  cases event with
  | map => cases hnone
  | unwrap => cases hnone
  | token log tokenType decimals wrapped =>
      rcases (runIf_eq_ok _ _ _ _ _).mp h with ⟨hwrapped, h⟩ | ⟨hwrapped, rfl⟩
      · obtain ⟨info, s₁, hread, h⟩ := (bind_eq_ok _ _ _ _ _).mp h
        obtain ⟨hinfo, rfl⟩ := (query_eq_ok _ _).mp hread
        obtain ⟨_, habsent, hinfo⟩ := (Except.bind_eq_ok _ _ _).mp hinfo
        obtain ⟨hfails, -, rfl⟩ := (store_eq_ok _ _ _ _ _).mp h
        refine ⟨fun _ => ⟨absent_of_pass habsent, ?_, hfails⟩, ?_, rfl⟩
        · rintro rfl
          cases hinfo
        · simp only [applied, hwrapped, hinfo, Bool.false_eq_true, if_false]
      · have htrue : wrapped = true := by simpa using hwrapped
        refine ⟨fun hfalse => absurd hfalse hwrapped, ?_, rfl⟩
        simp only [applied, htrue, if_true]
  | create log =>
      obtain ⟨_, s₁, hread, h⟩ := (bind_eq_ok _ _ _ _ _).mp h
      obtain ⟨habsent, rfl⟩ := (query_eq_ok _ _).mp hread
      obtain ⟨hfails, -, rfl⟩ := (store_eq_ok _ _ _ _ _).mp h
      exact ⟨⟨absent_of_pass habsent, hfails⟩, rfl, rfl⟩
  | unmap log from_ fromHeight =>
      obtain ⟨info, s₁, hread, h⟩ := (bind_eq_ok _ _ _ _ _).mp h
      obtain ⟨hinfo, rfl⟩ := (query_eq_ok _ _).mp hread
      obtain ⟨block, hwait, hinfo⟩ := (Except.bind_eq_ok _ _ _).mp hinfo
      have hget := (orReturn_eq_ok _ _ _).mp hinfo
      obtain ⟨_, s₂, hput, h⟩ := (bind_eq_ok _ _ _ _ _).mp h
      obtain ⟨hfails, -, rfl⟩ := (store_eq_ok _ _ _ _ _).mp hput
      obtain rfl := (observe_eq_ok _ _).mp h
      refine ⟨⟨⟨block, hwait⟩, (Table.contains_iff _ _).mpr ⟨info, hget⟩, hfails⟩, ?_, rfl⟩
      simp only [applied, Table.change_of_get hget]
  | wrap log from_ fromHeight =>
      obtain ⟨found, s₁, hread, h⟩ := (bind_eq_ok _ _ _ _ _).mp h
      obtain ⟨hfound, rfl⟩ := (query_eq_ok _ _).mp hread
      obtain ⟨block, hwait, hfound⟩ := (Except.bind_eq_ok _ _ _).mp hfound
      obtain rfl := (Except.pure_eq_ok _ _).mp hfound
      cases hget : s.ledger.wrapInfos.get (from_, fromHeight) with
      | none =>
          rw [hget] at h
          obtain ⟨-, rfl⟩ := (pure_eq_ok _ _ _ _).mp h
          refine ⟨⟨⟨block, hwait⟩, fun hcontains => ?_⟩, ?_, rfl⟩
          · rw [Table.contains, hget] at hcontains
            cases hcontains
          · simp only [applied, Table.change, hget]
      | some info =>
          rw [hget] at h
          obtain ⟨_, s₂, hput, h⟩ := (bind_eq_ok _ _ _ _ _).mp h
          obtain ⟨hfails, -, rfl⟩ := (store_eq_ok _ _ _ _ _).mp hput
          obtain rfl := (observe_eq_ok _ _).mp h
          refine ⟨⟨⟨block, hwait⟩, fun _ => hfails⟩, ?_, rfl⟩
          simp only [applied, Table.change_of_get hget]

theorem process_silent_error {code : ErrorCode} (hnone : event.deposit = none)
    (h : processCrossChainEvent_ env event s = .error code s') :
    ¬event.Accepts env s.ledger ∧ s'.told = s.told := by
  cases event with
  | map => cases hnone
  | unwrap => cases hnone
  | token log tokenType decimals wrapped =>
      by_cases hwrapped : wrapped = false
      · rw [processCrossChainEvent_, processCrossChainTokenEvent_, runIf, if_pos hwrapped] at h
        rcases (bind_eq_error _ _ _ _ _).mp h with hread | ⟨info, s₁, hread, h⟩
        · obtain ⟨hstop, rfl⟩ := (query_eq_error _ _).mp hread
          refine ⟨fun haccepts => ?_, rfl⟩
          obtain ⟨habsent, hvalid, -⟩ := haccepts hwrapped
          rcases (Except.bind_eq_error _ _ _).mp hstop with hstop | ⟨_, -, hstop⟩
          · exact contains_of_stop hstop habsent
          · obtain ⟨info, hinfo⟩ := newTokenInfo_valid log decimals hvalid
            rw [hinfo] at hstop
            cases hstop
        · obtain ⟨-, rfl⟩ := (query_eq_ok _ _).mp hread
          obtain ⟨hfails, -, rfl⟩ := (store_eq_error _ _ _ _ _).mp h
          exact ⟨fun haccepts => not_of_fails hfails (haccepts hwrapped).2.2, rfl⟩
      · rw [processCrossChainEvent_, processCrossChainTokenEvent_, runIf, if_neg hwrapped] at h
        cases h
  | create log =>
      rcases (bind_eq_error _ _ _ _ _).mp h with hread | ⟨_, s₁, hread, h⟩
      · obtain ⟨hstop, rfl⟩ := (query_eq_error _ _).mp hread
        exact ⟨fun haccepts => contains_of_stop hstop haccepts.1, rfl⟩
      · obtain ⟨-, rfl⟩ := (query_eq_ok _ _).mp hread
        obtain ⟨hfails, -, rfl⟩ := (store_eq_error _ _ _ _ _).mp h
        exact ⟨fun haccepts => not_of_fails hfails haccepts.2, rfl⟩
  | unmap log from_ fromHeight =>
      rcases (bind_eq_error _ _ _ _ _).mp h with hread | ⟨info, s₁, hread, h⟩
      · obtain ⟨hstop, rfl⟩ := (query_eq_error _ _).mp hread
        refine ⟨fun ⟨⟨block, hwait⟩, hcontains, _⟩ => ?_, rfl⟩
        rcases (Except.bind_eq_error _ _ _).mp hstop with hstop | ⟨_, -, hstop⟩
        · rw [hwait] at hstop
          cases hstop
        · obtain ⟨info, hget⟩ := (Table.contains_iff _ _).mp hcontains
          have hnone := ((orReturn_eq_error _ _ _).mp hstop).1
          rw [hget] at hnone
          cases hnone
      · obtain ⟨-, rfl⟩ := (query_eq_ok _ _).mp hread
        rcases (bind_eq_error _ _ _ _ _).mp h with hput | ⟨_, s₂, -, h⟩
        · obtain ⟨hfails, -, rfl⟩ := (store_eq_error _ _ _ _ _).mp hput
          exact ⟨fun haccepts => not_of_fails hfails haccepts.2.2, rfl⟩
        · cases h
  | wrap log from_ fromHeight =>
      rcases (bind_eq_error _ _ _ _ _).mp h with hread | ⟨found, s₁, hread, h⟩
      · obtain ⟨hstop, rfl⟩ := (query_eq_error _ _).mp hread
        refine ⟨fun ⟨⟨block, hwait⟩, _⟩ => ?_, rfl⟩
        rcases (Except.bind_eq_error _ _ _).mp hstop with hstop | ⟨_, -, hstop⟩
        · rw [hwait] at hstop
          cases hstop
        · cases hstop
      · obtain ⟨hfound, rfl⟩ := (query_eq_ok _ _).mp hread
        obtain ⟨_, -, hfound⟩ := (Except.bind_eq_ok _ _ _).mp hfound
        obtain rfl := (Except.pure_eq_ok _ _).mp hfound
        cases hget : s.ledger.wrapInfos.get (from_, fromHeight) with
        | none =>
            rw [hget] at h
            cases h
        | some info =>
            rw [hget] at h
            rcases (bind_eq_error _ _ _ _ _).mp h with hput | ⟨_, s₂, -, h⟩
            · obtain ⟨hfails, -, rfl⟩ := (store_eq_error _ _ _ _ _).mp hput
              have hcontains := (Table.contains_iff _ _).mpr ⟨info, hget⟩
              exact ⟨fun haccepts => not_of_fails hfails (haccepts.2 hcontains), rfl⟩
            · cases h

theorem process_ok (h : processCrossChainEvent_ env event s = .ok u s') :
    event.Accepts env s.ledger ∧ s'.ledger = event.applied s.ledger ∧
      Tells (event.Credits env s.ledger) s s' := by
  cases hd : event.deposit with
  | none =>
      obtain ⟨haccepts, hledger, htold⟩ := process_silent_ok hd h
      refine ⟨haccepts, hledger, fun hcredits => ?_, fun _ => htold⟩
      obtain ⟨d, hsome, -⟩ := hcredits
      rw [hd] at hsome
      cases hsome
  | some d =>
      rw [process_deposit hd] at h
      obtain ⟨haccepts, hledger, htold⟩ := d.process_ok h
      rw [accepts_deposit hd, applied_deposit hd]
      exact ⟨haccepts, hledger, fun _ => htold,
        fun hno => absurd ⟨d, hd, haccepts.credits⟩ hno⟩

theorem process_error {code : ErrorCode} (h : processCrossChainEvent_ env event s = .error code s') :
    ¬event.Accepts env s.ledger ∧ Tells (event.Credits env s.ledger) s s' := by
  cases hd : event.deposit with
  | none =>
      obtain ⟨hno, htold⟩ := process_silent_error hd h
      refine ⟨hno, fun hcredits => ?_, fun _ => htold⟩
      obtain ⟨d, hsome, -⟩ := hcredits
      rw [hd] at hsome
      cases hsome
  | some d =>
      rw [process_deposit hd] at h
      obtain ⟨hno, htold, hsame⟩ := d.process_error h
      rw [accepts_deposit hd]
      refine ⟨hno, ?_, fun hnone => hsame fun hcredits => hnone ⟨d, hd, hcredits⟩⟩
      rintro ⟨other, hother, hcredits⟩
      rw [hd] at hother
      cases hother
      exact htold hcredits

end CrossChainEvent

-- The events of a block, one after the other.
section Events

variable (env : TokenEnv)

def applyEvents (l : TokenLedger) (events : List CrossChainEvent) : TokenLedger :=
  events.foldl CrossChainEvent.applied l

def AcceptsEvents : TokenLedger → List CrossChainEvent → Prop
  | _, [] => True
  | l, event :: events => event.Accepts env l ∧ AcceptsEvents (event.applied l) events

-- Some event gets as far as a receivable, the events before it being taken.
def CreditsEvents : TokenLedger → List CrossChainEvent → Prop
  | _, [] => False
  | l, event :: events =>
    event.Credits env l ∨ event.Accepts env l ∧ CreditsEvents (event.applied l) events

variable {env} {s s' : TokenSession} {u : Unit} {events : List CrossChainEvent}

theorem processEvents_ok (h : processCrossChainEvents env events s = .ok u s') :
    AcceptsEvents env s.ledger events ∧ s'.ledger = applyEvents s.ledger events ∧
      Tells (CreditsEvents env s.ledger events) s s' := by
  induction events generalizing s with
  | nil =>
      obtain ⟨-, rfl⟩ := (pure_eq_ok _ _ _ _).mp h
      exact ⟨trivial, rfl, False.elim, fun _ => rfl⟩
  | cons event events ih =>
      obtain ⟨_, s₁, hevent, h⟩ := (bind_eq_ok _ _ _ _ _).mp h
      obtain ⟨haccepts, hledger, htells⟩ := CrossChainEvent.process_ok hevent
      obtain ⟨hall, hrest, htellsRest⟩ := ih h
      rw [hledger] at hall hrest htellsRest
      refine ⟨⟨haccepts, hall⟩, hrest, (htells.trans htellsRest).congr ?_⟩
      rw [CreditsEvents, and_iff_right haccepts]

theorem processEvents_error {code : ErrorCode}
    (h : processCrossChainEvents env events s = .error code s') :
    ¬AcceptsEvents env s.ledger events ∧ Tells (CreditsEvents env s.ledger events) s s' := by
  induction events generalizing s with
  | nil => cases h
  | cons event events ih =>
      rcases (bind_eq_error _ _ _ _ _).mp h with hevent | ⟨_, s₁, hevent, h⟩
      · obtain ⟨hno, htells⟩ := CrossChainEvent.process_error hevent
        refine ⟨fun hall => hno hall.1, htells.congr ?_⟩
        rw [CreditsEvents]
        exact ⟨.inl, fun hor => hor.resolve_right fun hrest => hno hrest.1⟩
      · obtain ⟨haccepts, hledger, htells⟩ := CrossChainEvent.process_ok hevent
        obtain ⟨hno, htellsRest⟩ := ih h
        rw [hledger] at hno htellsRest
        refine ⟨fun hall => hno hall.2, (htells.trans htellsRest).congr ?_⟩
        rw [CreditsEvents, and_iff_right haccepts]

end Events

-- The blocks of a batch, which go on from the head of the chain.
section Blocks

variable (env : TokenEnv) (chain : Chain)

def applyBlocks (l : TokenLedger) (blocks : List CrossChainBlockEvents) : TokenLedger :=
  blocks.foldl (fun l block => applyEvents l block.events) l

def CrossChainBlockEvents.Follows (block : CrossChainBlockEvents) (head : UInt64) : Prop :=
  block.chain = chain ∧ block.blockHeight = head + 1

def AcceptsBlocks : UInt64 → TokenLedger → List CrossChainBlockEvents → Prop
  | _, _, [] => True
  | head, l, block :: blocks => block.Follows chain head ∧ AcceptsEvents env l block.events ∧
    AcceptsBlocks (head + 1) (applyEvents l block.events) blocks

def CreditsBlocks : UInt64 → TokenLedger → List CrossChainBlockEvents → Prop
  | _, _, [] => False
  | head, l, block :: blocks => block.Follows chain head ∧
    (CreditsEvents env l block.events ∨ AcceptsEvents env l block.events ∧
      CreditsBlocks (head + 1) (applyEvents l block.events) blocks)

variable {env chain} {s s' : TokenSession} {blocks : List CrossChainBlockEvents}
  {head head' : UInt64}

theorem followChain_ok (h : followChain env chain blocks head s = .ok head' s') :
    AcceptsBlocks env chain head s.ledger blocks ∧ s'.ledger = applyBlocks s.ledger blocks ∧
      head' = head + UInt64.ofNat blocks.length ∧
      Tells (CreditsBlocks env chain head s.ledger blocks) s s' := by
  induction blocks generalizing s head with
  | nil =>
      obtain ⟨rfl, rfl⟩ := (pure_eq_ok _ _ _ _).mp h
      exact ⟨trivial, rfl, by simp, False.elim, fun _ => rfl⟩
  | cons block blocks ih =>
      obtain ⟨_, s₁, hchain, h⟩ := (bind_eq_ok _ _ _ _ _).mp h
      obtain ⟨hsame, rfl⟩ := (query_eq_ok _ _).mp hchain
      obtain ⟨_, s₁, hheight, h⟩ := (bind_eq_ok _ _ _ _ _).mp h
      obtain ⟨hnext, rfl⟩ := (query_eq_ok _ _).mp hheight
      obtain ⟨_, s₂, hevents, h⟩ := (bind_eq_ok _ _ _ _ _).mp h
      obtain ⟨hall, hledger, htells⟩ := processEvents_ok hevents
      obtain ⟨hrest, happlied, rfl, htellsRest⟩ := ih h
      rw [hledger] at hrest happlied htellsRest
      have hfollows : block.Follows chain head :=
        ⟨not_not.mp ((returnIf_eq_ok _ _ _).mp hsame), not_not.mp ((returnIf_eq_ok _ _ _).mp hnext)⟩
      refine ⟨⟨hfollows, hall, hrest⟩, happlied, ?_, (htells.trans htellsRest).congr ?_⟩
      · rw [List.length_cons, Nat.add_comm, UInt64.ofNat_add, UInt64.add_assoc]
        rfl
      · rw [CreditsBlocks, and_iff_right hfollows, and_iff_right hall]

theorem followChain_error {code : ErrorCode}
    (h : followChain env chain blocks head s = .error code s') :
    ¬AcceptsBlocks env chain head s.ledger blocks ∧
      Tells (CreditsBlocks env chain head s.ledger blocks) s s' := by
  induction blocks generalizing s head with
  | nil => cases h
  | cons block blocks ih =>
      have stray (hno : ¬block.Follows chain head) (hs : s = s') :
          ¬AcceptsBlocks env chain head s.ledger (block :: blocks) ∧
            Tells (CreditsBlocks env chain head s.ledger (block :: blocks)) s s' :=
        ⟨fun hall => hno hall.1, fun hcredits => absurd hcredits.1 hno, fun _ => hs ▸ rfl⟩
      rcases (bind_eq_error _ _ _ _ _).mp h with hchain | ⟨_, s₁, hchain, h⟩
      · obtain ⟨hother, hs⟩ := (query_eq_error _ _).mp hchain
        exact stray (fun hfollows => ((returnIf_eq_error _ _ _).mp hother).1 hfollows.1) hs
      obtain ⟨hsame, rfl⟩ := (query_eq_ok _ _).mp hchain
      rcases (bind_eq_error _ _ _ _ _).mp h with hheight | ⟨_, s₁, hheight, h⟩
      · obtain ⟨hother, hs⟩ := (query_eq_error _ _).mp hheight
        exact stray (fun hfollows => ((returnIf_eq_error _ _ _).mp hother).1 hfollows.2) hs
      obtain ⟨hnext, rfl⟩ := (query_eq_ok _ _).mp hheight
      have hfollows : block.Follows chain head :=
        ⟨not_not.mp ((returnIf_eq_ok _ _ _).mp hsame), not_not.mp ((returnIf_eq_ok _ _ _).mp hnext)⟩
      rcases (bind_eq_error _ _ _ _ _).mp h with hevents | ⟨_, s₂, hevents, h⟩
      · obtain ⟨hno, htells⟩ := processEvents_error hevents
        refine ⟨fun hall => hno hall.2.1, htells.congr ?_⟩
        rw [CreditsBlocks, and_iff_right hfollows]
        exact ⟨.inl, fun hor => hor.resolve_right fun hrest => hno hrest.1⟩
      · obtain ⟨hall, hledger, htells⟩ := processEvents_ok hevents
        obtain ⟨hno, htellsRest⟩ := ih h
        rw [hledger] at hno htellsRest
        refine ⟨fun hblocks => hno hblocks.2.2, (htells.trans htellsRest).congr ?_⟩
        rw [CreditsBlocks, and_iff_right hfollows, and_iff_right hall]

end Blocks

-- A whole batch.
section Batches

variable (env : TokenEnv) (l : TokenLedger)

def AcceptsBatch : List CrossChainBlockEvents → Prop
  | [] => False
  | block :: blocks =>
    AcceptsBlocks env block.chain (l.chainHead block.chain) l (block :: blocks) ∧
      env.fails .chainHeadPut = false

def CreditsBatch : List CrossChainBlockEvents → Prop
  | [] => False
  | block :: blocks => CreditsBlocks env block.chain (l.chainHead block.chain) l (block :: blocks)

variable {env l} {block : CrossChainBlockEvents} {blocks : List CrossChainBlockEvents}

theorem batch_taken (h : (processCrossChainBlocks env l (block :: blocks)).code = none) :
    AcceptsBatch env l (block :: blocks) ∧
      (processCrossChainBlocks env l (block :: blocks)).ledger =
        { applyBlocks l (block :: blocks) with
          chainHeads := (applyBlocks l (block :: blocks)).chainHeads.put block.chain
            (l.chainHead block.chain + UInt64.ofNat (blocks.length + 1)) } := by
  unfold processCrossChainBlocks at h ⊢
  dsimp only at h ⊢
  cases hrun : crossChainBlocks env block.chain (block :: blocks) (.init l) with
  | error code s =>
      rw [hrun] at h
      cases h
  | ok _ s =>
      obtain ⟨head, s₁, hread, hrest⟩ := (bind_eq_ok _ _ _ _ _).mp hrun
      obtain ⟨hhead, rfl⟩ := (query_eq_ok _ _).mp hread
      cases hhead
      obtain ⟨head', s₂, hfollow, hput⟩ := (bind_eq_ok _ _ _ _ _).mp hrest
      obtain ⟨haccepts, hledger, rfl, -⟩ := followChain_ok hfollow
      obtain ⟨hfails, -, rfl⟩ := (store_eq_ok _ _ _ _ _).mp hput
      refine ⟨⟨haccepts, hfails⟩, ?_⟩
      rw [show (TokenSession.init l).ledger = l from rfl] at hledger
      simp only [hledger, List.length_cons]
      rfl

-- What a refused batch has told is what its deposits told before it was refused.
theorem batch_refused {code : ErrorCode}
    (h : (processCrossChainBlocks env l blocks).code = some code) :
    ¬AcceptsBatch env l blocks ∧ (processCrossChainBlocks env l blocks).ledger = l ∧
      ((processCrossChainBlocks env l blocks).told = [] ↔ ¬CreditsBatch env l blocks) := by
  have quiet {P : Prop} {s : TokenSession} (htells : Tells P (.init l) s) : s.told = [] ↔ ¬P :=
    ⟨fun hnil hP => htells.1 hP hnil, htells.2⟩
  cases blocks with
  | nil => exact ⟨id, rfl, fun _ => id, fun _ => rfl⟩
  | cons block blocks =>
      unfold processCrossChainBlocks at h ⊢
      dsimp only at h ⊢
      cases hrun : crossChainBlocks env block.chain (block :: blocks) (.init l) with
      | ok _ s =>
          rw [hrun] at h
          cases h
      | error code s =>
          refine (fun ⟨hno, htold⟩ => ⟨hno, rfl, htold⟩ : _ ∧ _ → _) ?_
          rcases (bind_eq_error _ _ _ _ _).mp hrun with hread | ⟨head, s₁, hread, hrest⟩
          · cases ((query_eq_error _ _).mp hread).1
          obtain ⟨hhead, rfl⟩ := (query_eq_ok _ _).mp hread
          cases hhead
          rcases (bind_eq_error _ _ _ _ _).mp hrest with hfollow | ⟨head', s₂, hfollow, hput⟩
          · obtain ⟨hno, htells⟩ := followChain_error hfollow
            exact ⟨fun haccepts => hno haccepts.1, quiet htells⟩
          · obtain ⟨-, -, -, htells⟩ := followChain_ok hfollow
            obtain ⟨hfails, -, rfl⟩ := (store_eq_error _ _ _ _ _).mp hput
            exact ⟨fun haccepts => not_of_fails hfails haccepts.2, quiet htells⟩

end Batches

-- The events of a batch leave the heads of the chains where they are.
section Heads

variable {l : TokenLedger}

theorem applied_chainHeads {event : CrossChainEvent} :
    (event.applied l).chainHeads = l.chainHeads := by
  cases event with
  | token log tokenType decimals wrapped =>
      cases wrapped <;> cases tokenType <;> rfl
  | create => rfl
  | map => rfl
  | unmap => rfl
  | wrap => rfl
  | unwrap => rfl

theorem applyEvents_chainHeads (events : List CrossChainEvent) :
    (applyEvents l events).chainHeads = l.chainHeads := by
  unfold applyEvents
  induction events generalizing l with
  | nil => rfl
  | cons event events ih => rw [List.foldl_cons, ih, applied_chainHeads]

theorem applyBlocks_chainHeads (blocks : List CrossChainBlockEvents) :
    (applyBlocks l blocks).chainHeads = l.chainHeads := by
  unfold applyBlocks
  induction blocks generalizing l with
  | nil => rfl
  | cons block blocks ih => rw [List.foldl_cons, ih, applyEvents_chainHeads]

end Heads

end Raicoin
