import Raicoin.Token.PlanSpec

-- Every block that the token application takes changes its tables in one of the ways that are
-- listed for it.
namespace Raicoin

open Lib Process

section Handlers

variable {env : TokenEnv} {block : Block} {l l' : TokenLedger} {u : Unit}

theorem common_toList_turns {status : Option ErrorCode} {value : TokenValue} {valueOp : ValueOp}
    {token : Option TokenKey}
    (h : Turns (updateLedgerCommon_ env block status value valueOp token.toList) l u l') :
    l' = l.noted env block status value valueOp token ∧ l.Awaits block := by
  obtain ⟨hrecorded, hawaits⟩ := updateLedgerCommon_turns h
  exact ⟨hrecorded.trans (l.recorded_toList env block token), hawaits⟩

theorem common_turns {status : Option ErrorCode} {value : TokenValue} {valueOp : ValueOp}
    {token : TokenKey}
    (h : Turns (updateLedgerCommon_ env block status value valueOp [token]) l u l') :
    l' = l.noted env block status value valueOp token ∧ l.Awaits block :=
  common_toList_turns (by exact (h : Turns (updateLedgerCommon_ env block status value valueOp
    (Option.toList (some token))) l u l'))

theorem status_turns {status : Option ErrorCode} {token : TokenKey}
    (h : Turns (updateLedgerStatus_ env block status [token]) l u l') :
    l' = l.noted env block status 0 .none token ∧ l.Awaits block :=
  common_turns h

theorem status_none_turns {status : Option ErrorCode}
    (h : Turns (updateLedgerStatus_ env block status []) l u l') :
    l' = l.noted env block status 0 .none none ∧ l.Awaits block :=
  common_toList_turns (by exact (h : Turns (updateLedgerCommon_ env block status 0 .none
    (Option.toList none)) l u l'))

-- A handler goes by its plan: it is carried out, or its refusal is noted.
theorem carryOut_turns {α : Type} {plan : TokenLedger → Planning α} {run : α → TokenM Unit}
    (h : Turns (carryOut env block plan run) l u l') :
    (∃ a, plan l = .ok a ∧ Turns (run a) l u l') ∨
      ∃ status token, plan l = .error (.refuse status token) ∧
        l' = l.noted env block (some status) 0 .none token ∧ l.Awaits block := by
  obtain ⟨s, s', hok, rfl, rfl⟩ := h
  unfold carryOut at hok
  cases hplan : plan s.ledger with
  | ok a =>
      rw [hplan] at hok
      exact .inl ⟨a, rfl, turns_of_ok hok⟩
  | error stop =>
      rw [hplan] at hok
      cases stop with
      | fail code => cases hok
      | refuse status token =>
          exact .inr ⟨status, token, rfl, common_toList_turns (turns_of_ok hok)⟩

theorem giveUpId_turns {token : TokenKey} {id : TokenValue} {info : TokenIdInfo}
    (hid : l.tokenIds.get (token, id) = some info) (h : Turns (giveUpId env block token id) l u l') :
    l' = l.idMoved block token id false (some info) := by
  obtain ⟨-, h⟩ := h.store_bind
  rw [(updateLedgerTokenIdTransfer_turns h).1, TokenLedger.idTransferred]
  simp only [Table.change_of_get hid, hid]
  rfl

theorem observeGone_turns {token : TokenKey} {id : TokenValue} {idInfo : Option TokenIdInfo}
    (h : Turns (observeGone block token id idInfo) l u l') : l' = l := by
  cases idInfo with
  | none => exact h.observe.symm
  | some info => exact h.observe_bind.observe.symm

theorem loseValue_turns {token : TokenKey} {id : TokenValue} {idInfo : Option TokenIdInfo}
    (h : Turns (loseValue env block token id idInfo) l u l') :
    l' = l.idMoved block token id false idInfo := by
  cases idInfo with
  | none => exact h.observe.symm
  | some info =>
      obtain ⟨-, h⟩ := h.store_bind
      obtain ⟨_, l₁, hgive, h⟩ := h.bind
      have hput : (l.tokenIds.put (token, id) info).get (token, id) = some info := by
        simp only [Table.get_put, if_true]
      rw [← h.observe_bind.observe, giveUpId_turns hput hgive]
      simp only [TokenLedger.idMoved, Option.elim_some]
      congr 1
      ext1 key
      simp only [Table.get_put]
      split <;> rfl

theorem gainValue_turns {token : TokenKey} {id : TokenValue} {idInfo : Option TokenIdInfo}
    (hid : ∀ info, idInfo = some info → l.tokenIds.get (token, id) = some info)
    (h : Turns (gainValue env block token id idInfo) l u l') :
    l' = l.idMoved block token id true idInfo := by
  cases idInfo with
  | none => exact h.observe.symm
  | some info =>
      obtain ⟨-, h⟩ := h.store_bind
      obtain ⟨_, l₁, htransfer, h⟩ := h.bind
      have hget := hid info rfl
      rw [← h.observe_bind.observe, (updateLedgerTokenIdTransfer_turns htransfer).1,
        TokenLedger.idTransferred]
      simp only [Table.change_of_get hget, hget]
      rfl

theorem updateTransferAndBalance_turns {token : TokenKey} {previous current : TokenValue}
    (h : Turns (updateTransferAndBalance env block token previous current) l u l') :
    l' = (l.transferred token block.timestamp block.account block.height).balanced block.account
      token previous current := by
  obtain ⟨_, l₁, htransfer, hbalance⟩ := h.bind
  rw [(updateLedgerBalance_turns hbalance).1, updateLedgerTokenTransfer_turns htransfer]

theorem Turns.forId_some {idInfo : TokenIdInfo} {run : TokenIdInfo → TokenM Unit}
    (h : Turns (forId (some idInfo) run) l u l') : Turns (run idInfo) l u l' :=
  h

-- An id that a plan has found leaves the account.
theorem giveUp_turns {token : TokenKey} {id : TokenValue} {idInfo : Option TokenIdInfo}
    {run : TokenIdInfo → TokenM Unit}
    (hrun : ∀ info l', Turns (run info) l u l' → Turns (giveUpId env block token id) l u l')
    (hid : ∀ info, idInfo = some info → l.tokenIds.get (token, id) = some info)
    (h : Turns (forId idInfo run) l u l') : l' = l.idMoved block token id false idInfo := by
  cases idInfo with
  | none => exact h.pure.2.symm
  | some info => exact giveUpId_turns (hid info rfl) (hrun info l' h)

theorem Spends.stored {account : Account} {token : TokenKey} {type : TokenType}
    {value previous balance : TokenValue} {idInfo : Option TokenIdInfo}
    (h : Spends id l account token type value previous balance idInfo) (info : TokenIdInfo)
    (hinfo : idInfo = some info) : l.tokenIds.get (token, value) = some info := by
  rcases h.valid with h20 | h721
  · rw [h.fungible h20] at hinfo
    cases hinfo
  · obtain ⟨-, found, hget, hfound⟩ := h.owned h721
    rw [hinfo] at hfound
    cases hfound
    exact hget

-- The operation is carried out, but for what a late counterpart still has to settle.
def CarriedOut (env : TokenEnv) (block : Block) (l : TokenLedger) (token : ExtensionToken)
    (l' : TokenLedger) : Prop :=
  l.Awaits block ∧ token.reads env block l = .ok () ∧
    ∃ l₁, Operated env block l token l₁ ∧ Settled env block l token l₁ l'

def RefusalNoted (env : TokenEnv) (block : Block) (l : TokenLedger) (token : ExtensionToken)
    (l' : TokenLedger) : Prop :=
  l.Awaits block ∧ ∃ status key, token.reads env block l = .error (.refuse status key) ∧
    l' = l.noted env block (some status) 0 .none key

abbrev Handled (env : TokenEnv) (block : Block) (l : TokenLedger) (token : ExtensionToken)
    (l' : TokenLedger) : Prop :=
  CarriedOut env block l token l' ∨ RefusalNoted env block l token l'

theorem createToken20_turns {create : ExtensionToken20Create}
    (hreads : (ExtensionToken.create (.token20 create)).reads env block l = .ok ())
    (hnew : l.tokens.get (env.ownToken block) = none)
    (h : Turns (createToken20 env block create) l u l') :
    CarriedOut env block l (.create (.token20 create)) l' := by
  obtain ⟨_, l₁, hcredit, h⟩ := h.bind
  obtain ⟨-, h⟩ := h.store_bind
  obtain ⟨_, l₂, hstatus, h⟩ := h.bind
  obtain ⟨hnoted, hawaits⟩ := status_turns hstatus
  obtain rfl := h.tell
  have hcreated : l₂ = l.created20 env block create ∧ l.Awaits block := by
    rcases hcredit.runIf with ⟨hpos, hcredit⟩ | ⟨hzero, rfl⟩
    · obtain rfl := updateLedgerReceivable_turns hcredit
      refine ⟨?_, hawaits⟩
      rw [hnoted, TokenLedger.created20]
      simp only [if_pos hpos]
      rfl
    · refine ⟨?_, hawaits⟩
      rw [hnoted, TokenLedger.created20]
      simp only [if_neg hzero]
  rw [hcreated.1]
  exact ⟨hcreated.2, hreads, _, .create20 hnew, .direct (by simp) (by simp)⟩

theorem createToken721_turns {create : ExtensionToken721Create}
    (hreads : (ExtensionToken.create (.token721 create)).reads env block l = .ok ())
    (hnew : l.tokens.get (env.ownToken block) = none)
    (h : Turns (createToken721 env block create) l u l') :
    CarriedOut env block l (.create (.token721 create)) l' := by
  obtain ⟨-, h⟩ := h.store_bind
  obtain ⟨_, l₁, hstatus, h⟩ := h.bind
  obtain ⟨rfl, hawaits⟩ := status_turns hstatus
  obtain rfl := h.tell
  exact ⟨hawaits, hreads, _, .create721 hnew, .direct (by simp) (by simp)⟩

theorem processCreate_turns {create : ExtensionTokenCreate}
    (h : Turns (processCreate_ env block create) l u l') :
    Handled env block l (.create create) l' := by
  unfold processCreate_ at h
  dsimp only at h
  rcases carryOut_turns h with ⟨_, hplan, hrun⟩ | ⟨status, token, hplan, hnoted, hawaits⟩
  · have hnew : l.tokens.get (env.ownToken block) = none := by
      simpa [Table.contains] using (refuseIf_eq_ok _ _ _ _).mp hplan
    cases create with
    | token20 create => exact .inl (createToken20_turns hplan hnew hrun)
    | token721 create => exact .inl (createToken721_turns hplan hnew hrun)
  · exact .inr ⟨hawaits, status, token, hplan, hnoted⟩

theorem processMint_turns {mint : ExtensionTokenMint}
    (h : Turns (processMint_ env block mint) l u l') :
    Handled env block l (.mint mint) l' := by
  rcases carryOut_turns h with ⟨plan, hplan, hrun⟩ | ⟨status, token, hplan, hnoted, hawaits⟩
  · obtain ⟨_, l₁, hput, hrun⟩ := hrun.bind
    obtain ⟨_, l₂, hcredit, hrun⟩ := hrun.bind
    obtain ⟨_, l₃, hsupply, hrun⟩ := hrun.bind
    obtain ⟨_, l₄, hstatus, htell⟩ := hrun.bind
    obtain ⟨hnoted, hawaits⟩ := status_turns hstatus
    rw [updateLedgerSupplies_turns hsupply, updateLedgerReceivable_turns hcredit] at hnoted hawaits
    have hminted : l' = l.minted env block mint plan ∧ l.Awaits block := by
      unfold TokenLedger.minted
      cases hinfo : plan.idInfo with
      | none =>
          rw [hinfo] at hput htell
          obtain rfl := hput.pure.2
          obtain rfl := htell.pure.2
          exact ⟨hnoted, hawaits⟩
      | some idInfo =>
          rw [hinfo] at hput htell
          obtain ⟨-, rfl⟩ := hput.forId_some.store
          obtain rfl := htell.forId_some.tell
          exact ⟨hnoted, hawaits⟩
    rw [hminted.1]
    exact .inl ⟨hminted.2, congrArg Planning.ended hplan, _, .mint hplan,
      .direct (by simp) (by simp)⟩
  · exact .inr ⟨hawaits, status, token, congrArg Planning.ended hplan, hnoted⟩

-- What an UNMAP and a WRAP have in common, `l₁` being the tables with their record.
theorem runLeave_turns {token : ExtensionTokenInfo} {value : TokenValue} {plan : LossPlan}
    {record : LossPlan → TokenM Unit} {l₁ : TokenLedger}
    (hrecord : ∀ u l₂,
      Turns (record plan) (l.idMoved block token.key value false plan.idInfo) u l₂ →
        l₂ = l₁.idMoved block token.key value false plan.idInfo)
    (haccounts : l₁.accountsTokens = l.accountsTokens)
    (h : Turns (runLeave env block token value record plan) l u l') :
    l' = l₁.lost env block token.key value plan ∧ l.Awaits block := by
  obtain ⟨_, l₂, hlose, h⟩ := h.bind
  rw [loseValue_turns hlose] at h
  obtain ⟨_, l₃, hrecorded, h⟩ := h.bind
  rw [hrecord _ l₃ hrecorded] at h
  obtain ⟨_, l₄, hbalance, h⟩ := h.bind
  rw [updateTransferAndBalance_turns hbalance] at h
  obtain ⟨_, l₅, hsupply, h⟩ := h.bind
  rw [updateLedgerSupplies_turns hsupply] at h
  obtain ⟨hnoted, hawaits⟩ := common_turns h
  refine ⟨hnoted, fun held hheld => hawaits held ?_⟩
  rw [← haccounts] at hheld
  exact hheld

theorem processBurn_turns {burn : ExtensionTokenBurn}
    (h : Turns (processBurn_ env block burn) l u l') :
    Handled env block l (.burn burn) l' := by
  rcases carryOut_turns h with ⟨plan, hplan, hrun⟩ | ⟨status, token, hplan, hnoted, hawaits⟩
  · obtain ⟨_, l₂, hlose, hrun⟩ := hrun.bind
    rw [loseValue_turns hlose] at hrun
    obtain ⟨_, l₄, hbalance, hrun⟩ := hrun.bind
    rw [updateTransferAndBalance_turns hbalance] at hrun
    obtain ⟨_, l₅, hsupply, hrun⟩ := hrun.bind
    rw [updateLedgerSupplies_turns hsupply] at hrun
    obtain ⟨rfl, hawaits⟩ := common_turns hrun
    exact .inl ⟨hawaits, congrArg Planning.ended hplan, _, .burn hplan, .direct (by simp) (by simp)⟩
  · exact .inr ⟨hawaits, status, token, congrArg Planning.ended hplan, hnoted⟩

theorem processUnmap_turns {unmap : ExtensionTokenUnmap}
    (h : Turns (processUnmap_ env block unmap) l u l') :
    Handled env block l (.unmap unmap) l' := by
  rcases carryOut_turns h with ⟨plan, hplan, hrun⟩ | ⟨status, token, hplan, hnoted, hawaits⟩
  · have hrecord (u : Unit) (l₂ : TokenLedger)
        (hput : Turns (putUnmapInfo env block unmap plan)
          (l.idMoved block unmap.token.key unmap.value false plan.idInfo) u l₂) :
        l₂ = (l.unmapRecorded env block unmap plan.info.type).idMoved block unmap.token.key
          unmap.value false plan.idInfo :=
      hput.store_bind.2.observe.symm
    obtain ⟨rfl, hawaits⟩ := runLeave_turns hrecord rfl hrun
    exact .inl ⟨hawaits, congrArg Planning.ended hplan, _, .unmap hplan,
      .direct (by simp) (by simp)⟩
  · exact .inr ⟨hawaits, status, token, congrArg Planning.ended hplan, hnoted⟩

theorem processWrap_turns {wrap : ExtensionTokenWrap}
    (h : Turns (processWrap_ env block wrap) l u l') :
    Handled env block l (.wrap wrap) l' := by
  rcases carryOut_turns h with ⟨plan, hplan, hrun⟩ | ⟨status, token, hplan, hnoted, hawaits⟩
  · obtain ⟨_, -, hleave⟩ := (Except.bind_eq_ok _ _ _).mp hplan
    have hrecord (u : Unit) (l₂ : TokenLedger)
        (hput : Turns (putWrapInfo env block wrap plan)
          (l.idMoved block wrap.token.key wrap.value false plan.idInfo) u l₂) :
        l₂ = (l.wrapRecorded env block wrap plan.info.type).idMoved block wrap.token.key
          wrap.value false plan.idInfo :=
      hput.store_bind.2.observe.symm
    obtain ⟨rfl, hawaits⟩ := runLeave_turns hrecord rfl hrun
    exact .inl ⟨hawaits, congrArg Planning.ended hplan, _, .wrap hleave, .direct (by simp) (by simp)⟩
  · exact .inr ⟨hawaits, status, token, congrArg Planning.ended hplan, hnoted⟩

theorem processSend_turns {send : ExtensionTokenSend}
    (h : Turns (processSend_ env block send) l u l') :
    Handled env block l (.send send) l' := by
  rcases carryOut_turns h with ⟨plan, hplan, hrun⟩ | ⟨status, token, hplan, hnoted, hawaits⟩
  · obtain ⟨_, l₁, hgive, hrun⟩ := hrun.bind
    rw [giveUp_turns (fun _ _ h => h) (sendPlan_ok hplan).2.stored hgive] at hrun
    obtain ⟨_, l₂, hcredit, hrun⟩ := hrun.bind
    rw [updateLedgerReceivable_turns hcredit] at hrun
    obtain ⟨_, l₃, hobserve, hrun⟩ := hrun.bind
    rw [observeGone_turns hobserve] at hrun
    obtain ⟨_, l₄, hbalance, hrun⟩ := hrun.bind
    rw [updateTransferAndBalance_turns hbalance] at hrun
    obtain ⟨rfl, hawaits⟩ := common_turns hrun
    exact .inl ⟨hawaits, congrArg Planning.ended hplan, _, .send hplan, .direct (by simp) (by simp)⟩
  · exact .inr ⟨hawaits, status, token, congrArg Planning.ended hplan, hnoted⟩

theorem markReceived_turns {receive : ExtensionTokenReceive} {key : TokenReceivableKey}
    (h : Turns (markReceived env block receive key) l u l') :
    l' = l.receiptMarked env block receive key := by
  unfold markReceived at h
  split at h
  · rename_i hsource
    obtain ⟨info, hget, h⟩ := h.query_bind
    rw [← h.store_bind.2.observe, TokenLedger.receiptMarked]
    simp only [hsource, if_true, reduceCtorEq, if_false,
      Table.change_of_get ((orReturn_eq_ok _ _ _).mp hget)]
  · rename_i hsource
    obtain ⟨info, hget, h⟩ := h.query_bind
    rw [← h.store_bind.2.observe, TokenLedger.receiptMarked]
    simp only [hsource, if_true, reduceCtorEq, if_false,
      Table.change_of_get ((orReturn_eq_ok _ _ _).mp hget)]
  · rename_i hmap hunwrap
    rw [← h.pure.2, TokenLedger.receiptMarked]
    simp only [if_neg hmap, if_neg hunwrap]

theorem Collects.stored_id {receive : ExtensionTokenReceive} {plan : ReceivePlan}
    {receivable : TokenReceivable} (h : Collects l block.account receive plan receivable)
    (info : TokenIdInfo) (hinfo : plan.idInfo = some info) :
    l.tokenIds.get (receive.token.key, receive.value) = some info := by
  rcases h.valid with h20 | h721
  · rw [h.fungible h20] at hinfo
    cases hinfo
  · obtain ⟨found, hget, hfound⟩ := h.id h721
    rw [hinfo] at hfound
    cases hfound
    exact hget

theorem processReceive_turns {receive : ExtensionTokenReceive}
    (h : Turns (processReceive_ env block receive) l u l') :
    Handled env block l (.receive receive) l' := by
  rcases carryOut_turns h with ⟨plan, hplan, hrun⟩ | ⟨status, token, hplan, hnoted, hawaits⟩
  · obtain ⟨receivable, hcollects⟩ := receivePlan_ok hplan
    obtain ⟨_, l₁, hgain, hrun⟩ := hrun.bind
    rw [gainValue_turns hcollects.stored_id hgain] at hrun
    obtain ⟨_, l₂, hmark, hrun⟩ := hrun.bind
    rw [markReceived_turns hmark] at hrun
    obtain ⟨_, l₃, hdel, hrun⟩ := hrun.bind
    rw [hdel.store.2] at hrun
    obtain ⟨_, l₄, hbalance, hrun⟩ := hrun.bind
    rw [updateTransferAndBalance_turns hbalance] at hrun
    obtain ⟨_, l₅, hcommon, hrun⟩ := hrun.bind
    obtain rfl := hrun.observe
    obtain ⟨rfl, hawaits⟩ := common_turns hcommon
    exact .inl ⟨hawaits, congrArg Planning.ended hplan, _, .receive hplan,
      .direct (by simp) (by simp)⟩
  · exact .inr ⟨hawaits, status, token, congrArg Planning.ended hplan, hnoted⟩

theorem processSwapConfig_turns {main : Account}
    (h : Turns (processSwapConfig_ env block main) l u l') :
    Handled env block l (.swap (.config main)) l' := by
  rcases carryOut_turns h with ⟨_, hplan, hrun⟩ | ⟨status, token, hplan, hnoted, hawaits⟩
  · obtain ⟨rfl, hawaits⟩ := status_none_turns hrun.store_bind.2.observe_bind
    exact .inl ⟨hawaits, hplan, _, .config, .direct (by simp) (by simp)⟩
  · exact .inr ⟨hawaits, status, token, hplan, hnoted⟩

theorem Makes.stored {make : ExtensionTokenSwapMake} {plan : OrderPlan}
    (h : Makes env l block make plan) (info : TokenIdInfo) (hinfo : plan.idInfo = some info) :
    l.tokenIds.get (make.tokenOffer.key, make.valueOffer) = some info := by
  have hstored := h.spends.stored info hinfo
  by_cases h20 : make.tokenOffer.type = .t20
  · rw [h.spends.fungible h20] at hinfo
    cases hinfo
  · rw [if_neg h20] at hstored
    exact hstored

theorem processSwapMake_turns {make : ExtensionTokenSwapMake}
    (h : Turns (processSwapMake_ env block make) l u l') :
    Handled env block l (.swap (.make make)) l' := by
  rcases carryOut_turns h with ⟨plan, hplan, hrun⟩ | ⟨status, token, hplan, hnoted, hawaits⟩
  · obtain ⟨_, l₁, hgive, hrun⟩ := hrun.bind
    have hleave (info : TokenIdInfo) (l₂ : TokenLedger) (hgive : Turns (do
        giveUpId env block make.tokenOffer.key make.valueOffer
        observeId block make.tokenOffer.key make.valueOffer info false) l () l₂) :
        Turns (giveUpId env block make.tokenOffer.key make.valueOffer) l () l₂ := by
      obtain ⟨_, l₃, hgive, hobserve⟩ := hgive.bind
      rw [← hobserve.observe_bind.observe]
      exact hgive
    have hgiven := giveUp_turns hleave (swapMakePlan_ok hplan).stored hgive
    rw [hgiven] at hrun
    obtain ⟨_, l₂, hbalance, hrun⟩ := hrun.bind
    rw [updateTransferAndBalance_turns hbalance] at hrun
    have hrun := hrun.store_bind.2.observe_bind.store_bind.2
    obtain ⟨_, l₃, hraise, hrun⟩ := hrun.bind
    rw [raiseAccountSwaps_turns hraise] at hrun
    obtain ⟨rfl, hawaits⟩ := common_turns hrun.observe_bind
    exact .inl ⟨hawaits, congrArg Planning.ended hplan, _, .make hplan, .direct (by simp) (by simp)⟩
  · exact .inr ⟨hawaits, status, token, congrArg Planning.ended hplan, hnoted⟩

theorem nackInquiries_turns {main : Account} {height : Nat} {swaps : List (Account × Nat)}
    (h : Turns (nackInquiries env main height swaps) l u l') :
    NackedInquiries main height swaps l l' := by
  induction swaps generalizing l with
  | nil => exact h.pure.2.symm
  | cons swap swaps ih =>
      obtain ⟨info, hget, h⟩ := h.query_bind
      simp only [Except.bind_eq_ok, orReturn_eq_ok, returnIf_eq_ok, exists_const, not_not,
        Except.pure_eq_ok] at hget
      obtain ⟨found, hfound, hstatus, rfl⟩ := hget
      obtain ⟨hwaiting, h⟩ := h.store_bind.2.observe_bind.store_bind
      obtain ⟨_, hget⟩ := (Table.contains_iff _ _).mp hwaiting
      exact ⟨found, hfound, hstatus, hget, ih h⟩

theorem purgeInquiryWaiting_turns {main : Account} {height : Nat}
    (h : Turns (purgeInquiryWaiting_ env main height) l u l') : PurgedInquiries main height l l' := by
  obtain ⟨swaps, hswaps, h⟩ := h.query_bind
  cases hswaps
  exact nackInquiries_turns h

theorem nackTakes_turns {swaps : List (Account × Nat)}
    (h : Turns (nackTakes env block swaps) l u l') : NackedTakes env block swaps l l' := by
  induction swaps generalizing l with
  | nil => exact h.pure.2.symm
  | cons swap swaps ih =>
      obtain ⟨plan, hplan, h⟩ := h.query_bind
      obtain ⟨_, l₁, hcredit, h⟩ := h.bind
      rw [updateLedgerReceivable_turns hcredit] at h
      obtain ⟨hwaiting, h⟩ := h.store_bind.2.observe_bind.store_bind
      obtain ⟨_, hget⟩ := (Table.contains_iff _ _).mp hwaiting
      exact ⟨plan, hplan, hget, ih h⟩

theorem purgeTakeWaiting_turns (h : Turns (purgeTakeWaiting_ env block) l u l') :
    PurgedTakes env block l l' := by
  obtain ⟨swaps, hswaps, h⟩ := h.query_bind
  cases hswaps
  exact nackTakes_turns h

theorem processSwapInquiry_turns {inquiry : ExtensionTokenSwapInquiry}
    (h : Turns (processSwapInquiry_ env block inquiry) l u l') :
    Handled env block l (.swap (.inquiry inquiry)) l' := by
  rcases carryOut_turns h with ⟨plan, hplan, hrun⟩ | ⟨status, token, hplan, hnoted, hawaits⟩
  · have hrun := hrun.store_bind.2.observe_bind.store_bind.2
    obtain ⟨_, l₁, hraise, hrun⟩ := hrun.bind
    rw [raiseAccountSwaps_turns hraise] at hrun
    obtain ⟨_, l₂, hstatus, hrun⟩ := hrun.bind
    obtain ⟨hnoted, hawaits⟩ := status_turns hstatus
    refine .inl ⟨hawaits, congrArg Planning.ended hplan, l.inquired env block inquiry plan,
      .inquiry hplan, ?_⟩
    have hinquired : l₂ = l.inquired env block inquiry plan := hnoted
    rw [hinquired] at hrun
    rcases hrun.runIf with ⟨hsome, hpurge⟩ | ⟨hnone, rfl⟩
    · obtain ⟨ackBlock, hackBlock⟩ := Option.isSome_iff_exists.mp hsome
      exact .lateInquiry hplan hackBlock (purgeInquiryWaiting_turns hpurge)
    · exact .inquiry hplan (Option.not_isSome_iff_eq_none.mp hnone)
  · exact .inr ⟨hawaits, status, token, congrArg Planning.ended hplan, hnoted⟩

theorem processSwapInquiryAck_turns {ack : ExtensionTokenSwapInquiryAck}
    (h : Turns (processSwapInquiryAck_ env block ack) l u l') :
    Handled env block l (.swap (.inquiryAck ack)) l' := by
  rcases carryOut_turns h with ⟨plan, hplan, hrun⟩ | ⟨status, token, hplan, hnoted, hawaits⟩
  · have hrun := hrun.store_bind.2.store_bind.2.observe_bind.store_bind.2
    obtain ⟨_, l₁, hraise, hrun⟩ := hrun.bind
    rw [raiseAccountSwaps_turns hraise] at hrun
    obtain ⟨_, l₂, hmaker, hrun⟩ := hrun.bind
    obtain ⟨hmaker, -⟩ := adjustAccountSwaps_turns hmaker
    rw [hmaker] at hrun
    obtain ⟨_, l₃, htaker, hrun⟩ := hrun.observe_bind.bind
    obtain ⟨htaker, info, hinfo, -⟩ := adjustAccountSwaps_turns htaker
    rw [htaker] at hrun
    obtain ⟨rfl, hawaits⟩ := status_turns hrun.observe_bind
    refine .inl ⟨hawaits, congrArg Planning.ended hplan, _, .inquiryAck hplan fun hne => ?_,
      .direct (by simp) (by simp)⟩
    simp only [TokenLedger.swapsAdjusted, TokenLedger.swapsRaised, Table.get_change, if_neg hne,
      Table.get_put] at hinfo
    rw [hinfo]
    rfl
  · exact .inr ⟨hawaits, status, token, congrArg Planning.ended hplan, hnoted⟩

theorem processSwapTake_turns {inquiryHeight : Nat}
    (h : Turns (processSwapTake_ env block inquiryHeight) l u l') :
    Handled env block l (.swap (.take inquiryHeight)) l' := by
  rcases carryOut_turns h with ⟨plan, hplan, hrun⟩ | ⟨status, token, hplan, hnoted, hawaits⟩
  · obtain ⟨_, l₁, hgive, hrun⟩ := hrun.bind
    rw [giveUp_turns (fun _ _ h => h) (swapTakePlan_ok hplan).spends.stored hgive] at hrun
    obtain ⟨_, l₂, hobserve, hrun⟩ := hrun.bind
    rw [observeGone_turns hobserve] at hrun
    have hrun := hrun.store_bind.2.observe_bind.store_bind.2
    obtain ⟨_, l₃, hbalance, hrun⟩ := hrun.bind
    rw [updateTransferAndBalance_turns hbalance] at hrun
    obtain ⟨_, l₄, hcommon, hrun⟩ := hrun.bind
    obtain ⟨hnoted, hawaits⟩ := common_turns hcommon
    refine .inl ⟨hawaits, congrArg Planning.ended hplan, l.taken env block inquiryHeight plan,
      .take hplan, ?_⟩
    have htaken : l₄ = l.taken env block inquiryHeight plan := hnoted
    rw [htaken] at hrun
    cases hlate : plan.takeAckBlock with
    | none =>
        rw [hlate] at hrun
        obtain rfl := hrun.pure.2
        exact .take hplan hlate
    | some takeAckBlock =>
        rw [hlate] at hrun
        exact .lateTake hplan hlate (purgeTakeWaiting_turns hrun)
  · exact .inr ⟨hawaits, status, token, congrArg Planning.ended hplan, hnoted⟩

theorem closeOrder_turns {order : OrderInfo} {maker : Account} {orderHeight : Nat}
    (h : Turns (closeOrder env block order maker orderHeight) l u l') :
    l' = l.orderClosed block true (order.getIndex maker orderHeight) := by
  obtain ⟨-, h⟩ := h.store_bind
  obtain ⟨_, l₁, hadjust, h⟩ := h.bind
  rw [← h.observe, (adjustAccountSwaps_turns hadjust).1]
  rfl

theorem closeIf_turns {order : OrderInfo} {maker : Account} {orderHeight : Nat}
    (h : Turns (runIf (order.finished = true) (closeOrder env block order maker orderHeight)) l u
      l') : l' = l.orderClosed block order.finished (order.getIndex maker orderHeight) := by
  rcases h.runIf with ⟨hfinished, h⟩ | ⟨hunfinished, rfl⟩
  · rw [closeOrder_turns h, hfinished]
  · rw [Bool.not_eq_true] at hunfinished
    rw [TokenLedger.orderClosed, hunfinished]
    rfl

-- A fill changes what is left and how the order ended, nothing else.
theorem OrderInfo.filled_kept {β : Type} {f : OrderInfo → β}
    (hf : ∀ (order : OrderInfo) left finishedHeight finishedBy,
      f { order with left, finishedHeight, finishedBy } = f order)
    (order : OrderInfo) (value : TokenValue) (height : Nat) :
    f (order.filled value height) = f order := by
  unfold OrderInfo.filled
  dsimp only
  split_ifs <;> exact hf order _ _ _

theorem OrderInfo.filled_tokenOffer (order : OrderInfo) (value : TokenValue) (height : Nat) :
    (order.filled value height).tokenOffer = order.tokenOffer :=
  OrderInfo.filled_kept (fun _ _ _ _ => rfl) order value height

theorem OrderInfo.filled_tokenWant (order : OrderInfo) (value : TokenValue) (height : Nat) :
    (order.filled value height).tokenWant = order.tokenWant :=
  OrderInfo.filled_kept (fun _ _ _ _ => rfl) order value height

theorem processSwapTakeAck_turns {ack : ExtensionTokenSwapTakeAck}
    (h : Turns (processSwapTakeAck_ env block ack) l u l') :
    Handled env block l (.swap (.takeAck ack)) l' := by
  rcases carryOut_turns h with ⟨plan, hplan, hrun⟩ | ⟨status, token, hplan, hnoted, hawaits⟩
  · obtain ⟨_, l₁, hoffer, hrun⟩ := hrun.bind
    rw [updateLedgerReceivable_turns hoffer] at hrun
    obtain ⟨infoWant, hwant, hrun⟩ := tokenInfoGet_bind hrun
    obtain ⟨_, l₂, hcredit, hrun⟩ := hrun.bind
    rw [updateLedgerReceivable_turns hcredit] at hrun
    have hrun := hrun.store_bind.2.store_bind.2.observe_bind.store_bind.2.observe_bind
    obtain ⟨_, l₃, hclose, hrun⟩ := hrun.bind
    rw [closeIf_turns hclose] at hrun
    obtain ⟨_, l₄, hindex, hrun⟩ := hrun.bind
    rw [updateLedgerSwapIndex_turns hindex, OrderInfo.filled_tokenOffer,
      OrderInfo.filled_tokenWant] at hrun
    obtain ⟨_, l₅, hmaker, hrun⟩ := hrun.bind
    rw [(adjustAccountSwaps_turns hmaker).1] at hrun
    obtain ⟨_, l₆, htaker, hrun⟩ := hrun.observe_bind.bind
    rw [(adjustAccountSwaps_turns htaker).1] at hrun
    obtain ⟨rfl, hawaits⟩ := status_turns hrun.observe_bind
    have hknown : (l.tokens.get plan.order.tokenWant).isSome := by
      rw [show l.tokens.get plan.order.tokenWant = some infoWant from hwant]
      rfl
    exact .inl ⟨hawaits, congrArg Planning.ended hplan, _, .takeAck hplan hknown,
      .direct (by simp) (by simp)⟩
  · exact .inr ⟨hawaits, status, token, congrArg Planning.ended hplan, hnoted⟩

theorem processSwapTakeNack_turns {taker : Account} {inquiryHeight : Nat}
    (h : Turns (processSwapTakeNack_ env block taker inquiryHeight) l u l') :
    Handled env block l (.swap (.takeNack taker inquiryHeight)) l' := by
  rcases carryOut_turns h with ⟨token, hplan, hrun⟩ | ⟨status, token, hplan, hnoted, hawaits⟩
  · obtain ⟨rfl, hawaits⟩ := status_turns hrun
    exact .inl ⟨hawaits, congrArg Planning.ended hplan, _, .takeNack hplan,
      .direct (by simp) (by simp)⟩
  · exact .inr ⟨hawaits, status, token, congrArg Planning.ended hplan, hnoted⟩

theorem processSwapCancel_turns {orderHeight : Nat}
    (h : Turns (processSwapCancel_ env block orderHeight) l u l') :
    Handled env block l (.swap (.cancel orderHeight)) l' := by
  rcases carryOut_turns h with ⟨plan, hplan, hrun⟩ | ⟨status, token, hplan, hnoted, hawaits⟩
  · obtain ⟨_, l₁, hcredit, hrun⟩ := hrun.bind
    rw [updateLedgerReceivable_turns hcredit] at hrun
    have hrun := hrun.store_bind.2.observe_bind
    obtain ⟨_, l₂, hclose, hrun⟩ := hrun.bind
    rw [closeOrder_turns hclose] at hrun
    obtain ⟨rfl, hawaits⟩ := status_turns hrun
    exact .inl ⟨hawaits, congrArg Planning.ended hplan, _, .cancel hplan,
      .direct (by simp) (by simp)⟩
  · exact .inr ⟨hawaits, status, token, congrArg Planning.ended hplan, hnoted⟩

theorem processSwapPing_turns {maker : Account}
    (h : Turns (processSwapPing_ env block maker) l u l') :
    CarriedOut env block l (.swap (.ping maker)) l' := by
  obtain ⟨_, l₁, hping, hstatus⟩ := h.bind
  obtain ⟨rfl, hawaits⟩ := status_none_turns hstatus
  rcases updateLedgerAccountSwapTime_turns hping with rfl | rfl
  · exact ⟨hawaits, rfl, _, .ping, .direct (by simp) (by simp)⟩
  · exact ⟨hawaits, rfl, _, .pinged fun info => ⟨_, rfl⟩, .direct (by simp) (by simp)⟩

theorem processSwapPong_turns (h : Turns (processSwapPong_ env block) l u l') :
    CarriedOut env block l (.swap .pong) l' := by
  obtain ⟨_, l₁, hpong, hstatus⟩ := h.bind
  obtain ⟨rfl, hawaits⟩ := status_none_turns hstatus
  rcases updateLedgerAccountSwapTime_turns hpong with rfl | rfl
  · exact ⟨hawaits, rfl, _, .pong, .direct (by simp) (by simp)⟩
  · exact ⟨hawaits, rfl, _, .ponged fun info => ⟨_, rfl⟩, .direct (by simp) (by simp)⟩

end Handlers

section Blocks

variable {env : TokenEnv} {block : Block} {l l' : TokenLedger} {u : Unit}

private theorem applied_of {token : ExtensionToken} {checked : token.checkData = .ok ()}
    (h : Handled env block l token l') : ContentApplied env block l (.operation token checked) l' := by
  rcases h with ⟨hawaits, hreads, l₁, hoperated, hsettled⟩ | ⟨hawaits, status, key, hreads, rfl⟩
  · exact .operated hawaits hreads hoperated hsettled
  · exact .refused hawaits hreads

theorem processOperation_turns {token : ExtensionToken} (checked : token.checkData = .ok ())
    (h : Turns (processOperation env block token) l u l') :
    ContentApplied env block l (.operation token checked) l' := by
  cases token with
  | create data => exact applied_of (processCreate_turns h)
  | mint data => exact applied_of (processMint_turns h)
  | burn data => exact applied_of (processBurn_turns h)
  | send data => exact applied_of (processSend_turns h)
  | receive data => exact applied_of (processReceive_turns h)
  | unmap data => exact applied_of (processUnmap_turns h)
  | wrap data => exact applied_of (processWrap_turns h)
  | swap swap =>
      cases swap with
      | config main => exact applied_of (processSwapConfig_turns h)
      | make data => exact applied_of (processSwapMake_turns h)
      | inquiry data => exact applied_of (processSwapInquiry_turns h)
      | inquiryAck data => exact applied_of (processSwapInquiryAck_turns h)
      | take inquiryHeight => exact applied_of (processSwapTake_turns h)
      | takeNack taker inquiryHeight => exact applied_of (processSwapTakeNack_turns h)
      | cancel orderHeight => exact applied_of (processSwapCancel_turns h)
      | ping maker => exact applied_of (.inl (processSwapPing_turns h))
      | pong => exact applied_of (.inl (processSwapPong_turns h))
      | takeAck data => exact applied_of (processSwapTakeAck_turns h)

theorem processToken_turns {content : TokenContent}
    (h : Turns (processToken env block content) l u l') :
    ContentApplied env block l content l' := by
  obtain ⟨reentry, hreentry, h⟩ := h.query_bind
  cases hreentry
  rcases h.runIf with ⟨-, h⟩ | ⟨hreentry, rfl⟩
  · cases content with
    | none =>
        obtain rfl := h.pure.2
        exact .none
    | many =>
        obtain ⟨rfl, hawaits⟩ := status_none_turns h
        exact .status (by simp) hawaits
    | broken code =>
        obtain ⟨rfl, hawaits⟩ := status_none_turns h
        exact .status (by simp) hawaits
    | operation token checked => exact processOperation_turns checked h
  · exact .reentry (by simpa using hreentry)

theorem whenConfirmed_turns {confirmed : Bool} {p : TokenM Unit}
    (h : Turns (whenConfirmed confirmed p) l u l') : confirmed = true ∧ Turns p l u l' := by
  obtain ⟨_, hconfirmed, h⟩ := h.query_bind
  exact ⟨by simpa using hconfirmed, h⟩

-- A purge of a position at which nothing waits does nothing.
theorem purgedInquiries_nil {main : Account} {height : Nat} (hnil : l.inquiriesAt main height = []) :
    PurgedInquiries main height l l' ↔ l' = l := by
  rw [PurgedInquiries, hnil]
  exact Iff.rfl

theorem purgedTakes_nil (hnil : l.takesAt block.account block.height = []) :
    PurgedTakes env block l l' ↔ l' = l := by
  rw [PurgedTakes, hnil]
  exact Iff.rfl

-- What a block does: its content is processed, then what waited for it is settled.
theorem afterBlockAppend_turns {content : TokenContent} {confirmed : Bool}
    (h : Turns (afterBlockAppend env block content confirmed) l u l') :
    ∃ l₁ l₂, Appended env block content confirmed l l₁ l₂ l' := by
  obtain ⟨_, l₀, hcredit, hrest⟩ := h.bind
  have hsame : l = l₀ := by
    rcases hcredit.runIf with ⟨-, hcredit⟩ | ⟨-, hl⟩
    · exact hcredit.observe
    · exact hl
  rw [← hsame] at hrest
  obtain ⟨_, l₁, hprocess, hrest⟩ := hrest.bind
  obtain ⟨inquiries, hquery, hrest⟩ := hrest.query_bind
  cases hquery
  obtain ⟨_, l₂, hinquiries, hrest⟩ := hrest.bind
  obtain ⟨takes, hquery, htakes⟩ := hrest.query_bind
  cases hquery
  have hcontent : ContentApplied env block l content l₁ ∧
      (confirmed = true ∨ content = .none ∧ l₁ = l) := by
    rcases hprocess.runIf with ⟨-, hprocess⟩ | ⟨hnone, rfl⟩
    · obtain ⟨hconfirmed, hprocess⟩ := whenConfirmed_turns hprocess
      exact ⟨processToken_turns hprocess, .inl hconfirmed⟩
    · have hcontent : content = .none := not_not.mp hnone
      rw [hcontent]
      exact ⟨.none, .inr ⟨rfl, rfl⟩⟩
  have hpurged : PurgedInquiries block.account block.height l₁ l₂ ∧
      (confirmed = true ∨ l₂ = l₁) := by
    rcases hinquiries.runIf with ⟨-, hpurge⟩ | ⟨hnone, rfl⟩
    · obtain ⟨hconfirmed, hpurge⟩ := whenConfirmed_turns hpurge
      exact ⟨purgeInquiryWaiting_turns hpurge, .inl hconfirmed⟩
    · exact ⟨(purgedInquiries_nil (by simpa [TokenLedger.inquiryWaitingExist] using hnone)).mpr rfl,
        .inr rfl⟩
  have hsettled : PurgedTakes env block l₂ l' ∧ (confirmed = true ∨ l' = l₂) := by
    rcases htakes.runIf with ⟨-, hpurge⟩ | ⟨hnone, rfl⟩
    · obtain ⟨hconfirmed, hpurge⟩ := whenConfirmed_turns hpurge
      exact ⟨purgeTakeWaiting_turns hpurge, .inl hconfirmed⟩
    · exact ⟨(purgedTakes_nil (by simpa [TokenLedger.takeWaitingExist] using hnone)).mpr rfl,
        .inr rfl⟩
  refine ⟨l₁, l₂, hcontent.1, ?_, hpurged.1, hsettled.1⟩
  cases hconfirmed : confirmed with
  | true => exact .inl rfl
  | false =>
      obtain ⟨hnone, rfl⟩ := hcontent.2.resolve_left (by simp [hconfirmed])
      obtain rfl := hpurged.2.resolve_left (by simp [hconfirmed])
      obtain rfl := hsettled.2.resolve_left (by simp [hconfirmed])
      exact .inr ⟨hnone, rfl⟩

end Blocks

end Raicoin
