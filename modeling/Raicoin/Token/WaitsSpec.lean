import Raicoin.Token.Waits

-- A block is not taken for now only if its handler waits for something, or if it wraps to a chain
-- that is not known.
namespace Raicoin

open Lib

section Planning

variable {α : Type} {code other : ErrorCode}

@[simp] theorem refuseIf_ne_fail (condition : Prop) [Decidable condition] (status : ErrorCode)
    (token : Option TokenKey) : ¬refuseIf condition status token = .error (.fail code) := by
  unfold refuseIf
  rw [returnIf_eq_error]
  simp

@[simp] theorem failIf_eq_fail (condition : Prop) [Decidable condition] :
    failIf condition code = .error (.fail other) ↔ condition ∧ code = other := by
  unfold failIf
  rw [returnIf_eq_error, Stop.fail.injEq]

@[simp] theorem orRefuse_ne_fail (found : Option α) (status : ErrorCode)
    (token : Option TokenKey) : ¬orRefuse found status token = .error (.fail code) := by
  unfold orRefuse
  rw [orReturn_eq_error]
  simp

@[simp] theorem orFail_eq_fail (found : Option α) :
    orFail found code = .error (.fail other) ↔ found = none ∧ code = other := by
  unfold orFail
  rw [orReturn_eq_error, Stop.fail.injEq]

@[simp] theorem orStop_eq_fail (result : Except ErrorCode α) :
    orStop result = .error (.fail code) ↔ result = .error code := by
  cases result <;> simp [orStop, Except.mapError]

end Planning

section Firsts

variable {env : TokenEnv} {l : TokenLedger} {obstacle : Obstacle} {obstacles : List Obstacle}

theorem firstWaited_of_waiting (h : obstacle.check env l = .error .APP_PROCESS_WAITING) :
    firstWaited env l (obstacle :: obstacles) = some obstacle := by
  rw [firstWaited, h]
  rfl

theorem firstWaited_of_ok (h : obstacle.check env l = .ok ()) :
    firstWaited env l (obstacle :: obstacles) = firstWaited env l obstacles := by
  rw [firstWaited, h]

-- What is waited for is one of the calls, and this call says so.
theorem firstWaited_spec (h : firstWaited env l obstacles = some obstacle) :
    obstacle ∈ obstacles ∧ obstacle.check env l = .error .APP_PROCESS_WAITING := by
  induction obstacles with
  | nil => cases h
  | cons first rest ih =>
      rw [firstWaited] at h
      cases hcheck : first.check env l with
      | ok u =>
          rw [hcheck] at h
          obtain ⟨hmem, hwaiting⟩ := ih h
          exact ⟨List.mem_cons_of_mem _ hmem, hwaiting⟩
      | error code =>
          rw [hcheck] at h
          dsimp only at h
          split_ifs at h with hcode
          cases h
          exact ⟨List.mem_cons_self, by rw [hcheck, hcode]⟩

theorem block_check_of_ok {account : Account} {height : Nat} {block : Block}
    (h : waitBlock env.app account height = .ok block) :
    (Obstacle.block account height).check env l = .ok () := by
  rw [Obstacle.check, h]
  rfl

theorem block_check_waiting {account : Account} {height : Nat} :
    (Obstacle.block account height).check env l = .error .APP_PROCESS_WAITING ↔
      waitBlock env.app account height = .error .APP_PROCESS_WAITING := by
  rw [Obstacle.check, Except.bind_eq_error]
  simp [pure, Except.pure]

theorem existing_check_waiting {account : Account} {height : Nat} :
    (Obstacle.existing account height).check env l = .error .APP_PROCESS_WAITING ↔
      waitBlockIfExist env.app account height = .error .APP_PROCESS_WAITING := by
  rw [Obstacle.check, Except.bind_eq_error]
  simp [pure, Except.pure]

theorem chain_check_waiting {chain : Chain} {height : Nat} :
    (Obstacle.chain chain height).check env l = .error .APP_PROCESS_WAITING ↔
      ∀ head, l.chainHeads.get chain = some head → height > head.toNat := by
  rw [Obstacle.check]
  cases l.chainHeads.get chain with
  | none => simp
  | some head => simp

theorem waitChain_waiting {chain : Chain} {height : Nat}
    (h : waitChain_ l chain height = .error (.fail .APP_PROCESS_WAITING)) :
    (Obstacle.chain chain height).check env l = .error .APP_PROCESS_WAITING := by
  rw [chain_check_waiting]
  intro head hget
  rw [waitChain_, hget] at h
  exact ((failIf_eq_fail _).mp h).1

end Firsts

section Plans

variable {env : TokenEnv} {block : Block} {l : TokenLedger}

-- A plan that is not carried out for now has found what it waits for.
def Awaits (env : TokenEnv) (l : TokenLedger) {α : Type} (plan : Planning α)
    (obstacles : List Obstacle) : Prop :=
  plan = .error (.fail .APP_PROCESS_WAITING) → (firstWaited env l obstacles).isSome

theorem receivePlan_awaits (receive : ExtensionTokenReceive) :
    Awaits env l (receivePlan env block receive l) (receiveObstacles block receive) := by
  intro h
  have hsource : receiveSource env block receive l = .error (.fail .APP_PROCESS_WAITING) := by
    unfold receivePlan at h
    simp only [Except.bind_eq_error] at h
    rcases h with h | ⟨⟨chain, index⟩, -, h⟩
    · exact h
    · exfalso
      dsimp only at h
      simp only [orRefuse_ne_fail, refuseIf_ne_fail, orFail_eq_fail, failIf_eq_fail, reduceCtorEq,
        and_false, false_or] at h
      obtain ⟨_, -, _, -, _, -, _, -, _, -, _, -, _, -, _, -, h⟩ := h
      split at h <;> simp [Except.bind_eq_error, pure, Except.pure, throw, throwThe,
        MonadExceptOf.throw] at h
  unfold receiveSource at hsource
  unfold receiveObstacles
  split_ifs at hsource ⊢ with hlocal hself hmap hunwrap
  · simp [Except.bind_eq_error, hself, pure, Except.pure] at hsource
  · simp only [Except.bind_eq_error, refuseIf_ne_fail, orStop_eq_fail, false_or, pure, Except.pure,
      reduceCtorEq, and_false, exists_false, or_false] at hsource
    obtain ⟨_, -, hwaiting⟩ := hsource
    rw [firstWaited_of_waiting (block_check_waiting.mpr hwaiting)]
    rfl
  · rcases (Except.bind_eq_error _ _ _).mp hsource with hwaiting | ⟨_, -, hnone⟩
    · rw [firstWaited_of_waiting (waitChain_waiting hwaiting)]
      rfl
    · cases hnone
  · rcases (Except.bind_eq_error _ _ _).mp hsource with hwaiting | ⟨_, -, hnone⟩
    · rw [firstWaited_of_waiting (waitChain_waiting hwaiting)]
      rfl
    · cases hnone
  · cases hsource

theorem tokenUncirculable_ne_waiting (token : TokenKey) (maker taker : Account) :
    tokenUncirculable l token maker taker ≠ .error (.fail .APP_PROCESS_WAITING) := by
  unfold tokenUncirculable
  split
  · simp
  · simp [Except.bind_eq_error, pure, Except.pure]

theorem checkOrderCirculable_ne_waiting (order : OrderInfo) (maker taker : Account) :
    checkOrderCirculable_ l order maker taker ≠ .error (.fail .APP_PROCESS_WAITING) := by
  intro h
  unfold checkOrderCirculable_ at h
  rcases (Except.bind_eq_error _ _ _).mp h with h | ⟨offer, -, h⟩
  · exact tokenUncirculable_ne_waiting _ _ _ h
  · cases offer with
    | true => cases h
    | false => exact tokenUncirculable_ne_waiting _ _ _ h

theorem swapInquiryPlan_awaits (inquiry : ExtensionTokenSwapInquiry) :
    Awaits env l (swapInquiryPlan env block inquiry l) (inquiryObstacles block l inquiry) := by
  intro h
  unfold swapInquiryPlan at h
  simp only [Except.bind_eq_error, orRefuse_ne_fail, refuseIf_ne_fail, refuseIf_eq_ok,
    orRefuse_eq_ok, orFail_eq_fail, orStop_eq_fail, orStop_eq_ok, exists_const, reduceCtorEq,
    and_false, false_or, checkOrderCirculable_ne_waiting] at h
  obtain ⟨hother, hwaiting | ⟨_, hmade, order, horder, hmain, hwaiting | hrest⟩⟩ := h
  · rw [inquiryObstacles, if_neg hother,
      firstWaited_of_waiting (block_check_waiting.mpr hwaiting)]
    rfl
  · rw [inquiryObstacles, if_neg hother, firstWaited_of_ok (block_check_of_ok hmade), horder]
    dsimp only
    rw [if_neg hmain, firstWaited_of_waiting (existing_check_waiting.mpr hwaiting)]
    rfl
  · exfalso
    obtain ⟨_, -, _, -, -, info, -, -, _, -, -, -, hrest⟩ := hrest
    cases htype : info.type <;> simp [htype, Except.bind_eq_error, pure, Except.pure, throw,
      throwThe, MonadExceptOf.throw] at hrest

theorem swapInquiryAckPlan_awaits (ack : ExtensionTokenSwapInquiryAck) :
    Awaits env l (swapInquiryAckPlan env block ack l) (inquiryAckObstacles block l ack) := by
  intro h
  unfold swapInquiryAckPlan at h
  simp only [Except.bind_eq_error, refuseIf_ne_fail, refuseIf_eq_ok, orFail_eq_fail, orFail_eq_ok,
    failIf_eq_fail, failIf_eq_ok, orStop_eq_fail, orStop_eq_ok, exists_const, reduceCtorEq,
    and_false, false_or, not_not, Bool.not_eq_false] at h
  obtain ⟨hother, hwaiting | ⟨_, hinquired, hinquiry, swap, hswap, order, horder, _, htoken,
    hstatus, hwaiting | hrest⟩⟩ := h
  · rw [inquiryAckObstacles, if_neg hother,
      firstWaited_of_waiting (block_check_waiting.mpr hwaiting)]
    rfl
  · obtain ⟨_, hinquiry⟩ := (Table.contains_iff _ _).mp hinquiry
    have hfound : acknowledgeable block l ack = some swap := by
      simp [acknowledgeable, hinquiry, hswap, horder, htoken, hstatus]
    rw [inquiryAckObstacles, if_neg hother, firstWaited_of_ok (block_check_of_ok hinquired), hfound]
    dsimp only
    rw [firstWaited_of_waiting (block_check_waiting.mpr hwaiting)]
    rfl
  · simp [pure, Except.pure] at hrest

theorem swapTakePlan_awaits (inquiryHeight : Nat) :
    Awaits env l (swapTakePlan env block inquiryHeight l)
      (takeObstacles block l inquiryHeight) := by
  intro h
  unfold swapTakePlan at h
  simp only [Except.bind_eq_error, refuseIf_ne_fail, refuseIf_eq_ok, orRefuse_ne_fail,
    orRefuse_eq_ok, orFail_eq_fail, orFail_eq_ok, failIf_eq_fail, failIf_eq_ok, orStop_eq_fail,
    orStop_eq_ok, exists_const, reduceCtorEq, and_false, false_or, not_not] at h
  obtain ⟨hheight, swap, hswap, order, horder, info, htoken, htype, hwait⟩ := h
  have hfound : takeable block l inquiryHeight = some (swap, order) := by
    simp [takeable, hswap, horder, htoken, htype]
  rw [takeObstacles, if_neg hheight, hfound]
  dsimp only
  rcases hwait with hwaiting | ⟨_, hacked, hstatus, hwaiting | hrest⟩
  · rw [firstWaited_of_waiting (block_check_waiting.mpr hwaiting)]
    rfl
  · rw [firstWaited_of_ok (block_check_of_ok hacked), if_pos hstatus,
      firstWaited_of_waiting (existing_check_waiting.mpr hwaiting)]
    rfl
  · exfalso
    obtain ⟨_, -, held, -, -, hrest⟩ := hrest
    cases htype : order.typeWant <;> simp [htype, Except.bind_eq_error, pure, Except.pure, throw,
      throwThe, MonadExceptOf.throw] at hrest

theorem swapTakeAckPlan_awaits (ack : ExtensionTokenSwapTakeAck) :
    Awaits env l (swapTakeAckPlan env block ack l) (takeAckObstacles block ack) := by
  intro h
  unfold swapTakeAckPlan at h
  simp only [Except.bind_eq_error, refuseIf_ne_fail, refuseIf_eq_ok, orFail_eq_fail, failIf_eq_fail,
    orStop_eq_fail, exists_const, reduceCtorEq, and_false, false_or, pure, Except.pure,
    exists_false, or_false] at h
  obtain ⟨hother, hwaiting⟩ := h
  rw [takeAckObstacles, if_neg hother, firstWaited_of_waiting (block_check_waiting.mpr hwaiting)]
  rfl

theorem swapTakeNackPlan_awaits (taker : Account) (inquiryHeight : Nat) :
    Awaits env l (swapTakeNackPlan env block taker inquiryHeight l)
      (takeNackObstacles block l taker inquiryHeight) := by
  intro h
  unfold swapTakeNackPlan at h
  simp only [Except.bind_eq_error, refuseIf_ne_fail, refuseIf_eq_ok, orRefuse_ne_fail,
    orRefuse_eq_ok, orFail_eq_fail, orFail_eq_ok, failIf_eq_fail, failIf_eq_ok, orStop_eq_fail,
    orStop_eq_ok, exists_const Unit, reduceCtorEq, and_false, false_or, not_not, pure, Except.pure,
    exists_false, or_false] at h
  obtain ⟨hother, hwaiting | ⟨_, hinquired, swap, hswap, hmaker, order, horder, info, htoken, htype,
    hwaiting⟩⟩ := h
  · rw [takeNackObstacles, if_neg hother,
      firstWaited_of_waiting (block_check_waiting.mpr hwaiting)]
    rfl
  · have hfound : nackable block l taker inquiryHeight = some (swap, order) := by
      rw [hmaker] at horder
      simp [nackable, hswap, horder, htoken, htype, hmaker]
    rw [takeNackObstacles, if_neg hother, firstWaited_of_ok (block_check_of_ok hinquired), hfound]
    dsimp only
    rw [firstWaited_of_waiting (block_check_waiting.mpr hwaiting)]
    rfl

end Plans

-- A computation that does not end by waiting.
def Goes {α : Type} (p : TokenM α) : Prop := Process.FailsLate (· ≠ ErrorCode.APP_PROCESS_WAITING) p

section Goes

variable {env : TokenEnv} {block : Block} {α β : Type}

@[simp] theorem goes_bind {x : TokenM α} {f : α → TokenM β} (hx : Goes x)
    (hf : ∀ a, Goes (f a)) : Goes (x >>= f) :=
  Process.FailsLate.bind hx hf

@[simp] theorem goes_pure (a : α) : Goes (pure a) := Process.FailsLate.pure a

theorem goes_query {f : TokenLedger → Except ErrorCode α}
    (h : ∀ l, f l ≠ .error .APP_PROCESS_WAITING) : Goes (query f) := by
  intro s code s' herror hcode
  subst hcode
  exact h s.ledger ((query_eq_error f _).mp herror).1

@[simp] theorem goes_get {found : TokenLedger → Option α} {code : ErrorCode}
    (h : code ≠ .APP_PROCESS_WAITING) : Goes (query fun l => orReturn (found l) code) := by
  refine goes_query fun l => ?_
  rw [ne_eq, orReturn_eq_error]
  exact fun hboth => h hboth.2

@[simp] theorem goes_guard {condition : TokenLedger → Prop} [∀ l, Decidable (condition l)]
    {code : ErrorCode} (h : code ≠ .APP_PROCESS_WAITING) :
    Goes (query fun l => returnIf (condition l) code) := by
  refine goes_query fun l => ?_
  rw [ne_eq, returnIf_eq_error]
  exact fun hboth => h hboth.2

@[simp] theorem goes_read {f : TokenLedger → α} : Goes (query fun l => .ok (f l)) :=
  goes_query fun _ h => nomatch h

@[simp] theorem goes_store {call : TokenCall} {code : ErrorCode} {f : TokenLedger → TokenLedger}
    {present : TokenLedger → Bool} (h : code ≠ .APP_PROCESS_WAITING) :
    Goes (store env call code f present) :=
  Process.FailsLate.update h

@[simp] theorem goes_tell {notice : Notice} : Goes (tell notice) := Process.FailsLate.modify _

@[simp] theorem goes_observe {notice : Notice} : Goes (observe notice) := Process.FailsLate.modify _

@[simp] theorem goes_runIf {condition : Prop} [Decidable condition] {p : TokenM Unit} (h : Goes p) :
    Goes (runIf condition p) := by
  unfold runIf
  split
  · exact h
  · exact goes_pure _

@[simp] theorem goes_forId {idInfo : Option TokenIdInfo} {run : TokenIdInfo → TokenM Unit}
    (h : ∀ info, Goes (run info)) : Goes (forId idInfo run) := by
  cases idInfo with
  | none => exact goes_pure _
  | some info => exact h info

theorem linkTokens_goes (account : Account) (height : Nat) (tokens : List TokenKey) :
    Goes (linkTokens env account height tokens) := by
  have hbelow (token : TokenKey) :
      Goes (query fun l => accountTokenInfoBelow l account token height) := by
    refine goes_query fun l => ?_
    unfold accountTokenInfoBelow
    split
    · simp
    · split <;> simp
  induction tokens with
  | nil => exact goes_pure _
  | cons token tokens ih =>
      unfold linkTokens
      refine goes_bind (hbelow token) fun info => ?_
      repeat' with_reducible refine goes_bind ?_ fun _ => ?_
      · simp
      · simp
      · simp [accountTokenInfoPut]
      · exact ih
      · simp

@[simp] theorem updateLedgerCommon_goes (status : Option ErrorCode) (value : TokenValue)
    (valueOp : ValueOp) (tokens : List TokenKey) :
    Goes (updateLedgerCommon_ env block status value valueOp tokens) := by
  have hbelow : Goes (query fun l => accountTokensInfoBelow l block.account block.height) := by
    refine goes_query fun l => ?_
    unfold accountTokensInfoBelow
    split
    · simp
    · split <;> simp
  unfold updateLedgerCommon_
  refine goes_bind hbelow fun info => ?_
  repeat' with_reducible refine goes_bind ?_ fun _ => ?_
  · simp
  · simp
  · simp
  · exact linkTokens_goes _ _ _
  · simp

@[simp] theorem updateLedgerStatus_goes (status : Option ErrorCode) (tokens : List TokenKey) :
    Goes (updateLedgerStatus_ env block status tokens) :=
  updateLedgerCommon_goes _ _ _ _

@[simp] theorem updateLedgerReceivable_goes (key : TokenReceivableKey)
    (receivable : TokenReceivable) (info : TokenInfo) (source : Option Block) :
    Goes (updateLedgerReceivable_ env key receivable info source) := by
  simp [updateLedgerReceivable_]

@[simp] theorem tokenInfoGet_goes {code : ErrorCode} (h : code ≠ .APP_PROCESS_WAITING)
    (token : TokenKey) : Goes (tokenInfoGet token code) :=
  goes_get h

@[simp] theorem tokenInfoPut_goes {code : ErrorCode} (h : code ≠ .APP_PROCESS_WAITING)
    (token : TokenKey) (info : TokenInfo) : Goes (tokenInfoPut env token info code) :=
  goes_store h

@[simp] theorem accountSwapInfoPut_goes (account : Account) (info : AccountSwapInfo) :
    Goes (accountSwapInfoPut env account info) :=
  goes_store (by decide)

@[simp] theorem updateLedgerBalance_goes (account : Account) (token : TokenKey)
    (previous current : TokenValue) :
    Goes (updateLedgerBalance_ env account token previous current) := by
  unfold updateLedgerBalance_ updateHolders
  repeat' with_reducible first | refine goes_runIf ?_ | refine goes_bind ?_ fun _ => ?_
  all_goals simp [accountTokenInfoPut]

@[simp] theorem updateLedgerSupplies_goes (token : TokenKey) (total local_ : TokenValue) :
    Goes (updateLedgerSupplies_ env token total local_) := by
  unfold updateLedgerSupplies_
  repeat' with_reducible refine goes_bind ?_ fun _ => ?_
  all_goals simp

@[simp] theorem updateTransferAndBalance_goes (token : TokenKey) (previous current : TokenValue) :
    Goes (updateTransferAndBalance env block token previous current) := by
  unfold updateTransferAndBalance updateLedgerTokenTransfer_
  repeat' with_reducible refine goes_bind ?_ fun _ => ?_
  all_goals simp

@[simp] theorem updateLedgerTokenIdTransfer_goes (token : TokenKey) (id : TokenValue)
    (account : Account) (height : Nat) :
    Goes (updateLedgerTokenIdTransfer_ env token id account height) := by
  unfold updateLedgerTokenIdTransfer_
  repeat' with_reducible refine goes_bind ?_ fun _ => ?_
  all_goals simp [tokenIdInfoPut]

@[simp] theorem giveUpId_goes (token : TokenKey) (id : TokenValue) :
    Goes (giveUpId env block token id) := by
  simp [giveUpId, accountTokenIdDel]

@[simp] theorem raiseAccountSwaps_goes (account : Account)
    (raise : AccountSwapInfo → AccountSwapInfo) : Goes (raiseAccountSwaps env account raise) := by
  simp [raiseAccountSwaps]

@[simp] theorem adjustAccountSwaps_goes (account : Account) (low : AccountSwapInfo → Bool)
    (adjust : AccountSwapInfo → AccountSwapInfo) :
    Goes (adjustAccountSwaps env account low adjust) := by
  refine goes_bind (goes_query fun l => ?_) fun info => accountSwapInfoPut_goes _ _
  simp [Except.bind_eq_error, pure, Except.pure]

@[simp] theorem nackInquiries_goes (main : Account) (height : Nat) (swaps : List (Account × Nat)) :
    Goes (nackInquiries env main height swaps) := by
  induction swaps with
  | nil => exact goes_pure _
  | cons swap swaps ih =>
      unfold nackInquiries
      refine goes_bind (goes_query fun l => ?_) fun info => ?_
      · simp [Except.bind_eq_error, pure, Except.pure]
      · repeat' with_reducible refine goes_bind ?_ fun _ => ?_
        all_goals simp [swapInfoPut, inquiryWaitingDel, ih]

theorem purgeInquiryWaiting_goes (main : Account) (height : Nat) :
    Goes (purgeInquiryWaiting_ env main height) :=
  goes_bind goes_read fun _ => nackInquiries_goes _ _ _

@[simp] theorem nackTakes_goes (swaps : List (Account × Nat)) :
    Goes (nackTakes env block swaps) := by
  induction swaps with
  | nil => exact goes_pure _
  | cons swap swaps ih =>
      unfold nackTakes
      refine goes_bind (goes_query fun l => ?_) fun plan => ?_
      · simp [refundPlan, Except.bind_eq_error, pure, Except.pure]
      · repeat' with_reducible refine goes_bind ?_ fun _ => ?_
        all_goals simp [swapInfoPut, takeWaitingDel, ih]

theorem purgeTakeWaiting_goes : Goes (purgeTakeWaiting_ env block) :=
  goes_bind goes_read fun _ => nackTakes_goes _

theorem runMint_goes (mint : ExtensionTokenMint) (plan : MintPlan) :
    Goes (runMint env block mint plan) := by
  unfold runMint
  repeat' with_reducible refine goes_bind ?_ fun _ => ?_
  all_goals simp [tokenIdInfoPut]

@[simp] theorem loseValue_goes (token : TokenKey) (id : TokenValue) (idInfo : Option TokenIdInfo) :
    Goes (loseValue env block token id idInfo) := by
  cases idInfo with
  | none => exact goes_observe
  | some info =>
      unfold loseValue observeId
      repeat' with_reducible refine goes_bind ?_ fun _ => ?_
      all_goals simp [tokenIdInfoPut]

theorem runBurn_goes (burn : ExtensionTokenBurn) (plan : LossPlan) :
    Goes (runBurn env block burn plan) := by
  unfold runBurn
  repeat' with_reducible refine goes_bind ?_ fun _ => ?_
  all_goals simp

@[simp] theorem observeGone_goes (token : TokenKey) (id : TokenValue)
    (idInfo : Option TokenIdInfo) : Goes (observeGone block token id idInfo) := by
  cases idInfo with
  | none => exact goes_observe
  | some info => exact goes_bind goes_observe fun _ => goes_observe

theorem runSend_goes (send : ExtensionTokenSend) (plan : SpendPlan) :
    Goes (runSend env block send plan) := by
  unfold runSend
  repeat' with_reducible refine goes_bind ?_ fun _ => ?_
  all_goals simp

@[simp] theorem gainValue_goes (token : TokenKey) (id : TokenValue) (idInfo : Option TokenIdInfo) :
    Goes (gainValue env block token id idInfo) := by
  cases idInfo with
  | none => exact goes_observe
  | some info =>
      unfold gainValue observeId
      repeat' with_reducible refine goes_bind ?_ fun _ => ?_
      all_goals simp [accountTokenIdPut]

@[simp] theorem markReceived_goes (receive : ExtensionTokenReceive) (key : TokenReceivableKey) :
    Goes (markReceived env block receive key) := by
  unfold markReceived
  cases receive.source <;> repeat' with_reducible refine goes_bind ?_ fun _ => ?_
  all_goals simp

theorem runReceive_goes (receive : ExtensionTokenReceive) (plan : ReceivePlan) :
    Goes (runReceive env block receive plan) := by
  unfold runReceive
  repeat' with_reducible refine goes_bind ?_ fun _ => ?_
  all_goals simp [tokenReceivableDel]

theorem runLeave_goes {record : LossPlan → TokenM Unit} (h : ∀ plan, Goes (record plan))
    (token : ExtensionTokenInfo) (value : TokenValue) (plan : LossPlan) :
    Goes (runLeave env block token value record plan) := by
  unfold runLeave
  repeat' with_reducible refine goes_bind ?_ fun _ => ?_
  all_goals simp [h]

theorem runSwapMake_goes (make : ExtensionTokenSwapMake) (plan : OrderPlan) :
    Goes (runSwapMake env block make plan) := by
  unfold runSwapMake observeId
  repeat' with_reducible first | refine goes_forId fun _ => ?_ | refine goes_bind ?_ fun _ => ?_
  all_goals simp [orderInfoPut, updateLedgerAccountOrdersInc_]

theorem runSwapInquiry_goes (inquiry : ExtensionTokenSwapInquiry) (plan : InquiryPlan) :
    Goes (runSwapInquiry env block inquiry plan) := by
  unfold runSwapInquiry
  repeat' with_reducible refine goes_bind ?_ fun _ => ?_
  all_goals simp [swapInfoPut, updateLedgerAccountTotalSwapsInc_, purgeInquiryWaiting_goes]

theorem runSwapInquiryAck_goes (ack : ExtensionTokenSwapInquiryAck) (plan : InquiryAckPlan) :
    Goes (runSwapInquiryAck env block ack plan) := by
  unfold runSwapInquiryAck
  repeat' with_reducible refine goes_bind ?_ fun _ => ?_
  all_goals simp [swapInfoPut, inquiryWaitingDel, updateLedgerAccountTotalSwapsInc_,
    updateLedgerAccountActiveSwapsInc_]

theorem runSwapTake_goes (inquiryHeight : Nat) (plan : TakePlan) :
    Goes (runSwapTake env block inquiryHeight plan) := by
  have hlate (takeAckBlock : Option Block) : Goes (settleLate env takeAckBlock) := by
    cases takeAckBlock with
    | none => exact goes_pure _
    | some b => exact purgeTakeWaiting_goes
  unfold runSwapTake
  repeat' with_reducible refine goes_bind ?_ fun _ => ?_
  all_goals simp [swapInfoPut, hlate]

@[simp] theorem closeOrder_goes (order : OrderInfo) (maker : Account) (orderHeight : Nat) :
    Goes (closeOrder env block order maker orderHeight) := by
  unfold closeOrder
  repeat' with_reducible refine goes_bind ?_ fun _ => ?_
  all_goals simp [orderIndexDel, updateLedgerAccountOrdersDec_]

@[simp] theorem updateLedgerSwapIndex_goes (order : OrderInfo) (swap : SwapInfo) (taker : Account)
    (inquiryHeight timestamp : Nat) :
    Goes (updateLedgerSwapIndex_ env order swap taker inquiryHeight timestamp) := by
  have hindex (token : TokenKey) : Goes (indexTokenSwap env taker inquiryHeight timestamp token) := by
    unfold indexTokenSwap
    repeat' with_reducible refine goes_bind ?_ fun _ => ?_
    all_goals simp
  unfold updateLedgerSwapIndex_
  repeat' with_reducible refine goes_bind ?_ fun _ => ?_
  all_goals simp [hindex]

theorem runSwapTakeAck_goes (ack : ExtensionTokenSwapTakeAck) (plan : TakeAckPlan) :
    Goes (runSwapTakeAck env block ack plan) := by
  unfold runSwapTakeAck
  repeat' with_reducible refine goes_bind ?_ fun _ => ?_
  all_goals simp [takeWaitingDel, swapInfoPut, orderInfoPut, updateLedgerAccountActiveSwapsDec_]

theorem runSwapCancel_goes (orderHeight : Nat) (plan : CancelPlan) :
    Goes (runSwapCancel env block orderHeight plan) := by
  unfold runSwapCancel
  repeat' with_reducible refine goes_bind ?_ fun _ => ?_
  all_goals simp [orderInfoPut]

theorem updateLedgerAccountSwapTime_goes (account : Account) (time : Nat)
    (get : AccountSwapInfo → Nat) (set : AccountSwapInfo → AccountSwapInfo) :
    Goes (updateLedgerAccountSwapTime env account time get set) := by
  unfold updateLedgerAccountSwapTime
  repeat' with_reducible first | refine goes_runIf ?_ | refine goes_bind ?_ fun _ => ?_
  all_goals simp

end Goes

section Handlers

variable {env : TokenEnv} {block : Block} {l : TokenLedger} {s s' : TokenSession} {α : Type}

theorem Goes.ne_waiting {p : TokenM α} (hp : Goes p) : p s ≠ .error .APP_PROCESS_WAITING s' :=
  fun h => hp s _ s' h rfl

theorem carryOut_waiting {plan : TokenLedger → Planning α} {run : α → TokenM Unit}
    (hrun : ∀ a, Goes (run a))
    (h : carryOut env block plan run s = .error .APP_PROCESS_WAITING s') :
    plan s.ledger = .error (.fail .APP_PROCESS_WAITING) := by
  unfold carryOut at h
  split at h
  · exact absurd h (hrun _).ne_waiting
  · exact absurd h (updateLedgerStatus_goes _ _).ne_waiting
  · rename_i code hplan
    cases h
    exact hplan

theorem carryOut_awaits {plan : TokenLedger → Planning α} {run : α → TokenM Unit}
    {obstacles : List Obstacle} (hrun : ∀ a, Goes (run a))
    (hplan : Awaits env s.ledger (plan s.ledger) obstacles)
    (h : carryOut env block plan run s = .error .APP_PROCESS_WAITING s') :
    (firstWaited env s.ledger obstacles).isSome :=
  hplan (carryOut_waiting hrun h)

-- A handler whose reads wait for nothing.
theorem carryOut_goes {plan : TokenLedger → Planning α} {run : α → TokenM Unit}
    (hrun : ∀ a, Goes (run a)) (hplan : ∀ l, plan l ≠ .error (.fail .APP_PROCESS_WAITING)) :
    Goes (carryOut env block plan run) := by
  intro s code s' h hcode
  subst hcode
  exact hplan _ (carryOut_waiting hrun h)

theorem processCreate_goes (create : ExtensionTokenCreate) :
    Goes (processCreate_ env block create) := by
  unfold processCreate_
  refine carryOut_goes (fun _ => ?_) fun l => refuseIf_ne_fail _ _ _
  cases create with
  | token20 create =>
      unfold createToken20
      repeat' with_reducible refine goes_bind ?_ fun _ => ?_
      all_goals simp
  | token721 create =>
      unfold createToken721
      repeat' with_reducible refine goes_bind ?_ fun _ => ?_
      all_goals simp

theorem mintPlan_ne_waiting (mint : ExtensionTokenMint) :
    mintPlan env block mint l ≠ .error (.fail .APP_PROCESS_WAITING) := by
  have hsupplies (token : TokenKey) (info : TokenInfo) (value : TokenValue) :
      mintedSupplies token info value ≠ .error (.fail .APP_PROCESS_WAITING) := by
    simp [mintedSupplies, Except.bind_eq_error, pure, Except.pure]
  have hid (token : TokenKey) (id : TokenValue) (uri : String) :
      mintedId l token id uri ≠ .error (.fail .APP_PROCESS_WAITING) := by
    unfold mintedId
    split <;> simp [Except.bind_eq_error, pure, Except.pure]
  intro h
  unfold mintPlan at h
  simp only [Except.bind_eq_error, orRefuse_ne_fail, refuseIf_ne_fail, false_or] at h
  obtain ⟨info, -, _, -, _, -, h⟩ := h
  cases htype : mint.type with
  | invalid =>
      rw [htype] at h
      cases h
  | t20 => simp [htype, Except.bind_eq_error, hsupplies, pure, Except.pure] at h
  | t721 => simp [htype, Except.bind_eq_error, hsupplies, hid, pure, Except.pure] at h

theorem burnPlan_ne_waiting (burn : ExtensionTokenBurn) :
    burnPlan env block burn l ≠ .error (.fail .APP_PROCESS_WAITING) := by
  intro h
  unfold burnPlan at h
  simp only [Except.bind_eq_error, orRefuse_ne_fail, refuseIf_ne_fail, orFail_eq_fail, reduceCtorEq,
    and_false, false_or] at h
  obtain ⟨info, -, _, -, _, -, held, -, h⟩ := h
  cases htype : burn.type with
  | invalid =>
      rw [htype] at h
      cases h
  | t20 => simp [htype, Except.bind_eq_error, pure, Except.pure] at h
  | t721 => simp [htype, Except.bind_eq_error, pure, Except.pure] at h

theorem heldToken_ne_waiting (token : ExtensionTokenInfo) :
    heldToken block l token ≠ .error (.fail .APP_PROCESS_WAITING) := by
  simp [heldToken, Except.bind_eq_error, pure, Except.pure]

theorem sendPlan_ne_waiting (send : ExtensionTokenSend) :
    sendPlan block send l ≠ .error (.fail .APP_PROCESS_WAITING) := by
  intro h
  unfold sendPlan at h
  rcases (Except.bind_eq_error _ _ _).mp h with h | ⟨⟨info, held⟩, -, h⟩
  · exact heldToken_ne_waiting _ h
  · dsimp only at h
    simp only [Except.bind_eq_error, refuseIf_ne_fail, false_or] at h
    obtain ⟨_, -, h⟩ := h
    cases htype : info.type with
    | invalid =>
        rw [htype] at h
        cases h
    | t20 => simp [htype, Except.bind_eq_error, pure, Except.pure] at h
    | t721 => simp [htype, Except.bind_eq_error, pure, Except.pure] at h

theorem leavePlan_ne_waiting (token : ExtensionTokenInfo) (value : TokenValue)
    (mark : TokenIdInfo → TokenIdInfo) :
    leavePlan block token value mark l ≠ .error (.fail .APP_PROCESS_WAITING) := by
  intro h
  unfold leavePlan at h
  rcases (Except.bind_eq_error _ _ _).mp h with h | ⟨⟨info, held⟩, -, h⟩
  · exact heldToken_ne_waiting _ h
  · dsimp only at h
    cases htype : info.type with
    | invalid =>
        rw [htype] at h
        cases h
    | t20 => simp [htype, Except.bind_eq_error, pure, Except.pure] at h
    | t721 => simp [htype, Except.bind_eq_error, pure, Except.pure] at h

theorem swapMakePlan_ne_waiting (make : ExtensionTokenSwapMake) :
    swapMakePlan env block make l ≠ .error (.fail .APP_PROCESS_WAITING) := by
  intro h
  unfold swapMakePlan at h
  simp only [Except.bind_eq_error, orRefuse_ne_fail, refuseIf_ne_fail, orFail_eq_fail, reduceCtorEq,
    and_false, false_or] at h
  obtain ⟨held, -, info, -, main, -, _, -, _, -, _, -, h⟩ := h
  cases htype : make.tokenOffer.type with
  | invalid =>
      rw [htype] at h
      cases h
  | t20 => simp [htype, Except.bind_eq_error, pure, Except.pure] at h
  | t721 => simp [htype, Except.bind_eq_error, pure, Except.pure] at h

theorem swapCancelPlan_ne_waiting (orderHeight : Nat) :
    swapCancelPlan block orderHeight l ≠ .error (.fail .APP_PROCESS_WAITING) := by
  simp [swapCancelPlan, Except.bind_eq_error, pure, Except.pure]

-- A WRAP to a chain that the application does not know.
def WrapsUnknown (content : TokenContent) : Prop :=
  ∃ wrap checked, content = .operation (.wrap wrap) checked ∧
    CheckWrapToChain wrap.toChain = some .TOKEN_WRAP_TO_UNKNOWN_CHAIN

theorem processWrap_waiting {wrap : ExtensionTokenWrap}
    (h : processWrap_ env block wrap s = .error .APP_PROCESS_WAITING s') :
    CheckWrapToChain wrap.toChain = some .TOKEN_WRAP_TO_UNKNOWN_CHAIN := by
  have hplan := carryOut_waiting (fun plan => runLeave_goes (fun plan => by simp [putWrapInfo]) _ _ _) h
  rcases (Except.bind_eq_error _ _ _).mp hplan with hplan | ⟨_, -, hplan⟩
  · unfold wrapChain at hplan
    split at hplan
    · cases hplan
    · rename_i code hcheck
      simp only [Except.bind_eq_error, failIf_eq_fail, and_true] at hplan
      rcases hplan with rfl | ⟨_, -, hplan⟩
      · exact hcheck
      · cases hplan
  · exact absurd hplan (leavePlan_ne_waiting _ _ _)

theorem processSwap_waiting {swap : ExtensionTokenSwap}
    (h : processSwap_ env block swap s = .error .APP_PROCESS_WAITING s') :
    (firstWaited env s.ledger (swapObstacles block s.ledger swap)).isSome := by
  cases swap with
  | config main =>
      unfold processSwap_ processSwapConfig_ at h
      refine absurd h (carryOut_goes (fun _ => ?_) fun l => refuseIf_ne_fail _ _ _).ne_waiting
      repeat' with_reducible refine goes_bind ?_ fun _ => ?_
      all_goals simp
  | make data =>
      exact absurd h (carryOut_goes (runSwapMake_goes data) fun _ =>
        swapMakePlan_ne_waiting data).ne_waiting
  | inquiry data => exact carryOut_awaits (runSwapInquiry_goes data) (swapInquiryPlan_awaits data) h
  | inquiryAck data =>
      exact carryOut_awaits (runSwapInquiryAck_goes data) (swapInquiryAckPlan_awaits data) h
  | take height => exact carryOut_awaits (runSwapTake_goes height) (swapTakePlan_awaits height) h
  | takeAck data => exact carryOut_awaits (runSwapTakeAck_goes data) (swapTakeAckPlan_awaits data) h
  | takeNack taker height =>
      exact carryOut_awaits (fun _ => updateLedgerStatus_goes _ _)
        (swapTakeNackPlan_awaits taker height) h
  | cancel height =>
      exact absurd h (carryOut_goes (runSwapCancel_goes height) fun _ =>
        swapCancelPlan_ne_waiting height).ne_waiting
  | ping maker =>
      exact absurd h (goes_bind (updateLedgerAccountSwapTime_goes _ _ _ _) fun _ =>
        updateLedgerStatus_goes _ _).ne_waiting
  | pong =>
      exact absurd h (goes_bind (updateLedgerAccountSwapTime_goes _ _ _ _) fun _ =>
        updateLedgerStatus_goes _ _).ne_waiting

theorem processOperation_waiting {token : ExtensionToken}
    (h : processOperation env block token s = .error .APP_PROCESS_WAITING s') :
    (firstWaited env s.ledger (operationObstacles block s.ledger token)).isSome ∨
      ∃ wrap, token = .wrap wrap ∧
        CheckWrapToChain wrap.toChain = some .TOKEN_WRAP_TO_UNKNOWN_CHAIN := by
  cases token with
  | create data => exact absurd h (processCreate_goes data).ne_waiting
  | mint data =>
      exact absurd h (carryOut_goes (runMint_goes data) fun _ => mintPlan_ne_waiting data).ne_waiting
  | burn data =>
      exact absurd h (carryOut_goes (runBurn_goes data) fun _ => burnPlan_ne_waiting data).ne_waiting
  | send data =>
      exact absurd h (carryOut_goes (runSend_goes data) fun _ => sendPlan_ne_waiting data).ne_waiting
  | receive data =>
      exact .inl (carryOut_awaits (runReceive_goes data) (receivePlan_awaits data) h)
  | swap data => exact .inl (processSwap_waiting h)
  | unmap data =>
      exact absurd h (carryOut_goes (runLeave_goes (fun _ => by simp [putUnmapInfo]) _ _) fun _ =>
        leavePlan_ne_waiting _ _ _).ne_waiting
  | wrap data => exact .inr ⟨data, rfl, processWrap_waiting h⟩

theorem processToken_waiting {content : TokenContent}
    (h : processToken env block content s = .error .APP_PROCESS_WAITING s') :
    (waitedFor env block content true s.ledger).isSome ∨ WrapsUnknown content := by
  unfold processToken at h
  rcases (Process.bind_eq_error _ _ _ _ _).mp h with h | ⟨reentry, mid, hok, h⟩
  · exact absurd h goes_read.ne_waiting
  · obtain ⟨hreentry, rfl⟩ := (query_eq_ok _ _).mp hok
    cases hreentry
    unfold runIf at h
    split at h
    · rename_i hnew
      rw [waitedFor, if_neg (by simp [hnew])]
      cases content with
      | none => exact absurd h (goes_pure ()).ne_waiting
      | many => exact absurd h (updateLedgerStatus_goes _ _).ne_waiting
      | broken code => exact absurd h (updateLedgerStatus_goes _ _).ne_waiting
      | operation token checked =>
          rcases processOperation_waiting h with hfirst | ⟨wrap, rfl, hunknown⟩
          · exact .inl hfirst
          · exact .inr ⟨wrap, checked, rfl, hunknown⟩
    · exact absurd h (goes_pure ()).ne_waiting

theorem whenConfirmed_goes {confirmed : Bool} {p : TokenM Unit} (hp : Goes p) :
    Goes (whenConfirmed confirmed p) :=
  goes_bind (goes_guard (by decide)) fun _ => hp

-- The code WAITING has no other reason.
theorem afterBlockAppend_waiting {content : TokenContent} {confirmed : Bool}
    (h : afterBlockAppend env block content confirmed (.init l) = .error .APP_PROCESS_WAITING s') :
    (waitedFor env block content confirmed l).isSome ∨ WrapsUnknown content := by
  unfold afterBlockAppend at h
  rcases (Process.bind_eq_error _ _ _ _ _).mp h with h | ⟨_, mid, hcredit, h⟩
  · exact absurd h (goes_runIf goes_observe).ne_waiting
  have hledger : mid.ledger = l := by
    rcases (Process.runIf_eq_ok _ _ _ _ _).mp hcredit with ⟨-, hobserved⟩ | ⟨-, rfl⟩
    · rw [← (observe_eq_ok _ _).mp hobserved]
      rfl
    · rfl
  rcases (Process.bind_eq_error _ _ _ _ _).mp h with h | ⟨_, mid', -, h⟩
  · unfold runIf at h
    split at h
    · rcases (Process.bind_eq_error _ _ _ _ _).mp h with h | ⟨_, mid', hconfirmed, h⟩
      · exact absurd h (goes_guard (by decide)).ne_waiting
      · obtain ⟨hguard, rfl⟩ := (query_eq_ok _ _).mp hconfirmed
        have htrue : confirmed = true := by
          rw [returnIf_eq_ok] at hguard
          simpa using hguard
        rw [← hledger, htrue]
        exact processToken_waiting h
    · exact absurd h (goes_pure ()).ne_waiting
  · refine absurd h (Goes.ne_waiting ?_)
    refine goes_bind goes_read fun _ => goes_bind
      (goes_runIf (whenConfirmed_goes (purgeInquiryWaiting_goes _ _))) fun _ => ?_
    exact goes_bind goes_read fun _ => goes_runIf (whenConfirmed_goes purgeTakeWaiting_goes)

end Handlers

end Raicoin
