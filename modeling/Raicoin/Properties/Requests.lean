import Mathlib.Data.List.Count
import Raicoin.Node.BlockProcessor.Replay
import Raicoin.Wallet.Requests

-- The wallet service does each request once, in the order in which they come, and tells of each once.
namespace Raicoin

open Lib

-- Where `Run` is neither about to call the wallet nor to call back.
def RunPoint.Quiet {ρ : Type} : RunPoint ρ → Prop
  | .sending _ => False
  | .asking _ _ => False
  | _ => True

-- Where `Run` has seen that the wallet is free.
def RunPoint.Free {ρ : Type} : RunPoint ρ → Prop
  | .autoCredit => True
  | .autoReceive => True
  | .requests => True
  | _ => False

namespace WalletRpc

variable {ρ : Type} {env : Env} {config : WalletRpcConfig ρ} {s s' : WalletRpc ρ}

-- The actions that a result of the wallet is still to come for.
def pendingWallet (s : WalletRpc ρ) : List Nat :=
  (match s.point with
    | .asking sequence _ => [sequence]
    | _ => []) ++ s.asked

-- The messages that an answer is still to come for.
def pendingCallbacks (s : WalletRpc ρ) : List (RpcCallback ρ) :=
  (match s.point with
    | .sending callback => [callback]
    | _ => []) ++ s.posted

theorem pendingWallet_quiet (h : s.point.Quiet) : s.pendingWallet = s.asked := by
  unfold pendingWallet
  cases hpoint : s.point with
  | asking sequence call =>
      rw [hpoint] at h
      cases h
  | _ => rfl

theorem pendingCallbacks_quiet (h : s.point.Quiet) : s.pendingCallbacks = s.posted := by
  unfold pendingCallbacks
  cases hpoint : s.point with
  | sending callback =>
      rw [hpoint] at h
      cases h
  | _ => rfl

-- A message says what has come of the action.
def Tells (message : CallbackMessage ρ) (action : WalletRpcAction ρ) : Prop :=
  message.notify = action.desc ∧ message.request = action.request ∧
    action.result = some (message.outcome.map fun found => found.1)

-- One action at most has no result, and that is the last one, which the wallet is at.
structure Tasks (s : WalletRpc ρ) : Prop where
  idle : s.waitingWallet = false → s.pendingWallet = [] ∧ ∀ action ∈ s.actions, action.result ≠ none
  waiting : s.waitingWallet = true → ∃ front last, s.actions = front ++ [last] ∧ last.result = none ∧
    s.pendingWallet = [last.sequence] ∧ ∀ action ∈ front, action.result ≠ none
  free : s.point.Free → s.waitingWallet = false
  distinct : (s.actions.map WalletRpcAction.sequence).Nodup
  below : ∀ action ∈ s.actions, action.sequence < s.sequence

-- One message at most is on its way, and it tells of the first action.
structure Calls (s : WalletRpc ρ) : Prop where
  silent : s.waitingCallback = false → s.pendingCallbacks = []
  calling : s.waitingCallback = true → ∃ first rest callback, s.actions = first :: rest ∧
    s.pendingCallbacks = [callback] ∧ callback.about = first.sequence ∧ Tells callback.message first

theorem empty_tasks : Tasks (.empty : WalletRpc ρ) where
  idle _ := ⟨rfl, fun _ h => (by cases h)⟩
  waiting h := by cases h
  free h := by cases h
  distinct := .nil
  below _ h := by cases h

theorem empty_calls : Calls (.empty : WalletRpc ρ) where
  silent _ := rfl
  calling h := by cases h

-- What the two sides look at.
theorem Tasks.congr (h : s.Tasks) (hactions : s'.actions = s.actions) (hsequence : s'.sequence = s.sequence)
    (hwaiting : s'.waitingWallet = s.waitingWallet) (hpending : s'.pendingWallet = s.pendingWallet)
    (hfree : s'.point.Free → s.waitingWallet = false) : s'.Tasks where
  idle := by
    rw [hwaiting, hpending, hactions]
    exact h.idle
  waiting := by
    rw [hwaiting, hpending, hactions]
    exact h.waiting
  free hpoint := by
    rw [hwaiting]
    exact hfree hpoint
  distinct := by
    rw [hactions]
    exact h.distinct
  below := by
    rw [hactions, hsequence]
    exact h.below

theorem Calls.congr (h : s.Calls) (hactions : s'.actions = s.actions)
    (hwaiting : s'.waitingCallback = s.waitingCallback)
    (hpending : s'.pendingCallbacks = s.pendingCallbacks) : s'.Calls where
  silent := by
    rw [hwaiting, hpending]
    exact h.silent
  calling := by
    rw [hwaiting, hpending, hactions]
    exact h.calling

-- The first action is another one behind the same number, and both have results.
theorem Tasks.replace (h : s.Tasks) {first first' : WalletRpcAction ρ} {rest : List (WalletRpcAction ρ)}
    (hold : s.actions = first :: rest) (hnew : s'.actions = first' :: rest)
    (hsame : first'.sequence = first.sequence) (hdone : first.result ≠ none)
    (hdone' : first'.result ≠ none) (hsequence : s'.sequence = s.sequence)
    (hwaiting : s'.waitingWallet = s.waitingWallet) (hpending : s'.pendingWallet = s.pendingWallet)
    (hfree : s'.point.Free → s.waitingWallet = false) : s'.Tasks where
  idle hidle := by
    obtain ⟨hnone, hall⟩ := h.idle (hwaiting ▸ hidle)
    refine ⟨hpending.trans hnone, fun action haction => ?_⟩
    rw [hold] at hall
    rw [hnew] at haction
    rcases List.mem_cons.mp haction with rfl | haction
    · exact hdone'
    · exact hall action (List.mem_cons_of_mem _ haction)
  waiting hwait := by
    obtain ⟨front, last, hactions, hlast, hasked, hall⟩ := h.waiting (hwaiting ▸ hwait)
    rw [hold] at hactions
    cases front with
    | nil =>
        obtain ⟨rfl, -⟩ := List.cons.inj hactions
        exact absurd hlast hdone
    | cons other front =>
        obtain ⟨rfl, rfl⟩ := List.cons.inj hactions
        refine ⟨first' :: front, last, hnew, hlast, hpending.trans hasked, fun action haction => ?_⟩
        rcases List.mem_cons.mp haction with rfl | haction
        · exact hdone'
        · exact hall action (List.mem_cons_of_mem _ haction)
  free hpoint := by
    rw [hwaiting]
    exact hfree hpoint
  distinct := by
    have hdistinct := h.distinct
    rw [hold] at hdistinct
    rw [hnew, List.map_cons, hsame]
    exact hdistinct
  below action haction := by
    rw [hsequence]
    rw [hnew] at haction
    rcases List.mem_cons.mp haction with rfl | haction
    · rw [hsame]
      exact h.below first (hold ▸ List.mem_cons_self)
    · exact h.below action (hold ▸ List.mem_cons_of_mem _ haction)

-- The first action goes.
theorem Tasks.leave (h : s.Tasks) {first : WalletRpcAction ρ} {rest : List (WalletRpcAction ρ)}
    (hold : s.actions = first :: rest) (hnew : s'.actions = rest) (hdone : first.result ≠ none)
    (hsequence : s'.sequence = s.sequence) (hwaiting : s'.waitingWallet = s.waitingWallet)
    (hpending : s'.pendingWallet = s.pendingWallet)
    (hfree : s'.point.Free → s.waitingWallet = false) : s'.Tasks where
  idle hidle := by
    obtain ⟨hnone, hall⟩ := h.idle (hwaiting ▸ hidle)
    refine ⟨hpending.trans hnone, fun action haction => hall action ?_⟩
    rw [hold]
    exact List.mem_cons_of_mem _ (hnew ▸ haction)
  waiting hwait := by
    obtain ⟨front, last, hactions, hlast, hasked, hall⟩ := h.waiting (hwaiting ▸ hwait)
    rw [hold] at hactions
    cases front with
    | nil =>
        obtain ⟨rfl, -⟩ := List.cons.inj hactions
        exact absurd hlast hdone
    | cons other front =>
        obtain ⟨rfl, rfl⟩ := List.cons.inj hactions
        exact ⟨front, last, hnew, hlast, hpending.trans hasked,
          fun action haction => hall action (List.mem_cons_of_mem _ haction)⟩
  free hpoint := by
    rw [hwaiting]
    exact hfree hpoint
  distinct := by
    have hdistinct := h.distinct
    rw [hold, List.map_cons, List.nodup_cons] at hdistinct
    rw [hnew]
    exact hdistinct.2
  below action haction := by
    rw [hsequence]
    exact h.below action (hold ▸ List.mem_cons_of_mem _ (hnew ▸ haction))

-- A new action, when the wallet is free.
theorem quiet_of_free {point : RunPoint ρ} (h : point.Free) : point.Quiet := by
  cases point with
  | sending callback => cases h
  | asking sequence call => cases h
  | _ => trivial

theorem Tasks.begin (h : s.Tasks) (hfree : s.point.Free) (requests : List ρ) (desc : String)
    (request : Option ρ) (call : WalletCall ρ) :
    ({ s with requests }.begin desc request call).Tasks := by
  obtain ⟨hpending, hdone⟩ := h.idle (h.free hfree)
  rw [pendingWallet_quiet (quiet_of_free hfree)] at hpending
  refine ⟨fun hidle => (by cases hidle), fun _ => ⟨s.actions, _, rfl, rfl, ?_, hdone⟩,
    fun h => (by cases h), ?_, fun action haction => ?_⟩
  · change [s.sequence] ++ s.asked = _
    rw [hpending]
    rfl
  · change ((s.actions ++ [_]).map WalletRpcAction.sequence).Nodup
    rw [List.map_append]
    refine List.nodup_append.mpr ⟨h.distinct, List.nodup_singleton _, fun a ha b hb heq => ?_⟩
    obtain ⟨action, haction, rfl⟩ := List.mem_map.mp ha
    have hlt := h.below action haction
    rw [List.mem_singleton.mp hb] at heq
    exact absurd heq (Nat.ne_of_lt hlt)
  · rcases List.mem_append.mp haction with hold | hnew
    · exact Nat.lt_succ_of_lt (h.below action hold)
    · rw [List.mem_singleton.mp hnew]
      exact Nat.lt_succ_self _

theorem Calls.begin (h : s.Calls) (hfree : s.point.Free) (requests : List ρ) (desc : String)
    (request : Option ρ) (call : WalletCall ρ) :
    ({ s with requests }.begin desc request call).Calls := by
  have hposted := pendingCallbacks_quiet (quiet_of_free hfree)
  refine ⟨fun hsilent => hposted.symm.trans (h.silent hsilent), fun hcalling => ?_⟩
  obtain ⟨first, rest, callback, hactions, hcallbacks, habout, htells⟩ := h.calling hcalling
  refine ⟨first, rest ++ [⟨s.sequence, false, 0, none, desc, request⟩], callback, ?_,
    hposted.symm.trans hcallbacks, habout, htells⟩
  change s.actions ++ [_] = _
  rw [hactions]
  rfl

-- The result of the wallet is for the last action.
theorem Tasks.result (h : s.Tasks) {sequence : Nat} (hpending : s.pendingWallet = [sequence])
    {result : ActionResult} (hactions : s'.actions = s.actions.map fun action =>
      if action.sequence = sequence then { action with result := some result } else action)
    (hsequence : s'.sequence = s.sequence) (hwaiting : s'.waitingWallet = false)
    (hnone : s'.pendingWallet = []) :
    s'.Tasks ∧ ∃ front last, s.actions = front ++ [last] ∧ last.result = none ∧
      s'.actions = front ++ [{ last with result := some result }] := by
  have hwait : s.waitingWallet = true := by
    by_contra hidle
    rw [(h.idle (Bool.eq_false_iff.mpr hidle)).1] at hpending
    cases hpending
  obtain ⟨front, last, hold, hlast, hasked, hall⟩ := h.waiting hwait
  obtain rfl : last.sequence = sequence := List.head_eq_of_cons_eq (hasked.symm.trans hpending)
  have hdistinct := h.distinct
  rw [hold, List.map_append, List.map_singleton] at hdistinct
  have hothers : ∀ action ∈ front, action.sequence ≠ last.sequence := fun action haction heq =>
    (List.nodup_append.mp hdistinct).2.2 _ (List.mem_map_of_mem haction) _
      (List.mem_singleton_self _) heq
  have hnew : s'.actions = front ++ [{ last with result := some result }] := by
    rw [hactions, hold, List.map_append, List.map_singleton, if_pos rfl]
    congr 1
    refine (List.map_congr_left fun action haction => ?_).trans (List.map_id front)
    exact if_neg (hothers action haction)
  refine ⟨⟨fun _ => ⟨hnone, fun action haction => ?_⟩, fun htrue => ?_, fun _ => hwaiting, ?_,
    fun action haction => ?_⟩, front, last, hold, hlast, hnew⟩
  · rw [hnew] at haction
    rcases List.mem_append.mp haction with hmem | hmem
    · exact hall action hmem
    · rw [List.mem_singleton.mp hmem]
      exact Option.some_ne_none _
  · rw [hwaiting] at htrue
    cases htrue
  · rw [hnew, List.map_append]
    exact hdistinct
  · rw [hsequence]
    rw [hnew] at haction
    rcases List.mem_append.mp haction with hmem | hmem
    · exact h.below action (hold ▸ List.mem_append_left _ hmem)
    · rw [List.mem_singleton.mp hmem]
      exact h.below last (hold ▸ List.mem_append_right _ (List.mem_singleton_self _))

theorem Calls.result (h : s.Calls) {front : List (WalletRpcAction ρ)} {last last' : WalletRpcAction ρ}
    (hold : s.actions = front ++ [last]) (hlast : last.result = none)
    (hnew : s'.actions = front ++ [last']) (hwaiting : s'.waitingCallback = s.waitingCallback)
    (hpending : s'.pendingCallbacks = s.pendingCallbacks) : s'.Calls where
  silent := by
    rw [hwaiting, hpending]
    exact h.silent
  calling hcalling := by
    obtain ⟨first, rest, callback, hactions, hcallbacks, habout, htells⟩ :=
      h.calling (hwaiting ▸ hcalling)
    rw [hold] at hactions
    cases front with
    | nil =>
        obtain ⟨rfl, -⟩ := List.cons.inj hactions
        rw [htells.2.2] at hlast
        cases hlast
    | cons other front =>
        obtain ⟨rfl, -⟩ := List.cons.inj hactions
        exact ⟨other, front ++ [last'], callback, hnew, hpending.trans hcallbacks, habout, htells⟩

-- What is sent is what has come of the action; a block is sent once it is confirmed.
theorem pendingOf_send {view : LedgerView} {action : WalletRpcAction ρ} {message : CallbackMessage ρ}
    (h : pendingOf env view action = .send message) : Tells message action ∧
      ∀ found, message.outcome = .ok found → ∃ store, view.store = some store ∧
        store.blockExists (env.hash found.1) = true ∧ blockConfirmed store found.1 = true := by
  unfold pendingOf at h
  cases hresult : action.result with
  | none =>
      rw [hresult] at h
      cases h
  | some result =>
      rw [hresult] at h
      dsimp only at h
      split_ifs at h with hearly
      cases result with
      | error code =>
          cases h
          exact ⟨⟨rfl, rfl, hresult⟩, fun found hfound => (by cases hfound)⟩
      | ok block =>
          cases hstore : view.store with
          | none =>
              rw [hstore] at h
              cases h
          | some store =>
              rw [hstore] at h
              dsimp only at h
              split_ifs at h with hexists hconfirmed
              cases h
              refine ⟨⟨rfl, rfl, hresult⟩, fun found hfound => ?_⟩
              cases hfound
              exact ⟨store, rfl, Bool.eq_true_of_not_eq_false hexists,
                Bool.eq_true_of_not_eq_false hconfirmed⟩

theorem pendingOf_missing {view : LedgerView} {action : WalletRpcAction ρ}
    (h : pendingOf env view action = .missing) : action.result ≠ none := by
  intro hnone
  unfold pendingOf at h
  rw [hnone] at h
  cases h

-- What `ProcessPendings_` does.
inductive Pended (env : Env) (view : LedgerView) (s : WalletRpc ρ) : WalletRpc ρ → Prop where
  | stay : Pended env view s { s with point := .waiting }
  | missing {action : WalletRpcAction ρ} {rest : List (WalletRpcAction ρ)}
      (hactions : s.actions = action :: rest) (hfree : s.waitingCallback = false)
      (hdone : action.result ≠ none) :
      Pended env view s { s with
        actions := { action with result := some (.error .LEDGER_BLOCK_GET) } :: rest
        point := .pendings }
  | send {action : WalletRpcAction ρ} {rest : List (WalletRpcAction ρ)} {message : CallbackMessage ρ}
      (hactions : s.actions = action :: rest) (hfree : s.waitingCallback = false)
      (hsend : pendingOf env view action = .send message) :
      Pended env view s { s with
        actions := { action with callbackError := false, lastCallback := view.now } :: rest
        waitingCallback := true
        point := .sending ⟨action.sequence, message⟩ }

theorem processPendings_pended (view : LedgerView) : Pended env view s (s.processPendings env view) := by
  unfold processPendings
  split
  · exact .stay
  · next action rest hactions =>
      split_ifs with hwaiting
      · exact .stay
      · have hfree := Bool.eq_false_iff.mpr hwaiting
        cases hpending : pendingOf env view action with
        | stay => exact .stay
        | missing => exact .missing hactions hfree (pendingOf_missing hpending)
        | send message => exact .send hactions hfree hpending

theorem Tasks.pended {view : LedgerView} (h : s.Tasks) (hpoint : s.point = .pendings)
    (hpended : Pended env view s s') : s'.Tasks := by
  have hasked : s.pendingWallet = s.asked := pendingWallet_quiet (by rw [hpoint]; trivial)
  cases hpended with
  | stay => exact h.congr rfl rfl rfl hasked.symm fun hfree => (by cases hfree)
  | missing hactions hfree hdone =>
      exact h.replace hactions rfl rfl hdone (Option.some_ne_none _) rfl rfl hasked.symm
        fun hfree => (by cases hfree)
  | send hactions hfree hsend =>
      have hdone := (pendingOf_send hsend).1.2.2
      exact h.replace hactions rfl rfl (by rw [hdone]; exact Option.some_ne_none _)
        (by rw [hdone]; exact Option.some_ne_none _) rfl rfl hasked.symm fun hfree => (by cases hfree)

theorem Calls.pended {view : LedgerView} (h : s.Calls) (hpoint : s.point = .pendings)
    (hpended : Pended env view s s') : s'.Calls := by
  have hposted : s.pendingCallbacks = s.posted := pendingCallbacks_quiet (by rw [hpoint]; trivial)
  cases hpended with
  | stay => exact h.congr rfl rfl hposted.symm
  | missing hactions hfree hdone =>
      refine ⟨fun _ => hposted.symm.trans (h.silent hfree), fun hcalling => ?_⟩
      rw [hfree] at hcalling
      cases hcalling
  | @send action rest message hactions hfree hsend =>
      refine ⟨fun hsilent => (by cases hsilent), fun _ => ⟨_, rest, ⟨action.sequence, message⟩, rfl,
        ?_, rfl, (pendingOf_send hsend).1⟩⟩
      change [_] ++ s.posted = _
      rw [← hposted, h.silent hfree]
      rfl

theorem Calls.busy (h : s.Calls) {callback : RpcCallback ρ} (hmem : callback ∈ s.pendingCallbacks) :
    s.pendingCallbacks = [callback] ∧ ∃ first rest, s.actions = first :: rest ∧
      callback.about = first.sequence ∧ Tells callback.message first := by
  have hcalling : s.waitingCallback = true := by
    by_contra hsilent
    rw [h.silent (Bool.eq_false_iff.mpr hsilent)] at hmem
    cases hmem
  obtain ⟨first, rest, found, hactions, hpending, habout, htells⟩ := h.calling hcalling
  rw [hpending, List.mem_singleton] at hmem
  subst hmem
  exact ⟨hpending, first, rest, hactions, habout, htells⟩

theorem done_of_tells {message : CallbackMessage ρ} {action : WalletRpcAction ρ}
    (h : Tells message action) : action.result ≠ none := by
  rw [h.2.2]
  exact Option.some_ne_none _

-- The answer to a message, of which none is left then.
theorem Tasks.answered (h : s.Tasks) {first : WalletRpcAction ρ} {rest : List (WalletRpcAction ρ)}
    (hactions : s.actions = first :: rest) (hdone : first.result ≠ none) (success : Bool)
    (hnew : s'.actions = if success then rest else { first with callbackError := true } :: rest)
    (hsequence : s'.sequence = s.sequence) (hwaiting : s'.waitingWallet = s.waitingWallet)
    (hpending : s'.pendingWallet = s.pendingWallet)
    (hfree : s'.point.Free → s.waitingWallet = false) : s'.Tasks := by
  cases success with
  | true => exact h.leave hactions hnew hdone hsequence hwaiting hpending hfree
  | false => exact h.replace hactions hnew rfl hdone hdone hsequence hwaiting hpending hfree

theorem processCallbackResult_actions {first : WalletRpcAction ρ} {rest : List (WalletRpcAction ρ)}
    (hactions : s.actions = first :: rest) (success : Bool) :
    (s.processCallbackResult success).actions =
      if success then rest else { first with callbackError := true } :: rest := by
  unfold processCallbackResult
  rw [hactions]

-- A list of one that has been put together of two.
theorem single_append {α : Type} {front back : List α} {a : α} (h : front ++ back = [a])
    (hback : back ≠ []) : front = [] ∧ back = [a] := by
  rcases List.append_eq_singleton_iff.mp h with hsplit | ⟨-, hnil⟩
  · exact hsplit
  · exact absurd hnil hback

theorem Tasks.busy (h : s.Tasks) {sequence : Nat} (hmem : sequence ∈ s.pendingWallet) :
    s.pendingWallet = [sequence] := by
  have hwaiting : s.waitingWallet = true := by
    by_contra hidle
    rw [(h.idle (Bool.eq_false_iff.mpr hidle)).1] at hmem
    cases hmem
  obtain ⟨front, last, -, -, hpending, -⟩ := h.waiting hwaiting
  rw [hpending, List.mem_singleton] at hmem
  rw [hpending, hmem]

-- What the service is waiting for, at each step.
structure Orderly (s : WalletRpc ρ) : Prop where
  tasks : s.Tasks
  calls : s.Calls

theorem Orderly.moves (h : s.Orderly) (hquiet : s.point.Quiet) {point : RunPoint ρ} (hpoint : point.Quiet)
    (hfree : point.Free → s.waitingWallet = false) : Orderly { s with point } where
  tasks := h.tasks.congr rfl rfl rfl ((pendingWallet_quiet hpoint).trans (pendingWallet_quiet hquiet).symm)
    hfree
  calls := h.calls.congr rfl rfl ((pendingCallbacks_quiet hpoint).trans (pendingCallbacks_quiet hquiet).symm)

theorem Orderly.begin (h : s.Orderly) (hfree : s.point.Free) (requests : List ρ) (desc : String)
    (request : Option ρ) (call : WalletCall ρ) :
    ({ s with requests }.begin desc request call).Orderly :=
  ⟨h.tasks.begin hfree requests desc request call, h.calls.begin hfree requests desc request call⟩

-- A message that has been made is the only one.
theorem Orderly.sending (h : s.Orderly) {callback : RpcCallback ρ} (hpoint : s.point = .sending callback) :
    s.posted = [] ∧ ∃ first rest, s.actions = first :: rest ∧ callback.about = first.sequence ∧
      Tells callback.message first := by
  have hpending : s.pendingCallbacks = [callback] ++ s.posted := by
    unfold pendingCallbacks
    rw [hpoint]
  obtain ⟨hone, hfirst⟩ := h.calls.busy (hpending ▸ List.mem_append_left _ (List.mem_singleton_self _))
  rw [hpending] at hone
  exact ⟨List.append_right_eq_self.mp hone, hfirst⟩

theorem Orderly.sendCallback (h : s.Orderly) {callback : RpcCallback ρ} (hpoint : s.point = .sending callback)
    (taken : Bool) : (s.sendCallback callback taken).Orderly := by
  obtain ⟨hposted, first, rest, hactions, -, htells⟩ := h.sending hpoint
  have hasked : s.pendingWallet = s.asked := by
    unfold pendingWallet
    rw [hpoint]
    rfl
  cases taken with
  | true =>
      refine ⟨h.tasks.congr rfl rfl rfl hasked.symm fun hfree => (by cases hfree),
        h.calls.congr rfl rfl ?_⟩
      unfold pendingCallbacks
      rw [hpoint]
      change [] ++ (s.posted ++ [callback]) = [callback] ++ s.posted
      rw [hposted]
      rfl
  | false =>
      refine ⟨h.tasks.answered hactions (done_of_tells htells) false
        (processCallbackResult_actions hactions false) rfl rfl hasked.symm fun hfree => (by cases hfree),
        fun _ => hposted, fun hcalling => (by cases hcalling)⟩

theorem Orderly.callbackResult (h : s.Orderly) {which : Nat} (hwhich : which < s.posted.length)
    (success : Bool) :
    ({ s with posted := s.posted.eraseIdx which }.processCallbackResult success).Orderly ∧
      ∃ callback first rest, s.posted[which]? = some callback ∧ s.posted = [callback] ∧
        s.actions = first :: rest ∧ callback.about = first.sequence := by
  have hmem : s.posted[which] ∈ s.pendingCallbacks := List.mem_append_right _ (List.getElem_mem hwhich)
  obtain ⟨hone, first, rest, hactions, habout, htells⟩ := h.calls.busy hmem
  obtain ⟨hpoint, hposted⟩ := single_append hone (List.ne_nil_of_length_pos (by omega))
  have herased : s.posted.eraseIdx which = [] := by
    refine List.eq_nil_of_length_eq_zero ?_
    have hlength := congrArg List.length hposted
    rw [List.length_singleton] at hlength
    rw [List.length_eraseIdx_of_lt hwhich, hlength]
  refine ⟨⟨h.tasks.answered hactions (done_of_tells htells) success
    (processCallbackResult_actions hactions success) rfl rfl rfl h.tasks.free, fun _ => ?_,
    fun hcalling => (by cases hcalling)⟩, _, first, rest, List.getElem?_eq_getElem hwhich, hposted,
    hactions, habout⟩
  change _ ++ s.posted.eraseIdx which = _
  rw [herased, List.append_nil]
  exact hpoint

theorem Orderly.accountResult (h : s.Orderly) {sequence : Nat} (hpending : s.pendingWallet = [sequence])
    (result : ActionResult) (hsame : s'.actions = s.actions) (hsequence : s'.sequence = s.sequence)
    (hcallback : s'.waitingCallback = s.waitingCallback)
    (hcallbacks : s'.pendingCallbacks = s.pendingCallbacks) (hnone : s'.pendingWallet = []) :
    (s'.processAccountActionResult result sequence).Orderly := by
  obtain ⟨htasks, front, last, hold, hlast, hnew⟩ := @Tasks.result _ s
    (s'.processAccountActionResult result sequence) h.tasks sequence hpending result
    (by rw [← hsame]; rfl) hsequence rfl hnone
  exact ⟨htasks, h.calls.result hold hlast hnew hcallback hcallbacks⟩

theorem Orderly.asking (h : s.Orderly) {sequence : Nat} {call : WalletCall ρ}
    (hpoint : s.point = .asking sequence call) : s.pendingWallet = [sequence] ∧ s.asked = [] := by
  have hpending : s.pendingWallet = [sequence] ++ s.asked := by
    unfold pendingWallet
    rw [hpoint]
  have hone := h.tasks.busy (hpending ▸ List.mem_append_left _ (List.mem_singleton_self _))
  refine ⟨hone, ?_⟩
  rw [hpending] at hone
  exact List.append_right_eq_self.mp hone

theorem Orderly.ask (h : s.Orderly) {sequence : Nat} {call : WalletCall ρ}
    (hpoint : s.point = .asking sequence call) (code : ActionCode) :
    (s.ask config sequence call code).Orderly := by
  obtain ⟨hpending, hasked⟩ := h.asking hpoint
  have hcallbacks : s.pendingCallbacks = s.posted := by
    unfold pendingCallbacks
    rw [hpoint]
    rfl
  unfold WalletRpc.ask
  generalize (if refused config call = .SUCCESS then code else refused config call) = answer
  dsimp only
  split_ifs
  · refine ⟨h.tasks.congr rfl rfl rfl ?_ fun hfree => (by cases hfree),
      h.calls.congr rfl rfl hcallbacks.symm⟩
    change [] ++ (s.asked ++ [sequence]) = _
    rw [hasked, hpending]
    rfl
  · exact @Orderly.accountResult _ s { s with point := .pendings } h sequence hpending _ rfl rfl rfl
      hcallbacks.symm hasked

theorem Orderly.walletResult (h : s.Orderly) {which : Nat} (hwhich : which < s.asked.length)
    (result : ActionResult) : ({ s with asked := s.asked.eraseIdx which }.processAccountActionResult
      result s.asked[which]).Orderly := by
  have hmem : s.asked[which] ∈ s.pendingWallet := List.mem_append_right _ (List.getElem_mem hwhich)
  have hone := h.tasks.busy hmem
  obtain ⟨hpoint, hasked⟩ := single_append hone (List.ne_nil_of_length_pos (by omega))
  have herased : s.asked.eraseIdx which = [] := by
    refine List.eq_nil_of_length_eq_zero ?_
    have hlength := congrArg List.length hasked
    rw [List.length_singleton] at hlength
    rw [List.length_eraseIdx_of_lt hwhich, hlength]
  refine @Orderly.accountResult _ s { s with asked := s.asked.eraseIdx which } h _ hone result rfl rfl rfl
    rfl ?_
  change _ ++ s.asked.eraseIdx which = _
  rw [herased, List.append_nil]
  exact hpoint

theorem Orderly.take (h : s.Orderly) {step : WalletRpcStep ρ} (hfits : Fits s step) :
    (s.take env config step).Orderly := by
  cases step with
  | addRequest request =>
      exact ⟨h.tasks.congr rfl rfl rfl rfl h.tasks.free, h.calls.congr rfl rfl rfl⟩
  | processPendings view =>
      have hpended := @processPendings_pended ρ env s view
      exact ⟨h.tasks.pended hfits hpended, h.calls.pended hfits hpended⟩
  | sendCallback taken =>
      obtain ⟨callback, hpoint⟩ := hfits
      unfold WalletRpc.take
      rw [hpoint]
      exact h.sendCallback hpoint taken
  | checkWaiting =>
      have hpoint : s.point = .waiting := hfits
      refine @Orderly.moves _ s h (by rw [hpoint]; trivial)
        (if s.waitingWallet then .pendings else .autoCredit) ?_ fun hfree => ?_
      · split
        · trivial
        · trivial
      · by_contra hwaiting
        rw [if_pos (Bool.eq_true_of_not_eq_false hwaiting)] at hfree
        cases hfree
  | processAutoCredit credit =>
      have hfree : s.point.Free := by
        rw [show s.point = .autoCredit from hfits]
        trivial
      unfold WalletRpc.take WalletRpc.processAutoCredit
      dsimp only
      split_ifs
      · exact h.begin hfree s.requests _ _ _
      · exact h.moves (quiet_of_free hfree) trivial fun _ => h.tasks.free hfree
  | processAutoReceive receive =>
      have hfree : s.point.Free := by
        rw [show s.point = .autoReceive from hfits]
        trivial
      unfold WalletRpc.take WalletRpc.processAutoReceive
      dsimp only
      split_ifs
      · exact h.begin hfree s.requests _ _ _
      · exact h.moves (quiet_of_free hfree) trivial fun _ => h.tasks.free hfree
  | processRequests =>
      have hfree : s.point.Free := by
        rw [show s.point = .requests from hfits]
        trivial
      unfold WalletRpc.take WalletRpc.processRequests
      dsimp only
      split
      · exact h.moves (quiet_of_free hfree) trivial fun hmore => (by cases hmore)
      · exact h.begin hfree _ _ _ _
  | ask code =>
      obtain ⟨sequence, call, hpoint⟩ := hfits
      unfold WalletRpc.take
      rw [hpoint]
      exact h.ask hpoint code
  | walletResult which result =>
      have hwhich : which < s.asked.length := hfits
      unfold WalletRpc.take
      dsimp only
      rw [List.getElem?_eq_getElem hwhich]
      exact h.walletResult hwhich result
  | callbackResult which success => exact (h.callbackResult hfits success).1

section Journals

variable (env config)

-- What the steps of a run have noted, the first one first.
def journal {β : Type} (entry : WalletRpc ρ × WalletRpcStep ρ → List β) :
    History (WalletRpc ρ) (WalletRpcStep ρ) → List β
  | [] => []
  | past :: history => journal entry history ++ entry past

variable (success : Bool) (past : WalletRpc ρ × WalletRpcStep ρ)

def acceptedIn : List ρ :=
  match past.2 with
  | .addRequest request => [request]
  | _ => []

-- The action that a step has added.
def begunIn : List (WalletRpcAction ρ) :=
  if past.1.sequence < (past.1.take env config past.2).sequence then
    (past.1.take env config past.2).actions.getLast?.toList
  else []

def leftIn : List (WalletRpcAction ρ) :=
  match past.2 with
  | .callbackResult _ true => past.1.actions.head?.toList
  | _ => []

-- The action that comes before the wallet. One whose request does not parse is refused there
-- without a call; a request that has been accepted has parsed.
def askedIn : List Nat :=
  match past.2, past.1.point with
  | .ask _, .asking sequence _ => [sequence]
  | _, _ => []

-- The action that a message is sent about.
def sentIn : List Nat :=
  match past.2, past.1.point with
  | .sendCallback _, .sending callback => [callback.about]
  | _, _ => []

def answeredIn : List Nat :=
  match past.2 with
  | .sendCallback taken => if taken = false ∧ success = false then sentIn past else []
  | .callbackResult which found =>
    if found = success then (past.1.posted[which]?.map RpcCallback.about).toList else []
  | _ => []

end Journals

def key (action : WalletRpcAction ρ) : Nat × String × Option ρ :=
  (action.sequence, action.desc, action.request)

def toAsk (s : WalletRpc ρ) : List Nat :=
  match s.point with
  | .asking sequence _ => [sequence]
  | _ => []

-- Each request becomes one action, in the order of their coming; each action comes before the
-- wallet once; the actions leave in order, and each when its message has been answered with success.
structure Reported (env : Env) (config : WalletRpcConfig ρ)
    (history : History (WalletRpc ρ) (WalletRpcStep ρ)) (s : WalletRpc ρ) : Prop where
  requests : journal acceptedIn history =
    (journal (begunIn env config) history).filterMap WalletRpcAction.request ++ s.requests
  actions : (journal (begunIn env config) history).map key =
    (journal leftIn history).map key ++ s.actions.map key
  sequences : (journal (begunIn env config) history).map WalletRpcAction.sequence =
    List.range s.sequence
  asked : List.range s.sequence = journal askedIn history ++ s.toAsk
  left : (journal leftIn history).map WalletRpcAction.sequence = journal (answeredIn true) history
  sent : ∀ sequence, (journal sentIn history).count sequence =
    (journal (answeredIn false) history).count sequence +
      (journal (answeredIn true) history).count sequence +
        (s.posted.map RpcCallback.about).count sequence

section Reports

variable {history : History (WalletRpc ρ) (WalletRpcStep ρ)} {step : WalletRpcStep ρ}

theorem empty_reported : Reported env config [] (.empty : WalletRpc ρ) where
  requests := rfl
  actions := rfl
  sequences := rfl
  asked := rfl
  left := rfl
  sent _ := rfl

theorem begunIn_none (h : (s.take env config step).sequence = s.sequence) :
    begunIn env config (s, step) = [] := by
  unfold begunIn
  rw [h, if_neg (Nat.lt_irrefl _)]

-- A step that nothing is noted of.
theorem Reported.still (h : Reported env config history s) (haccepted : acceptedIn (s, step) = [])
    (hleft : leftIn (s, step) = []) (hasked : askedIn (s, step) = []) (hsent : sentIn (s, step) = [])
    (hanswered : ∀ success, answeredIn success (s, step) = [])
    (hrequests : (s.take env config step).requests = s.requests)
    (hactions : (s.take env config step).actions.map key = s.actions.map key)
    (hsequence : (s.take env config step).sequence = s.sequence)
    (htoAsk : (s.take env config step).toAsk = s.toAsk)
    (hposted : (s.take env config step).posted = s.posted) :
    Reported env config ((s, step) :: history) (s.take env config step) where
  requests := by
    simp only [journal, haccepted, begunIn_none hsequence, List.append_nil, hrequests]
    exact h.requests
  actions := by
    simp only [journal, hleft, begunIn_none hsequence, List.append_nil, hactions]
    exact h.actions
  sequences := by
    simp only [journal, begunIn_none hsequence, List.append_nil, hsequence]
    exact h.sequences
  asked := by
    simp only [journal, hasked, List.append_nil, hsequence, htoAsk]
    exact h.asked
  left := by
    simp only [journal, hleft, hanswered, List.append_nil]
    exact h.left
  sent := by
    simp only [journal, hsent, hanswered, List.append_nil, hposted]
    exact h.sent

theorem Reported.addRequest (h : Reported env config history s) (request : ρ) :
    Reported env config ((s, .addRequest request) :: history) (s.addRequest request) where
  requests := by
    have hnone : begunIn env config (s, .addRequest request) = [] := begunIn_none rfl
    simp only [journal, acceptedIn, hnone, List.append_nil]
    rw [h.requests, List.append_assoc]
    rfl
  actions := by
    have hnone : begunIn env config (s, .addRequest request) = [] := begunIn_none rfl
    simp only [journal, leftIn, hnone, List.append_nil]
    exact h.actions
  sequences := by
    have hnone : begunIn env config (s, .addRequest request) = [] := begunIn_none rfl
    simp only [journal, hnone, List.append_nil]
    exact h.sequences
  asked := by
    simp only [journal, askedIn, List.append_nil]
    exact h.asked
  left := by
    simp only [journal, leftIn, answeredIn, List.append_nil]
    exact h.left
  sent := by
    simp only [journal, sentIn, answeredIn, List.append_nil]
    exact h.sent

-- A request is taken off the queue, or none is needed.
theorem Reported.begins (h : Reported env config history s) {requests : List ρ} {desc : String}
    {request : Option ρ} {call : WalletCall ρ}
    (hnext : s.take env config step = { s with requests }.begin desc request call)
    (hrequests : s.requests = request.toList ++ requests) (htoAsk : s.toAsk = [])
    (haccepted : acceptedIn (s, step) = []) (hleft : leftIn (s, step) = [])
    (hasked : askedIn (s, step) = []) (hsent : sentIn (s, step) = [])
    (hanswered : ∀ success, answeredIn success (s, step) = []) :
    Reported env config ((s, step) :: history) (s.take env config step) := by
  have hbegun : begunIn env config (s, step) = [⟨s.sequence, false, 0, none, desc, request⟩] := by
    unfold begunIn
    rw [hnext]
    refine (if_pos (Nat.lt_succ_self _)).trans ?_
    change ((s.actions ++ [_]).getLast?).toList = _
    rw [List.getLast?_concat]
    rfl
  have hsequence : (s.take env config step).sequence = s.sequence + 1 := by
    rw [hnext]
    rfl
  have hactions : (s.take env config step).actions =
      s.actions ++ [⟨s.sequence, false, 0, none, desc, request⟩] := by
    rw [hnext]
    rfl
  have hask : (s.take env config step).toAsk = [s.sequence] := by
    rw [hnext]
    rfl
  have hposted : (s.take env config step).posted = s.posted := by
    rw [hnext]
    rfl
  have hrest : (s.take env config step).requests = requests := by
    rw [hnext]
    rfl
  refine ⟨?_, ?_, ?_, ?_, ?_, ?_⟩
  · simp only [journal, haccepted, hbegun, List.append_nil, List.filterMap_append, hrest]
    rw [h.requests, hrequests, List.append_assoc]
    cases request with
    | none => rfl
    | some request => rfl
  · simp only [journal, hleft, hbegun, List.append_nil, hactions, List.map_append]
    rw [h.actions, List.append_assoc]
  · simp only [journal, hbegun, hsequence, List.map_append]
    rw [h.sequences, List.range_succ]
    rfl
  · simp only [journal, hasked, List.append_nil, hsequence, hask]
    rw [List.range_succ, h.asked, htoAsk, List.append_nil]
  · simp only [journal, hleft, hanswered, List.append_nil]
    exact h.left
  · simp only [journal, hsent, hanswered, List.append_nil, hposted]
    exact h.sent

theorem key_result (actions : List (WalletRpcAction ρ)) (sequence : Nat) (result : ActionResult) :
    (actions.map fun action => if action.sequence = sequence then { action with result := some result }
      else action).map key = actions.map key := by
  rw [List.map_map]
  refine List.map_congr_left fun action _ => ?_
  dsimp only [Function.comp_apply]
  split
  · rfl
  · rfl

theorem Reported.sendCallback (h : Reported env config history s) (horderly : s.Orderly)
    {callback : RpcCallback ρ} (hpoint : s.point = .sending callback) (taken : Bool) :
    Reported env config ((s, .sendCallback taken) :: history)
      (s.take env config (.sendCallback taken)) := by
  obtain ⟨-, first, rest, hactions, -, -⟩ := horderly.sending hpoint
  have hnext : s.take env config (.sendCallback taken) = s.sendCallback callback taken := by
    unfold WalletRpc.take
    dsimp only
    rw [hpoint]
  have hsent : sentIn (s, .sendCallback taken) = [callback.about] := by
    unfold sentIn
    dsimp only
    rw [hpoint]
  have hask : s.toAsk = [] := by
    unfold toAsk
    rw [hpoint]
  have hsequence : (s.sendCallback callback taken).sequence = s.sequence := by
    cases taken with
    | true => rfl
    | false => rfl
  have hbegun : begunIn env config (s, .sendCallback taken) = [] :=
    begunIn_none (by rw [hnext, hsequence])
  have hkeys : (s.sendCallback callback taken).actions.map key = s.actions.map key := by
    cases taken with
    | true => rfl
    | false =>
        change (s.processCallbackResult false).actions.map key = _
        rw [processCallbackResult_actions hactions, hactions]
        rfl
  rw [hnext]
  refine ⟨?_, ?_, ?_, ?_, ?_, fun sequence => ?_⟩
  · simp only [journal, acceptedIn, hbegun, List.append_nil]
    cases taken with
    | true => exact h.requests
    | false => exact h.requests
  · simp only [journal, leftIn, hbegun, List.append_nil, hkeys]
    exact h.actions
  · simp only [journal, hbegun, List.append_nil, hsequence]
    exact h.sequences
  · have hdone : (s.sendCallback callback taken).toAsk = [] := by
      cases taken with
      | true => rfl
      | false => rfl
    simp only [journal, askedIn, List.append_nil, hsequence, hdone]
    rw [h.asked, hask, List.append_nil]
  · simp only [journal, leftIn, answeredIn, List.append_nil, and_false, Bool.true_eq_false, if_false]
    exact h.left
  · have hcount := h.sent sequence
    simp only [journal, hsent, answeredIn, List.count_append, Bool.true_eq_false, and_false, if_false,
      and_true, List.count_nil]
    cases taken with
    | true =>
        simp only [WalletRpc.sendCallback, if_true, List.map_append, List.count_append, Bool.true_eq_false,
          if_false, List.count_nil, List.map_singleton]
        omega
    | false =>
        simp only [WalletRpc.sendCallback, Bool.false_eq_true, if_false, if_true, processCallbackResult]
        omega

theorem Reported.ask (h : Reported env config history s) {sequence : Nat} {call : WalletCall ρ}
    (hpoint : s.point = .asking sequence call) (code : ActionCode) :
    Reported env config ((s, .ask code) :: history) (s.take env config (.ask code)) := by
  have hnext : s.take env config (.ask code) = s.ask config sequence call code := by
    unfold WalletRpc.take
    dsimp only
    rw [hpoint]
  have hasked : askedIn (s, .ask code) = [sequence] := by
    unfold askedIn
    dsimp only
    rw [hpoint]
  have hask : s.toAsk = [sequence] := by
    unfold toAsk
    rw [hpoint]
  have hall : (s.ask config sequence call code).sequence = s.sequence ∧
      (s.ask config sequence call code).requests = s.requests ∧
      (s.ask config sequence call code).posted = s.posted ∧
      (s.ask config sequence call code).toAsk = [] ∧
      (s.ask config sequence call code).actions.map key = s.actions.map key := by
    unfold WalletRpc.ask
    generalize (if refused config call = .SUCCESS then code else refused config call) = answer
    dsimp only
    split_ifs
    · exact ⟨rfl, rfl, rfl, rfl, rfl⟩
    · exact ⟨rfl, rfl, rfl, rfl, key_result _ _ _⟩
  obtain ⟨hsequence, hrequests, hposted, hdone, hkeys⟩ := hall
  have hbegun : begunIn env config (s, .ask code) = [] := begunIn_none (by rw [hnext, hsequence])
  rw [hnext]
  refine ⟨?_, ?_, ?_, ?_, ?_, ?_⟩
  · simp only [journal, acceptedIn, hbegun, List.append_nil, hrequests]
    exact h.requests
  · simp only [journal, leftIn, hbegun, List.append_nil, hkeys]
    exact h.actions
  · simp only [journal, hbegun, List.append_nil, hsequence]
    exact h.sequences
  · simp only [journal, hasked, hsequence, hdone, List.append_nil]
    rw [h.asked, hask]
  · simp only [journal, leftIn, answeredIn, List.append_nil]
    exact h.left
  · simp only [journal, sentIn, answeredIn, List.append_nil, hposted]
    exact h.sent

theorem Reported.callbackResult (h : Reported env config history s) (horderly : s.Orderly) {which : Nat}
    (hwhich : which < s.posted.length) (success : Bool) :
    Reported env config ((s, .callbackResult which success) :: history)
      (s.take env config (.callbackResult which success)) := by
  obtain ⟨-, callback, first, rest, hget, hposted, hactions, habout⟩ :=
    horderly.callbackResult hwhich success
  have herased : s.posted.eraseIdx which = [] := by
    obtain rfl : which = 0 := by
      rw [hposted, List.length_singleton] at hwhich
      omega
    rw [hposted]
    rfl
  have hbegun : begunIn env config (s, .callbackResult which success) = [] := begunIn_none rfl
  have hnext : (s.take env config (.callbackResult which success)).actions =
      if success then rest else { first with callbackError := true } :: rest :=
    @processCallbackResult_actions _ { s with posted := s.posted.eraseIdx which } first rest hactions _
  have hpostedNext : (s.take env config (.callbackResult which success)).posted = [] := herased
  refine ⟨?_, ?_, ?_, ?_, ?_, fun sequence => ?_⟩
  · simp only [journal, acceptedIn, hbegun, List.append_nil]
    exact h.requests
  · rw [hnext]
    simp only [journal, hbegun, List.append_nil, List.map_append]
    rw [h.actions, hactions]
    cases success with
    | true =>
        simp only [leftIn, hactions, List.head?_cons, Option.toList_some, if_true, List.append_assoc]
        rfl
    | false => simp only [leftIn, List.map_nil, List.append_nil, Bool.false_eq_true, if_false]; rfl
  · simp only [journal, hbegun, List.append_nil]
    exact h.sequences
  · simp only [journal, askedIn, List.append_nil]
    exact h.asked
  · simp only [journal, List.map_append]
    rw [h.left]
    cases success with
    | true => simp [leftIn, answeredIn, hget, hactions, habout]
    | false => simp [leftIn, answeredIn]
  · have hcount := h.sent sequence
    rw [hposted] at hcount
    rw [hpostedNext]
    cases success with
    | true =>
        simp only [journal, sentIn, answeredIn, hget, List.count_append, List.append_nil, if_true,
          Bool.true_eq_false, if_false, Option.map_some, Option.toList_some, List.map_nil, List.count_nil]
        simp only [List.map_singleton] at hcount
        omega
    | false =>
        simp only [journal, sentIn, answeredIn, hget, List.count_append, List.append_nil, if_true,
          Bool.false_eq_true, if_false, Option.map_some, Option.toList_some, List.map_nil, List.count_nil]
        simp only [List.map_singleton] at hcount
        omega

theorem Reported.moves (h : Reported env config history s) {point : RunPoint ρ}
    (hquiet : s.point.Quiet) (hpoint : point.Quiet)
    (hnext : s.take env config step = { s with point }) (haccepted : acceptedIn (s, step) = [])
    (hleft : leftIn (s, step) = []) (hanswered : ∀ success, answeredIn success (s, step) = []) :
    Reported env config ((s, step) :: history) (s.take env config step) := by
  have htoAsk : ∀ {s : WalletRpc ρ}, s.point.Quiet → s.toAsk = [] := by
    intro s hquiet
    unfold toAsk
    cases hat : s.point with
    | asking sequence call =>
        rw [hat] at hquiet
        cases hquiet
    | _ => rfl
  refine h.still haccepted hleft ?_ ?_ hanswered (by rw [hnext]) (by rw [hnext]) (by rw [hnext]) ?_
    (by rw [hnext])
  · unfold askedIn
    split
    · next hat =>
        rw [show s.point = _ from hat] at hquiet
        cases hquiet
    · rfl
  · unfold sentIn
    split
    · next hat =>
        rw [show s.point = _ from hat] at hquiet
        cases hquiet
    · rfl
  · rw [hnext, htoAsk hquiet]
    exact htoAsk hpoint

theorem Pended.frame {view : LedgerView} (h : Pended env view s s') : s'.requests = s.requests ∧
    s'.actions.map key = s.actions.map key ∧ s'.sequence = s.sequence ∧ s'.toAsk = [] ∧
      s'.posted = s.posted := by
  cases h with
  | stay => exact ⟨rfl, rfl, rfl, rfl, rfl⟩
  | missing hactions =>
      rw [hactions]
      exact ⟨rfl, rfl, rfl, rfl, rfl⟩
  | send hactions =>
      rw [hactions]
      exact ⟨rfl, rfl, rfl, rfl, rfl⟩

theorem Reported.take (h : Reported env config history s) (horderly : s.Orderly)
    (hfits : Fits s step) : Reported env config ((s, step) :: history) (s.take env config step) := by
  cases step with
  | addRequest request => exact h.addRequest request
  | processPendings view =>
      have hpoint : s.point = .pendings := hfits
      obtain ⟨hrequests, hkeys, hsequence, hask, hposted⟩ :=
        (@processPendings_pended ρ env s view).frame
      refine h.still rfl rfl rfl rfl (fun _ => rfl) hrequests hkeys hsequence ?_ hposted
      refine hask.trans ?_
      unfold toAsk
      rw [hpoint]
  | sendCallback taken =>
      obtain ⟨callback, hpoint⟩ := hfits
      exact h.sendCallback horderly hpoint taken
  | checkWaiting =>
      have hpoint : s.point = .waiting := hfits
      refine @Reported.moves _ _ _ _ _ .checkWaiting h
        (if s.waitingWallet then .pendings else .autoCredit) ?_ ?_ rfl rfl rfl fun _ => rfl
      · rw [hpoint]
        trivial
      · split
        · trivial
        · trivial
  | processAutoCredit credit =>
      have hpoint : s.point = .autoCredit := hfits
      have hquiet : s.point.Quiet := by rw [hpoint]; trivial
      by_cases hbegins : config.autoCredit ∧ credit
      · refine h.begins (if_pos hbegins) rfl ?_ rfl rfl rfl rfl fun _ => rfl
        unfold toAsk
        rw [hpoint]
      · exact @Reported.moves _ _ _ _ _ (.processAutoCredit credit) h .autoReceive hquiet trivial
          (if_neg hbegins) rfl rfl fun _ => rfl
  | processAutoReceive receive =>
      have hpoint : s.point = .autoReceive := hfits
      have hquiet : s.point.Quiet := by rw [hpoint]; trivial
      by_cases hbegins : config.autoReceive ∧ receive
      · refine h.begins (if_pos hbegins) rfl ?_ rfl rfl rfl rfl fun _ => rfl
        unfold toAsk
        rw [hpoint]
      · exact @Reported.moves _ _ _ _ _ (.processAutoReceive receive) h .requests hquiet trivial
          (if_neg hbegins) rfl rfl fun _ => rfl
  | processRequests =>
      have hpoint : s.point = .requests := hfits
      have hquiet : s.point.Quiet := by rw [hpoint]; trivial
      cases hrequests : s.requests with
      | nil =>
          refine @Reported.moves _ _ _ _ _ .processRequests h .pendings hquiet trivial ?_ rfl rfl
            fun _ => rfl
          unfold WalletRpc.take WalletRpc.processRequests
          dsimp only
          rw [hrequests]
      | cons request rest =>
          refine @Reported.begins _ _ _ _ _ .processRequests h rest (config.action request) (some request)
            (.request request) ?_ hrequests ?_ rfl rfl rfl rfl fun _ => rfl
          · unfold WalletRpc.take WalletRpc.processRequests
            dsimp only
            rw [hrequests]
          · unfold toAsk
            rw [hpoint]
  | ask code =>
      obtain ⟨sequence, call, hpoint⟩ := hfits
      exact h.ask hpoint code
  | walletResult which result =>
      have hwhich : which < s.asked.length := hfits
      have hnext : s.take env config (.walletResult which result) =
          { s with asked := s.asked.eraseIdx which }.processAccountActionResult result s.asked[which] := by
        unfold WalletRpc.take
        dsimp only
        rw [List.getElem?_eq_getElem hwhich]
      refine h.still rfl rfl rfl rfl (fun _ => rfl) ?_ ?_ ?_ ?_ ?_
      · rw [hnext]
        rfl
      · rw [hnext]
        exact key_result _ _ _
      · rw [hnext]
        rfl
      · rw [hnext]
        rfl
      · rw [hnext]
        rfl
  | callbackResult which success => exact h.callbackResult horderly hfits success

end Reports

-- In every run, whatever the wallet, the ledger and the listener do.
theorem wallet_requests_exact {history : History (WalletRpc ρ) (WalletRpcStep ρ)}
    (hrun : (walletRpcMachine env config).Run (fun _ _ => True) history s) :
    s.Orderly ∧ Reported env config history s ∧
      ∀ past ∈ history, ∀ view callback found, past.2 = .processPendings view →
        (past.1.take env config past.2).point = .sending callback →
          callback.message.outcome = .ok found → ∃ store, view.store = some store ∧
            store.blockExists (env.hash found.1) = true ∧ blockConfirmed store found.1 = true := by
  have hinvariant : s.Orderly ∧ Reported env config history s := by
    refine hrun.invariant (P := fun history s => s.Orderly ∧ Reported env config history s) ?_ ?_
    · rintro s rfl
      exact ⟨⟨empty_tasks, empty_calls⟩, empty_reported⟩
    · rintro history s step - hfits - ⟨horderly, hreported⟩
      exact ⟨horderly.take hfits, hreported.take horderly hfits⟩
  refine ⟨hinvariant.1, hinvariant.2, fun past _ view callback found hstep hpoint hfound => ?_⟩
  rw [hstep] at hpoint
  have hpended := @processPendings_pended ρ env past.1 view
  change (past.1.processPendings env view).point = _ at hpoint
  generalize past.1.processPendings env view = next at hpended hpoint
  cases hpended with
  | stay => cases hpoint
  | missing => cases hpoint
  | send hactions hfree hsend =>
      cases hpoint
      exact (pendingOf_send hsend).2 found hfound

section Sample

-- Requests are numbers. All of them send but 8, which is an action that is not known.
def sampleConfig : WalletRpcConfig Nat where
  autoCredit := true
  autoReceive := false
  action request := if request = 8 then "account_burn" else "account_send"
  parseAccountSend _ := .SUCCESS
  parseAccountChange _ := .SUCCESS

def sampleView (now : Nat) : LedgerView := ⟨none, fun _ => none, now⟩

def ledgerView (now : Nat) : LedgerView := ⟨some sampleLedger.store, fun _ => none, now⟩

-- The first request comes to a block. The message about it waits for the ledger, and gets lost once;
-- meanwhile credit is asked for. That fails, and the client does not take the message about it at
-- first. The second request is not known, and the wallet refuses the third one.
def sampleSteps : List (WalletRpcStep Nat) :=
  [.addRequest 7, .addRequest 8, .processPendings (sampleView 0), .checkWaiting,
    .processAutoCredit false, .processAutoReceive false, .processRequests, .ask .SUCCESS,
    .addRequest 9, .walletResult 0 (.ok sampleReceive), .processPendings (sampleView 1),
    .checkWaiting, .processAutoCredit true, .ask .SUCCESS, .processPendings (ledgerView 2),
    .sendCallback true, .callbackResult 0 false, .checkWaiting, .processPendings (ledgerView 6),
    .checkWaiting, .processPendings (ledgerView 7), .sendCallback true, .callbackResult 0 true,
    .walletResult 0 (.error (.other 5)), .checkWaiting, .processAutoCredit false,
    .processAutoReceive false, .processRequests, .ask .SUCCESS, .processPendings (sampleView 8),
    .sendCallback false, .checkWaiting, .processAutoCredit false, .processAutoReceive false,
    .processRequests, .ask (.other 6), .processPendings (sampleView 13), .sendCallback true,
    .callbackResult 0 true, .checkWaiting, .processAutoCredit false, .processAutoReceive false,
    .processRequests, .processPendings (sampleView 14), .sendCallback true, .callbackResult 0 true]

def sampleRun : History (WalletRpc Nat) (WalletRpcStep Nat) × WalletRpc Nat :=
  (walletRpcMachine sampleEnv sampleConfig).exec .empty sampleSteps

-- A step is taken where `Run` is.
def ready (s : WalletRpc Nat) (step : WalletRpcStep Nat) : Bool :=
  match step, s.point with
  | .addRequest _, _ => true
  | .processPendings _, .pendings => true
  | .sendCallback _, .sending _ => true
  | .checkWaiting, .waiting => true
  | .processAutoCredit _, .autoCredit => true
  | .processAutoReceive _, .autoReceive => true
  | .processRequests, .requests => true
  | .ask _, .asking _ _ => true
  | .walletResult which _, _ => decide (which < s.asked.length)
  | .callbackResult which _, _ => decide (which < s.posted.length)
  | _, _ => false

theorem fits_of_ready {s : WalletRpc Nat} {step : WalletRpcStep Nat} (h : ready s step = true) :
    s.Fits step := by
  unfold ready at h
  split at h
  · trivial
  · assumption
  · exact ⟨_, ‹_›⟩
  · assumption
  · assumption
  · assumption
  · assumption
  · exact ⟨_, _, ‹_›⟩
  · rw [decide_eq_true_iff] at h
    exact h
  · rw [decide_eq_true_iff] at h
    exact h
  · cases h

theorem sampleRun_exact : journal sentIn sampleRun.1 = [0, 0, 1, 1, 2] ∧
    journal askedIn sampleRun.1 = [0, 1, 2, 3] ∧
      sampleRun.2.actions.map key = [(3, "account_send", some 9)] ∧ sampleRun.2.Orderly ∧
        Reported sampleEnv sampleConfig sampleRun.1 sampleRun.2 := by
  have hready : sampleRun.1.all (fun taken => ready taken.1 taken.2) = true := by decide +kernel
  have hfits : ∀ taken ∈ sampleRun.1, taken.1.Fits taken.2 :=
    fun taken htaken => fits_of_ready (List.all_eq_true.mp hready taken htaken)
  have hrun : (walletRpcMachine sampleEnv sampleConfig).Run (fun _ _ => True) sampleRun.1
      sampleRun.2 :=
    Machine.exec_run_of_fits rfl (fun _ hn => hfits _ (Machine.taken_mem_exec hn))
      fun _ _ => trivial
  obtain ⟨horderly, hreported, -⟩ := wallet_requests_exact hrun
  exact ⟨by decide +kernel, by decide +kernel, by decide +kernel, horderly, hreported⟩

end Sample

end WalletRpc

end Raicoin
