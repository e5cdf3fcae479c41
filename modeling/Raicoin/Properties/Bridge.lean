import Raicoin.Token.CrossChainSpec
import Raicoin.Node.BlockProcessor.Replay

-- Batches of events of other chains.
namespace Raicoin

open Lib

section Silence

variable (env : TokenEnv) (l : TokenLedger) (blocks : List CrossChainBlockEvents)

-- What a batch that ends with an error must not do.
def LeavesNoTrace : Prop :=
  (processCrossChainBlocks env l blocks).code ≠ none →
    (processCrossChainBlocks env l blocks).ledger = l ∧
      (processCrossChainBlocks env l blocks).told = []

theorem leavesNoTrace_iff :
    LeavesNoTrace env l blocks ↔ AcceptsBatch env l blocks ∨ ¬CreditsBatch env l blocks := by
  cases hcode : (processCrossChainBlocks env l blocks).code with
  | none =>
      cases blocks with
      | nil => cases hcode
      | cons block blocks =>
          exact ⟨fun _ => .inl (batch_taken hcode).1, fun _ hne => absurd hcode hne⟩
  | some code =>
      obtain ⟨hno, hledger, htold⟩ := batch_refused hcode
      constructor
      · intro htrace
        exact .inr (htold.mp (htrace (by simp [hcode])).2)
      · intro hor _
        exact ⟨hledger, htold.mpr (hor.resolve_left hno)⟩

end Silence

section RefusedBatch

def sampleTokenEnv : TokenEnv where
  toEnv := sampleEnv
  app := .empty
  fails := TokenCall.never

def sampleLog (index : Nat) : CrossChainLog := ⟨15000000, index, .ETHEREUM, 7, 11⟩

-- A token and a deposit of it, then an event of a block that has not been seen yet.
def waitingBatch : List CrossChainBlockEvents :=
  [⟨.ETHEREUM, 15000000,
    [.token (sampleLog 0) .t20 18 false, .map (sampleLog 1) .t20 1 2 100,
      .unmap (sampleLog 2) 3 0]⟩]

theorem refused_batch_is_told :
    (processCrossChainBlocks sampleTokenEnv .empty waitingBatch).code = some .APP_PROCESS_WAITING ∧
      (processCrossChainBlocks sampleTokenEnv .empty waitingBatch).told ≠ [] ∧
      ¬LeavesNoTrace sampleTokenEnv .empty waitingBatch := by
  have hcode : (processCrossChainBlocks sampleTokenEnv .empty waitingBatch).code =
      some .APP_PROCESS_WAITING := by
    decide
  have htold : (processCrossChainBlocks sampleTokenEnv .empty waitingBatch).told ≠ [] := by
    decide
  exact ⟨hcode, htold, fun htrace => htold (htrace (by simp [hcode])).2⟩

end RefusedBatch

-- The head of a chain and the events of its blocks do not depend on each other.
section Heads

variable {env : TokenEnv} {l : TokenLedger} {heads : Table Chain UInt64} {event : CrossChainEvent}
  {blocks : List CrossChainBlockEvents} {chain : Chain}

def TokenLedger.withHeads (l : TokenLedger) (heads : Table Chain UInt64) : TokenLedger :=
  { l with chainHeads := heads }

private theorem applied_withHeads :
    event.applied (l.withHeads heads) = (event.applied l).withHeads heads := by
  cases event with
  | token log tokenType decimals wrapped =>
      cases wrapped <;> cases tokenType <;> rfl
  | create => rfl
  | map => rfl
  | unmap => rfl
  | wrap => rfl
  | unwrap => rfl

private theorem applyEvents_withHeads (events : List CrossChainEvent) :
    applyEvents (l.withHeads heads) events = (applyEvents l events).withHeads heads := by
  unfold applyEvents
  induction events generalizing l with
  | nil => rfl
  | cons event events ih => rw [List.foldl_cons, applied_withHeads, ih, List.foldl_cons]

-- The blocks of a list are their events.
theorem applyBlocks_eq (l : TokenLedger) (blocks : List CrossChainBlockEvents) :
    applyBlocks l blocks = applyEvents l (blocks.flatMap CrossChainBlockEvents.events) := by
  unfold applyBlocks applyEvents
  induction blocks generalizing l with
  | nil => rfl
  | cons block blocks ih =>
      rw [List.foldl_cons, ih, List.flatMap_cons, List.foldl_append]

-- The ledger once the blocks of a chain are taken.
def delivered (chain : Chain) (l : TokenLedger) (blocks : List CrossChainBlockEvents) :
    TokenLedger :=
  (applyEvents l (blocks.flatMap CrossChainBlockEvents.events)).withHeads
    (if blocks = [] then l.chainHeads
      else l.chainHeads.put chain (l.chainHead chain + UInt64.ofNat blocks.length))

theorem delivered_append {rest : List CrossChainBlockEvents} (hne : blocks ≠ []) :
    delivered chain (delivered chain l blocks) rest = delivered chain l (blocks ++ rest) := by
  have hhead : (delivered chain l blocks).chainHead chain =
      l.chainHead chain + UInt64.ofNat blocks.length := by
    simp [delivered, TokenLedger.withHeads, TokenLedger.chainHead, hne]
  have hheads : (delivered chain l blocks).chainHeads =
      l.chainHeads.put chain (l.chainHead chain + UInt64.ofNat blocks.length) := by
    simp [delivered, TokenLedger.withHeads, hne]
  have hevents : applyEvents (delivered chain l blocks)
      (rest.flatMap CrossChainBlockEvents.events) =
      (applyEvents l ((blocks ++ rest).flatMap CrossChainBlockEvents.events)).withHeads
        (delivered chain l blocks).chainHeads := by
    rw [delivered, applyEvents_withHeads, List.flatMap_append, applyEvents, applyEvents,
      applyEvents, List.foldl_append]
    rfl
  have hwhole : ¬blocks ++ rest = [] := by
    simp [hne]
  rw [delivered, hevents, hhead, hheads, delivered, if_neg hwhole]
  by_cases hrest : rest = []
  · rw [if_pos hrest, hrest, List.append_nil]
    rfl
  · rw [if_neg hrest]
    have htable : (l.chainHeads.put chain (l.chainHead chain + UInt64.ofNat blocks.length)).put chain
        (l.chainHead chain + UInt64.ofNat blocks.length + UInt64.ofNat rest.length) =
        l.chainHeads.put chain (l.chainHead chain + UInt64.ofNat (blocks ++ rest).length) := by
      ext1 other
      rw [List.length_append, UInt64.ofNat_add, UInt64.add_assoc]
      by_cases hother : other = chain <;> simp [hother]
    rw [htable]
    rfl

end Heads

-- Calls of `ProcessCrossChainBlocks` that bring a list of batches into the ledger, one
-- after the other: each call in its own circumstances, a refused batch is tried again,
-- and batches that do not start after the head come in between.
section Delivery

def Stray (l : TokenLedger) : List CrossChainBlockEvents → Prop
  | [] => True
  | block :: _ => block.blockHeight ≠ l.chainHead block.chain + 1

inductive Delivery : TokenLedger → List (List CrossChainBlockEvents) → TokenLedger → Prop where
  | done {l : TokenLedger} : Delivery l [] l
  | taken {l l' : TokenLedger} {batch : List CrossChainBlockEvents}
      {batches : List (List CrossChainBlockEvents)} (env : TokenEnv)
      (hcode : (processCrossChainBlocks env l batch).code = none)
      (hrest : Delivery (processCrossChainBlocks env l batch).ledger batches l') :
      Delivery l (batch :: batches) l'
  | refused {l l' : TokenLedger} {batch : List CrossChainBlockEvents}
      {batches : List (List CrossChainBlockEvents)} (env : TokenEnv)
      (hcode : (processCrossChainBlocks env l batch).code ≠ none)
      (hrest : Delivery (processCrossChainBlocks env l batch).ledger (batch :: batches) l') :
      Delivery l (batch :: batches) l'
  | stray {l l' : TokenLedger} {batch : List CrossChainBlockEvents}
      {batches : List (List CrossChainBlockEvents)} (env : TokenEnv) (hstray : Stray l batch)
      (hrest : Delivery (processCrossChainBlocks env l batch).ledger batches l') :
      Delivery l batches l'

variable {env : TokenEnv} {l l' : TokenLedger} {blocks : List CrossChainBlockEvents}
  {batches : List (List CrossChainBlockEvents)} {chain : Chain}

theorem refused_ledger (h : (processCrossChainBlocks env l blocks).code ≠ none) :
    (processCrossChainBlocks env l blocks).ledger = l := by
  obtain ⟨code, hcode⟩ := Option.ne_none_iff_exists'.mp h
  exact (batch_refused hcode).2.1

theorem stray_refused (h : Stray l blocks) :
    (processCrossChainBlocks env l blocks).code ≠ none ∧
      (processCrossChainBlocks env l blocks).ledger = l := by
  have hcode : (processCrossChainBlocks env l blocks).code ≠ none := by
    intro hnone
    cases blocks with
    | nil => cases hnone
    | cons block blocks => exact h (batch_taken hnone).1.1.1.2
  exact ⟨hcode, refused_ledger hcode⟩

-- Every event was taken by some call.
def TakenEvents : TokenLedger → List CrossChainEvent → Prop
  | _, [] => True
  | l, event :: events => (∃ env, event.Accepts env l) ∧ TakenEvents (event.applied l) events

theorem takenEvents_append {first rest : List CrossChainEvent} (h : TakenEvents l first)
    (hrest : TakenEvents (applyEvents l first) rest) : TakenEvents l (first ++ rest) := by
  induction first generalizing l with
  | nil => exact hrest
  | cons event first ih => exact ⟨h.1, ih h.2 hrest⟩

private theorem accepts_withHeads {heads : Table Chain UInt64} {event : CrossChainEvent} :
    event.Accepts env (l.withHeads heads) ↔ event.Accepts env l := by
  cases event with
  | map => exact ⟨fun ⟨⟨⟨h, ht, hn, ha⟩, hi, hr⟩, hp, hc⟩ => ⟨⟨⟨h, ht, hn, ha⟩, hi, hr⟩, hp, hc⟩,
      fun ⟨⟨⟨h, ht, hn, ha⟩, hi, hr⟩, hp, hc⟩ => ⟨⟨⟨h, ht, hn, ha⟩, hi, hr⟩, hp, hc⟩⟩
  | unwrap => exact ⟨fun ⟨⟨⟨h, ht, hn, ha⟩, hi, hr⟩, hp, hc⟩ => ⟨⟨⟨h, ht, hn, ha⟩, hi, hr⟩, hp, hc⟩,
      fun ⟨⟨⟨h, ht, hn, ha⟩, hi, hr⟩, hp, hc⟩ => ⟨⟨⟨h, ht, hn, ha⟩, hi, hr⟩, hp, hc⟩⟩
  | token => exact Iff.rfl
  | create => exact Iff.rfl
  | unmap => exact Iff.rfl
  | wrap => exact Iff.rfl

theorem takenEvents_withHeads {heads : Table Chain UInt64} {events : List CrossChainEvent}
    (h : TakenEvents (l.withHeads heads) events) : TakenEvents l events := by
  induction events generalizing l with
  | nil => trivial
  | cons event events ih =>
      obtain ⟨⟨env, haccepts⟩, hrest⟩ := h
      rw [applied_withHeads] at hrest
      exact ⟨⟨env, accepts_withHeads.mp haccepts⟩, ih hrest⟩

private theorem takenEvents_of_accepts {events : List CrossChainEvent}
    (h : AcceptsEvents env l events) : TakenEvents l events := by
  induction events generalizing l with
  | nil => trivial
  | cons event events ih => exact ⟨⟨env, h.1⟩, ih h.2⟩

private theorem takenEvents_of_acceptsBlocks {head : UInt64}
    (h : AcceptsBlocks env chain head l blocks) :
    TakenEvents l (blocks.flatMap CrossChainBlockEvents.events) := by
  induction blocks generalizing l head with
  | nil => trivial
  | cons block blocks ih =>
      exact takenEvents_append (takenEvents_of_accepts h.2.1) (ih h.2.2)

-- However the blocks are cut, the ledger is the one of all of them.
theorem Delivery.ledger_eq (h : Delivery l batches l') (hne : ∀ batch ∈ batches, batch ≠ [])
    (hchain : ∀ block ∈ batches.flatten, block.chain = chain) :
    l' = delivered chain l batches.flatten ∧
      TakenEvents l (batches.flatten.flatMap CrossChainBlockEvents.events) := by
  induction h with
  | done => exact ⟨rfl, trivial⟩
  | @taken l l' batch batches env hcode hrest ih =>
      cases batch with
      | nil => exact absurd rfl (hne [] (List.mem_cons_self ..))
      | cons block rest =>
          have hblock : block.chain = chain := hchain block (by simp)
          obtain ⟨haccepts, hledger⟩ := batch_taken hcode
          obtain ⟨hfinal, htaken⟩ := ih (fun other hother => hne other (List.mem_cons_of_mem _ hother))
            (fun other hother => hchain other (List.mem_append_right _ hother))
          have hdelivered : (processCrossChainBlocks env l (block :: rest)).ledger =
              delivered chain l (block :: rest) := by
            rw [hledger, hblock, applyBlocks_eq, applyEvents_chainHeads]
            rfl
          rw [hdelivered] at hfinal htaken
          rw [List.flatten_cons]
          refine ⟨hfinal.trans (delivered_append (by simp)), ?_⟩
          rw [List.flatMap_append]
          exact takenEvents_append (takenEvents_of_acceptsBlocks haccepts.1)
            (takenEvents_withHeads htaken)
  | @refused l l' batch batches env hcode hrest ih =>
      rw [refused_ledger hcode] at ih
      exact ih hne hchain
  | @stray l l' batch batches env hstray hrest ih =>
      rw [(stray_refused hstray).2] at ih
      exact ih hne hchain

end Delivery

-- What the deposits among the events leave in the ledger.
section Deposits

def CrossChainEvent.log : CrossChainEvent → CrossChainLog
  | .token log _ _ _ => log
  | .create log => log
  | .map log _ _ _ _ => log
  | .unmap log _ _ => log
  | .wrap log _ _ => log
  | .unwrap log _ _ _ _ _ => log

def depositsOf (events : List CrossChainEvent) : List Deposit :=
  events.filterMap CrossChainEvent.deposit

def TokenLedger.localSupplyOf (l : TokenLedger) (token : TokenKey) : Nat :=
  (l.tokens.get token).elim 0 fun info => info.localSupply.toNat

-- What the deposits bring in of a token.
def broughtIn (token : TokenKey) (deposits : List Deposit) : Nat :=
  ((deposits.filter fun d => d.token = token).map fun d => d.amount.toNat).sum

variable {env : TokenEnv} {l : TokenLedger} {event : CrossChainEvent} {d : Deposit}
  {events : List CrossChainEvent} {token : TokenKey}

private theorem deposit_log (h : event.deposit = some d) : d.log = event.log := by
  cases event <;> cases h <;> rfl

private theorem applied_receivables_none (h : event.deposit = none) :
    (event.applied l).receivables = l.receivables := by
  cases event with
  | token log tokenType decimals wrapped =>
      cases wrapped <;> cases tokenType <;> rfl
  | create => rfl
  | map => cases h
  | unmap => rfl
  | wrap => rfl
  | unwrap => cases h

private theorem applied_receivables_some (h : event.deposit = some d) :
    (event.applied l).receivables = l.receivables.put d.receivableKey d.receivable := by
  cases event <;> cases h <;> rfl

private theorem applied_tokens_some (h : event.deposit = some d) :
    (event.applied l).tokens = l.tokens.change d.token fun info =>
      { info with localSupply := info.localSupply + d.amount } := by
  cases event <;> cases h <;> rfl

theorem get_applyEvents_receivable (events : List CrossChainEvent)
    (hnodup : ((depositsOf events).map Deposit.receivableKey).Nodup) :
    (∀ d ∈ depositsOf events,
        (applyEvents l events).receivables.get d.receivableKey = some d.receivable) ∧
      ∀ key, key ∉ (depositsOf events).map Deposit.receivableKey →
        (applyEvents l events).receivables.get key = l.receivables.get key := by
  induction events generalizing l with
  | nil =>
      refine ⟨fun d hd => ?_, fun _ _ => rfl⟩
      cases hd
  | cons event events ih =>
      have hstep : applyEvents l (event :: events) = applyEvents (event.applied l) events := rfl
      cases hd : event.deposit with
      | none =>
          have hsame : depositsOf (event :: events) = depositsOf events := by
            rw [depositsOf, List.filterMap_cons_none hd, depositsOf]
          rw [hsame] at hnodup ⊢
          rw [hstep]
          have hrec := ih (l := event.applied l) hnodup
          rw [applied_receivables_none hd] at hrec
          exact hrec
      | some d =>
          have hcons : depositsOf (event :: events) = d :: depositsOf events := by
            rw [depositsOf, List.filterMap_cons_some hd, depositsOf]
          rw [hcons, List.map_cons] at hnodup ⊢
          obtain ⟨hfresh, hrest⟩ := List.nodup_cons.mp hnodup
          obtain ⟨hin, hout⟩ := ih (l := event.applied l) hrest
          rw [applied_receivables_some hd] at hout
          rw [hstep]
          constructor
          · intro other hother
            rcases List.mem_cons.mp hother with rfl | hother
            · rw [hout _ hfresh, Table.get_put, if_pos rfl]
            · exact hin other hother
          · intro key hkey
            obtain ⟨hne, hkey⟩ := not_or.mp (List.mem_cons.not.mp hkey)
            rw [hout key hkey, Table.get_put, if_neg hne]

private theorem localSupplyOf_deposit (h : event.deposit = some d) (haccepts : event.Accepts env l) :
    (event.applied l).localSupplyOf token =
      l.localSupplyOf token + if d.token = token then d.amount.toNat else 0 := by
  obtain ⟨info, hget, -, hroom⟩ := ((CrossChainEvent.accepts_deposit h).mp haccepts).credits.fits.known
  rw [TokenLedger.localSupplyOf, applied_tokens_some h, Table.get_change]
  by_cases htoken : d.token = token
  · subst htoken
    rw [if_pos rfl, if_pos rfl, TokenLedger.localSupplyOf, hget]
    change (info.localSupply + d.amount).toNat = info.localSupply.toNat + d.amount.toNat
    rw [BitVec.toNat_add, Nat.mod_eq_of_lt hroom]
  · rw [if_neg fun htoken' => htoken htoken'.symm, if_neg htoken]
    rfl

private theorem localSupplyOf_other (h : event.deposit = none) (haccepts : event.Accepts env l) :
    (event.applied l).localSupplyOf token = l.localSupplyOf token := by
  cases event with
  | map => cases h
  | unwrap => cases h
  | create => rfl
  | unmap => rfl
  | wrap => rfl
  | token log tokenType decimals wrapped =>
      cases wrapped with
      | true => rfl
      | false =>
          obtain ⟨hnew, hvalid, -⟩ := haccepts rfl
          have hput {info : TokenInfo} (hzero : info.localSupply = 0) :
              ({ l with tokens := l.tokens.put log.token info } : TokenLedger).localSupplyOf token =
                l.localSupplyOf token := by
            simp only [TokenLedger.localSupplyOf, Table.get_put]
            by_cases htoken : token = log.token
            · rw [if_pos htoken, htoken, hnew]
              simp [hzero]
            · rw [if_neg htoken]
          cases tokenType with
          | invalid => exact absurd rfl hvalid
          | t20 => exact hput rfl
          | t721 => exact hput rfl

theorem localSupplyOf_applyEvents (htaken : TakenEvents l events) (token : TokenKey) :
    (applyEvents l events).localSupplyOf token =
      l.localSupplyOf token + broughtIn token (depositsOf events) := by
  induction events generalizing l with
  | nil => rfl
  | cons event events ih =>
      obtain ⟨⟨env, haccepts⟩, hrest⟩ := htaken
      have hstep : applyEvents l (event :: events) = applyEvents (event.applied l) events := rfl
      rw [hstep, ih hrest]
      cases hd : event.deposit with
      | none => rw [localSupplyOf_other hd haccepts, depositsOf, depositsOf, List.filterMap_cons_none hd]
      | some d =>
          rw [localSupplyOf_deposit hd haccepts, depositsOf, depositsOf, List.filterMap_cons_some hd,
            broughtIn, broughtIn, List.filter_cons]
          by_cases htoken : d.token = token
          · simp only [htoken, decide_true, if_true, List.map_cons, List.sum_cons]
            omega
          · simp only [htoken, decide_false, if_false, Bool.false_eq_true, add_zero]

end Deposits

-- A list of blocks of a chain: their heights follow each other, the logs of a block
-- differ in their index, and a transaction is in one block only.
structure FromChain (chain : Chain) (blocks : List CrossChainBlockEvents) : Prop where
  own : ∀ block ∈ blocks, block.chain = chain ∧ ∀ event ∈ block.events, event.log.chain = chain
  heights : ∀ i (hi : i < blocks.length),
    (blocks[i]).blockHeight = ChainSinceHeight chain + UInt64.ofNat i
  indexes : ∀ block ∈ blocks, block.events.Pairwise fun a b => a.log.index ≠ b.log.index
  transactions : blocks.Pairwise fun a b =>
    ∀ event ∈ a.events, ∀ other ∈ b.events, event.log.txHash ≠ other.log.txHash

-- A ledger that has not followed the chain yet.
structure Unfollowed (chain : Chain) (l : TokenLedger) : Prop where
  head : l.chainHeads.get chain = none
  receivables : ∀ key receivable, l.receivables.get key = some receivable → key.chain ≠ chain

section Once

variable {l l' l'' : TokenLedger} {chain : Chain} {blocks : List CrossChainBlockEvents}

private theorem events_pairwise (h : FromChain chain blocks) :
    (blocks.flatMap CrossChainBlockEvents.events).Pairwise fun a b =>
      (a.log.txHash, a.log.index) ≠ (b.log.txHash, b.log.index) := by
  rw [List.pairwise_flatMap]
  constructor
  · intro block hblock
    exact (h.indexes block hblock).imp fun hne heq => hne (Prod.ext_iff.mp heq).2
  · exact h.transactions.imp fun hne event hevent other hother heq =>
      hne event hevent other hother (Prod.ext_iff.mp heq).1

private theorem deposits_nodup (h : FromChain chain blocks) :
    ((depositsOf (blocks.flatMap CrossChainBlockEvents.events)).map Deposit.receivableKey).Nodup := by
  rw [List.nodup_iff_pairwise_ne, List.pairwise_map, depositsOf, List.pairwise_filterMap]
  apply (events_pairwise h).imp
  intro a b hne d hd d' hd' heq
  rw [Deposit.receivableKey, Deposit.receivableKey, deposit_log hd, deposit_log hd'] at heq
  injection heq with _ _ _ htx hindex
  exact hne (Prod.ext htx hindex)

private theorem getLast_height (h : FromChain chain blocks) (hne : blocks ≠ []) :
    blocks.getLast?.map CrossChainBlockEvents.blockHeight =
      some (ChainSinceHeight chain - 1 + UInt64.ofNat blocks.length) := by
  have hpos := List.length_pos_iff.mpr hne
  have hindex : blocks.length - 1 < blocks.length := by omega
  have hlast : blocks.getLast? = some blocks[blocks.length - 1] := by
    rw [List.getLast?_eq_getElem?]
    exact List.getElem?_eq_getElem hindex
  obtain ⟨n, hn⟩ : ∃ n, blocks.length = n + 1 := ⟨blocks.length - 1, by omega⟩
  rw [hlast, Option.map_some, h.heights (blocks.length - 1) (by omega), hn, Nat.add_sub_cancel,
    UInt64.ofNat_add]
  congr 1
  have hone : UInt64.ofNat 1 = 1 := rfl
  rw [hone, UInt64.add_comm (UInt64.ofNat n) 1, ← UInt64.add_assoc, UInt64.sub_add_cancel]

-- The deposits were credited, each once.
structure CreditedOnce (l : TokenLedger) (deposits : List Deposit) (l' : TokenLedger) : Prop where
  distinct : (deposits.map Deposit.receivableKey).Nodup
  created : ∀ d ∈ deposits, l.receivables.get d.receivableKey = none ∧
    l'.receivables.get d.receivableKey = some d.receivable
  others : ∀ key, key ∉ deposits.map Deposit.receivableKey →
    l'.receivables.get key = l.receivables.get key
  supply : ∀ token, l'.localSupplyOf token = l.localSupplyOf token + broughtIn token deposits

-- Two ways to cut the blocks of a chain into batches end in the same ledger.
theorem delivered_once {batches batches' : List (List CrossChainBlockEvents)}
    (hchain : FromChain chain blocks) (hl : Unfollowed chain l)
    (hcut : batches.flatten = blocks) (hne : ∀ batch ∈ batches, batch ≠ [])
    (hcut' : batches'.flatten = blocks) (hne' : ∀ batch ∈ batches', batch ≠ [])
    (h : Delivery l batches l') (h' : Delivery l batches' l'') :
    l'' = l' ∧
      l'.chainHeads.get chain = blocks.getLast?.map CrossChainBlockEvents.blockHeight ∧
      CreditedOnce l (depositsOf (blocks.flatMap CrossChainBlockEvents.events)) l' ∧
      ∀ env l batch, Stray l batch → (processCrossChainBlocks env l batch).code ≠ none ∧
        (processCrossChainBlocks env l batch).ledger = l := by
  have hown : ∀ block ∈ blocks, block.chain = chain := fun block hblock =>
    (hchain.own block hblock).1
  obtain ⟨hfinal, htaken⟩ := h.ledger_eq hne (hcut.symm ▸ hown)
  obtain ⟨hfinal', -⟩ := h'.ledger_eq hne' (hcut'.symm ▸ hown)
  rw [hcut] at hfinal htaken
  rw [hcut'] at hfinal'
  have hnodup := deposits_nodup hchain
  obtain ⟨hin, hout⟩ := get_applyEvents_receivable (l := l) _ hnodup
  refine ⟨hfinal'.trans hfinal.symm, ?_, ⟨hnodup, ?_, ?_, ?_⟩, fun _ _ _ hstray =>
    stray_refused hstray⟩
  · rw [hfinal]
    by_cases hempty : blocks = []
    · simp [delivered, TokenLedger.withHeads, hempty, hl.head]
    · rw [getLast_height hchain hempty]
      simp [delivered, TokenLedger.withHeads, hempty, TokenLedger.chainHead, hl.head]
  · intro d hd
    obtain ⟨event, hevent, hdeposit⟩ := List.mem_filterMap.mp hd
    obtain ⟨block, hblock, hmem⟩ := List.mem_flatMap.mp hevent
    refine ⟨?_, hfinal ▸ hin d hd⟩
    have hforeign : d.receivableKey.chain = chain := by
      rw [← (hchain.own block hblock).2 event hmem, ← deposit_log hdeposit]
      rfl
    cases hget : l.receivables.get d.receivableKey with
    | none => rfl
    | some receivable => exact absurd hforeign (hl.receivables _ _ hget)
  · intro key hkey
    rw [hfinal]
    exact hout key hkey
  · intro token
    rw [hfinal]
    exact localSupplyOf_applyEvents htaken token

-- A token with two deposits, in two blocks.
def sampleLogAt (height index : Nat) (txHash : BlockHash) : CrossChainLog :=
  ⟨height, index, .ETHEREUM, 7, txHash⟩

def sampleEvents : List CrossChainBlockEvents :=
  [⟨.ETHEREUM, 15000000, [.token (sampleLogAt 15000000 0 11) .t20 18 false,
      .map (sampleLogAt 15000000 1 11) .t20 1 2 100]⟩,
    ⟨.ETHEREUM, 15000001, [.map (sampleLogAt 15000001 1 12) .t20 1 2 50]⟩]

private theorem sampleEvents_fromChain : FromChain .ETHEREUM sampleEvents where
  own := by decide
  heights := by decide
  indexes := by decide
  transactions := by decide

theorem sample_delivered_once : ∃ l' l'', Delivery .empty [sampleEvents] l' ∧
    Delivery .empty (sampleEvents.map fun block => [block]) l'' ∧ l'' = l' ∧
    l'.chainHeads.get .ETHEREUM = some 15000001 ∧ l'.localSupplyOf ⟨.ETHEREUM, 7⟩ = 150 := by
  have h : Delivery .empty [sampleEvents] _ :=
    .taken sampleTokenEnv (by decide) .done
  have h' : Delivery .empty (sampleEvents.map fun block => [block]) _ :=
    .taken sampleTokenEnv (by decide) (.taken sampleTokenEnv (by decide) .done)
  have hfresh : Unfollowed .ETHEREUM .empty :=
    ⟨rfl, fun key receivable hget => by cases hget⟩
  obtain ⟨hsame, hhead, hcredited, -⟩ := delivered_once sampleEvents_fromChain hfresh
    rfl (by decide) rfl (by decide) h h'
  exact ⟨_, _, h, h', hsame, hhead, hcredited.supply ⟨.ETHEREUM, 7⟩⟩

end Once

end Raicoin
