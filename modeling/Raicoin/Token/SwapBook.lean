import Raicoin.Token.Runs

-- The orders and the swaps by themselves, and the moves that the changes of a token ledger make
-- in them.
namespace Raicoin

open Lib

structure SwapBook where
  counters : Table Account AccountSwapInfo
  orders : Table (Account × Nat) OrderInfo
  orderIndexes : Table OrderIndex Unit
  swaps : Table (Account × Nat) SwapInfo
  inquiryWaitings : Table InquiryWaiting Unit
  takeWaitings : Table TakeWaiting Unit

namespace SwapBook

variable (b : SwapBook)

def counter (account : Account) : AccountSwapInfo := (b.counters.get account).getD .init

def counted (account : Account) (count : AccountSwapInfo → AccountSwapInfo) : SwapBook :=
  { b with counters := b.counters.put account (count (b.counter account)) }

def adjusted (account : Account) (adjust : AccountSwapInfo → AccountSwapInfo) : SwapBook :=
  { b with counters := b.counters.change account adjust }

def swapOpened (account : Account) : SwapBook :=
  b.adjusted account fun info => { info with activeSwaps := info.activeSwaps + 1 }

def swapClosed (account : Account) : SwapBook :=
  b.adjusted account fun info => { info with activeSwaps := info.activeSwaps - 1 }

def orderClosed (account : Account) (finished : Bool) (index : OrderIndex) : SwapBook :=
  { b with
    orderIndexes := if finished then b.orderIndexes.del index else b.orderIndexes
    counters := if finished then
        b.counters.change account fun info => { info with activeOrders := info.activeOrders - 1 }
      else b.counters }

def made (maker : Account) (height : Nat) (order : OrderInfo) : SwapBook :=
  { b with
    orders := b.orders.put (maker, height) order
    orderIndexes := b.orderIndexes.put (order.getIndex maker height) ()
    : SwapBook }.counted maker fun info =>
      { info with activeOrders := info.activeOrders + 1, totalOrders := info.totalOrders + 1 }

def inquired (taker : Account) (height : Nat) (swap : SwapInfo) (main : Account) : SwapBook :=
  { b with
    swaps := b.swaps.put (taker, height) swap
    inquiryWaitings := b.inquiryWaitings.put ⟨main, swap.inquiryAckHeight, taker, height⟩ ()
    : SwapBook }.counted taker fun info => { info with totalSwaps := info.totalSwaps + 1 }

def inquiryAcked (main : Account) (height : Nat) (key : Account × Nat) (swap : SwapInfo) :
    SwapBook :=
  (({ b with
    swaps := b.swaps.put key swap
    inquiryWaitings := b.inquiryWaitings.del ⟨main, height, key.1, key.2⟩
    : SwapBook }.counted swap.maker fun info =>
      { info with totalSwaps := info.totalSwaps + 1 }).swapOpened swap.maker).swapOpened key.1

def taken (key : Account × Nat) (swap : SwapInfo) : SwapBook :=
  { b with
    swaps := b.swaps.put key swap
    takeWaitings := b.takeWaitings.put ⟨swap.maker, swap.tradeHeight, key.1, key.2⟩ () }

-- The swap ends with an offer of `value`, and the order with it if nothing of it is left.
def takeAcked (height : Nat) (key : Account × Nat) (swap : SwapInfo) (order : OrderInfo)
    (value : TokenValue) : SwapBook :=
  let filled := order.filled value height
  let closed := { b with
    swaps := b.swaps.put key { swap with status := .takeAck }
    takeWaitings := b.takeWaitings.del ⟨swap.maker, swap.tradeHeight, key.1, key.2⟩
    orders := b.orders.put (swap.maker, swap.orderHeight) filled
    : SwapBook }.orderClosed swap.maker filled.finished
      (filled.getIndex swap.maker swap.orderHeight)
  (closed.swapClosed swap.maker).swapClosed key.1

def cancelled (maker : Account) (orderHeight height : Nat) (order : OrderInfo) : SwapBook :=
  { b with
    orders := b.orders.put (maker, orderHeight) (order.cancelled height)
    : SwapBook }.orderClosed maker true ((order.cancelled height).getIndex maker orderHeight)

def inquiryNacked (main : Account) (height : Nat) (key : Account × Nat) (swap : SwapInfo) :
    SwapBook :=
  { b with
    swaps := b.swaps.put key { swap with status := .inquiryNack }
    inquiryWaitings := b.inquiryWaitings.del ⟨main, height, key.1, key.2⟩ }

def takeNacked (maker : Account) (height : Nat) (key : Account × Nat) (swap : SwapInfo) :
    SwapBook :=
  { b with
    swaps := b.swaps.put key { swap with status := .takeNack }
    takeWaitings := b.takeWaitings.del ⟨maker, height, key.1, key.2⟩ }

end SwapBook

inductive SwapMove : ChangeKind → SwapBook → SwapBook → Prop where
  | quiet {kind : ChangeKind} {b : SwapBook}
      (hkind : ∀ ack, kind ≠ .operated (.swap (.takeAck ack))) : SwapMove kind b b
  | timed {kind : ChangeKind} {b : SwapBook} {account : Account}
      {set : AccountSwapInfo → AccountSwapInfo}
      (hkind : ∀ ack, kind ≠ .operated (.swap (.takeAck ack)))
      (hset : ∀ info, (set info).activeOrders = info.activeOrders ∧
        (set info).activeSwaps = info.activeSwaps) : SwapMove kind b (b.counted account set)
  | made {b : SwapBook} {env : TokenEnv} {block : Block} {make : ExtensionTokenSwapMake}
      {main : Account} (checked : make.checkData = .ok ())
      (hnew : b.orders.get (block.account, block.height) = none)
      (hquota : (b.counter block.account).activeOrders < block.credit * ORDERS_PER_CREDIT) :
      SwapMove (.operated (.swap (.make make))) b
        (b.made block.account block.height (makeOrder env block make main))
  | inquired {b : SwapBook} {inquiry : ExtensionTokenSwapInquiry} {taker : Account} {height : Nat}
      {swap : SwapInfo} {order : OrderInfo} (hnew : b.swaps.get (taker, height) = none)
      (hstatus : swap.status = .inquiry) (hother : swap.maker ≠ taker)
      (horder : b.orders.get (swap.maker, swap.orderHeight) = some order)
      (hmain : order.main ≠ taker) :
      SwapMove (.operated (.swap (.inquiry inquiry))) b (b.inquired taker height swap order.main)
  | inquiryAcked {b : SwapBook} {ack : ExtensionTokenSwapInquiryAck} {main : Account}
      {height : Nat} {swap acked : SwapInfo}
      (hwaiting : b.inquiryWaitings.get ⟨main, height, ack.taker, ack.inquiryHeight⟩ = some ())
      (hswap : b.swaps.get (ack.taker, ack.inquiryHeight) = some swap)
      (hstatus : swap.status = .inquiry)
      (hacked : ∃ previous, acked = { swap with
        status := .inquiryAck
        makerShare := ack.share
        makerSignature := ack.signature
        tradePrevious := previous
        tradeHeight := ack.tradeHeight })
      (hknown : ack.taker ≠ swap.maker → (b.counters.get ack.taker).isSome) :
      SwapMove (.operated (.swap (.inquiryAck ack))) b
        (b.inquiryAcked main height (ack.taker, ack.inquiryHeight) acked)
  | taken {b : SwapBook} {inquiryHeight : Nat} {taker : Account} {height : Nat} {swap : SwapInfo}
      {order : OrderInfo} (hswap : b.swaps.get (taker, inquiryHeight) = some swap)
      (hstatus : swap.status = .inquiryAck)
      (horder : b.orders.get (swap.maker, swap.orderHeight) = some order) :
      SwapMove (.operated (.swap (.take inquiryHeight))) b
        (b.taken (taker, inquiryHeight) { swap with status := .take, takeHeight := height })
  | takeAcked {b : SwapBook} {ack : ExtensionTokenSwapTakeAck} {height : Nat} {swap : SwapInfo}
      {order : OrderInfo}
      (hwaiting : b.takeWaitings.get ⟨swap.maker, swap.tradeHeight, ack.taker, ack.inquiryHeight⟩ =
        some ())
      (hswap : b.swaps.get (ack.taker, ack.inquiryHeight) = some swap)
      (hstatus : swap.status = .take)
      (horder : b.orders.get (swap.maker, swap.orderHeight) = some order)
      (hunfinished : order.finished = false)
      (hvalue : checkTakeAckValue_ order swap.value ack.value = false) :
      SwapMove (.operated (.swap (.takeAck ack))) b
        (b.takeAcked height (ack.taker, ack.inquiryHeight) swap order ack.value)
  | cancelled {b : SwapBook} {maker : Account} {orderHeight height : Nat} {order : OrderInfo}
      (horder : b.orders.get (maker, orderHeight) = some order)
      (hunfinished : order.finished = false) :
      SwapMove (.operated (.swap (.cancel orderHeight))) b
        (b.cancelled maker orderHeight height order)
  | inquiryNacked {b : SwapBook} {main : Account} {height : Nat} {key : Account × Nat}
      {swap : SwapInfo} (hswap : b.swaps.get key = some swap) (hstatus : swap.status = .inquiry)
      (hwaiting : b.inquiryWaitings.get ⟨main, height, key.1, key.2⟩ = some ()) :
      SwapMove .inquiryNacked b (b.inquiryNacked main height key swap)
  | takeNacked {b : SwapBook} {maker : Account} {height : Nat} {key : Account × Nat}
      {swap : SwapInfo} {order : OrderInfo} (hswap : b.swaps.get key = some swap)
      (hstatus : swap.status = .take)
      (horder : b.orders.get (swap.maker, swap.orderHeight) = some order)
      (hwaiting : b.takeWaitings.get ⟨maker, height, key.1, key.2⟩ = some ()) :
      SwapMove .takeNacked b (b.takeNacked maker height key swap)

-- The ledger side: the tables, and that its changes are moves.
section Ledger

def TokenLedger.swapBook (l : TokenLedger) : SwapBook where
  counters := l.accountSwaps
  orders := l.orders
  orderIndexes := l.orderIndexes
  swaps := l.swaps
  inquiryWaitings := l.inquiryWaitings
  takeWaitings := l.takeWaitings

-- The list of token blocks of the account has got as far as the height.
def TokenLedger.Covers (l : TokenLedger) (key : Account × Nat) : Prop :=
  ∃ held, l.accountsTokens.get key.1 = some held ∧ key.2 ≤ held.head

-- Orders and swaps are known by blocks that have been listed.
structure TokenLedger.SwapsCovered (l : TokenLedger) : Prop where
  orders : ∀ key order, l.orders.get key = some order → l.Covers key
  swaps : ∀ key swap, l.swaps.get key = some swap → l.Covers key

theorem TokenLedger.SwapsCovered.empty : TokenLedger.empty.SwapsCovered := by
  constructor
  · intro key order hget
    cases hget
  · intro key swap hget
    cases hget

variable {base : Env} {env : TokenEnv} {block : Block} {token : ExtensionToken} {kind : ChangeKind}
  {l l' : TokenLedger}

theorem TokenLedger.Awaits.not_covers (h : l.Awaits block) :
    ¬l.Covers (block.account, block.height) := by
  rintro ⟨held, hheld, hle⟩
  have := h held hheld
  dsimp only at hle
  omega

-- A list that has been extended covers what it covered, and its last block.
def ListedBy (block : Block) (l l' : TokenLedger) : Prop :=
  ∃ blocks, l'.accountsTokens = l.accountsTokens.put block.account ⟨block.height, blocks⟩

theorem ListedBy.covers (h : ListedBy block l l') (hawaits : l.Awaits block) {key : Account × Nat}
    (hkey : l.Covers key ∨ key = (block.account, block.height)) : l'.Covers key := by
  obtain ⟨blocks, hblocks⟩ := h
  unfold TokenLedger.Covers
  rw [hblocks]
  simp only [Table.get_put]
  rcases hkey with ⟨held, hheld, hle⟩ | rfl
  · by_cases haccount : key.1 = block.account
    · rw [if_pos haccount]
      rw [haccount] at hheld
      have := hawaits held hheld
      exact ⟨_, rfl, by dsimp only; omega⟩
    · rw [if_neg haccount]
      exact ⟨held, hheld, hle⟩
  · rw [if_pos rfl]
    exact ⟨_, rfl, Nat.le_refl _⟩

theorem Operated.listedBy (h : Operated env block l token l') : ListedBy block l l' := by
  cases h <;> exact ⟨_, rfl⟩

theorem Operated.orders_key (h : Operated env block l token l') {key : Account × Nat}
    {order : OrderInfo} (hget : l'.orders.get key = some order) :
    (∃ old, l.orders.get key = some old) ∨ key = (block.account, block.height) := by
  cases h with
  | @make make plan hplan =>
      have hput : (l.orders.put (block.account, block.height) plan.order).get key = some order := hget
      rw [Table.get_put] at hput
      by_cases hkey : key = (block.account, block.height)
      · exact .inr hkey
      · rw [if_neg hkey] at hput
        exact .inl ⟨_, hput⟩
  | @takeAck ack plan hplan hwant =>
      have hput : (l.orders.put (plan.swap.maker, plan.swap.orderHeight)
        (plan.order.filled ack.value block.height)).get key = some order := hget
      rw [Table.get_put] at hput
      by_cases hkey : key = (plan.swap.maker, plan.swap.orderHeight)
      · rw [hkey]
        exact .inl ⟨_, (swapTakeAckPlan_ok hplan).order⟩
      · rw [if_neg hkey] at hput
        exact .inl ⟨_, hput⟩
  | @cancel orderHeight plan hplan =>
      have hput : (l.orders.put (block.account, orderHeight)
        (plan.order.cancelled block.height)).get key = some order := hget
      rw [Table.get_put] at hput
      by_cases hkey : key = (block.account, orderHeight)
      · rw [hkey]
        exact .inl ⟨_, (swapCancelPlan_ok hplan).order⟩
      · rw [if_neg hkey] at hput
        exact .inl ⟨_, hput⟩
  | _ => exact .inl ⟨order, hget⟩

theorem Operated.swaps_key (h : Operated env block l token l') {key : Account × Nat}
    {swap : SwapInfo} (hget : l'.swaps.get key = some swap) :
    (∃ old, l.swaps.get key = some old) ∨ key = (block.account, block.height) := by
  -- the swap that is put, and that it was there
  have known {place : Account × Nat} {old new : SwapInfo} (hold : l.swaps.get place = some old)
      (hput : (l.swaps.put place new).get key = some swap) :
      (∃ old, l.swaps.get key = some old) ∨ key = (block.account, block.height) := by
    rw [Table.get_put] at hput
    by_cases hkey : key = place
    · rw [hkey]
      exact .inl ⟨_, hold⟩
    · rw [if_neg hkey] at hput
      exact .inl ⟨_, hput⟩
  cases h with
  | @inquiry inquiry plan hplan =>
      have hput : (l.swaps.put (block.account, block.height) (newSwap env block inquiry)).get key =
        some swap := hget
      rw [Table.get_put] at hput
      by_cases hkey : key = (block.account, block.height)
      · exact .inr hkey
      · rw [if_neg hkey] at hput
        exact .inl ⟨_, hput⟩
  | inquiryAck hplan hknown =>
      obtain ⟨old, hacks⟩ := swapInquiryAckPlan_ok hplan
      exact known hacks.found hget
  | take hplan => exact known (swapTakePlan_ok hplan).swap hget
  | takeAck hplan hwant => exact known (swapTakeAckPlan_ok hplan).swap hget
  | _ => exact .inl ⟨swap, hget⟩

theorem event_swapBook (event : CrossChainEvent) : (event.applied l).swapBook = l.swapBook := by
  cases event with
  | token log tokenType decimals wrapped =>
      cases wrapped <;> cases tokenType <;> rfl
  | _ => rfl

theorem event_accountsTokens (event : CrossChainEvent) :
    (event.applied l).accountsTokens = l.accountsTokens := by
  cases event with
  | token log tokenType decimals wrapped =>
      cases wrapped <;> cases tokenType <;> rfl
  | _ => rfl

theorem noted_listedBy {status : Option ErrorCode} {value : TokenValue} {valueOp : ValueOp}
    {key : Option TokenKey} : ListedBy block l (l.noted env block status value valueOp key) :=
  ⟨_, rfl⟩

theorem TokenChange.swapsCovered (hcovered : l.SwapsCovered) (h : TokenChange base kind l l') :
    l'.SwapsCovered := by
  -- the tables keep their keys, and the lists do not change
  have steady (haccounts : l'.accountsTokens = l.accountsTokens)
      (horders : ∀ key order, l'.orders.get key = some order → ∃ old, l.orders.get key = some old)
      (hswaps : ∀ key swap, l'.swaps.get key = some swap → ∃ old, l.swaps.get key = some old) :
      l'.SwapsCovered := by
    constructor
    · intro key order hget
      obtain ⟨old, hold⟩ := horders key order hget
      unfold TokenLedger.Covers
      rw [haccounts]
      exact hcovered.orders key old hold
    · intro key swap hget
      obtain ⟨old, hold⟩ := hswaps key swap hget
      unfold TokenLedger.Covers
      rw [haccounts]
      exact hcovered.swaps key old hold
  cases h with
  | noted _ _ hawaits =>
      exact ⟨fun key order hget => noted_listedBy.covers hawaits (.inl (hcovered.orders key order hget)),
        fun key swap hget => noted_listedBy.covers hawaits (.inl (hcovered.swaps key swap hget))⟩
  | operated _ _ hawaits _ hoperated =>
      constructor
      · intro key order hget
        refine hoperated.listedBy.covers hawaits ?_
        rcases hoperated.orders_key hget with ⟨old, hold⟩ | hkey
        · exact .inl (hcovered.orders key old hold)
        · exact .inr hkey
      · intro key swap hget
        refine hoperated.listedBy.covers hawaits ?_
        rcases hoperated.swaps_key hget with ⟨old, hold⟩ | hkey
        · exact .inl (hcovered.swaps key old hold)
        · exact .inr hkey
  | @inquiryNacked l main height place info hswap hstatus hwaiting =>
      refine steady rfl (fun key order hget => ⟨order, hget⟩) fun key swap hget => ?_
      by_cases hkey : key = place
      · exact ⟨info, hkey ▸ hswap⟩
      · simp only [TokenLedger.inquiryNacked, Table.get_put, if_neg hkey] at hget
        exact ⟨swap, hget⟩
  | @takeNacked env henv block l place plan hplan hwaiting =>
      refine steady rfl (fun key order hget => ⟨order, hget⟩) fun key swap hget => ?_
      by_cases hkey : key = place
      · exact ⟨plan.swap, hkey ▸ (refundPlan_ok hplan).swap⟩
      · simp only [TokenLedger.takeNacked, TokenLedger.credited, Table.get_put, if_neg hkey] at hget
        exact ⟨swap, hget⟩
  | @event env henv l event haccepts =>
      have horders : (event.applied l).orders = l.orders :=
        congrArg SwapBook.orders (event_swapBook event)
      have hswaps : (event.applied l).swaps = l.swaps :=
        congrArg SwapBook.swaps (event_swapBook event)
      refine steady (event_accountsTokens event) (fun key order hget => ⟨order, ?_⟩)
        fun key swap hget => ⟨swap, ?_⟩
      · rw [← horders]
        exact hget
      · rw [← hswaps]
        exact hget
  | headed => exact ⟨hcovered.orders, hcovered.swaps⟩
  | native => exact ⟨hcovered.orders, hcovered.swaps⟩

-- Every change is a move, or leaves the book alone.
theorem Operated.swapMove (hcovered : l.SwapsCovered) (hawaits : l.Awaits block)
    (checked : token.checkData = .ok ()) (h : Operated env block l token l') :
    SwapMove (.operated token) l.swapBook l'.swapBook := by
  have fresh {α : Type} {found : Option α}
      (hcovers : ∀ a, found = some a → l.Covers (block.account, block.height)) : found = none := by
    cases hfound : found with
    | none => rfl
    | some a => exact absurd (hcovers a hfound) hawaits.not_covers
  cases h with
  | @make make plan hplan =>
      have hmakes := swapMakePlan_ok hplan
      obtain ⟨main, horder⟩ := hmakes.order
      have hmove : SwapMove (.operated (.swap (.make make))) l.swapBook
          (l.swapBook.made block.account block.height (makeOrder env block make main)) :=
        .made checked (fresh fun order hget => hcovered.orders _ order hget) hmakes.quota
      rw [← horder] at hmove
      exact hmove
  | @inquiry inquiry plan hplan =>
      have hinquires := swapInquiryPlan_ok hplan
      exact .inquired (fresh fun swap hget => hcovered.swaps _ swap hget) rfl hinquires.other
        hinquires.order hinquires.main
  | @inquiryAck ack plan hplan hknown =>
      obtain ⟨swap, hacks⟩ := swapInquiryAckPlan_ok hplan
      obtain ⟨previous, -, hacked⟩ := hacks.acked
      refine .inquiryAcked hacks.waiting hacks.found hacks.status ⟨_, hacked⟩ fun hne => hknown ?_
      rw [hacked]
      exact hne
  | @take inquiryHeight plan hplan =>
      have htakes := swapTakePlan_ok hplan
      exact .taken htakes.swap htakes.status htakes.order
  | @takeAck ack plan hplan hwant =>
      have hacks := swapTakeAckPlan_ok hplan
      have hbook : (l.takeAcked env block ack plan).swapBook = l.swapBook.takeAcked block.height
          (ack.taker, ack.inquiryHeight) plan.swap plan.order ack.value := by
        unfold TokenLedger.takeAcked SwapBook.takeAcked
        simp only [hacks.maker, hacks.tradeHeight]
        rfl
      rw [hbook]
      refine .takeAcked ?_ hacks.swap hacks.status hacks.order hacks.unfinished hacks.value
      rw [hacks.maker, hacks.tradeHeight]
      exact hacks.waiting
  | @cancel orderHeight plan hplan =>
      have hcancels := swapCancelPlan_ok hplan
      exact .cancelled hcancels.order hcancels.unfinished
  | pinged hset =>
      refine .timed (by simp) fun info => ?_
      obtain ⟨ping, hping⟩ := hset info
      rw [hping]
      exact ⟨rfl, rfl⟩
  | ponged hset =>
      refine .timed (by simp) fun info => ?_
      obtain ⟨pong, hpong⟩ := hset info
      rw [hpong]
      exact ⟨rfl, rfl⟩
  | _ => exact .quiet (by simp)

theorem TokenChange.swapMove (hcovered : l.SwapsCovered) (h : TokenChange base kind l l') :
    SwapMove kind l.swapBook l'.swapBook := by
  cases h with
  | noted => exact .quiet (by simp)
  | operated _ _ hawaits checked hoperated => exact hoperated.swapMove hcovered hawaits checked
  | inquiryNacked hswap hstatus hwaiting => exact .inquiryNacked hswap hstatus hwaiting
  | takeNacked _ hplan hwaiting =>
      have hrefunds := refundPlan_ok hplan
      exact .takeNacked hrefunds.swap hrefunds.status hrefunds.order hwaiting
  | event henv haccepts =>
      rw [event_swapBook]
      exact .quiet (by simp)
  | headed => exact .quiet (by simp)
  | native => exact .quiet (by simp)

end Ledger

end Raicoin
