import Raicoin.Properties.Orders

-- The counters of the orders and the swaps of an account, and the index of its orders.
namespace Raicoin

open Lib

section Counts

variable {active active' : Account → Nat} {orders : Table (Account × Nat) OrderInfo}
  {indexes : Table OrderIndex Unit} {swaps : Table (Account × Nat) SwapInfo}
  {key : Account × Nat} {order old : OrderInfo} {swap new : SwapInfo}

def OrderInfo.activeOf (account : Account) (key : Account × Nat) (order : OrderInfo) : Prop :=
  key.1 = account ∧ order.finished = false

instance (account : Account) (key : Account × Nat) (order : OrderInfo) :
    Decidable (order.activeOf account key) :=
  inferInstanceAs (Decidable (_ ∧ _))

-- The types of an order are ones that it can have.
def OrderInfo.Typed (order : OrderInfo) : Prop :=
  order.typeOffer ≠ .invalid ∧ order.typeWant ≠ .invalid

structure OrdersCounted (active : Account → Nat) (orders : Table (Account × Nat) OrderInfo)
    (indexes : Table OrderIndex Unit) : Prop where
  active : ∀ account, active account = orders.count (OrderInfo.activeOf account)
  index : ∀ index, (∃ u, indexes.get index = some u) ↔ ∃ key order, orders.get key = some order ∧
    order.finished = false ∧ order.getIndex key.1 key.2 = index
  typed : ∀ key order, orders.get key = some order → order.Typed

theorem OrderInfo.Typed.getIndex_key (h : order.Typed) (maker : Account) (height : Nat) :
    (order.getIndex maker height).maker = maker ∧ (order.getIndex maker height).height = height := by
  obtain ⟨hoffer, hwant⟩ := h
  unfold OrderInfo.getIndex
  cases hO : order.typeOffer <;> cases hW : order.typeWant <;>
    first
    | exact absurd hO hoffer
    | exact absurd hW hwant
    | exact ⟨rfl, rfl⟩

-- No two orders have one index.
theorem OrderInfo.Typed.getIndex_inj {other : OrderInfo} {place : Account × Nat} (h : order.Typed)
    (hother : other.Typed) (heq : order.getIndex key.1 key.2 = other.getIndex place.1 place.2) :
    key = place := by
  obtain ⟨hmaker, hheight⟩ := h.getIndex_key key.1 key.2
  obtain ⟨hmaker', hheight'⟩ := hother.getIndex_key place.1 place.2
  rw [heq] at hmaker hheight
  exact Prod.ext (hmaker.symm.trans hmaker') (hheight.symm.trans hheight')

theorem OrdersCounted.put_new (h : OrdersCounted active orders indexes)
    (hnew : orders.get key = none) (hunfinished : order.finished = false) (htyped : order.Typed)
    (hactive : ∀ account, active' account = active account + if key.1 = account then 1 else 0) :
    OrdersCounted active' (orders.put key order)
      (indexes.put (order.getIndex key.1 key.2) ()) := by
  constructor
  · intro account
    rw [hactive, h.active, Table.count_put_new _ _ hnew]
    simp only [OrderInfo.activeOf, hunfinished, and_true]
  · intro index
    rw [Table.get_put]
    by_cases hindex : index = order.getIndex key.1 key.2
    · rw [if_pos hindex]
      exact ⟨fun _ => ⟨key, order, by simp, hunfinished, hindex.symm⟩, fun _ => ⟨(), rfl⟩⟩
    · rw [if_neg hindex, h.index]
      constructor
      · rintro ⟨place, found, hget, hopen, rfl⟩
        have hplace : place ≠ key := by
          rintro rfl
          rw [hnew] at hget
          cases hget
        exact ⟨place, found, by rw [Table.get_put, if_neg hplace]; exact hget, hopen, rfl⟩
      · rintro ⟨place, found, hget, hopen, rfl⟩
        rw [Table.get_put] at hget
        by_cases hplace : place = key
        · rw [if_pos hplace] at hget
          cases hget
          rw [hplace] at hindex
          exact absurd rfl hindex
        · rw [if_neg hplace] at hget
          exact ⟨place, found, hget, hopen, rfl⟩
  · intro place found hget
    rw [Table.get_put] at hget
    by_cases hplace : place = key
    · rw [if_pos hplace] at hget
      cases hget
      exact htyped
    · rw [if_neg hplace] at hget
      exact h.typed place found hget

-- An order that keeps its index may end, and then the index and the count lose it.
theorem OrdersCounted.put (h : OrdersCounted active orders indexes)
    (hold : orders.get key = some old) (hunfinished : old.finished = false) (htyped : order.Typed)
    (hindex : order.getIndex key.1 key.2 = old.getIndex key.1 key.2)
    (hactive : ∀ account, active' account +
      (if order.finished = true ∧ key.1 = account then 1 else 0) = active account) :
    OrdersCounted active' (orders.put key order)
      (if order.finished then indexes.del (order.getIndex key.1 key.2) else indexes) := by
  have htypedOld := h.typed key old hold
  constructor
  · intro account
    have hcount := Table.count_put (p := OrderInfo.activeOf account) orders order hold
    have hafter := hactive account
    rw [h.active account] at hafter
    simp only [OrderInfo.activeOf, hunfinished, and_true] at hcount
    cases hfinished : order.finished with
    | true =>
        simp only [hfinished, reduceCtorEq, and_false, if_false, true_and] at hcount hafter
        omega
    | false =>
        simp only [hfinished, reduceCtorEq, false_and, if_false, and_true] at hcount hafter
        omega
  · intro index
    have hothers (place : Account × Nat) (hplace : place ≠ key) (found : OrderInfo) :
        (orders.put key order).get place = some found ↔ orders.get place = some found := by
      rw [Table.get_put, if_neg hplace]
    cases hfinished : order.finished with
    | true =>
        rw [if_pos rfl, Table.get_del, hindex]
        by_cases hgone : index = old.getIndex key.1 key.2
        · rw [if_pos hgone]
          constructor
          · rintro ⟨_, hnone⟩
            cases hnone
          · rintro ⟨place, found, hget, hopen, hfound⟩
            by_cases hplace : place = key
            · rw [hplace, Table.get_put, if_pos rfl] at hget
              cases hget
              rw [hfinished] at hopen
              cases hopen
            · have hget' := (hothers place hplace found).mp hget
              exact absurd ((h.typed place found hget').getIndex_inj htypedOld
                (hfound.trans hgone)) hplace
        · rw [if_neg hgone, h.index]
          constructor
          · rintro ⟨place, found, hget, hopen, hfound⟩
            have hplace : place ≠ key := by
              rintro rfl
              cases hold.symm.trans hget
              exact hgone hfound.symm
            exact ⟨place, found, (hothers place hplace found).mpr hget, hopen, hfound⟩
          · rintro ⟨place, found, hget, hopen, hfound⟩
            by_cases hplace : place = key
            · rw [hplace, Table.get_put, if_pos rfl] at hget
              cases hget
              rw [hfinished] at hopen
              cases hopen
            · exact ⟨place, found, (hothers place hplace found).mp hget, hopen, hfound⟩
    | false =>
        rw [if_neg (by simp), h.index]
        constructor
        · rintro ⟨place, found, hget, hopen, hfound⟩
          by_cases hplace : place = key
          · subst hplace
            cases hold.symm.trans hget
            exact ⟨place, order, by simp, hfinished, hindex.trans hfound⟩
          · exact ⟨place, found, (hothers place hplace found).mpr hget, hopen, hfound⟩
        · rintro ⟨place, found, hget, hopen, hfound⟩
          by_cases hplace : place = key
          · subst hplace
            rw [Table.get_put, if_pos rfl] at hget
            cases hget
            exact ⟨place, old, hold, hunfinished, hindex.symm.trans hfound⟩
          · exact ⟨place, found, (hothers place hplace found).mp hget, hopen, hfound⟩
  · intro place found hget
    rw [Table.get_put] at hget
    by_cases hplace : place = key
    · rw [if_pos hplace] at hget
      cases hget
      exact htyped
    · rw [if_neg hplace] at hget
      exact h.typed place found hget

-- The swaps that the counters hold: all that were acknowledged and have not been traded.
def SwapInfo.held (swap : SwapInfo) : Bool :=
  swap.status = .inquiryAck || swap.status = .take || swap.status = .takeNack

def SwapInfo.heldBy (account : Account) (key : Account × Nat) (swap : SwapInfo) : Prop :=
  (key.1 = account ∨ swap.maker = account) ∧ swap.held = true

instance (account : Account) (key : Account × Nat) (swap : SwapInfo) :
    Decidable (swap.heldBy account key) :=
  inferInstanceAs (Decidable (_ ∧ _))

structure SwapsCounted (active : Account → Nat) (swaps : Table (Account × Nat) SwapInfo) :
    Prop where
  active : ∀ account, active account = swaps.count (SwapInfo.heldBy account)
  other : ∀ key swap, swaps.get key = some swap → swap.maker ≠ key.1

private theorem put_other (h : ∀ key swap, swaps.get key = some swap → swap.maker ≠ key.1)
    (hnew : new.maker ≠ key.1) :
    ∀ place found, (swaps.put key new).get place = some found → found.maker ≠ place.1 := by
  intro place found hget
  rw [Table.get_put] at hget
  by_cases hplace : place = key
  · rw [if_pos hplace] at hget
    cases hget
    rw [hplace]
    exact hnew
  · rw [if_neg hplace] at hget
    exact h place found hget

theorem SwapsCounted.put_new (h : SwapsCounted active swaps) (hnone : swaps.get key = none)
    (hheld : new.held = false) (hother : new.maker ≠ key.1) :
    SwapsCounted active (swaps.put key new) := by
  refine ⟨fun account => ?_, put_other h.other hother⟩
  rw [Table.count_put_new _ _ hnone, h.active account, if_neg (by simp [SwapInfo.heldBy, hheld])]
  rfl

theorem SwapsCounted.put (h : SwapsCounted active swaps) (hold : swaps.get key = some swap)
    (hmaker : new.maker = swap.maker)
    (hactive : ∀ account, active' account + (if swap.heldBy account key then 1 else 0) =
      active account + if new.heldBy account key then 1 else 0) :
    SwapsCounted active' (swaps.put key new) := by
  refine ⟨fun account => ?_, put_other h.other ?_⟩
  · have hcount := Table.count_put (p := SwapInfo.heldBy account) swaps new hold
    have hafter := hactive account
    rw [h.active account] at hafter
    omega
  · rw [hmaker]
    exact h.other key swap hold

-- A swap that the counters go on holding, or not.
theorem SwapsCounted.put_same (h : SwapsCounted active swaps) (hold : swaps.get key = some swap)
    (hmaker : new.maker = swap.maker) (hheld : new.held = swap.held) :
    SwapsCounted active (swaps.put key new) := by
  refine h.put hold hmaker fun account => ?_
  have hsame : new.heldBy account key ↔ swap.heldBy account key := by
    unfold SwapInfo.heldBy
    rw [hmaker, hheld]
  simp only [hsame]

end Counts

-- What the moves make of the counters.
namespace SwapBook

variable {b b' : SwapBook} {account other : Account} {kind : ChangeKind}
  {count : AccountSwapInfo → AccountSwapInfo}

theorem counter_counted : (b.counted account count).counter other =
    if other = account then count (b.counter account) else b.counter other := by
  unfold counter counted
  rw [Table.get_put]
  by_cases h : other = account
  · rw [if_pos h, if_pos h]
    rfl
  · rw [if_neg h, if_neg h]

theorem counter_adjusted (hknown : (b.counters.get account).isSome) :
    (b.adjusted account count).counter other =
      if other = account then count (b.counter account) else b.counter other := by
  obtain ⟨info, hinfo⟩ := Option.isSome_iff_exists.mp hknown
  unfold counter adjusted
  rw [Table.get_change, hinfo]
  by_cases h : other = account
  · rw [if_pos h, if_pos h]
    rfl
  · rw [if_neg h, if_neg h]

-- An account that has something to count has counters.
theorem known_of_active (h : (b.counter account).activeOrders ≠ 0 ∨ (b.counter account).activeSwaps ≠ 0) :
    (b.counters.get account).isSome := by
  cases hget : b.counters.get account with
  | some info => rfl
  | none =>
      rw [counter, hget] at h
      simp [AccountSwapInfo.init] at h

def activeOrders (b : SwapBook) (account : Account) : Nat := (b.counter account).activeOrders

def activeSwaps (b : SwapBook) (account : Account) : Nat := (b.counter account).activeSwaps

section Kept

variable {β : Type} {f : AccountSwapInfo → β}

private theorem counter_kept_counted (hkeep : ∀ info, f (count info) = f info) :
    f ((b.counted account count).counter other) = f (b.counter other) := by
  rw [counter_counted]
  split_ifs with h
  · rw [hkeep, h]
  · rfl

private theorem counter_kept_adjusted (hkeep : ∀ info, f (count info) = f info) :
    f ((b.adjusted account count).counter other) = f (b.counter other) := by
  cases hget : b.counters.get account with
  | none =>
      unfold adjusted Table.change
      rw [hget]
  | some info =>
      rw [counter_adjusted (by rw [hget]; rfl)]
      split_ifs with h
      · rw [hkeep, h]
      · rfl

end Kept

theorem known_counted : ((b.counted account count).counters.get account).isSome := by
  simp [counted]

theorem known_adjusted {second : Account} (h : (b.counters.get account).isSome) :
    ((b.adjusted second count).counters.get account).isSome := by
  unfold adjusted
  rw [Table.get_change]
  split_ifs with hsecond
  · rw [← hsecond, Option.isSome_map]
    exact h
  · exact h

theorem activeSwaps_swapOpened (hknown : (b.counters.get account).isSome) :
    (b.swapOpened account).activeSwaps other =
      b.activeSwaps other + if account = other then 1 else 0 := by
  unfold activeSwaps swapOpened
  rw [counter_adjusted hknown]
  by_cases h : other = account
  · rw [if_pos h, if_pos h.symm, h]
  · rw [if_neg h, if_neg (Ne.symm h), Nat.add_zero]

theorem activeSwaps_swapClosed (hpos : b.activeSwaps account ≠ 0) :
    (b.swapClosed account).activeSwaps other + (if account = other then 1 else 0) =
      b.activeSwaps other := by
  unfold activeSwaps swapClosed
  rw [counter_adjusted (known_of_active (.inr hpos))]
  by_cases h : other = account
  · rw [if_pos h, if_pos h.symm, h]
    exact Nat.succ_pred hpos
  · rw [if_neg h, if_neg (Ne.symm h), Nat.add_zero]

theorem activeOrders_orderClosed {finished : Bool} {index : OrderIndex}
    (hpos : b.activeOrders account ≠ 0) :
    (b.orderClosed account finished index).activeOrders other +
      (if finished = true ∧ account = other then 1 else 0) = b.activeOrders other := by
  cases finished with
  | false => simp only [reduceCtorEq, false_and, if_false]; rfl
  | true =>
      have hadjusted : (b.orderClosed account true index).activeOrders other =
          (b.adjusted account fun info =>
            { info with activeOrders := info.activeOrders - 1 }).activeOrders other := rfl
      rw [hadjusted]
      unfold activeOrders
      rw [counter_adjusted (known_of_active (.inl hpos))]
      by_cases h : other = account
      · rw [if_pos h, if_pos ⟨rfl, h.symm⟩, h]
        exact Nat.succ_pred hpos
      · rw [if_neg h, if_neg (fun hand => h hand.2.symm), Nat.add_zero]

theorem activeSwaps_orderClosed {finished : Bool} {index : OrderIndex} :
    (b.orderClosed account finished index).activeSwaps = b.activeSwaps := by
  funext other
  cases finished with
  | false => rfl
  | true =>
      have hkept : (b.adjusted account fun info =>
          { info with activeOrders := info.activeOrders - 1 }).activeSwaps other =
            b.activeSwaps other :=
        counter_kept_adjusted (f := AccountSwapInfo.activeSwaps) fun _ => rfl
      exact hkept

structure Counted (b : SwapBook) : Prop where
  orders : OrdersCounted b.activeOrders b.orders b.orderIndexes
  swaps : SwapsCounted b.activeSwaps b.swaps

theorem Counted.empty : TokenLedger.empty.swapBook.Counted := by
  refine ⟨⟨fun account => ?_, fun index => ?_, fun key order hget => ?_⟩,
    ⟨fun account => ?_, fun key swap hget => ?_⟩⟩
  · exact (Table.count_empty).symm
  · constructor
    · rintro ⟨_, hget⟩
      cases hget
    · rintro ⟨key, order, hget, -⟩
      cases hget
  · cases hget
  · exact (Table.count_empty).symm
  · cases hget

private theorem makeOrder_typed {env : TokenEnv} {block : Block} {make : ExtensionTokenSwapMake}
    {main : Account} (checked : make.checkData = .ok ()) : (makeOrder env block make main).Typed := by
  unfold ExtensionTokenSwapMake.checkData ExtensionTokenInfo.checkData checkType at checked
  simp only [Except.bind_eq_ok, returnIf_eq_ok, exists_const] at checked
  obtain ⟨⟨_, -, hoffer⟩, ⟨_, -, hwant⟩, -⟩ := checked
  exact ⟨hoffer, hwant⟩

private theorem filled_getIndex (order : OrderInfo) (value : TokenValue) (height : Nat)
    (key : Account × Nat) :
    (order.filled value height).getIndex key.1 key.2 = order.getIndex key.1 key.2 :=
  OrderInfo.filled_kept (f := fun order => order.getIndex key.1 key.2)
    (fun _ _ _ _ => rfl) order value height

private theorem filled_typed {order : OrderInfo} (h : order.Typed) (value : TokenValue)
    (height : Nat) : (order.filled value height).Typed := by
  have hoffer : (order.filled value height).typeOffer = order.typeOffer :=
    OrderInfo.filled_kept (fun _ _ _ _ => rfl) order value height
  have hwant : (order.filled value height).typeWant = order.typeWant :=
    OrderInfo.filled_kept (fun _ _ _ _ => rfl) order value height
  exact ⟨hoffer ▸ h.1, hwant ▸ h.2⟩

private theorem cancelled_finished (order : OrderInfo) (height : Nat) :
    (order.cancelled height).finished = true := by
  simp [OrderInfo.cancelled, OrderInfo.finished]

-- The maker of an order that is not finished has it counted.
theorem Counted.activeOrders_ne_zero (h : b.Counted) {key : Account × Nat} {order : OrderInfo}
    (hget : b.orders.get key = some order) (hunfinished : order.finished = false) :
    b.activeOrders key.1 ≠ 0 := by
  rw [h.orders.active]
  have hpos : 0 < b.orders.count (OrderInfo.activeOf key.1) :=
    Table.count_pos _ hget ⟨rfl, hunfinished⟩
  omega

theorem Counted.activeSwaps_ne_zero (h : b.Counted) {key : Account × Nat} {swap : SwapInfo}
    (hget : b.swaps.get key = some swap) (hheld : swap.heldBy account key) :
    b.activeSwaps account ≠ 0 := by
  rw [h.swaps.active]
  have hpos : 0 < b.swaps.count (SwapInfo.heldBy account) := Table.count_pos _ hget hheld
  omega

-- Counters that only differ in what is not counted here.
theorem Counted.counted (h : b.Counted)
    (horders : ∀ info, (count info).activeOrders = info.activeOrders)
    (hswaps : ∀ info, (count info).activeSwaps = info.activeSwaps) :
    (b.counted account count).Counted := by
  have hactiveOrders : (b.counted account count).activeOrders = b.activeOrders :=
    funext fun _ => counter_kept_counted horders
  have hactiveSwaps : (b.counted account count).activeSwaps = b.activeSwaps :=
    funext fun _ => counter_kept_counted hswaps
  constructor
  · rw [hactiveOrders]
    exact h.orders
  · rw [hactiveSwaps]
    exact h.swaps

theorem Counted.made (h : b.Counted) {env : TokenEnv} {block : Block}
    {make : ExtensionTokenSwapMake} {main : Account} (checked : make.checkData = .ok ())
    (hnew : b.orders.get (block.account, block.height) = none) :
    (b.made block.account block.height (makeOrder env block make main)).Counted := by
  constructor
  · refine h.orders.put_new hnew rfl (makeOrder_typed checked) fun other => ?_
    unfold SwapBook.made activeOrders
    rw [counter_counted]
    by_cases hother : other = block.account
    · rw [if_pos hother, if_pos hother.symm, hother]
      rfl
    · rw [if_neg hother, if_neg (Ne.symm hother)]
      rfl
  · have hactive : (b.made block.account block.height (makeOrder env block make main)).activeSwaps =
        b.activeSwaps :=
      funext fun _ => counter_kept_counted (f := AccountSwapInfo.activeSwaps) fun _ => rfl
    rw [hactive]
    exact h.swaps

theorem Counted.inquired (h : b.Counted) {taker : Account} {height : Nat} {swap : SwapInfo}
    {main : Account} (hnew : b.swaps.get (taker, height) = none) (hstatus : swap.status = .inquiry)
    (hother : swap.maker ≠ taker) : (b.inquired taker height swap main).Counted := by
  refine Counted.counted ⟨h.orders, ?_⟩ (fun _ => rfl) fun _ => rfl
  exact h.swaps.put_new hnew (by simp [SwapInfo.held, hstatus]) hother

theorem Counted.inquiryAcked (h : b.Counted) {main : Account} {height : Nat}
    {key : Account × Nat} {swap new : SwapInfo} (hswap : b.swaps.get key = some swap)
    (hstatus : swap.status = .inquiry) (hnew : new.status = .inquiryAck)
    (hmaker : new.maker = swap.maker)
    (hknown : key.1 ≠ swap.maker → (b.counters.get key.1).isSome) :
    (b.inquiryAcked main height key new).Counted := by
  have hother := h.swaps.other key swap hswap
  let raised : SwapBook := { b with
    swaps := b.swaps.put key new
    inquiryWaitings := b.inquiryWaitings.del ⟨main, height, key.1, key.2⟩
    : SwapBook }.counted new.maker fun info => { info with totalSwaps := info.totalSwaps + 1 }
  have hbook : b.inquiryAcked main height key new =
    (raised.swapOpened new.maker).swapOpened key.1 := rfl
  have hmakerKnown : (raised.counters.get new.maker).isSome := known_counted
  have htakerKnown : ((raised.swapOpened new.maker).counters.get key.1).isSome := by
    apply known_adjusted
    have hne : key.1 ≠ new.maker := fun heq => hother (hmaker.symm.trans heq.symm)
    have hget : raised.counters.get key.1 = b.counters.get key.1 := by
      show (b.counters.put _ _).get key.1 = _
      rw [Table.get_put, if_neg hne]
    rw [hget]
    exact hknown (hmaker ▸ hne)
  rw [hbook]
  constructor
  · have hactive : ((raised.swapOpened new.maker).swapOpened key.1).activeOrders =
        b.activeOrders := by
      funext account
      calc ((raised.swapOpened new.maker).swapOpened key.1).activeOrders account
        _ = (raised.swapOpened new.maker).activeOrders account :=
          counter_kept_adjusted (f := AccountSwapInfo.activeOrders) fun _ => rfl
        _ = raised.activeOrders account :=
          counter_kept_adjusted (f := AccountSwapInfo.activeOrders) fun _ => rfl
        _ = b.activeOrders account :=
          counter_kept_counted (f := AccountSwapInfo.activeOrders) fun _ => rfl
    rw [hactive]
    exact h.orders
  · refine h.swaps.put hswap hmaker fun account => ?_
    have hraised : raised.activeSwaps account = b.activeSwaps account :=
      counter_kept_counted (f := AccountSwapInfo.activeSwaps) fun _ => rfl
    rw [activeSwaps_swapOpened htakerKnown, activeSwaps_swapOpened hmakerKnown, hraised]
    have hheld : new.heldBy account key ↔ key.1 = account ∨ new.maker = account := by
      simp [SwapInfo.heldBy, SwapInfo.held, hnew]
    have hunheld : ¬swap.heldBy account key := by
      simp [SwapInfo.heldBy, SwapInfo.held, hstatus]
    rw [if_neg hunheld]
    simp only [hheld]
    rw [← hmaker] at hother
    by_cases htaker : key.1 = account
    · have hne : new.maker ≠ account := fun heq => hother (heq.trans htaker.symm)
      simp [htaker, hne]
    · by_cases hm : new.maker = account
      · simp [htaker, hm]
      · simp [htaker, hm]

theorem Counted.takeAcked (h : b.Counted) {height : Nat} {key : Account × Nat} {swap : SwapInfo}
    {order : OrderInfo} {value : TokenValue} (hswap : b.swaps.get key = some swap)
    (hstatus : swap.status = .take)
    (horder : b.orders.get (swap.maker, swap.orderHeight) = some order)
    (hunfinished : order.finished = false) :
    (b.takeAcked height key swap order value).Counted := by
  have hother := h.swaps.other key swap hswap
  let filled := order.filled value height
  let closed := { b with
    swaps := b.swaps.put key { swap with status := .takeAck }
    takeWaitings := b.takeWaitings.del ⟨swap.maker, swap.tradeHeight, key.1, key.2⟩
    orders := b.orders.put (swap.maker, swap.orderHeight) filled
    : SwapBook }.orderClosed swap.maker filled.finished
      (filled.getIndex swap.maker swap.orderHeight)
  have hbook : b.takeAcked height key swap order value =
    (closed.swapClosed swap.maker).swapClosed key.1 := rfl
  have hclosed : closed.activeSwaps = b.activeSwaps := activeSwaps_orderClosed
  have hmakerPos : closed.activeSwaps swap.maker ≠ 0 := by
    rw [hclosed]
    exact h.activeSwaps_ne_zero hswap (by simp [SwapInfo.heldBy, SwapInfo.held, hstatus])
  have htakerPos : (closed.swapClosed swap.maker).activeSwaps key.1 ≠ 0 := by
    have hleft : (closed.swapClosed swap.maker).activeSwaps key.1 +
        (if swap.maker = key.1 then 1 else 0) = closed.activeSwaps key.1 :=
      activeSwaps_swapClosed hmakerPos
    rw [if_neg hother, hclosed] at hleft
    have hpos : b.activeSwaps key.1 ≠ 0 :=
      h.activeSwaps_ne_zero hswap (by simp [SwapInfo.heldBy, SwapInfo.held, hstatus])
    omega
  rw [hbook]
  constructor
  · have hactive : ((closed.swapClosed swap.maker).swapClosed key.1).activeOrders =
        closed.activeOrders := by
      funext account
      calc ((closed.swapClosed swap.maker).swapClosed key.1).activeOrders account
        _ = (closed.swapClosed swap.maker).activeOrders account :=
          counter_kept_adjusted (f := AccountSwapInfo.activeOrders) fun _ => rfl
        _ = closed.activeOrders account :=
          counter_kept_adjusted (f := AccountSwapInfo.activeOrders) fun _ => rfl
    rw [hactive]
    exact h.orders.put horder hunfinished
      (filled_typed (h.orders.typed _ order horder) value height)
      (filled_getIndex order value height (swap.maker, swap.orderHeight))
      fun account => activeOrders_orderClosed (h.activeOrders_ne_zero horder hunfinished)
  · refine h.swaps.put hswap rfl fun account => ?_
    have hfirst : (closed.swapClosed swap.maker).activeSwaps account +
        (if swap.maker = account then 1 else 0) = closed.activeSwaps account :=
      activeSwaps_swapClosed hmakerPos
    have hsecond : ((closed.swapClosed swap.maker).swapClosed key.1).activeSwaps account +
        (if key.1 = account then 1 else 0) = (closed.swapClosed swap.maker).activeSwaps account :=
      activeSwaps_swapClosed htakerPos
    rw [hclosed] at hfirst
    have hheld : swap.heldBy account key ↔ key.1 = account ∨ swap.maker = account := by
      simp [SwapInfo.heldBy, SwapInfo.held, hstatus]
    have hunheld : ¬{ swap with status := SwapStatus.takeAck }.heldBy account key := by
      simp [SwapInfo.heldBy, SwapInfo.held]
    rw [if_neg hunheld]
    simp only [hheld]
    by_cases htaker : key.1 = account
    · have hne : swap.maker ≠ account := fun heq => hother (heq.trans htaker.symm)
      simp only [htaker, hne, if_true, if_false, or_false] at hfirst hsecond ⊢
      omega
    · by_cases hm : swap.maker = account
      · simp only [htaker, hm, if_true, if_false, or_true] at hfirst hsecond ⊢
        omega
      · simp only [htaker, hm, if_false, or_false] at hfirst hsecond ⊢
        omega

theorem Counted.cancelled (h : b.Counted) {maker : Account} {orderHeight height : Nat}
    {order : OrderInfo} (horder : b.orders.get (maker, orderHeight) = some order)
    (hunfinished : order.finished = false) :
    (b.cancelled maker orderHeight height order).Counted := by
  let kept : SwapBook := { b with
    orders := b.orders.put (maker, orderHeight) (order.cancelled height) }
  have hbook : b.cancelled maker orderHeight height order =
    kept.orderClosed maker true ((order.cancelled height).getIndex maker orderHeight) := rfl
  have hfinished := cancelled_finished order height
  have hpos : kept.activeOrders maker ≠ 0 := h.activeOrders_ne_zero horder hunfinished
  rw [hbook]
  constructor
  · have hput : OrdersCounted
        (kept.orderClosed maker true
          ((order.cancelled height).getIndex maker orderHeight)).activeOrders
        (b.orders.put (maker, orderHeight) (order.cancelled height))
        (if (order.cancelled height).finished then
          b.orderIndexes.del ((order.cancelled height).getIndex maker orderHeight)
        else b.orderIndexes) := by
      refine h.orders.put horder hunfinished (h.orders.typed _ order horder) rfl fun account => ?_
      rw [hfinished]
      exact activeOrders_orderClosed hpos
    rw [if_pos hfinished] at hput
    exact hput
  · rw [activeSwaps_orderClosed]
    exact h.swaps

end SwapBook

theorem SwapMove.counted {kind : ChangeKind} {b b' : SwapBook} (hmove : SwapMove kind b b')
    (h : b.Counted) : b'.Counted := by
  cases hmove with
  | quiet => exact h
  | timed hkind hset => exact h.counted (fun info => (hset info).1) fun info => (hset info).2
  | made checked hnew hquota => exact h.made checked hnew
  | inquired hnew hstatus hother horder hmain => exact h.inquired hnew hstatus hother
  | inquiryAcked hwaiting hswap hstatus hacked hknown =>
      obtain ⟨previous, rfl⟩ := hacked
      refine h.inquiryAcked hswap hstatus rfl rfl fun hne => hknown hne
  | taken hswap hstatus horder =>
      exact ⟨h.orders, h.swaps.put_same hswap rfl (by simp [SwapInfo.held, hstatus])⟩
  | takeAcked hwaiting hswap hstatus horder hunfinished hvalue =>
      exact h.takeAcked hswap hstatus horder hunfinished
  | cancelled horder hunfinished => exact h.cancelled horder hunfinished
  | inquiryNacked hswap hstatus hwaiting =>
      exact ⟨h.orders, h.swaps.put_same hswap rfl (by simp [SwapInfo.held, hstatus])⟩
  | takeNacked hswap hstatus horder hwaiting =>
      exact ⟨h.orders, h.swaps.put_same hswap rfl (by simp [SwapInfo.held, hstatus])⟩

-- When no take is purged: the takes that wait for a block are acknowledged by it, and no take
-- comes after the block that it waits for.
section Conditions

variable (env : TokenEnv) (block : Block) (l : TokenLedger)

-- The block's own operation has to wait, or cannot be carried out: the block is not taken.
def TokenContent.halts : TokenContent → Bool
  | .operation token _ =>
    match token.reads env block l with
    | .error (.fail _) => true
    | _ => false
  | _ => false

def TokenContent.acknowledges : TokenContent → List (Account × Nat)
  | .operation (.swap (.takeAck ack)) _ =>
    match swapTakeAckPlan env block ack l with
    | .ok _ => [(ack.taker, ack.inquiryHeight)]
    | .error _ => []
  | _ => []

def TokenContent.takesLate : TokenContent → Bool
  | .operation (.swap (.take inquiryHeight)) _ =>
    match swapTakePlan env block inquiryHeight l with
    | .ok plan => plan.takeAckBlock.isSome
    | .error _ => false
  | _ => false

def TokenContent.SettlesTakes (content : TokenContent) : Prop :=
  (∀ swap ∈ l.takesAt block.account block.height,
    l.reentry block = false ∧ swap ∈ content.acknowledges env block l) ∧
      (l.reentry block = false → content.takesLate env block l = false)

instance (content : TokenContent) : Decidable (content.SettlesTakes env block l) :=
  inferInstanceAs (Decidable (_ ∧ _))

end Conditions

def NoTakePurged (env : Env) (l : TokenLedger) : TokenAction → Prop
  | .append app fails block content confirmed =>
    confirmed = false ∨
      l.reentry block = false ∧ content.halts ⟨env, app, fails⟩ block l = true ∨
        content.SettlesTakes ⟨env, app, fails⟩ block l
  | _ => True

section Unpurged

variable {base : Env} {env : TokenEnv} {block : Block} {l l₁ l₂ l' : TokenLedger}
  {content : TokenContent} {token : ExtensionToken}

theorem TokenLedger.Awaits.reentry (h : l.Awaits block) : l.reentry block = false := by
  unfold TokenLedger.reentry
  cases hget : l.accountsTokens.get block.account with
  | none => rfl
  | some info =>
      have := h info hget
      simpa using this

-- A block that is taken is not made to wait.
theorem ContentApplied.not_halts (h : ContentApplied env block l content l')
    (hreentry : l.reentry block = false) : content.halts env block l = false := by
  cases h with
  | none => rfl
  | reentry hre =>
      rw [hreentry] at hre
      cases hre
  | status hcontent hawaits =>
      cases content with
      | operation token checked => exact absurd rfl (hcontent token checked)
      | _ => rfl
  | refused hawaits hreads =>
      simp only [TokenContent.halts, hreads]
  | operated hawaits hreads hoperated hsettled =>
      simp only [TokenContent.halts, hreads]

theorem inquiries_takesAt {main maker : Account} {height tradeHeight : Nat}
    {swaps : List (Account × Nat)} (h : NackedInquiries main height swaps l l') :
    l'.takesAt maker tradeHeight = l.takesAt maker tradeHeight :=
  NackedInquiries.frame (f := fun l => l.takesAt maker tradeHeight) (fun _ _ _ _ _ => rfl) h

-- After an operation of the block the takes that wait for it are those that did before, but for
-- the one that it acknowledges.
theorem Operated.takesAt (h : Operated env block l token l')
    (hother : ∀ key swap, l.swaps.get key = some swap → swap.maker ≠ key.1) {swap : Account × Nat}
    (hmem : swap ∈ l'.takesAt block.account block.height) :
    swap ∈ l.takesAt block.account block.height ∧
      ∀ checked, swap ∉ (TokenContent.operation token checked).acknowledges env block l := by
  rw [TokenLedger.mem_takesAt] at hmem ⊢
  cases h with
  | @take inquiryHeight plan hplan =>
      have htakes := swapTakePlan_ok hplan
      have hput : (l.takeWaitings.put
        ⟨plan.swap.maker, plan.swap.tradeHeight, block.account, inquiryHeight⟩ ()).get
          ⟨block.account, block.height, swap.1, swap.2⟩ = some () := hmem
      rw [Table.get_put, if_neg] at hput
      · exact ⟨hput, fun checked => List.not_mem_nil⟩
      · intro heq
        exact hother _ _ htakes.swap (congrArg TakeWaiting.maker heq).symm
  | @takeAck ack plan hplan hwant =>
      have hdel : (l.takeWaitings.del
        ⟨block.account, block.height, ack.taker, ack.inquiryHeight⟩).get
          ⟨block.account, block.height, swap.1, swap.2⟩ = some () := hmem
      rw [Table.get_del] at hdel
      split_ifs at hdel with heq
      refine ⟨hdel, fun checked hacked => heq ?_⟩
      simp only [TokenContent.acknowledges, hplan, List.mem_singleton] at hacked
      rw [hacked]
  | _ => exact ⟨hmem, fun checked => List.not_mem_nil⟩

-- Nothing waits any more for the block that has settled what waited for it.
theorem ContentApplied.takesAt_eq_nil (h : ContentApplied env block l content l₁)
    (hother : ∀ key swap, l.swaps.get key = some swap → swap.maker ≠ key.1)
    (hsettles : content.SettlesTakes env block l) :
    l₁.takesAt block.account block.height = [] := by
  obtain ⟨hwaiting, hlate⟩ := hsettles
  rw [List.eq_nil_iff_forall_not_mem]
  intro swap hmem
  cases h with
  | none => exact List.not_mem_nil (hwaiting swap hmem).2
  | reentry hre =>
      have hno := (hwaiting swap hmem).1
      rw [hre] at hno
      cases hno
  | status hcontent hawaits =>
      have hacked := (hwaiting swap hmem).2
      cases content with
      | operation token checked => exact hcontent token checked rfl
      | _ => exact List.not_mem_nil hacked
  | @refused token checked status key hawaits hreads =>
      have hacked := (hwaiting swap hmem).2
      unfold TokenContent.acknowledges at hacked
      split at hacked
      · rename_i ack _ heq
        cases heq
        cases hplan : swapTakeAckPlan env block ack l with
        | ok plan =>
            have hok : Planning.ended (swapTakeAckPlan env block ack l) = .ok () := by
              rw [hplan]
              rfl
            cases hok.symm.trans hreads
        | error stop =>
            rw [hplan] at hacked
            exact List.not_mem_nil hacked
      · exact List.not_mem_nil hacked
  | @operated token checked operated _ hawaits hreads hoperated hsettled =>
      have hnot {reached : TokenLedger} (hreached : reached = operated)
          (hmem : swap ∈ reached.takesAt block.account block.height) : False := by
        subst hreached
        obtain ⟨hbefore, hunacked⟩ := hoperated.takesAt hother hmem
        exact hunacked checked (hwaiting swap hbefore).2
      cases hsettled with
      | direct => exact hnot rfl hmem
      | inquiry => exact hnot rfl hmem
      | take => exact hnot rfl hmem
      | lateInquiry hplan hsome hpurged =>
          rw [inquiries_takesAt hpurged] at hmem
          exact hnot rfl hmem
      | @lateTake inquiryHeight plan takeAckBlock _ _ hplan hsome hpurged =>
          have hno := hlate hawaits.reentry
          simp only [TokenContent.takesLate, hplan, hsome, Option.isSome_some,
            Bool.true_eq_false] at hno

theorem take_unpurged {action : TokenAction} (hfits : action.Fits)
    (hother : ∀ key swap, l.swaps.get key = some swap → swap.maker ≠ key.1)
    (hallowed : NoTakePurged base l action) :
    TokenChanges base (fun kind => kind ≠ .takeNacked) l (l.take base action) := by
  cases action with
  | follow app fails blocks => exact follow_changes (by simp) (by simp)
  | native app fails chain => exact native_changes (by simp)
  | append app fails block content confirmed =>
      rcases append_cases base l app fails block content confirmed with
        ⟨l₁, l₂, happended⟩ | hsame
      · have hprocessed := happended.processed
        rcases hallowed with hunconfirmed | ⟨hreentry, hhalts⟩ | hsettles
        · obtain ⟨-, hsame⟩ := happended.confirmed.resolve_left (by simp [hunconfirmed])
          rw [hsame]
        · rw [hprocessed.not_halts hreentry] at hhalts
          cases hhalts
        · have hnil : l₂.takesAt block.account block.height = [] := by
            rw [inquiries_takesAt happended.inquiries]
            exact hprocessed.takesAt_eq_nil hother hsettles
          rw [(purgedTakes_nil hnil).mp happended.takes]
          refine (hprocessed.changes rfl hfits (fun _ _ hkind _ => hkind) ?_).trans
            (NackedInquiries.changes (by simp) happended.inquiries)
          rintro inquiryHeight checked plan takeAckBlock rfl hawaits hplan hsome
          have hno := hsettles.2 hawaits.reentry
          simp only [TokenContent.takesLate, hplan, hsome, Option.isSome_some,
            Bool.true_eq_false] at hno
      · rw [hsame]

end Unpurged

-- The accounts of a ledger, and what a run keeps of them.
def TokenLedger.activeOrders (l : TokenLedger) (account : Account) : Nat :=
  ((l.accountSwaps.get account).getD .init).activeOrders

def TokenLedger.activeSwaps (l : TokenLedger) (account : Account) : Nat :=
  ((l.accountSwaps.get account).getD .init).activeSwaps

-- The account is a party to the swap, and the swap was acknowledged and has not ended.
def SwapInfo.openFor (account : Account) (key : Account × Nat) (swap : SwapInfo) : Prop :=
  (key.1 = account ∨ swap.maker = account) ∧ (swap.status = .inquiryAck ∨ swap.status = .take)

instance (account : Account) (key : Account × Nat) (swap : SwapInfo) :
    Decidable (swap.openFor account key) :=
  inferInstanceAs (Decidable (_ ∧ _))

structure SwapAccounts (l : TokenLedger) : Prop where
  orders : OrdersCounted l.activeOrders l.orders l.orderIndexes
  swaps : ∀ account, l.activeSwaps account = l.swaps.count (SwapInfo.openFor account)

-- The block makes an order, and the order is accepted.
def AcceptsOrder (env : Env) (l : TokenLedger) (action : TokenAction) (block : Block) : Prop :=
  ∃ app fails make checked confirmed,
    action = .append app fails block (.operation (.swap (.make make)) checked) confirmed ∧
      l.orders.get (block.account, block.height) = none ∧
        ((l.take env action).orders.get (block.account, block.height)).isSome

def WithinQuota (env : Env) (history : TokenHistory) : Prop :=
  ∀ l action, (l, action) ∈ history → ∀ block, AcceptsOrder env l action block →
    (l.take env action).activeOrders block.account ≤ block.credit * ORDERS_PER_CREDIT

-- The last step of a run purges no take.
def LastUnpurged (env : Env) : TokenHistory → Prop
  | [] => True
  | (l, action) :: _ => NoTakePurged env l action

section Runs

variable {env : Env} {l l' : TokenLedger} {history : TokenHistory} {kind : ChangeKind}

theorem SwapMove.not_takeNack {b b' : SwapBook} (hmove : SwapMove kind b b')
    (hkind : kind ≠ .takeNacked)
    (h : ∀ key swap, b.swaps.get key = some swap → swap.status ≠ .takeNack) :
    ∀ key swap, b'.swaps.get key = some swap → swap.status ≠ .takeNack := by
  have put {key : Account × Nat} {new : SwapInfo} (hnew : new.status ≠ .takeNack) :
      ∀ place swap, (b.swaps.put key new).get place = some swap → swap.status ≠ .takeNack := by
    intro place swap hget
    rw [Table.get_put] at hget
    by_cases hplace : place = key
    · rw [if_pos hplace] at hget
      cases hget
      exact hnew
    · rw [if_neg hplace] at hget
      exact h place swap hget
  cases hmove with
  | quiet => exact h
  | timed => exact h
  | made => exact h
  | inquired hnew hstatus => exact put (by simp [hstatus])
  | inquiryAcked hwaiting hswap hstatus hacked =>
      obtain ⟨previous, rfl⟩ := hacked
      exact put (by simp)
  | taken => exact put (by simp)
  | takeAcked => exact put (by simp)
  | cancelled => exact h
  | inquiryNacked => exact put (by simp)
  | takeNacked => exact absurd rfl hkind

structure AccountsKept (l : TokenLedger) : Prop where
  covered : l.SwapsCovered
  counted : l.swapBook.Counted

theorem AccountsKept.change (h : AccountsKept l) (hchange : TokenChange env kind l l') :
    AccountsKept l' :=
  ⟨hchange.swapsCovered h.covered, (hchange.swapMove h.covered).counted h.counted⟩

-- Whatever the run does, the counters hold the open swaps and those whose takes were purged.
theorem run_accountsKept {allowed : TokenHistory → TokenLedger → Prop}
    (hrun : (tokenMachine env).Run allowed history l) : AccountsKept l :=
  run_invariant ⟨.empty, .empty⟩ (fun _ _ _ h hchange => h.change hchange) hrun

theorem take_not_takeNack {action : TokenAction} (hfits : action.Fits) (h : AccountsKept l)
    (hnone : ∀ key swap, l.swaps.get key = some swap → swap.status ≠ .takeNack)
    (hallowed : NoTakePurged env l action) :
    ∀ key swap, (l.take env action).swaps.get key = some swap → swap.status ≠ .takeNack := by
  have hkept := TokenChanges.keep
    (P := fun l => AccountsKept l ∧
      ∀ key swap, l.swaps.get key = some swap → swap.status ≠ .takeNack)
    (fun kind l l' hkind hboth hchange => ⟨hboth.1.change hchange,
      (hchange.swapMove hboth.1.covered).not_takeNack hkind hboth.2⟩)
    (take_unpurged hfits h.counted.swaps.other hallowed) ⟨h, hnone⟩
  exact hkept.2

-- An order is accepted within the quota of its maker.
theorem accepted_within_quota {action : TokenAction} {block : Block}
    (h : AcceptsOrder env l action block) :
    (l.take env action).activeOrders block.account ≤ block.credit * ORDERS_PER_CREDIT := by
  obtain ⟨app, fails, make, checked, confirmed, rfl, hnone, hsome⟩ := h
  rcases append_cases env l app fails block (.operation (.swap (.make make)) checked) confirmed with
    ⟨l₁, l₂, happended⟩ | hsame
  · generalize l.take env _ = l' at happended hsome ⊢
    have horders : l'.orders = l₁.orders :=
      (NackedTakes.frame (fun _ _ _ => rfl) happended.takes).trans
        (NackedInquiries.frame (fun _ _ _ _ _ => rfl) happended.inquiries)
    have hcounters : l'.accountSwaps = l₁.accountSwaps :=
      (NackedTakes.frame (fun _ _ _ => rfl) happended.takes).trans
        (NackedInquiries.frame (fun _ _ _ _ _ => rfl) happended.inquiries)
    have unchanged (hl₁ : l₁.orders = l.orders) : False := by
      rw [horders, hl₁, hnone] at hsome
      cases hsome
    cases happended.processed with
    | reentry => exact (unchanged rfl).elim
    | status => exact (unchanged rfl).elim
    | refused => exact (unchanged rfl).elim
    | operated hawaits hreads hoperated hsettled =>
        cases hsettled
        cases hoperated with
        | @make make plan hplan =>
            have hquota := (swapMakePlan_ok hplan).quota
            unfold TokenLedger.activeOrders
            rw [hcounters]
            have hraised : ((l.orderMade ⟨env, app, fails⟩ block make plan).accountSwaps.get block.account) =
                some { (l.accountSwaps.get block.account).getD .init with
                  activeOrders := ((l.accountSwaps.get block.account).getD .init).activeOrders + 1
                  totalOrders := ((l.accountSwaps.get block.account).getD .init).totalOrders + 1 } :=
              (Table.get_put _ _ _ _).trans (if_pos rfl)
            rw [hraised]
            exact hquota
  · rw [hsame, hnone] at hsome
    cases hsome

-- In a run that purges no take, the counters hold exactly what is open.
theorem accounts_of_unpurged_runs
    (hrun : (tokenMachine env).Run (fun history _ => LastUnpurged env history) history l) :
    SwapAccounts l ∧ WithinQuota env history := by
  have hkept := run_accountsKept hrun
  have hnone : ∀ key swap, l.swaps.get key = some swap → swap.status ≠ .takeNack := by
    have hboth : AccountsKept l ∧
        ∀ key swap, l.swaps.get key = some swap → swap.status ≠ .takeNack := by
      apply hrun.invariant
      · rintro _ rfl
        exact ⟨⟨.empty, .empty⟩, fun key swap hget => by cases hget⟩
      · intro history l action hrun hfits hallowed ⟨hkept, hnone⟩
        exact ⟨run_accountsKept (hrun.step hfits hallowed),
          take_not_takeNack hfits hkept hnone hallowed⟩
    exact hboth.2
  refine ⟨⟨hkept.counted.orders, fun account => ?_⟩, fun _ _ _ _ h => accepted_within_quota h⟩
  have hactive : l.activeSwaps account = l.swaps.count (SwapInfo.heldBy account) :=
    hkept.counted.swaps.active account
  rw [hactive]
  apply Table.count_congr
  intro key swap hget
  have hstatus := hnone key swap hget
  unfold SwapInfo.heldBy SwapInfo.openFor SwapInfo.held
  simp [hstatus]

end Runs

-- A trade in which the maker's block at the trade height says nothing about the take.
section PurgedTrade

def purgedTrade : Script := tradeTaken ++ [(tradeBlock 1 4, .none)]

theorem purged_take_stays_counted :
    TokenRun sampleEnv purgedTrade.run.1 purgedTrade.run.2 ∧
      ¬SwapAccounts purgedTrade.run.2 := by
  have hcounted : purgedTrade.run.2.activeSwaps 1 = 1 := by decide +kernel
  have hopen : purgedTrade.run.2.swaps.count (SwapInfo.openFor 1) = 0 := by decide +kernel
  refine ⟨Script.run_spec (by decide) fun _ _ => trivial, fun haccounts => ?_⟩
  have hactive := haccounts.swaps 1
  rw [hcounted, hopen] at hactive
  cases hactive

instance (env : Env) (l : TokenLedger) (action : TokenAction) :
    Decidable (NoTakePurged env l action) :=
  match action with
  | .append _ _ _ _ _ => inferInstanceAs (Decidable (_ ∨ _ ∨ _))
  | .follow _ _ _ => isTrue trivial
  | .native _ _ _ => isTrue trivial

instance (env : Env) (history : TokenHistory) : Decidable (LastUnpurged env history) :=
  match history with
  | [] => isTrue trivial
  | (l, action) :: _ => inferInstanceAs (Decidable (NoTakePurged env l action))

theorem trade_accounts : SwapAccounts trade.run.2 ∧ WithinQuota sampleEnv trade.run.1 :=
  accounts_of_unpurged_runs (Script.run_spec (by decide +kernel) (by decide +kernel))

end PurgedTrade

end Raicoin
