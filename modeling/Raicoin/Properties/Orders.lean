import Raicoin.App.Ledger
import Raicoin.Node.BlockProcessor.Replay
import Raicoin.Token.SwapBook

-- Orders of a fungible pair are filled at their price and never beyond their size.
namespace Raicoin

open Lib

section Arithmetic

variable {a b : TokenValue} {order : OrderInfo}

theorem wide_toNat (value : TokenValue) : (wide value).toNat = value.toNat := by
  have hlt := value.isLt
  rw [wide, BitVec.zeroExtend_eq_setWidth, BitVec.toNat_setWidth, Nat.mod_eq_of_lt (by omega)]

-- 512 bits hold every product of two values.
theorem wide_mul_toNat (a b : TokenValue) : (wide a * wide b).toNat = a.toNat * b.toNat := by
  have hlt : a.toNat * b.toNat < 2 ^ 256 * 2 ^ 256 := Nat.mul_lt_mul'' a.isLt b.isLt
  rw [BitVec.toNat_mul, wide_toNat, wide_toNat, Nat.mod_eq_of_lt (by omega)]

private theorem pos_of_ne_zero (h : a ≠ 0) : 0 < a.toNat :=
  Nat.pos_of_ne_zero fun hzero => h (BitVec.eq_of_toNat_eq hzero)

private theorem wide_mod_eq_zero {c : TokenValue} :
    wide a * wide b % wide c = 0 ↔ c.toNat ∣ a.toNat * b.toNat := by
  have hzero : (0 : Uint512).toNat = 0 := BitVec.toNat_zero
  rw [← BitVec.toNat_inj, BitVec.toNat_umod, wide_mul_toNat, wide_toNat, Nat.dvd_iff_mod_eq_zero,
    hzero]

-- What is sold, what is left and the terms of an order of a fungible pair.
structure ExactOrder (order : OrderInfo) (sold : Nat) : Prop where
  offer_pos : 0 < order.valueOffer.toNat
  want_pos : 0 < order.valueWant.toNat
  total : sold + order.left.toNat = order.maxOffer.toNat
  whole : order.valueOffer.toNat ∣ order.left.toNat * order.valueWant.toNat
  fulfilled : order.finishedBy = .fulfill ↔ order.left = 0

theorem OrderInfo.finishedBy_of_unfinished (h : order.finished = false) :
    order.finishedBy = .invalid := by
  simp only [OrderInfo.finished, Bool.or_eq_false_iff, decide_eq_false_iff_not, not_not] at h
  exact h.1

theorem ExactOrder.left_ne_zero {sold : Nat} (h : ExactOrder order sold)
    (hunfinished : order.finished = false) : order.left ≠ 0 := by
  intro hzero
  have hby := h.fulfilled.mpr hzero
  rw [OrderInfo.finishedBy_of_unfinished hunfinished] at hby
  cases hby

theorem makeOrder_exact {env : TokenEnv} {block : Block} {make : ExtensionTokenSwapMake}
    {main : Account} (checked : make.checkData = .ok ())
    (hpair : (makeOrder env block make main).fungiblePair = true) :
    ExactOrder (makeOrder env block make main) 0 := by
  unfold ExtensionTokenSwapMake.checkData at checked
  simp only [Except.bind_eq_ok, returnIf_eq_ok, exists_const] at checked
  obtain ⟨_, -, _, -, _, -, hoffer, hwant, hchecked⟩ := checked
  have hfungible : make.fungiblePair = true := hpair
  obtain ⟨h₁, h₂⟩ : make.tokenOffer.fungible = true ∧ make.tokenWant.fungible = true := by
    simpa [ExtensionTokenSwapMake.fungiblePair] using hfungible
  rw [if_pos hfungible] at hchecked
  unfold ExtensionTokenSwapMake.checkOffers at hchecked
  simp only [Except.bind_eq_ok, returnIf_eq_ok, exists_const, not_not] at hchecked
  obtain ⟨hmax, hwhole, -⟩ := hchecked
  have hleft : (makeOrder env block make main).left = make.maxOffer := if_pos hfungible
  have hmaxOffer : (makeOrder env block make main).maxOffer = make.maxOffer := if_pos hfungible
  constructor
  · exact pos_of_ne_zero fun hzero => hoffer ⟨h₁, hzero⟩
  · exact pos_of_ne_zero fun hzero => hwant ⟨h₂, hzero⟩
  · rw [hleft, hmaxOffer, Nat.zero_add]
  · rw [hleft]
    exact wide_mod_eq_zero.mp hwhole
  · rw [hleft]
    constructor
    · intro hby
      cases hby
    · exact fun hzero => absurd hzero hmax

-- What an acknowledged offer must be.
theorem takeAckValue_ok {takeValue ackValue : TokenValue} (hpair : order.fungiblePair = true)
    (h : checkTakeAckValue_ order takeValue ackValue = false) :
    ackValue.toNat ≤ order.left.toNat ∧
      ackValue.toNat * order.valueWant.toNat = takeValue.toNat * order.valueOffer.toNat := by
  obtain ⟨hoffer, hwant⟩ : order.typeOffer = .t20 ∧ order.typeWant = .t20 := by
    simpa [OrderInfo.fungiblePair] using hpair
  unfold checkTakeAckValue_ at h
  rw [hoffer, hwant] at h
  simp only [Bool.or_eq_false_iff, decide_eq_false_iff_not, not_not, gt_iff_lt,
    BitVec.not_lt] at h
  obtain ⟨⟨⟨-, hle⟩, -⟩, hprice⟩ := h
  have hnat := congrArg BitVec.toNat hprice
  rw [wide_mul_toNat, wide_mul_toNat] at hnat
  refine ⟨hle, ?_⟩
  rw [Nat.mul_comm, ← hnat, Nat.mul_comm]

private theorem filled_left {value : TokenValue} {height : Nat} (hpair : order.fungiblePair = true) :
    (order.filled value height).left = order.left - value := by
  unfold OrderInfo.filled
  simp only [hpair, if_true, true_and]
  split <;> rfl

private theorem filled_finishedBy {value : TokenValue} {height : Nat}
    (hpair : order.fungiblePair = true) : (order.filled value height).finishedBy =
      if order.left - value = 0 then .fulfill else order.finishedBy := by
  unfold OrderInfo.filled
  simp only [hpair, if_true, true_and]
  by_cases hzero : order.left - value = 0
  · rw [if_neg (not_not.mpr hzero), if_pos hzero]
  · rw [if_pos hzero, if_neg hzero]

-- The remainder stays a whole value of what is wanted.
theorem ExactOrder.filled {sold height : Nat} {takeValue value : TokenValue}
    (h : ExactOrder order sold) (hpair : order.fungiblePair = true)
    (hunfinished : order.finished = false)
    (hvalue : checkTakeAckValue_ order takeValue value = false) :
    ExactOrder (order.filled value height) (sold + value.toNat) := by
  obtain ⟨hle, hprice⟩ := takeAckValue_ok hpair hvalue
  have hleft : (order.left - value).toNat = order.left.toNat - value.toNat :=
    BitVec.toNat_sub_of_le hle
  have hoffer : (order.filled value height).valueOffer = order.valueOffer :=
    OrderInfo.filled_kept (fun _ _ _ _ => rfl) order value height
  have hwant : (order.filled value height).valueWant = order.valueWant :=
    OrderInfo.filled_kept (fun _ _ _ _ => rfl) order value height
  have hmax : (order.filled value height).maxOffer = order.maxOffer :=
    OrderInfo.filled_kept (fun _ _ _ _ => rfl) order value height
  constructor
  · rw [hoffer]
    exact h.offer_pos
  · rw [hwant]
    exact h.want_pos
  · rw [filled_left hpair, hleft, hmax, ← h.total]
    omega
  · rw [filled_left hpair, hleft, hoffer, hwant, Nat.sub_mul, hprice]
    exact Nat.dvd_sub h.whole (Nat.dvd_mul_left _ _)
  · rw [filled_left hpair, filled_finishedBy hpair,
      OrderInfo.finishedBy_of_unfinished hunfinished]
    by_cases hzero : order.left - value = 0
    · rw [if_pos hzero]
      exact ⟨fun _ => hzero, fun _ => rfl⟩
    · rw [if_neg hzero]
      constructor
      · intro hby
        cases hby
      · exact fun h => absurd h hzero

theorem ExactOrder.cancelled {sold height : Nat} (h : ExactOrder order sold)
    (hunfinished : order.finished = false) : ExactOrder (order.cancelled height) sold := by
  refine ⟨h.offer_pos, h.want_pos, h.total, h.whole, ?_⟩
  constructor
  · intro hby
    cases hby
  · exact fun hzero => absurd hzero (h.left_ne_zero hunfinished)

-- What is left can be inquired about and acknowledged, however small it is.
theorem ExactOrder.remainder {sold : Nat} (h : ExactOrder order sold)
    (hpair : order.fungiblePair = true) (hunfinished : order.finished = false)
    {value : TokenValue}
    (hvalue : value.toNat = order.left.toNat * order.valueWant.toNat / order.valueOffer.toNat) :
    checkInquiryValue_ order value = false ∧ checkTakeAckValue_ order value order.left = false := by
  obtain ⟨hoffer, hwant⟩ : order.typeOffer = .t20 ∧ order.typeWant = .t20 := by
    simpa [OrderInfo.fungiblePair] using hpair
  have hleft := h.left_ne_zero hunfinished
  have hproduct : order.valueOffer.toNat * value.toNat =
      order.left.toNat * order.valueWant.toNat := by
    rw [hvalue, Nat.mul_div_cancel' h.whole]
  have hvalue_ne : value ≠ 0 := by
    rintro rfl
    have hpos := Nat.mul_pos (pos_of_ne_zero hleft) h.want_pos
    rw [← hproduct] at hpos
    simp at hpos
  constructor
  · unfold checkInquiryValue_
    rw [hoffer, hwant]
    simp only [Bool.or_eq_false_iff, decide_eq_false_iff_not, not_not, gt_iff_lt, BitVec.not_lt]
    refine ⟨⟨hvalue_ne, ?_⟩, ?_⟩
    · rw [wide_mod_eq_zero, hproduct]
      exact Nat.dvd_mul_left _ _
    · rw [BitVec.le_def, BitVec.toNat_udiv, wide_mul_toNat, wide_toNat, wide_toNat, hproduct,
        Nat.mul_div_cancel _ h.want_pos, BitVec.toNat_allOnes]
      have hlt := order.left.isLt
      omega
  · unfold checkTakeAckValue_
    rw [hoffer, hwant]
    simp only [Bool.or_eq_false_iff, Bool.and_eq_false_iff, decide_eq_false_iff_not, not_not,
      gt_iff_lt, BitVec.not_lt]
    refine ⟨⟨⟨hleft, BitVec.le_refl _⟩, .inr trivial⟩, ?_⟩
    rw [← BitVec.toNat_inj, wide_mul_toNat, wide_mul_toNat, hproduct, Nat.mul_comm]

end Arithmetic

-- The book together with the offers that were acknowledged, by the swap.
def SwapInfo.orderKey (swap : SwapInfo) : Account × Nat := (swap.maker, swap.orderHeight)

section Books

abbrev Acknowledged : Type := Table (Account × Nat) TokenValue

variable {orders : Table (Account × Nat) OrderInfo} {swaps : Table (Account × Nat) SwapInfo}
  {acked : Acknowledged} {key place : Account × Nat} {swap new : SwapInfo} {order : OrderInfo}
  {value : TokenValue}

-- What the swap has bought of the order.
def soldIn (acked : Acknowledged) (order key : Account × Nat) (swap : SwapInfo) : Nat :=
  if swap.status = .takeAck ∧ swap.orderKey = order then ((acked.get key).getD 0).toNat else 0

def soldOf (swaps : Table (Account × Nat) SwapInfo) (acked : Acknowledged)
    (order : Account × Nat) : Nat :=
  swaps.sum (soldIn acked order)

structure ExactBook (orders : Table (Account × Nat) OrderInfo)
    (swaps : Table (Account × Nat) SwapInfo) (acked : Acknowledged) : Prop where
  settled : ∀ key, (∃ value, acked.get key = some value) ↔
    ∃ swap, swaps.get key = some swap ∧ swap.status = .takeAck
  known : ∀ key swap, swaps.get key = some swap → ∃ order, orders.get swap.orderKey = some order
  price : ∀ key swap value order, swaps.get key = some swap → acked.get key = some value →
    orders.get swap.orderKey = some order → order.fungiblePair = true →
      value.toNat * order.valueWant.toNat = swap.value.toNat * order.valueOffer.toNat
  exact : ∀ key order, orders.get key = some order → order.fungiblePair = true →
    ExactOrder order (soldOf swaps acked key)

theorem soldIn_open (hstatus : swap.status ≠ .takeAck) (order : Account × Nat) :
    soldIn acked order key swap = 0 :=
  if_neg fun h => hstatus h.1

-- Nothing has been sold of an order that no swap is about.
theorem soldOf_unknown (hnone : ∀ key swap, swaps.get key = some swap → swap.orderKey ≠ place) :
    soldOf swaps acked place = 0 :=
  Table.sum_eq_zero _ fun key swap hget => if_neg fun h => hnone key swap hget h.2

-- A swap that is not at its end may change as it likes, if its order stays.
theorem ExactBook.put_open (h : ExactBook orders swaps acked)
    (hold : ∀ old, swaps.get key = some old → old.status ≠ .takeAck) (hnew : new.status ≠ .takeAck)
    (horder : ∃ order, orders.get new.orderKey = some order) :
    ExactBook orders (swaps.put key new) acked := by
  have hunacked (value : TokenValue) : acked.get key ≠ some value := by
    intro hget
    obtain ⟨old, hgetOld, hstatus⟩ := (h.settled key).mp ⟨value, hget⟩
    exact hold old hgetOld hstatus
  constructor
  · intro other
    by_cases hother : other = key
    · subst hother
      simp only [Table.get_put, if_true, Option.some.injEq, exists_eq_left']
      exact ⟨fun ⟨value, hget⟩ => absurd hget (hunacked value), fun hstatus => absurd hstatus hnew⟩
    · simp only [Table.get_put, if_neg hother]
      exact h.settled other
  · intro other swap hget
    rw [Table.get_put] at hget
    by_cases hother : other = key
    · rw [if_pos hother] at hget
      cases hget
      exact horder
    · rw [if_neg hother] at hget
      exact h.known other swap hget
  · intro other swap value order hget hvalue
    rw [Table.get_put] at hget
    by_cases hother : other = key
    · exact absurd (hother ▸ hvalue) (hunacked value)
    · rw [if_neg hother] at hget
      exact h.price other swap value order hget hvalue
  · intro place order hget hpair
    have hsame : soldOf (swaps.put key new) acked place = soldOf swaps acked place := by
      apply Table.sum_put_same
      rw [soldIn_open hnew]
      cases hgetOld : swaps.get key with
      | none => rfl
      | some old => exact soldIn_open (hold old hgetOld) place
    rw [hsame]
    exact h.exact place order hget hpair

-- An order may change if its terms do not.
theorem ExactBook.put_order (h : ExactBook orders swaps acked)
    (hold : ∀ old, orders.get place = some old → old.fungiblePair = order.fungiblePair ∧
      old.valueWant = order.valueWant ∧ old.valueOffer = order.valueOffer)
    (hknown : orders.get place = none → ∀ key swap, swaps.get key = some swap → swap.orderKey ≠ place)
    (hexact : order.fungiblePair = true → ExactOrder order (soldOf swaps acked place)) :
    ExactBook (orders.put place order) swaps acked := by
  constructor
  · exact h.settled
  · intro key swap hget
    rw [Table.get_put]
    by_cases hplace : swap.orderKey = place
    · rw [if_pos hplace]
      exact ⟨order, rfl⟩
    · rw [if_neg hplace]
      exact h.known key swap hget
  · intro key swap value other hget hvalue hother hpair
    rw [Table.get_put] at hother
    by_cases hplace : swap.orderKey = place
    · rw [if_pos hplace] at hother
      cases hother
      cases hgetOld : orders.get place with
      | none => exact absurd hplace (hknown hgetOld key swap hget)
      | some old =>
          obtain ⟨hsame, hwant, hoffer⟩ := hold old hgetOld
          rw [← hwant, ← hoffer]
          exact h.price key swap value old hget hvalue (hplace ▸ hgetOld) (hsame.trans hpair)
    · rw [if_neg hplace] at hother
      exact h.price key swap value other hget hvalue hother hpair
  · intro other found hget hpair
    rw [Table.get_put] at hget
    by_cases hplace : other = place
    · rw [if_pos hplace] at hget
      cases hget
      rw [hplace]
      exact hexact hpair
    · rw [if_neg hplace] at hget
      exact h.exact other found hget hpair

-- An acknowledged offer is sold, and nothing else is.
theorem soldOf_acked (hget : swaps.get key = some swap) (hstatus : swap.status = .take)
    (order : Account × Nat) :
    soldOf (swaps.put key { swap with status := .takeAck }) (acked.put key value) order =
      soldOf swaps acked order + if swap.orderKey = order then value.toNat else 0 := by
  have hrest : swaps.sum (soldIn (acked.put key value) order) = soldOf swaps acked order := by
    apply Table.sum_congr
    intro other found hfound
    unfold soldIn
    by_cases hother : other = key
    · rw [hother, hget] at hfound
      cases hfound
      rw [if_neg (by simp [hstatus]), if_neg (by simp [hstatus])]
    · simp only [Table.get_put, if_neg hother]
  have hsum := Table.sum_put swaps (soldIn (acked.put key value) order)
    { swap with status := .takeAck } hget
  have hbefore : soldIn (acked.put key value) order key swap = 0 := if_neg (by simp [hstatus])
  have hafter : soldIn (acked.put key value) order key { swap with status := .takeAck } =
      if swap.orderKey = order then value.toNat else 0 := by
    unfold soldIn SwapInfo.orderKey
    simp only [true_and, Table.get_put, if_true, Option.getD_some]
  unfold soldOf at hrest ⊢
  rw [hbefore, hafter, hrest] at hsum
  exact hsum

private theorem filled_terms (order : OrderInfo) (value : TokenValue) (height : Nat) :
    order.fungiblePair = (order.filled value height).fungiblePair ∧
      order.valueWant = (order.filled value height).valueWant ∧
        order.valueOffer = (order.filled value height).valueOffer :=
  ⟨(OrderInfo.filled_kept (f := OrderInfo.fungiblePair) (fun _ _ _ _ => rfl) order value height).symm,
    (OrderInfo.filled_kept (fun _ _ _ _ => rfl) order value height).symm,
    (OrderInfo.filled_kept (fun _ _ _ _ => rfl) order value height).symm⟩

-- An acknowledged offer goes from what is left of the order to what is sold of it.
theorem ExactBook.put_acked (h : ExactBook orders swaps acked) {height : Nat}
    (hget : swaps.get key = some swap) (hstatus : swap.status = .take)
    (horder : orders.get swap.orderKey = some order) (hunfinished : order.finished = false)
    (hvalue : checkTakeAckValue_ order swap.value value = false) :
    ExactBook (orders.put swap.orderKey (order.filled value height))
      (swaps.put key { swap with status := .takeAck }) (acked.put key value) := by
  obtain ⟨hpair, hwant, hoffer⟩ := filled_terms order value height
  constructor
  · intro other
    by_cases hother : other = key
    · subst hother
      simp [Table.get_put]
    · simp only [Table.get_put, if_neg hother]
      exact h.settled other
  · intro other found hfound
    have hknown : ∃ old, orders.get found.orderKey = some old := by
      rw [Table.get_put] at hfound
      by_cases hother : other = key
      · rw [if_pos hother] at hfound
        cases hfound
        exact ⟨order, horder⟩
      · rw [if_neg hother] at hfound
        exact h.known other found hfound
    rw [Table.get_put]
    by_cases hplace : found.orderKey = swap.orderKey
    · exact ⟨_, if_pos hplace⟩
    · rw [if_neg hplace]
      exact hknown
  · intro other found offered info hfound hoffered hinfo hfungible
    -- the terms of the order are what they were
    obtain ⟨old, hold, hpairOld, hwantOld, hofferOld⟩ : ∃ old,
        orders.get found.orderKey = some old ∧ old.fungiblePair = info.fungiblePair ∧
          old.valueWant = info.valueWant ∧ old.valueOffer = info.valueOffer := by
      rw [Table.get_put] at hinfo
      by_cases hplace : found.orderKey = swap.orderKey
      · rw [if_pos hplace] at hinfo
        cases hinfo
        exact ⟨order, hplace ▸ horder, hpair, hwant, hoffer⟩
      · rw [if_neg hplace] at hinfo
        exact ⟨info, hinfo, rfl, rfl, rfl⟩
    rw [← hwantOld, ← hofferOld]
    rw [Table.get_put] at hfound hoffered
    by_cases hother : other = key
    · rw [if_pos hother] at hfound hoffered
      cases hfound
      cases hoffered
      have hsame : old = order := Option.some.inj (hold.symm.trans horder)
      subst hsame
      exact (takeAckValue_ok (hpairOld.trans hfungible) hvalue).2
    · rw [if_neg hother] at hfound hoffered
      exact h.price other found offered old hfound hoffered hold (hpairOld.trans hfungible)
  · intro place info hinfo hfungible
    rw [soldOf_acked hget hstatus]
    rw [Table.get_put] at hinfo
    by_cases hplace : place = swap.orderKey
    · rw [if_pos hplace] at hinfo
      cases hinfo
      rw [if_pos hplace.symm, hplace]
      exact (h.exact swap.orderKey order horder (hpair.trans hfungible)).filled
        (hpair.trans hfungible) hunfinished hvalue
    · rw [if_neg hplace] at hinfo
      rw [if_neg (Ne.symm hplace), Nat.add_zero]
      exact h.exact place info hinfo hfungible

theorem ExactBook.empty : ExactBook .empty .empty .empty := by
  constructor
  · intro key
    simp
  · intro key swap hget
    cases hget
  · intro key swap value order hget
    cases hget
  · intro key order hget
    cases hget

variable {kind : ChangeKind} {b b' : SwapBook}

-- Only an acknowledged take sells.
theorem ExactBook.move (h : ExactBook b.orders b.swaps acked)
    (hkind : ∀ ack, kind ≠ .operated (.swap (.takeAck ack))) (hmove : SwapMove kind b b') :
    ExactBook b'.orders b'.swaps acked := by
  have one {key : Account × Nat} {swap : SwapInfo} (hget : b.swaps.get key = some swap)
      (hstatus : swap.status ≠ .takeAck) :
      ∀ old, b.swaps.get key = some old → old.status ≠ .takeAck := by
    intro old hold
    cases hget.symm.trans hold
    exact hstatus
  cases hmove with
  | quiet => exact h
  | timed => exact h
  | @made _ env block make main checked hnew hquota =>
      have hfresh : ∀ key swap, b.swaps.get key = some swap →
          swap.orderKey ≠ (block.account, block.height) := by
        intro key swap hget hplace
        obtain ⟨order, horder⟩ := h.known key swap hget
        rw [hplace, hnew] at horder
        cases horder
      refine h.put_order (fun old hold => ?_) (fun _ => hfresh) fun hpair => ?_
      · rw [hnew] at hold
        cases hold
      · rw [soldOf_unknown hfresh]
        exact makeOrder_exact checked hpair
  | @inquired _ inquiry taker height swap order hnew hstatus hother horder hmain =>
      refine h.put_open (fun old hold => ?_) (by simp [hstatus]) ⟨order, horder⟩
      rw [hnew] at hold
      cases hold
  | @inquiryAcked _ ack main height swap acked hwaiting hswap hstatus hacked hknown =>
      obtain ⟨previous, rfl⟩ := hacked
      exact h.put_open (one hswap (by simp [hstatus])) (by simp) (h.known _ swap hswap)
  | taken hswap hstatus horder =>
      exact h.put_open (one hswap (by simp [hstatus])) (by simp) ⟨_, horder⟩
  | @takeAcked _ ack => exact absurd rfl (hkind ack)
  | @cancelled _ maker orderHeight height order horder hunfinished =>
      refine h.put_order (fun old hold => ?_) (fun hnone => ?_) fun hpair => ?_
      · cases horder.symm.trans hold
        exact ⟨rfl, rfl, rfl⟩
      · rw [horder] at hnone
        cases hnone
      · exact (h.exact _ order horder hpair).cancelled hunfinished
  | @inquiryNacked _ main height key swap hswap hstatus hwaiting =>
      exact h.put_open (one hswap (by simp [hstatus])) (by simp) (h.known key swap hswap)
  | takeNacked hswap hstatus horder hwaiting =>
      exact h.put_open (one hswap (by simp [hstatus])) (by simp) ⟨_, horder⟩

theorem ExactBook.move_acked {ack : ExtensionTokenSwapTakeAck}
    (h : ExactBook b.orders b.swaps acked)
    (hmove : SwapMove (.operated (.swap (.takeAck ack))) b b') :
    (∃ swap, b.swaps.get (ack.taker, ack.inquiryHeight) = some swap ∧ swap.status = .take) ∧
      ExactBook b'.orders b'.swaps (acked.put (ack.taker, ack.inquiryHeight) ack.value) := by
  cases hmove with
  | quiet hkind => exact absurd rfl (hkind ack)
  | timed hkind => exact absurd rfl (hkind ack)
  | takeAcked hwaiting hswap hstatus horder hunfinished hvalue =>
      exact ⟨⟨_, hswap, hstatus⟩, h.put_acked hswap hstatus horder hunfinished hvalue⟩

end Books

-- The offers that a run has acknowledged.
section Runs

variable {env : Env} {l l' : TokenLedger} {acked : Acknowledged} {history : TokenHistory}

def TokenLedger.swapStatus (l : TokenLedger) (key : Account × Nat) : Option SwapStatus :=
  (l.swaps.get key).map SwapInfo.status

def acknowledgedBy (env : Env) (l : TokenLedger) (action : TokenAction) :
    Option ((Account × Nat) × TokenValue) :=
  match action with
  | .append _ _ _ (.operation (.swap (.takeAck ack)) _) _ =>
    let key := (ack.taker, ack.inquiryHeight)
    if l.swapStatus key = some .take ∧ (l.take env action).swapStatus key = some .takeAck then
      some (key, ack.value)
    else none
  | _ => none

def acknowledged (env : Env) : TokenHistory → Acknowledged
  | [] => .empty
  | (l, action) :: history =>
    match acknowledgedBy env l action with
    | none => acknowledged env history
    | some (key, value) => (acknowledged env history).put key value

structure ExactTrades (l : TokenLedger) (acked : Acknowledged) : Prop where
  covered : l.SwapsCovered
  book : ExactBook l.orders l.swaps acked

theorem ExactTrades.swapStatus_iff (h : ExactTrades l acked) (key : Account × Nat) :
    l.swapStatus key = some .takeAck ↔ ∃ value, acked.get key = some value := by
  rw [h.book.settled key, TokenLedger.swapStatus, Option.map_eq_some_iff]

theorem ExactTrades.change {kind : ChangeKind} (h : ExactTrades l acked)
    (hkind : ∀ ack, kind ≠ .operated (.swap (.takeAck ack))) (hchange : TokenChange env kind l l') :
    ExactTrades l' acked :=
  ⟨hchange.swapsCovered h.covered, h.book.move hkind (hchange.swapMove h.covered)⟩

theorem ExactTrades.changes (h : ExactTrades l acked)
    (hchanges : TokenChanges env (fun kind => ∀ ack, kind ≠ .operated (.swap (.takeAck ack))) l l') :
    ExactTrades l' acked :=
  TokenChanges.keep (P := fun l => ExactTrades l acked)
    (fun _ _ _ hkind htrades hchange => htrades.change hkind hchange) hchanges h

-- A block acknowledges an offer, or none.
theorem ExactTrades.appended {tokenEnv : TokenEnv} (henv : tokenEnv.toEnv = env) {block : Block}
    {content : TokenContent} {confirmed : Bool} {l₁ l₂ : TokenLedger} (h : ExactTrades l acked)
    (hheight : block.height ≠ INVALID_HEIGHT)
    (happended : Appended tokenEnv block content confirmed l l₁ l₂ l') :
    ExactTrades l' acked ∨ ∃ ack checked, content = .operation (.swap (.takeAck ack)) checked ∧
      l.swapStatus (ack.taker, ack.inquiryHeight) = some .take ∧
        ExactTrades l' (acked.put (ack.taker, ack.inquiryHeight) ack.value) := by
  by_cases hcontent : ∃ ack checked, content = .operation (.swap (.takeAck ack)) checked
  · obtain ⟨ack, checked, rfl⟩ := hcontent
    have purged {acked : Acknowledged} (htrades : ExactTrades l₁ acked) :
        ExactTrades l' acked := by
      have hinquiries : ExactTrades l₂ acked :=
        by
        have hpurged : TokenChanges env (fun kind => ∀ ack, kind ≠ .operated (.swap (.takeAck ack)))
            l₁ l₂ := NackedInquiries.changes (by simp) happended.inquiries
        exact htrades.changes hpurged
      exact hinquiries.changes (NackedTakes.changes henv (by simp) happended.takes)
    cases happended.processed with
    | reentry hreentry => exact .inl (purged h)
    | status hnone hawaits => exact absurd rfl (hnone _ checked)
    | refused hawaits hreads =>
        exact .inl (purged (h.change (by simp) (.noted henv hheight hawaits)))
    | @operated _ _ operated _ hawaits hreads hoperated hsettled =>
        have hchange : TokenChange env _ l operated :=
          .operated henv hheight hawaits checked hoperated
        obtain ⟨⟨swap, hswap, hstatus⟩, hbook⟩ :=
          h.book.move_acked (hchange.swapMove h.covered)
        have hl₁ : l₁ = operated := by
          cases hsettled
          rfl
        subst hl₁
        refine .inr ⟨ack, checked, rfl, ?_, purged ⟨hchange.swapsCovered h.covered, hbook⟩⟩
        have hget : l.swaps.get (ack.taker, ack.inquiryHeight) = some swap := hswap
        rw [TokenLedger.swapStatus, hget, ← hstatus]
        rfl
  · refine .inl (h.changes (happended.changes henv hheight fun kind hbrings _ ack hkind => ?_))
    subst hkind
    obtain ⟨checked, hoperation⟩ := hbrings
    exact hcontent ⟨ack, checked, hoperation⟩

theorem ExactTrades.take (action : TokenAction) (hfits : action.Fits)
    (h : ExactTrades l (acknowledged env history)) :
    ExactTrades (l.take env action) (acknowledged env ((l, action) :: history)) := by
  -- what the step acknowledges is read off the statuses of the swap
  have silent (hnone : acknowledgedBy env l action = none)
      (htrades : ExactTrades (l.take env action) (acknowledged env history)) :
      ExactTrades (l.take env action) (acknowledged env ((l, action) :: history)) := by
    rw [acknowledged, hnone]
    exact htrades
  cases action with
  | follow app fails blocks =>
      exact silent rfl (h.changes (follow_changes (by simp) (by simp)))
  | native app fails chain => exact silent rfl (h.changes (native_changes (by simp)))
  | append app fails block content confirmed =>
      have unsold (htrades : ExactTrades
          (l.take env (.append app fails block content confirmed)) (acknowledged env history)) :
          ExactTrades (l.take env (.append app fails block content confirmed))
            (acknowledged env ((l, .append app fails block content confirmed) :: history)) := by
        refine silent ?_ htrades
        unfold acknowledgedBy
        split
        · rename_i ack checked heq
          cases heq
          rw [if_neg]
          rintro ⟨hbefore, hafter⟩
          have hsettled := (h.swapStatus_iff _).mpr ((htrades.swapStatus_iff _).mp hafter)
          rw [hbefore] at hsettled
          cases hsettled
        · rfl
      rcases append_cases env l app fails block content confirmed with
        ⟨l₁, l₂, happended⟩ | hsame
      · rcases h.appended rfl hfits happended with htrades |
          ⟨ack, checked, rfl, hbefore, htrades⟩
        · exact unsold htrades
        · have hafter := (htrades.swapStatus_iff (ack.taker, ack.inquiryHeight)).mpr
            ⟨ack.value, by simp⟩
          have hacked : acknowledgedBy env l
              (.append app fails block (.operation (.swap (.takeAck ack)) checked) confirmed) =
                some ((ack.taker, ack.inquiryHeight), ack.value) :=
            if_pos ⟨hbefore, hafter⟩
          rw [acknowledged, hacked]
          exact htrades
      · refine unsold ?_
        rw [hsame]
        exact h

theorem run_exactTrades (hrun : TokenRun env history l) :
    ExactTrades l (acknowledged env history) := by
  apply hrun.invariant
  · rintro _ rfl
    exact ⟨.empty, .empty⟩
  · intro history l action _ hfits _ htrades
    exact htrades.take action hfits

-- At every moment of every run, an order of a fungible pair is sold at its price, by the offers
-- that were acknowledged and by nothing else, and what is left of it can be bought.
theorem orders_filled_exactly (hrun : TokenRun env history l) {key : Account × Nat}
    {order : OrderInfo} (hget : l.orders.get key = some order)
    (hpair : order.fungiblePair = true) :
    soldOf l.swaps (acknowledged env history) key + order.left.toNat = order.maxOffer.toNat ∧
      (∀ place swap, l.swaps.get place = some swap → swap.status = .takeAck →
        swap.orderKey = key → ∃ offer, (acknowledged env history).get place = some offer ∧
          offer.toNat * order.valueWant.toNat = swap.value.toNat * order.valueOffer.toNat) ∧
      (∀ a b : TokenValue, (wide a * wide b).toNat = a.toNat * b.toNat) ∧
      order.valueOffer.toNat ∣ order.left.toNat * order.valueWant.toNat ∧
      (order.finishedBy = .fulfill ↔ order.left = 0) ∧
      (order.finished = false → ∀ value : TokenValue,
        value.toNat = order.left.toNat * order.valueWant.toNat / order.valueOffer.toNat →
          checkInquiryValue_ order value = false ∧
            checkTakeAckValue_ order value order.left = false) := by
  have hbook := (run_exactTrades hrun).book
  have hexact := hbook.exact key order hget hpair
  refine ⟨hexact.total, ?_, wide_mul_toNat, hexact.whole, hexact.fulfilled, ?_⟩
  · rintro place swap hswap hstatus rfl
    obtain ⟨offer, hoffer⟩ := (hbook.settled place).mpr ⟨swap, hswap, hstatus⟩
    exact ⟨offer, hoffer, hbook.price place swap offer order hswap hoffer hget hpair⟩
  · intro hunfinished value hvalue
    exact hexact.remainder hpair hunfinished hvalue

end Runs

-- An order of 100 at 20 for 10, of which 80 are sold.
section Trade

-- Confirmed blocks in the order in which the application gets them, with what they say.
abbrev Script : Type := List (Block × TokenContent)

-- The chains alone, without what is derived from them.
def chainHooks : AppHooks Unit Unit where
  accountTypes := [.txBlock]
  preBlockAppend _ _ _ := .ok ()
  afterBlockAppend _ _ _ _ _ := .ok ()
  preBlockRollback _ _ := .ok ()

def Script.actions : App Unit → Script → List TokenAction
  | _, [] => []
  | s, (block, content) :: rest =>
    let s' := s.processBlock sampleEnv chainHooks StoreCall.never () block true false
    .append s'.store TokenCall.never block content true :: Script.actions s' rest

def Script.run (script : Script) : TokenHistory × TokenLedger :=
  (tokenMachine sampleEnv).exec .empty (script.actions ⟨.empty, ()⟩)

-- The script is a run if what it goes through is allowed.
theorem Script.run_spec {script : Script} {allowed : TokenHistory → TokenLedger → Prop}
    (hheights : ∀ entry ∈ script, entry.1.height ≠ INVALID_HEIGHT)
    (hallowed : ∀ n ≤ (script.actions ⟨.empty, ()⟩).length,
      let reached := (tokenMachine sampleEnv).exec .empty ((script.actions ⟨.empty, ()⟩).take n)
      allowed reached.1 reached.2) :
    (tokenMachine sampleEnv).Run allowed script.run.1 script.run.2 := by
  have hfits (s : App Unit) : ∀ action ∈ script.actions s, action.Fits := by
    clear hallowed
    induction script generalizing s with
    | nil => exact fun _ hmem => nomatch hmem
    | cons entry rest ih =>
        rw [List.forall_mem_cons] at hheights
        rw [Script.actions, List.forall_mem_cons]
        exact ⟨hheights.1, ih hheights.2 _⟩
  exact Machine.exec_run rfl (fun action hmem _ => hfits _ action hmem) hallowed

def tradeBlock (account : Account) : Nat → Block
  | 0 => sampleTx .receive 2 1 0 0 account 0 account 1000 0
  | height + 1 => sampleTx .change 2 1 0 (UInt64.ofNat (height + 1)) account
      (sampleEnv.hash (tradeBlock account height)) account 1000 0

def tradeToken (account : Account) : ExtensionTokenInfo := ⟨.RAICOIN_TEST, .t20, account⟩

def tradeCreate : ExtensionTokenCreate := .token20 ⟨"token", "T", 1000, 0, 0, true, true, true⟩

-- The account receives what it has created.
def tradeReceive (account : Account) : ExtensionTokenReceive where
  token := tradeToken account
  source := .mint
  from_ := account
  blockHeight := 0
  txHash := sampleEnv.hash (tradeBlock account 0)
  value := 1000
  unwrapChain := .INVALID
  index := 0

def tradeMake : ExtensionTokenSwapMake where
  tokenOffer := tradeToken 1
  tokenWant := tradeToken 2
  valueOffer := 10
  valueWant := 20
  minOffer := 50
  maxOffer := 100
  timeout := 0

-- Account 1 makes the order, and account 2 takes it up to its last step.
theorem tradeCreate_checked : (ExtensionToken.create tradeCreate).checkData = .ok () := by decide

theorem tradeReceive_checked : (ExtensionToken.receive (tradeReceive 1)).checkData = .ok () := by
  decide

theorem tradeConfig_checked : (ExtensionToken.swap (.config 3)).checkData = .ok () := by decide

theorem tradeMake_checked : (ExtensionToken.swap (.make tradeMake)).checkData = .ok () := by
  decide +kernel

theorem tradeInquiry_checked :
    (ExtensionToken.swap (.inquiry ⟨1, 3, 0, 5, 160, 7⟩)).checkData = .ok () := by
  decide

def tradeTaken : Script :=
  [(tradeBlock 1 0, .operation (.create tradeCreate) tradeCreate_checked),
   (tradeBlock 1 1, .operation (.receive (tradeReceive 1)) tradeReceive_checked),
   (tradeBlock 2 0, .operation (.create tradeCreate) tradeCreate_checked),
   (tradeBlock 2 1, .operation (.receive (tradeReceive 2)) (by decide)),
   (tradeBlock 1 2, .operation (.swap (.config 3)) tradeConfig_checked),
   (tradeBlock 1 3, .operation (.swap (.make tradeMake)) tradeMake_checked),
   (tradeBlock 2 2, .operation (.swap (.inquiry ⟨1, 3, 0, 5, 160, 7⟩)) tradeInquiry_checked),
   (tradeBlock 3 0, .operation (.swap (.inquiryAck ⟨2, 2, 4, 8, 9⟩)) (by decide)),
   (tradeBlock 2 3, .operation (.swap (.take 2)) (by decide))]

def trade : Script :=
  tradeTaken ++ [(tradeBlock 1 4, .operation (.swap (.takeAck ⟨2, 2, 3, 80⟩)) (by decide))]

theorem trade_filled_exactly : ∃ order, trade.run.2.orders.get (1, 3) = some order ∧
    order.left = 20 ∧
      soldOf trade.run.2.swaps (acknowledged sampleEnv trade.run.1) (1, 3) + 20 = 100 := by
  have hread : (trade.run.2.orders.get (1, 3)).map
      (fun order => (order.fungiblePair, order.left, order.maxOffer)) = some (true, 20, 100) := by
    decide +kernel
  obtain ⟨order, hget, hterms⟩ := Option.map_eq_some_iff.mp hread
  simp only [Prod.mk.injEq] at hterms
  obtain ⟨hpair, hleft, hmax⟩ := hterms
  have hrun : TokenRun sampleEnv trade.run.1 trade.run.2 := 
    Script.run_spec (by decide) fun _ _ => trivial
  have hsold := (orders_filled_exactly hrun hget hpair).1
  have hleftNat : (20 : TokenValue).toNat = 20 := by decide
  have hmaxNat : (100 : TokenValue).toNat = 100 := by decide
  rw [hleft, hmax, hleftNat, hmaxNat] at hsold
  exact ⟨order, hget, hleft, hsold⟩

end Trade

end Raicoin
