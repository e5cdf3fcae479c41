import Raicoin.Common.Numbers

namespace Raicoin

-- `rai::RAI_NETWORK`, fixed when the node is compiled.
inductive RaiNetworks where
  | test
  | beta
  | live
  deriving DecidableEq, Repr

def TEST_EPOCH_TIMESTAMP : Nat := 1577836800
def BETA_EPOCH_TIMESTAMP : Nat := 1585699200
def LIVE_EPOCH_TIMESTAMP : Nat := 1595894400

def TEST_GENESIS_BALANCE : Nat := 10000000
def BETA_GENESIS_BALANCE : Nat := 10010000
def LIVE_GENESIS_BALANCE : Nat := 10010000

def MAX_TIMESTAMP_DIFF : Nat := 300
def MIN_CONFIRM_INTERVAL : Nat := 10
def TRANSACTIONS_PER_CREDIT : Nat := 20
def MAX_EXTENSIONS_SIZE : Nat := 256
def BASE_ALLOWED_BINDINGS : Nat := 16
def EXTRA_BINDINGS_PER_CREDIT : Nat := 1
def EXTRA_FORKS_PER_CREDIT : Nat := 1

def DAY : Nat := 24 * 60 * 60
def QUARTER : Nat := 90 * 24 * 60 * 60

def epochTimestamp : RaiNetworks → Nat
  | .test => TEST_EPOCH_TIMESTAMP
  | .beta => BETA_EPOCH_TIMESTAMP
  | .live => LIVE_EPOCH_TIMESTAMP

def genesisBalance : RaiNetworks → Amount
  | .test => BitVec.ofNat 128 (TEST_GENESIS_BALANCE * RAI)
  | .beta => BitVec.ofNat 128 (BETA_GENESIS_BALANCE * RAI)
  | .live => BitVec.ofNat 128 (LIVE_GENESIS_BALANCE * RAI)

theorem epochTimestamp_pos (network : RaiNetworks) : 0 < epochTimestamp network := by
  cases network <;> decide

-- One row for each quarter of the first twelve years, in mRAI.
def creditPrices : List Nat :=
  [1000, 1000, 1000, 1000, 900, 800, 700, 600, 500, 500, 400, 400, 300, 300, 200, 200,
   100, 100, 100, 100, 90, 80, 70, 60, 50, 50, 40, 40, 30, 30, 20, 20,
   10, 10, 10, 10, 9, 8, 7, 6, 5, 5, 4, 4, 3, 3, 2, 2]

def creditPrice (network : RaiNetworks) (timestamp : Nat) : Nat :=
  if timestamp < epochTimestamp network then 0
  else if timestamp ≥ epochTimestamp network + QUARTER * 48 then mRAI
  else creditPrices.getD ((timestamp - epochTimestamp network) / QUARTER) 0 * mRAI

-- One row for each quarter of the first four years, in uRAI a day for a RAI.
def rewardRates : List Nat :=
  [7800, 4600, 3200, 2500, 1500, 1500, 1200, 1200, 620, 620, 620, 620, 270, 270, 270, 270]

def rewardRate (network : RaiNetworks) (timestamp : Nat) : Nat :=
  if timestamp < epochTimestamp network then 0
  else if timestamp ≥ epochTimestamp network + QUARTER * 16 then 140 * uRAI
  else rewardRates.getD ((timestamp - epochTimestamp network) / QUARTER) 0 * uRAI

-- The product is taken in 256 bits, which it cannot fill, and the quotient is cut to 128 bits.
def rewardAmount (network : RaiNetworks) (balance : Amount) (begin_ end_ : Nat) : Amount :=
  if begin_ > end_ ∨ begin_ < epochTimestamp network then 0
  else BitVec.ofNat 128
    (balance.toNat * rewardRate network end_ * (end_ - begin_) / DAY / RAI)

def rewardTimestamp (network : RaiNetworks) (begin_ end_ : Nat) : Nat :=
  if begin_ > end_ ∨ begin_ < epochTimestamp network then 0
  else
    let result := (begin_ + (end_ - begin_ + 1) / 2 + DAY) % 2 ^ 64
    if end_ > result then end_ else result

-- 4 forks at first, one more each quarter, 256 at most.
def baseAllowedForks (network : RaiNetworks) (timestamp : Nat) : Nat :=
  if timestamp < epochTimestamp network then 4
  else min ((timestamp - epochTimestamp network) / QUARTER + 4) 256

def maxAllowedForks (network : RaiNetworks) (timestamp credit : Nat) : Nat :=
  baseAllowedForks network timestamp + credit * EXTRA_FORKS_PER_CREDIT

def allowedBindings (credit : Nat) : Nat :=
  BASE_ALLOWED_BINDINGS + credit * EXTRA_BINDINGS_PER_CREDIT

def SameDay (t1 t2 : Nat) : Prop := t1 / DAY = t2 / DAY

instance (t1 t2 : Nat) : Decidable (SameDay t1 t2) := inferInstanceAs (Decidable (_ = _))

private theorem rewardRates_le : ∀ later < 16, ∀ earlier ≤ later,
    rewardRates.getD later 0 ≤ rewardRates.getD earlier 0 := by
  decide

private theorem rewardRates_ge : ∀ index < 16, 140 ≤ rewardRates.getD index 0 := by
  decide

private theorem rewardRate_early {network : RaiNetworks} {timestamp : Nat}
    (hepoch : epochTimestamp network ≤ timestamp)
    (hlate : timestamp < epochTimestamp network + QUARTER * 16) :
    rewardRate network timestamp =
      rewardRates.getD ((timestamp - epochTimestamp network) / QUARTER) 0 * uRAI := by
  rw [rewardRate, if_neg (by omega), if_neg (by omega)]

private theorem rewardRate_late {network : RaiNetworks} {timestamp : Nat}
    (hlate : epochTimestamp network + QUARTER * 16 ≤ timestamp) :
    rewardRate network timestamp = 140 * uRAI := by
  rw [rewardRate, if_neg (by omega), if_pos hlate]

-- Rates only fall, so the rate at the end of a holding period is the least in it.
theorem rewardRate_antitone (network : RaiNetworks) {earlier later : Nat}
    (hepoch : epochTimestamp network ≤ earlier) (hle : earlier ≤ later) :
    rewardRate network later ≤ rewardRate network earlier := by
  have hq : 0 < QUARTER := by decide
  have hrow {timestamp : Nat} (hlate : timestamp < epochTimestamp network + QUARTER * 16) :
      (timestamp - epochTimestamp network) / QUARTER < 16 := by
    rw [Nat.div_lt_iff_lt_mul hq, Nat.mul_comm]
    have : 0 < QUARTER * 16 := by decide
    omega
  rcases Nat.lt_or_ge later (epochTimestamp network + QUARTER * 16) with hl | hl
  · rw [rewardRate_early (by omega) hl, rewardRate_early hepoch (by omega)]
    apply Nat.mul_le_mul_right
    exact rewardRates_le _ (hrow hl) _ (Nat.div_le_div_right (by omega))
  · rw [rewardRate_late hl]
    rcases Nat.lt_or_ge earlier (epochTimestamp network + QUARTER * 16) with he | he
    · rw [rewardRate_early hepoch he]
      exact Nat.mul_le_mul_right _ (rewardRates_ge _ (hrow he))
    · rw [rewardRate_late he]

-- A reward that is worth something was earned in a real holding period.
theorem rewardAmount_ne_zero {network : RaiNetworks} {balance : Amount} {begin_ end_ : Nat}
    (h : rewardAmount network balance begin_ end_ ≠ 0) :
    begin_ ≤ end_ ∧ epochTimestamp network ≤ begin_ := by
  unfold rewardAmount at h
  split at h
  · exact absurd rfl h
  · omega

-- The floors and the cut to 128 bits only lose coins.
theorem rewardAmount_le (network : RaiNetworks) (balance : Amount) (begin_ end_ : Nat) :
    (rewardAmount network balance begin_ end_).toNat * (DAY * RAI) ≤
      balance.toNat * rewardRate network end_ * (end_ - begin_) := by
  unfold rewardAmount
  split
  · simp
  · rw [BitVec.toNat_ofNat, Nat.div_div_eq_div_mul]
    exact Nat.le_trans (Nat.mul_le_mul_right _ (Nat.mod_le _ _)) (Nat.div_mul_le_self _ _)

-- A reward never becomes claimable before the block that earned it.
theorem le_rewardTimestamp {network : RaiNetworks} {begin_ end_ : Nat}
    (hle : begin_ ≤ end_) (hepoch : epochTimestamp network ≤ begin_) :
    end_ ≤ rewardTimestamp network begin_ end_ := by
  unfold rewardTimestamp
  rw [if_neg (by omega)]
  simp only
  split <;> omega

-- The two tests of `PutRewardableInfo` agree: an amount comes with a time.
theorem rewardTimestamp_ne_zero {network : RaiNetworks} {balance : Amount} {begin_ end_ : Nat}
    (h : rewardAmount network balance begin_ end_ ≠ 0) :
    rewardTimestamp network begin_ end_ ≠ 0 := by
  obtain ⟨hle, hepoch⟩ := rewardAmount_ne_zero h
  have hend := le_rewardTimestamp hle hepoch
  have hpos := epochTimestamp_pos network
  omega

end Raicoin
