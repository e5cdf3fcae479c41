import Mathlib.Algebra.Ring.Nat
import Mathlib.Data.Nat.Basic
import Mathlib.Tactic.Common

namespace Raicoin

-- `rai::uint256_union`, under the names the node gives it.
abbrev Uint256 := BitVec 256
abbrev Account := Uint256
abbrev BlockHash := Uint256
abbrev PublicKey := Uint256
abbrev SignerAddress := Uint256

-- `rai::uint512_union`.
abbrev Signature := BitVec 512

-- `rai::uint128_union`: balances are 128 bit, and their sums and differences wrap.
abbrev Amount := BitVec 128

def uRAI : Nat := 10 ^ 3
def mRAI : Nat := 10 ^ 6
def RAI : Nat := 10 ^ 9

-- The chains of `rai::Chain`, by number.
abbrev Chain := UInt32

def Chain.INVALID : Chain := 0

-- `boost::endian::native_to_big` on the low `width` bytes of a number.
def bigEndian : Nat → Nat → List UInt8
  | 0, _ => []
  | width + 1, value => UInt8.ofNat (value / 256 ^ width) :: bigEndian width value

@[simp] theorem bigEndian_length (width value : Nat) : (bigEndian width value).length = width := by
  induction width with
  | zero => rfl
  | succ width ih => simp [bigEndian, ih]

theorem bigEndian_injective (width value other : Nat)
    (hv : value < 256 ^ width) (ho : other < 256 ^ width)
    (h : bigEndian width value = bigEndian width other) : value = other := by
  suffices hmod : ∀ width, bigEndian width value = bigEndian width other →
      value % 256 ^ width = other % 256 ^ width by
    simpa [Nat.mod_eq_of_lt hv, Nat.mod_eq_of_lt ho] using hmod width h
  intro width h
  induction width with
  | zero => simp [Nat.mod_one]
  | succ width ih =>
      simp only [bigEndian, List.cons.injEq] at h
      have hlow := ih h.2
      have hhigh : value / 256 ^ width % 256 = other / 256 ^ width % 256 := by
        have hbyte := congrArg UInt8.toNat h.1
        rwa [UInt8.toNat_ofNat', UInt8.toNat_ofNat'] at hbyte
      rw [Nat.pow_succ, Nat.mod_mul, Nat.mod_mul, hlow, hhigh]

end Raicoin
