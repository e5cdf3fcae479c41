import Raicoin.Common.Util
import Raicoin.Secure.TokenScansSpec

-- The keys that aliases are found under, and the iterators that bound the keys of a query.
namespace Raicoin

open Lib Scans

-- `rai::Prefix`, the bytes of a `uint512_union`.
structure Prefix where
  bytes : List UInt8
  length_eq : bytes.length = 64
  deriving DecidableEq

-- `*i >= 'A' && *i <= 'Z'`
def lowerByte (byte : UInt8) : UInt8 := if 65 ≤ byte ∧ byte ≤ 90 then byte + 32 else byte

namespace Prefix

-- The constructor from a vector: the bytes that fit in, and zeros.
def ofBytes (bytes : List UInt8) : Prefix where
  bytes := bytes.take 64 ++ List.replicate (64 - bytes.length) 0
  length_eq := by
    simp only [List.length_append, List.length_take, List.length_replicate]
    omega

def ofOffset (byte : UInt8) (offset : Nat) : Prefix where
  bytes := (List.replicate 64 0).set (if offset ≥ 64 then 63 else offset) byte
  length_eq := by simp

def toLower (key : Prefix) : Prefix where
  bytes := key.bytes.map lowerByte
  length_eq := by rw [List.length_map, key.length_eq]

-- The constructor from a string, where `to_lower` is set unless the caller says else.
def ofString (str : Text) : Prefix := (ofBytes str).toLower

def number (key : Prefix) : BitVec 512 := BitVec.ofNat 512 (fromBigEndian key.bytes)

def ofNumber (value : BitVec 512) : Prefix := ⟨streamWrite value, streamWrite_length value⟩

def add (key other : Prefix) : Prefix := ofNumber (key.number + other.number)

def isZero (key : Prefix) : Bool := key.number = 0

end Prefix

structure AliasIndex where
  key : Prefix
  account : Account
  deriving DecidableEq

namespace AliasIndex

def make (key : Prefix) (account : Account) : AliasIndex := ⟨key.toLower, account⟩

def serialize (index : AliasIndex) : List UInt8 := index.key.bytes ++ streamWrite index.account

def deserialize : StreamM AliasIndex := do
  let bytes ← Reader.take .STREAM 64
  let account ← streamRead
  return ⟨.ofBytes bytes, account⟩

end AliasIndex

instance : StoreKey AliasIndex where
  serialize := AliasIndex.serialize
  size := 96
  serialize_length index := by simp [AliasIndex.serialize, index.key.length_eq, Wire.size]

-- The names and the domain names have tables of one kind.
namespace Scans.KeyTable

variable (t : KeyTable AliasIndex)

def aliasLowerBound (key : Prefix) : Iterator := t.setRange (.make key 0)

-- `size` is how many bytes of the key are given.
def aliasUpperBound (key : Prefix) (size : Nat) : Iterator :=
  if size = 0 then []
  else
    let index := AliasIndex.make key 0
    let next := index.key.add (.ofOffset 1 (size - 1))
    if next.isZero then [] else t.setRange { index with key := next }

end Scans.KeyTable

theorem lowerByte_lowerByte (byte : UInt8) : lowerByte (lowerByte byte) = lowerByte byte := by
  unfold lowerByte
  by_cases h : 65 ≤ byte ∧ byte ≤ 90
  · have hnot : ¬(65 ≤ byte + 32 ∧ byte + 32 ≤ 90) := by
      simp only [UInt8.le_iff_toNat_le, UInt8.toNat_add] at h ⊢
      have hlower : (65 : UInt8).toNat = 65 := rfl
      have hupper : (90 : UInt8).toNat = 90 := rfl
      have hshift : (32 : UInt8).toNat = 32 := rfl
      omega
    rw [if_pos h, if_neg hnot]
  · rw [if_neg h, if_neg h]

section Numbers

theorem fromBigEndian_zeros (count : Nat) : fromBigEndian (List.replicate count 0) = 0 := by
  induction count with
  | zero => rfl
  | succ count ih =>
      rw [List.replicate_succ']
      rw [fromBigEndian_append, ih]
      rfl

theorem fromBigEndian_padded (front : List UInt8) (count : Nat) :
    fromBigEndian (front ++ List.replicate count 0) = fromBigEndian front * 256 ^ count := by
  rw [fromBigEndian_append, fromBigEndian_zeros, List.length_replicate, Nat.add_zero]

-- The quotient can be told from the range that a number lies in.
theorem within_iff (front number : Nat) {width back : Nat} (h : back < width) :
    number * width ≤ front * width + back ∧ front * width + back < (number + 1) * width ↔
      front = number := by
  have hpos : 0 < width := by omega
  have hdiv : (front * width + back) / width = front := by
    rw [Nat.add_comm, Nat.add_mul_div_right _ _ hpos, Nat.div_eq_of_lt h, Nat.zero_add]
  rw [← Nat.le_div_iff_mul_le hpos, ← Nat.div_lt_iff_lt_mul hpos, hdiv]
  omega

end Numbers

namespace Prefix

def value (key : Prefix) : Nat := fromBigEndian key.bytes

theorem value_lt (key : Prefix) : key.value < 256 ^ 64 := by
  have hlt := fromBigEndian_lt key.bytes
  rwa [key.length_eq] at hlt

private theorem width_eq : 2 ^ 512 = 256 ^ 64 := Nat.pow_mul 2 8 64

theorem number_toNat (key : Prefix) : key.number.toNat = key.value := by
  rw [number, BitVec.toNat_ofNat, width_eq]
  exact Nat.mod_eq_of_lt key.value_lt

theorem isZero_iff (key : Prefix) : key.isZero = true ↔ key.value = 0 := by
  rw [isZero, decide_eq_true_eq, ← BitVec.toNat_inj, number_toNat, zero_union]

-- The sum is carried from byte to byte, and what is carried out of the first byte is lost.
theorem value_add (key other : Prefix) :
    (key.add other).value = (key.value + other.value) % 256 ^ 64 := by
  rw [add, ofNumber, value, fromBigEndian_streamWrite]
  change (key.number + other.number).toNat = _
  rw [BitVec.toNat_add, number_toNat, number_toNat, width_eq]

theorem value_ofOffset {size : Nat} (h : 0 < size) (hle : size ≤ 64) :
    (ofOffset 1 (size - 1)).value = 256 ^ (64 - size) := by
  have hbytes : (ofOffset 1 (size - 1)).bytes =
      List.replicate (size - 1) 0 ++ [1] ++ List.replicate (64 - size) 0 := by
    have hat : ¬size - 1 ≥ 64 := by omega
    have hsplit : List.replicate 64 (0 : UInt8) =
        List.replicate (size - 1) 0 ++ (0 :: List.replicate (64 - size) 0) := by
      rw [← List.replicate_succ, List.replicate_append_replicate]
      congr 1
      omega
    change (List.replicate 64 0).set (if size - 1 ≥ 64 then 63 else size - 1) 1 = _
    rw [if_neg hat, hsplit, List.set_append_right _ _ (by simp)]
    simp
  rw [value, hbytes, fromBigEndian_padded, fromBigEndian_append, fromBigEndian_zeros]
  have hone : fromBigEndian [1] = 1 := rfl
  rw [hone, Nat.zero_mul, Nat.zero_add, Nat.one_mul]

end Prefix

namespace AliasIndex

open KeyTable

theorem place_eq (index : AliasIndex) :
    place index = index.key.value * 256 ^ 32 + index.account.toNat := by
  change fromBigEndian (index.key.bytes ++ streamWrite index.account) = _
  rw [fromBigEndian_append, fromBigEndian_streamWrite, streamWrite_length]
  rfl

-- What a key begins with is a range of the keys.
theorem take_iff (index : AliasIndex) {front : List UInt8} (hle : front.length ≤ 64) :
    index.key.bytes.take front.length = front ↔
      fromBigEndian front * 256 ^ (64 - front.length) * 256 ^ 32 ≤ place index ∧
        place index < (fromBigEndian front + 1) * 256 ^ (64 - front.length) * 256 ^ 32 := by
  have haccount := index.account.isLt
  have htake : (index.key.bytes.take front.length).length = front.length := by
    rw [List.length_take, index.key.length_eq]
    omega
  have hdrop : (index.key.bytes.drop front.length).length = 64 - front.length := by
    rw [List.length_drop, index.key.length_eq]
  have hback := fromBigEndian_lt (index.key.bytes.drop front.length)
  have hvalue : index.key.value =
      fromBigEndian (index.key.bytes.take front.length) * 256 ^ (64 - front.length) +
        fromBigEndian (index.key.bytes.drop front.length) := by
    rw [← hdrop, ← fromBigEndian_append, List.take_append_drop]
    rfl
  rw [hdrop] at hback
  have hwithin := within_iff (fromBigEndian (index.key.bytes.take front.length))
    (fromBigEndian front) hback
  rw [← hvalue] at hwithin
  rw [place_eq]
  constructor
  · intro h
    obtain ⟨hlower, hupper⟩ := hwithin.mpr (congrArg fromBigEndian h)
    omega
  · intro h
    exact fromBigEndian_inj htake (hwithin.mp (by omega))

end AliasIndex

namespace Scans.KeyTable

variable (t : KeyTable AliasIndex) {key : Prefix} {front : List UInt8}

theorem aliasLowerBound_eq (hkey : key.toLower.bytes = front ++ List.replicate (64 - front.length) 0) :
    t.aliasLowerBound key =
      t.at_ (fromBigEndian front * 256 ^ (64 - front.length) * 256 ^ 32) := by
  refine t.setRange_of ?_
  rw [AliasIndex.place_eq, AliasIndex.make, Prefix.value, hkey, fromBigEndian_padded, zero_union,
    Nat.add_zero]

-- The next key of the same length, or the end behind the last one.
theorem aliasUpperBound_eq (hpos : 0 < front.length) (hle : front.length ≤ 64)
    (hkey : key.toLower.bytes = front ++ List.replicate (64 - front.length) 0) :
    t.aliasUpperBound key front.length =
      t.at_ ((fromBigEndian front + 1) * 256 ^ (64 - front.length) * 256 ^ 32) := by
  have hvalue : key.toLower.value = fromBigEndian front * 256 ^ (64 - front.length) := by
    rw [Prefix.value, hkey, fromBigEndian_padded]
  have hsum : key.toLower.value + (Prefix.ofOffset 1 (front.length - 1)).value =
      (fromBigEndian front + 1) * 256 ^ (64 - front.length) := by
    rw [hvalue, Prefix.value_ofOffset hpos hle, Nat.add_mul, Nat.one_mul]
  have hfront := fromBigEndian_lt front
  have hwidth : 256 ^ front.length * 256 ^ (64 - front.length) = 256 ^ 64 := by
    rw [← Nat.pow_add]
    congr 1
    omega
  have hadd : (key.toLower.add (.ofOffset 1 (front.length - 1))).value =
      (fromBigEndian front + 1) * 256 ^ (64 - front.length) % 256 ^ 64 := by
    rw [Prefix.value_add, hsum]
  have hbound : (fromBigEndian front + 1) * 256 ^ (64 - front.length) ≤ 256 ^ 64 := by
    rw [← hwidth]
    exact Nat.mul_le_mul_right _ hfront
  have hnonzero : 0 < (fromBigEndian front + 1) * 256 ^ (64 - front.length) :=
    Nat.mul_pos (Nat.succ_pos _) (Nat.pow_pos (by decide))
  unfold aliasUpperBound
  rw [if_neg (by omega)]
  dsimp only [AliasIndex.make]
  split
  · next hzero =>
      rw [Prefix.isZero_iff, hadd] at hzero
      refine (t.at_end ?_).symm
      have hlast : (fromBigEndian front + 1) * 256 ^ (64 - front.length) = 256 ^ 64 := by
        by_contra hne
        rw [Nat.mod_eq_of_lt (by omega)] at hzero
        omega
      rw [hlast, ← Nat.pow_add]
      exact Nat.le_refl _
  · next hzero =>
      rw [Prefix.isZero_iff, hadd] at hzero
      refine t.setRange_of ?_
      have hlt : (fromBigEndian front + 1) * 256 ^ (64 - front.length) < 256 ^ 64 := by
        refine Nat.lt_of_le_of_ne hbound fun heq => hzero ?_
        rw [heq, Nat.mod_self]
      rw [AliasIndex.place_eq, hadd, Nat.mod_eq_of_lt hlt, zero_union, Nat.add_zero]

-- A scan between the bounds of a key visits the keys that begin with its given bytes.
theorem alias_exact (hpos : 0 < front.length) (hle : front.length ≤ 64)
    (hkey : key.toLower.bytes = front ++ List.replicate (64 - front.length) 0) :
    t.Exact (fun index => index.key.bytes.take front.length = front)
      (visited (t.aliasLowerBound key) (t.aliasUpperBound key front.length)) := by
  rw [aliasLowerBound_eq t hkey, aliasUpperBound_eq t hpos hle hkey]
  refine exact_of_range ?_ fun index => index.take_iff hle
  exact Nat.mul_le_mul_right _ (Nat.mul_le_mul_right _ (Nat.le_succ _))

end Scans.KeyTable

end Raicoin
