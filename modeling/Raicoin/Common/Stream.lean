import Raicoin.Common.Errors
import Raicoin.Common.Numbers
import Raicoin.Lib.Codec
import Raicoin.Lib.Numerals

-- `rai::Read` and `rai::Write`: numbers stand in a stream of bytes with a fixed width,
-- in big endian.
namespace Raicoin

open Lib

theorem bigEndian_eq (width value : Nat) :
    bigEndian width value = (numeral 256 width value).map UInt8.ofNat := by
  induction width with
  | zero => rfl
  | succ width ih =>
      have hbyte : UInt8.ofNat (value / 256 ^ width) = UInt8.ofNat (value / 256 ^ width % 256) :=
        UInt8.toNat_inj.mp (by simp)
      rw [bigEndian, numeral, List.map_cons, ih, hbyte]

-- `boost::endian::big_to_native`.
def fromBigEndian (bytes : List UInt8) : Nat := numeralValue 256 0 (bytes.map UInt8.toNat)

private theorem bytes_lt (bytes : List UInt8) : ∀ digit ∈ bytes.map UInt8.toNat, digit < 256 := by
  intro digit hdigit
  obtain ⟨byte, -, rfl⟩ := List.mem_map.mp hdigit
  exact byte.toNat_lt

theorem fromBigEndian_lt (bytes : List UInt8) : fromBigEndian bytes < 256 ^ bytes.length := by
  have hlt := numeralValue_lt (bytes_lt bytes)
  rwa [List.length_map] at hlt

theorem bigEndian_fromBigEndian (bytes : List UInt8) :
    bigEndian bytes.length (fromBigEndian bytes) = bytes := by
  have hdigits := numeral_numeralValue (bytes_lt bytes)
  rw [List.length_map] at hdigits
  rw [bigEndian_eq, fromBigEndian, hdigits, List.map_map]
  exact (List.map_congr_left fun byte _ => UInt8.ofNat_toNat).trans (List.map_id bytes)

theorem fromBigEndian_bigEndian (width : Nat) {value : Nat} (h : value < 256 ^ width) :
    fromBigEndian (bigEndian width value) = value := by
  have hmap : (numeral 256 width value).map (UInt8.toNat ∘ UInt8.ofNat) =
      numeral 256 width value := by
    refine (List.map_congr_left fun digit hdigit => ?_).trans (List.map_id _)
    have hlt := numeral_lt (by decide) hdigit
    simp [Nat.mod_eq_of_lt hlt]
  rw [fromBigEndian, bigEndian_eq, List.map_map, hmap, numeralValue_numeral, Nat.mod_eq_of_lt h]

-- The types that are streamed, as numbers of `size` bytes.
class Wire (α : Type) where
  size : Nat
  toNat : α → Nat
  ofNat : Nat → α
  toNat_lt : ∀ a, toNat a < 256 ^ size
  ofNat_toNat : ∀ a, ofNat (toNat a) = a
  toNat_ofNat : ∀ n < 256 ^ size, toNat (ofNat n) = n

instance : Wire UInt8 where
  size := 1
  toNat := UInt8.toNat
  ofNat := UInt8.ofNat
  toNat_lt := UInt8.toNat_lt
  ofNat_toNat a := by simp
  toNat_ofNat n h := by simpa using h

instance : Wire UInt16 where
  size := 2
  toNat := UInt16.toNat
  ofNat := UInt16.ofNat
  toNat_lt := UInt16.toNat_lt
  ofNat_toNat a := by simp
  toNat_ofNat n h := by simpa using h

instance : Wire UInt32 where
  size := 4
  toNat := UInt32.toNat
  ofNat := UInt32.ofNat
  toNat_lt := UInt32.toNat_lt
  ofNat_toNat a := by simp
  toNat_ofNat n h := by simpa using h

instance : Wire UInt64 where
  size := 8
  toNat := UInt64.toNat
  ofNat := UInt64.ofNat
  toNat_lt := UInt64.toNat_lt
  ofNat_toNat a := by simp
  toNat_ofNat n h := by simpa using h

-- The unions of `numbers.hpp` are streamed as the numbers they hold.
@[reducible] def wireUnion (size : Nat) : Wire (BitVec (8 * size)) where
  size := size
  toNat := BitVec.toNat
  ofNat := BitVec.ofNat (8 * size)
  toNat_lt a := by
    have hlt := a.isLt
    rwa [Nat.pow_mul] at hlt
  ofNat_toNat a := by simp
  toNat_ofNat n h := by
    rw [BitVec.toNat_ofNat, Nat.pow_mul]
    exact Nat.mod_eq_of_lt h

instance : Wire (BitVec 128) := wireUnion 16

instance : Wire (BitVec 256) := wireUnion 32

instance : Wire (BitVec 512) := wireUnion 64

abbrev StreamM := Reader UInt8 ErrorCode

section Stream

variable {α : Type} [Wire α]

def streamWrite (value : α) : List UInt8 := bigEndian (Wire.size α) (Wire.toNat value)

def streamRead : StreamM α := do
  let bytes ← Reader.take .STREAM (Wire.size α)
  return Wire.ofNat (fromBigEndian bytes)

-- `rai::Read(stream, size, data)`.
def streamReadBytes (size : Nat) : StreamM (List UInt8) := Reader.take .STREAM size

@[simp] theorem streamWrite_length (value : α) : (streamWrite value).length = Wire.size α :=
  bigEndian_length _ _

theorem streamWrite_ne_nil (value : α) (h : 0 < Wire.size α) : streamWrite value ≠ [] := by
  intro hnil
  have hlength := streamWrite_length value
  rw [hnil] at hlength
  rw [← hlength] at h
  exact Nat.lt_irrefl 0 h

theorem streamRead_inverts : Inverts (streamRead : StreamM α) streamWrite fun _ => True := by
  refine (Inverts.take ErrorCode.STREAM (Wire.size α)).inject (fun value => ?_) fun bytes hlength => ?_
  · refine ⟨fun _ => ⟨streamWrite value, streamWrite_length value, ?_⟩, fun _ => trivial⟩
    rw [streamWrite, fromBigEndian_bigEndian _ (Wire.toNat_lt value), Wire.ofNat_toNat]
  · have hlt := fromBigEndian_lt bytes
    rw [hlength] at hlt
    rw [streamWrite, Wire.toNat_ofNat _ hlt, ← hlength, bigEndian_fromBigEndian]
    rfl

theorem streamReadBytes_inverts (size : Nat) :
    Inverts (streamReadBytes size) id fun bytes => bytes.length = size :=
  Inverts.take _ size

end Stream

theorem streamWrite_byte (byte : UInt8) : streamWrite byte = [byte] := by
  change [UInt8.ofNat (byte.toNat / 256 ^ 0)] = [byte]
  rw [Nat.pow_zero, Nat.div_one, UInt8.ofNat_toNat]

end Raicoin
