import Mathlib.Algebra.Ring.Int.Defs
import Raicoin.Common.Address
import Raicoin.Common.Util

-- The `Serializer` of the bridge program, and the texts that it turns into numbers.
namespace Raicoin.Validator

open Lib

-- `ACCOUNT`: as in `numbers.cpp`, but what follows an account after `_` is cut off.
namespace Account

variable (blake2b : List UInt8 → BitVec 40)

def charDecode (d : UInt8) : UInt8 :=
  if d ∉ accountLookup then 0xff else accountReverse.getD (d.toNat - 0x30) 0 - 0x30

def decodeDigits : Text → Nat → Option Nat
  | [], number => some number
  | d :: text, number =>
    if charDecode d = 0xff then none else decodeDigits text (number <<< 5 + (charDecode d).toNat)

def decode (a : Text) : Option Uint256 :=
  if a.length < 64 ∨ a.take 4 ≠ textBytes "rai_" then none
  else if 0x20 ∈ a ∨ 0x0d ∈ a ∨ 0x0a ∈ a ∨ 0x09 ∈ a then none
  else if a.length = 65 ∨ (a.length > 65 ∧ a[64]? ≠ some 0x5f) then none
  else if a[4]? ≠ some 0x31 ∧ a[4]? ≠ some 0x33 then none
  else do
    let number ← decodeDigits ((a.drop 4).take 60) 0
    let u := BitVec.ofNat 256 (number >>> 40)
    if number &&& 0xffffffffff ≠ (blake2b (bigEndian 32 u.toNat)).toNat then none else some u

-- The text is the one of `numbers.cpp`.
def encode (u : Uint256) : Text := encodeAccount blake2b u

end Account

section Hex

def hexDigit (digit : Nat) : UInt8 := (textBytes "0123456789abcdef").getD digit 0x3f

def hexValue (c : UInt8) : Option Nat :=
  if 0x30 ≤ c ∧ c ≤ 0x39 then some (c.toNat - 0x30)
  else if 0x41 ≤ c ∧ c ≤ 0x46 then some (c.toNat - 0x41 + 10)
  else if 0x61 ≤ c ∧ c ≤ 0x66 then some (c.toNat - 0x61 + 10)
  else none

-- `f'{value:#066x}'`
def uint256ToHex (value : Nat) : Text := textBytes "0x" ++ (numeral 16 64 value).map hexDigit

-- The digits of `int(_, 16)`, with single underscores between them. `digit` tells that the
-- last character was one.
def hexDigits : Text → Bool → Nat → Option Nat
  | [], digit, value => if digit then some value else none
  | c :: text, digit, value =>
    if c = 0x5f then if digit then hexDigits text false value else none
    else
      match hexValue c with
      | none => none
      | some next => hexDigits text true (value * 16 + next)

def isSpace (c : UInt8) : Bool := (0x09 ≤ c ∧ c ≤ 0x0d) ∨ c = 0x20

def strip (text : Text) : Text :=
  ((text.dropWhile isSpace).reverse.dropWhile isSpace).reverse

-- After the sign, a prefix, behind which there may be an underscore.
def hexMagnitude : Text → Option Nat
  | 0x30 :: 0x78 :: 0x5f :: text => hexDigits text false 0
  | 0x30 :: 0x58 :: 0x5f :: text => hexDigits text false 0
  | 0x30 :: 0x78 :: text => hexDigits text false 0
  | 0x30 :: 0x58 :: text => hexDigits text false 0
  | text => hexDigits text false 0

-- `int(text, 16)` for a text of ASCII characters.
def int16 (text : Text) : Option Int :=
  match strip text with
  | 0x2b :: rest => (hexMagnitude rest).map fun value => (value : Int)
  | 0x2d :: rest => (hexMagnitude rest).map fun value => -(value : Int)
  | rest => (hexMagnitude rest).map fun value => (value : Int)

end Hex

-- An attribute that is an `int` or a `str`.
inductive Value where
  | number (value : Nat)
  | text (value : Text)
  deriving DecidableEq

namespace Value

variable (blake2b : List UInt8 → BitVec 40)

-- The number that `write_uint256` writes for it, where it raises nothing.
def uint256 : Value → Option Uint256
  | .number value => if value ≥ 2 ^ 256 then none else some (BitVec.ofNat 256 value)
  | .text value =>
    if value.take 4 = textBytes "rai_" then Account.decode blake2b value
    else
      match int16 value with
      | none => none
      | some value => if value < 0 ∨ value ≥ 2 ^ 256 then none else some (BitVec.ofInt 256 value)

end Value

namespace Serializer

variable (blake2b : List UInt8 → BitVec 40)

-- A reader that returns `None` fails.
abbrev ReadM := Reader UInt8 Unit

def readUint (width : Nat) : ReadM Nat := do
  let b ← Reader.take () width
  return fromBigEndian b

def readBool : ReadM Bool := do
  let u8 ← readUint 1
  if u8 > 1 then throw () else return u8 = 1

def readUint256 : ReadM Uint256 := do
  let value ← readUint 32
  return BitVec.ofNat 256 value

def readBytes : ReadM (List UInt8) := do
  let length ← readUint 2
  Reader.take () length

-- A writer that raises an exception returns `none`.
def writeUint (width value : Nat) : Option (List UInt8) :=
  if value ≥ 256 ^ width then none else some (bigEndian width value)

def writeBool (b : Bool) : Option (List UInt8) := writeUint 1 (if b then 1 else 0)

def writeUint256 (value : Value) : Option (List UInt8) :=
  (value.uint256 blake2b).map fun u => bigEndian 32 u.toNat

def writeBytes (value : List UInt8) : Option (List UInt8) := do
  let length ← writeUint 2 value.length
  return length ++ value

end Serializer

end Raicoin.Validator
