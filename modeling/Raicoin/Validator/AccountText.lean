import Mathlib.Data.Nat.Digits.Lemmas
import Raicoin.Validator.Serializer

-- The class `Account` of the bridge program, with the exceptions that it could raise.
-- The texts are given by their characters, which are those of a single-byte encoding.
namespace Raicoin.Validator

open Lib

inductive Raised where
  | indexError
  | valueError
  deriving DecidableEq, Repr

-- What `encode` is called with.
inductive Key where
  | text (b : Text)
  | bytes (b : List UInt8)
  deriving DecidableEq

-- Indexing counts from the end where the index is negative.
def charAt (text : Text) (index : Int) : Except Raised UInt8 :=
  let index := if index < 0 then index + text.length else index
  if index < 0 then .error .indexError
  else
    match text[index.toNat]? with
    | none => .error .indexError
    | some c => .ok c

-- `bytes.fromhex`, which skips the white space between bytes.
def fromHex : Text → Except Raised (List UInt8)
  | [] => .ok []
  | [c] => if 0x20 = c ∨ (0x09 ≤ c ∧ c ≤ 0x0d) then .ok [] else .error .valueError
  | c :: d :: text =>
    if 0x20 = c ∨ (0x09 ≤ c ∧ c ≤ 0x0d) then fromHex (d :: text)
    else
      match hexValue c, hexValue d with
      | some top, some bottom => (fromHex text).map (UInt8.ofNat (top * 16 + bottom) :: ·)
      | _, _ => .error .valueError

-- `"{0:064X}".format(number)`
def formatHex (number : Nat) : Text :=
  (numeral 16 (max 64 (Nat.digits 16 number).length) number).map fun digit =>
    (textBytes "0123456789ABCDEF").getD digit 0x3f

namespace ACCOUNT

variable (blake2b : List UInt8 → BitVec 40)

-- `ctx.digest()` and `int.from_bytes(_, byteorder='little')`.
def digest (data : List UInt8) : List UInt8 := (bigEndian 5 (blake2b data).toNat).reverse

def fromLittleEndian (bytes : List UInt8) : Nat := fromBigEndian bytes.reverse

def charEncode (c : Nat) : UInt8 :=
  if c ≥ accountLookup.length then 0x7e else accountLookup.getD c 0x7e

-- No character of the table is below `0`.
def charDecode (d : UInt8) : Except Raised Nat :=
  if d ∉ accountLookup then .ok 0xff
  else (charAt accountReverse (d.toNat - 0x30)).map fun c => c.toNat - 0x30

-- The loop of `decode`; `none` stands for an error that it returns.
def decodeNumber : Text → Nat → Except Raised (Option Nat)
  | [], number => .ok (some number)
  | d :: text, number =>
    match charDecode d with
    | .error raised => .error raised
    | .ok b => if 0xff = b then .ok none else decodeNumber text (number <<< 5 + b)

-- From the number on.
def decodeChecked (a : Text) (number : Nat) : Except Raised (Option (Text × Option Text)) :=
  let check := number &&& 0xffffffffff
  let hexStr := formatHex (number >>> 40)
  match fromHex hexStr with
  | .error raised => .error raised
  | .ok bytes =>
    let validation := fromLittleEndian (digest blake2b bytes)
    if check ≠ validation then .ok none
    else if a.length = 64 then .ok (some (hexStr, none))
    else .ok (some (hexStr, some (a.drop 65)))

def decode (a : Text) : Except Raised (Option (Text × Option Text)) :=
  if a.length < 64 ∨ a.take 4 ≠ textBytes "rai_" then .ok none
  else if 0x20 ∈ a ∨ 0x0d ∈ a ∨ 0x0a ∈ a ∨ 0x09 ∈ a then .ok none
  else if a.length = 65 ∨ (a.length > 65 ∧ a[64]? ≠ some 0x5f) then .ok none
  else if a[4]? ≠ some 0x31 ∧ a[4]? ≠ some 0x33 then .ok none
  else
    match decodeNumber ((a.take 64).drop 4) 0 with
    | .error raised => .error raised
    | .ok none => .ok none
    | .ok (some number) => decodeChecked blake2b a number

-- The loop of `encode`; the last digit comes first.
def encodeLoop : Nat → Nat → Option Text
  | 0, _ => some []
  | count + 1, number =>
    let e := charEncode (number % 32)
    if e = 0x7e then none else (encodeLoop count (number / 32)).map (e :: ·)

def keyBytes : Key → Option (List UInt8)
  | .bytes b => some b
  | .text b =>
    match fromHex (if b.take 2 = textBytes "0x" then b.drop 2 else b) with
    | .error _ => none
    | .ok b => some b

def encode (b : Key) : Option Text := do
  let b ← keyBytes b
  if b.length ≠ 32 then none
  else
    let check := fromLittleEndian (digest blake2b b)
    let raw := fromBigEndian b
    let a ← encodeLoop 60 (raw * 2 ^ 40 + check)
    return (a ++ textBytes "_iar").reverse

end ACCOUNT

end Raicoin.Validator
