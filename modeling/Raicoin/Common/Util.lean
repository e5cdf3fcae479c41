import Raicoin.Common.Stream

-- The helpers of `util.hpp`: bools and strings in a stream, and the check of UTF-8.
namespace Raicoin

open Lib

-- `std::string`: bytes, whatever they encode.
abbrev Text := List UInt8

-- What a lead byte announces: the units of the character and the bits that it carries.
def utf8Lead (byte : UInt8) : Option (Nat × Nat) :=
  if byte &&& 0x80 = 0x00 then some (1, (byte &&& 0x7f).toNat)
  else if byte &&& 0xe0 = 0xc0 then some (2, (byte &&& 0x1f).toNat)
  else if byte &&& 0xf0 = 0xe0 then some (3, (byte &&& 0x0f).toNat)
  else if byte &&& 0xf8 = 0xf0 then some (4, (byte &&& 0x07).toNat)
  else none

-- Not a code point, or one that has a shorter encoding.
def utf8Malformed (units codePoint : Nat) : Bool :=
  codePoint > 0x10ffff || (codePoint ≥ 0xd800 && codePoint ≤ 0xdfff) ||
    (codePoint ≤ 0x7f && units ≠ 1) ||
    (codePoint ≥ 0x80 && codePoint ≤ 0x7ff && units ≠ 2) ||
    (codePoint ≥ 0x800 && codePoint ≤ 0xffff && units ≠ 3) ||
    (codePoint ≥ 0x10000 && units ≠ 4)

def utf8Control (codePoint : Nat) : Bool :=
  codePoint < 0x20 || (codePoint ≥ 0x7f && codePoint ≤ 0x9f)

-- The two loops of `CheckUtf8`: `left` units of the character are still to come.
def utf8Loop : List UInt8 → Nat → Nat → Nat → Bool → Option Bool
  | [], 0, _, _, ctrl => some ctrl
  | [], _ + 1, _, _, _ => none
  | byte :: bytes, 0, _, _, ctrl =>
    match utf8Lead byte with
    | none => none
    | some (units, codePoint) =>
      if units = 1 then
        if utf8Malformed units codePoint then none
        else utf8Loop bytes 0 0 0 (ctrl || utf8Control codePoint)
      else utf8Loop bytes (units - 1) units codePoint ctrl
  | byte :: bytes, left + 1, units, codePoint, ctrl =>
    if byte &&& 0xc0 ≠ 0x80 then none
    else
      let codePoint := codePoint <<< 6 ||| (byte &&& 0x3f).toNat
      if left ≠ 0 then utf8Loop bytes left units codePoint ctrl
      else if utf8Malformed units codePoint then none
      else utf8Loop bytes 0 0 0 (ctrl || utf8Control codePoint)

@[simp] theorem utf8Loop_nil (units codePoint : Nat) (ctrl : Bool) :
    utf8Loop [] 0 units codePoint ctrl = some ctrl := by
  rw [utf8Loop]

-- `none` is an error; else whether there is a control character.
def checkUtf8 (bytes : List UInt8) : Option Bool := utf8Loop bytes 0 0 0 false

-- `rai::Read(stream, bool)`.
def readBool : StreamM Bool := do
  let value : UInt8 ← streamRead
  if value = 0 then return false
  else if value = 1 then return true
  else throw .STREAM

def writeBool (value : Bool) : List UInt8 := streamWrite (if value then 1 else 0 : UInt8)

-- The longest front of at most `count` bytes that is UTF-8.
def utf8Front (str : Text) : Nat → Text
  | 0 => []
  | count + 1 =>
    if (checkUtf8 (str.take (count + 1))).isSome then str.take (count + 1)
    else utf8Front str count

def MAX_STRING_SIZE : Nat := 255

-- `rai::Write(stream, str)`: a string of more than 255 bytes is cut.
def writeString (str : Text) : List UInt8 :=
  let str := if str.length > MAX_STRING_SIZE then utf8Front str MAX_STRING_SIZE else str
  streamWrite (UInt8.ofNat str.length) ++ str

def readString : StreamM Text := do
  let size : UInt8 ← streamRead
  streamReadBytes size.toNat

section Inverts

theorem readBool_inverts : Inverts readBool writeBool fun _ => True := by
  unfold readBool
  refine .congr ?_ (fun value _ => (List.append_nil _).symm) fun value => Iff.rfl
  refine .bind (fun value : Bool => (if value then 1 else 0 : UInt8)) streamRead_inverts
    (fun _ _ => trivial) fun byte _ => ?_
  by_cases hzero : byte = 0
  · subst hzero
    exact .done ⟨trivial, rfl⟩ fun value hvalue => by cases value <;> simp_all
  · by_cases hone : byte = 1
    · subst hone
      exact .done ⟨trivial, rfl⟩ fun value hvalue => by cases value <;> simp_all
    · rw [if_neg hzero, if_neg hone]
      refine .fail fun value hvalue => ?_
      cases value
      · exact hzero hvalue.2.symm
      · exact hone hvalue.2.symm

theorem writeString_eq {str : Text} (h : str.length ≤ MAX_STRING_SIZE) :
    writeString str = streamWrite (UInt8.ofNat str.length) ++ str := by
  rw [writeString, if_neg (Nat.not_lt.mpr h)]

theorem readString_inverts :
    Inverts readString writeString fun str => str.length ≤ MAX_STRING_SIZE := by
  have hplain : Inverts readString
      (fun str : Text => streamWrite (UInt8.ofNat str.length) ++ str)
      fun str => str.length ≤ MAX_STRING_SIZE := by
    refine .bind (fun str : Text => UInt8.ofNat str.length) streamRead_inverts
      (fun _ _ => trivial) fun size _ => ?_
    refine (streamReadBytes_inverts size.toNat).congr (fun str _ => rfl) fun str => ?_
    unfold MAX_STRING_SIZE
    constructor
    · rintro ⟨hle, rfl⟩
      exact (UInt8.toNat_ofNat_of_lt' (by simp [UInt8.size]; omega)).symm
    · intro hlength
      have hlt := size.toNat_lt
      exact ⟨by omega, by rw [hlength, UInt8.ofNat_toNat]⟩
  exact hplain.congr (fun str hstr => writeString_eq hstr) fun str => Iff.rfl

end Inverts

end Raicoin
