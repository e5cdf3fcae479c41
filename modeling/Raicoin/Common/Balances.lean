import Raicoin.Common.Numbers
import Mathlib.Data.List.DropRight

-- The texts of amounts: decimal numbers, and balances in a larger unit.
namespace Raicoin

-- `MaxFracLen`: how many digits a unit leaves behind the point.
def maxFracLen (scale : Nat) : Nat :=
  if scale = RAI then 9
  else if scale = mRAI then 6
  else if scale = uRAI then 3
  else 0

-- `uint128_union::DecodeDec`. The stream stops at what is no digit, before its end, and a checked
-- number throws when it overflows.
def decodeDec (text : List Char) : Option Amount :=
  let size := text.length
  if text = [] ∨ size > 39 ∨ (size > 1 ∧ text.head? = some '0') ∨ text.head? = some '-' then none
  else if text.any fun c => !c.isDigit then none
  else
    let number := Nat.ofDigitChars 10 text 0
    if number < 2 ^ 128 then some (BitVec.ofNat 128 number) else none

-- The loop of `EncodeBalance`. There are as many rounds as a unit has digits.
def fracDigits (scale : Nat) : (rounds fracPart : Nat) → List Char
  | 0, _ => []
  | rounds + 1, fracPart =>
    if fracPart = 0 then []
    else Nat.digitChar (fracPart * 10 / scale) :: fracDigits scale rounds (fracPart * 10 % scale)

def encodeBalance (scale : Nat) (amount : Amount) : List Char :=
  if scale ≠ RAI ∧ scale ≠ mRAI ∧ scale ≠ uRAI then []
  else
    let intPart := amount.toNat / scale
    let fracPart := amount.toNat % scale
    if fracPart > 0 then
      Nat.toDigits 10 intPart ++ '.' :: fracDigits scale (maxFracLen scale) fracPart
    else Nat.toDigits 10 intPart

-- The zeros at the end of a fraction, and then the point itself.
def trimFraction (str : List Char) : List Char :=
  if '.' ∈ str then (str.rdropWhile (· = '0')).rdropWhile (· = '.') else str

def fracLen (str : List Char) : Nat :=
  if '.' ∈ str then str.length - str.idxOf '.' - 1 else 0

-- `str.find_first_not_of("0123456789.")` finds something.
def hasOther (str : List Char) : Bool := str.any fun c => !(c.isDigit || c = '.')

def decodeBalance (scale : Nat) (balance : List Char) : Option Amount :=
  let max := maxFracLen scale
  if max = 0 then none
  else if balance = [] ∨ balance.length > 40 then none
  else if hasOther balance then none
  else if balance.count '.' > 1 ∨ balance.head? = some '.' ∨ balance.getLast? = some '.' then none
  else
    let check := trimFraction balance
    if fracLen check > max then none
    else
      let str := check.erase '.' ++ List.replicate (max - fracLen check) '0'
      match decodeDec (str.dropWhile (· = '0')) with
      | none => none
      | some amount => if check ≠ encodeBalance scale amount then none else some amount

end Raicoin
