import Raicoin.Common.Numbers
import Raicoin.Lib.Numerals
import Raicoin.Lib.Process

-- The text of an account: `rai_` and 60 digits of base 32, which carry the key
-- and 40 bits of its hash.
namespace Raicoin

open Lib

-- The bytes of a text in a single-byte encoding.
def textBytes (text : String) : List UInt8 := text.toList.map fun c => UInt8.ofNat c.toNat

def accountLookup : List UInt8 := textBytes "13456789abcdefghijkmnopqrstuwxyz"

def accountReverse : List UInt8 := textBytes
  "~0~1234567~~~~~~~~~~~~~~~~~~~~~~~~~~~~~~~~~~~~~~~89:;<=>?@AB~CDEFGHIJK~LMNO~~~~~"

def accountCharEncode (value : Nat) : UInt8 := accountLookup.getD value 0x7e

-- `strchr(str, c) != NULL`. The NUL that ends the string counts as one of its characters.
def strchr (str : List UInt8) (c : UInt8) : Bool := c ∈ str || c = 0

-- How a decoding fails: it returns an error, or it indexes `account_reverse` outside
-- of its bounds and what follows is undefined.
inductive DecodeFault where
  | error
  | outOfBounds
  deriving DecidableEq, Repr

def accountCharDecode (value : UInt8) : Except DecodeFault UInt8 :=
  if strchr accountLookup value = false then .ok 0xff
  else
    let index : Int := value.toNat - 0x30
    if index < 0 then .error .outOfBounds
    else
      match accountReverse[index.toNat]? with
      | none => .error .outOfBounds
      | some c => .ok (c - 0x30)

-- BLAKE2b with 5 bytes of output, read as a little-endian number.
variable (blake2b : List UInt8 → BitVec 40)

-- The loop of `EncodeAccount`; it meets the last digit first.
def encodeDigits : Nat → Nat → List UInt8
  | 0, _ => []
  | count + 1, number => accountCharEncode (number &&& 0x1f) :: encodeDigits count (number >>> 5)

def encodeAccount (u : Uint256) : List UInt8 :=
  let check := (blake2b (bigEndian 32 u.toNat)).toNat
  (encodeDigits 60 (u.toNat <<< 40 ||| check) ++ textBytes "_iar").reverse

-- The loop of `DecodeAccount`.
def decodeDigits : List UInt8 → Nat → Except DecodeFault Nat
  | [], number => .ok number
  | c :: text, number => do
    let byte ← accountCharDecode c
    returnIf (byte = 0xff) .error
    decodeDigits text (number <<< 5 + byte.toNat)

def decodeAccount (text : List UInt8) : Except DecodeFault Uint256 := do
  returnIf (text.length ≠ 64 ∨ text.take 4 ≠ textBytes "rai_") .error
  let digits := text.drop 4
  returnIf (digits.head? ≠ some 0x31 ∧ digits.head? ≠ some 0x33) .error
  let number ← decodeDigits digits 0
  let check := number &&& 0xffffffffff
  let u := BitVec.ofNat 256 (number >>> 40)
  returnIf (check ≠ (blake2b (bigEndian 32 u.toNat)).toNat) .error
  return u

-- The digits and the characters that stand for them.
section Digits

theorem accountCharDecode_encode {digit : Nat} (h : digit < 32) :
    accountCharDecode (accountCharEncode digit) = .ok (UInt8.ofNat digit) := by
  have hall : ∀ digit < 32, accountCharDecode (accountCharEncode digit) =
      .ok (UInt8.ofNat digit) := by decide
  exact hall digit h

theorem mem_accountLookup {c : UInt8} (h : c ∈ accountLookup) :
    ∃ digit < 32, c = accountCharEncode digit := by
  obtain ⟨digit, hdigit, hc⟩ := List.mem_iff_getElem.mp h
  exact ⟨digit, hdigit, by simp [accountCharEncode, hdigit, hc]⟩

theorem accountCharDecode_nul : accountCharDecode 0 = .error .outOfBounds := by decide

theorem accountCharDecode_other {c : UInt8} (hdigit : c ∉ accountLookup) (hnul : c ≠ 0) :
    accountCharDecode c = .ok 0xff := by
  simp [accountCharDecode, strchr, hdigit, hnul]

theorem encodeDigits_eq (count number : Nat) :
    encodeDigits count number = ((numeral 32 count number).map accountCharEncode).reverse := by
  induction count generalizing number with
  | zero => rfl
  | succ count ih =>
      have hlow : number &&& 0x1f = number % 32 := Nat.and_two_pow_sub_one_eq_mod number 5
      have hrest : number >>> 5 = number / 32 := Nat.shiftRight_eq_div_pow number 5
      rw [encodeDigits, ih, numeral_succ, hlow, hrest, List.map_append, List.reverse_append]
      rfl

-- The loop takes in digits until it meets something else.
theorem decodeDigits_append (digits : List Nat) (rest : List UInt8) (number : Nat)
    (h : ∀ digit ∈ digits, digit < 32) :
    decodeDigits (digits.map accountCharEncode ++ rest) number =
      decodeDigits rest (numeralValue 32 number digits) := by
  induction digits generalizing number with
  | nil => rfl
  | cons digit digits ih =>
      have hdigit := h digit List.mem_cons_self
      have hbyte : UInt8.ofNat digit ≠ 0xff ∧ (UInt8.ofNat digit).toNat = digit := by
        have hall : ∀ digit < 32, UInt8.ofNat digit ≠ 0xff ∧ (UInt8.ofNat digit).toNat = digit := by
          decide
        exact hall digit hdigit
      have hshift : number <<< 5 = number * 32 := Nat.shiftLeft_eq number 5
      rw [List.map_cons, List.cons_append, decodeDigits, accountCharDecode_encode hdigit]
      change (returnIf (UInt8.ofNat digit = 0xff) DecodeFault.error >>= _) = _
      rw [returnIf_pass hbyte.1, hbyte.2, hshift, ih _ fun d hd => h d (List.mem_cons_of_mem _ hd)]
      rfl

theorem decodeDigits_stop {c : UInt8} (h : c ∉ accountLookup) (rest : List UInt8) (number : Nat) :
    decodeDigits (c :: rest) number = .error (if c = 0 then .outOfBounds else .error) := by
  by_cases hnul : c = 0
  · rw [if_pos hnul, decodeDigits, hnul, accountCharDecode_nul]
    rfl
  · rw [if_neg hnul, decodeDigits, accountCharDecode_other h hnul]
    rfl

-- A text is digits all through, or it has digits up to some other character.
theorem digits_or_stop (text : List UInt8) :
    (∃ digits : List Nat, (∀ digit ∈ digits, digit < 32) ∧
      text = digits.map accountCharEncode) ∨
    ∃ (digits : List Nat) (c : UInt8) (rest : List UInt8), (∀ digit ∈ digits, digit < 32) ∧
      c ∉ accountLookup ∧ text = digits.map accountCharEncode ++ c :: rest := by
  induction text with
  | nil => exact .inl ⟨[], by simp, rfl⟩
  | cons c text ih =>
      by_cases hc : c ∈ accountLookup
      · obtain ⟨digit, hdigit, rfl⟩ := mem_accountLookup hc
        rcases ih with ⟨digits, hdigits, rfl⟩ | ⟨digits, d, rest, hdigits, hd, rfl⟩
        · exact .inl ⟨digit :: digits, List.forall_mem_cons.mpr ⟨hdigit, hdigits⟩, rfl⟩
        · exact .inr ⟨digit :: digits, d, rest, List.forall_mem_cons.mpr ⟨hdigit, hdigits⟩, hd, rfl⟩
      · exact .inr ⟨[], c, text, by simp, hc, rfl⟩

end Digits

section Codec

variable {blake2b}

-- The number that the digits of an address spell.
def addressNumber (blake2b : List UInt8 → BitVec 40) (u : Uint256) : Nat :=
  u.toNat * 2 ^ 40 + (blake2b (bigEndian 32 u.toNat)).toNat

variable (blake2b) in
theorem addressNumber_lt (u : Uint256) : addressNumber blake2b u < 2 * 32 ^ 59 := by
  have hu := u.isLt
  have hcheck := (blake2b (bigEndian 32 u.toNat)).isLt
  unfold addressNumber
  omega

theorem encodeAccount_eq (u : Uint256) : encodeAccount blake2b u =
    textBytes "rai_" ++ (numeral 32 60 (addressNumber blake2b u)).map accountCharEncode := by
  have hcheck := (blake2b (bigEndian 32 u.toNat)).isLt
  have hnumber : u.toNat <<< 40 ||| (blake2b (bigEndian 32 u.toNat)).toNat =
      addressNumber blake2b u := by
    rw [← Nat.shiftLeft_add_eq_or_of_lt hcheck, Nat.shiftLeft_eq, addressNumber]
  have hprefix : (textBytes "_iar").reverse = textBytes "rai_" := by decide
  rw [encodeAccount, hnumber, List.reverse_append, encodeDigits_eq, List.reverse_reverse, hprefix]

-- The test of the first digit is a bound on the number.
theorem firstDigit_iff {digits : List Nat} (hlength : digits.length = 60)
    (h : ∀ digit ∈ digits, digit < 32) :
    (digits.map accountCharEncode).head? ≠ some 0x31 ∧
      (digits.map accountCharEncode).head? ≠ some 0x33 ↔
    2 * 32 ^ 59 ≤ numeralValue 32 0 digits := by
  cases digits with
  | nil => cases hlength
  | cons digit digits =>
      obtain ⟨hdigit, hdigits⟩ := List.forall_mem_cons.mp h
      have hrest := numeralValue_lt hdigits
      have hlen : digits.length = 59 := by simpa using hlength
      have hfirst : ∀ digit < 32, (accountCharEncode digit ≠ 0x31 ∧ accountCharEncode digit ≠ 0x33 ↔
          2 ≤ digit) := by decide
      simp only [List.map_cons, List.head?_cons, ne_eq, Option.some.injEq]
      rw [numeralValue_cons, hlen, hfirst digit hdigit]
      rw [hlen] at hrest
      omega

-- What decoding makes of digits.
variable (blake2b) in
theorem decodeAccount_digits {digits : List Nat} (hlength : digits.length = 60)
    (h : ∀ digit ∈ digits, digit < 32) :
    decodeAccount blake2b (textBytes "rai_" ++ digits.map accountCharEncode) =
      let number := numeralValue 32 0 digits
      let u := BitVec.ofNat 256 (number / 2 ^ 40)
      if 2 * 32 ^ 59 ≤ number ∨ number % 2 ^ 40 ≠ (blake2b (bigEndian 32 u.toNat)).toNat then
        .error .error
      else .ok u := by
  have hprefix : (textBytes "rai_").length = 4 := by decide
  have htext : ¬((textBytes "rai_" ++ digits.map accountCharEncode).length ≠ 64 ∨
      (textBytes "rai_" ++ digits.map accountCharEncode).take 4 ≠ textBytes "rai_") := by
    rw [← hprefix, List.take_left, List.length_append, List.length_map, hlength, hprefix]
    decide
  have hdrop : (textBytes "rai_" ++ digits.map accountCharEncode).drop 4 =
      digits.map accountCharEncode := by
    rw [← hprefix, List.drop_left]
  have hloop : decodeDigits (digits.map accountCharEncode) 0 = .ok (numeralValue 32 0 digits) := by
    have happend := decodeDigits_append digits [] 0 h
    rwa [List.append_nil] at happend
  have hlow : numeralValue 32 0 digits &&& 0xffffffffff = numeralValue 32 0 digits % 2 ^ 40 :=
    Nat.and_two_pow_sub_one_eq_mod _ 40
  have hhigh : numeralValue 32 0 digits >>> 40 = numeralValue 32 0 digits / 2 ^ 40 :=
    Nat.shiftRight_eq_div_pow _ 40
  rw [decodeAccount, returnIf_pass htext, hdrop]
  dsimp only
  by_cases hhead : 2 * 32 ^ 59 ≤ numeralValue 32 0 digits
  · rw [returnIf_stop ((firstDigit_iff hlength h).mpr hhead), if_pos (.inl hhead)]
  · rw [returnIf_pass fun hne => hhead ((firstDigit_iff hlength h).mp hne), hloop]
    change (returnIf (_ ≠ _) DecodeFault.error >>= _) = _
    rw [hlow, hhigh]
    by_cases hcheck : numeralValue 32 0 digits % 2 ^ 40 = (blake2b (bigEndian 32
        (BitVec.ofNat 256 (numeralValue 32 0 digits / 2 ^ 40)).toNat)).toNat
    · rw [returnIf_pass (not_not_intro hcheck), if_neg (by tauto)]
      rfl
    · rw [returnIf_stop hcheck, if_pos (.inr hcheck)]

theorem decodeAccount_encodeAccount (u : Uint256) :
    decodeAccount blake2b (encodeAccount blake2b u) = .ok u := by
  have hlt := addressNumber_lt blake2b u
  have hcheck := (blake2b (bigEndian 32 u.toNat)).isLt
  have hvalue : numeralValue 32 0 (numeral 32 60 (addressNumber blake2b u)) =
      addressNumber blake2b u := by
    rw [numeralValue_numeral]
    exact Nat.mod_eq_of_lt (by omega)
  have hkey : addressNumber blake2b u / 2 ^ 40 = u.toNat := by
    unfold addressNumber
    omega
  have hrest : addressNumber blake2b u % 2 ^ 40 = (blake2b (bigEndian 32 u.toNat)).toNat := by
    unfold addressNumber
    omega
  rw [encodeAccount_eq, decodeAccount_digits blake2b (numeral_length _ _)
    fun _ hdigit => numeral_lt (by decide) hdigit]
  simp only [hvalue, hkey, hrest, BitVec.ofNat_toNat, BitVec.setWidth_eq, ne_eq,
    not_true_eq_false, or_false]
  rw [if_neg (by omega)]

-- The tests that a text passes before the loop.
def FitForDigits (text : List UInt8) : Prop :=
  text.length = 64 ∧ text.take 4 = textBytes "rai_" ∧
    ((text.drop 4).head? = some 0x31 ∨ (text.drop 4).head? = some 0x33)

-- The first character behind `rai_` that is no digit is NUL, and the loop gets there.
def MeetsNul (text : List UInt8) : Prop :=
  FitForDigits text ∧ (text.drop 4).find? (· ∉ accountLookup) = some 0

theorem decodeAccount_unfit {text : List UInt8} (h : ¬FitForDigits text) :
    decodeAccount blake2b text = .error .error := by
  unfold FitForDigits at h
  by_cases hshape : text.length ≠ 64 ∨ text.take 4 ≠ textBytes "rai_"
  · rw [decodeAccount, returnIf_stop hshape]
  · rw [decodeAccount, returnIf_pass hshape]
    dsimp only
    rw [returnIf_stop (by tauto)]

variable (blake2b) in
theorem decodeAccount_stop {text : List UInt8} (h : FitForDigits text) {c : UInt8}
    {digits : List Nat} {rest : List UInt8} (hdigits : ∀ digit ∈ digits, digit < 32)
    (hc : c ∉ accountLookup) (htext : text.drop 4 = digits.map accountCharEncode ++ c :: rest) :
    decodeAccount blake2b text = .error (if c = 0 then .outOfBounds else .error) := by
  obtain ⟨hlength, hprefix, hhead⟩ := h
  rw [decodeAccount, returnIf_pass (by tauto)]
  dsimp only
  rw [returnIf_pass (by tauto), htext, decodeDigits_append _ _ _ hdigits, decodeDigits_stop hc]
  rfl

-- What a decoding can come to, by what stands behind `rai_`.
variable (blake2b) in
theorem decodeAccount_cases (text : List UInt8) :
    decodeAccount blake2b text = .error .error ∧ ¬MeetsNul text ∨
    decodeAccount blake2b text = .error .outOfBounds ∧ MeetsNul text ∨
    ∃ u, decodeAccount blake2b text = .ok u ∧ text = encodeAccount blake2b u ∧ ¬MeetsNul text := by
  have hall : ∀ digit < 32, accountCharEncode digit ∈ accountLookup := by decide
  have hnone {digits : List Nat} (hdigits : ∀ digit ∈ digits, digit < 32) :
      (digits.map accountCharEncode).find? (· ∉ accountLookup) = none := by
    rw [List.find?_eq_none]
    intro c hc
    obtain ⟨digit, hdigit, rfl⟩ := List.mem_map.mp hc
    simp [hall digit (hdigits digit hdigit)]
  by_cases hfit : FitForDigits text
  · rcases digits_or_stop (text.drop 4) with ⟨digits, hdigits, htext⟩ |
      ⟨digits, c, rest, hdigits, hc, htext⟩
    · have hmeets : ¬MeetsNul text := by
        rintro ⟨-, hnul⟩
        rw [htext, hnone hdigits] at hnul
        cases hnul
      have hlength : digits.length = 60 := by
        have hlen := congrArg List.length htext
        rw [List.length_drop, hfit.1, List.length_map] at hlen
        omega
      have hsplit : text = textBytes "rai_" ++ digits.map accountCharEncode := by
        rw [← htext, ← hfit.2.1, List.take_append_drop]
      have hdecode := decodeAccount_digits blake2b hlength hdigits
      rw [← hsplit] at hdecode
      dsimp only at hdecode
      split at hdecode
      · exact .inl ⟨hdecode, hmeets⟩
      · rename_i hgood
        refine .inr (.inr ⟨_, hdecode, ?_, hmeets⟩)
        -- the digits spell the number that the encoder writes for the key
        have hkey : (BitVec.ofNat 256 (numeralValue 32 0 digits / 2 ^ 40)).toNat =
            numeralValue 32 0 digits / 2 ^ 40 := by
          rw [BitVec.toNat_ofNat]
          exact Nat.mod_eq_of_lt (by omega)
        have hnumber : addressNumber blake2b (BitVec.ofNat 256 (numeralValue 32 0 digits / 2 ^ 40)) =
            numeralValue 32 0 digits := by
          rw [addressNumber, hkey]
          rw [hkey] at hgood
          omega
        rw [encodeAccount_eq, hnumber, ← hlength, numeral_numeralValue hdigits]
        exact hsplit
    · have hfind : (text.drop 4).find? (· ∉ accountLookup) = some c := by
        rw [htext, List.find?_append, hnone hdigits]
        simp [hc]
      have hdecode := decodeAccount_stop blake2b hfit hdigits hc htext
      by_cases hnul : c = 0
      · rw [if_pos hnul] at hdecode
        exact .inr (.inl ⟨hdecode, hfit, hnul ▸ hfind⟩)
      · rw [if_neg hnul] at hdecode
        exact .inl ⟨hdecode, fun hmeets => hnul (Option.some.inj (hfind.symm.trans hmeets.2))⟩
  · exact .inl ⟨decodeAccount_unfit hfit, fun hmeets => hfit hmeets.1⟩

-- Decoding a text stays inside the table, and takes no text but the one that encoding
-- gives for its result.
def DecodesExactly (blake2b : List UInt8 → BitVec 40) (text : List UInt8) : Prop :=
  decodeAccount blake2b text ≠ .error .outOfBounds ∧
    ∀ u, decodeAccount blake2b text = .ok u → text = encodeAccount blake2b u

theorem decodesExactly_iff (text : List UInt8) :
    DecodesExactly blake2b text ↔ ¬MeetsNul text := by
  unfold DecodesExactly
  rcases decodeAccount_cases blake2b text with ⟨hdecode, hmeets⟩ |
    ⟨hdecode, hmeets⟩ | ⟨u, hdecode, htext, hmeets⟩
  · simp [hdecode, hmeets]
  · simp [hdecode, hmeets]
  · simp only [hdecode, ne_eq, reduceCtorEq, not_false_eq_true, Except.ok.injEq, forall_eq',
      hmeets, true_and, iff_true]
    exact htext

end Codec

-- `EncodeAccount` is undone by `DecodeAccount`, which is exact on every text but those
-- on which it meets a NUL.
theorem account_codec (blake2b : List UInt8 → BitVec 40) :
    (∀ u, decodeAccount blake2b (encodeAccount blake2b u) = .ok u) ∧
      ∀ text, DecodesExactly blake2b text ↔ ¬MeetsNul text :=
  ⟨decodeAccount_encodeAccount, decodesExactly_iff⟩

-- `strchr` finds the NUL, and the table is read 48 bytes before its start.
theorem nul_out_of_bounds :
    ¬DecodesExactly (fun _ => 0) (textBytes "rai_1" ++ List.replicate 59 0) := by
  intro h
  exact h.1 (by decide)

end Raicoin
