import Raicoin.Validator.AccountText

-- The account texts of the bridge program are those of the node.
namespace Raicoin.Validator

open Lib

section Hex

theorem hexValue_not_space {c : UInt8} {value : Nat} (h : hexValue c = some value) :
    ¬(0x20 = c ∨ (0x09 ≤ c ∧ c ≤ 0x0d)) := by
  rintro (rfl | ⟨hlow, hhigh⟩)
  · rw [show hexValue 0x20 = none by decide] at h
    nomatch h
  · have hlow' := UInt8.le_iff_toNat_le.mp hlow
    have hhigh' := UInt8.le_iff_toNat_le.mp hhigh
    unfold hexValue at h
    simp only [UInt8.le_iff_toNat_le, UInt8.reduceToNat] at h hlow' hhigh'
    split_ifs at h <;> omega

-- A text of hexadecimal digits is read two digits a byte.
theorem fromHex_numeral (width number : Nat) (text : Text)
    (h : text.map hexValue = (numeral 16 (2 * width) number).map some) :
    fromHex text = .ok (bigEndian width number) := by
  induction width generalizing text with
  | zero =>
      obtain rfl : text = [] := by simpa [numeral] using h
      rfl
  | succ width ih =>
      rw [show 2 * (width + 1) = 2 * width + 1 + 1 by omega, numeral, numeral] at h
      simp only [List.map_cons] at h
      obtain ⟨c, rest, rfl, hc, hrest⟩ := List.map_eq_cons_iff.mp h
      obtain ⟨d, text, rfl, hd, htext⟩ := List.map_eq_cons_iff.mp hrest
      have hpow : 16 ^ (2 * width) = 256 ^ width := by
        rw [Nat.pow_mul]
      have hbyte : UInt8.ofNat (number / 16 ^ (2 * width + 1) % 16 * 16 +
          number / 16 ^ (2 * width) % 16) = UInt8.ofNat (number / 256 ^ width) := by
        apply UInt8.toNat_inj.mp
        rw [Nat.pow_succ, ← Nat.div_div_eq_div_mul, hpow, UInt8.toNat_ofNat', UInt8.toNat_ofNat']
        omega
      rw [fromHex, if_neg (hexValue_not_space hc), hc, hd, ih text htext]
      dsimp only
      rw [hbyte, bigEndian, Except.map]

theorem formatHex_eq {number : Nat} (h : number < 2 ^ 256) :
    formatHex number = (numeral 16 64 number).map fun digit =>
      (textBytes "0123456789ABCDEF").getD digit 0x3f := by
  have hlength : (Nat.digits 16 number).length ≤ 64 :=
    (Nat.digits_length_le_iff (by omega) number).mpr (by omega)
  rw [formatHex, max_eq_left hlength]

theorem fromHex_formatHex {number : Nat} (h : number < 2 ^ 256) :
    fromHex (formatHex number) = .ok (bigEndian 32 number) := by
  have hdigit : ∀ digit < 16,
      hexValue ((textBytes "0123456789ABCDEF").getD digit 0x3f) = some digit := by decide
  apply fromHex_numeral
  rw [formatHex_eq h, List.map_map]
  apply List.map_congr_left
  intro digit hmem
  exact hdigit digit (numeral_lt (by omega) hmem)

end Hex

namespace ACCOUNT

variable {blake2b : List UInt8 → BitVec 40}

theorem digest_value (data : List UInt8) :
    fromLittleEndian (digest blake2b data) = (blake2b data).toNat := by
  rw [fromLittleEndian, digest, List.reverse_reverse]
  exact fromBigEndian_bigEndian 5 (by have := (blake2b data).isLt; omega)

section Encode

theorem charEncode_eq {digit : Nat} (h : digit < 32) :
    charEncode digit = accountCharEncode digit ∧ charEncode digit ≠ 0x7e := by
  have hall : ∀ digit < 32, charEncode digit = accountCharEncode digit ∧
      charEncode digit ≠ 0x7e := by decide
  exact hall digit h

-- The loop is the one of `EncodeAccount`.
theorem encodeLoop_eq (count number : Nat) :
    encodeLoop count number = some (encodeDigits count number) := by
  induction count generalizing number with
  | zero => rfl
  | succ count ih =>
      have hlow : number &&& 0x1f = number % 32 := Nat.and_two_pow_sub_one_eq_mod number 5
      have hrest : number >>> 5 = number / 32 := Nat.shiftRight_eq_div_pow number 5
      obtain ⟨hchar, hne⟩ := charEncode_eq (Nat.mod_lt number (by omega : 32 > 0))
      rw [encodeLoop, encodeDigits, hlow, hrest, if_neg hne, hchar, ih]
      rfl

theorem encode_of_bytes {key : Key} {u : Uint256}
    (h : keyBytes key = some (bigEndian 32 u.toNat)) :
    encode blake2b key = some (encodeAccount blake2b u) := by
  have hcheck := (blake2b (bigEndian 32 u.toNat)).isLt
  have hnumber : u.toNat <<< 40 ||| (blake2b (bigEndian 32 u.toNat)).toNat =
      u.toNat * 2 ^ 40 + (blake2b (bigEndian 32 u.toNat)).toNat := by
    rw [← Nat.shiftLeft_add_eq_or_of_lt hcheck, Nat.shiftLeft_eq]
  have hraw : fromBigEndian (bigEndian 32 u.toNat) = u.toNat :=
    fromBigEndian_bigEndian 32 (by have := u.isLt; omega)
  have hlength := bigEndian_length 32 u.toNat
  have hdigits : encodeAccount blake2b u = (encodeDigits 60 (u.toNat * 2 ^ 40 +
      (blake2b (bigEndian 32 u.toNat)).toNat) ++ textBytes "_iar").reverse := by
    rw [encodeAccount, hnumber]
  rw [hdigits, encode, h, Option.bind_eq_bind, Option.bind_some, if_neg (not_not_intro hlength)]
  dsimp only
  rw [hraw, digest_value, encodeLoop_eq]
  rfl

-- A hexadecimal text of a key, in small or capital letters.
def HexText (u : Uint256) (text : Text) : Prop :=
  text.map hexValue = (numeral 16 64 u.toNat).map some

theorem HexText.no_prefix {u : Uint256} {text : Text} (h : HexText u text) :
    text.take 2 ≠ textBytes "0x" := by
  intro hfront
  have hmem : 0x78 ∈ text := List.mem_of_mem_take (i := 2) (by rw [hfront]; decide)
  have hvalue : hexValue 0x78 ∈ text.map hexValue := List.mem_map_of_mem hmem
  rw [h] at hvalue
  obtain ⟨digit, -, hdigit⟩ := List.mem_map.mp hvalue
  exact absurd hdigit.symm (by simp [show hexValue 0x78 = none by decide])

theorem keyBytes_hex {u : Uint256} {text : Text} (h : HexText u text) :
    keyBytes (.text text) = some (bigEndian 32 u.toNat) ∧
      keyBytes (.text (textBytes "0x" ++ text)) = some (bigEndian 32 u.toNat) := by
  have hfront : (textBytes "0x").length = 2 := by decide
  constructor
  · rw [keyBytes, if_neg h.no_prefix, fromHex_numeral 32 _ _ h]
  · rw [keyBytes, List.take_left' hfront, if_pos rfl, List.drop_left' hfront,
      fromHex_numeral 32 _ _ h]

end Encode

section Decode

theorem charDecode_digit {digit : Nat} (h : digit < 32) :
    charDecode (accountCharEncode digit) = .ok digit := by
  have hall : ∀ digit < 32, charDecode (accountCharEncode digit) = .ok digit := by decide
  exact hall digit h

theorem decodeNumber_append (digits : List Nat) (rest : Text) (number : Nat)
    (h : ∀ digit ∈ digits, digit < 32) :
    decodeNumber (digits.map accountCharEncode ++ rest) number =
      decodeNumber rest (numeralValue 32 number digits) := by
  induction digits generalizing number with
  | nil => rfl
  | cons digit digits ih =>
      have hdigit := h digit List.mem_cons_self
      have hshift : number <<< 5 = number * 32 := Nat.shiftLeft_eq number 5
      rw [List.map_cons, List.cons_append, decodeNumber, charDecode_digit hdigit]
      dsimp only
      rw [if_neg (by omega), hshift, ih _ fun d hd => h d (List.mem_cons_of_mem _ hd)]
      rfl

theorem decodeNumber_stop {c : UInt8} (h : c ∉ accountLookup) (rest : Text) (number : Nat) :
    decodeNumber (c :: rest) number = .ok none := by
  rw [decodeNumber, charDecode, if_pos h]
  rfl

-- The shape that `decode` asks of a text: no blank, tab or line break, and behind the
-- account either nothing or an alias after `_`.
structure Shaped (t : Text) : Prop where
  clean : ¬(0x20 ∈ t ∨ 0x0d ∈ t ∨ 0x0a ∈ t ∨ 0x09 ∈ t)
  length : t.length = 64 ∨ (66 ≤ t.length ∧ t[64]? = some 0x5f)

-- What is left of the text behind `_`.
def aliasOf (t : Text) : Option Text := if t.length = 64 then none else some (t.drop 65)

variable {t : Text}

theorem decode_unshaped (h : ¬Shaped t) : decode blake2b t = .ok none := by
  unfold decode
  by_cases hstart : t.length < 64 ∨ t.take 4 ≠ textBytes "rai_"
  · rw [if_pos hstart]
  by_cases hclean : 0x20 ∈ t ∨ 0x0d ∈ t ∨ 0x0a ∈ t ∨ 0x09 ∈ t
  · rw [if_neg hstart, if_pos hclean]
  rw [if_neg hstart, if_neg hclean, if_pos]
  by_contra hlength
  refine h ⟨hclean, ?_⟩
  by_cases h64 : t.length = 64
  · exact .inl h64
  · refine .inr ⟨by omega, ?_⟩
    by_contra hmark
    exact hlength (.inr ⟨by omega, hmark⟩)

-- Of a text of that shape the first 64 characters decide.
private theorem decode_start (h : Shaped t) :
    (t.take 64).length = 64 ∧ (t.take 64).take 4 = t.take 4 ∧
      ((t.take 64).drop 4).head? = t[4]? ∧
      ¬(t.length = 65 ∨ (t.length > 65 ∧ t[64]? ≠ some 0x5f)) := by
  obtain ⟨-, hlength⟩ := h
  have hlong : 64 ≤ t.length := by omega
  refine ⟨List.length_take_of_le hlong, ?_, ?_, ?_⟩
  · rw [List.take_take, min_eq_left (by omega)]
  · rw [List.head?_drop, List.getElem?_take_of_lt (by omega)]
  · rintro (h65 | ⟨hgt, hne⟩)
    · omega
    · rcases hlength with h64 | ⟨-, heq⟩
      · omega
      · exact hne heq

theorem decode_fit (h : Shaped t) (hfit : FitForDigits (t.take 64)) :
    decode blake2b t =
      match decodeNumber ((t.take 64).drop 4) 0 with
      | .error raised => .error raised
      | .ok none => .ok none
      | .ok (some number) => decodeChecked blake2b t number := by
  obtain ⟨hcut, hfront, hfirst, hmark⟩ := decode_start h
  obtain ⟨-, hstart, hdigit⟩ := hfit
  rw [hfront] at hstart
  rw [hfirst] at hdigit
  have hlong : 64 ≤ t.length := hcut ▸ List.length_take_le' 64 t
  unfold decode
  rewrite [if_neg (by simp [hstart, hlong]), if_neg h.clean, if_neg hmark, if_neg (by tauto)]
  rfl

theorem decode_unfit (h : Shaped t) (hfit : ¬FitForDigits (t.take 64)) :
    decode blake2b t = .ok none := by
  obtain ⟨hcut, hfront, hfirst, hmark⟩ := decode_start h
  unfold FitForDigits at hfit
  rw [hcut, hfront, hfirst] at hfit
  unfold decode
  by_cases hstart : t.length < 64 ∨ t.take 4 ≠ textBytes "rai_"
  · rw [if_pos hstart]
  · rw [if_neg hstart, if_neg h.clean, if_neg hmark, if_pos (by tauto)]

-- What the digits of a number below 2^296 come to.
theorem decodeChecked_eq {number : Nat} (h : number < 2 * 32 ^ 59) :
    decodeChecked blake2b t number =
      if number % 2 ^ 40 ≠ (blake2b (bigEndian 32 (number / 2 ^ 40))).toNat then .ok none
      else .ok (some (formatHex (number / 2 ^ 40), aliasOf t)) := by
  have hlow : number &&& 0xffffffffff = number % 2 ^ 40 := Nat.and_two_pow_sub_one_eq_mod _ 40
  have hhigh : number >>> 40 = number / 2 ^ 40 := Nat.shiftRight_eq_div_pow _ 40
  have hread : fromHex (formatHex (number / 2 ^ 40)) = .ok (bigEndian 32 (number / 2 ^ 40)) :=
    fromHex_formatHex (by omega)
  unfold decodeChecked aliasOf
  rw [hlow, hhigh]
  dsimp only
  rw [hread]
  dsimp only
  rw [digest_value]
  split_ifs <;> rfl

-- The result that the bridge makes of the one of the node.
def shown (t : Text) (result : Except DecodeFault Uint256) : Option (Text × Option Text) :=
  match result with
  | .error _ => none
  | .ok u => some (formatHex u.toNat, aliasOf t)

theorem decode_eq (h : Shaped t) :
    decode blake2b t = .ok (shown t (decodeAccount blake2b (t.take 64))) := by
  by_cases hfit : FitForDigits (t.take 64)
  · rw [decode_fit h hfit]
    rcases digits_or_stop ((t.take 64).drop 4) with ⟨digits, hdigits, htext⟩ |
      ⟨digits, c, rest, hdigits, hc, htext⟩
    · have hlength : digits.length = 60 := by
        have hlen := congrArg List.length htext
        rw [List.length_drop, hfit.1, List.length_map] at hlen
        omega
      have hnumber : decodeNumber (digits.map accountCharEncode) 0 =
          .ok (some (numeralValue 32 0 digits)) := by
        have happend := decodeNumber_append digits [] 0 hdigits
        rwa [List.append_nil] at happend
      have hbound : numeralValue 32 0 digits < 2 * 32 ^ 59 := by
        by_contra hlarge
        have hhead := (firstDigit_iff hlength hdigits).mpr (by omega)
        rw [← htext] at hhead
        exact hhead.2 (hfit.2.2.resolve_left hhead.1)
      have hkey : (BitVec.ofNat 256 (numeralValue 32 0 digits / 2 ^ 40)).toNat =
          numeralValue 32 0 digits / 2 ^ 40 := by
        rw [BitVec.toNat_ofNat]
        exact Nat.mod_eq_of_lt (by omega)
      have hsplit : t.take 64 = textBytes "rai_" ++ digits.map accountCharEncode := by
        rw [← htext, ← hfit.2.1, List.take_append_drop]
      rw [htext, hnumber, hsplit, decodeAccount_digits blake2b hlength hdigits]
      dsimp only
      rw [decodeChecked_eq hbound, hkey]
      by_cases hcheck : numeralValue 32 0 digits % 2 ^ 40 =
          (blake2b (bigEndian 32 (numeralValue 32 0 digits / 2 ^ 40))).toNat
      · rw [if_neg (not_not_intro hcheck), if_neg (by omega), shown, hkey]
      · rw [if_pos hcheck, if_pos (.inr hcheck), shown]
    · rw [decodeAccount_stop blake2b hfit hdigits hc htext, htext, decodeNumber_append _ _ _ hdigits,
        decodeNumber_stop hc, shown]
  · rw [decode_unfit h hfit, decodeAccount_unfit hfit, shown]

end Decode

end ACCOUNT

open ACCOUNT in
-- The bridge writes the account texts of the node, and reads those and no others,
-- with an alias behind them or without.
theorem account_texts (blake2b : List UInt8 → BitVec 40) :
    (∀ u : Uint256,
      encode blake2b (.bytes (bigEndian 32 u.toNat)) = some (encodeAccount blake2b u) ∧
      ∀ text, HexText u text →
        encode blake2b (.text text) = some (encodeAccount blake2b u) ∧
        encode blake2b (.text (textBytes "0x" ++ text)) = some (encodeAccount blake2b u)) ∧
    ∀ t : Text, (∃ result, decode blake2b t = .ok result) ∧
      ∀ hex name, decode blake2b t = .ok (some (hex, name)) ↔
        Shaped t ∧ ∃ u, decodeAccount blake2b (t.take 64) = .ok u ∧
          hex = formatHex u.toNat ∧ name = aliasOf t := by
  refine ⟨fun u => ⟨encode_of_bytes rfl, fun text htext => ?_⟩, fun t => ?_⟩
  · obtain ⟨hplain, hfront⟩ := keyBytes_hex htext
    exact ⟨encode_of_bytes hplain, encode_of_bytes hfront⟩
  · by_cases hshaped : Shaped t
    · rw [decode_eq hshaped]
      refine ⟨⟨_, rfl⟩, fun hex name => ?_⟩
      cases hdecode : decodeAccount blake2b (t.take 64) with
      | error fault => simp [shown]
      | ok u => simp [shown, hshaped, eq_comm]
    · rw [decode_unshaped hshaped]
      exact ⟨⟨_, rfl⟩, fun hex name => by simp [hshaped]⟩

end Raicoin.Validator
