import Raicoin.Lib.Conversion
import Raicoin.Validator.Messages

-- What the texts of the bridge program stand for, and what its readers take.
namespace Raicoin.Validator

open Lib

namespace Account

variable {blake2b : List UInt8 → BitVec 40}

private theorem charDecode_encode {digit : Nat} (h : digit < 32) :
    charDecode (accountCharEncode digit) = UInt8.ofNat digit ∧
      UInt8.ofNat digit ≠ 0xff ∧ (UInt8.ofNat digit).toNat = digit := by
  have hall : ∀ digit < 32, charDecode (accountCharEncode digit) = UInt8.ofNat digit ∧
      UInt8.ofNat digit ≠ 0xff ∧ (UInt8.ofNat digit).toNat = digit := by decide +kernel
  exact hall digit h

theorem decodeDigits_map (digits : List Nat) (number : Nat) (h : ∀ digit ∈ digits, digit < 32) :
    decodeDigits (digits.map accountCharEncode) number = some (numeralValue 32 number digits) := by
  induction digits generalizing number with
  | nil => rfl
  | cons digit digits ih =>
      obtain ⟨hdecode, hne, hnat⟩ := charDecode_encode (h digit List.mem_cons_self)
      have hshift : number <<< 5 = number * 32 := Nat.shiftLeft_eq number 5
      rw [List.map_cons, decodeDigits, hdecode, if_neg hne, hnat, hshift,
        ih _ fun d hd => h d (List.mem_cons_of_mem _ hd)]
      rfl

-- The characters of an account are none that `decode` refuses.
private theorem encode_characters {digits : List Nat} (h : ∀ digit ∈ digits, digit < 32) {c : UInt8}
    (hc : c ∈ textBytes "rai_" ++ digits.map accountCharEncode) :
    c ≠ 0x20 ∧ c ≠ 0x0d ∧ c ≠ 0x0a ∧ c ≠ 0x09 := by
  have hprefix : ∀ c ∈ textBytes "rai_", c ≠ 0x20 ∧ c ≠ 0x0d ∧ c ≠ 0x0a ∧ c ≠ 0x09 := by
    rw [show textBytes "rai_" = [0x72, 0x61, 0x69, 0x5f] from rfl]
    simp
  have hdigit : ∀ digit < 32, accountCharEncode digit ≠ 0x20 ∧ accountCharEncode digit ≠ 0x0d ∧
      accountCharEncode digit ≠ 0x0a ∧ accountCharEncode digit ≠ 0x09 := by decide
  rcases List.mem_append.mp hc with hc | hc
  · exact hprefix c hc
  · obtain ⟨digit, hmem, rfl⟩ := List.mem_map.mp hc
    exact hdigit digit (h digit hmem)

theorem encode_prefix (u : Uint256) : (encode blake2b u).take 4 = textBytes "rai_" := by
  rw [encode, encodeAccount_eq]
  exact List.take_left' (by decide)

theorem decode_encode (u : Uint256) : decode blake2b (encode blake2b u) = some u := by
  have hlt := addressNumber_lt blake2b u
  have hcheck := (blake2b (bigEndian 32 u.toNat)).isLt
  have hdigits : ∀ digit ∈ numeral 32 60 (addressNumber blake2b u), digit < 32 :=
    fun digit hdigit => numeral_lt (by decide) hdigit
  have hlength : (encode blake2b u).length = 64 := by
    rw [encode, encodeAccount_eq, List.length_append, List.length_map, numeral_length]
    decide
  have hspace : ¬(0x20 ∈ encode blake2b u ∨ 0x0d ∈ encode blake2b u ∨ 0x0a ∈ encode blake2b u ∨
      0x09 ∈ encode blake2b u) := by
    rw [encode, encodeAccount_eq]
    rintro (h | h | h | h)
    · exact (encode_characters hdigits h).1 rfl
    · exact (encode_characters hdigits h).2.1 rfl
    · exact (encode_characters hdigits h).2.2.1 rfl
    · exact (encode_characters hdigits h).2.2.2 rfl
  -- the first digit is 0 or 1
  have hfirst : ¬((encode blake2b u)[4]? ≠ some 0x31 ∧ (encode blake2b u)[4]? ≠ some 0x33) := by
    have hsmall : addressNumber blake2b u / 32 ^ 59 % 32 < 2 := by omega
    have hall : ∀ digit < 2, accountCharEncode digit = 0x31 ∨ accountCharEncode digit = 0x33 := by
      decide
    have hget : (encode blake2b u)[4]? =
        some (accountCharEncode (addressNumber blake2b u / 32 ^ 59 % 32)) := by
      have hprefix : (textBytes "rai_").length = 4 := by decide
      rw [encode, encodeAccount_eq, List.getElem?_append_right (Nat.le_of_eq hprefix), hprefix,
        numeral, List.map_cons, Nat.sub_self, List.getElem?_cons_zero]
    rw [hget]
    rcases hall _ hsmall with h | h
    · rw [h]
      exact fun hne => hne.1 rfl
    · rw [h]
      exact fun hne => hne.2 rfl
  have hnumber : decodeDigits (((encode blake2b u).drop 4).take 60) 0 =
      some (addressNumber blake2b u) := by
    have hdrop : (encode blake2b u).drop 4 =
        (numeral 32 60 (addressNumber blake2b u)).map accountCharEncode := by
      rw [encode, encodeAccount_eq]
      exact List.drop_left' (by decide)
    rw [hdrop, List.take_of_length_le (by rw [List.length_map, numeral_length]),
      decodeDigits_map _ _ hdigits, numeralValue_numeral, Nat.mod_eq_of_lt (by omega)]
  have hkey : BitVec.ofNat 256 (addressNumber blake2b u >>> 40) = u := by
    have hdiv : addressNumber blake2b u >>> 40 = u.toNat := by
      rw [Nat.shiftRight_eq_div_pow, addressNumber]
      omega
    rw [hdiv, BitVec.ofNat_toNat, BitVec.setWidth_eq]
  have hrest : addressNumber blake2b u &&& 0xffffffffff =
      (blake2b (bigEndian 32 u.toNat)).toNat := by
    rw [show (0xffffffffff : Nat) = 2 ^ 40 - 1 from rfl, Nat.and_two_pow_sub_one_eq_mod,
      addressNumber]
    omega
  rw [decode, hlength, encode_prefix, if_neg (by simp), if_neg hspace, if_neg (by omega),
    if_neg hfirst, hnumber]
  rw [Option.bind_eq_bind, Option.bind_some, hkey, hrest, if_neg (not_not_intro rfl)]

end Account

section Hex

theorem hexDigits_map (digits : List Nat) (value : Nat) (digit : Bool)
    (h : ∀ digit ∈ digits, digit < 16) (hne : digits ≠ [] ∨ digit = true) :
    hexDigits (digits.map hexDigit) digit value = some (numeralValue 16 value digits) := by
  induction digits generalizing value digit with
  | nil =>
      obtain hdigit := hne.resolve_left (fun hne => hne rfl)
      rw [hdigit]
      rfl
  | cons first digits ih =>
      have hall : ∀ digit < 16, hexDigit digit ≠ 0x5f ∧ hexValue (hexDigit digit) = some digit := by
        decide
      obtain ⟨hunder, hvalue⟩ := hall first (h first List.mem_cons_self)
      rw [List.map_cons, hexDigits, if_neg hunder, hvalue]
      exact ih _ true (fun d hd => h d (List.mem_cons_of_mem _ hd)) (.inr rfl)

theorem int16_unsigned {text rest : Text} {first : UInt8} (h : strip text = first :: rest)
    (hplus : first ≠ 0x2b) (hminus : first ≠ 0x2d) :
    int16 text = (hexMagnitude (first :: rest)).map fun value => (value : Int) := by
  rw [int16, h]
  split
  · rename_i heq
    cases heq
    exact absurd rfl hplus
  · rename_i heq
    cases heq
    exact absurd rfl hminus
  · rfl

theorem int16_uint256ToHex {value : Nat} (h : value < 2 ^ 256) :
    int16 (uint256ToHex value) = some (value : Int) := by
  have hdigits : ∀ digit ∈ numeral 16 64 value, digit < 16 := fun digit hdigit =>
    numeral_lt (by decide) hdigit
  have hdigit : ∀ digit < 16, isSpace (hexDigit digit) = false ∧ hexDigit digit ≠ 0x5f := by decide
  obtain ⟨front, last, hsplit⟩ : ∃ front last, numeral 16 64 value = front ++ [last] :=
    ⟨_, _, numeral_succ 63 value⟩
  have hlast : last < 16 := hdigits last (by simp [hsplit])
  have hstrip : strip (uint256ToHex value) = uint256ToHex value := by
    have hfront : (uint256ToHex value).dropWhile isSpace = uint256ToHex value := rfl
    have hback : (uint256ToHex value).reverse.dropWhile isSpace = (uint256ToHex value).reverse := by
      rw [uint256ToHex, hsplit, List.map_append, List.map_singleton, ← List.append_assoc,
        List.reverse_append, List.reverse_singleton, List.singleton_append,
        List.dropWhile_cons_of_neg (by simp [(hdigit last hlast).1])]
    rw [strip, hfront, hback, List.reverse_reverse]
  have hmagnitude : hexMagnitude (uint256ToHex value) = some value := by
    have hfirst : (numeral 16 64 value).map hexDigit =
        hexDigit (value / 16 ^ 63 % 16) :: (numeral 16 63 value).map hexDigit := rfl
    have hunder := (hdigit (value / 16 ^ 63 % 16) (Nat.mod_lt _ (by decide))).2
    have hall := hexDigits_map (numeral 16 64 value) 0 false hdigits (.inl (by simp [numeral]))
    rw [numeralValue_numeral, Nat.mod_eq_of_lt (by omega)] at hall
    change hexMagnitude (0x30 :: 0x78 :: (numeral 16 64 value).map hexDigit) = _
    rw [← hall, hfirst]
    unfold hexMagnitude
    split
    · simp_all
    · simp_all
    · simp_all
    · simp_all
    · simp_all
  have hzero : strip (uint256ToHex value) = 0x30 :: 0x78 :: (numeral 16 64 value).map hexDigit :=
    hstrip
  rw [int16_unsigned hzero (by decide) (by decide)]
  change (hexMagnitude (uint256ToHex value)).map (fun value => (value : Int)) = _
  rw [hmagnitude]
  rfl

end Hex

-- The forms in which an address is read: as a number, its text, or the text of an account.
namespace Value

variable {blake2b : List UInt8 → BitVec 40}

def Number (v : Value) : Prop := ∃ u : Uint256, v = .number u.toNat

def Hex (v : Value) : Prop := ∃ u : Uint256, v = .text (uint256ToHex u.toNat)

variable (blake2b) in
def Account (v : Value) : Prop := ∃ u : Uint256, v = .text (Account.encode blake2b u)

variable (blake2b) in
-- The bytes of a value that can be written.
def plain (v : Value) : List UInt8 := bigEndian 32 ((v.uint256 blake2b).getD 0).toNat

theorem uint256_number (u : Uint256) : (number u.toNat).uint256 blake2b = some u := by
  rw [uint256, if_neg (by have := u.isLt; omega), BitVec.ofNat_toNat, BitVec.setWidth_eq]

theorem uint256_hex (u : Uint256) : (text (uint256ToHex u.toNat)).uint256 blake2b = some u := by
  have hlt := u.isLt
  have hprefix : (uint256ToHex u.toNat).take 4 ≠ textBytes "rai_" := by
    intro heq
    have hhead : some (0x30 : UInt8) = some 0x72 := congrArg List.head? heq
    exact absurd hhead (by decide)
  rw [uint256, if_neg hprefix, int16_uint256ToHex hlt]
  dsimp only
  rw [if_neg (by omega), BitVec.ofInt_natCast, BitVec.ofNat_toNat, BitVec.setWidth_eq]

theorem uint256_account (u : Uint256) :
    (text (Account.encode blake2b u)).uint256 blake2b = some u := by
  rw [uint256, if_pos (Account.encode_prefix u), Account.decode_encode]

theorem plain_eq {v : Value} {u : Uint256} (h : v.uint256 blake2b = some u) :
    v.plain blake2b = bigEndian 32 u.toNat := by
  rw [plain, h]
  rfl

end Value

section Readers

open Serializer

variable {blake2b : List UInt8 → BitVec 40}

theorem readUint_inverts (width : Nat) :
    Inverts (readUint width) (bigEndian width) fun value => value < 256 ^ width := by
  refine (Inverts.take () width).inject (fun value => ?_) fun bytes hlength => ?_
  · constructor
    · intro hlt
      exact ⟨bigEndian width value, bigEndian_length _ _, fromBigEndian_bigEndian width hlt⟩
    · rintro ⟨bytes, hlength, rfl⟩
      rw [← hlength]
      exact fromBigEndian_lt bytes
  · rw [← hlength, bigEndian_fromBigEndian]
    rfl

theorem readBool_inverts : Inverts Serializer.readBool (fun b => bigEndian 1 (if b then 1 else 0))
    fun _ => True := by
  refine .congr ?_ (fun b _ => (List.append_nil _).symm) fun b => Iff.rfl
  refine .bind (fun b : Bool => if b then 1 else 0) (readUint_inverts 1) (fun b _ => ?_)
    fun u8 _ => ?_
  · cases b <;> decide
  · by_cases hlarge : u8 > 1
    · rw [if_pos hlarge]
      refine .fail fun b hb => ?_
      rw [← hb.2] at hlarge
      cases b
      · exact absurd hlarge (by decide)
      · exact absurd hlarge (by decide)
    · rw [if_neg hlarge]
      refine .done ⟨trivial, ?_⟩ fun b hb => ?_
      · by_cases hone : u8 = 1
        · simp [hone]
        · have hzero : u8 = 0 := by omega
          simp [hzero]
      · rw [← hb.2]
        cases b
        · rfl
        · rfl

theorem readUint256_inverts : Inverts readUint256 (fun u => bigEndian 32 u.toNat) fun _ => True := by
  refine (readUint_inverts 32).inject (fun u => ?_) fun value hlt => ?_
  · refine ⟨fun _ => ⟨u.toNat, ?_, ?_⟩, fun _ => trivial⟩
    · have hlt := u.isLt
      omega
    · rw [BitVec.ofNat_toNat, BitVec.setWidth_eq]
  · rw [BitVec.toNat_ofNat, Nat.mod_eq_of_lt (by omega)]

theorem readHex_inverts : Inverts readHex (Value.plain blake2b) Value.Hex := by
  refine readUint256_inverts.inject (fun v => ?_) fun u _ => Value.plain_eq (Value.uint256_hex u)
  constructor
  · rintro ⟨u, rfl⟩
    exact ⟨u, trivial, rfl⟩
  · rintro ⟨u, -, rfl⟩
    exact ⟨u, rfl⟩

theorem readAccount_inverts :
    Inverts (readAccount blake2b) (Value.plain blake2b) (Value.Account blake2b) := by
  refine readUint256_inverts.inject (fun v => ?_) fun u _ => Value.plain_eq (Value.uint256_account u)
  constructor
  · rintro ⟨u, rfl⟩
    exact ⟨u, trivial, rfl⟩
  · rintro ⟨u, -, rfl⟩
    exact ⟨u, rfl⟩

theorem readOpcode_inverts : Inverts readOpcode (fun opcode => bigEndian 1 opcode.number)
    fun _ => True := by
  have hto (opcode : CrossChainOpcode) :
      CrossChainOpcode.ofNumber opcode.number = some opcode := by
    cases opcode <;> rfl
  have hfrom {number : Nat} {opcode : CrossChainOpcode}
      (h : CrossChainOpcode.ofNumber number = some opcode) : opcode.number = number := by
    unfold CrossChainOpcode.ofNumber at h
    split_ifs at h <;> cases h <;> simp_all [CrossChainOpcode.number]
  refine .congr ?_ (fun opcode _ => (List.append_nil _).symm) fun opcode => Iff.rfl
  refine .bind CrossChainOpcode.number (readUint_inverts 1) (fun opcode _ => ?_) fun number _ => ?_
  · cases opcode <;> decide
  · cases hopcode : CrossChainOpcode.ofNumber number with
    | none =>
        refine .fail fun opcode h => ?_
        rw [← h.2, hto] at hopcode
        cases hopcode
    | some opcode =>
        refine .done ⟨trivial, hfrom hopcode⟩ fun other h => ?_
        rw [← h.2, hto] at hopcode
        exact Option.some.inj hopcode

theorem readBytes_inverts : Inverts readBytes (fun s => bigEndian 2 s.length ++ s)
    fun s => s.length < 2 ^ 16 := by
  refine .bind List.length (readUint_inverts 2) (fun s hlt => hlt) fun length hlt => ?_
  refine (Inverts.take () length).congr (fun s _ => rfl) fun s => ?_
  constructor
  · rintro ⟨-, hlength⟩
    exact hlength
  · rintro rfl
    exact ⟨hlt, rfl⟩

theorem readType_inverts (type : CrossChainMessageType) :
    Inverts (readType type) (fun _ => bigEndian 1 type.number) fun _ => True := by
  refine .congr ?_ (fun _ _ => (List.append_nil _).symm) fun _ => Iff.rfl
  refine .bind (fun _ => type.number) (readUint_inverts 1) (fun _ _ => ?_) fun number _ => ?_
  · cases type <;> decide
  · rw [← bind_pure (Reader.failIf (number ≠ type.number) ())]
    exact .guard (fun _ h => not_not_intro h.2.symm) fun h =>
      .done ⟨trivial, (not_not.mp h).symm⟩ fun _ _ => rfl

theorem readSignature_inverts (isRequest : Bool) : Inverts (readSignature isRequest)
    (fun s => if isRequest = false then bigEndian 2 s.length ++ s else [])
    fun s => if isRequest = false then s.length < 2 ^ 16 else s = [] :=
  readBytes_inverts.when (isRequest = false) []

end Readers

end Raicoin.Validator
