import Raicoin.Common.BlockJson
import Raicoin.Node.BlockProcessor.Replay

-- The JSON of a block carries the block: it reads back, what is read is a block as peers accept
-- it, and a field that is missing is named.
namespace Raicoin

open Lib

section Texts

variable {number : Nat}

theorem decimal_chars (number : Nat) :
    (decimal number).map (fun c => Char.ofNat c.toNat) = Nat.toDigits 10 number := by
  rw [decimal, List.map_map]
  refine (List.map_congr_left fun c hc => ?_).trans (List.map_id _)
  have hdigit := Nat.isDigit_of_mem_toDigits (by decide) (by decide) hc
  have hle : c.toNat ≤ 57 := by
    have hrange := (Bool.and_eq_true_iff.mp hdigit).2
    exact (UInt32.le_iff_toNat_le).mp (of_decide_eq_true hrange)
  have hbyte : (UInt8.ofNat c.toNat).toNat = c.toNat := by
    rw [UInt8.toNat_ofNat']
    omega
  rw [Function.comp_apply, hbyte, Char.ofNat_toNat]
  rfl

theorem decimalValue_decimal (number : Nat) : decimalValue (decimal number) = number := by
  rw [decimalValue, decimal_chars, Nat.ofDigitChars_ten_toDigits]

theorem decimal_ne_nil (number : Nat) : decimal number ≠ [] := by
  rw [decimal, ne_eq, List.map_eq_nil_iff]
  exact Nat.toDigits_ne_nil

theorem decimal_digits (number : Nat) : ∀ c ∈ decimal number, 0x30 ≤ c ∧ c ≤ 0x39 := by
  intro c hc
  obtain ⟨d, hd, rfl⟩ := List.mem_map.mp hc
  have hdigit := Bool.and_eq_true_iff.mp (Nat.isDigit_of_mem_toDigits (by decide) (by decide) hd)
  have hge : 48 ≤ d.toNat := (UInt32.le_iff_toNat_le).mp (of_decide_eq_true hdigit.1)
  have hle : d.toNat ≤ 57 := (UInt32.le_iff_toNat_le).mp (of_decide_eq_true hdigit.2)
  rw [UInt8.le_iff_toNat_le, UInt8.le_iff_toNat_le, UInt8.toNat_ofNat']
  change 48 ≤ _ ∧ _ ≤ 57
  omega

-- A numeral of several digits does not begin with zero.
theorem decimal_head (number : Nat) :
    ¬((decimal number).length > 1 ∧ (decimal number).head? = some 0x30) := by
  have hhead (number : Nat) : 0 < number → (Nat.toDigits 10 number).head? ≠ some '0' := by
    induction number using Nat.strong_induction_on with
    | _ number ih =>
        intro hpos
        by_cases hsmall : number < 10
        · rw [Nat.toDigits_of_lt_base hsmall]
          have hall : ∀ digit < 10, 0 < digit → [Nat.digitChar digit].head? ≠ some '0' := by decide
          exact hall number hsmall hpos
        · rw [Nat.toDigits_of_base_le (by decide) (by omega), List.head?_append]
          have hquot := ih (number / 10) (by omega) (by omega)
          cases hfirst : (Nat.toDigits 10 (number / 10)).head? with
          | none => exact absurd (List.head?_eq_none_iff.mp hfirst) Nat.toDigits_ne_nil
          | some c => rwa [hfirst] at hquot
  rintro ⟨hlength, hzero⟩
  have hpos : 0 < number := by
    by_contra hnot
    obtain rfl : number = 0 := by omega
    exact absurd hlength (by decide)
  apply hhead number hpos
  rw [← decimal_chars, List.head?_map, hzero]
  rfl

theorem decimal_length (h : number < 2 ^ 128) : (decimal number).length ≤ 39 := by
  rw [decimal, List.length_map, Nat.length_toDigits_le_iff (by decide) (by decide)]
  omega

theorem stringToUint_decimal {max : Nat} (h : number ≤ max) (hmax : max < 2 ^ 64) :
    stringToUint max (decimal number) = some number := by
  have hdigits : ((decimal number).any fun c => !(0x30 ≤ c && c ≤ 0x39)) = false := by
    rw [List.any_eq_false]
    intro c hc
    obtain ⟨hge, hle⟩ := decimal_digits number c hc
    simp [hge, hle]
  rw [stringToUint, if_neg (decimal_ne_nil number), hdigits, if_neg Bool.false_ne_true,
    if_neg (decimal_head number)]
  dsimp only
  rw [decimalValue_decimal, if_neg (by omega), if_neg (not_not_intro rfl), if_neg (by omega)]

theorem hexCharValue_hexChar (upper : Bool) {digit : Nat} (h : digit < 16) :
    hexCharValue (hexChar upper digit) = some digit := by
  have hall : ∀ upper : Bool, ∀ digit < 16, hexCharValue (hexChar upper digit) = some digit := by
    decide
  exact hall upper digit h

theorem encodeHex_values (upper : Bool) (width number : Nat) :
    (encodeHex upper width number).map hexCharValue = (numeral 16 width number).map some := by
  rw [encodeHex, List.map_map]
  exact List.map_congr_left fun digit hdigit => hexCharValue_hexChar upper (numeral_lt (by decide) hdigit)

theorem encodeHex_length (upper : Bool) (width number : Nat) :
    (encodeHex upper width number).length = width := by
  rw [encodeHex, List.length_map, numeral_length]

theorem hexToBytes_bytesToHex (data : List UInt8) : hexToBytes (bytesToHex data) = some data := by
  have hhigh (byte : UInt8) : hexCharValue (hexChar true (byte.toNat / 16)) = some (byte.toNat / 16) :=
    hexCharValue_hexChar true (by have := byte.toNat_lt; omega)
  have hlow (byte : UInt8) : hexCharValue (hexChar true (byte.toNat % 16)) = some (byte.toNat % 16) :=
    hexCharValue_hexChar true (Nat.mod_lt _ (by decide))
  have hlength : (bytesToHex data).length % 2 = 0 := by
    induction data with
    | nil => rfl
    | cons byte data ih =>
        have hcons : (bytesToHex (byte :: data)).length = (bytesToHex data).length + 2 := rfl
        omega
  have hclean : ((bytesToHex data).any fun c => (hexCharValue c).isNone) = false := by
    rw [List.any_eq_false]
    intro c hc
    obtain ⟨byte, -, hmem⟩ := List.mem_flatMap.mp hc
    simp only [List.mem_cons, List.not_mem_nil, or_false] at hmem
    rcases hmem with rfl | rfl
    · simp [hhigh]
    · simp [hlow]
  have hpairs : hexPairs (bytesToHex data) = data := by
    clear hlength hclean
    induction data with
    | nil => rfl
    | cons byte data ih =>
        have hcons : bytesToHex (byte :: data) =
            hexChar true (byte.toNat / 16) :: hexChar true (byte.toNat % 16) :: bytesToHex data := rfl
        have hjoin : byte.toNat / 16 * 16 + byte.toNat % 16 = byte.toNat := by omega
        rw [hcons, hexPairs, ih, hhigh, hlow, Option.getD_some, Option.getD_some, hjoin,
          UInt8.ofNat_toNat]
  rw [hexToBytes, if_neg (not_not_intro hlength), hclean, if_neg Bool.false_ne_true, hpairs]

theorem stringToBlockOpcode_toString {opcode : BlockOpcode} (h : opcode ≠ .invalid) :
    stringToBlockOpcode (blockOpcodeToString opcode) = opcode := by
  cases opcode with
  | invalid => exact absurd rfl h
  | _ => rfl

end Texts

-- What a reader of fields comes to when `key` is the one that is missing: the code of the first
-- field that it looks for there.
def missingOr {α : Type} (key : String) (fields : List (String × ErrorCode))
    (result : Except JsonFault α) : Except JsonFault α :=
  match fields.lookup key with
  | some error => .error (.code error)
  | none => result

section Missing

variable {α β : Type} {key : String}

theorem missingOr_bind {fields rest : List (String × ErrorCode)} {value : α}
    {f : α → Except JsonFault β} {result : Except JsonFault β} {x : Except JsonFault α}
    (hx : x = missingOr key fields (.ok value)) (hf : f value = missingOr key rest result) :
    (x >>= f) = missingOr key (fields ++ rest) result := by
  subst hx
  unfold missingOr at hf ⊢
  rw [List.lookup_append]
  cases fields.lookup key with
  | some error => rfl
  | none => exact hf

theorem missingOr_last {fields : List (String × ErrorCode)} {value : α}
    {f : α → Except JsonFault β} {result : Except JsonFault β} {x : Except JsonFault α}
    (hx : x = missingOr key fields (.ok value)) (hf : f value = result) :
    (x >>= f) = missingOr key fields result := by
  have hbind := @missingOr_bind _ _ key _ [] _ _ _ _ hx hf
  rwa [List.append_nil] at hbind

theorem missingOr_map {fields : List (String × ErrorCode)} (f : α → β) (result : Except JsonFault α) :
    f <$> missingOr key fields result = missingOr key fields (f <$> result) := by
  unfold missingOr
  cases fields.lookup key with
  | some error => rfl
  | none => rfl

-- Looking for a field twice does not change which one is missed first.
theorem missingOr_again {field : String × ErrorCode} {rest : List (String × ErrorCode)}
    (result : Except JsonFault α) :
    missingOr key ([field] ++ field :: rest) result = missingOr key (field :: rest) result := by
  unfold missingOr
  rw [List.singleton_append, List.lookup_cons, List.lookup_cons]
  cases key == field.1 <;> rfl

theorem missingOr_one {name : String} {error : ErrorCode} (result : Except JsonFault α) :
    missingOr key [(name, error)] result = if name = key then .error (.code error) else result := by
  unfold missingOr
  rw [List.lookup_cons]
  by_cases hname : name = key
  · rw [if_pos hname, hname, beq_self_eq_true]
  · rw [if_neg hname, beq_false_of_ne (Ne.symm hname)]
    rfl

end Missing

-- The tree has the texts of the fields, but for the one that is missing.
def Spells (ptree : Ptree Text) (key : String) (fields : List (String × Text)) : Prop :=
  ∀ field ∈ fields, ptree.get field.1 = if field.1 = key then none else some field.2

section Reads

variable {json : JsonEnv} {ptree : Ptree Text} {key name : String} {error : ErrorCode}
  {fields : List (String × Text)}

theorem Spells.text (h : Spells ptree key fields) {text : Text} (hmem : (name, text) ∈ fields) :
    textField ptree name error = missingOr key [(name, error)] (.ok text) := by
  rw [textField, h _ hmem, missingOr_one]
  by_cases hname : name = key
  · rw [if_pos hname, if_pos hname]
    rfl
  · rw [if_neg hname, if_neg hname]
    rfl

-- A decoder that undoes what was written reads the field.
theorem Spells.decoded {α : Type} (h : Spells ptree key fields) {text : Text}
    (hmem : (name, text) ∈ fields) {decode : Text → Except JsonFault α} {value : α}
    (hdecode : decode text = .ok value) :
    (textField ptree name error >>= decode) = missingOr key [(name, error)] (.ok value) :=
  missingOr_last (h.text hmem) hdecode

theorem Spells.uint (h : Spells ptree key fields) {number max : Nat}
    (hmem : (name, decimal number) ∈ fields) (hle : number ≤ max) (hmax : max < 2 ^ 64) :
    uintField ptree name error max = missingOr key [(name, error)] (.ok number) := by
  refine h.decoded hmem ?_
  rw [stringToUint_decimal hle hmax]
  rfl

theorem Spells.account (h : Spells ptree key fields) (account : Account)
    (hmem : (name, encodeAccount json.checksum account) ∈ fields) :
    accountField json ptree name error = missingOr key [(name, error)] (.ok account) := by
  refine h.decoded hmem ?_
  rw [decodeAccount_encodeAccount]

theorem Spells.hex (h : Spells ptree key fields) {bits width : Nat} (upper : Bool)
    (number : BitVec bits) (hmem : (name, encodeHex upper width number.toNat) ∈ fields)
    (hpos : 0 < width) (hwidth : bits = 4 * width) :
    hexField json ptree name error bits width = missingOr key [(name, error)] (.ok number) := by
  refine h.decoded hmem ?_
  have hlt := number.isLt
  have hpow : 2 ^ bits = 16 ^ width := by rw [hwidth, Nat.pow_mul]
  have hread := json.streams.hex_numeral hpos (hpow ▸ hlt) hlt (encodeHex_values upper width _)
  rw [returnIf_pass (not_not_intro (encodeHex_length _ _ _)), hread, BitVec.ofNat_toNat,
    BitVec.setWidth_eq]
  rfl

theorem Spells.dec (h : Spells ptree key fields) (amount : Amount)
    (hmem : (name, decimal amount.toNat) ∈ fields) :
    decField json ptree name error = missingOr key [(name, error)] (.ok amount) := by
  refine h.decoded hmem ?_
  have hsign : (decimal amount.toNat).head? ≠ some 0x2d := by
    intro hhead
    have hdigit := decimal_digits _ _ (List.mem_of_head? hhead)
    exact absurd hdigit.1 (by decide)
  have hfits : ¬(decimal amount.toNat = [] ∨ (decimal amount.toNat).length > 39 ∨
      ((decimal amount.toNat).length > 1 ∧ (decimal amount.toNat).head? = some 0x30) ∨
      (decimal amount.toNat).head? = some 0x2d) := by
    have hlength := decimal_length amount.isLt
    rintro (hnil | hlong | hzero | hhead)
    · exact decimal_ne_nil _ hnil
    · omega
    · exact decimal_head _ hzero
    · exact hsign hhead
  rw [returnIf_pass hfits, json.streams.dec_numeral amount.isLt, BitVec.ofNat_toNat,
    BitVec.setWidth_eq]
  rfl

theorem Spells.link (h : Spells ptree key fields) (opcode : BlockOpcode) (link : Uint256)
    (hmem : ("link", linkText json opcode link) ∈ fields) :
    linkField json ptree opcode = missingOr key [("link", .JSON_BLOCK_LINK)] (.ok link) := by
  unfold linkField
  unfold linkText at hmem
  split
  · rw [if_pos ‹_›] at hmem
    exact h.account _ hmem
  · rw [if_neg ‹_›] at hmem
    exact h.hex _ _ hmem (by decide) (by decide)

end Reads

-- The fields that are looked for, in this order, and the codes that tell of them.
def headerKeys : List (String × ErrorCode) :=
  [("type", .JSON_BLOCK_TYPE), ("opcode", .JSON_BLOCK_OPCODE), ("credit", .JSON_BLOCK_CREDIT),
    ("counter", .JSON_BLOCK_COUNTER), ("timestamp", .JSON_BLOCK_TIMESTAMP),
    ("height", .JSON_BLOCK_HEIGHT), ("account", .JSON_BLOCK_ACCOUNT),
    ("previous", .JSON_BLOCK_PREVIOUS)]

def Block.jsonKeys : Block → List (String × ErrorCode)
  | .tx _ => headerKeys ++ [("representative", .JSON_BLOCK_REPRESENTATIVE),
      ("balance", .JSON_BLOCK_BALANCE), ("link", .JSON_BLOCK_LINK),
      ("signature", .JSON_BLOCK_SIGNATURE)]
  | .rep b => headerKeys ++ [("balance", .JSON_BLOCK_BALANCE), ("link", .JSON_BLOCK_LINK)] ++
      (if b.opcode = .bind then [("chain_id", .JSON_BLOCK_CHAIN_ID)] else []) ++
      [("signature", .JSON_BLOCK_SIGNATURE)]
  | .ad _ => headerKeys ++ [("representative", .JSON_BLOCK_REPRESENTATIVE),
      ("balance", .JSON_BLOCK_BALANCE), ("link", .JSON_BLOCK_LINK),
      ("signature", .JSON_BLOCK_SIGNATURE)]

section Kinds

variable {json : JsonEnv} {ptree : Ptree Text} {key : String}

theorem readJsonHeader_spells {type : BlockType} {checkOpcode : BlockOpcode → Bool} {counted : Bool}
    {header : JsonHeader} (h : Spells ptree key (header.fields json type))
    (hinvalid : checkOpcode .invalid = true) (hopcode : checkOpcode header.opcode = false)
    (hcredit : header.credit ≠ 0) (hcounter : counted = true → header.counter ≠ 0) :
    readJsonHeader json type checkOpcode counted ptree = missingOr key headerKeys (.ok header) := by
  have hnamed : header.opcode ≠ .invalid := fun heq => by
    rw [heq, hinvalid] at hopcode
    cases hopcode
  have hread := stringToBlockOpcode_toString hnamed
  have hzero : header.credit.toNat ≠ 0 := fun heq => hcredit (UInt16.toNat_inj.mp heq)
  have hcount : ¬(counted = true ∧ header.counter.toNat = 0) := fun ⟨htrue, heq⟩ =>
    hcounter htrue (UInt32.toNat_inj.mp heq)
  have htype : ("type", blockTypeToString type) ∈ header.fields json type := by
    simp [JsonHeader.fields]
  have hop : ("opcode", blockOpcodeToString header.opcode) ∈ header.fields json type := by
    simp [JsonHeader.fields]
  have hnumbers : ("credit", decimal header.credit.toNat) ∈ header.fields json type ∧
      ("counter", decimal header.counter.toNat) ∈ header.fields json type ∧
      ("timestamp", decimal header.timestamp.toNat) ∈ header.fields json type ∧
      ("height", decimal header.height.toNat) ∈ header.fields json type := by
    simp [JsonHeader.fields]
  have haccount : ("account", encodeAccount json.checksum header.account) ∈
      header.fields json type := by simp [JsonHeader.fields]
  have hprevious : ("previous", encodeHex true 64 header.previous.toNat) ∈
      header.fields json type := by simp [JsonHeader.fields]
  unfold readJsonHeader headerKeys
  refine missingOr_bind (h.text htype) ?_
  rw [returnIf_pass (not_not_intro rfl)]
  refine missingOr_bind (h.text hop) ?_
  dsimp only
  rw [hread, returnIf_pass (by rw [hopcode]; exact Bool.false_ne_true)]
  refine missingOr_bind (h.uint hnumbers.1 (Nat.le_sub_one_of_lt header.credit.toNat_lt)
    (by decide)) ?_
  rw [returnIf_pass hzero]
  refine missingOr_bind (h.uint hnumbers.2.1 (Nat.le_sub_one_of_lt header.counter.toNat_lt)
    (by decide)) ?_
  rw [returnIf_pass hcount]
  refine missingOr_bind (h.uint hnumbers.2.2.1 (Nat.le_sub_one_of_lt header.timestamp.toNat_lt)
    (by decide)) ?_
  refine missingOr_bind (h.uint hnumbers.2.2.2 (Nat.le_sub_one_of_lt header.height.toNat_lt)
    (by decide)) ?_
  refine missingOr_bind (h.account _ haccount) ?_
  refine missingOr_last (h.hex _ _ hprevious (by decide) (by decide)) ?_
  rw [UInt16.ofNat_toNat, UInt32.ofNat_toNat, UInt64.ofNat_toNat, UInt64.ofNat_toNat]
  rfl

-- The last check, once every field is read.
def verdict {α : Type} (json : JsonEnv) (b : Block) (value : α) : Except JsonFault α :=
  if json.env.checkSignature b = true then .error (.code .SIGNATURE) else .ok value

theorem verdict_eq {α : Type} (b : Block) (value : α) :
    (do returnIf (json.env.checkSignature b = true) (JsonFault.code .SIGNATURE)
        return value) = verdict json b value := by
  unfold verdict returnIf
  split <;> rfl

theorem AdBlock.deserializeJson_spells {b : AdBlock}
    (h : Spells ptree key (b.jsonHeader.fields json .adBlock ++
      [("representative", encodeAccount json.checksum b.representative),
        ("balance", decimal b.balance.toNat), ("link", encodeHex true 64 b.link.toNat),
        ("signature", encodeHex false 128 b.signature.toNat)])) (hchecked : b.Checked) :
    AdBlock.deserializeJson json ptree =
      missingOr key (Block.ad b).jsonKeys (verdict json (.ad b) b) := by
  obtain ⟨hheader, hfields⟩ := List.forall_mem_append.mp h
  have hrest : Spells ptree key _ := hfields
  obtain ⟨hopcode, hcredit, hcounter⟩ := hchecked
  unfold AdBlock.deserializeJson Block.jsonKeys
  refine missingOr_bind (readJsonHeader_spells hheader rfl hopcode hcredit fun _ => hcounter) ?_
  refine missingOr_bind (hrest.account b.representative (by simp)) ?_
  refine missingOr_bind (hrest.dec b.balance (by simp)) ?_
  refine missingOr_bind (hrest.hex true b.link (by simp) (by decide) (by decide)) ?_
  refine missingOr_last (hrest.hex false b.signature (by simp) (by decide) (by decide)) ?_
  exact verdict_eq _ _

theorem RepBlock.chainField_spells {b : RepBlock} {fields : List (String × Text)}
    (h : Spells ptree key fields) (hchain : b.opcode = .bind → b.chain ≠ Chain.INVALID)
    (hmem : b.opcode = .bind → ("chain_id", decimal b.chain.toNat) ∈ fields) :
    RepBlock.chainField b.opcode ptree = missingOr key
      (if b.opcode = .bind then [("chain_id", .JSON_BLOCK_CHAIN_ID)] else []) (.ok b.chain) := by
  unfold RepBlock.chainField RepBlock.hasChain
  by_cases hbind : b.opcode = .bind
  · rw [if_pos hbind, if_pos (decide_eq_true hbind)]
    refine missingOr_last (h.uint (hmem hbind) (Nat.le_sub_one_of_lt b.chain.toNat_lt)
      (by decide)) ?_
    rw [UInt32.ofNat_toNat, returnIf_pass (hchain hbind)]
    rfl
  · rw [if_neg hbind, if_neg (by rw [decide_eq_true_eq]; exact hbind), b.chain_eq hbind]
    rfl

theorem RepBlock.deserializeJson_spells {b : RepBlock}
    (h : Spells ptree key (b.jsonHeader.fields json .repBlock ++
      [("balance", decimal b.balance.toNat), ("link", linkText json b.opcode b.link)] ++
      (if hasChain b.opcode = true then
        [("chain", chainToString b.chain), ("chain_id", decimal b.chain.toNat)] else []) ++
      [("signature", encodeHex false 128 b.signature.toNat)])) (hchecked : b.Checked) :
    RepBlock.deserializeJson json ptree =
      missingOr key (Block.rep b).jsonKeys (verdict json (.rep b) b) := by
  obtain ⟨hfront, hsignature⟩ := List.forall_mem_append.mp h
  obtain ⟨hfront, hchain⟩ := List.forall_mem_append.mp hfront
  obtain ⟨hheader, hnumbers⟩ := List.forall_mem_append.mp hfront
  have hspells : Spells ptree key _ := hnumbers
  have hsigned : Spells ptree key _ := hsignature
  obtain ⟨hopcode, hcredit, hvalid⟩ := hchecked
  unfold RepBlock.deserializeJson Block.jsonKeys
  simp only [List.append_assoc, List.cons_append, List.nil_append]
  refine missingOr_bind (readJsonHeader_spells hheader rfl hopcode hcredit fun h => by cases h) ?_
  refine missingOr_bind (hspells.dec b.balance (by simp)) ?_
  refine missingOr_bind (hspells.link b.opcode b.link (by simp)) ?_
  refine missingOr_bind (RepBlock.chainField_spells hchain hvalid fun hbind => ?_) ?_
  · rw [if_pos (by simpa [hasChain] using hbind)]
    simp
  refine missingOr_last (hsigned.hex false b.signature (by simp) (by decide) (by decide)) ?_
  have heq : b.jsonHeader.opcode ≠ .bind → b.chain = Chain.INVALID := b.chain_eq
  rw [dif_pos heq]
  exact verdict_eq _ _

theorem extensionsField_spells {data : List UInt8}
    (h : ptree.get "extensions_raw" = some (bytesToHex data)) :
    extensionsField json ptree = .ok data := by
  rw [extensionsField, h]
  dsimp only
  rw [hexToBytes_bytesToHex]
  rfl

theorem TxBlock.deserializeJson_spells {b : TxBlock}
    (h : Spells ptree key (b.jsonHeader.fields json .txBlock ++
      [("representative", encodeAccount json.checksum b.representative),
        ("balance", decimal b.balance.toNat), ("link", linkText json b.opcode b.link),
        ("signature", encodeHex false 128 b.signature.toNat)]))
    (hraw : ptree.get "extensions_raw" = some (bytesToHex b.extensions)) (hchecked : b.Checked) :
    TxBlock.deserializeJson json ptree =
      missingOr key (Block.tx b).jsonKeys (verdict json (.tx b) b) := by
  obtain ⟨hheader, hfields⟩ := List.forall_mem_append.mp h
  have hspells : Spells ptree key _ := hfields
  obtain ⟨hopcode, hcredit, hcounter⟩ := hchecked
  have hlength : ¬TxBlock.checkExtensionsLength (.ofNat b.extensions.length) = true := by
    have hle := b.extensions_le
    rw [TxBlock.checkExtensionsLength, decide_eq_true_eq, UInt32.toNat_ofNat']
    unfold MAX_EXTENSIONS_SIZE at *
    omega
  unfold TxBlock.deserializeJson Block.jsonKeys
  refine missingOr_bind (readJsonHeader_spells hheader rfl hopcode hcredit fun _ => hcounter) ?_
  refine missingOr_bind (hspells.account b.representative (by simp)) ?_
  refine missingOr_bind (hspells.dec b.balance (by simp)) ?_
  refine missingOr_bind (hspells.link b.opcode b.link (by simp)) ?_
  rw [extensionsField_spells hraw, Except.ok_bind, returnIf_pass hlength]
  refine missingOr_last (hspells.hex false b.signature (by simp) (by decide) (by decide)) ?_
  rw [dif_pos b.extensions_le]
  exact verdict_eq _ _

-- The texts that a block needs to be read, but for its extensions.
def Block.spelled (json : JsonEnv) : Block → List (String × Text)
  | .tx b => b.jsonHeader.fields json .txBlock ++
      [("representative", encodeAccount json.checksum b.representative),
        ("balance", decimal b.balance.toNat), ("link", linkText json b.opcode b.link),
        ("signature", encodeHex false 128 b.signature.toNat)]
  | .rep b => b.jsonHeader.fields json .repBlock ++
      [("balance", decimal b.balance.toNat), ("link", linkText json b.opcode b.link)] ++
      (if RepBlock.hasChain b.opcode = true then
        [("chain", chainToString b.chain), ("chain_id", decimal b.chain.toNat)] else []) ++
      [("signature", encodeHex false 128 b.signature.toNat)]
  | .ad b => b.jsonHeader.fields json .adBlock ++
      [("representative", encodeAccount json.checksum b.representative),
        ("balance", decimal b.balance.toNat), ("link", encodeHex true 64 b.link.toNat),
        ("signature", encodeHex false 128 b.signature.toNat)]

def Block.rawExtensions : Block → Option (List UInt8)
  | .tx b => some b.extensions
  | _ => none

theorem deserializeBlockJson_spells {b : Block} (h : Spells ptree key (b.spelled json))
    (hraw : ∀ data, b.rawExtensions = some data →
      ptree.get "extensions_raw" = some (bytesToHex data)) (hchecked : b.Checked) :
    deserializeBlockJson json ptree = missingOr key b.jsonKeys (verdict json b b) := by
  have htype : ("type", blockTypeToString b.type) ∈ b.spelled json := by
    cases b <;> simp [Block.spelled, JsonHeader.fields, Block.type]
  have hkeys : ∃ rest, b.jsonKeys = ("type", .JSON_BLOCK_TYPE) :: rest := by
    cases b <;> exact ⟨_, rfl⟩
  obtain ⟨rest, hrest⟩ := hkeys
  rw [hrest, ← missingOr_again, ← hrest]
  unfold deserializeBlockJson
  refine missingOr_bind (h.text htype) ?_
  cases b with
  | tx b =>
      refine (if_pos rfl).trans ?_
      rw [TxBlock.deserializeJson_spells h (hraw _ rfl) hchecked, missingOr_map]
      unfold verdict
      split <;> rfl
  | rep b =>
      have htx : blockTypeToString .repBlock ≠ blockTypeToString .txBlock := by decide
      refine (if_neg htx).trans ((if_pos rfl).trans ?_)
      rw [RepBlock.deserializeJson_spells h hchecked, missingOr_map]
      unfold verdict
      split <;> rfl
  | ad b =>
      have htx : blockTypeToString .adBlock ≠ blockTypeToString .txBlock := by decide
      have hrep : blockTypeToString .adBlock ≠ blockTypeToString .repBlock := by decide
      refine (if_neg htx).trans ((if_neg hrep).trans ((if_pos rfl).trans ?_))
      rw [AdBlock.deserializeJson_spells h hchecked, missingOr_map]
      unfold verdict
      split <;> rfl

end Kinds

section Accepted

variable {json : JsonEnv} {ptree : Ptree Text}

theorem stringToUint_le {max number : Nat} {str : Text} (h : stringToUint max str = some number) :
    number ≤ max := by
  unfold stringToUint at h
  dsimp only at h
  split_ifs at h
  cases h
  omega

theorem uintField_le {name : String} {error : ErrorCode} {max number : Nat}
    (h : uintField ptree name error max = .ok number) : number ≤ max := by
  obtain ⟨text, -, hread⟩ := (Except.bind_eq_ok _ _ _).mp h
  exact stringToUint_le ((orReturn_eq_ok _ _ _).mp hread)

theorem readJsonHeader_ok {type : BlockType} {checkOpcode : BlockOpcode → Bool} {counted : Bool}
    {header : JsonHeader} (h : readJsonHeader json type checkOpcode counted ptree = .ok header) :
    checkOpcode header.opcode = false ∧ header.credit ≠ 0 ∧
      (counted = true → header.counter ≠ 0) := by
  simp only [readJsonHeader, Except.bind_eq_ok, returnIf_eq_ok, Except.pure_eq_ok] at h
  obtain ⟨-, -, -, -, opcode, -, -, hopcode, credit, hcredit, -, hzero, counter, hcounter, -, hcount,
    timestamp, -, height, -, account, -, previous, -, rfl⟩ := h
  have hlow := uintField_le hcredit
  have hless := uintField_le hcounter
  refine ⟨by simpa using hopcode, fun heq => hzero ?_, fun htrue heq => hcount ⟨htrue, ?_⟩⟩
  · have hnat := congrArg UInt16.toNat heq
    rw [UInt16.toNat_ofNat'] at hnat
    change credit % 2 ^ 16 = 0 at hnat
    omega
  · have hnat := congrArg UInt32.toNat heq
    rw [UInt32.toNat_ofNat'] at hnat
    change counter % 2 ^ 32 = 0 at hnat
    omega

theorem TxBlock.deserializeJson_ok {b : TxBlock} (h : deserializeJson json ptree = .ok b) :
    (Block.tx b).Verified json.env := by
  simp only [deserializeJson, Except.bind_eq_ok] at h
  obtain ⟨header, hheader, representative, -, balance, -, link, -, extensions, -, -, -, signature, -,
    hlast⟩ := h
  obtain ⟨hopcode, hcredit, hcounter⟩ := readJsonHeader_ok hheader
  split at hlast
  · simp only [Except.bind_eq_ok, returnIf_eq_ok, Except.pure_eq_ok] at hlast
    obtain ⟨-, hsignature, rfl⟩ := hlast
    exact ⟨⟨hopcode, hcredit, hcounter rfl⟩, by simpa using hsignature⟩
  · cases hlast

theorem RepBlock.deserializeJson_ok {b : RepBlock} (h : deserializeJson json ptree = .ok b) :
    (Block.rep b).Verified json.env := by
  simp only [deserializeJson, Except.bind_eq_ok] at h
  obtain ⟨header, hheader, balance, -, link, -, chain, hchain, signature, -, hlast⟩ := h
  obtain ⟨hopcode, hcredit, -⟩ := readJsonHeader_ok hheader
  have hvalid : header.opcode = .bind → chain ≠ Chain.INVALID := fun hbind => by
    unfold chainField hasChain at hchain
    rw [if_pos (decide_eq_true hbind)] at hchain
    simp only [Except.bind_eq_ok, returnIf_eq_ok, Except.pure_eq_ok] at hchain
    obtain ⟨number, -, -, hne, rfl⟩ := hchain
    exact hne
  split at hlast
  · simp only [Except.bind_eq_ok, returnIf_eq_ok, Except.pure_eq_ok] at hlast
    obtain ⟨-, hsignature, rfl⟩ := hlast
    exact ⟨⟨hopcode, hcredit, hvalid⟩, by simpa using hsignature⟩
  · cases hlast

theorem AdBlock.deserializeJson_ok {b : AdBlock} (h : deserializeJson json ptree = .ok b) :
    (Block.ad b).Verified json.env := by
  simp only [deserializeJson, Except.bind_eq_ok, returnIf_eq_ok, Except.pure_eq_ok] at h
  obtain ⟨header, hheader, representative, -, balance, -, link, -, signature, -, -, hsignature,
    rfl⟩ := h
  obtain ⟨hopcode, hcredit, hcounter⟩ := readJsonHeader_ok hheader
  exact ⟨⟨hopcode, hcredit, hcounter rfl⟩, by simpa using hsignature⟩

theorem deserializeBlockJson_ok {b : Block} (h : deserializeBlockJson json ptree = .ok b) :
    b.Verified json.env := by
  have hmap {α : Type} {f : α → Block} {x : Except JsonFault α} (h : f <$> x = .ok b) :
      ∃ value, x = .ok value ∧ b = f value := by
    cases x with
    | error fault => cases h
    | ok value =>
        cases h
        exact ⟨value, rfl, rfl⟩
  obtain ⟨type, -, hkind⟩ := (Except.bind_eq_ok _ _ _).mp h
  split_ifs at hkind
  · obtain ⟨block, hblock, rfl⟩ := hmap hkind
    exact TxBlock.deserializeJson_ok hblock
  · obtain ⟨block, hblock, rfl⟩ := hmap hkind
    exact RepBlock.deserializeJson_ok hblock
  · obtain ⟨block, hblock, rfl⟩ := hmap hkind
    exact AdBlock.deserializeJson_ok hblock

end Accepted

section Written

variable (json : JsonEnv) (b : Block) (ptree : Ptree Text)

theorem serializeJson_get : ∀ field ∈ b.spelled json,
    (b.serializeJson json ptree).get field.1 = some field.2 := by
  cases b with
  | tx b =>
      have hfront : ∀ field ∈ b.jsonHeader.fields json .txBlock ++
          [("representative", encodeAccount json.checksum b.representative),
            ("balance", decimal b.balance.toNat), ("link", linkText json b.opcode b.link),
            ("extensions_length", decimal b.extensions.length)],
          ((Block.tx b).serializeJson json ptree).get field.1 = some field.2 := by
        intro field hfield
        have hnames : field.1 ≠ "extensions" ∧ field.1 ≠ "extensions_raw" ∧
            field.1 ≠ "signature" := by
          revert field
          simp [JsonHeader.fields]
        refine (Ptree.get_putAll_other ?_ _).trans ((Ptree.get_addChild hnames.1 _).trans ?_)
        · simp [Ne.symm hnames.2.1, Ne.symm hnames.2.2]
        · exact Ptree.get_putAll (by simp [JsonHeader.fields]) ptree field hfield
      have hback := @Ptree.get_putAll _ [("extensions_raw", bytesToHex b.extensions),
        ("signature", encodeHex false 128 b.signature.toNat)] (by simp)
      intro field hfield
      rcases List.mem_append.mp hfield with hheader | hrest
      · exact hfront field (List.mem_append_left _ hheader)
      · simp only [List.mem_cons, List.not_mem_nil, or_false] at hrest
        rcases hrest with rfl | rfl | rfl | rfl
        · exact hfront _ (by simp)
        · exact hfront _ (by simp)
        · exact hfront _ (by simp)
        · exact hback _ _ (by simp)
  | rep b =>
      refine Ptree.get_putAll ?_ ptree
      by_cases hchain : RepBlock.hasChain b.opcode = true
      · simp [Block.spelled, JsonHeader.fields, hchain]
      · simp [Block.spelled, JsonHeader.fields, hchain]
  | ad b =>
      refine Ptree.get_putAll ?_ ptree
      simp [Block.spelled, JsonHeader.fields]

theorem serializeJson_raw {data : List UInt8} (h : b.rawExtensions = some data) :
    (b.serializeJson json ptree).get "extensions_raw" = some (bytesToHex data) := by
  cases b with
  | tx b =>
      cases h
      refine Ptree.get_putAll ?_ _ ("extensions_raw", _) List.mem_cons_self
      simp
  | rep b => cases h
  | ad b => cases h

end Written

-- A tree that lost one of its fields, and one that lost none.
theorem spells_erase {ptree : Ptree Text} {fields : List (String × Text)}
    (h : ∀ field ∈ fields, ptree.get field.1 = some field.2) (key : String) :
    Spells (ptree.erase key) key fields := by
  intro field hfield
  rw [Ptree.get_erase, h field hfield]

theorem spells_whole {ptree : Ptree Text} {fields : List (String × Text)} {key : String}
    (h : ∀ field ∈ fields, ptree.get field.1 = some field.2) (hfresh : ∀ field ∈ fields, field.1 ≠ key) :
    Spells ptree key fields := by
  intro field hfield
  rw [if_neg (hfresh field hfield), h field hfield]

theorem jsonKeys_lookup (b : Block) :
    b.jsonKeys.lookup "" = none ∧ b.jsonKeys.lookup "extensions_raw" = none := by
  cases b with
  | rep b =>
      by_cases hbind : b.opcode = .bind
      · simp [Block.jsonKeys, headerKeys, hbind]
      · simp [Block.jsonKeys, headerKeys, hbind]
  | _ => simp [Block.jsonKeys, headerKeys]

theorem deserializeBlockJson_serializeJson (json : JsonEnv) {b : Block} (hchecked : b.Checked)
    (ptree : Ptree Text) :
    deserializeBlockJson json (b.serializeJson json ptree) = verdict json b b := by
  have hfresh : ∀ field ∈ b.spelled json, field.1 ≠ "" := by
    cases b with
    | rep b =>
        by_cases hchain : RepBlock.hasChain b.opcode = true
        · simp [Block.spelled, JsonHeader.fields, hchain]
        · simp [Block.spelled, JsonHeader.fields, hchain]
    | _ => simp [Block.spelled, JsonHeader.fields]
  rw [deserializeBlockJson_spells (spells_whole (serializeJson_get json b ptree) hfresh)
    (fun data hdata => serializeJson_raw json b ptree hdata) hchecked, missingOr,
    (jsonKeys_lookup b).1]

theorem deserializeBlockJson_erase (json : JsonEnv) {b : Block} (hchecked : b.Checked)
    (ptree : Ptree Text) {key : String} {error : ErrorCode}
    (hkey : b.jsonKeys.lookup key = some error) :
    deserializeBlockJson json ((b.serializeJson json ptree).erase key) = .error (.code error) := by
  have hraw : "extensions_raw" ≠ key := by
    rintro rfl
    rw [(jsonKeys_lookup b).2] at hkey
    cases hkey
  rw [deserializeBlockJson_spells (spells_erase (serializeJson_get json b ptree) key)
    (fun data hdata => ?_) hchecked, missingOr, hkey]
  rw [Ptree.get_erase, if_neg hraw]
  exact serializeJson_raw json b ptree hdata

-- A block that a peer would accept reads back from its JSON, whatever the tree held before, and
-- nothing else is read from any tree: the JSON carries the blocks that the bytes carry. A wrong
-- signature is told, and so is the first field that is missing.
theorem block_json_exact (json : JsonEnv) :
    (∀ (b : Block) ptree, b.Verified json.env →
      deserializeBlockJson json (b.serializeJson json ptree) = .ok b) ∧
    (∀ b, (∃ ptree, deserializeBlockJson json ptree = .ok b) ↔
      ∃ bytes rest, deserializeBlock json.env bytes = .ok b rest) ∧
    (∀ (b : Block) ptree, b.Checked → json.env.checkSignature b = true →
      deserializeBlockJson json (b.serializeJson json ptree) = .error (.code .SIGNATURE)) ∧
    ∀ (b : Block) ptree key error, b.Checked → b.jsonKeys.lookup key = some error →
      deserializeBlockJson json ((b.serializeJson json ptree).erase key) =
        .error (.code error) := by
  have hround (b : Block) (ptree : Ptree Text) (h : b.Verified json.env) :
      deserializeBlockJson json (b.serializeJson json ptree) = .ok b := by
    rw [deserializeBlockJson_serializeJson json h.1, verdict, h.2, if_neg Bool.false_ne_true]
  refine ⟨hround, fun b => ⟨?_, ?_⟩, fun b ptree hchecked hsignature => ?_,
    fun b ptree key error hchecked => deserializeBlockJson_erase json hchecked ptree⟩
  · rintro ⟨ptree, hread⟩
    exact ⟨b.serialize ++ [], [],
      (deserializeBlock_inverts json.env).complete b [] (deserializeBlockJson_ok hread)⟩
  · rintro ⟨bytes, rest, hread⟩
    exact ⟨_, hround b (.node [] []) ((deserializeBlock_inverts json.env).sound bytes b rest hread).1⟩
  · rw [deserializeBlockJson_serializeJson json hchecked, verdict, if_pos hsignature]

-- Streams that read plain numerals and nothing else.
def plainStreams : NumberStreams where
  hex bits text :=
    if text ≠ [] ∧ text.all (fun c => (hexCharValue c).isSome) = true then
      some (BitVec.ofNat bits (numeralValue 16 0 (text.map fun c => (hexCharValue c).getD 0)))
    else none
  dec bits text :=
    if decimal (decimalValue text) = text ∧ decimalValue text < 2 ^ bits then
      some (BitVec.ofNat bits (decimalValue text))
    else none
  hex_numeral {bits width number text} hpos hwidth _ hdigits := by
    have hlength := congrArg List.length hdigits
    rw [List.length_map, List.length_map, numeral_length] at hlength
    have hsome : text ≠ [] := by
      rintro rfl
      exact absurd hlength (Nat.ne_of_lt hpos)
    have hall : text.all (fun c => (hexCharValue c).isSome) = true := by
      rw [List.all_eq_true]
      intro c hc
      have hmem := List.mem_map_of_mem (f := hexCharValue) hc
      rw [hdigits] at hmem
      obtain ⟨digit, -, hdigit⟩ := List.mem_map.mp hmem
      rw [← hdigit]
      rfl
    have hvalues : (text.map fun c => (hexCharValue c).getD 0) = numeral 16 width number := by
      have hget := congrArg (List.map fun digit : Option Nat => digit.getD 0) hdigits
      rw [List.map_map, List.map_map] at hget
      exact hget.trans (List.map_id _)
    rw [if_pos ⟨hsome, hall⟩, hvalues, numeralValue_numeral, Nat.mod_eq_of_lt hwidth]
  dec_numeral {bits number} h := by
    rw [decimalValue_decimal, if_pos ⟨rfl, h⟩]

def plainJson : JsonEnv where
  env := sampleEnv
  checksum _ := 0
  streams := plainStreams
  extensionsToPtree _ := .node [] []
  ptreeToExtensions _ := .error .JSON_BLOCK_EXTENSIONS_EMPTY

theorem sampleSend_json :
    let block := sampleTx .send 1 1 0 5 7 9 11 1000 13
    let tree := block.serializeJson plainJson (.node [] [])
    deserializeBlockJson plainJson tree = .ok block ∧
      deserializeBlockJson plainJson (tree.erase "balance") =
        .error (.code .JSON_BLOCK_BALANCE) := by
  have hchecked : (sampleTx .send 1 1 0 5 7 9 11 1000 13).Checked :=
    ⟨by decide, by decide, by decide⟩
  exact ⟨(block_json_exact plainJson).1 _ _ ⟨hchecked, rfl⟩,
    (block_json_exact plainJson).2.2.2 _ _ "balance" _ hchecked rfl⟩

end Raicoin
