import Raicoin.Common.Address
import Raicoin.Common.BlockCodec
import Raicoin.Common.Util
import Raicoin.Lib.Ptree

-- The JSON of a block: a tree of texts that names its fields.
namespace Raicoin

open Lib

def blockTypeToString : BlockType → Text
  | .invalid => textBytes "invalid"
  | .txBlock => textBytes "transaction"
  | .repBlock => textBytes "representative"
  | .adBlock => textBytes "airdrop"

def blockOpcodeToString : BlockOpcode → Text
  | .invalid => textBytes "invalid"
  | .send => textBytes "send"
  | .receive => textBytes "receive"
  | .change => textBytes "change"
  | .credit => textBytes "credit"
  | .reward => textBytes "reward"
  | .destroy => textBytes "destroy"
  | .bind => textBytes "bind"

def stringToBlockOpcode (str : Text) : BlockOpcode :=
  if str = textBytes "send" then .send
  else if str = textBytes "receive" then .receive
  else if str = textBytes "change" then .change
  else if str = textBytes "credit" then .credit
  else if str = textBytes "reward" then .reward
  else if str = textBytes "destroy" then .destroy
  else if str = textBytes "bind" then .bind
  else .invalid

-- `std::to_string`.
def decimal (number : Nat) : Text := (Nat.toDigits 10 number).map fun c => UInt8.ofNat c.toNat

def chainNames : List (Chain × String) :=
  [(0, "invalid"), (1, "raicoin"), (2, "bitcoin"), (3, "ethereum"), (4, "binance smart chain"),
    (10010, "raicoin testnet"), (10020, "bitcoin testnet"), (10030, "ethereum ropsten testnet"),
    (10031, "ethereum kovan testnet"), (10032, "ethereum rinkeby testnet"),
    (10033, "ethereum goerli testnet"), (10034, "ethereum sepolia testnet"),
    (10040, "binance smart chain testnet")]

def chainToString (chain : Chain) : Text :=
  match chainNames.lookup chain with
  | some name => textBytes name
  | none => decimal chain.toNat

-- The number that decimal digits spell.
def decimalValue (text : Text) : Nat := Nat.ofDigitChars 10 (text.map fun c => Char.ofNat c.toNat) 0

-- `StringToUint` into a type whose greatest number is `max`. `stoull` throws at what 64 bits
-- cannot hold.
def stringToUint (max : Nat) (str : Text) : Option Nat :=
  if str = [] then none
  else if str.any fun c => !(0x30 ≤ c && c ≤ 0x39) then none
  else if str.length > 1 ∧ str.head? = some 0x30 then none
  else
    let ull := decimalValue str
    if 2 ^ 64 ≤ ull then none
    else if decimal ull ≠ str then none
    else if ull > max then none
    else some ull

def hexChar (upper : Bool) (digit : Nat) : UInt8 :=
  (textBytes (if upper then "0123456789ABCDEF" else "0123456789abcdef")).getD digit 0x3f

def hexCharValue (c : UInt8) : Option Nat :=
  if 0x30 ≤ c ∧ c ≤ 0x39 then some (c.toNat - 0x30)
  else if 0x41 ≤ c ∧ c ≤ 0x46 then some (c.toNat - 0x41 + 10)
  else if 0x61 ≤ c ∧ c ≤ 0x66 then some (c.toNat - 0x61 + 10)
  else none

def bytesToHex (data : List UInt8) : Text :=
  data.flatMap fun byte => [hexChar true (byte.toNat / 16), hexChar true (byte.toNat % 16)]

-- The loop of `HexToBytes`.
def hexPairs : Text → List UInt8
  | high :: low :: rest =>
    UInt8.ofNat ((hexCharValue high).getD 0 * 16 + (hexCharValue low).getD 0) :: hexPairs rest
  | _ => []

def hexToBytes (hex : Text) : Option (List UInt8) :=
  if hex.length % 2 ≠ 0 then none
  else if hex.any fun c => (hexCharValue c).isNone then none
  else some (hexPairs hex)

-- `EncodeHex` of the unions: `width` digits, upper case for 256 bits and lower case for 512.
def encodeHex (upper : Bool) (width number : Nat) : Text :=
  (numeral 16 width number).map (hexChar upper)

-- What `stream >> number` makes of a text, for a number of so many bits, when the stream gets to
-- the end of the text and nothing is thrown. Texts that are no plain numerals are left to the
-- library, such as those with a sign, with spaces in front or with a radix.
structure NumberStreams where
  hex : (bits : Nat) → Text → Option (BitVec bits)
  dec : (bits : Nat) → Text → Option (BitVec bits)
  hex_numeral : ∀ {bits width number : Nat} {text : Text}, 0 < width → number < 16 ^ width →
    number < 2 ^ bits → text.map hexCharValue = (numeral 16 width number).map some →
    hex bits text = some (BitVec.ofNat bits number)
  dec_numeral : ∀ {bits number : Nat}, number < 2 ^ bits →
    dec bits (decimal number) = some (BitVec.ofNat bits number)

-- The code of other files that the JSON of a block rests on: the hash of an address, and the
-- trees of extensions.
structure JsonEnv where
  env : Env
  checksum : List UInt8 → BitVec 40
  streams : NumberStreams
  extensionsToPtree : List UInt8 → Ptree Text
  ptreeToExtensions : Ptree Text → Except ErrorCode (List UInt8)

-- Why a tree is no block. An address can be read outside of a table.
inductive JsonFault where
  | code (error : ErrorCode)
  | outOfBounds
  deriving DecidableEq

section Fields

variable (json : JsonEnv) (ptree : Ptree Text) (key : String) (error : ErrorCode)

def textField : Except JsonFault Text := orReturn (ptree.get key) (.code error)

def uintField (max : Nat) : Except JsonFault Nat := do
  let text ← textField ptree key error
  orReturn (stringToUint max text) (.code error)

def accountField : Except JsonFault Account := do
  let text ← textField ptree key error
  match decodeAccount json.checksum text with
  | .ok account => .ok account
  | .error .error => .error (.code error)
  | .error .outOfBounds => .error .outOfBounds

-- `DecodeHex`.
def hexField (bits width : Nat) : Except JsonFault (BitVec bits) := do
  let text ← textField ptree key error
  returnIf (text.length ≠ width) (.code error)
  orReturn (json.streams.hex bits text) (.code error)

-- `uint128_union::DecodeDec`.
def decField : Except JsonFault Amount := do
  let text ← textField ptree key error
  returnIf (text = [] ∨ text.length > 39 ∨ (text.length > 1 ∧ text.head? = some 0x30) ∨
    text.head? = some 0x2d) (.code error)
  orReturn (json.streams.dec 128 text) (.code error)

def linkField (opcode : BlockOpcode) : Except JsonFault Uint256 :=
  if opcode = .send then accountField json ptree "link" .JSON_BLOCK_LINK
  else hexField json ptree "link" .JSON_BLOCK_LINK 256 64

-- The raw bytes count; without them, the tree does, unless it is empty.
def extensionsField : Except JsonFault (List UInt8) :=
  match ptree.get "extensions_raw" with
  | some raw => orReturn (hexToBytes raw) (.code .JSON_BLOCK_EXTENSIONS_RAW)
  | none =>
    match ptree.getChild "extensions" with
    | none => .ok []
    | some extensions =>
      if extensions.children.isEmpty then .ok []
      else (json.ptreeToExtensions extensions).mapError .code

def linkText (opcode : BlockOpcode) (link : Uint256) : Text :=
  if opcode = .send then encodeAccount json.checksum link else encodeHex true 64 link.toNat

end Fields

-- The fields with which the three kinds begin.
structure JsonHeader where
  opcode : BlockOpcode
  credit : UInt16
  counter : UInt32
  timestamp : UInt64
  height : UInt64
  account : Account
  previous : BlockHash

variable (json : JsonEnv)

def JsonHeader.fields (type : BlockType) (header : JsonHeader) : List (String × Text) :=
  [("type", blockTypeToString type), ("opcode", blockOpcodeToString header.opcode),
    ("credit", decimal header.credit.toNat), ("counter", decimal header.counter.toNat),
    ("timestamp", decimal header.timestamp.toNat), ("height", decimal header.height.toNat),
    ("account", encodeAccount json.checksum header.account),
    ("previous", encodeHex true 64 header.previous.toNat)]

-- `counted` tells that a counter of zero is refused, which a REP block's is not.
def readJsonHeader (type : BlockType) (checkOpcode : BlockOpcode → Bool) (counted : Bool)
    (ptree : Ptree Text) : Except JsonFault JsonHeader := do
  let typeText ← textField ptree "type" .JSON_BLOCK_TYPE
  returnIf (typeText ≠ blockTypeToString type) (.code .BLOCK_TYPE)
  let opcodeText ← textField ptree "opcode" .JSON_BLOCK_OPCODE
  let opcode := stringToBlockOpcode opcodeText
  returnIf (checkOpcode opcode = true) (.code .BLOCK_OPCODE)
  let credit ← uintField ptree "credit" .JSON_BLOCK_CREDIT (2 ^ 16 - 1)
  returnIf (credit = 0) (.code .BLOCK_CREDIT)
  let counter ← uintField ptree "counter" .JSON_BLOCK_COUNTER (2 ^ 32 - 1)
  returnIf (counted = true ∧ counter = 0) (.code .BLOCK_COUNTER)
  let timestamp ← uintField ptree "timestamp" .JSON_BLOCK_TIMESTAMP (2 ^ 64 - 1)
  let height ← uintField ptree "height" .JSON_BLOCK_HEIGHT (2 ^ 64 - 1)
  let account ← accountField json ptree "account" .JSON_BLOCK_ACCOUNT
  let previous ← hexField json ptree "previous" .JSON_BLOCK_PREVIOUS 256 64
  return ⟨opcode, .ofNat credit, .ofNat counter, .ofNat timestamp, .ofNat height, account, previous⟩

namespace TxBlock

def jsonHeader (b : TxBlock) : JsonHeader :=
  ⟨b.opcode, b.credit, b.counter, b.timestamp, b.height, b.account, b.previous⟩

def serializeJson (b : TxBlock) (ptree : Ptree Text) : Ptree Text :=
  let ptree := ptree.putAll (b.jsonHeader.fields json .txBlock ++
    [("representative", encodeAccount json.checksum b.representative),
      ("balance", decimal b.balance.toNat), ("link", linkText json b.opcode b.link),
      ("extensions_length", decimal b.extensions.length)])
  let ptree := ptree.addChild "extensions" (json.extensionsToPtree b.extensions)
  ptree.putAll [("extensions_raw", bytesToHex b.extensions),
    ("signature", encodeHex false 128 b.signature.toNat)]

def deserializeJson (ptree : Ptree Text) : Except JsonFault TxBlock := do
  let header ← readJsonHeader json .txBlock checkOpcode true ptree
  let representative ← accountField json ptree "representative" .JSON_BLOCK_REPRESENTATIVE
  let balance ← decField json ptree "balance" .JSON_BLOCK_BALANCE
  let link ← linkField json ptree header.opcode
  let extensions ← extensionsField json ptree
  -- the bytes that a text can hold do not make the 32 bits of the length wrap
  returnIf (checkExtensionsLength (.ofNat extensions.length) = true)
    (.code .JSON_BLOCK_EXTENSIONS_LENGTH)
  let signature ← hexField json ptree "signature" .JSON_BLOCK_SIGNATURE 512 128
  if h : extensions.length ≤ MAX_EXTENSIONS_SIZE then
    let block : TxBlock := ⟨header.opcode, header.credit, header.counter, header.timestamp,
      header.height, header.account, header.previous, representative, balance, link, extensions,
      signature, h⟩
    returnIf (json.env.checkSignature (.tx block) = true) (.code .SIGNATURE)
    return block
  else throw (.code .JSON_BLOCK_EXTENSIONS_LENGTH)

end TxBlock

namespace RepBlock

def jsonHeader (b : RepBlock) : JsonHeader :=
  ⟨b.opcode, b.credit, b.counter, b.timestamp, b.height, b.account, b.previous⟩

def serializeJson (b : RepBlock) (ptree : Ptree Text) : Ptree Text :=
  ptree.putAll (b.jsonHeader.fields json .repBlock ++
    [("balance", decimal b.balance.toNat), ("link", linkText json b.opcode b.link)] ++
    (if hasChain b.opcode = true then
      [("chain", chainToString b.chain), ("chain_id", decimal b.chain.toNat)] else []) ++
    [("signature", encodeHex false 128 b.signature.toNat)])

def chainField (opcode : BlockOpcode) (ptree : Ptree Text) : Except JsonFault Chain :=
  if hasChain opcode = true then do
    let chain ← uintField ptree "chain_id" .JSON_BLOCK_CHAIN_ID (2 ^ 32 - 1)
    returnIf (UInt32.ofNat chain = Chain.INVALID) (.code .JSON_BLOCK_CHAIN_ID)
    return .ofNat chain
  else return Chain.INVALID

def deserializeJson (ptree : Ptree Text) : Except JsonFault RepBlock := do
  let header ← readJsonHeader json .repBlock checkOpcode false ptree
  let balance ← decField json ptree "balance" .JSON_BLOCK_BALANCE
  let link ← linkField json ptree header.opcode
  let chain ← chainField header.opcode ptree
  let signature ← hexField json ptree "signature" .JSON_BLOCK_SIGNATURE 512 128
  -- without a chain it was set to `INVALID` above
  if h : header.opcode ≠ .bind → chain = Chain.INVALID then
    let block : RepBlock := ⟨header.opcode, header.credit, header.counter, header.timestamp,
      header.height, header.account, header.previous, balance, link, chain, signature, h⟩
    returnIf (json.env.checkSignature (.rep block) = true) (.code .SIGNATURE)
    return block
  else throw (.code .JSON_BLOCK_CHAIN_ID)

end RepBlock

namespace AdBlock

def jsonHeader (b : AdBlock) : JsonHeader :=
  ⟨b.opcode, b.credit, b.counter, b.timestamp, b.height, b.account, b.previous⟩

def serializeJson (b : AdBlock) (ptree : Ptree Text) : Ptree Text :=
  ptree.putAll (b.jsonHeader.fields json .adBlock ++
    [("representative", encodeAccount json.checksum b.representative),
      ("balance", decimal b.balance.toNat), ("link", encodeHex true 64 b.link.toNat),
      ("signature", encodeHex false 128 b.signature.toNat)])

def deserializeJson (ptree : Ptree Text) : Except JsonFault AdBlock := do
  let header ← readJsonHeader json .adBlock checkOpcode true ptree
  let representative ← accountField json ptree "representative" .JSON_BLOCK_REPRESENTATIVE
  let balance ← decField json ptree "balance" .JSON_BLOCK_BALANCE
  let link ← hexField json ptree "link" .JSON_BLOCK_LINK 256 64
  let signature ← hexField json ptree "signature" .JSON_BLOCK_SIGNATURE 512 128
  let block : AdBlock := ⟨header.opcode, header.credit, header.counter, header.timestamp,
    header.height, header.account, header.previous, representative, balance, link, signature⟩
  returnIf (json.env.checkSignature (.ad block) = true) (.code .SIGNATURE)
  return block

end AdBlock

def Block.serializeJson (ptree : Ptree Text) : Block → Ptree Text
  | .tx b => b.serializeJson json ptree
  | .rep b => b.serializeJson json ptree
  | .ad b => b.serializeJson json ptree

def deserializeBlockJson (ptree : Ptree Text) : Except JsonFault Block := do
  let type ← textField ptree "type" .JSON_BLOCK_TYPE
  if type = blockTypeToString .txBlock then Block.tx <$> TxBlock.deserializeJson json ptree
  else if type = blockTypeToString .repBlock then Block.rep <$> RepBlock.deserializeJson json ptree
  else if type = blockTypeToString .adBlock then Block.ad <$> AdBlock.deserializeJson json ptree
  else throw (.code .JSON_BLOCK_TYPE)

end Raicoin
