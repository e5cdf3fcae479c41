import Raicoin.Common.Blocks
import Raicoin.Common.Stream

-- The bytes of a block.
namespace Raicoin

open Lib

-- `static_cast<BlockOpcode>`: a number without a name is as good as `INVALID`.
def BlockOpcode.ofNumber (number : UInt8) : BlockOpcode :=
  if number = 1 then .send
  else if number = 2 then .receive
  else if number = 3 then .change
  else if number = 4 then .credit
  else if number = 5 then .reward
  else if number = 6 then .destroy
  else if number = 7 then .bind
  else .invalid

-- `CheckOpcode` and the other checks are true on an error.
def TxBlock.checkOpcode (opcode : BlockOpcode) : Bool :=
  opcode ∉ [.send, .receive, .change, .credit]

def RepBlock.checkOpcode (opcode : BlockOpcode) : Bool :=
  opcode ∉ [.send, .receive, .reward, .credit, .bind]

def AdBlock.checkOpcode (opcode : BlockOpcode) : Bool :=
  opcode ∉ [.receive, .change, .destroy]

def TxBlock.checkExtensionsLength (length : UInt32) : Bool :=
  length.toNat > MAX_EXTENSIONS_SIZE

-- `Read(stream, opcode_)` and the check that follows it in all three kinds.
def readOpcode (checkOpcode : BlockOpcode → Bool) : StreamM BlockOpcode := do
  let number : UInt8 ← streamRead
  Reader.failIf (checkOpcode (.ofNumber number) = true) .BLOCK_OPCODE
  return .ofNumber number

namespace TxBlock

def serialize (b : TxBlock) : List UInt8 :=
  [streamWrite (UInt8.ofNat BlockType.txBlock.number), streamWrite (UInt8.ofNat b.opcode.number),
    streamWrite b.credit, streamWrite b.counter, streamWrite b.timestamp, streamWrite b.height,
    streamWrite b.account, streamWrite b.previous, streamWrite b.representative,
    streamWrite b.balance, streamWrite b.link, streamWrite (UInt32.ofNat b.extensions.length),
    b.extensions, streamWrite b.signature].flatten

def deserialize : StreamM TxBlock := do
  let opcode ← readOpcode checkOpcode
  let credit : UInt16 ← streamRead
  Reader.failIf (credit = 0) .BLOCK_CREDIT
  let counter : UInt32 ← streamRead
  Reader.failIf (counter = 0) .BLOCK_COUNTER
  let timestamp : UInt64 ← streamRead
  let height : UInt64 ← streamRead
  let account : Account ← streamRead
  let previous : BlockHash ← streamRead
  let representative : Account ← streamRead
  let balance : Amount ← streamRead
  let link : Uint256 ← streamRead
  let extensionsLength : UInt32 ← streamRead
  Reader.failIf (checkExtensionsLength extensionsLength = true) .EXTENSIONS_LENGTH
  let extensions ← streamReadBytes extensionsLength.toNat
  let signature : Signature ← streamRead
  -- the length was tested above
  if h : extensions.length ≤ MAX_EXTENSIONS_SIZE then
    return ⟨opcode, credit, counter, timestamp, height, account, previous, representative,
      balance, link, extensions, signature, h⟩
  else throw .EXTENSIONS_LENGTH

-- What `Deserialize` checks.
def Checked (b : TxBlock) : Prop :=
  checkOpcode b.opcode = false ∧ b.credit ≠ 0 ∧ b.counter ≠ 0

end TxBlock

namespace RepBlock

def hasChain (opcode : BlockOpcode) : Bool := opcode = .bind

def serialize (b : RepBlock) : List UInt8 :=
  [streamWrite (UInt8.ofNat BlockType.repBlock.number), streamWrite (UInt8.ofNat b.opcode.number),
    streamWrite b.credit, streamWrite b.counter, streamWrite b.timestamp, streamWrite b.height,
    streamWrite b.account, streamWrite b.previous, streamWrite b.balance, streamWrite b.link,
    if hasChain b.opcode = true then streamWrite b.chain else [], streamWrite b.signature].flatten

def readChain (opcode : BlockOpcode) : StreamM Chain :=
  if hasChain opcode = true then do
    let chain : Chain ← streamRead
    Reader.failIf (chain = Chain.INVALID) .BLOCK_CHAIN
    return chain
  else return Chain.INVALID

def deserialize : StreamM RepBlock := do
  let opcode ← readOpcode checkOpcode
  let credit : UInt16 ← streamRead
  Reader.failIf (credit = 0) .BLOCK_CREDIT
  let counter : UInt32 ← streamRead
  let timestamp : UInt64 ← streamRead
  let height : UInt64 ← streamRead
  let account : Account ← streamRead
  let previous : BlockHash ← streamRead
  let balance : Amount ← streamRead
  let link : Uint256 ← streamRead
  let chain ← readChain opcode
  let signature : Signature ← streamRead
  -- without a chain it was set to `INVALID` above
  if h : opcode ≠ .bind → chain = Chain.INVALID then
    return ⟨opcode, credit, counter, timestamp, height, account, previous, balance, link, chain,
      signature, h⟩
  else throw .BLOCK_CHAIN

def Checked (b : RepBlock) : Prop :=
  checkOpcode b.opcode = false ∧ b.credit ≠ 0 ∧ (b.opcode = .bind → b.chain ≠ Chain.INVALID)

end RepBlock

namespace AdBlock

def serialize (b : AdBlock) : List UInt8 :=
  [streamWrite (UInt8.ofNat BlockType.adBlock.number), streamWrite (UInt8.ofNat b.opcode.number),
    streamWrite b.credit, streamWrite b.counter, streamWrite b.timestamp, streamWrite b.height,
    streamWrite b.account, streamWrite b.previous, streamWrite b.representative,
    streamWrite b.balance, streamWrite b.link, streamWrite b.signature].flatten

def deserialize : StreamM AdBlock := do
  let opcode ← readOpcode checkOpcode
  let credit : UInt16 ← streamRead
  Reader.failIf (credit = 0) .BLOCK_CREDIT
  let counter : UInt32 ← streamRead
  Reader.failIf (counter = 0) .BLOCK_COUNTER
  let timestamp : UInt64 ← streamRead
  let height : UInt64 ← streamRead
  let account : Account ← streamRead
  let previous : BlockHash ← streamRead
  let representative : Account ← streamRead
  let balance : Amount ← streamRead
  let link : Uint256 ← streamRead
  let signature : Signature ← streamRead
  return ⟨opcode, credit, counter, timestamp, height, account, previous, representative, balance,
    link, signature⟩

def Checked (b : AdBlock) : Prop :=
  checkOpcode b.opcode = false ∧ b.credit ≠ 0 ∧ b.counter ≠ 0

end AdBlock

namespace Block

def serialize : Block → List UInt8
  | .tx b => b.serialize
  | .rep b => b.serialize
  | .ad b => b.serialize

def Checked : Block → Prop
  | .tx b => b.Checked
  | .rep b => b.Checked
  | .ad b => b.Checked

end Block

def deserializeBlockUnverify : StreamM Block := do
  let type : UInt8 ← streamRead
  if type = UInt8.ofNat BlockType.txBlock.number then do
    let block ← TxBlock.deserialize
    return .tx block
  else if type = UInt8.ofNat BlockType.repBlock.number then do
    let block ← RepBlock.deserialize
    return .rep block
  else if type = UInt8.ofNat BlockType.adBlock.number then do
    let block ← AdBlock.deserialize
    return .ad block
  else throw .BLOCK_TYPE

def deserializeBlock (env : Env) : StreamM Block := do
  let block ← deserializeBlockUnverify
  Reader.failIf (env.checkSignature block = true) .SIGNATURE
  return block

-- A block as it comes from a peer.
def Block.Verified (env : Env) (b : Block) : Prop := b.Checked ∧ env.checkSignature b = false

section Inverts

theorem readOpcode_inverts {checkOpcode : BlockOpcode → Bool} (h : checkOpcode .invalid = true) :
    Inverts (readOpcode checkOpcode) (fun opcode => streamWrite (UInt8.ofNat opcode.number))
      fun opcode => checkOpcode opcode = false := by
  have hto (opcode : BlockOpcode) : .ofNumber (UInt8.ofNat opcode.number) = opcode := by
    cases opcode <;> rfl
  have hfrom {number : UInt8} (hnumber : BlockOpcode.ofNumber number ≠ .invalid) :
      UInt8.ofNat (BlockOpcode.ofNumber number).number = number := by
    unfold BlockOpcode.ofNumber at hnumber ⊢
    split_ifs at hnumber ⊢ <;> simp_all [BlockOpcode.number]
  refine .congr ?_ (fun opcode _ => (List.append_nil _).symm) fun opcode => Iff.rfl
  refine .bind (fun opcode : BlockOpcode => UInt8.ofNat opcode.number) streamRead_inverts (fun _ _ => trivial)
    fun number _ => ?_
  refine .guard (fun opcode hopcode => ?_) fun hcheck => ?_
  · rw [← hopcode.2, hto, hopcode.1]
    decide
  · rw [Bool.not_eq_true] at hcheck
    refine .done ⟨hcheck, hfrom fun hinvalid => ?_⟩ fun opcode hopcode => ?_
    · rw [hinvalid, h] at hcheck
      cases hcheck
    · rw [← hopcode.2, hto]

namespace TxBlock

-- What stands behind the type.
private def body (b : TxBlock) : List UInt8 :=
  [streamWrite (UInt8.ofNat b.opcode.number), streamWrite b.credit, streamWrite b.counter,
    streamWrite b.timestamp, streamWrite b.height, streamWrite b.account, streamWrite b.previous,
    streamWrite b.representative, streamWrite b.balance, streamWrite b.link,
    streamWrite (UInt32.ofNat b.extensions.length), b.extensions, streamWrite b.signature].flatten

private theorem extensionsLength_toNat (b : TxBlock) :
    (UInt32.ofNat b.extensions.length).toNat = b.extensions.length := by
  have hle := b.extensions_le
  unfold MAX_EXTENSIONS_SIZE at hle
  exact UInt32.toNat_ofNat_of_lt' (by simp [UInt32.size]; omega)

private theorem deserialize_inverts : Inverts deserialize body Checked := by
  unfold deserialize body
  simp only [List.flatten_cons, List.flatten_nil]
  refine .bind TxBlock.opcode (readOpcode_inverts rfl) (fun b hb => hb.1) fun opcode hopcode => ?_
  refine .bind TxBlock.credit streamRead_inverts (fun _ _ => trivial) fun credit _ => ?_
  refine .guard (fun b hb => hb.2 ▸ hb.1.1.2.1) fun hcredit => ?_
  refine .bind TxBlock.counter streamRead_inverts (fun _ _ => trivial) fun counter _ => ?_
  refine .guard (fun b hb => hb.2 ▸ hb.1.1.1.2.2) fun hcounter => ?_
  refine .bind TxBlock.timestamp streamRead_inverts (fun _ _ => trivial) fun timestamp _ => ?_
  refine .bind TxBlock.height streamRead_inverts (fun _ _ => trivial) fun height _ => ?_
  refine .bind TxBlock.account streamRead_inverts (fun _ _ => trivial) fun account _ => ?_
  refine .bind TxBlock.previous streamRead_inverts (fun _ _ => trivial) fun previous _ => ?_
  refine .bind TxBlock.representative streamRead_inverts (fun _ _ => trivial)
    fun representative _ => ?_
  refine .bind TxBlock.balance streamRead_inverts (fun _ _ => trivial) fun balance _ => ?_
  refine .bind TxBlock.link streamRead_inverts (fun _ _ => trivial) fun link _ => ?_
  refine .bind (fun b : TxBlock => UInt32.ofNat b.extensions.length) streamRead_inverts (fun _ _ => trivial)
    fun length _ => ?_
  refine .guard (fun b hb => ?_) fun hlength => ?_
  · rw [← hb.2, checkExtensionsLength, extensionsLength_toNat]
    simpa using b.extensions_le
  refine .bind TxBlock.extensions (streamReadBytes_inverts _) (fun b hb => ?_)
    fun extensions hextensions => ?_
  · rw [← hb.2, extensionsLength_toNat]
  refine .bind TxBlock.signature streamRead_inverts (fun _ _ => trivial) fun signature _ => ?_
  have hle : extensions.length ≤ MAX_EXTENSIONS_SIZE := by
    simpa [checkExtensionsLength, hextensions] using hlength
  rw [dif_pos hle]
  refine .done ?_ fun b hb => ?_
  · simp [Checked, hopcode, hcredit, hcounter, hextensions]
  · cases b
    simp_all

end TxBlock

namespace RepBlock

private def body (b : RepBlock) : List UInt8 :=
  [streamWrite (UInt8.ofNat b.opcode.number), streamWrite b.credit, streamWrite b.counter,
    streamWrite b.timestamp, streamWrite b.height, streamWrite b.account, streamWrite b.previous,
    streamWrite b.balance, streamWrite b.link,
    if hasChain b.opcode = true then streamWrite b.chain else [], streamWrite b.signature].flatten

private theorem readChain_inverts (opcode : BlockOpcode) :
    Inverts (readChain opcode) (fun chain => if hasChain opcode = true then streamWrite chain else [])
      fun chain => opcode = .bind ↔ chain ≠ Chain.INVALID := by
  unfold readChain
  by_cases hop : hasChain opcode = true
  · have hbind : opcode = .bind := by simpa [hasChain] using hop
    simp only [hop, if_true]
    refine .congr ?_ (fun chain _ => (List.append_nil _).symm) fun chain => Iff.rfl
    refine .bind (fun chain : Chain => chain) streamRead_inverts (fun _ _ => trivial)
      fun chain _ => ?_
    refine .guard (fun c hc => hc.2 ▸ hc.1.mp hbind) fun hchain => ?_
    exact .done ⟨⟨fun _ => hchain, fun _ => hbind⟩, rfl⟩ fun c hc => hc.2
  · have hbind : opcode ≠ .bind := by simpa [hasChain] using hop
    simp only [hop]
    exact .done (by simp [hbind]) fun c hc => by simpa [hbind] using hc

private theorem deserialize_inverts : Inverts deserialize body Checked := by
  unfold deserialize body
  simp only [List.flatten_cons, List.flatten_nil]
  refine .bind RepBlock.opcode (readOpcode_inverts rfl) (fun b hb => hb.1) fun opcode hopcode => ?_
  refine .bind RepBlock.credit streamRead_inverts (fun _ _ => trivial) fun credit _ => ?_
  refine .guard (fun b hb => hb.2 ▸ hb.1.1.2.1) fun hcredit => ?_
  refine .bind RepBlock.counter streamRead_inverts (fun _ _ => trivial) fun counter _ => ?_
  refine .bind RepBlock.timestamp streamRead_inverts (fun _ _ => trivial) fun timestamp _ => ?_
  refine .bind RepBlock.height streamRead_inverts (fun _ _ => trivial) fun height _ => ?_
  refine .bind RepBlock.account streamRead_inverts (fun _ _ => trivial) fun account _ => ?_
  refine .bind RepBlock.previous streamRead_inverts (fun _ _ => trivial) fun previous _ => ?_
  refine .bind RepBlock.balance streamRead_inverts (fun _ _ => trivial) fun balance _ => ?_
  refine .bind RepBlock.link streamRead_inverts (fun _ _ => trivial) fun link _ => ?_
  refine .congr (?_ : Inverts _ (fun b : RepBlock => (if hasChain opcode = true then
    streamWrite b.chain else []) ++ (streamWrite b.signature ++ [])) _) (fun b hb => ?_)
    fun b => Iff.rfl
  · refine .bind RepBlock.chain (readChain_inverts opcode) (fun b hb => ?_) fun chain hchain => ?_
    · obtain ⟨⟨⟨⟨⟨⟨⟨⟨⟨hchecked, rfl⟩, -⟩, -⟩, -⟩, -⟩, -⟩, -⟩, -⟩, -⟩ := hb
      exact ⟨hchecked.2.2, fun hne => Decidable.not_not.mp fun hop => hne (b.chain_eq hop)⟩
    refine .bind RepBlock.signature streamRead_inverts (fun _ _ => trivial) fun signature _ => ?_
    have heq : opcode ≠ .bind → chain = Chain.INVALID := fun hop =>
      Decidable.not_not.mp fun hne => hop (hchain.mpr hne)
    rw [dif_pos heq]
    refine .done ?_ fun b hb => ?_
    · simp only [Checked, hopcode, and_true, true_and]
      exact ⟨hcredit, hchain.mp⟩
    · cases b
      simp_all
  · obtain ⟨⟨⟨⟨⟨⟨⟨⟨⟨-, rfl⟩, -⟩, -⟩, -⟩, -⟩, -⟩, -⟩, -⟩, -⟩ := hb
    rfl

end RepBlock

namespace AdBlock

private def body (b : AdBlock) : List UInt8 :=
  [streamWrite (UInt8.ofNat b.opcode.number), streamWrite b.credit, streamWrite b.counter,
    streamWrite b.timestamp, streamWrite b.height, streamWrite b.account, streamWrite b.previous,
    streamWrite b.representative, streamWrite b.balance, streamWrite b.link,
    streamWrite b.signature].flatten

private theorem deserialize_inverts : Inverts deserialize body Checked := by
  unfold deserialize body
  simp only [List.flatten_cons, List.flatten_nil]
  refine .bind AdBlock.opcode (readOpcode_inverts rfl) (fun b hb => hb.1) fun opcode hopcode => ?_
  refine .bind AdBlock.credit streamRead_inverts (fun _ _ => trivial) fun credit _ => ?_
  refine .guard (fun b hb => hb.2 ▸ hb.1.1.2.1) fun hcredit => ?_
  refine .bind AdBlock.counter streamRead_inverts (fun _ _ => trivial) fun counter _ => ?_
  refine .guard (fun b hb => hb.2 ▸ hb.1.1.1.2.2) fun hcounter => ?_
  refine .bind AdBlock.timestamp streamRead_inverts (fun _ _ => trivial) fun timestamp _ => ?_
  refine .bind AdBlock.height streamRead_inverts (fun _ _ => trivial) fun height _ => ?_
  refine .bind AdBlock.account streamRead_inverts (fun _ _ => trivial) fun account _ => ?_
  refine .bind AdBlock.previous streamRead_inverts (fun _ _ => trivial) fun previous _ => ?_
  refine .bind AdBlock.representative streamRead_inverts (fun _ _ => trivial)
    fun representative _ => ?_
  refine .bind AdBlock.balance streamRead_inverts (fun _ _ => trivial) fun balance _ => ?_
  refine .bind AdBlock.link streamRead_inverts (fun _ _ => trivial) fun link _ => ?_
  refine .bind AdBlock.signature streamRead_inverts (fun _ _ => trivial) fun signature _ => ?_
  refine .done ?_ fun b hb => ?_
  · simp [Checked, hopcode, hcredit, hcounter]
  · cases b
    simp_all

end AdBlock

-- The codec of blocks: reading undoes writing, and accepts nothing else.
theorem deserializeBlockUnverify_inverts :
    Inverts deserializeBlockUnverify Block.serialize Block.Checked := by
  have htype : Inverts deserializeBlockUnverify (fun b : Block =>
      streamWrite (UInt8.ofNat b.type.number) ++ match b with
        | .tx b => b.body
        | .rep b => b.body
        | .ad b => b.body) Block.Checked := by
    refine .bind (fun b : Block => UInt8.ofNat b.type.number) streamRead_inverts
      (fun _ _ => trivial) fun type _ => ?_
    split_ifs with htx hrep had
    · subst htx
      refine TxBlock.deserialize_inverts.inject (fun b => ?_) fun _ _ => rfl
      cases b <;> simp [Block.Checked, Block.type, BlockType.number]
    · subst hrep
      refine RepBlock.deserialize_inverts.inject (fun b => ?_) fun _ _ => rfl
      cases b <;> simp [Block.Checked, Block.type, BlockType.number]
    · subst had
      refine AdBlock.deserialize_inverts.inject (fun b => ?_) fun _ _ => rfl
      cases b <;> simp [Block.Checked, Block.type, BlockType.number]
    · refine .fail fun b hb => ?_
      obtain ⟨-, hnumber⟩ := hb
      cases b <;> simp_all [Block.type]
  refine htype.congr (fun b _ => ?_) fun b => Iff.rfl
  cases b <;> rfl

theorem deserializeBlock_inverts (env : Env) :
    Inverts (deserializeBlock env) Block.serialize (Block.Verified env) := by
  refine .congr ?_ (fun b _ => (List.append_nil _).symm) fun b => Iff.rfl
  refine .bind (fun b : Block => b) deserializeBlockUnverify_inverts (fun b hb => hb.1)
    fun b hb => ?_
  refine .guard (fun c hc => by simpa using hc.2 ▸ hc.1.2) fun hsignature => ?_
  exact .done ⟨⟨hb, by simpa using hsignature⟩, rfl⟩ fun c hc => hc.2

end Inverts

-- The signature is what the bytes of a block have more than the input of its hash.
theorem Block.serialize_eq (b : Block) : b.serialize = b.hashInput ++ streamWrite b.signature := by
  have hbyte (number : Nat) : streamWrite (UInt8.ofNat number) = bigEndian 1 number := by
    simp only [streamWrite, Wire.toNat, Wire.size, bigEndian, Nat.pow_zero, Nat.div_one]
    exact congrArg (fun byte => [byte]) UInt8.ofNat_toNat
  cases b with
  | tx b =>
      have hlength : streamWrite (UInt32.ofNat b.extensions.length) =
          bigEndian 4 b.extensions.length := by
        rw [streamWrite, Wire.toNat]
        exact congrArg (bigEndian 4) b.extensionsLength_toNat
      simp only [serialize, TxBlock.serialize, hlength, hbyte, hashInput, hashHeader,
        List.flatten_cons, List.flatten_nil, List.append_assoc, List.append_nil]
      rfl
  | rep b =>
      simp only [serialize, RepBlock.serialize, hbyte, hashInput, hashHeader, List.flatten_cons,
        List.flatten_nil, List.append_assoc, List.append_nil, RepBlock.hasChain,
        decide_eq_true_eq]
      rfl
  | ad b =>
      simp only [serialize, AdBlock.serialize, hbyte, hashInput, hashHeader, List.flatten_cons,
        List.flatten_nil, List.append_assoc, List.append_nil]
      rfl

end Raicoin
