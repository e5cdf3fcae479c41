import Raicoin.App.Ledger
import Raicoin.Common.Extensions
import Raicoin.Secure.AliasIndex

-- The ledger of the alias application, and what a block's alias extension does to it.
namespace Raicoin

open Lib Scans

-- `ExtensionType::ALIAS`
def Extension.ALIAS : UInt16 := 3

namespace ExtensionList

def count (type : UInt16) (extensions : ExtensionList) : Nat :=
  (extensions.filter fun extension => extension.type = type).length

-- The first of the type, or an empty one.
def get (type : UInt16) (extensions : ExtensionList) : Extension :=
  (extensions.find? fun extension => extension.type = type).getD ⟨Extension.INVALID, []⟩

end ExtensionList

-- `ExtensionAlias::Op`, one byte.
inductive AliasOp where
  | invalid
  | name
  | dns
  | other (byte : UInt8)
  deriving DecidableEq

def AliasOp.ofByte (byte : UInt8) : AliasOp :=
  if byte = 0 then .invalid else if byte = 1 then .name else if byte = 2 then .dns else .other byte

structure ExtensionAlias where
  op : AliasOp
  opValue : Text
  deriving DecidableEq

namespace ExtensionAlias

def fromExtension (extension : Extension) : Except ErrorCode ExtensionAlias :=
  if extension.type ≠ Extension.ALIAS then .error .EXTENSION_TYPE
  else
    match extension.value with
    | [] => .ok ⟨.invalid, []⟩
    | op :: opValue => .ok ⟨.ofByte op, opValue⟩

-- `'@'` is 64 and `'_'` is 95.
def checkText (value : Text) : Except ErrorCode Unit := do
  let ctrl ← orReturn (checkUtf8 value) .UTF8_CHECK
  returnIf (ctrl = true) .UTF8_CONTROL_CHARACTER
  returnIf (64 ∈ value) .ALIAS_RESERVED_CHARACTOR_AT

def checkData (alias_ : ExtensionAlias) : Except ErrorCode Unit :=
  match alias_.op with
  | .invalid => .error .ALIAS_OP_INVALID
  | .name => checkText alias_.opValue
  | .dns => do
    checkText alias_.opValue
    returnIf (95 ∈ alias_.opValue) .ALIAS_RESERVED_CHARACTOR_UNDERSCORE
  | .other _ => .error .ALIAS_OP_UNKNOWN

-- The operation of a block, or what is wrong with it.
def ofExtensions (extensions : ExtensionList) : Except ErrorCode ExtensionAlias := do
  returnIf (extensions.count Extension.ALIAS ≠ 1) .ALIAS_MULTI_EXTENSIONS
  let alias_ ← fromExtension (extensions.get Extension.ALIAS)
  checkData alias_
  return alias_

end ExtensionAlias

structure AliasInfo where
  head : UInt64
  nameValid : UInt64
  dnsValid : UInt64
  name : Text
  dns : Text
  deriving DecidableEq

namespace AliasInfo

def INVALID_HEIGHT : UInt64 := 0xffffffffffffffff

-- The constructor.
def new : AliasInfo := ⟨INVALID_HEIGHT, INVALID_HEIGHT, INVALID_HEIGHT, [], []⟩

-- `rai::Write(stream, size, data)`, where the size has 16 bits.
def writeText (text : Text) : List UInt8 :=
  let size := UInt16.ofNat text.length
  streamWrite size ++ text.take size.toNat

def serialize (info : AliasInfo) : List UInt8 :=
  streamWrite info.head ++ (streamWrite info.nameValid ++ (streamWrite info.dnsValid ++
    (writeText info.name ++ writeText info.dns)))

def deserialize : StreamM AliasInfo := do
  let head ← streamRead
  let nameValid ← streamRead
  let dnsValid ← streamRead
  let name ← Extension.readValue
  let dns ← Extension.readValue
  return { head, nameValid, dnsValid, name, dns }

end AliasInfo

-- No status stands for `SUCCESS`.
structure AliasBlock where
  previous : UInt64
  hash : BlockHash
  status : Option ErrorCode
  op : AliasOp
  value : Text
  deriving DecidableEq

structure AliasLedger where
  infos : Table Account (List UInt8)
  blocks : Table (Account × UInt64) AliasBlock
  index : KeyTable AliasIndex
  dnsIndex : KeyTable AliasIndex

-- The writes that a transaction may refuse.
inductive AliasCall where
  | indexDel
  | indexPut
  | dnsIndexDel
  | dnsIndexPut
  | blockPut
  | infoPut
  deriving DecidableEq

namespace AliasLedger

def empty : AliasLedger := ⟨.empty, .empty, .empty, .empty⟩

variable (fails : AliasCall → Bool) (l : AliasLedger)

def aliasInfoGet (account : Account) : Option AliasInfo := do
  let bytes ← l.infos.get account
  ByteTables.parse AliasInfo.deserialize bytes

def aliasInfoPut (account : Account) (info : AliasInfo) : Option AliasLedger :=
  if fails .infoPut then none else some { l with infos := l.infos.put account info.serialize }

def aliasBlockPut (account : Account) (height : UInt64) (block : AliasBlock) : Option AliasLedger :=
  if fails .blockPut then none else some { l with blocks := l.blocks.put (account, height) block }

end AliasLedger

namespace Scans.KeyTable

variable (fails : AliasCall → Bool) (t : KeyTable AliasIndex)

def aliasPut (call : AliasCall) (index : AliasIndex) : Option (KeyTable AliasIndex) :=
  if fails call then none else some (t.put index)

-- A key that is not there cannot be deleted.
def aliasDel (call : AliasCall) (index : AliasIndex) : Option (KeyTable AliasIndex) :=
  if fails call ∨ StoreKey.serialize index ∉ t.keys then none else some (t.del index)

-- An empty text has no entry.
def dropEntry (del : AliasCall) (account : Account) (old : Text) :
    Except ErrorCode (KeyTable AliasIndex) :=
  if old.isEmpty then .ok t
  else orReturn (t.aliasDel fails del (.make (.ofBytes old) account)) .APP_PROCESS_LEDGER_DEL

def addEntry (put : AliasCall) (account : Account) (new : Text) :
    Except ErrorCode (KeyTable AliasIndex) :=
  if new.isEmpty then .ok t
  else orReturn (t.aliasPut fails put (.make (.ofBytes new) account)) .APP_PROCESS_LEDGER_PUT

-- The entry of a text gives way to the entry of the next one.
def reindex (del put : AliasCall) (account : Account) (old new : Text) :
    Except ErrorCode (KeyTable AliasIndex) := do
  let t ← t.dropEntry fails del account old
  t.addEntry fails put account new

end Scans.KeyTable

namespace AliasLedger

variable (env : Env) (fails : AliasCall → Bool)

-- The tables that an operation changes, once it has been found right.
def applyIndex (account : Account) (info : AliasInfo) (l : AliasLedger) :
    Except ErrorCode ExtensionAlias → Except ErrorCode AliasLedger
  | .ok ⟨.name, value⟩ => do
    let index ← l.index.reindex fails .indexDel .indexPut account info.name value
    return { l with index }
  | .ok ⟨.dns, value⟩ => do
    let dnsIndex ← l.dnsIndex.reindex fails .dnsIndexDel .dnsIndexPut account info.dns value
    return { l with dnsIndex }
  | _ => return l

-- What is recorded of a block. Of an operation that is wrong, nothing but the error is kept.
def blockOf (block : Block) (info : AliasInfo) : Except ErrorCode ExtensionAlias → AliasBlock
  | .ok alias_ => ⟨info.head, env.hash block, none, alias_.op, alias_.opValue⟩
  | .error code => ⟨info.head, env.hash block, some code, .invalid, []⟩

def infoAfter (height : UInt64) (info : AliasInfo) : Except ErrorCode ExtensionAlias → AliasInfo
  | .ok ⟨.name, value⟩ => { info with head := height, name := value, nameValid := height }
  | .ok ⟨.dns, value⟩ => { info with head := height, dns := value, dnsValid := height }
  | _ => { info with head := height }

-- `Alias::Process`.
def process (block : Block) (extensions : ExtensionList) (l : AliasLedger) :
    Except ErrorCode AliasLedger :=
  let account := block.account
  let height := UInt64.ofNat block.height
  let found := l.aliasInfoGet account
  let info := found.getD .new
  if found.isSome ∧ info.head ≥ height then return l
  else do
    let operation := ExtensionAlias.ofExtensions extensions
    let l ← l.applyIndex fails account info operation
    let l ← orReturn (l.aliasBlockPut fails account height (blockOf env block info operation))
      .APP_PROCESS_LEDGER_PUT
    orReturn (l.aliasInfoPut fails account (infoAfter height info operation))
      .APP_PROCESS_LEDGER_PUT

-- A transaction that ends with an error is aborted.
def committed (l : AliasLedger) : Except ErrorCode AliasLedger → AliasLedger
  | .ok l' => l'
  | .error _ => l

end AliasLedger

-- Only a TX block is written with extensions.
def Block.extensionBytes : Block → List UInt8
  | .tx block => block.extensions
  | _ => []

-- The extensions of a block that holds one of an alias.
def aliasExtensions (block : Block) : Option ExtensionList :=
  match ExtensionList.fromBytes block.extensionBytes [] with
  | .error _ _ => none
  | .ok _ extensions => if extensions.count Extension.ALIAS = 0 then none else some extensions

-- The handlers of `rai::Alias`.
def aliasHooks (env : Env) : AppHooks (AliasCall → Bool) AliasLedger where
  accountTypes := [.txBlock, .repBlock]
  preBlockAppend block confirmed _ :=
    returnIf (confirmed = false ∧ (aliasExtensions block).isSome) .APP_PROCESS_CONFIRM_REQUIRED
  afterBlockAppend fails _ block confirmed l :=
    match aliasExtensions block with
    | none => .ok l
    | some extensions => do
      returnIf (confirmed = false) .APP_PROCESS_CONFIRM_REQUIRED
      l.process env fails block extensions
  preBlockRollback block l :=
    match l.aliasInfoGet block.account with
    | none => .ok ()
    | some info =>
      returnIf (info.head ≠ AliasInfo.INVALID_HEIGHT ∧ info.head ≥ UInt64.ofNat block.height)
        .APP_PROCESS_HALT

end Raicoin
