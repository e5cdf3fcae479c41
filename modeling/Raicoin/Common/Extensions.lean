import Raicoin.Common.Parameters
import Raicoin.Common.Stream

-- The extensions of a block: records of a type and a value, one after the other.
namespace Raicoin

open Lib

structure Extension where
  type : UInt16
  value : List UInt8
  deriving DecidableEq

-- `rai::Extensions`.
abbrev ExtensionList := List Extension

namespace Extension

def INVALID : UInt16 := 0

def serialSize (extension : Extension) : Nat := 2 + 2 + extension.value.length

def write (extension : Extension) : List UInt8 :=
  streamWrite extension.type ++ streamWrite (UInt16.ofNat extension.value.length) ++ extension.value

-- What a record can hold.
def Valid (extension : Extension) : Prop :=
  extension.type ≠ INVALID ∧ extension.value.length < 2 ^ 16

def readValue : StreamM (List UInt8) := do
  let length : UInt16 ← streamRead
  streamReadBytes length.toNat

theorem write_length (extension : Extension) : extension.write.length = extension.serialSize := by
  rw [write, List.length_append, List.length_append, streamWrite_length, streamWrite_length]
  rfl

theorem readValue_inverts : Inverts readValue
    (fun value : List UInt8 => streamWrite (UInt16.ofNat value.length) ++ value)
    fun value => value.length < 2 ^ 16 := by
  refine .bind (fun value : List UInt8 => UInt16.ofNat value.length) streamRead_inverts
    (fun _ _ => trivial) fun length _ => ?_
  refine (streamReadBytes_inverts length.toNat).congr (fun value _ => rfl) fun value => ?_
  constructor
  · rintro ⟨hlt, rfl⟩
    exact (UInt16.toNat_ofNat_of_lt' hlt).symm
  · intro hlength
    have hlt := length.toNat_lt
    exact ⟨by omega, by rw [hlength, UInt16.ofNat_toNat]⟩

end Extension

theorem streamRead_length {s rest : List UInt8} {type : UInt16}
    (h : (streamRead : StreamM UInt16) s = .ok type rest) : rest.length + 2 = s.length := by
  obtain ⟨-, rfl⟩ := streamRead_inverts.sound s type rest h
  rw [List.length_append, streamWrite_length, Nat.add_comm]
  rfl

theorem readValue_length {s rest value : List UInt8}
    (h : Extension.readValue s = .ok value rest) : rest.length ≤ s.length := by
  obtain ⟨-, rfl⟩ := Extension.readValue_inverts.sound s value rest h
  rw [List.length_append]
  exact Nat.le_add_left _ _

-- `StreamEnd`: nothing more can be read.
def streamEnd (stream : List UInt8) : Bool := stream.isEmpty

-- The loop of `Extensions::FromBytes`. A type that is cut off has been consumed too.
def readExtensions (stream : List UInt8) (count : Nat) (extensions : ExtensionList) :
    Except ErrorCode (Nat × ExtensionList) :=
  match _htype : (streamRead : StreamM UInt16) stream with
  | .error _ rest =>
    if streamEnd rest then .ok (count, extensions) else .error .EXTENSIONS_BROKEN_STREAM
  | .ok type rest =>
    if type = Extension.INVALID then .error .EXTENSION_TYPE
    else
      match hvalue : Extension.readValue rest with
      | .error _ _ => .error .EXTENSIONS_BROKEN_STREAM
      | .ok value rest' =>
        readExtensions rest' (count + 2 + 2 + value.length) (extensions ++ [⟨type, value⟩])
termination_by stream.length
decreasing_by
  have hless := streamRead_length _htype
  have hle := readValue_length hvalue
  omega

namespace ExtensionList

def serialSize (extensions : ExtensionList) : Nat := (extensions.map Extension.serialSize).sum

def bytes (extensions : ExtensionList) : List UInt8 := extensions.flatMap Extension.write

def append (extension : Extension) : Process ErrorCode ExtensionList Unit := do
  check fun _ => returnIf (extension.type = Extension.INVALID) .EXTENSION_TYPE
  check fun extensions => returnIf
    (serialSize extensions + extension.serialSize > MAX_EXTENSIONS_SIZE) .EXTENSIONS_LENGTH
  modify fun extensions => extensions ++ [extension]

-- `Extensions::FromBytes`, which leaves an object alone when there are no bytes.
def fromBytes (bytes : List UInt8) : Process ErrorCode ExtensionList Unit :=
  if bytes.isEmpty then return
  else do
    check fun _ => returnIf (bytes.length > MAX_EXTENSIONS_SIZE) .EXTENSIONS_LENGTH
    let (count, extensions) ← check fun _ => readExtensions bytes 0 []
    check fun _ => returnIf (count ≠ bytes.length) .EXTENSIONS_BROKEN_STREAM
    set extensions

end ExtensionList

-- `ExtensionAppend`: whether there is an error, and the bytes after the call.
def extensionAppend (extension : Extension) (bytes : List UInt8) : Bool × List UInt8 :=
  match ExtensionList.fromBytes bytes [] with
  | .error _ _ => (true, bytes)
  | .ok _ extensions =>
    match ExtensionList.append extension extensions with
    | .error _ _ => (true, bytes)
    | .ok _ extensions => (false, ExtensionList.bytes extensions)

end Raicoin
