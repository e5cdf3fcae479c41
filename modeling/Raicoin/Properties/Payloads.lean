import Raicoin.Token.PayloadSpec

-- What a payload of the TOKEN extension means is written in one way only, unless the index
-- at its end is cut.
namespace Raicoin

open Lib Payload

-- Whatever the index held before, what is accepted is the encoding of the operation that
-- it was read as exactly if no part of an index was cut off; and every operation that
-- passes its checks is read from its encoding.
theorem payload_reencodes (validPublicKey : PublicKey → Bool) (unset : UInt64) :
    (∀ value,
      (∀ token, Payload.ExtensionToken.fromExtension validPublicKey unset value = .ok token →
        token.checkData validPublicKey = .ok () ∧ token.extensionValue = value) ↔
      ¬Payload.ExtensionToken.CutIndex validPublicKey value) ∧
    (∀ token : Payload.ExtensionToken, token.checkData validPublicKey = .ok () → token.Short →
      Payload.ExtensionToken.fromExtension validPublicKey unset token.extensionValue = .ok token) := by
  refine ⟨fun value => ⟨fun h hcut => ?_, fun hcut token h => ?_⟩, fun token hcheck hshort => ?_⟩
  · obtain ⟨token, hread⟩ :=
      @Payload.ExtensionToken.fromExtension_cut validPublicKey unset _ hcut
    obtain ⟨hsound, -⟩ := Payload.ExtensionToken.fromExtension_written hread
    obtain ⟨-, rfl⟩ := h token hread
    obtain ⟨whole, hwhole, hends, missing, hne, -, hvalue⟩ := hcut
    exact hne (Payload.ExtensionToken.extensionValue_append hsound ⟨hwhole, hends.short⟩ hvalue)
  · obtain ⟨hsound, hvalue | hcuts⟩ := Payload.ExtensionToken.fromExtension_written h
    · exact ⟨hsound.1, hvalue.symm⟩
    · exact absurd ⟨token, hsound.1, hcuts⟩ hcut
  · exact Payload.ExtensionToken.fromExtension_extensionValue ⟨hcheck, hshort⟩

-- A receive of what an event on chain 3 mapped.
def sampleMap : Payload.ExtensionTokenReceive where
  token := ⟨.ETHEREUM, .T20, 7⟩
  source := .MAP
  from_ := 5
  blockHeight := 9
  txHash := 11
  value := 100
  unwrapChain := .INVALID
  index := 0
  unwrapChain_eq _ := rfl
  index_eq _ := rfl

-- Without the eight bytes of its index it is accepted, and it is written with them.
theorem cut_index_accepted :
    Payload.ExtensionToken.fromExtension (fun _ => true) 0 (Op.RECEIVE :: sampleMap.head) =
        .ok (.receive sampleMap) ∧
      (Payload.ExtensionToken.receive sampleMap).extensionValue =
        Op.RECEIVE :: sampleMap.head ++ [0, 0, 0, 0, 0, 0, 0, 0] := by
  decide +kernel

end Raicoin
