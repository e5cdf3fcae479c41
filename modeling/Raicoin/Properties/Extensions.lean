import Raicoin.Common.Extensions

-- The bytes that hold extensions are those that are records, one after the other.
namespace Raicoin

open Lib

namespace ExtensionList

theorem bytes_length (extensions : ExtensionList) :
    extensions.bytes.length = extensions.serialSize := by
  rw [bytes, serialSize, List.length_flatMap]
  exact congrArg List.sum (List.map_congr_left fun extension _ => extension.write_length)

theorem bytes_append (extensions others : ExtensionList) :
    bytes (extensions ++ others) = extensions.bytes ++ others.bytes :=
  List.flatMap_append

theorem bytes_cons (extension : Extension) (extensions : ExtensionList) :
    bytes (extension :: extensions) = extension.write ++ extensions.bytes := rfl

theorem serialSize_cons (extension : Extension) (extensions : ExtensionList) :
    serialSize (extension :: extensions) = extension.serialSize + extensions.serialSize := rfl

-- Bytes that are records, each with a type and with a length that says how long its value is.
def Records (bytes : List UInt8) : Prop :=
  ∃ extensions : ExtensionList, (∀ extension ∈ extensions, extension.Valid) ∧
    extensions.bytes = bytes

end ExtensionList

section Rounds

variable {stream rest rest' value : List UInt8} {type : UInt16} {code : ErrorCode} (count : Nat)
  (extensions : ExtensionList)

-- A round for which there is no type.
theorem readExtensions_end (h : (streamRead : StreamM UInt16) stream = .error code rest) :
    readExtensions stream count extensions =
      if streamEnd rest then .ok (count, extensions) else .error .EXTENSIONS_BROKEN_STREAM := by
  rw [readExtensions]
  split
  · rename_i hread
    cases h.symm.trans hread
    rfl
  · rename_i hread
    cases h.symm.trans hread

theorem readExtensions_type (h : (streamRead : StreamM UInt16) stream = .ok type rest)
    (htype : type = Extension.INVALID) :
    readExtensions stream count extensions = .error .EXTENSION_TYPE := by
  rw [readExtensions]
  split
  · rename_i hread
    cases h.symm.trans hread
  · rename_i hread
    cases h.symm.trans hread
    exact if_pos htype

-- A round for which there is no value.
theorem readExtensions_cut (h : (streamRead : StreamM UInt16) stream = .ok type rest)
    (htype : type ≠ Extension.INVALID) (hvalue : Extension.readValue rest = .error code rest') :
    readExtensions stream count extensions = .error .EXTENSIONS_BROKEN_STREAM := by
  rw [readExtensions]
  split
  · rename_i hread
    cases h.symm.trans hread
  · rename_i hread
    cases h.symm.trans hread
    rw [if_neg htype]
    split
    · rfl
    · rename_i hread
      cases hvalue.symm.trans hread

theorem readExtensions_next (h : (streamRead : StreamM UInt16) stream = .ok type rest)
    (htype : type ≠ Extension.INVALID) (hvalue : Extension.readValue rest = .ok value rest') :
    readExtensions stream count extensions =
      readExtensions rest' (count + 2 + 2 + value.length) (extensions ++ [⟨type, value⟩]) := by
  rw [readExtensions]
  split
  · rename_i hread
    cases h.symm.trans hread
  · rename_i hread
    cases h.symm.trans hread
    rw [if_neg htype]
    split
    · rename_i hread
      cases hvalue.symm.trans hread
    · rename_i hread
      cases hvalue.symm.trans hread
      rfl

end Rounds

-- What the loop takes: whole records, and what is left when there is no further type.
theorem readExtensions_sound (length : Nat) {stream : List UInt8} (hlength : stream.length = length)
    {count count' : Nat} {extensions extensions' : ExtensionList}
    (h : readExtensions stream count extensions = .ok (count', extensions')) :
    ∃ (records : ExtensionList) (rest : List UInt8), (∀ record ∈ records, record.Valid) ∧
      stream = records.bytes ++ rest ∧ count' = count + records.serialSize ∧
      extensions' = extensions ++ records := by
  induction length using Nat.strong_induction_on generalizing stream count extensions with
  | _ length ih =>
      cases htype : (streamRead : StreamM UInt16) stream with
      | error code rest =>
          rw [readExtensions_end count extensions htype] at h
          split at h
          · cases h
            exact ⟨[], stream, fun _ hrecord => (by cases hrecord), rfl, rfl, (List.append_nil _).symm⟩
          · cases h
      | ok type rest =>
          by_cases hinvalid : type = Extension.INVALID
          · rw [readExtensions_type count extensions htype hinvalid] at h
            cases h
          · cases hvalue : Extension.readValue rest with
            | error code rest' =>
                rw [readExtensions_cut count extensions htype hinvalid hvalue] at h
                cases h
            | ok value rest' =>
                rw [readExtensions_next count extensions htype hinvalid hvalue] at h
                have hless := streamRead_length htype
                have hle := readValue_length hvalue
                obtain ⟨records, left, hvalid, hrest, hcount, hextensions⟩ :=
                  ih rest'.length (by omega) rfl h
                obtain ⟨-, hstream⟩ := streamRead_inverts.sound _ _ _ htype
                obtain ⟨hfits, hafter⟩ := Extension.readValue_inverts.sound _ _ _ hvalue
                refine ⟨⟨type, value⟩ :: records, left,
                  List.forall_mem_cons.mpr ⟨⟨hinvalid, hfits⟩, hvalid⟩, ?_, ?_, ?_⟩
                · rw [hstream, hafter, hrest, ExtensionList.bytes_cons, Extension.write]
                  simp only [List.append_assoc]
                · rw [hcount, ExtensionList.serialSize_cons, Extension.serialSize]
                  dsimp only
                  omega
                · rw [hextensions, List.append_assoc]
                  rfl

-- All the records of a stream are taken.
theorem readExtensions_complete {records : ExtensionList}
    (hvalid : ∀ record ∈ records, record.Valid) (count : Nat) (extensions : ExtensionList) :
    readExtensions records.bytes count extensions =
      .ok (count + records.serialSize, extensions ++ records) := by
  induction records generalizing count extensions with
  | nil =>
      have hend : (streamRead : StreamM UInt16) [] = .error .STREAM [] := rfl
      rw [show ExtensionList.bytes [] = [] from rfl, readExtensions_end count extensions hend,
        List.append_nil]
      rfl
  | cons record records ih =>
      obtain ⟨⟨hinvalid, hfits⟩, hrest⟩ := List.forall_mem_cons.mp hvalid
      have htype : (streamRead : StreamM UInt16) (ExtensionList.bytes (record :: records)) =
          .ok record.type (streamWrite (UInt16.ofNat record.value.length) ++ record.value ++
            ExtensionList.bytes records) := by
        rw [ExtensionList.bytes_cons, Extension.write]
        simp only [List.append_assoc]
        exact streamRead_inverts.complete record.type _ trivial
      have hvalue := Extension.readValue_inverts.complete record.value (ExtensionList.bytes records)
        hfits
      rw [readExtensions_next count extensions htype hinvalid hvalue, ih hrest]
      congr 2
      · rw [ExtensionList.serialSize_cons, Extension.serialSize]
        omega
      · rw [List.append_assoc]
        rfl

namespace ExtensionList

variable {bytes : List UInt8} {object object' : ExtensionList}

theorem fromBytes_nil (object : ExtensionList) : fromBytes [] object = .ok () object := rfl

-- Bytes that are taken are records of their own, and the object holds them.
theorem fromBytes_ok (hbytes : bytes ≠ []) :
    fromBytes bytes object = .ok () object' ↔ bytes.length ≤ MAX_EXTENSIONS_SIZE ∧
      (∀ extension ∈ object', extension.Valid) ∧ object'.bytes = bytes := by
  have hsome : bytes.isEmpty = false := by simpa using hbytes
  unfold fromBytes
  rw [hsome, if_neg (by decide)]
  constructor
  · intro h
    simp only [Process.bind_eq_ok, Process.check_eq_ok, returnIf_eq_ok, Nat.not_lt,
      Decidable.not_not] at h
    obtain ⟨_, _, ⟨hlength, rfl⟩, ⟨count, extensions⟩, _, ⟨hread, rfl⟩, _, _, ⟨hcount, rfl⟩, hset⟩ := h
    cases hset
    obtain ⟨records, rest, hvalid, hstream, hsize, rfl⟩ := readExtensions_sound _ rfl hread
    have hrest : rest = [] := by
      have htotal := congrArg List.length hstream
      rw [List.length_append, ← hcount, hsize, bytes_length] at htotal
      exact List.eq_nil_of_length_eq_zero (by omega)
    rw [hrest, List.append_nil] at hstream
    exact ⟨hlength, hvalid, hstream.symm⟩
  · rintro ⟨hlength, hvalid, rfl⟩
    have hread := readExtensions_complete hvalid 0 []
    rw [Nat.zero_add, List.nil_append] at hread
    simp only [Process.bind_eq_ok, Process.check_eq_ok, returnIf_eq_ok, Nat.not_lt,
      Decidable.not_not]
    exact ⟨(), object, ⟨hlength, rfl⟩, _, object, ⟨hread, rfl⟩, (), object,
      ⟨(bytes_length _).symm, rfl⟩, rfl⟩

-- A failure leaves the object as it was.
theorem fromBytes_error {code : ErrorCode} (h : fromBytes bytes object = .error code object') :
    object' = object := by
  unfold fromBytes at h
  split at h
  · cases h
  · simp only [Process.bind_eq_error, Process.check_eq_error, Process.check_eq_ok] at h
    rcases h with ⟨-, rfl⟩ | ⟨_, _, ⟨-, rfl⟩, ⟨-, rfl⟩ | ⟨_, _, ⟨-, rfl⟩, ⟨-, rfl⟩ | ⟨_, _, -, hset⟩⟩⟩
    · rfl
    · rfl
    · rfl
    · cases hset

theorem bytes_eq_nil {extensions : ExtensionList} (h : extensions.bytes = []) :
    extensions = [] := by
  cases extensions with
  | nil => rfl
  | cons extension rest =>
      have hlength := congrArg List.length h
      rw [bytes_length, serialSize_cons, Extension.serialSize, List.length_nil] at hlength
      omega

theorem append_eq {extension : Extension} (htype : extension.type ≠ Extension.INVALID)
    (object : ExtensionList) : append extension object =
      if object.serialSize + extension.serialSize > MAX_EXTENSIONS_SIZE then
        .error .EXTENSIONS_LENGTH object
      else .ok () (object ++ [extension]) := by
  have hpass : check (fun _ : ExtensionList =>
      returnIf (extension.type = Extension.INVALID) ErrorCode.EXTENSION_TYPE) object =
      .ok () object := by
    simp [htype]
  rw [append, Process.bind_of_ok hpass]
  split
  · rename_i hlong
    exact (Process.bind_eq_error _ _ _ _ _).mpr (.inl (by simp [hlong]))
  · rename_i hfits
    exact (Process.bind_eq_ok _ _ _ _ _).mpr ⟨(), object, by simpa using hfits, rfl⟩

-- The records of some bytes are what a new object takes them for.
theorem fromBytes_records (hrecords : Records bytes) (hlength : bytes.length ≤ MAX_EXTENSIONS_SIZE) :
    ∃ extensions : ExtensionList, fromBytes bytes [] = .ok () extensions ∧ extensions.bytes = bytes := by
  by_cases hbytes : bytes = []
  · exact ⟨[], hbytes ▸ rfl, hbytes.symm⟩
  · obtain ⟨extensions, hvalid, hsame⟩ := hrecords
    exact ⟨extensions, (fromBytes_ok hbytes).mpr ⟨hlength, hvalid, hsame⟩, hsame⟩

end ExtensionList

theorem extensionAppend_eq {bytes : List UInt8} (hrecords : ExtensionList.Records bytes)
    (hlength : bytes.length ≤ MAX_EXTENSIONS_SIZE) {extension : Extension}
    (htype : extension.type ≠ Extension.INVALID) : extensionAppend extension bytes =
      if bytes.length + extension.write.length ≤ MAX_EXTENSIONS_SIZE then
        (false, bytes ++ extension.write)
      else (true, bytes) := by
  obtain ⟨extensions, hread, rfl⟩ := ExtensionList.fromBytes_records hrecords hlength
  rw [extensionAppend, hread]
  dsimp only
  rw [ExtensionList.append_eq htype, ExtensionList.bytes_length, Extension.write_length]
  by_cases hfits : extensions.serialSize + extension.serialSize ≤ MAX_EXTENSIONS_SIZE
  · rw [if_neg (Nat.not_lt.mpr hfits), if_pos hfits]
    dsimp only
    rw [ExtensionList.bytes_append]
    congr 2
    exact List.append_nil _
  · rw [if_pos (Nat.not_le.mp hfits), if_neg hfits]

-- The bytes that are taken, what the object holds then, and what a record at their end makes of
-- them.
structure ContainerExact (bytes : List UInt8) (object : ExtensionList) : Prop where
  accepts : (∃ object', ExtensionList.fromBytes bytes object = .ok () object') ↔
    bytes.length ≤ MAX_EXTENSIONS_SIZE ∧ ExtensionList.Records bytes
  keeps : ∀ object', ExtensionList.fromBytes bytes object = .ok () object' →
    object'.bytes = bytes
  refuses : ∀ code object', ExtensionList.fromBytes bytes object = .error code object' →
    object' = object
  appends : bytes.length ≤ MAX_EXTENSIONS_SIZE → ExtensionList.Records bytes →
    ∀ extension : Extension, extension.type ≠ Extension.INVALID →
      extensionAppend extension bytes =
        if bytes.length + extension.write.length ≤ MAX_EXTENSIONS_SIZE then
          (false, bytes ++ extension.write)
        else (true, bytes)

-- No bytes leave what the object held before.
theorem container_exact_iff (bytes : List UInt8) (object : ExtensionList) :
    ContainerExact bytes object ↔ bytes ≠ [] ∨ object = [] := by
  have hrefuses : ∀ code object', ExtensionList.fromBytes bytes object = .error code object' →
      object' = object := fun _ _ => ExtensionList.fromBytes_error
  constructor
  · intro h
    by_cases hbytes : bytes = []
    · subst hbytes
      exact .inr (ExtensionList.bytes_eq_nil (h.keeps object (ExtensionList.fromBytes_nil object)))
    · exact .inl hbytes
  · intro h
    by_cases hbytes : bytes = []
    · obtain rfl := h.resolve_left (fun hne => hne hbytes)
      subst hbytes
      have hnone : ExtensionList.Records [] := ⟨[], fun _ hin => (by cases hin), rfl⟩
      refine ⟨iff_of_true ⟨[], rfl⟩ ⟨Nat.zero_le _, hnone⟩, ?_, hrefuses, ?_⟩
      · intro object' hread
        cases hread
        rfl
      · exact fun hlength hrecords _ htype => extensionAppend_eq hrecords hlength htype
    · refine ⟨⟨?_, ?_⟩, ?_, hrefuses, ?_⟩
      · rintro ⟨object', hread⟩
        obtain ⟨hlength, hvalid, hsame⟩ := (ExtensionList.fromBytes_ok hbytes).mp hread
        exact ⟨hlength, object', hvalid, hsame⟩
      · rintro ⟨hlength, object', hvalid, hsame⟩
        exact ⟨object', (ExtensionList.fromBytes_ok hbytes).mpr ⟨hlength, hvalid, hsame⟩⟩
      · exact fun object' hread => ((ExtensionList.fromBytes_ok hbytes).mp hread).2.2
      · exact fun hlength hrecords _ htype => extensionAppend_eq hrecords hlength htype

-- An object that holds a record takes no bytes, and still writes the record.
theorem empty_bytes_keep_record :
    ExtensionList.fromBytes [] [⟨1, [7]⟩] = .ok () [⟨1, [7]⟩] ∧
      ExtensionList.bytes [⟨1, [7]⟩] = [0, 1, 0, 1, 7] ∧ ¬ContainerExact [] [⟨1, [7]⟩] := by
  refine ⟨rfl, by decide, fun h => ?_⟩
  have hsame := h.keeps [⟨1, [7]⟩] rfl
  revert hsame
  decide

end Raicoin
