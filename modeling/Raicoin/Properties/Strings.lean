import Raicoin.Common.Util
import Mathlib.Data.List.Basic

-- The strings in a stream, and what is well-formed UTF-8.
namespace Raicoin

open Lib

-- The numbers of well-formed characters, with the number of their units.
theorem utf8Malformed_iff {units codePoint : Nat} : utf8Malformed units codePoint = false ↔
    codePoint.isValidChar ∧
      ((units = 1 ∧ codePoint ≤ 0x7f) ∨ (units = 2 ∧ 0x7f < codePoint ∧ codePoint ≤ 0x7ff) ∨
        (units = 3 ∧ 0x7ff < codePoint ∧ codePoint ≤ 0xffff) ∨
        (units = 4 ∧ 0xffff < codePoint)) := by
  simp only [utf8Malformed, Nat.isValidChar, Bool.or_eq_false_iff, Bool.and_eq_false_iff,
    decide_eq_false_iff_not, Decidable.not_not, ne_eq]
  omega

section Bytes

-- The bytes that begin a character, by their units.
private theorem lead_table : ∀ n < 256, utf8Lead (UInt8.ofNat n) =
    if n < 0x80 then some (1, n) else if n < 0xc0 then none
    else if n < 0xe0 then some (2, n - 0xc0) else if n < 0xf0 then some (3, n - 0xe0)
    else if n < 0xf8 then some (4, n - 0xf0) else none := by
  set_option maxRecDepth 2000 in decide

-- The bytes that go on with one.
private theorem tail_table : ∀ n < 256, (UInt8.ofNat n &&& 0xc0 = 0x80 ↔ 0x80 ≤ n ∧ n < 0xc0) ∧
    (0x80 ≤ n ∧ n < 0xc0 → (UInt8.ofNat n &&& 0x3f).toNat = n - 0x80) := by
  set_option maxRecDepth 2000 in decide

theorem utf8Lead_one (k : Nat) (h : k < 0x80) : utf8Lead (UInt8.ofNat k) = some (1, k) := by
  rw [lead_table k (by omega), if_pos h]

theorem utf8Lead_two (k : Nat) (h : k < 0x20) :
    utf8Lead (UInt8.ofNat (k + 0xc0)) = some (2, k) := by
  rw [lead_table _ (by omega), if_neg (by omega), if_neg (by omega), if_pos (by omega),
    Nat.add_sub_cancel]

theorem utf8Lead_three (k : Nat) (h : k < 0x10) :
    utf8Lead (UInt8.ofNat (k + 0xe0)) = some (3, k) := by
  rw [lead_table _ (by omega), if_neg (by omega), if_neg (by omega), if_neg (by omega),
    if_pos (by omega), Nat.add_sub_cancel]

theorem utf8Lead_four (k : Nat) (h : k < 0x08) :
    utf8Lead (UInt8.ofNat (k + 0xf0)) = some (4, k) := by
  rw [lead_table _ (by omega), if_neg (by omega), if_neg (by omega), if_neg (by omega),
    if_neg (by omega), if_pos (by omega), Nat.add_sub_cancel]

theorem utf8Tail (k : Nat) (h : k < 0x40) : UInt8.ofNat (k + 0x80) &&& 0xc0 = 0x80 ∧
    (UInt8.ofNat (k + 0x80) &&& 0x3f).toNat = k := by
  obtain ⟨hmask, hbits⟩ := tail_table (k + 0x80) (by omega)
  refine ⟨hmask.mpr (by omega), ?_⟩
  rw [hbits (by omega), Nat.add_sub_cancel]

-- There are no others.
theorem utf8Lead_cases {byte : UInt8} {units k : Nat} (h : utf8Lead byte = some (units, k)) :
    (units = 1 ∧ byte = UInt8.ofNat k ∧ k < 0x80) ∨
      (units = 2 ∧ byte = UInt8.ofNat (k + 0xc0) ∧ k < 0x20) ∨
      (units = 3 ∧ byte = UInt8.ofNat (k + 0xe0) ∧ k < 0x10) ∨
      (units = 4 ∧ byte = UInt8.ofNat (k + 0xf0) ∧ k < 0x08) := by
  have hlt := byte.toNat_lt
  have hbyte (n : Nat) (hn : byte.toNat = n) : byte = UInt8.ofNat n := by
    rw [← hn, UInt8.ofNat_toNat]
  rw [← UInt8.ofNat_toNat (x := byte), lead_table byte.toNat hlt] at h
  split_ifs at h with hone htwo hthree hfour hfive <;> cases h
  · exact .inl ⟨rfl, hbyte _ rfl, hone⟩
  · exact .inr (.inl ⟨rfl, hbyte _ (by omega), by omega⟩)
  · exact .inr (.inr (.inl ⟨rfl, hbyte _ (by omega), by omega⟩))
  · exact .inr (.inr (.inr ⟨rfl, hbyte _ (by omega), by omega⟩))

theorem utf8Tail_cases {byte : UInt8} (h : byte &&& 0xc0 = 0x80) :
    ∃ k < 0x40, byte = UInt8.ofNat (k + 0x80) := by
  have hbyte : UInt8.ofNat byte.toNat = byte := UInt8.ofNat_toNat
  obtain ⟨hmask, -⟩ := tail_table byte.toNat byte.toNat_lt
  obtain ⟨hlower, hupper⟩ := hmask.mp (by rwa [hbyte])
  refine ⟨byte.toNat - 0x80, by omega, ?_⟩
  rw [Nat.sub_add_cancel hlower, hbyte]

end Bytes

section Loop

variable {bytes : List UInt8} {units codePoint left k : Nat} {ctrl r : Bool}

-- A unit is put behind the bits that have been read.
theorem shift_or_eq (codePoint : Nat) (h : k < 0x40) :
    codePoint <<< 6 ||| k = codePoint * 64 + k := by
  rw [← Nat.shiftLeft_add_eq_or_of_lt (show k < 2 ^ 6 from h), Nat.shiftLeft_eq]

-- The end of a character.
def utf8Done (bytes : List UInt8) (units codePoint : Nat) (ctrl : Bool) : Option Bool :=
  if utf8Malformed units codePoint then none
  else utf8Loop bytes 0 0 0 (ctrl || utf8Control codePoint)

theorem utf8Loop_lead (byte : UInt8) (h : utf8Lead byte = some (units, k)) (hunits : units ≠ 1) :
    utf8Loop (byte :: bytes) 0 0 0 ctrl = utf8Loop bytes (units - 1) units k ctrl := by
  rw [utf8Loop, h]
  exact if_neg hunits

theorem utf8Loop_one (h : k < 0x80) :
    utf8Loop (UInt8.ofNat k :: bytes) 0 0 0 ctrl = utf8Done bytes 1 k ctrl := by
  rw [utf8Loop, utf8Lead_one k h]
  rfl

theorem utf8Loop_tail (h : k < 0x40) :
    utf8Loop (UInt8.ofNat (k + 0x80) :: bytes) (left + 1) units codePoint ctrl =
      if left ≠ 0 then utf8Loop bytes left units (codePoint * 64 + k) ctrl
      else utf8Done bytes units (codePoint * 64 + k) ctrl := by
  obtain ⟨hmask, hbits⟩ := utf8Tail k h
  rw [utf8Loop, if_neg (not_not_intro hmask)]
  dsimp only
  rw [hbits, shift_or_eq codePoint h]
  rfl

-- What is left of a character is one unit for each that was announced.
private theorem utf8Loop_rest (h : utf8Loop bytes (left + 1) units codePoint ctrl = some r) :
    ∃ k < 0x40, ∃ rest, bytes = UInt8.ofNat (k + 0x80) :: rest ∧
      (if left ≠ 0 then utf8Loop rest left units (codePoint * 64 + k) ctrl
        else utf8Done rest units (codePoint * 64 + k) ctrl) = some r := by
  cases bytes with
  | nil => cases h
  | cons byte rest =>
      by_cases hmask : byte &&& 0xc0 = 0x80
      · obtain ⟨k, hk, rfl⟩ := utf8Tail_cases hmask
        rw [utf8Loop_tail hk] at h
        exact ⟨k, hk, rest, rfl, h⟩
      · rw [utf8Loop, if_pos hmask] at h
        cases h

theorem utf8Loop_more (h : utf8Loop bytes (left + 2) units codePoint ctrl = some r) :
    ∃ k < 0x40, ∃ rest, bytes = UInt8.ofNat (k + 0x80) :: rest ∧
      utf8Loop rest (left + 1) units (codePoint * 64 + k) ctrl = some r := by
  obtain ⟨k, hk, rest, heq, hrest⟩ := utf8Loop_rest h
  rw [if_pos (Nat.succ_ne_zero left)] at hrest
  exact ⟨k, hk, rest, heq, hrest⟩

theorem utf8Loop_last (h : utf8Loop bytes 1 units codePoint ctrl = some r) :
    ∃ k < 0x40, ∃ rest, bytes = UInt8.ofNat (k + 0x80) :: rest ∧
      utf8Done rest units (codePoint * 64 + k) ctrl = some r :=
  utf8Loop_rest h

theorem utf8Done_eq_some (h : utf8Done bytes units codePoint ctrl = some r) :
    utf8Malformed units codePoint = false ∧
      utf8Loop bytes 0 0 0 (ctrl || utf8Control codePoint) = some r := by
  unfold utf8Done at h
  split at h
  · cases h
  · rename_i hformed
    exact ⟨Bool.eq_false_iff.mpr hformed, h⟩

theorem utf8Done_eq (h : utf8Malformed units codePoint = false) :
    utf8Done bytes units codePoint ctrl =
      utf8Loop bytes 0 0 0 (ctrl || utf8Control codePoint) := by
  rw [utf8Done, h]
  rfl

end Loop

section Characters

-- The bytes of a character, by the range of its number.
theorem utf8EncodeChar_one {c : Char} (h : c.toNat ≤ 0x7f) :
    String.utf8EncodeChar c = [UInt8.ofNat c.toNat] :=
  if_pos h

theorem utf8EncodeChar_two {c : Char} (h : 0x7f < c.toNat) (hle : c.toNat ≤ 0x7ff) :
    String.utf8EncodeChar c =
      [UInt8.ofNat (c.toNat / 64 + 0xc0), UInt8.ofNat (c.toNat % 64 + 0x80)] := by
  rw [← Nat.mod_eq_of_lt (show c.toNat / 64 < 0x20 by omega)]
  exact (if_neg (Nat.not_le.mpr h)).trans (if_pos hle)

theorem utf8EncodeChar_three {c : Char} (h : 0x7ff < c.toNat) (hle : c.toNat ≤ 0xffff) :
    String.utf8EncodeChar c = [UInt8.ofNat (c.toNat / 4096 + 0xe0),
      UInt8.ofNat (c.toNat / 64 % 64 + 0x80), UInt8.ofNat (c.toNat % 64 + 0x80)] := by
  have hone : ¬c.toNat ≤ 0x7f := by omega
  rw [← Nat.mod_eq_of_lt (show c.toNat / 4096 < 0x10 by omega)]
  exact (if_neg hone).trans ((if_neg (Nat.not_le.mpr h)).trans (if_pos hle))

theorem utf8EncodeChar_four {c : Char} (h : 0xffff < c.toNat) :
    String.utf8EncodeChar c = [UInt8.ofNat (c.toNat / 262144 + 0xf0),
      UInt8.ofNat (c.toNat / 4096 % 64 + 0x80), UInt8.ofNat (c.toNat / 64 % 64 + 0x80),
      UInt8.ofNat (c.toNat % 64 + 0x80)] := by
  have hvalid : c.toNat.isValidChar := c.valid
  have htop : c.toNat < 0x110000 := by
    unfold Nat.isValidChar at hvalid
    omega
  have hone : ¬c.toNat ≤ 0x7f := by omega
  have htwo : ¬c.toNat ≤ 0x7ff := by omega
  rw [← Nat.mod_eq_of_lt (show c.toNat / 262144 < 0x08 by omega)]
  exact (if_neg hone).trans ((if_neg htwo).trans (if_neg (Nat.not_le.mpr h)))

-- The loop takes a character after the other.
theorem utf8Loop_char (c : Char) (bytes : List UInt8) (ctrl : Bool) :
    utf8Loop (String.utf8EncodeChar c ++ bytes) 0 0 0 ctrl =
      utf8Loop bytes 0 0 0 (ctrl || utf8Control c.toNat) := by
  have hvalid : c.toNat.isValidChar := c.valid
  have htop : c.toNat < 0x110000 := by
    unfold Nat.isValidChar at hvalid
    omega
  by_cases hone : c.toNat ≤ 0x7f
  · rw [utf8EncodeChar_one hone, List.singleton_append, utf8Loop_one (by omega)]
    exact utf8Done_eq (utf8Malformed_iff.mpr ⟨hvalid, .inl ⟨rfl, hone⟩⟩)
  by_cases htwo : c.toNat ≤ 0x7ff
  · rw [utf8EncodeChar_two (by omega) htwo, List.cons_append, List.cons_append, List.nil_append,
      utf8Loop_lead _ (utf8Lead_two _ (by omega)) (by decide), utf8Loop_tail (by omega),
      if_neg (by decide), show c.toNat / 64 * 64 + c.toNat % 64 = c.toNat by omega]
    exact utf8Done_eq (utf8Malformed_iff.mpr ⟨hvalid, by omega⟩)
  by_cases hthree : c.toNat ≤ 0xffff
  · rw [utf8EncodeChar_three (by omega) hthree, List.cons_append, List.cons_append, List.cons_append,
      List.nil_append, utf8Loop_lead _ (utf8Lead_three _ (by omega)) (by decide),
      utf8Loop_tail (by omega), if_pos (by decide), utf8Loop_tail (by omega), if_neg (by decide),
      show (c.toNat / 4096 * 64 + c.toNat / 64 % 64) * 64 + c.toNat % 64 = c.toNat by omega]
    exact utf8Done_eq (utf8Malformed_iff.mpr ⟨hvalid, by omega⟩)
  · rw [utf8EncodeChar_four (by omega), List.cons_append, List.cons_append, List.cons_append,
      List.cons_append, List.nil_append, utf8Loop_lead _ (utf8Lead_four _ (by omega)) (by decide),
      utf8Loop_tail (by omega), if_pos (by decide), utf8Loop_tail (by omega), if_pos (by decide),
      utf8Loop_tail (by omega), if_neg (by decide),
      show ((c.toNat / 262144 * 64 + c.toNat / 4096 % 64) * 64 + c.toNat / 64 % 64) * 64 +
        c.toNat % 64 = c.toNat by omega]
    exact utf8Done_eq (utf8Malformed_iff.mpr ⟨hvalid, by omega⟩)

theorem exists_char {n : Nat} (h : n.isValidChar) : ∃ c : Char, c.toNat = n :=
  ⟨Char.ofNat n, by rw [Char.ofNat, dif_pos h]; rfl⟩

end Characters

-- Bytes that are taken begin with a character.
theorem utf8Loop_first {byte : UInt8} {bytes : List UInt8} {ctrl r : Bool}
    (h : utf8Loop (byte :: bytes) 0 0 0 ctrl = some r) :
    ∃ c rest, byte :: bytes = String.utf8EncodeChar c ++ rest ∧
      utf8Loop rest 0 0 0 (ctrl || utf8Control c.toNat) = some r := by
  cases hlead : utf8Lead byte with
  | none =>
      rw [utf8Loop, hlead] at h
      cases h
  | some lead =>
      obtain ⟨units, k⟩ := lead
      rcases utf8Lead_cases hlead with ⟨rfl, rfl, hk⟩ | ⟨rfl, rfl, hk⟩ | ⟨rfl, rfl, hk⟩ |
        ⟨rfl, rfl, hk⟩
      · rw [utf8Loop_one hk] at h
        obtain ⟨hformed, hrest⟩ := utf8Done_eq_some h
        obtain ⟨c, rfl⟩ := exists_char (utf8Malformed_iff.mp hformed).1
        exact ⟨c, bytes, by rw [utf8EncodeChar_one (by omega)]; rfl, hrest⟩
      · rw [utf8Loop_lead _ hlead (by decide)] at h
        obtain ⟨k₁, hk₁, rest, rfl, hlast⟩ := utf8Loop_last h
        obtain ⟨hformed, hrest⟩ := utf8Done_eq_some hlast
        obtain ⟨hvalid, hrange⟩ := utf8Malformed_iff.mp hformed
        obtain ⟨c, hc⟩ := exists_char hvalid
        refine ⟨c, rest, ?_, by rwa [hc]⟩
        rw [utf8EncodeChar_two (by omega) (by omega), show c.toNat / 64 = k by omega,
          show c.toNat % 64 = k₁ by omega]
        rfl
      · rw [utf8Loop_lead _ hlead (by decide)] at h
        obtain ⟨k₁, hk₁, rest₁, rfl, hmore⟩ := utf8Loop_more h
        obtain ⟨k₂, hk₂, rest, rfl, hlast⟩ := utf8Loop_last hmore
        obtain ⟨hformed, hrest⟩ := utf8Done_eq_some hlast
        obtain ⟨hvalid, hrange⟩ := utf8Malformed_iff.mp hformed
        obtain ⟨c, hc⟩ := exists_char hvalid
        refine ⟨c, rest, ?_, by rwa [hc]⟩
        rw [utf8EncodeChar_three (by omega) (by omega), show c.toNat / 4096 = k by omega,
          show c.toNat / 64 % 64 = k₁ by omega, show c.toNat % 64 = k₂ by omega]
        rfl
      · rw [utf8Loop_lead _ hlead (by decide)] at h
        obtain ⟨k₁, hk₁, rest₁, rfl, hmore⟩ := utf8Loop_more h
        obtain ⟨k₂, hk₂, rest₂, rfl, hmore'⟩ := utf8Loop_more hmore
        obtain ⟨k₃, hk₃, rest, rfl, hlast⟩ := utf8Loop_last hmore'
        obtain ⟨hformed, hrest⟩ := utf8Done_eq_some hlast
        obtain ⟨hvalid, hrange⟩ := utf8Malformed_iff.mp hformed
        obtain ⟨c, hc⟩ := exists_char hvalid
        refine ⟨c, rest, ?_, by rwa [hc]⟩
        rw [utf8EncodeChar_four (by omega), show c.toNat / 262144 = k by omega,
          show c.toNat / 4096 % 64 = k₁ by omega, show c.toNat / 64 % 64 = k₂ by omega,
          show c.toNat % 64 = k₃ by omega]
        rfl

-- A character below U+0020 or in U+007F..U+009F.
def IsControl (c : Char) : Prop := c.toNat < 0x20 ∨ (0x7f ≤ c.toNat ∧ c.toNat ≤ 0x9f)

instance : DecidablePred IsControl := fun _ => inferInstanceAs (Decidable (_ ∨ _))

theorem utf8Control_eq (c : Char) : utf8Control c.toNat = decide (IsControl c) := by
  rw [Bool.eq_iff_iff, decide_eq_true_iff]
  simp only [utf8Control, IsControl, Bool.or_eq_true, Bool.and_eq_true, decide_eq_true_eq,
    ge_iff_le]

-- UTF-8, as the characters that it encodes.
def utf8Encode (chars : List Char) : List UInt8 := chars.flatMap String.utf8EncodeChar

def WellFormedUtf8 (bytes : List UInt8) : Prop := ∃ chars, bytes = utf8Encode chars

theorem utf8Loop_encode (chars : List Char) (ctrl : Bool) :
    utf8Loop (utf8Encode chars) 0 0 0 ctrl = some (ctrl || chars.any fun c => IsControl c) := by
  induction chars generalizing ctrl with
  | nil => simp [utf8Encode]
  | cons c chars ih =>
      rw [utf8Encode, List.flatMap_cons, utf8Loop_char, utf8Control_eq, List.any_cons,
        ← Bool.or_assoc]
      exact ih _

theorem utf8Loop_decode (length : Nat) {bytes : List UInt8} (hlength : bytes.length = length)
    {ctrl r : Bool} (h : utf8Loop bytes 0 0 0 ctrl = some r) : WellFormedUtf8 bytes := by
  induction length using Nat.strong_induction_on generalizing bytes ctrl with
  | _ length ih =>
      cases bytes with
      | nil => exact ⟨[], rfl⟩
      | cons byte bytes =>
          obtain ⟨c, rest, heq, hrest⟩ := utf8Loop_first h
          have hless : rest.length < length := by
            have htotal := congrArg List.length heq
            have hpos := List.length_pos_iff.mpr (@String.utf8EncodeChar_ne_nil c)
            rw [List.length_append] at htotal
            omega
          obtain ⟨chars, rfl⟩ := ih rest.length hless rfl hrest
          exact ⟨c :: chars, heq⟩

theorem checkUtf8_iff (bytes : List UInt8) (ctrl : Bool) : checkUtf8 bytes = some ctrl ↔
    ∃ chars, bytes = utf8Encode chars ∧ ctrl = chars.any fun c => IsControl c := by
  constructor
  · intro h
    obtain ⟨chars, rfl⟩ := utf8Loop_decode _ rfl h
    rw [checkUtf8, utf8Loop_encode, Bool.false_or] at h
    exact ⟨chars, rfl, (Option.some.inj h).symm⟩
  · rintro ⟨chars, rfl, rfl⟩
    rw [checkUtf8, utf8Loop_encode, Bool.false_or]

theorem checkUtf8_isSome (bytes : List UInt8) : (checkUtf8 bytes).isSome ↔ WellFormedUtf8 bytes := by
  rw [Option.isSome_iff_exists]
  constructor
  · rintro ⟨ctrl, h⟩
    obtain ⟨chars, heq, -⟩ := (checkUtf8_iff bytes ctrl).mp h
    exact ⟨chars, heq⟩
  · rintro ⟨chars, heq⟩
    exact ⟨_, (checkUtf8_iff bytes _).mpr ⟨chars, heq, rfl⟩⟩

-- The longest front of at most `count` bytes that is well formed.
structure LongestFront (str : Text) (count : Nat) (front : Text) : Prop where
  is_front : front <+: str
  length_le : front.length ≤ count
  wellFormed : WellFormedUtf8 front
  longest : ∀ other, other <+: str → other.length ≤ count → WellFormedUtf8 other →
    other.length ≤ front.length

theorem utf8Front_longest (str : Text) (count : Nat) : LongestFront str count (utf8Front str count) := by
  induction count with
  | zero =>
      exact ⟨List.nil_prefix, Nat.le_refl 0, ⟨[], rfl⟩, fun _ _ hlength _ => hlength⟩
  | succ count ih =>
      unfold utf8Front
      split
      · rename_i hformed
        refine ⟨List.take_prefix _ _, List.length_take_le _ _, (checkUtf8_isSome _).mp hformed, ?_⟩
        intro other hother hlength _
        rw [List.length_take]
        exact Nat.le_min.mpr ⟨hlength, hother.length_le⟩
      · rename_i hbroken
        refine ⟨ih.is_front, Nat.le_succ_of_le ih.length_le, ih.wellFormed, ?_⟩
        intro other hother hlength hformed
        by_cases hlast : other.length = count + 1
        · rw [List.prefix_iff_eq_take.mp hother, hlast] at hformed
          exact absurd ((checkUtf8_isSome _).mpr hformed) hbroken
        · exact ih.longest other hother (by omega) hformed

-- What a string that is written reads back as.
theorem strings_on_wire :
    (∀ bytes ctrl, checkUtf8 bytes = some ctrl ↔
      ∃ chars, bytes = utf8Encode chars ∧ ctrl = chars.any fun c => IsControl c) ∧
    ∀ str rest, ∃ back, readString (writeString str ++ rest) = .ok back rest ∧
      (str.length ≤ MAX_STRING_SIZE → back = str) ∧
      (MAX_STRING_SIZE < str.length → LongestFront str MAX_STRING_SIZE back) := by
  refine ⟨checkUtf8_iff, fun str rest => ?_⟩
  by_cases hlength : str.length ≤ MAX_STRING_SIZE
  · exact ⟨str, readString_inverts.complete str rest hlength, fun _ => rfl,
      fun hlong => absurd hlength (Nat.not_le.mpr hlong)⟩
  · have hlongest := utf8Front_longest str MAX_STRING_SIZE
    have hcut : writeString str = writeString (utf8Front str MAX_STRING_SIZE) := by
      rw [writeString_eq hlongest.length_le, writeString, if_pos (Nat.not_le.mp hlength)]
    refine ⟨_, ?_, fun hle => absurd hle hlength, fun _ => hlongest⟩
    rw [hcut]
    exact readString_inverts.complete _ rest hlongest.length_le

end Raicoin
