import Raicoin.Common.Balances

-- What a balance that is written reads back as, and which texts are taken for a balance.
namespace Raicoin

section Fraction

variable {scale rounds frac : Nat}

-- A digit, and what is left for the others.
theorem frac_split (scale rounds frac : Nat) : frac * 10 ^ (rounds + 1) =
    frac * 10 % scale * 10 ^ rounds + scale * (frac * 10 / scale * 10 ^ rounds) := by
  rw [← Nat.mul_assoc, ← Nat.add_mul, Nat.mod_add_div, Nat.pow_succ', Nat.mul_assoc]

theorem dvd_next (h : scale ∣ frac * 10 ^ (rounds + 1)) :
    scale ∣ frac * 10 % scale * 10 ^ rounds := by
  rw [frac_split scale] at h
  exact (Nat.dvd_add_left (Nat.dvd_mul_right _ _)).mp h

theorem eq_zero_of_dvd (hlt : frac < scale) (h : scale ∣ frac * 10 ^ 0) : frac = 0 := by
  rw [Nat.pow_zero, Nat.mul_one] at h
  exact Nat.eq_zero_of_dvd_of_lt h hlt

theorem digit_lt (hlt : frac < scale) : frac * 10 / scale < 10 :=
  (Nat.div_lt_iff_lt_mul (Nat.zero_lt_of_lt hlt)).mpr (by omega)

theorem fracDigits_length : (fracDigits scale rounds frac).length ≤ rounds := by
  induction rounds generalizing frac with
  | zero => exact Nat.le_refl 0
  | succ rounds ih =>
      unfold fracDigits
      split
      · exact Nat.zero_le _
      · exact Nat.succ_le_succ ih

theorem fracDigits_isDigit (hlt : frac < scale) : ∀ c ∈ fracDigits scale rounds frac, c.isDigit := by
  induction rounds generalizing frac with
  | zero => exact fun c hc => (by cases hc)
  | succ rounds ih =>
      unfold fracDigits
      split
      · exact fun c hc => (by cases hc)
      · refine List.forall_mem_cons.mpr ⟨?_, ih (Nat.mod_lt _ (Nat.zero_lt_of_lt hlt))⟩
        rw [Nat.isDigit_digitChar]
        exact decide_eq_true (digit_lt hlt)

-- The digits, with zeros behind them, are the fraction in the smallest unit.
theorem fracDigits_value (hlt : frac < scale) (h : scale ∣ frac * 10 ^ rounds) (init : Nat) :
    10 ^ (rounds - (fracDigits scale rounds frac).length) *
        Nat.ofDigitChars 10 (fracDigits scale rounds frac) init =
      init * 10 ^ rounds + frac * 10 ^ rounds / scale := by
  induction rounds generalizing frac init with
  | zero =>
      obtain rfl := eq_zero_of_dvd hlt h
      simp [fracDigits]
  | succ rounds ih =>
      have hpos : 0 < scale := Nat.zero_lt_of_lt hlt
      unfold fracDigits
      split
      · rename_i hzero
        rw [hzero]
        simp [Nat.mul_comm]
      · have hnext := ih (Nat.mod_lt (frac * 10) hpos) (dvd_next h) (10 * init + frac * 10 / scale)
        have hvalue : frac * 10 ^ (rounds + 1) / scale =
            frac * 10 / scale * 10 ^ rounds + frac * 10 % scale * 10 ^ rounds / scale := by
          rw [frac_split scale, Nat.add_mul_div_left _ _ hpos, Nat.add_comm]
        rw [Nat.ofDigitChars_cons_digitChar_of_lt_ten (digit_lt hlt), List.length_cons,
          Nat.add_sub_add_right, hnext, hvalue, Nat.add_mul, Nat.pow_succ']
        rw [← Nat.add_assoc, Nat.mul_comm 10 init, Nat.mul_assoc]

-- No zero stands at the end.
theorem fracDigits_last (hlt : frac < scale) (h : scale ∣ frac * 10 ^ rounds)
    (hsome : fracDigits scale rounds frac ≠ []) :
    (fracDigits scale rounds frac).getLast hsome ≠ '0' := by
  induction rounds generalizing frac with
  | zero => exact absurd rfl hsome
  | succ rounds ih =>
      have hpos : 0 < scale := Nat.zero_lt_of_lt hlt
      have hless := Nat.mod_lt (frac * 10) hpos
      by_cases hzero : frac = 0
      · exact absurd (by rw [fracDigits, if_pos hzero]) hsome
      have hdigits : fracDigits scale (rounds + 1) frac = Nat.digitChar (frac * 10 / scale) ::
          fracDigits scale rounds (frac * 10 % scale) := by rw [fracDigits, if_neg hzero]
      simp only [hdigits]
      by_cases hrest : fracDigits scale rounds (frac * 10 % scale) = []
      · have hdone : frac * 10 % scale = 0 := by
          by_contra hleft
          cases rounds with
          | zero => exact hleft (eq_zero_of_dvd hless (dvd_next h))
          | succ rounds =>
              rw [fracDigits, if_neg hleft] at hrest
              cases hrest
        have hdigit : frac * 10 / scale ≠ 0 := by
          intro heq
          have htotal := Nat.div_add_mod (frac * 10) scale
          rw [heq, hdone] at htotal
          omega
        simp only [hrest, List.getLast_singleton]
        exact fun heq => hdigit (Nat.digitChar_eq_zero.mp heq)
      · rw [List.getLast_cons hrest]
        exact ih hless (dvd_next h) hrest

end Fraction

section Digits

variable {str : List Char}

theorem isDigit_ne {c d : Char} (hc : c.isDigit) (hd : d.isDigit = false) : c ≠ d :=
  fun heq => absurd (heq ▸ hc) (by rw [hd]; decide)

theorem dot_notMem (h : ∀ c ∈ str, c.isDigit) : '.' ∉ str :=
  fun hin => absurd (h _ hin) (by decide)

theorem toDigits_isDigit (n : Nat) : ∀ c ∈ Nat.toDigits 10 n, c.isDigit :=
  fun _ hc => Nat.isDigit_of_mem_toDigits (by decide) (by decide) hc

-- Zeros in front do not count.
theorem dropWhile_value (str : List Char) :
    Nat.ofDigitChars 10 (str.dropWhile (· = '0')) 0 = Nat.ofDigitChars 10 str 0 := by
  induction str with
  | nil => rfl
  | cons c str ih =>
      rw [List.dropWhile_cons]
      split
      · rename_i hzero
        rw [of_decide_eq_true hzero, ih, Nat.ofDigitChars_cons]
        rfl
      · rfl

-- A numeral without zeros in front is as long as its number.
theorem ofDigitChars_ge {c : Char} (hc : c.isDigit) (hne : c ≠ '0') (str : List Char) :
    10 ^ str.length ≤ Nat.ofDigitChars 10 (c :: str) 0 := by
  have hpos : 1 ≤ c.toNat - '0'.toNat := by
    have hle : '0'.toNat ≤ c.toNat := by
      have hrange := (Bool.and_eq_true_iff.mp hc).1
      exact (UInt32.le_iff_toNat_le).mp (of_decide_eq_true hrange)
    have hother : c.toNat ≠ '0'.toNat := fun heq => hne (Char.toNat_inj.mp heq)
    omega
  rw [Nat.ofDigitChars_cons, Nat.ofDigitChars_eq_ofDigitChars_zero, Nat.mul_zero, Nat.zero_add]
  calc 10 ^ str.length = 10 ^ str.length * 1 := (Nat.mul_one _).symm
    _ ≤ 10 ^ str.length * (c.toNat - '0'.toNat) := Nat.mul_le_mul_left _ hpos
    _ ≤ _ := Nat.le_add_right _ _

-- What `DecodeDec` makes of digits when the zeros in front are gone.
theorem decodeDec_trimmed (hdigits : ∀ c ∈ str, c.isDigit)
    (hlt : Nat.ofDigitChars 10 str 0 < 2 ^ 128) : decodeDec (str.dropWhile (· = '0')) =
      if Nat.ofDigitChars 10 str 0 = 0 then none
      else some (BitVec.ofNat 128 (Nat.ofDigitChars 10 str 0)) := by
  have hvalue := dropWhile_value str
  have hall : ∀ c ∈ str.dropWhile (· = '0'), c.isDigit :=
    fun c hc => hdigits c (List.dropWhile_suffix _ |>.subset hc)
  have hhead := @List.head?_dropWhile_not _ (fun c : Char => decide (c = '0')) str
  generalize str.dropWhile (· = '0') = rest at hvalue hall hhead
  rw [← hvalue] at hlt ⊢
  cases rest with
  | nil => rfl
  | cons c rest =>
      have hne : c ≠ '0' := fun heq => by simp [heq] at hhead
      obtain ⟨hc, hrest⟩ := List.forall_mem_cons.mp hall
      have hge := ofDigitChars_ge hc hne rest
      have hpos : 0 < 10 ^ rest.length := Nat.pow_pos (by decide)
      have hlength : rest.length < 39 := by
        by_contra hlong
        have hmono := Nat.pow_le_pow_right (show 0 < 10 by decide) (Nat.not_lt.mp hlong)
        omega
      have hsign : c ≠ '-' := isDigit_ne hc (by decide)
      have hclean : ((c :: rest).any fun c => !c.isDigit) = false := by
        rw [List.any_eq_false]
        intro d hd
        simp [hall d hd]
      rw [if_neg (by omega), decodeDec, if_neg (by simp [hne, hsign]; omega), hclean]
      exact if_pos hlt

end Digits

-- A unit with the number of digits that it leaves behind the point.
structure BalanceUnit (scale digits : Nat) : Prop where
  scale_eq : scale = 10 ^ digits
  digits_pos : 0 < digits
  digits_le : digits ≤ 9
  maxFracLen_eq : maxFracLen scale = digits
  known : scale = RAI ∨ scale = mRAI ∨ scale = uRAI

-- The amount that a text stands for, in the smallest unit.
def textAmount (digits : Nat) (text : List Char) : Nat :=
  let intPart := text.takeWhile (· ≠ '.')
  let fracPart := (text.dropWhile (· ≠ '.')).drop 1
  Nat.ofDigitChars 10 intPart 0 * 10 ^ digits +
    Nat.ofDigitChars 10 fracPart 0 * 10 ^ (digits - fracPart.length)

-- A text that has the form of a balance.
structure BalanceForm (digits : Nat) (text : List Char) : Prop where
  ne_nil : text ≠ []
  length_le : text.length ≤ 40
  clean : hasOther text = false
  points : text.count '.' ≤ 1
  head : text.head? ≠ some '.'
  last : text.getLast? ≠ some '.'
  trimmed : trimFraction text = text
  fracLen_le : fracLen text ≤ digits

section Form

variable {digits : Nat} {int frac : List Char}

theorem head_ne_point (hint : ∀ c ∈ int, c.isDigit) (hsome : int ≠ []) (rest : List Char) :
    (int ++ rest).head? ≠ some '.' := by
  obtain ⟨c, cs, rfl⟩ := List.exists_cons_of_ne_nil hsome
  intro heq
  have hfirst : c = '.' := by simpa using heq
  exact dot_notMem hint (hfirst ▸ List.mem_cons_self)

-- A balance without a fraction.
theorem whole_form (hint : ∀ c ∈ int, c.isDigit) (hsome : int ≠ []) (hlength : int.length ≤ 39) :
    BalanceForm digits int := by
  have hdot := dot_notMem hint
  constructor
  · exact hsome
  · omega
  · rw [hasOther, List.any_eq_false]
    intro c hc
    simp [hint c hc]
  · rw [List.count_eq_zero.mpr hdot]
    exact Nat.zero_le 1
  · exact List.append_nil int ▸ head_ne_point hint hsome []
  · rw [List.getLast?_eq_some_getLast hsome]
    exact fun heq => hdot (Option.some.inj heq ▸ List.getLast_mem hsome)
  · rw [trimFraction, if_neg hdot]
  · rw [fracLen, if_neg hdot]
    exact Nat.zero_le _

theorem fracLen_point (hint : ∀ c ∈ int, c.isDigit) :
    fracLen (int ++ '.' :: frac) = frac.length := by
  rw [fracLen, if_pos (List.mem_append_right _ List.mem_cons_self), List.length_append,
    List.idxOf_append_of_notMem (dot_notMem hint), List.idxOf_cons_self, List.length_cons]
  omega

-- A balance with a fraction that does not end in a zero.
theorem point_form (hint : ∀ c ∈ int, c.isDigit) (hsome : int ≠ [])
    (hlength : int.length + digits ≤ 39) (hfrac : ∀ c ∈ frac, c.isDigit)
    (hshort : frac.length ≤ digits) (hne : frac ≠ []) (hend : frac.getLast hne ≠ '0') :
    BalanceForm digits (int ++ '.' :: frac) := by
  have hdot := dot_notMem hint
  have hfracDot := dot_notMem hfrac
  have hpoint : '.' :: frac ≠ [] := List.cons_ne_nil _ _
  have hnonempty : int ++ '.' :: frac ≠ [] := List.append_ne_nil_of_right_ne_nil _ hpoint
  have hlast (hl : int ++ '.' :: frac ≠ []) : (int ++ '.' :: frac).getLast hl = frac.getLast hne := by
    rw [List.getLast_append_of_ne_nil _ hpoint, List.getLast_cons hne]
  have hlastDot : frac.getLast hne ≠ '.' := fun heq => hfracDot (heq ▸ List.getLast_mem hne)
  constructor
  · exact hnonempty
  · rw [List.length_append, List.length_cons]
    omega
  · rw [hasOther, List.any_eq_false]
    intro c hc
    rcases List.mem_append.mp hc with hc | hc
    · simp [hint c hc]
    · rcases List.mem_cons.mp hc with rfl | hc
      · decide
      · simp [hfrac c hc]
  · rw [List.count_append, List.count_cons, List.count_eq_zero.mpr hdot,
      List.count_eq_zero.mpr hfracDot]
    decide
  · exact head_ne_point hint hsome _
  · rw [List.getLast?_eq_some_getLast hnonempty, hlast]
    exact fun heq => hlastDot (Option.some.inj heq)
  · have hzeros : (int ++ '.' :: frac).rdropWhile (· = '0') = int ++ '.' :: frac := by
      rw [List.rdropWhile_eq_self_iff]
      intro hl
      rw [hlast hl]
      simpa using hend
    rw [trimFraction, if_pos (List.mem_append_right _ List.mem_cons_self), hzeros,
      List.rdropWhile_eq_self_iff]
    intro hl
    rw [hlast hl]
    simpa using hlastDot
  · rw [fracLen_point hint]
    exact hshort

-- What a text in this form is read as.
theorem decode_form {scale : Nat} (hmax : maxFracLen scale = digits) (hdigits : 0 < digits)
    {text : List Char} (h : BalanceForm digits text) : decodeBalance scale text =
      ((decodeDec ((text.erase '.' ++ List.replicate (digits - fracLen text) '0').dropWhile
        (· = '0'))).bind fun amount => if text ≠ encodeBalance scale amount then none
          else some amount) := by
  have hpoints : ¬(text.count '.' > 1 ∨ text.head? = some '.' ∨ text.getLast? = some '.') := by
    rintro (hmany | hhead | hlast)
    · exact absurd h.points (Nat.not_le.mpr hmany)
    · exact h.head hhead
    · exact h.last hlast
  have hsize : ¬(text = [] ∨ text.length > 40) := by
    rintro (hnil | hlong)
    · exact h.ne_nil hnil
    · exact absurd h.length_le (Nat.not_le.mpr hlong)
  rw [decodeBalance, hmax]
  dsimp only
  rw [if_neg (Nat.ne_of_gt hdigits), if_neg hsize, h.clean, if_neg (by decide), if_neg hpoints,
    h.trimmed, if_neg (Nat.not_lt.mpr h.fracLen_le)]
  cases decodeDec ((text.erase '.' ++ List.replicate (digits - fracLen text) '0').dropWhile
    (· = '0')) <;> rfl

end Form

namespace BalanceUnit

variable {scale digits : Nat}

theorem encodeBalance_eq (h : BalanceUnit scale digits) (x : Amount) : encodeBalance scale x =
    if x.toNat % scale > 0 then Nat.toDigits 10 (x.toNat / scale) ++
      '.' :: fracDigits scale digits (x.toNat % scale)
    else Nat.toDigits 10 (x.toNat / scale) := by
  have hknown : ¬(scale ≠ RAI ∧ scale ≠ mRAI ∧ scale ≠ uRAI) := by
    rintro ⟨hrai, hmrai, hurai⟩
    rcases h.known with heq | heq | heq
    · exact hrai heq
    · exact hmrai heq
    · exact hurai heq
  rw [encodeBalance, if_neg hknown, h.maxFracLen_eq]

theorem scale_pos (h : BalanceUnit scale digits) : 0 < scale := by
  rw [h.scale_eq]
  exact Nat.pow_pos (by decide)

theorem dvd_all (h : BalanceUnit scale digits) (frac : Nat) : scale ∣ frac * 10 ^ digits :=
  h.scale_eq ▸ Nat.dvd_mul_left _ _

theorem int_length (h : BalanceUnit scale digits) (x : Amount) :
    (Nat.toDigits 10 (x.toNat / scale)).length ≤ 39 - digits := by
  have hle := h.digits_le
  have hlt : x.toNat < 10 ^ 39 := Nat.lt_trans x.isLt (by decide)
  rw [Nat.length_toDigits_le_iff (by decide) (by omega), Nat.div_lt_iff_lt_mul h.scale_pos,
    h.scale_eq, ← Nat.pow_add, show 39 - digits + digits = 39 by omega]
  exact hlt

theorem frac_ne_nil (h : BalanceUnit scale digits) {frac : Nat} (hfrac : 0 < frac) :
    fracDigits scale digits frac ≠ [] := by
  obtain ⟨more, hmore⟩ := Nat.exists_eq_succ_of_ne_zero (Nat.ne_of_gt h.digits_pos)
  rw [hmore, fracDigits, if_neg (Nat.ne_of_gt hfrac)]
  exact List.cons_ne_nil _ _

theorem encode_form (h : BalanceUnit scale digits) (x : Amount) :
    BalanceForm digits (encodeBalance scale x) := by
  have hint := toDigits_isDigit (x.toNat / scale)
  have hsome := @Nat.toDigits_ne_nil (x.toNat / scale) 10
  have hlength := h.int_length x
  have hle := h.digits_le
  rw [h.encodeBalance_eq]
  split
  · rename_i hfrac
    have hlt := Nat.mod_lt x.toNat h.scale_pos
    exact point_form hint hsome (by omega) (fracDigits_isDigit hlt) fracDigits_length
      (h.frac_ne_nil hfrac) (fracDigits_last hlt (h.dvd_all _) _)
  · exact whole_form hint hsome (by omega)

-- The digits of a balance that is written, filled up with zeros, are the amount.
theorem encode_value (h : BalanceUnit scale digits) (x : Amount) :
    (∀ c ∈ (encodeBalance scale x).erase '.' ++
        List.replicate (digits - fracLen (encodeBalance scale x)) '0', c.isDigit) ∧
      Nat.ofDigitChars 10 ((encodeBalance scale x).erase '.' ++
        List.replicate (digits - fracLen (encodeBalance scale x)) '0') 0 = x.toNat := by
  have hint := toDigits_isDigit (x.toNat / scale)
  have hdot := dot_notMem hint
  have hzeros (n : Nat) : ∀ c ∈ List.replicate n '0', c.isDigit :=
    fun c hc => List.eq_of_mem_replicate hc ▸ rfl
  have hscale := h.scale_eq
  have htotal := Nat.div_add_mod x.toNat scale
  rw [h.encodeBalance_eq]
  split
  · rename_i hfrac
    have hlt := Nat.mod_lt x.toNat h.scale_pos
    have hvalue := fracDigits_value hlt (h.dvd_all _) (x.toNat / scale)
    have hdigits := @fracDigits_isDigit scale digits _ hlt
    rw [fracLen_point hint, List.erase_append_right _ hdot, List.erase_cons_head]
    refine ⟨?_, ?_⟩
    · intro c hc
      rcases List.mem_append.mp hc with hc | hc
      · exact (List.mem_append.mp hc).elim (hint c) (hdigits c)
      · exact hzeros _ c hc
    · rw [Nat.ofDigitChars_append, Nat.ofDigitChars_append, Nat.ofDigitChars_ten_toDigits,
        Nat.ofDigitChars_replicate_zero, hvalue, ← hscale, Nat.mul_div_cancel _ h.scale_pos,
        Nat.mul_comm]
      exact htotal
  · rename_i hfrac
    rw [fracLen, if_neg hdot, List.erase_of_not_mem hdot]
    refine ⟨?_, ?_⟩
    · intro c hc
      exact (List.mem_append.mp hc).elim (hint c) (hzeros _ c)
    · rw [Nat.ofDigitChars_append, Nat.ofDigitChars_ten_toDigits, Nat.ofDigitChars_replicate_zero,
        Nat.sub_zero, ← hscale]
      omega

theorem decode_encode (h : BalanceUnit scale digits) (x : Amount) :
    decodeBalance scale (encodeBalance scale x) = if x = 0 then none else some x := by
  obtain ⟨hdigits, hvalue⟩ := h.encode_value x
  rw [decode_form h.maxFracLen_eq h.digits_pos (h.encode_form x),
    decodeDec_trimmed hdigits (hvalue ▸ x.isLt), hvalue]
  by_cases hzero : x = 0
  · subst hzero
    rfl
  · have hne : x.toNat ≠ 0 := fun heq => hzero (BitVec.eq_of_toNat_eq heq)
    rw [if_neg hne, if_neg hzero, BitVec.ofNat_toNat, BitVec.setWidth_eq, Option.bind_some,
      if_neg (not_not_intro rfl)]

-- A text that is taken is what is written for its amount, up to zeros at its end.
theorem decode_canonical (h : BalanceUnit scale digits) {text : List Char} {x : Amount}
    (hdecode : decodeBalance scale text = some x) : trimFraction text = encodeBalance scale x := by
  unfold decodeBalance at hdecode
  rw [h.maxFracLen_eq] at hdecode
  dsimp only at hdecode
  split at hdecode
  · cases hdecode
  split at hdecode
  · cases hdecode
  split at hdecode
  · cases hdecode
  split at hdecode
  · cases hdecode
  split at hdecode
  · cases hdecode
  split at hdecode
  · cases hdecode
  split at hdecode
  · cases hdecode
  · rename_i hsame
    cases hdecode
    exact Decidable.not_not.mp hsame

-- The amount that a written balance stands for.
theorem encode_amount (h : BalanceUnit scale digits) (x : Amount) :
    textAmount digits (encodeBalance scale x) = x.toNat := by
  have hint := toDigits_isDigit (x.toNat / scale)
  have hall : ∀ c ∈ Nat.toDigits 10 (x.toNat / scale), (decide (c ≠ '.')) = true :=
    fun c hc => decide_eq_true (isDigit_ne (hint c hc) (by decide))
  have htotal := Nat.div_add_mod x.toNat scale
  have hscale := h.scale_eq
  rw [h.encodeBalance_eq]
  split
  · have hlt := Nat.mod_lt x.toNat h.scale_pos
    have hvalue := fracDigits_value hlt (h.dvd_all _) 0
    rw [Nat.zero_mul, Nat.zero_add, ← hscale, Nat.mul_div_cancel _ h.scale_pos, Nat.mul_comm] at hvalue
    rw [textAmount, List.takeWhile_append_of_pos hall, List.dropWhile_append_of_pos hall,
      List.takeWhile_cons_of_neg (by decide), List.dropWhile_cons_of_neg (by decide),
      List.append_nil, List.drop_succ_cons, List.drop_zero, Nat.ofDigitChars_ten_toDigits, hvalue,
      ← hscale, Nat.mul_comm]
    exact htotal
  · rename_i hfrac
    rw [textAmount, List.takeWhile_eq_self_iff.mpr hall, List.dropWhile_eq_nil_iff.mpr hall,
      Nat.ofDigitChars_ten_toDigits, ← hscale, Nat.mul_comm]
    change scale * (x.toNat / scale) + 0 * _ = _
    omega

end BalanceUnit

-- The texts of one unit: what is written is read back unless it is zero, and what is read is
-- what would be written, for an amount that the text stands for.
structure BalanceCodec (scale digits : Nat) : Prop where
  reads_back : ∀ x, decodeBalance scale (encodeBalance scale x) = some x ↔ x ≠ 0
  canonical : ∀ text x, decodeBalance scale text = some x →
    trimFraction text = encodeBalance scale x ∧ textAmount digits (trimFraction text) = x.toNat
  unique : ∀ text text' x, decodeBalance scale text = some x → decodeBalance scale text' = some x →
    trimFraction text = trimFraction text'

theorem BalanceUnit.codec {scale digits : Nat} (h : BalanceUnit scale digits) :
    BalanceCodec scale digits where
  reads_back x := by
    rw [h.decode_encode]
    by_cases hzero : x = 0 <;> simp [hzero]
  canonical text x hdecode := by
    have hsame := h.decode_canonical hdecode
    exact ⟨hsame, hsame ▸ h.encode_amount x⟩
  unique text text' x hdecode hdecode' :=
    (h.decode_canonical hdecode).trans (h.decode_canonical hdecode').symm

-- The scales that are supported, and the digits behind the point in each.
inductive BalanceScale where
  | rai
  | mRai
  | uRai

namespace BalanceScale

def scale : BalanceScale → Nat
  | rai => RAI
  | mRai => mRAI
  | uRai => uRAI

def digits : BalanceScale → Nat
  | rai => 9
  | mRai => 6
  | uRai => 3

theorem balanceUnit (scale : BalanceScale) : BalanceUnit scale.scale scale.digits := by
  cases scale with
  | rai => exact ⟨rfl, by decide, by decide, by decide, .inl rfl⟩
  | mRai => exact ⟨rfl, by decide, by decide, by decide, .inr (.inl rfl)⟩
  | uRai => exact ⟨rfl, by decide, by decide, by decide, .inr (.inr rfl)⟩

end BalanceScale

theorem balance_codec_exact (scale : BalanceScale) : BalanceCodec scale.scale scale.digits :=
  scale.balanceUnit.codec

-- The zero that is written for no balance is trimmed to nothing before it is read.
theorem zero_balance_refused : encodeBalance RAI 0 = ['0'] ∧ decodeBalance RAI ['0'] = none ∧
    ¬∀ x, decodeBalance RAI (encodeBalance RAI x) = some x := by
  have hencode : encodeBalance RAI 0 = ['0'] := by decide
  have hdecode : decodeBalance RAI ['0'] = none := by decide
  refine ⟨hencode, hdecode, fun h => ?_⟩
  have hzero := h 0
  rw [hencode, hdecode] at hzero
  cases hzero

end Raicoin
