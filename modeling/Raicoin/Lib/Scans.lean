import Raicoin.Lib.Numerals
import Raicoin.Lib.Paging

-- Scans of an ordered table between two iterators, and keys that are compared digit by digit.
namespace Raicoin.Lib

section Visits

variable {α : Type} [DecidableEq α]

-- `for (; i != n; ++i)`: an iterator is what it has still before it, and two of them are equal if
-- they stand at the same entry or both at the end. One that is not met on the way up to the end is
-- never met.
def visited : List α → List α → Option (List α)
  | [], [] => some []
  | [], _ :: _ => none
  | a :: rest, stop => if stop.head? = some a then some [] else (visited rest stop).map (a :: ·)

theorem visited_append {front stop : List α} (h : ∀ a ∈ front, stop.head? ≠ some a) :
    visited (front ++ stop) stop = some front := by
  induction front with
  | nil =>
      cases stop with
      | nil => rfl
      | cons a rest => exact if_pos rfl
  | cons a front ih =>
      obtain ⟨hne, hrest⟩ := List.forall_mem_cons.mp h
      rw [List.cons_append, visited, if_neg hne, ih hrest]
      rfl

theorem visited_eq_none {entries rest : List α} {a : α} (h : a ∉ entries) :
    visited entries (a :: rest) = none := by
  induction entries with
  | nil => rfl
  | cons b entries ih =>
      obtain ⟨hne, hrest⟩ := not_or.mp (List.mem_cons.not.mp h)
      have hhead : (a :: rest).head? ≠ some b := fun heq => hne (Option.some.inj heq)
      rw [visited, if_neg hhead, ih hrest]
      rfl

variable {place : α → Nat} {entries : List α} {lower upper : Nat}

omit [DecidableEq α] in
-- What lies before the upper place comes before what does not.
theorem entriesFrom_split (hsorted : entries.Pairwise fun a b => place a < place b)
    (hle : lower ≤ upper) : entriesFrom place entries lower =
      (entries.filter fun a => lower ≤ place a ∧ place a < upper) ++
        entriesFrom place entries upper := by
  unfold entriesFrom
  induction entries with
  | nil => rfl
  | cons a rest ih =>
      obtain ⟨habove, hrest⟩ := List.pairwise_cons.mp hsorted
      by_cases hupper : upper ≤ place a
      · have hall : ∀ b ∈ a :: rest, upper ≤ place b := by
          refine List.forall_mem_cons.mpr ⟨hupper, fun b hb => ?_⟩
          have := habove b hb
          omega
        have hnone : ((a :: rest).filter fun b => lower ≤ place b ∧ place b < upper) = [] := by
          refine List.filter_eq_nil_iff.mpr fun b hb => ?_
          have := hall b hb
          simp only [decide_eq_true_eq]
          omega
        rw [hnone, List.nil_append,
          List.filter_eq_self.mpr fun b hb => decide_eq_true (Nat.le_trans hle (hall b hb)),
          List.filter_eq_self.mpr fun b hb => decide_eq_true (hall b hb)]
      · have hlt : place a < upper := Nat.lt_of_not_le hupper
        simp only [List.filter_cons, hupper, hlt, and_true, decide_false, decide_eq_true_eq, ih hrest]
        split <;> rfl

-- A scan up to a later place visits what lies between.
theorem visited_between (hsorted : entries.Pairwise fun a b => place a < place b)
    (hle : lower ≤ upper) :
    visited (entriesFrom place entries lower) (entriesFrom place entries upper) =
      some (entries.filter fun a => lower ≤ place a ∧ place a < upper) := by
  rw [entriesFrom_split hsorted hle]
  apply visited_append
  intro a ha hhead
  have hlt := (of_decide_eq_true (List.mem_filter.mp ha).2).2
  have hge := of_decide_eq_true (List.mem_filter.mp (List.mem_of_head? hhead)).2
  omega

-- One that starts past an entry that its end does not lie past goes on for ever.
theorem visited_never (hsorted : entries.Pairwise fun a b => place a < place b) {a : α}
    (ha : a ∈ entries) (hupper : upper ≤ place a) (hlower : place a < lower) :
    visited (entriesFrom place entries lower) (entriesFrom place entries upper) = none := by
  have hsplit := entriesFrom_split hsorted (show upper ≤ lower by omega)
  cases hfront : entries.filter fun a => upper ≤ place a ∧ place a < lower with
  | nil =>
      have hin : a ∈ entries.filter fun a => upper ≤ place a ∧ place a < lower :=
        List.mem_filter.mpr ⟨ha, decide_eq_true ⟨hupper, hlower⟩⟩
      rw [hfront] at hin
      cases hin
  | cons first front =>
      have hfirst : first ∈ entries.filter fun a => upper ≤ place a ∧ place a < lower := by
        rw [hfront]
        exact List.mem_cons_self
      have hlt := (of_decide_eq_true (List.mem_filter.mp hfirst).2).2
      rw [hsplit, hfront, List.cons_append]
      apply visited_eq_none
      intro hmem
      have hge := of_decide_eq_true (List.mem_filter.mp hmem).2
      omega

end Visits

section Lexicographic

variable {α : Type} (digit : α → Nat)

-- The first digit that differs decides, and else the shorter key is the smaller one.
def lexLe : List α → List α → Bool
  | [], _ => true
  | _ :: _, [] => false
  | a :: as, b :: bs => if digit a = digit b then lexLe as bs else digit a < digit b

variable {digit}

theorem lexLe_trans {as bs cs : List α} (h : lexLe digit as bs) (h' : lexLe digit bs cs) :
    lexLe digit as cs := by
  induction as generalizing bs cs with
  | nil => rfl
  | cons a as ih =>
      cases bs with
      | nil => cases h
      | cons b bs =>
          cases cs with
          | nil => cases h'
          | cons c cs =>
              unfold lexLe at h h' ⊢
              by_cases hab : digit a = digit b
              · rw [if_pos hab] at h
                by_cases hbc : digit b = digit c
                · rw [if_pos hbc] at h'
                  rw [if_pos (hab.trans hbc)]
                  exact ih h h'
                · rw [if_neg hbc] at h'
                  rwa [if_neg (hab ▸ hbc), hab]
              · rw [if_neg hab, decide_eq_true_eq] at h
                have hlt : digit a < digit c := by
                  by_cases hbc : digit b = digit c
                  · exact hbc ▸ h
                  · rw [if_neg hbc, decide_eq_true_eq] at h'
                    exact Nat.lt_trans h h'
                rw [if_neg (Nat.ne_of_lt hlt)]
                exact decide_eq_true hlt

theorem lexLe_total (as bs : List α) : lexLe digit as bs ∨ lexLe digit bs as := by
  induction as generalizing bs with
  | nil => exact .inl rfl
  | cons a as ih =>
      cases bs with
      | nil => exact .inr rfl
      | cons b bs =>
          simp only [lexLe]
          by_cases heq : digit a = digit b
          · rw [if_pos heq, if_pos heq.symm]
            exact ih bs
          · rw [if_neg heq, if_neg (Ne.symm heq)]
            simp only [decide_eq_true_eq]
            omega

theorem lexLe_antisymm (hinj : Function.Injective digit) {as bs : List α}
    (h : lexLe digit as bs) (h' : lexLe digit bs as) : as = bs := by
  induction as generalizing bs with
  | nil =>
      cases bs with
      | nil => rfl
      | cons b bs => cases h'
  | cons a as ih =>
      cases bs with
      | nil => cases h
      | cons b bs =>
          simp only [lexLe] at h h'
          by_cases heq : digit a = digit b
          · rw [if_pos heq] at h
            rw [if_pos heq.symm] at h'
            rw [hinj heq, ih h h']
          · rw [if_neg heq] at h
            rw [if_neg (Ne.symm heq)] at h'
            simp only [decide_eq_true_eq] at h h'
            omega

-- Keys of one length are in the order of the numbers that they are the digits of.
theorem lexLe_iff {base : Nat} (hlt : ∀ a, digit a < base) {as bs : List α}
    (hlength : as.length = bs.length) : lexLe digit as bs ↔
      numeralValue base 0 (as.map digit) ≤ numeralValue base 0 (bs.map digit) := by
  induction as generalizing bs with
  | nil =>
      rw [List.eq_nil_of_length_eq_zero hlength.symm]
      exact iff_of_true rfl (Nat.le_refl _)
  | cons a as ih =>
      cases bs with
      | nil => cases hlength
      | cons b bs =>
          have hrest : as.length = bs.length := Nat.succ.inj hlength
          have hvalue (cs : List α) : numeralValue base 0 (cs.map digit) < base ^ cs.length := by
            have hdigits : ∀ d ∈ cs.map digit, d < base := by
              intro d hd
              obtain ⟨c, -, rfl⟩ := List.mem_map.mp hd
              exact hlt c
            simpa using numeralValue_lt hdigits
          have has := hvalue as
          have hbs := hvalue bs
          rw [List.map_cons, List.map_cons, numeralValue_cons, numeralValue_cons, List.length_map,
            List.length_map, lexLe]
          rw [hrest] at has ⊢
          by_cases heq : digit a = digit b
          · rw [if_pos heq, ih hrest, heq]
            omega
          · rw [if_neg heq, decide_eq_true_eq]
            constructor
            · intro h
              have hmul := Nat.mul_le_mul_right (base ^ bs.length) (Nat.succ_le_of_lt h)
              rw [Nat.succ_mul] at hmul
              omega
            · intro h
              by_contra hge
              have hmul := Nat.mul_le_mul_right (base ^ bs.length)
                (show digit b + 1 ≤ digit a by omega)
              rw [Nat.succ_mul] at hmul
              omega

end Lexicographic

end Raicoin.Lib
