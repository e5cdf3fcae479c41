import Mathlib.Algebra.Ring.Nat
import Mathlib.Data.Nat.Basic
import Mathlib.Tactic.Common

-- Numerals of a fixed width in a fixed base, the most significant digit first.
namespace Raicoin.Lib

variable {base : Nat}

def numeral (base : Nat) : Nat → Nat → List Nat
  | 0, _ => []
  | width + 1, value => value / base ^ width % base :: numeral base width value

-- The value that a reader has accumulated after the digits, when it had `value` before.
def numeralValue (base : Nat) (value : Nat) (digits : List Nat) : Nat :=
  digits.foldl (fun value digit => value * base + digit) value

@[simp] theorem numeral_length (width value : Nat) : (numeral base width value).length = width := by
  induction width with
  | zero => rfl
  | succ width ih => simp [numeral, ih]

theorem numeral_lt (hbase : 0 < base) {width value digit : Nat}
    (h : digit ∈ numeral base width value) : digit < base := by
  induction width with
  | zero => simp [numeral] at h
  | succ width ih =>
      rcases List.mem_cons.mp h with rfl | h
      · exact Nat.mod_lt _ hbase
      · exact ih h

-- The last digit is the remainder, and the others are the numeral of the quotient.
theorem numeral_succ (width value : Nat) :
    numeral base (width + 1) value = numeral base width (value / base) ++ [value % base] := by
  induction width with
  | zero => simp [numeral]
  | succ width ih =>
      rw [numeral, ih, ← List.cons_append, numeral, Nat.div_div_eq_div_mul, Nat.pow_succ']

theorem numeralValue_eq (value : Nat) (digits : List Nat) :
    numeralValue base value digits = value * base ^ digits.length + numeralValue base 0 digits := by
  induction digits generalizing value with
  | nil => simp [numeralValue]
  | cons digit digits ih =>
      have hstep (value : Nat) : numeralValue base value (digit :: digits) =
          numeralValue base (value * base + digit) digits := rfl
      rw [hstep, hstep, ih (value * base + digit), ih (0 * base + digit), List.length_cons,
        Nat.pow_succ', Nat.zero_mul, Nat.zero_add, Nat.add_mul, Nat.mul_assoc, Nat.add_assoc]

theorem numeralValue_cons (digit : Nat) (digits : List Nat) :
    numeralValue base 0 (digit :: digits) =
      digit * base ^ digits.length + numeralValue base 0 digits := by
  have hstep : numeralValue base 0 (digit :: digits) = numeralValue base (0 * base + digit) digits :=
    rfl
  rw [hstep, numeralValue_eq, Nat.zero_mul, Nat.zero_add]

theorem numeralValue_lt {digits : List Nat} (h : ∀ digit ∈ digits, digit < base) :
    numeralValue base 0 digits < base ^ digits.length := by
  induction digits with
  | nil => simp [numeralValue]
  | cons digit digits ih =>
      have hfirst := h digit List.mem_cons_self
      have hrest := ih fun d hd => h d (List.mem_cons_of_mem _ hd)
      rw [numeralValue_cons, List.length_cons, Nat.pow_succ']
      have hle : (digit + 1) * base ^ digits.length ≤ base * base ^ digits.length :=
        Nat.mul_le_mul_right _ hfirst
      rw [Nat.add_mul, Nat.one_mul] at hle
      omega

-- Writing and reading back keeps the number as far as the width can hold it.
theorem numeralValue_numeral (width value : Nat) :
    numeralValue base 0 (numeral base width value) = value % base ^ width := by
  induction width with
  | zero => simp [numeral, numeralValue, Nat.mod_one]
  | succ width ih =>
      rw [numeral, numeralValue_cons, numeral_length, ih, Nat.pow_succ, Nat.mod_mul,
        Nat.mul_comm, Nat.add_comm]

-- A numeral does not see what its width cannot hold.
theorem numeral_add_mul (hbase : 0 < base) (width value extra : Nat) :
    numeral base width (value + base ^ width * extra) = numeral base width value := by
  induction width generalizing extra with
  | zero => rfl
  | succ width ih =>
      have hpos : 0 < base ^ width := Nat.pow_pos hbase
      rw [numeral, numeral, Nat.pow_succ, Nat.mul_assoc, ih, Nat.add_mul_div_left _ _ hpos,
        Nat.add_mul_mod_self_left]

-- Reading and writing back keeps the digits.
theorem numeral_numeralValue {digits : List Nat} (h : ∀ digit ∈ digits, digit < base) :
    numeral base digits.length (numeralValue base 0 digits) = digits := by
  induction digits with
  | nil => rfl
  | cons digit digits ih =>
      have hfirst := h digit List.mem_cons_self
      have hrest : ∀ d ∈ digits, d < base := fun d hd => h d (List.mem_cons_of_mem _ hd)
      have hlt := numeralValue_lt hrest
      have hpos : 0 < base ^ digits.length := by omega
      rw [List.length_cons, numeral, numeralValue_cons, Nat.add_comm, Nat.mul_comm digit,
        numeral_add_mul (by omega), ih hrest, Nat.add_mul_div_left _ _ hpos,
        Nat.div_eq_of_lt hlt, Nat.zero_add, Nat.mod_eq_of_lt hfirst]

end Raicoin.Lib
