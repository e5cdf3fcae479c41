import Mathlib.Data.List.Basic

-- Streaks: how many of the latest entries of a list are of a kind.
namespace Raicoin.Lib

variable {α : Type} (p : α → Bool)

def streak (l : List α) : Nat := (l.takeWhile p).length

@[simp] theorem streak_nil : streak p [] = 0 := rfl

theorem streak_cons_pos {a : α} (l : List α) (h : p a = true) :
    streak p (a :: l) = streak p l + 1 := by
  simp [streak, h]

theorem streak_cons_neg {a : α} (l : List α) (h : p a = false) : streak p (a :: l) = 0 := by
  simp [streak, h]

-- A streak that goes on is longer by what came.
theorem streak_append {new : List α} (old : List α) (h : ∀ a ∈ new, p a = true) :
    streak p (new ++ old) = new.length + streak p old := by
  induction new with
  | nil => rw [List.nil_append, List.length_nil, Nat.zero_add]
  | cons a new ih =>
      rw [List.cons_append, streak_cons_pos p _ (h a (List.mem_cons_self ..)),
        ih fun b hb => h b (List.mem_cons_of_mem a hb), List.length_cons]
      omega

-- The latest `n` entries are all of the kind.
theorem of_le_streak {l : List α} {n : Nat} (h : n ≤ streak p l) :
    (l.take n).length = n ∧ ∀ a ∈ l.take n, p a = true := by
  induction l generalizing n with
  | nil =>
      obtain rfl : n = 0 := Nat.le_zero.mp h
      exact ⟨rfl, nofun⟩
  | cons a l ih =>
      cases n with
      | zero => exact ⟨rfl, nofun⟩
      | succ n =>
          cases ha : p a with
          | false =>
              rw [streak_cons_neg p l ha] at h
              omega
          | true =>
              rw [streak_cons_pos p l ha] at h
              have hn : n ≤ streak p l := by omega
              obtain ⟨hlength, hall⟩ := ih hn
              rw [List.take_succ_cons]
              refine ⟨by rw [List.length_cons, hlength], fun b hb => ?_⟩
              rcases List.mem_cons.mp hb with rfl | hb
              · exact ha
              · exact hall b hb

end Raicoin.Lib
