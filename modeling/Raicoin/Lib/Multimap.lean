import Mathlib.Algebra.Ring.Nat
import Mathlib.Data.List.Induction
import Mathlib.Data.List.Perm.Basic

-- Multimaps that are ordered by falling scores, and the best of a list, as one is filled with it.
namespace Raicoin.Lib.Multimap

variable {α : Type} (score : α → Nat)

-- What comes later stands behind its equals.
def emplace (a : α) : List α → List α
  | [] => [a]
  | first :: rest => if score a > score first then a :: first :: rest else first :: emplace a rest

-- What is left, and what the iterator that is returned points to.
def erase (position : Nat) (kept : List α) : List α × Option α :=
  (kept.eraseIdx position, (kept.eraseIdx position)[position]?)

-- One more, of which the last may go again.
def keep (limit : Nat) (kept : List α) (a : α) : List α :=
  let kept := emplace score a kept
  if kept.length > limit then (erase (kept.length - 1) kept).1 else kept

variable {score} {limit : Nat} {entries kept : List α} {a : α}

-- Behind the last one there is nothing.
theorem erase_last : erase (kept.length - 1) kept = (kept.dropLast, none) := by
  unfold erase
  rw [List.eraseIdx_length_sub_one, List.getElem?_eq_none (by rw [List.length_dropLast])]

theorem emplace_split (h : kept.Pairwise fun a b => score b ≤ score a) :
    ∃ before after, kept = before ++ after ∧ emplace score a kept = before ++ a :: after ∧
      (∀ b ∈ before, score a ≤ score b) ∧ ∀ b ∈ after, score b < score a := by
  induction kept with
  | nil => exact ⟨[], [], rfl, rfl, fun _ hb => (by cases hb), fun _ hb => (by cases hb)⟩
  | cons first rest ih =>
      obtain ⟨hfirst, hrest⟩ := List.pairwise_cons.mp h
      unfold emplace
      by_cases hgreater : score a > score first
      · refine ⟨[], first :: rest, rfl, if_pos hgreater, fun _ hb => (by cases hb), fun b hb => ?_⟩
        rcases List.mem_cons.mp hb with rfl | hb
        · exact hgreater
        · exact Nat.lt_of_le_of_lt (hfirst b hb) hgreater
      · obtain ⟨before, after, rfl, heq, hbefore, hafter⟩ := ih hrest
        refine ⟨first :: before, after, rfl, ?_, fun b hb => ?_, hafter⟩
        · rw [if_neg hgreater, heq, List.cons_append]
        · rcases List.mem_cons.mp hb with rfl | hb
          · exact Nat.le_of_not_lt hgreater
          · exact hbefore b hb

theorem emplace_perm (a : α) (kept : List α) : (emplace score a kept).Perm (a :: kept) := by
  induction kept with
  | nil => exact .refl _
  | cons first rest ih =>
      unfold emplace
      split
      · exact .refl _
      · exact (ih.cons first).trans (.swap a first rest)

theorem emplace_falling (h : kept.Pairwise fun a b => score b ≤ score a) :
    (emplace score a kept).Pairwise fun a b => score b ≤ score a := by
  obtain ⟨before, after, rfl, heq, hbefore, hafter⟩ := @emplace_split _ score kept a h
  rw [heq]
  obtain ⟨hfront, hback, hcross⟩ := List.pairwise_append.mp h
  refine List.pairwise_append.mpr ⟨hfront, ?_, fun b hb c hc => ?_⟩
  · exact List.pairwise_cons.mpr ⟨fun b hb => Nat.le_of_lt (hafter b hb), hback⟩
  · rcases List.mem_cons.mp hc with rfl | hc
    · exact hbefore b hb
    · exact hcross b hb c hc

-- The best of the entries, as many as there may be, in the order of falling scores.
structure Tops (score : α → Nat) (limit : Nat) (entries kept : List α) : Prop where
  falling : kept.Pairwise fun a b => score b ≤ score a
  length : kept.length = min limit entries.length
  best : ∃ dropped, (kept ++ dropped).Perm entries ∧ ∀ a ∈ kept, ∀ b ∈ dropped, score b ≤ score a

theorem Tops.nil : Tops score limit [] [] where
  falling := .nil
  length := (Nat.min_zero limit).symm
  best := ⟨[], .refl _, fun _ ha => (by cases ha)⟩

theorem Tops.keep (h : Tops score limit entries kept) :
    Tops score limit (entries ++ [a]) (Multimap.keep score limit kept a) := by
  obtain ⟨dropped, hperm, hbest⟩ := h.best
  have hlength := h.length
  have hcount : kept.length + dropped.length = entries.length := by
    rw [← List.length_append]
    exact hperm.length_eq
  have hmore : (emplace score a kept).length = kept.length + 1 :=
    (emplace_perm a kept).length_eq
  have hfalling := @emplace_falling _ score kept a h.falling
  unfold Multimap.keep
  dsimp only
  rw [erase_last]
  by_cases hfull : kept.length < limit
  · -- As long as there is room, nothing has been dropped.
    have hnone : dropped = [] := List.length_eq_zero_iff.mp (by omega)
    rw [if_neg (by omega)]
    refine ⟨hfalling, by rw [List.length_append, List.length_singleton]; omega, [], ?_,
      fun _ _ b hb => (by cases hb)⟩
    rw [List.append_nil]
    rw [hnone, List.append_nil] at hperm
    exact (emplace_perm a kept).trans ((hperm.cons a).trans (List.perm_append_singleton a entries).symm)
  · rw [if_pos (by omega)]
    obtain ⟨front, last, hsplit⟩ : ∃ front last, emplace score a kept = front ++ [last] := by
      refine (List.eq_nil_or_concat' _).resolve_left fun hnil => ?_
      rw [hnil] at hmore
      cases hmore
    have hold : (front ++ [last]).Perm (a :: kept) := hsplit ▸ emplace_perm a kept
    rw [hsplit] at hfalling ⊢
    obtain ⟨hfront, -, hlast⟩ := List.pairwise_append.mp hfalling
    rw [List.dropLast_concat]
    refine ⟨hfront, ?_, last :: dropped, ?_, fun b hb c hc => ?_⟩
    · have hkept := hold.length_eq
      rw [List.length_append, List.length_singleton, List.length_cons] at hkept
      rw [List.length_append, List.length_singleton]
      dsimp only
      omega
    · have hnext := (hold.append_right dropped).trans ((hperm.cons a).trans
        (List.perm_append_singleton a entries).symm)
      rwa [List.append_assoc] at hnext
    · have hleast := hlast b hb last (List.mem_singleton_self _)
      rcases List.mem_cons.mp hc with rfl | hc
      · exact hleast
      · by_cases hin : last ∈ kept
        · exact Nat.le_trans (hbest last hin c hc) hleast
        · -- The new one goes at once.
          have hsame : last = a := by
            have hmem := hold.subset (List.mem_append_right _ (List.mem_singleton_self last))
            exact (List.mem_cons.mp hmem).resolve_right hin
          have hrest : front.Perm kept := by
            rw [hsame] at hold
            exact ((List.perm_append_singleton a front).symm.trans hold).cons_inv
          exact hbest b (hrest.subset hb) c hc

-- What is kept of the entries that come one by one.
theorem tops_foldl (entries : List α) : Tops score limit entries (entries.foldl (keep score limit) []) := by
  induction entries using List.reverseRecOn with
  | nil => exact .nil
  | append_singleton entries a ih =>
      rw [List.foldl_append]
      exact ih.keep

end Raicoin.Lib.Multimap
