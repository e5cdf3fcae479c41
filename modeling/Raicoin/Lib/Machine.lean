import Mathlib.Algebra.Ring.Nat
import Mathlib.Data.List.Induction

-- State machines, and the runs that remember where they have been.
namespace Raicoin.Lib

-- `fits` says which actions can be taken in a state.
structure Machine (σ α : Type) where
  start : σ → Prop
  fits : σ → α → Prop
  step : σ → α → σ

-- What a run has done, the latest step first: each action with the state it was taken in.
abbrev History (σ α : Type) := List (σ × α)

namespace Machine

variable {σ α : Type} (m : Machine σ α)

-- The runs whose states, each with the history that led to it, are all allowed.
inductive Run (allowed : History σ α → σ → Prop) : History σ α → σ → Prop where
  | start {s : σ} (hstart : m.start s) (hallowed : allowed [] s) : Run allowed [] s
  | step {history : History σ α} {s : σ} {action : α} (hrun : Run allowed history s)
      (hfits : m.fits s action) (hallowed : allowed ((s, action) :: history) (m.step s action)) :
      Run allowed ((s, action) :: history) (m.step s action)

-- The run of a list of actions.
def exec (s : σ) (actions : List α) : History σ α × σ :=
  actions.foldl (fun at_ action => ((at_.2, action) :: at_.1, m.step at_.2 action)) ([], s)

variable {m} {allowed : History σ α → σ → Prop} {history : History σ α} {s : σ}

theorem Run.last_allowed (h : m.Run allowed history s) : allowed history s := by
  cases h with
  | start _ hallowed => exact hallowed
  | step _ _ hallowed => exact hallowed

-- The invariant rule. A step may use that it is part of a run.
theorem Run.invariant {P : History σ α → σ → Prop} (h : m.Run allowed history s)
    (hstart : ∀ s, m.start s → P [] s)
    (hstep : ∀ history s action, m.Run allowed history s → m.fits s action →
      allowed ((s, action) :: history) (m.step s action) → P history s →
      P ((s, action) :: history) (m.step s action)) : P history s := by
  induction h with
  | start hs _ => exact hstart _ hs
  | step hrun hfits hallowed ih => exact hstep _ _ _ hrun hfits hallowed ih

theorem exec_append (s : σ) (actions : List α) (action : α) :
    m.exec s (actions ++ [action]) =
      (((m.exec s actions).2, action) :: (m.exec s actions).1,
        m.step (m.exec s actions).2 action) := by
  rw [exec, List.foldl_append]
  rfl

theorem action_of_exec {s : σ} {actions : List α} {taken : σ × α}
    (h : taken ∈ (m.exec s actions).1) : taken.2 ∈ actions := by
  induction actions using List.reverseRecOn with
  | nil => cases h
  | append_singleton actions action ih =>
      rw [exec_append, List.mem_cons] at h
      rcases h with rfl | h
      · exact List.mem_append_right _ (List.mem_singleton_self _)
      · exact List.mem_append_left _ (ih h)

-- What the first actions have done stays in the history.
theorem mem_exec_of_take {s : σ} {actions : List α} {n : Nat} {taken : σ × α}
    (h : taken ∈ (m.exec s (actions.take n)).1) : taken ∈ (m.exec s actions).1 := by
  induction actions using List.reverseRecOn with
  | nil => rwa [List.take_nil] at h
  | append_singleton actions action ih =>
      rcases Nat.lt_or_ge actions.length n with hlt | hle
      · rwa [List.take_of_length_le (by rw [List.length_append]; exact hlt)] at h
      · rw [List.take_append_of_le_length hle] at h
        rw [exec_append]
        exact List.mem_cons_of_mem _ (ih h)

-- Each action is taken in the state that those before it lead to.
theorem taken_mem_exec {s : σ} {actions : List α} {n : Nat} (h : n < actions.length) :
    ((m.exec s (actions.take n)).2, actions[n]) ∈ (m.exec s actions).1 := by
  apply mem_exec_of_take (n := n + 1)
  rw [List.take_succ_eq_append_getElem h, exec_append]
  exact List.mem_cons_self

-- It is a run if its actions fit where they are taken, and what it goes through is allowed.
theorem exec_run_of_fits {s : σ} {actions : List α} (hstart : m.start s)
    (hfits : ∀ n (h : n < actions.length), m.fits (m.exec s (actions.take n)).2 actions[n])
    (hallowed : ∀ n ≤ actions.length,
      allowed (m.exec s (actions.take n)).1 (m.exec s (actions.take n)).2) :
    m.Run allowed (m.exec s actions).1 (m.exec s actions).2 := by
  induction actions using List.reverseRecOn with
  | nil => exact .start hstart (hallowed 0 (Nat.le_refl 0))
  | append_singleton actions action ih =>
      have hlength : (actions ++ [action]).length = actions.length + 1 := by simp
      have hlast := hallowed (actions.length + 1) (by omega)
      rw [List.take_of_length_le (by omega), exec_append] at hlast
      have hfit := hfits actions.length (by omega)
      rw [List.take_left, List.getElem_concat_length rfl] at hfit
      rw [exec_append]
      refine .step (ih ?_ ?_) hfit hlast
      · intro n hn
        have hprefix := hfits n (by omega)
        rwa [List.take_append_of_le_length (Nat.le_of_lt hn), List.getElem_append_left hn] at hprefix
      · intro n hn
        have hprefix := hallowed n (by omega)
        rwa [List.take_append_of_le_length hn] at hprefix

theorem exec_run {s : σ} {actions : List α} (hstart : m.start s)
    (hfits : ∀ action ∈ actions, ∀ s, m.fits s action)
    (hallowed : ∀ n ≤ actions.length,
      allowed (m.exec s (actions.take n)).1 (m.exec s (actions.take n)).2) :
    m.Run allowed (m.exec s actions).1 (m.exec s actions).2 :=
  exec_run_of_fits hstart (fun _ h => hfits _ (List.getElem_mem h) _) hallowed

end Machine

end Raicoin.Lib
