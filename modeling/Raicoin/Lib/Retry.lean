import Mathlib.Algebra.Ring.Nat
import Mathlib.Data.Finset.Card
import Mathlib.Logic.Relation
import Mathlib.Order.Bounds.Basic

namespace Raicoin.Lib

-- What depends on an item, directly or through others, among the items that are there.
section Dependents

variable {α : Type} (depends : α → α → Prop)

def DependsIn (live : Finset α) (b c : α) : Prop := c ∈ live ∧ depends b c

def dependents (live : Finset α) (b : α) : Set α :=
  {c | Relation.ReflTransGen (DependsIn depends live) b c}

variable {depends} {live live' : Finset α} {b c d : α}

theorem dependents_self : b ∈ dependents depends live b := Relation.ReflTransGen.refl

theorem dependents_trans (hd : d ∈ dependents depends live b)
    (hc : c ∈ dependents depends live d) : c ∈ dependents depends live b :=
  Relation.ReflTransGen.trans hd hc

theorem dependents_next (hc : c ∈ dependents depends live b) (hd : d ∈ live) (h : depends c d) :
    d ∈ dependents depends live b :=
  Relation.ReflTransGen.tail hc ⟨hd, h⟩

theorem dependents_mono (hsub : live' ⊆ live) (hc : c ∈ dependents depends live' b) :
    c ∈ dependents depends live b :=
  Relation.ReflTransGen.mono (fun _ _ h => ⟨hsub h.1, h.2⟩) _ _ hc

-- What holds of an item and goes on to what depends on it holds of all dependents.
theorem dependents_induction {P : α → Prop} (hb : b ∈ live) (hself : P b)
    (hnext : ∀ x ∈ live, P x → ∀ y ∈ live, depends x y → P y)
    (hc : c ∈ dependents depends live b) : c ∈ live ∧ P c := by
  induction hc with
  | refl => exact ⟨hb, hself⟩
  | tail _ hstep ih => exact ⟨hstep.1, hnext _ ih.1 ih.2 _ hstep.1 hstep.2⟩

theorem dependents_least (live : Finset α) (b : α) :
    IsLeast {S | b ∈ S ∧ ∀ x ∈ S, ∀ y ∈ live, depends x y → y ∈ S} (dependents depends live b) := by
  refine ⟨⟨dependents_self, fun x hx y hy h => dependents_next hx hy h⟩, ?_⟩
  rintro S ⟨hb, hS⟩ c hc
  induction hc with
  | refl => exact hb
  | tail _ hstep ih => exact hS _ ih _ hstep.1 hstep.2

theorem dependents_alone (hnone : ∀ c ∈ live, ¬depends b c) :
    c ∈ dependents depends live b ↔ c = b := by
  constructor
  · intro hc
    induction hc with
    | refl => rfl
    | tail _ hstep ih => exact absurd hstep.2 (ih ▸ hnone _ hstep.1)
  · rintro rfl
    exact dependents_self

-- Without the dependents of one dependent, the others are what is left of them.
theorem dependents_split (hd : d ∈ dependents depends live b)
    (hlive : ∀ x, x ∈ live' ↔ x ∈ live ∧ x ∉ dependents depends live d) :
    c ∈ dependents depends live b ↔
      c ∈ dependents depends live d ∨ c ∈ dependents depends live' b := by
  constructor
  · intro hc
    induction hc with
    | refl => exact .inr dependents_self
    | @tail x y _ hstep ih =>
        by_cases hy : y ∈ dependents depends live d
        · exact .inl hy
        · refine ih.imp (fun hx => absurd (dependents_next hx hstep.1 hstep.2) hy) fun hx => ?_
          exact dependents_next hx ((hlive y).mpr ⟨hstep.1, hy⟩) hstep.2
  · rintro (hc | hc)
    · exact dependents_trans hd hc
    · exact dependents_mono (fun x hx => ((hlive x).mp hx).1) hc

end Dependents

-- A machine that works on the top of a stack of tasks.
section Machine

variable {ι σ τ : Type} (step : ι → σ → List τ → Option (σ × List τ))

-- A number of rounds, each with an input of its own.
def rounds : Nat → (Nat → ι) → σ → List τ → Option (σ × List τ)
  | 0, _, s, stack => some (s, stack)
  | n + 1, input, s, stack =>
    (step (input 0) s stack).bind fun next => rounds n (fun k => input (k + 1)) next.1 next.2

-- Whatever the inputs, the task `t` on the top is gone after `n` rounds, and not before.
def Finishes (n : Nat) (s : σ) (t : τ) (s' : σ) : Prop := ∀ input rest,
  rounds step n input s (t :: rest) = some (s', rest) ∧
    ∀ m < n, ∃ mid above, rounds step m input s (t :: rest) = some (mid, above ++ t :: rest)

variable {step} {n m : Nat} {s mid s' : σ} {t u : τ}

theorem rounds_add (input : Nat → ι) (stack : List τ) :
    rounds step (n + m) input s stack = (rounds step n input s stack).bind fun next =>
      rounds step m (fun k => input (n + k)) next.1 next.2 := by
  induction n generalizing s stack input with
  | zero => simp [rounds]
  | succ n ih =>
      rw [Nat.add_right_comm, rounds, rounds, Option.bind_assoc]
      congr 1
      funext next
      rw [ih]
      simp only [Nat.add_right_comm]

theorem finishes_one (h : ∀ i rest, step i s (t :: rest) = some (s', rest)) :
    Finishes step 1 s t s' := by
  intro input rest
  refine ⟨by simp [rounds, h], fun m hm => ⟨s, [], ?_⟩⟩
  rw [Nat.lt_one_iff.mp hm]
  rfl

theorem Finishes.step_isSome (h : Finishes step n s t s') (i : ι) (rest : List τ) :
    (step i s (t :: rest)).isSome := by
  obtain ⟨hn, -⟩ := h (fun _ => i) rest
  cases n with
  | zero => simp [rounds] at hn
  | succ n =>
      obtain ⟨next, hnext, -⟩ := Option.bind_eq_some_iff.mp hn
      exact Option.isSome_iff_exists.mpr ⟨next, hnext⟩

-- A task that pushes another is tried again once that one is gone.
theorem Finishes.retry (hpush : ∀ i rest, step i s (t :: rest) = some (s, u :: t :: rest))
    (hu : Finishes step n s u mid) (ht : Finishes step m mid t s') :
    Finishes step (1 + n + m) s t s' := by
  intro input rest
  have hone : rounds step 1 input s (t :: rest) = some (s, u :: t :: rest) := by
    simp [rounds, hpush]
  obtain ⟨hu, hubefore⟩ := hu (fun k => input (1 + k)) (t :: rest)
  obtain ⟨ht, htbefore⟩ := ht (fun k => input (1 + n + k)) rest
  have hfirst : rounds step (1 + n) input s (t :: rest) = some (mid, t :: rest) := by
    rw [rounds_add, hone]
    exact hu
  refine ⟨by rw [rounds_add, hfirst]; exact ht, fun k hk => ?_⟩
  rcases Nat.lt_or_ge k 1 with hk | hk
  · rw [Nat.lt_one_iff.mp hk]
    exact ⟨s, [], rfl⟩
  · rcases Nat.lt_or_ge k (1 + n) with hk' | hk'
    · obtain ⟨j, rfl⟩ := Nat.exists_eq_add_of_le hk
      obtain ⟨x, above, hx⟩ := hubefore j (by omega)
      refine ⟨x, above ++ [u], ?_⟩
      rw [rounds_add, hone, List.append_assoc]
      exact hx
    · obtain ⟨j, rfl⟩ := Nat.exists_eq_add_of_le hk'
      obtain ⟨x, above, hx⟩ := htbefore j (by omega)
      refine ⟨x, above, ?_⟩
      rw [rounds_add, hfirst]
      exact hx

end Machine

-- When each task is to remove an item, and is either done at once or pushes the task of an
-- item that depends on its own, it ends, and has removed the dependents and nothing else.
section Removal

variable {ι σ τ α : Type} [DecidableEq α]

structure Removal (step : ι → σ → List τ → Option (σ × List τ)) (task : α → τ)
    (depends : α → α → Prop) (live : σ → Finset α) (sound : σ → Prop) (allowed : α → Prop)
    (rank : α → Nat) (top : Nat) : Prop where
  ordered : ∀ s, sound s → ∀ b ∈ live s, ∀ c ∈ live s, depends b c → rank b < rank c
  rank_le : ∀ s, sound s → ∀ b ∈ live s, rank b ≤ top
  allowed_next : ∀ s, sound s → ∀ b ∈ live s, allowed b → ∀ c ∈ live s, depends b c → allowed c
  attempt : ∀ s, sound s → ∀ b ∈ live s, allowed b →
    (∃ s', sound s' ∧ live s' = (live s).erase b ∧ (∀ c ∈ live s, ¬depends b c) ∧
      ∀ i rest, step i s (task b :: rest) = some (s', rest)) ∨
    ∃ c ∈ live s, depends b c ∧ ∃ d ∈ dependents depends (live s) c,
      ∀ i rest, step i s (task b :: rest) = some (s, task d :: task b :: rest)

variable {step : ι → σ → List τ → Option (σ × List τ)} {task : α → τ}
  {depends : α → α → Prop} {live : σ → Finset α} {sound : σ → Prop} {allowed : α → Prop}
  {rank : α → Nat} {top : Nat}

namespace Removal

variable (h : Removal step task depends live sound allowed rank top)
include h

theorem rank_le_dependents {s : σ} (hs : sound s) {b c : α} (hb : b ∈ live s)
    (hc : c ∈ dependents depends (live s) b) : rank b ≤ rank c :=
  (dependents_induction hb (Nat.le_refl _)
    (fun x hx hle y hy hxy => Nat.le_trans hle (h.ordered s hs x hx y hy hxy).le) hc).2

theorem finishes {s : σ} (hs : sound s) {b : α} (hb : b ∈ live s) (hallowed : allowed b) :
    ∃ n s', Finishes step n s (task b) s' ∧ sound s' ∧
      ∀ c, c ∈ live s' ↔ c ∈ live s ∧ c ∉ dependents depends (live s) b := by
  rcases h.attempt s hs b hb hallowed with ⟨s', hs', hlive, hnone, hstep⟩ |
    ⟨c, hc, hbc, d, hcd, hstep⟩
  · refine ⟨1, s', finishes_one hstep, hs', fun c => ?_⟩
    rw [hlive, Finset.mem_erase, dependents_alone hnone, and_comm]
  · have hd := dependents_trans (dependents_next dependents_self hc hbc) hcd
    obtain ⟨hdlive, hdallowed⟩ := dependents_induction hb hallowed (h.allowed_next s hs) hd
    have hrank := (h.ordered s hs b hb c hc hbc).trans_le (h.rank_le_dependents hs hc hcd)
    have hle := h.rank_le s hs d hdlive
    -- the item that was pushed has a higher rank
    obtain ⟨n, mid, hfirst, hmid, hrest⟩ := finishes hs hdlive hdallowed
    have hbmid : b ∈ live mid := by
      refine (hrest b).mpr ⟨hb, fun hbd => ?_⟩
      have hback := h.rank_le_dependents hs hdlive hbd
      omega
    -- and once it is gone there are fewer items
    have hfewer : (live mid).card < (live s).card := by
      refine Finset.card_lt_card ⟨fun c hc => ((hrest c).mp hc).1, fun hsub => ?_⟩
      exact ((hrest d).mp (hsub hdlive)).2 dependents_self
    obtain ⟨m, s', hsecond, hs', hlive⟩ := finishes hmid hbmid hallowed
    refine ⟨1 + n + m, s', hfirst.retry hstep hsecond, hs', fun c => ?_⟩
    rw [hlive, hrest, dependents_split hd hrest, not_or, and_assoc]
termination_by (top - rank b, (live s).card)

end Removal

end Removal

end Raicoin.Lib
