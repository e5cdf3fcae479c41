import Mathlib.Algebra.Ring.Nat
import Mathlib.Tactic.Common

namespace Raicoin.Lib

-- A computation over a state `σ` that stops at its first error `ε`. An error
-- keeps the state it was met in: what was done before it is not undone.
abbrev Process (ε σ α : Type) : Type := EStateM ε σ α

variable {ε σ α β : Type}

-- `if (condition) return code;`
def returnIf (condition : Prop) [Decidable condition] (code : ε) : Except ε Unit :=
  if condition then .error code else .ok ()

-- `error = get(...); if (error) return code;`
def orReturn (found : Option α) (code : ε) : Except ε α :=
  match found with
  | some value => .ok value
  | none => .error code

-- Runs a check that only reads the state.
def check (f : σ → Except ε α) : Process ε σ α := fun s =>
  match f s with
  | .ok value => .ok value s
  | .error code => .error code s

-- Runs a write that either fails with `code` or yields the next state.
def update (f : σ → Option σ) (code : ε) : Process ε σ Unit := fun s =>
  match f s with
  | some next => .ok () next
  | none => .error code s

-- `if (condition) { ... }` without a branch for the other case.
def runIf (condition : Prop) [Decidable condition] (p : Process ε σ Unit) : Process ε σ Unit :=
  if condition then p else pure ()

@[simp] theorem returnIf_eq_ok (condition : Prop) [Decidable condition] (code : ε) (u : Unit) :
    returnIf condition code = .ok u ↔ ¬condition := by
  unfold returnIf
  split <;> simp_all

@[simp] theorem returnIf_eq_error (condition : Prop) [Decidable condition] (code other : ε) :
    returnIf condition code = .error other ↔ condition ∧ code = other := by
  unfold returnIf
  split <;> simp_all

@[simp] theorem orReturn_eq_ok (found : Option α) (code : ε) (value : α) :
    orReturn found code = .ok value ↔ found = some value := by
  cases found <;> simp [orReturn]

@[simp] theorem orReturn_eq_error (found : Option α) (code other : ε) :
    orReturn found code = .error other ↔ found = none ∧ code = other := by
  cases found <;> simp [orReturn]

theorem Except.bind_eq_ok (x : Except ε α) (f : α → Except ε β) (value : β) :
    (x >>= f) = .ok value ↔ ∃ a, x = .ok a ∧ f a = .ok value := by
  cases x <;> simp [bind, Except.bind]

theorem Except.bind_eq_error (x : Except ε α) (f : α → Except ε β) (code : ε) :
    (x >>= f) = .error code ↔ x = .error code ∨ ∃ a, x = .ok a ∧ f a = .error code := by
  cases x <;> simp [bind, Except.bind]

-- A sequence of checks, one by one.
theorem returnIf_pass {condition : Prop} [Decidable condition] (h : ¬condition) (code : ε)
    (f : Unit → Except ε α) : (returnIf condition code >>= f) = f () := by
  rw [returnIf, if_neg h]
  rfl

theorem returnIf_stop {condition : Prop} [Decidable condition] (h : condition) (code : ε)
    (f : Unit → Except ε α) : (returnIf condition code >>= f) = .error code := by
  rw [returnIf, if_pos h]
  rfl

theorem Except.ok_bind (value : α) (f : α → Except ε β) : (Except.ok value >>= f) = f value := rfl

theorem orReturn_pass {found : Option α} {value : α} (h : found = some value) (code : ε)
    (f : α → Except ε β) : (orReturn found code >>= f) = f value := by
  rw [h]
  rfl

theorem orReturn_stop {found : Option α} (h : found = none) (code : ε) (f : α → Except ε β) :
    (orReturn found code >>= f) = .error code := by
  rw [h]
  rfl

theorem Except.pure_eq_ok (a value : α) : (pure a : Except ε α) = .ok value ↔ a = value := by
  simp [pure, Except.pure]

namespace Process

-- A sequence succeeds exactly when both parts do, the second from where the first ended.
theorem bind_eq_ok (x : Process ε σ α) (f : α → Process ε σ β) (s s' : σ) (value : β) :
    (x >>= f) s = .ok value s' ↔ ∃ a mid, x s = .ok a mid ∧ f a mid = .ok value s' := by
  change EStateM.bind x f s = _ ↔ _
  unfold EStateM.bind
  cases hx : x s with
  | ok a mid =>
      refine ⟨fun h => ⟨a, mid, rfl, h⟩, ?_⟩
      rintro ⟨_, _, he, h⟩
      cases he
      exact h
  | error code mid => simp

theorem bind_eq_error (x : Process ε σ α) (f : α → Process ε σ β) (s s' : σ) (code : ε) :
    (x >>= f) s = .error code s' ↔
      x s = .error code s' ∨ ∃ a mid, x s = .ok a mid ∧ f a mid = .error code s' := by
  change EStateM.bind x f s = _ ↔ _
  unfold EStateM.bind
  cases hx : x s with
  | ok a mid =>
      refine ⟨fun h => .inr ⟨a, mid, rfl, h⟩, ?_⟩
      rintro (h | ⟨_, _, he, h⟩)
      · cases h
      · cases he
        exact h
  | error other mid => simp

-- A sequence goes on from where its first part ended.
theorem bind_of_ok {x : Process ε σ α} {s mid : σ} {a : α} (h : x s = .ok a mid)
    (f : α → Process ε σ β) : (x >>= f) s = f a mid := by
  change EStateM.bind x f s = _
  rw [EStateM.bind, h]

theorem bind_then {x : Process ε σ α} {f : α → Process ε σ β} {s mid : σ} {a : α}
    {result : EStateM.Result ε σ β} (h : x s = .ok a mid) (hrest : f a mid = result) :
    (x >>= f) s = result :=
  (bind_of_ok h f).trans hrest

theorem bind_exists {m : Process ε σ α} {rest : α → Process ε σ β} {s s₁ : σ} {a : α} {b : β}
    (hm : m s = .ok a s₁) (hrest : ∃ s', rest a s₁ = .ok b s') :
    ∃ s', (m >>= rest) s = .ok b s' := by
  obtain ⟨s', hrest⟩ := hrest
  exact ⟨s', bind_then hm hrest⟩

theorem bind_of_error {x : Process ε σ α} {s mid : σ} {code : ε} (h : x s = .error code mid)
    (f : α → Process ε σ β) : (x >>= f) s = .error code mid := by
  change EStateM.bind x f s = _
  rw [EStateM.bind, h]

@[simp] theorem pure_eq_ok (a value : α) (s s' : σ) :
    (pure a : Process ε σ α) s = .ok value s' ↔ a = value ∧ s = s' := by
  change EStateM.Result.ok a s = _ ↔ _
  simp

@[simp] theorem check_eq_ok (f : σ → Except ε α) (s s' : σ) (value : α) :
    check f s = .ok value s' ↔ f s = .ok value ∧ s = s' := by
  unfold check
  cases f s <;> simp

@[simp] theorem check_eq_error (f : σ → Except ε α) (s s' : σ) (code : ε) :
    check f s = .error code s' ↔ f s = .error code ∧ s = s' := by
  unfold check
  cases f s <;> simp

@[simp] theorem update_eq_ok (f : σ → Option σ) (code : ε) (s s' : σ) (u : Unit) :
    update f code s = .ok u s' ↔ f s = some s' := by
  unfold update
  cases f s <;> simp

@[simp] theorem update_eq_error (f : σ → Option σ) (code other : ε) (s s' : σ) :
    update f code s = .error other s' ↔ f s = none ∧ code = other ∧ s = s' := by
  unfold update
  cases f s <;> simp

@[simp] theorem modify_eq_ok (f : σ → σ) (s s' : σ) (u : PUnit) :
    (modify f : Process ε σ PUnit) s = .ok u s' ↔ f s = s' := by
  change EStateM.Result.ok PUnit.unit (f s) = _ ↔ _
  simp

theorem runIf_eq_ok (condition : Prop) [Decidable condition] (p : Process ε σ Unit) (s s' : σ)
    (u : Unit) : runIf condition p s = .ok u s' ↔
      (condition ∧ p s = .ok u s') ∨ (¬condition ∧ s = s') := by
  unfold runIf
  split <;> simp_all

-- Errors of a computation are of the kind `P`.
def FailsLate (P : ε → Prop) (p : Process ε σ α) : Prop :=
  ∀ s code s', p s = .error code s' → P code

-- An error leaves the state as it was, unless it is of the kind `P`.
def FailsClean (P : ε → Prop) (p : Process ε σ α) : Prop :=
  ∀ s code s', p s = .error code s' → s' = s ∨ P code

section Fails

variable {P : ε → Prop}

theorem FailsLate.clean {p : Process ε σ α} (h : FailsLate P p) : FailsClean P p :=
  fun s code s' he => .inr (h s code s' he)

theorem FailsLate.bind {x : Process ε σ α} {f : α → Process ε σ β} (hx : FailsLate P x)
    (hf : ∀ a, FailsLate P (f a)) : FailsLate P (x >>= f) := by
  intro s code s' h
  rcases (bind_eq_error x f s s' code).mp h with h | ⟨a, mid, -, h⟩
  · exact hx s code s' h
  · exact hf a mid code s' h

theorem FailsLate.update {f : σ → Option σ} {code : ε} (h : P code) :
    FailsLate P (update f code) := by
  intro s other s' he
  obtain ⟨-, rfl, -⟩ := (update_eq_error f code other s s').mp he
  exact h

theorem FailsLate.pure (a : α) : FailsLate P (Pure.pure a : Process ε σ α) :=
  fun _ _ _ h => nomatch h

theorem FailsLate.modify (f : σ → σ) : FailsLate P (modify f : Process ε σ PUnit) :=
  fun _ _ _ h => nomatch h

theorem FailsClean.throw (code : ε) : FailsClean P (throw code : Process ε σ α) := by
  intro s other s' h
  cases h
  exact .inl rfl

theorem FailsClean.check_bind {f : σ → Except ε α} {rest : α → Process ε σ β}
    (h : ∀ a, FailsClean P (rest a)) : FailsClean P (check f >>= rest) := by
  intro s code s' he
  rcases (bind_eq_error _ _ s s' code).mp he with he | ⟨a, mid, hok, he⟩
  · exact .inl ((check_eq_error f s s' code).mp he).2.symm
  · obtain ⟨-, rfl⟩ := (check_eq_ok f s mid a).mp hok
    exact h a s code s' he

end Fails

-- A view of the state that a computation leaves as it was, however it ends.
def Keeps {ρ : Type} (view : σ → ρ) (p : Process ε σ α) : Prop :=
  (∀ s a s', p s = .ok a s' → view s' = view s) ∧
    ∀ s code s', p s = .error code s' → view s' = view s

section Keeps

variable {ρ : Type} {view : σ → ρ}

theorem Keeps.bind {x : Process ε σ α} {f : α → Process ε σ β} (hx : Keeps view x)
    (hf : ∀ a, Keeps view (f a)) : Keeps view (x >>= f) := by
  constructor
  · intro s value s' h
    obtain ⟨a, mid, hok, hrest⟩ := (bind_eq_ok x f s s' value).mp h
    exact ((hf a).1 mid value s' hrest).trans (hx.1 s a mid hok)
  · intro s code s' h
    rcases (bind_eq_error x f s s' code).mp h with h | ⟨a, mid, hok, hrest⟩
    · exact hx.2 s code s' h
    · exact ((hf a).2 mid code s' hrest).trans (hx.1 s a mid hok)

theorem Keeps.check {f : σ → Except ε α} : Keeps view (check f) := by
  constructor
  · intro s a s' h
    rw [((check_eq_ok f s s' a).mp h).2]
  · intro s code s' h
    rw [((check_eq_error f s s' code).mp h).2]

theorem Keeps.update {f : σ → Option σ} {code : ε}
    (h : ∀ s s', f s = some s' → view s' = view s) : Keeps view (update f code) := by
  constructor
  · intro s u s' hok
    exact h s s' ((update_eq_ok f code s s' u).mp hok)
  · intro s other s' herror
    rw [((update_eq_error f code other s s').mp herror).2.2]

theorem Keeps.pure (a : α) : Keeps view (Pure.pure a : Process ε σ α) := by
  constructor
  · intro s value s' h
    rw [((pure_eq_ok a value s s').mp h).2]
  · intro s code s' h
    cases h

theorem Keeps.throw (code : ε) : Keeps view (throw code : Process ε σ α) := by
  constructor
  · intro s value s' h
    cases h
  · intro s other s' h
    cases h
    rfl

theorem Keeps.modify {f : σ → σ} (h : ∀ s, view (f s) = view s) :
    Keeps view (modify f : Process ε σ PUnit) := by
  constructor
  · intro s u s' hok
    rw [← (modify_eq_ok f s s' u).mp hok, h]
  · intro s code s' herror
    cases herror

end Keeps

-- From a state with `pre` the computation succeeds with `post` or fails with `failed`.
def Triple (pre : σ → Prop) (p : Process ε σ α) (post : α → σ → Prop) (failed : σ → Prop) : Prop :=
  ∀ s, pre s → (∀ a s', p s = .ok a s' → post a s') ∧ ∀ code s', p s = .error code s' → failed s'

section Triple

variable {pre pre' : σ → Prop} {post post' : α → σ → Prop} {failed failed' : σ → Prop}

theorem Triple.conseq {p : Process ε σ α} (h : Triple pre p post failed)
    (hpre : ∀ s, pre' s → pre s) (hpost : ∀ a s, post a s → post' a s)
    (hfailed : ∀ s, failed s → failed' s) : Triple pre' p post' failed' := by
  intro s hs
  obtain ⟨hok, herror⟩ := h s (hpre s hs)
  exact ⟨fun a s' hrun => hpost a s' (hok a s' hrun),
    fun code s' hrun => hfailed s' (herror code s' hrun)⟩

theorem Triple.pure {a : α} (h : ∀ s, pre s → post a s) :
    Triple pre (Pure.pure a : Process ε σ α) post failed := by
  intro s hs
  refine ⟨fun value s' hrun => ?_, fun code s' hrun => by cases hrun⟩
  obtain ⟨rfl, rfl⟩ := (pure_eq_ok a value s s').mp hrun
  exact h s hs

theorem Triple.bind {R : α → σ → Prop} {result : β → σ → Prop} {x : Process ε σ α}
    {f : α → Process ε σ β} (hx : Triple pre x R failed)
    (hf : ∀ a, Triple (R a) (f a) result failed) : Triple pre (x >>= f) result failed := by
  intro s hs
  obtain ⟨hok, herror⟩ := hx s hs
  constructor
  · intro value s' hrun
    obtain ⟨a, next, hnext, hrest⟩ := (bind_eq_ok x f s s' value).mp hrun
    exact (hf a next (hok a next hnext)).1 value s' hrest
  · intro code s' hrun
    rcases (bind_eq_error x f s s' code).mp hrun with hrun | ⟨a, next, hnext, hrest⟩
    · exact herror code s' hrun
    · exact (hf a next (hok a next hnext)).2 code s' hrest

-- Two results of one computation; what it leaves on failure may be known of one only.
theorem Triple.also {p : Process ε σ α} (h : Triple pre p post failed)
    (h' : Triple pre' p post' fun _ => True) :
    Triple (fun s => pre s ∧ pre' s) p (fun a s => post a s ∧ post' a s) failed := by
  rintro s ⟨hs, hs'⟩
  obtain ⟨hok, herror⟩ := h s hs
  obtain ⟨hok', -⟩ := h' s hs'
  exact ⟨fun a s' hrun => ⟨hok a s' hrun, hok' a s' hrun⟩, herror⟩

-- The state that was read stays as it is until something changes it.
theorem Triple.get_bind {f : σ → Process ε σ α}
    (h : ∀ s, pre s → Triple (fun s' => s' = s) (f s) post failed) :
    Triple pre (get >>= f) post failed := by
  intro s hs
  exact h s hs s rfl

theorem Triple.modify {f : σ → σ} {post : PUnit → σ → Prop} (h : ∀ s, pre s → post ⟨⟩ (f s)) :
    Triple pre (modify f : Process ε σ PUnit) post failed := by
  intro s hs
  refine ⟨fun u s' hrun => ?_, fun code s' hrun => by cases hrun⟩
  rw [← (modify_eq_ok f s s' u).mp hrun]
  exact h s hs

end Triple

end Process

end Raicoin.Lib
