import Raicoin.Lib.Process

-- Readers of a stream, and the writers that they invert.
namespace Raicoin.Lib

-- A computation that consumes symbols from the front of a stream.
abbrev Reader (τ ε α : Type) : Type := Process ε (List τ) α

variable {τ ε α β γ : Type}

namespace Reader

-- The next `count` symbols. Where fewer are left, they are consumed and `code` is returned.
def take (code : ε) (count : Nat) : Reader τ ε (List τ) := fun s =>
  if count ≤ s.length then .ok (s.take count) (s.drop count) else .error code []

-- A test of what was read.
def failIf (condition : Prop) [Decidable condition] (code : ε) : Reader τ ε Unit :=
  check fun _ => returnIf condition code

-- A field that is there under a condition only.
def when (condition : Prop) [Decidable condition] (missing : α) (read : Reader τ ε α) :
    Reader τ ε α :=
  if condition then read else return missing

-- A field that is there `count` times.
def times (read : Reader τ ε α) : Nat → Reader τ ε (List α)
  | 0 => return []
  | count + 1 => do
    let first ← read
    let rest ← times read count
    return first :: rest

-- A reader all of whose errors are reported as `code`.
def orCode (code : ε) (read : Reader τ ε α) : Reader τ ε α := fun s =>
  match read s with
  | .ok a rest => .ok a rest
  | .error _ rest => .error code rest

end Reader

-- `read` takes what `write` made of a valid value, whatever follows it, and it takes
-- nothing else.
structure Inverts (read : Reader τ ε α) (write : α → List τ) (valid : α → Prop) : Prop where
  complete : ∀ a rest, valid a → read (write a ++ rest) = .ok a rest
  sound : ∀ s a rest, read s = .ok a rest → valid a ∧ s = write a ++ rest

namespace Inverts

variable {read : Reader τ ε α} {write : α → List τ} {valid : α → Prop}

-- A stream has one value at its front.
theorem cancel (h : Inverts read write valid) {a b : α} {s t : List τ} (ha : valid a)
    (hb : valid b) (happend : write a ++ s = write b ++ t) : a = b ∧ s = t := by
  have hread := h.complete b t hb
  rw [← happend, h.complete a s ha] at hread
  injection hread with hvalue hrest
  exact ⟨hvalue, hrest⟩

theorem injective (h : Inverts read write valid) {a b : α} (ha : valid a) (hb : valid b)
    (hwrite : write a = write b) : a = b :=
  (h.cancel (s := []) (t := []) ha hb (by rw [hwrite])).1

-- More at the end of the stream changes nothing.
theorem extend (h : Inverts read write valid) {s rest : List τ} {a : α} (hread : read s = .ok a rest)
    (more : List τ) : read (s ++ more) = .ok a (rest ++ more) := by
  obtain ⟨ha, rfl⟩ := h.sound s a rest hread
  rw [List.append_assoc]
  exact h.complete a _ ha

-- What is written for a value is all consumed, so nothing shorter and nothing longer
-- reads back to its end.
theorem exact_iff (h : Inverts read write valid) (s : List τ) (a : α) :
    read s = .ok a [] ↔ valid a ∧ s = write a := by
  constructor
  · intro hread
    obtain ⟨ha, hs⟩ := h.sound s a [] hread
    exact ⟨ha, by rw [hs, List.append_nil]⟩
  · rintro ⟨ha, rfl⟩
    have hread := h.complete a [] ha
    rwa [List.append_nil] at hread

-- No value is written as the beginning of another one.
theorem short_fails (h : Inverts read write valid) {a : α} {front back : List τ} (ha : valid a)
    (hwrite : write a = front ++ back) (hback : back ≠ []) :
    ∃ code rest, read front = .error code rest := by
  cases hread : read front with
  | error code rest => exact ⟨code, rest, rfl⟩
  | ok b rest =>
      obtain ⟨hb, rfl⟩ := h.sound _ _ _ hread
      have hcancel := h.cancel (s := []) (t := rest ++ back) ha hb
        (by rw [List.append_nil, hwrite, List.append_assoc])
      have hnil := List.append_eq_nil_iff.mp hcancel.2.symm
      exact absurd hnil.2 hback

theorem congr {write' : α → List τ} {valid' : α → Prop} (h : Inverts read write valid)
    (hwrite : ∀ a, valid a → write' a = write a) (hvalid : ∀ a, valid' a ↔ valid a) :
    Inverts read write' valid' where
  complete a rest ha := by
    rw [hwrite a ((hvalid a).mp ha)]
    exact h.complete a rest ((hvalid a).mp ha)
  sound s a rest hread := by
    obtain ⟨ha, hs⟩ := h.sound s a rest hread
    exact ⟨(hvalid a).mpr ha, by rw [hwrite a ha, hs]⟩

-- The next value of a record that is known to satisfy `known`: its field `get`.
theorem bind {next : α → Reader τ ε β} {rest : β → List τ} {known : β → Prop} (get : β → α)
    (h : Inverts read write valid) (hvalid : ∀ b, known b → valid (get b))
    (hnext : ∀ a, valid a → Inverts (next a) rest fun b => known b ∧ get b = a) :
    Inverts (read >>= next) (fun b => write (get b) ++ rest b) known where
  complete b tail hb := by
    have hfirst := h.complete (get b) (rest b ++ tail) (hvalid b hb)
    rw [List.append_assoc, Process.bind_of_ok hfirst]
    exact (hnext _ (hvalid b hb)).complete b tail ⟨hb, rfl⟩
  sound s b tail hread := by
    obtain ⟨a, mid, hfirst, hsecond⟩ := (Process.bind_eq_ok _ _ _ _ _).mp hread
    obtain ⟨ha, rfl⟩ := h.sound s a mid hfirst
    obtain ⟨⟨hb, rfl⟩, rfl⟩ := (hnext a ha).sound mid b tail hsecond
    exact ⟨hb, (List.append_assoc _ _ _).symm⟩

-- The end of a record: all that is known of it makes it `a`.
theorem done {a : α} {known : α → Prop} (ha : known a) (hall : ∀ b, known b → b = a) :
    Inverts (pure a : Reader τ ε α) (fun _ => []) known where
  complete b rest hb := by
    rw [hall b hb]
    rfl
  sound s b rest hread := by
    obtain ⟨rfl, rfl⟩ := (Process.pure_eq_ok _ _ _ _).mp hread
    exact ⟨ha, rfl⟩

-- Tests that the known records pass.
theorem verify {tests : Except ε Unit} {next : Unit → Reader τ ε β} {rest : β → List τ}
    {known : β → Prop} (hpass : ∀ b, known b → tests = .ok ())
    (hnext : tests = .ok () → Inverts (next ()) rest known) :
    Inverts (check (fun _ => tests) >>= next) rest known where
  complete b tail hb := by
    have htests := hpass b hb
    have hcheck : check (fun _ => tests) (rest b ++ tail) = .ok () (rest b ++ tail) := by
      simp [htests]
    rw [Process.bind_of_ok hcheck]
    exact (hnext htests).complete b tail hb
  sound s b tail hread := by
    obtain ⟨_, mid, hcheck, hsecond⟩ := (Process.bind_eq_ok _ _ _ _ _).mp hread
    obtain ⟨htests, rfl⟩ := (Process.check_eq_ok _ _ _ _).mp hcheck
    exact (hnext htests).sound _ b tail hsecond

theorem guard {condition : Prop} [Decidable condition] {code : ε} {next : Unit → Reader τ ε β}
    {rest : β → List τ} {known : β → Prop} (hpass : ∀ b, known b → ¬condition)
    (hnext : ¬condition → Inverts (next ()) rest known) :
    Inverts (Reader.failIf condition code >>= next) rest known :=
  verify (fun b hb => (returnIf_eq_ok _ _ _).mpr (hpass b hb))
    fun htests => hnext ((returnIf_eq_ok _ _ _).mp htests)

-- A reader that fails takes nothing.
theorem fail {code : ε} {known : α → Prop} {write : α → List τ} (hnone : ∀ a, ¬known a) :
    Inverts (throw code : Reader τ ε α) write known where
  complete a _ ha := absurd ha (hnone a)
  sound _ _ _ hread := nomatch hread

-- The values that one constructor makes of the values of a reader.
theorem inject {f : α → β} {w : β → List τ} {known : β → Prop} (h : Inverts read write valid)
    (hknown : ∀ b, known b ↔ ∃ a, valid a ∧ f a = b)
    (hwrite : ∀ a, valid a → w (f a) = write a) :
    Inverts (do let a ← read; return f a) w known where
  complete b rest hb := by
    obtain ⟨a, ha, rfl⟩ := (hknown b).mp hb
    rw [hwrite a ha, Process.bind_of_ok (h.complete a rest ha)]
    rfl
  sound s b rest hread := by
    obtain ⟨a, mid, hfirst, hsecond⟩ := (Process.bind_eq_ok _ _ _ _ _).mp hread
    obtain ⟨rfl, rfl⟩ := (Process.pure_eq_ok _ _ _ _).mp hsecond
    obtain ⟨ha, hs⟩ := h.sound s a mid hfirst
    exact ⟨(hknown _).mpr ⟨a, ha, rfl⟩, by rw [hwrite a ha, hs]⟩

-- The values of one kind, which one constructor makes, under a tag that tells the kinds apart.
theorem branch {κ : Type} {f : α → β} {w : β → List τ} {known : β → Prop} {kind : β → κ} {k : κ}
    (h : Inverts read write valid) (hknown : ∀ a, known (f a) ↔ valid a)
    (hwrite : ∀ a, w (f a) = write a) (hkind : ∀ a, kind (f a) = k)
    (honly : ∀ b, kind b = k → ∃ a, f a = b) :
    Inverts (do let a ← read; return f a) w fun b => known b ∧ kind b = k := by
  refine h.inject (fun b => ?_) fun a _ => hwrite a
  constructor
  · rintro ⟨hb, hk⟩
    obtain ⟨a, rfl⟩ := honly b hk
    exact ⟨a, (hknown a).mp hb, rfl⟩
  · rintro ⟨a, ha, rfl⟩
    exact ⟨(hknown a).mpr ha, hkind a⟩

-- A reader that depends on a test.
theorem ite {read' : Reader τ ε α} {condition : Prop} [Decidable condition]
    (hyes : condition → Inverts read write valid)
    (hno : ¬condition → Inverts read' write valid) :
    Inverts (if condition then read else read') write valid := by
  by_cases hcondition : condition
  · rw [if_pos hcondition]
    exact hyes hcondition
  · rw [if_neg hcondition]
    exact hno hcondition

end Inverts

theorem Inverts.when {read : Reader τ ε α} {write : α → List τ} {valid : α → Prop}
    (h : Inverts read write valid) (condition : Prop) [Decidable condition] (missing : α) :
    Inverts (Reader.when condition missing read) (fun a => if condition then write a else [])
      fun a => if condition then valid a else a = missing := by
  unfold Reader.when
  by_cases hcondition : condition
  · simp only [hcondition, if_true]
    exact h
  · simp only [hcondition, if_false]
    exact .done rfl fun a ha => ha

theorem Inverts.times {read : Reader τ ε α} {write : α → List τ} {valid : α → Prop}
    (h : Inverts read write valid) (count : Nat) :
    Inverts (Reader.times read count) (fun as => (as.map write).flatten)
      fun as => as.length = count ∧ ∀ a ∈ as, valid a := by
  induction count with
  | zero =>
      refine .congr (.done ⟨rfl, by simp⟩ fun as has => List.eq_nil_of_length_eq_zero has.1)
        (fun as has => ?_) fun as => Iff.rfl
      rw [List.eq_nil_of_length_eq_zero has.1]
      rfl
  | succ count ih =>
      constructor
      · intro as tail has
        obtain ⟨hlength, hvalid⟩ := has
        obtain ⟨first, rest, rfl⟩ := List.exists_cons_of_length_eq_add_one hlength
        have hfirst := h.complete first ((rest.map write).flatten ++ tail)
          (hvalid first List.mem_cons_self)
        have hrest := ih.complete rest tail ⟨Nat.succ.inj hlength,
          fun a ha => hvalid a (List.mem_cons_of_mem _ ha)⟩
        rw [List.map_cons, List.flatten_cons, List.append_assoc, Reader.times,
          Process.bind_of_ok hfirst, Process.bind_of_ok hrest]
        rfl
      · intro s as tail hread
        obtain ⟨first, _, hfirst, hread⟩ := (Process.bind_eq_ok _ _ _ _ _).mp hread
        obtain ⟨rest, _, hrest, hread⟩ := (Process.bind_eq_ok _ _ _ _ _).mp hread
        obtain ⟨rfl, rfl⟩ := (Process.pure_eq_ok _ _ _ _).mp hread
        obtain ⟨hvalid, rfl⟩ := h.sound _ _ _ hfirst
        obtain ⟨⟨hlength, hall⟩, rfl⟩ := ih.sound _ _ _ hrest
        refine ⟨⟨congrArg (· + 1) hlength, List.forall_mem_cons.mpr ⟨hvalid, hall⟩⟩, ?_⟩
        rw [List.map_cons, List.flatten_cons, List.append_assoc]

theorem Inverts.orCode {read : Reader τ ε α} {write : α → List τ} {valid : α → Prop}
    (h : Inverts read write valid) (code : ε) :
    Inverts (Reader.orCode code read) write valid where
  complete a rest ha := by
    rw [Reader.orCode, h.complete a rest ha]
  sound s a rest hread := by
    unfold Reader.orCode at hread
    split at hread
    · cases hread
      exact h.sound _ _ _ ‹_›
    · cases hread

-- A field of a fixed width.
theorem Inverts.take (code : ε) (count : Nat) :
    Inverts (Reader.take (τ := τ) code count) id (fun s => s.length = count) where
  complete a rest ha := by
    subst ha
    simp [Reader.take]
  sound s a rest hread := by
    unfold Reader.take at hread
    split at hread
    · cases hread
      rename_i hle
      exact ⟨by simp [hle], (List.take_append_drop _ _).symm⟩
    · cases hread

end Raicoin.Lib
