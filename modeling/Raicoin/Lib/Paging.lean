import Raicoin.Lib.Ordered
import Raicoin.Lib.Table

-- Pages of an ordered table: each request names the place to go on from, and the next one
-- begins right after the last entry that came.
namespace Raicoin.Lib

section Lists

variable {α : Type} (place : α → Nat) (entries : List α)

-- The first entry that is not below the cursor.
def nextEntry (cursor : Nat) : Option α := entries.find? fun a => cursor ≤ place a

-- What is still to come.
def entriesFrom (cursor : Nat) : List α := entries.filter fun a => cursor ≤ place a

-- One request: each entry is looked for right after the last one.
def page : Nat → Nat → List α
  | 0, _ => []
  | size + 1, cursor =>
    match nextEntry place entries cursor with
    | none => []
    | some a => a :: page size (place a + 1)

-- The cursor after some entries have come.
def cursorAfter (cursor : Nat) (batch : List α) : Nat :=
  match batch.getLast? with
  | none => cursor
  | some a => place a + 1

variable {place entries}

theorem nextEntry_eq (cursor : Nat) :
    nextEntry place entries cursor = (entriesFrom place entries cursor).head? :=
  List.head?_filter.symm

theorem entriesFrom_zero : entriesFrom place entries 0 = entries := by
  rw [entriesFrom, List.filter_eq_self]
  simp

-- Right after an entry comes what follows it.
theorem entriesFrom_next (hsorted : entries.Pairwise fun a b => place a < place b) {cursor : Nat}
    {a : α} {rest : List α} (h : entriesFrom place entries cursor = a :: rest) :
    entriesFrom place entries (place a + 1) = rest := by
  have hpairs : (a :: rest).Pairwise fun a b => place a < place b := by
    rw [← h]
    exact hsorted.filter _
  obtain ⟨habove, -⟩ := List.pairwise_cons.mp hpairs
  have hcursor : cursor ≤ place a := by
    have hmem : a ∈ entriesFrom place entries cursor := by
      rw [h]
      exact List.mem_cons_self
    exact of_decide_eq_true (List.mem_filter.mp hmem).2
  have htwice : entriesFrom place entries (place a + 1) =
      (entriesFrom place entries cursor).filter fun b => place a + 1 ≤ place b := by
    rw [entriesFrom, entriesFrom, List.filter_filter]
    apply List.filter_congr
    intro b _
    rw [← Bool.decide_and, decide_eq_decide]
    omega
  rw [htwice, h, List.filter_cons_of_neg (by simp), List.filter_eq_self]
  intro b hb
  exact decide_eq_true (habove b hb)

theorem page_eq_take (hsorted : entries.Pairwise fun a b => place a < place b) (size cursor : Nat) :
    page place entries size cursor = (entriesFrom place entries cursor).take size := by
  induction size generalizing cursor with
  | zero => rw [page, List.take_zero]
  | succ size ih =>
      rw [page, nextEntry_eq]
      cases h : entriesFrom place entries cursor with
      | nil => rfl
      | cons a rest =>
          dsimp only [List.head?_cons]
          rw [ih, entriesFrom_next hsorted h, List.take_succ_cons]

@[simp] theorem cursorAfter_nil (cursor : Nat) : cursorAfter place cursor [] = cursor := rfl

@[simp] theorem cursorAfter_cons (cursor : Nat) (a : α) (rest : List α) :
    cursorAfter place cursor (a :: rest) = cursorAfter place (place a + 1) rest := by
  rw [cursorAfter, cursorAfter, List.getLast?_cons]
  cases rest.getLast? <;> rfl

theorem entriesFrom_cursorAfter (hsorted : entries.Pairwise fun a b => place a < place b)
    (size cursor : Nat) :
    entriesFrom place entries (cursorAfter place cursor (page place entries size cursor)) =
      (entriesFrom place entries cursor).drop size := by
  induction size generalizing cursor with
  | zero => rfl
  | succ size ih =>
      rw [page, nextEntry_eq]
      cases h : entriesFrom place entries cursor with
      | nil => exact h
      | cons a rest =>
          dsimp only [List.head?_cons]
          have hnext := ih (place a + 1)
          rw [entriesFrom_next hsorted h] at hnext
          rw [List.drop_succ_cons, ← hnext, cursorAfter_cons]

-- Each entry is at or after the place that follows the last one.
def Ascends (place : α → Nat) : Nat → List α → Prop
  | _, [] => True
  | cursor, a :: rest => cursor ≤ place a ∧ Ascends place (place a + 1) rest

theorem page_ascends (size cursor : Nat) : Ascends place cursor (page place entries size cursor) := by
  induction size generalizing cursor with
  | zero => trivial
  | succ size ih =>
      rw [page]
      cases h : nextEntry place entries cursor with
      | none => trivial
      | some a =>
          have hplace := List.find?_some (show entries.find? (fun a => cursor ≤ place a) = some a from h)
          exact ⟨of_decide_eq_true hplace, ih _⟩

theorem mem_of_mem_page {size cursor : Nat} {a : α} (h : a ∈ page place entries size cursor) :
    a ∈ entries := by
  induction size generalizing cursor with
  | zero => cases h
  | succ size ih =>
      rw [page] at h
      cases hnext : nextEntry place entries cursor with
      | none =>
          rw [hnext] at h
          cases h
      | some b =>
          rw [hnext] at h
          rcases List.mem_cons.mp h with rfl | h
          · exact List.mem_of_find?_eq_some hnext
          · exact ih h

theorem page_length_le (size cursor : Nat) : (page place entries size cursor).length ≤ size := by
  induction size generalizing cursor with
  | zero => exact Nat.le_refl 0
  | succ size ih =>
      rw [page]
      split
      · exact Nat.zero_le _
      · exact Nat.succ_le_succ (ih _)

variable {β : Type} {f : α → β} {place' : β → Nat} {batch : List α}

theorem Ascends.map (h : ∀ a ∈ batch, place' (f a) = place a) {cursor : Nat}
    (hbatch : Ascends place cursor batch) : Ascends place' cursor (batch.map f) := by
  induction batch generalizing cursor with
  | nil => trivial
  | cons a rest ih =>
      have ha := h a List.mem_cons_self
      obtain ⟨hcursor, hrest⟩ := hbatch
      refine ⟨by rwa [ha], ?_⟩
      rw [ha]
      exact ih (fun b hb => h b (List.mem_cons_of_mem _ hb)) hrest

theorem cursorAfter_map (h : ∀ a ∈ batch, place' (f a) = place a) (cursor : Nat) :
    cursorAfter place' cursor (batch.map f) = cursorAfter place cursor batch := by
  induction batch generalizing cursor with
  | nil => rfl
  | cons a rest ih =>
      rw [List.map_cons, cursorAfter_cons, cursorAfter_cons, h a List.mem_cons_self,
        ih fun b hb => h b (List.mem_cons_of_mem _ hb)]

end Lists

-- Pages of a table that changes between the requests.
section Sweeps

variable {α : Type} {place : α → Nat} {wanted steady : α → Prop} {listed batch front rest : List α}
  {more : Bool} {cursor count : Nat}

theorem Ascends.le_of_mem (h : Ascends place cursor batch) {a : α} (ha : a ∈ batch) :
    cursor ≤ place a := by
  induction batch generalizing cursor with
  | nil => cases ha
  | cons b rest ih =>
      obtain ⟨hcursor, hrest⟩ := h
      rcases List.mem_cons.mp ha with rfl | ha
      · exact hcursor
      · have := ih hrest ha
        omega

theorem Ascends.pairwise (h : Ascends place cursor batch) :
    batch.Pairwise fun a b => place a < place b := by
  induction batch generalizing cursor with
  | nil => exact .nil
  | cons a rest ih => exact .cons (fun b hb => h.2.le_of_mem hb) (ih h.2)

theorem ascends_of_pairwise (hsorted : batch.Pairwise fun a b => place a < place b)
    (hcursor : ∀ a ∈ batch, cursor ≤ place a) : Ascends place cursor batch := by
  induction batch generalizing cursor with
  | nil => trivial
  | cons a rest ih =>
      obtain ⟨habove, hrest⟩ := List.pairwise_cons.mp hsorted
      exact ⟨hcursor a List.mem_cons_self, ih hrest habove⟩

theorem ascends_append : Ascends place cursor (listed ++ batch) ↔
    Ascends place cursor listed ∧ Ascends place (cursorAfter place cursor listed) batch := by
  induction listed generalizing cursor with
  | nil => exact ⟨fun h => ⟨trivial, h⟩, fun h => h.2⟩
  | cons a rest ih => rw [List.cons_append, cursorAfter_cons, Ascends, Ascends, ih, and_assoc]

theorem cursorAfter_append : cursorAfter place cursor (listed ++ batch) =
    cursorAfter place (cursorAfter place cursor listed) batch := by
  induction listed generalizing cursor with
  | nil => rfl
  | cons a rest ih => rw [List.cons_append, cursorAfter_cons, cursorAfter_cons, ih]

-- What comes after some entries comes after the last of them.
theorem cursorAfter_le (h : Ascends place cursor (front ++ rest)) {a : α} (ha : a ∈ rest) :
    cursorAfter place cursor front ≤ place a :=
  (ascends_append.mp h).2.le_of_mem ha

-- One request, from a cursor on: it lists what is wanted at its time, up to where it says that
-- there may be more.
structure ListsFrom (place : α → Nat) (wanted : α → Prop) (cursor : Nat) (batch : List α)
    (more : Bool) : Prop where
  ascends : Ascends place cursor batch
  sound : ∀ a ∈ batch, wanted a
  complete : ∀ a, wanted a → cursor ≤ place a →
    a ∈ batch ∨ more = true ∧ cursorAfter place cursor batch ≤ place a

-- So does a request that takes some of what it finds, and all of it if it does not say more.
theorem ListsFrom.take (hascends : Ascends place cursor front)
    (hfront : ∀ a, a ∈ front ↔ wanted a ∧ cursor ≤ place a)
    (hmore : more = false → front.length ≤ count) :
    ListsFrom place wanted cursor (front.take count) more := by
  have hsplit := hascends
  rw [← List.take_append_drop count front] at hsplit
  refine ⟨(ascends_append.mp hsplit).1, fun a ha => ?_, fun a hwanted hcursor => ?_⟩
  · exact ((hfront a).mp (List.mem_of_mem_take ha)).1
  · have hmem := (hfront a).mpr ⟨hwanted, hcursor⟩
    rw [← List.take_append_drop count front] at hmem
    rcases List.mem_append.mp hmem with hmem | hmem
    · exact .inl hmem
    · refine .inr ⟨?_, cursorAfter_le hsplit hmem⟩
      cases more with
      | true => rfl
      | false =>
          rw [List.drop_of_length_le (hmore rfl)] at hmem
          cases hmem

-- What several requests have listed: in order, and with everything that was wanted at the time of
-- each of them, up to where the last one got to.
structure Sweeps (place : α → Nat) (steady : α → Prop) (listed : List α) (more : Bool) : Prop where
  ascends : Ascends place 0 listed
  complete : ∀ a, steady a → a ∈ listed ∨ more = true ∧ cursorAfter place 0 listed ≤ place a

theorem Sweeps.start : Sweeps place steady [] true :=
  ⟨trivial, fun _ _ => .inr ⟨rfl, Nat.zero_le _⟩⟩

-- The next request goes on right after the last entry.
theorem Sweeps.page (h : Sweeps place steady listed true)
    (hpage : ListsFrom place wanted (cursorAfter place 0 listed) batch more) :
    Sweeps place (fun a => steady a ∧ wanted a) (listed ++ batch) more := by
  refine ⟨ascends_append.mpr ⟨h.ascends, hpage.ascends⟩, fun a ha => ?_⟩
  rw [List.mem_append, cursorAfter_append]
  rcases h.complete a ha.1 with hmem | ⟨-, hle⟩
  · exact .inl (.inl hmem)
  · rcases hpage.complete a ha.2 hle with hmem | hopen
    · exact .inl (.inr hmem)
    · exact .inr hopen

end Sweeps

section Tables

variable {κ ν : Type} [DecidableEq κ] (place : κ → Nat)

-- The keys of a table in the order of their places.
def Table.inOrder (t : Table κ ν) (hplace : Function.Injective place) : List κ :=
  have : IsTrans κ fun a b => place a ≤ place b := ⟨fun _ _ _ => Nat.le_trans⟩
  have : Std.Antisymm fun a b => place a ≤ place b :=
    ⟨fun _ _ h h' => hplace (Nat.le_antisymm h h')⟩
  have : Std.Total fun a b => place a ≤ place b := ⟨fun a b => Nat.le_total (place a) (place b)⟩
  Lib.inOrder (fun a b => place a ≤ place b) t.keys

variable {place}

theorem Table.mem_inOrder (t : Table κ ν) (hplace : Function.Injective place) (k : κ) :
    k ∈ t.inOrder place hplace ↔ ∃ v, t.get k = some v := by
  unfold Table.inOrder
  rw [Lib.mem_inOrder, t.mem_keys]

omit [DecidableEq κ] in
theorem Table.pairwise_inOrder (t : Table κ ν) (hplace : Function.Injective place) :
    (t.inOrder place hplace).Pairwise fun a b => place a < place b := by
  have : IsTrans κ fun a b => place a ≤ place b := ⟨fun _ _ _ => Nat.le_trans⟩
  have : Std.Antisymm fun a b => place a ≤ place b :=
    ⟨fun _ _ h h' => hplace (Nat.le_antisymm h h')⟩
  have : Std.Total fun a b => place a ≤ place b := ⟨fun a b => Nat.le_total (place a) (place b)⟩
  have hsorted := Lib.pairwise_inOrder (fun a b => place a ≤ place b) t.keys
  have hnodup := Lib.nodup_inOrder (fun a b => place a ≤ place b) t.keys
  refine (hsorted.and hnodup).imp fun {a b} h => ?_
  exact Nat.lt_of_le_of_ne h.1 fun heq => h.2 (hplace heq)

end Tables

end Raicoin.Lib
