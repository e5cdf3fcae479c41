import Mathlib.Algebra.Ring.Nat
import Mathlib.Data.Finmap
import Mathlib.Algebra.BigOperators.Group.Finset.Basic
import Mathlib.Algebra.Order.BigOperators.Group.Finset

namespace Raicoin.Lib

-- A table of a key-value store: finitely many keys, one value for a key.
def Table (κ ν : Type) : Type := Finmap fun _ : κ => ν

namespace Table

variable {κ ν : Type} [DecidableEq κ]

def empty : Table κ ν := (∅ : Finmap fun _ : κ => ν)

def get (t : Table κ ν) (k : κ) : Option ν := Finmap.lookup k t

def put (t : Table κ ν) (k : κ) (v : ν) : Table κ ν := Finmap.insert k v t

def del (t : Table κ ν) (k : κ) : Table κ ν := Finmap.erase k t

def contains (t : Table κ ν) (k : κ) : Bool := (t.get k).isSome

-- Changes the value of a key, if the key has one.
def change (t : Table κ ν) (k : κ) (f : ν → ν) : Table κ ν :=
  match t.get k with
  | some v => t.put k (f v)
  | none => t

-- The entries with a property.
def filter (t : Table κ ν) (p : κ → ν → Bool) : Table κ ν where
  entries := Multiset.filter (fun entry => p entry.1 entry.2) (Finmap.entries t)
  nodupKeys := by
    rcases t with ⟨⟨entries⟩, hkeys⟩
    exact List.NodupKeys.sublist List.filter_sublist hkeys

-- Every value changed, each under its key.
def mapValues (t : Table κ ν) (f : ν → ν) : Table κ ν where
  entries := (Finmap.entries t).map fun entry => ⟨entry.1, f entry.2⟩
  nodupKeys := by
    rcases t with ⟨⟨entries⟩, hkeys⟩
    have hkept : (entries.map fun entry : Σ _ : κ, ν => (⟨entry.1, f entry.2⟩ : Σ _ : κ, ν)).keys =
        entries.keys := List.map_map
    change List.NodupKeys (entries.map _)
    rw [List.NodupKeys, hkept]
    exact hkeys

def keys (t : Table κ ν) : Finset κ := Finmap.keys t

instance [DecidableEq ν] : DecidableEq (Table κ ν) :=
  inferInstanceAs (DecidableEq (Finmap fun _ : κ => ν))

@[ext] theorem ext {t u : Table κ ν} (h : ∀ k, t.get k = u.get k) : t = u :=
  Finmap.ext_lookup h

-- A table is known by its entries.
theorem ext_some {t u : Table κ ν} (h : ∀ k v, t.get k = some v ↔ u.get k = some v) : t = u :=
  ext fun k => Option.ext (h k)

@[simp] theorem get_empty (k : κ) : (empty : Table κ ν).get k = none :=
  Finmap.lookup_empty k

@[simp] theorem get_put (t : Table κ ν) (k : κ) (v : ν) (j : κ) :
    (t.put k v).get j = if j = k then some v else t.get j := by
  by_cases h : j = k
  · subst h
    simpa [get, put] using Finmap.lookup_insert t
  · simpa [get, put, h] using Finmap.lookup_insert_of_ne t h

-- The numbered entries below a count, each under a key of its own.
def filled (key : Nat → κ) (value : Nat → ν) (count : Nat) : Table κ ν :=
  (List.range count).foldl (fun t n => t.put (key n) (value n)) empty

theorem get_filled {key : Nat → κ} {value : Nat → ν} {count : Nat}
    (hkey : ∀ m < count, ∀ n < count, key m = key n → m = n) {k : κ} {v : ν} :
    (filled key value count).get k = some v ↔ ∃ n < count, k = key n ∧ v = value n := by
  induction count with
  | zero => simp [filled]
  | succ count ih =>
      have hbefore := ih fun m hm n hn => hkey m (by omega) n (by omega)
      rw [filled, List.range_succ, List.foldl_append, List.foldl_cons, List.foldl_nil, get_put]
      split
      · rename_i hk
        constructor
        · intro h
          exact ⟨count, by omega, hk, (Option.some.inj h).symm⟩
        · rintro ⟨n, hn, hn', rfl⟩
          rw [hkey n hn count (by omega) (hn'.symm.trans hk)]
      · rename_i hk
        rw [← filled, hbefore]
        constructor
        · rintro ⟨n, hn, h⟩
          exact ⟨n, by omega, h⟩
        · rintro ⟨n, hn, rfl, hv⟩
          have hne : n ≠ count := fun h => hk (h ▸ rfl)
          exact ⟨n, by omega, rfl, hv⟩

@[simp] theorem get_del (t : Table κ ν) (k j : κ) :
    (t.del k).get j = if j = k then none else t.get j := by
  by_cases h : j = k
  · subst h
    simpa [get, del] using Finmap.lookup_erase j t
  · rw [if_neg h]
    exact Finmap.lookup_erase_ne h

@[simp] theorem get_change (t : Table κ ν) (k : κ) (f : ν → ν) (j : κ) :
    (t.change k f).get j = if j = k then (t.get k).map f else t.get j := by
  unfold change
  cases h : t.get k with
  | none =>
      by_cases hj : j = k
      · simp [hj, h]
      · simp [hj]
  | some v => simp

theorem get_eq_some (t : Table κ ν) (k : κ) (v : ν) :
    t.get k = some v ↔ (⟨k, v⟩ : Σ _ : κ, ν) ∈ Finmap.entries t :=
  Finmap.mem_lookup_iff

@[simp] theorem get_filter (t : Table κ ν) (p : κ → ν → Bool) (k : κ) :
    (t.filter p).get k = (t.get k).filter (p k) := by
  apply Option.ext
  intro v
  rw [Option.filter_eq_some_iff, get_eq_some, get_eq_some]
  exact Multiset.mem_filter

@[simp] theorem get_mapValues (t : Table κ ν) (f : ν → ν) (k : κ) :
    (t.mapValues f).get k = (t.get k).map f := by
  apply Option.ext
  intro v
  rw [Option.map_eq_some_iff, get_eq_some]
  constructor
  · intro hmem
    obtain ⟨entry, hentry, heq⟩ := Multiset.mem_map.mp hmem
    cases heq
    exact ⟨entry.2, (get_eq_some t _ _).mpr hentry, rfl⟩
  · rintro ⟨u, hu, rfl⟩
    exact Multiset.mem_map.mpr ⟨⟨k, u⟩, (get_eq_some t k u).mp hu, rfl⟩

theorem change_of_get {t : Table κ ν} {k : κ} {v : ν} (h : t.get k = some v) (f : ν → ν) :
    t.change k f = t.put k (f v) := by
  rw [change, h]

theorem put_of_get {t : Table κ ν} {k : κ} {v : ν} (h : t.get k = some v) : t.put k v = t := by
  ext1 j
  by_cases hj : j = k <;> simp [hj, h]

@[simp] theorem mem_keys (t : Table κ ν) (k : κ) : k ∈ t.keys ↔ ∃ v, t.get k = some v :=
  Finmap.mem_keys.trans Finmap.mem_iff

theorem contains_iff (t : Table κ ν) (k : κ) : t.contains k = true ↔ ∃ v, t.get k = some v := by
  simp [contains, Option.isSome_iff_exists]

-- Deleting a key that was absent and has just been put gives the table back.
theorem del_put (t : Table κ ν) (k : κ) (v : ν) (h : t.get k = none) : (t.put k v).del k = t := by
  ext1 j
  by_cases hj : j = k <;> simp [hj, h]

theorem put_del (t : Table κ ν) (k : κ) (v : ν) (h : t.get k = some v) : (t.del k).put k v = t := by
  ext1 j
  by_cases hj : j = k <;> simp [hj, h]

-- The entries in the order in which an iteration visits their keys.
def entriesIn (t : Table κ ν) (order : List κ) : List (κ × ν) :=
  order.filterMap fun k => (t.get k).map (k, ·)

-- The iteration visits every entry, and none twice.
structure Enumerates (t : Table κ ν) (order : List κ) : Prop where
  nodup : order.Nodup
  mem : ∀ k v, t.get k = some v → k ∈ order

theorem mem_entriesIn (t : Table κ ν) (order : List κ) (k : κ) (v : ν) :
    (k, v) ∈ t.entriesIn order ↔ k ∈ order ∧ t.get k = some v := by
  simp only [entriesIn, List.mem_filterMap, Option.map_eq_some_iff, Prod.mk.injEq]
  constructor
  · rintro ⟨j, hj, w, hw, rfl, rfl⟩
    exact ⟨hj, hw⟩
  · rintro ⟨hk, hv⟩
    exact ⟨k, hk, v, hv, rfl, rfl⟩

theorem enumerates_of_keys {t : Table κ ν} {order : List κ} (hnodup : order.Nodup)
    (hkeys : t.keys ⊆ order.toFinset) : t.Enumerates order :=
  ⟨hnodup, fun k v hget => List.mem_toFinset.mp (hkeys ((mem_keys t k).mpr ⟨v, hget⟩))⟩

theorem Enumerates.mem_entriesIn {t : Table κ ν} {order : List κ} (h : t.Enumerates order)
    (k : κ) (v : ν) : (k, v) ∈ t.entriesIn order ↔ t.get k = some v :=
  (Table.mem_entriesIn t order k v).trans ⟨And.right, fun hv => ⟨h.mem k v hv, hv⟩⟩

theorem entriesIn_keys_sublist (t : Table κ ν) (order : List κ) :
    ((t.entriesIn order).map Prod.fst).Sublist order := by
  induction order with
  | nil => exact List.Sublist.refl _
  | cons k order ih =>
      cases hk : t.get k with
      | none =>
          have hcons : t.entriesIn (k :: order) = t.entriesIn order := by
            simp [entriesIn, hk]
          rw [hcons]
          exact ih.cons k
      | some v =>
          have hcons : t.entriesIn (k :: order) = (k, v) :: t.entriesIn order := by
            simp [entriesIn, hk]
          rw [hcons, List.map_cons]
          exact ih.cons_cons k

-- The sum of a measure of the entries.
def sum (t : Table κ ν) (f : κ → ν → Nat) : Nat :=
  ∑ k ∈ t.keys, (t.get k).elim 0 (f k)

theorem sum_congr (t : Table κ ν) {f g : κ → ν → Nat}
    (h : ∀ k v, t.get k = some v → f k v = g k v) : t.sum f = t.sum g := by
  apply Finset.sum_congr rfl
  intro k hk
  obtain ⟨v, hv⟩ := (mem_keys t k).mp hk
  simp [hv, h k v hv]

theorem sum_eq_zero (t : Table κ ν) {f : κ → ν → Nat}
    (h : ∀ k v, t.get k = some v → f k v = 0) : t.sum f = 0 := by
  apply Finset.sum_eq_zero
  intro k hk
  obtain ⟨v, hv⟩ := (mem_keys t k).mp hk
  simp [hv, h k v hv]

@[simp] theorem sum_empty (f : κ → ν → Nat) : (empty : Table κ ν).sum f = 0 := by
  apply Finset.sum_eq_zero
  intro k _
  simp

theorem le_sum (t : Table κ ν) (f : κ → ν → Nat) {k : κ} {v : ν} (h : t.get k = some v) :
    f k v ≤ t.sum f := by
  have hk : k ∈ t.keys := (mem_keys t k).mpr ⟨v, h⟩
  have hle := Finset.single_le_sum (f := fun j => (t.get j).elim 0 (f j))
    (fun _ _ => Nat.zero_le _) hk
  simpa [sum, h] using hle

theorem sum_del (t : Table κ ν) (f : κ → ν → Nat) {k : κ} {v : ν} (h : t.get k = some v) :
    (t.del k).sum f + f k v = t.sum f := by
  have hk : k ∈ t.keys := (mem_keys t k).mpr ⟨v, h⟩
  have hkeys : (t.del k).keys = t.keys.erase k := Finmap.keys_erase k t
  have hrest : (t.del k).sum f = ∑ j ∈ t.keys.erase k, (t.get j).elim 0 (f j) := by
    rw [sum, hkeys]
    apply Finset.sum_congr rfl
    intro j hj
    simp [(Finset.mem_erase.mp hj).1]
  rw [hrest, sum, ← Finset.sum_erase_add _ _ hk, h]
  rfl

theorem sum_put_new (t : Table κ ν) (f : κ → ν → Nat) {k : κ} (v : ν) (h : t.get k = none) :
    (t.put k v).sum f = t.sum f + f k v := by
  have hs := sum_del (t.put k v) f (k := k) (v := v) (by simp)
  rw [del_put t k v h] at hs
  exact hs.symm

theorem sum_put (t : Table κ ν) (f : κ → ν → Nat) {k : κ} {u : ν} (v : ν) (h : t.get k = some u) :
    (t.put k v).sum f + f k u = t.sum f + f k v := by
  have hput : (t.put k v) = (t.del k).put k v := by
    ext1 j
    by_cases hj : j = k <;> simp [hj]
  have hn := sum_put_new (t.del k) f v (k := k) (by simp)
  have hd := sum_del t f h
  rw [hput, hn]
  omega

-- A put that measures as what it replaces does not change the sum.
theorem sum_put_same (t : Table κ ν) (f : κ → ν → Nat) {k : κ} (v : ν)
    (h : (t.get k).elim 0 (f k) = f k v) : (t.put k v).sum f = t.sum f := by
  cases hget : t.get k with
  | none =>
      rw [hget] at h
      rw [sum_put_new t f v hget, ← h, Option.elim_none, Nat.add_zero]
  | some u =>
      rw [hget, Option.elim_some] at h
      have hsum := sum_put t f v hget
      omega

-- The number of the entries with a property.
def count (t : Table κ ν) (p : κ → ν → Prop) [∀ k v, Decidable (p k v)] : Nat :=
  t.sum fun k v => if p k v then 1 else 0

section Count

variable {p : κ → ν → Prop} [∀ k v, Decidable (p k v)]

@[simp] theorem count_empty : (empty : Table κ ν).count p = 0 := sum_empty _

theorem count_put_new (t : Table κ ν) {k : κ} (v : ν) (h : t.get k = none) :
    (t.put k v).count p = t.count p + if p k v then 1 else 0 :=
  sum_put_new t _ v h

theorem count_put (t : Table κ ν) {k : κ} {u : ν} (v : ν) (h : t.get k = some u) :
    (t.put k v).count p + (if p k u then 1 else 0) = t.count p + if p k v then 1 else 0 :=
  sum_put t _ v h

theorem count_pos (t : Table κ ν) {k : κ} {v : ν} (h : t.get k = some v) (hp : p k v) :
    0 < t.count p := by
  have hle := le_sum t (fun k v => if p k v then 1 else 0) h
  rw [if_pos hp] at hle
  exact hle

theorem count_congr (t : Table κ ν) {q : κ → ν → Prop} [∀ k v, Decidable (q k v)]
    (h : ∀ k v, t.get k = some v → (p k v ↔ q k v)) : t.count p = t.count q :=
  sum_congr t fun k v hv => by simp only [h k v hv]

end Count

theorem sum_entriesIn_eq (t : Table κ ν) (f : κ → ν → Nat) (order : List κ) :
    ((t.entriesIn order).map fun entry => f entry.1 entry.2).sum =
      (order.map fun k => (t.get k).elim 0 (f k)).sum := by
  induction order with
  | nil => rfl
  | cons k order ih =>
      cases hk : t.get k with
      | none =>
          have hcons : t.entriesIn (k :: order) = t.entriesIn order := by
            simp [entriesIn, hk]
          simp [hcons, ih, hk]
      | some v =>
          have hcons : t.entriesIn (k :: order) = (k, v) :: t.entriesIn order := by
            simp [entriesIn, hk]
          simp [hcons, ih, hk]

-- An iteration that adds up a measure of the entries finds their sum.
theorem Enumerates.sum_entriesIn {t : Table κ ν} {order : List κ} (h : t.Enumerates order)
    (f : κ → ν → Nat) : ((t.entriesIn order).map fun entry => f entry.1 entry.2).sum = t.sum f := by
  rw [sum_entriesIn_eq, ← List.sum_toFinset _ h.nodup, sum]
  symm
  apply Finset.sum_subset
  · intro k hk
    obtain ⟨v, hv⟩ := (mem_keys t k).mp hk
    exact List.mem_toFinset.mpr (h.mem k v hv)
  · intro k _ hk
    cases hv : t.get k with
    | none => rfl
    | some v => exact absurd ((mem_keys t k).mpr ⟨v, hv⟩) hk

end Table

end Raicoin.Lib
