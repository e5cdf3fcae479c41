import Mathlib.Algebra.Ring.Nat
import Mathlib.Tactic.Common

-- Trees of texts whose children have keys, as `boost::property_tree` keeps them.
namespace Raicoin.Lib

inductive Ptree (τ : Type) where
  | node (data : τ) (children : List (String × Ptree τ))

namespace Ptree

variable {τ : Type}

def data : Ptree τ → τ
  | .node data _ => data

def children : Ptree τ → List (String × Ptree τ)
  | .node _ children => children

-- Of the children with a key, the first one counts.
def getChild (p : Ptree τ) (key : String) : Option (Ptree τ) :=
  p.children.lookup key

def get (p : Ptree τ) (key : String) : Option τ := (p.getChild key).map data

-- Gives a child a text, and keeps what hangs below it.
def setFirst (key : String) (value : τ) : List (String × Ptree τ) → List (String × Ptree τ)
  | [] => [(key, .node value [])]
  | (other, child) :: rest =>
    if key = other then (other, .node value child.children) :: rest
    else (other, child) :: setFirst key value rest

def put (p : Ptree τ) (key : String) (value : τ) : Ptree τ :=
  .node p.data (setFirst key value p.children)

-- `add_child` does not look for the key.
def addChild (p : Ptree τ) (key : String) (child : Ptree τ) : Ptree τ :=
  .node p.data (p.children ++ [(key, child)])

def putAll (p : Ptree τ) (fields : List (String × τ)) : Ptree τ :=
  fields.foldl (fun p field => p.put field.1 field.2) p

def erase (p : Ptree τ) (key : String) : Ptree τ :=
  .node p.data (p.children.filter fun child => child.1 ≠ key)

theorem get_put (p : Ptree τ) (key other : String) (value : τ) :
    (p.put key value).get other = if other = key then some value else p.get other := by
  have hset (children : List (String × Ptree τ)) :
      ((setFirst key value children).lookup other).map data =
        if other = key then some value else (children.lookup other).map data := by
    induction children with
    | nil =>
        by_cases hother : other = key
        · simp [setFirst, hother, data]
        · simp [setFirst, hother]
    | cons child rest ih =>
        obtain ⟨first, child⟩ := child
        rw [setFirst]
        by_cases hkey : key = first
        · subst hkey
          rw [if_pos rfl]
          by_cases hother : other = key
          · simp [hother, data]
          · simp [List.lookup_cons, hother, beq_false_of_ne hother]
        · rw [if_neg hkey, List.lookup_cons, List.lookup_cons]
          by_cases hother : other = first
          · have hne : other ≠ key := fun heq => hkey (heq.symm.trans hother)
            simp [hother, hother ▸ hne]
          · rw [beq_false_of_ne hother]
            exact ih
  exact hset p.children

theorem get_addChild {p : Ptree τ} {key other : String} (h : other ≠ key) (child : Ptree τ) :
    (p.addChild key child).get other = p.get other := by
  have hlookup (children : List (String × Ptree τ)) :
      (children ++ [(key, child)]).lookup other = children.lookup other := by
    induction children with
    | nil => simp [h]
    | cons first rest ih => rw [List.cons_append, List.lookup_cons, List.lookup_cons, ih]
  exact congrArg (Option.map data) (hlookup p.children)

theorem get_erase {p : Ptree τ} {key other : String} :
    (p.erase key).get other = if other = key then none else p.get other := by
  have hlookup (children : List (String × Ptree τ)) :
      (children.filter fun child => child.1 ≠ key).lookup other =
        if other = key then none else children.lookup other := by
    induction children with
    | nil => simp
    | cons child rest ih =>
        obtain ⟨first, child⟩ := child
        by_cases hfirst : first = key
        · rw [List.filter_cons_of_neg (by simp [hfirst]), ih, List.lookup_cons, hfirst]
          by_cases hother : other = key
          · rw [if_pos hother, if_pos hother]
          · rw [if_neg hother, if_neg hother, beq_false_of_ne hother]
        · rw [List.filter_cons_of_pos (by simp [hfirst]), List.lookup_cons, List.lookup_cons, ih]
          by_cases hother : other = first
          · simp [hother, hfirst]
          · rw [beq_false_of_ne hother]
  rw [get, getChild, erase, children, hlookup]
  by_cases hother : other = key
  · rw [if_pos hother, if_pos hother]
    rfl
  · rw [if_neg hother, if_neg hother]
    rfl

theorem get_putAll_other {fields : List (String × τ)} {key : String}
    (h : ∀ field ∈ fields, field.1 ≠ key) (p : Ptree τ) : (p.putAll fields).get key = p.get key := by
  induction fields generalizing p with
  | nil => rfl
  | cons field fields ih =>
      obtain ⟨hfield, hfields⟩ := List.forall_mem_cons.mp h
      have hput : p.putAll (field :: fields) = (p.put field.1 field.2).putAll fields := rfl
      rw [hput, ih hfields, get_put, if_neg hfield.symm]

theorem get_putAll {fields : List (String × τ)} (h : (fields.map Prod.fst).Nodup) (p : Ptree τ) :
    ∀ field ∈ fields, (p.putAll fields).get field.1 = some field.2 := by
  induction fields generalizing p with
  | nil => simp
  | cons field fields ih =>
      obtain ⟨hfresh, hrest⟩ := List.nodup_cons.mp h
      have hput : p.putAll (field :: fields) = (p.put field.1 field.2).putAll fields := rfl
      rw [hput]
      refine List.forall_mem_cons.mpr ⟨?_, ih hrest _⟩
      rw [get_putAll_other (fun other hother heq => ?_), get_put, if_pos rfl]
      exact hfresh (List.mem_map.mpr ⟨other, hother, heq⟩)

end Ptree

end Raicoin.Lib
