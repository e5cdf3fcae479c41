import Raicoin.Lib.Codec

-- Writers that take one value in several representations, and readers that give it back in
-- one of them.
namespace Raicoin.Lib

variable {τ ε α : Type}

-- What `write` makes of a value is what `plain` makes of the value's canonical form, which
-- is the form that `read` returns.
structure Converts (read : Reader τ ε α) (write : α → Option (List τ)) (plain : α → List τ)
    (canonical : α → Prop) (same : α → α → Prop) : Prop where
  inverts : Inverts read plain canonical
  writes : ∀ a, canonical a → write a = some (plain a)
  covers : ∀ a bytes, write a = some bytes → ∃ b, canonical b ∧ same a b ∧ plain b = bytes

namespace Converts

variable {read : Reader τ ε α} {write : α → Option (List τ)} {plain : α → List τ}
  {canonical : α → Prop} {same : α → α → Prop}

theorem reads (h : Converts read write plain canonical same) {a : α} {bytes : List τ}
    (hwrite : write a = some bytes) :
    ∃ b, read bytes = .ok b [] ∧ same a b ∧ canonical b := by
  obtain ⟨b, hb, hsame, rfl⟩ := h.covers a bytes hwrite
  exact ⟨b, (h.inverts.exact_iff _ _).mpr ⟨hb, rfl⟩, hsame, hb⟩

-- Whoever reads what was written gets a value in its canonical form.
theorem canonical_of_read (h : Converts read write plain canonical same) {s rest : List τ} {b : α}
    (hread : read s = .ok b rest) : canonical b := (h.inverts.sound s b rest hread).1

theorem short_fails (h : Converts read write plain canonical same) {a : α} {front back : List τ}
    (hwrite : write a = some (front ++ back)) (hback : back ≠ []) :
    ∃ code rest, read front = .error code rest := by
  obtain ⟨b, hb, -, hplain⟩ := h.covers a _ hwrite
  exact h.inverts.short_fails hb hplain hback

theorem rewrites (h : Converts read write plain canonical same) {s rest : List τ} {b : α}
    (hread : read s = .ok b rest) : ∃ bytes, write b = some bytes ∧ s = bytes ++ rest := by
  obtain ⟨hb, hs⟩ := h.inverts.sound s b rest hread
  exact ⟨plain b, h.writes b hb, hs⟩

end Converts

end Raicoin.Lib
