import ProbeWindow.Proofs.Equality
import ProbeWindow.Proofs.Folding

/-!
# Putting many items in at once

A map or a set takes many items at once: it makes room for as many as a hint tells, and then puts
them in one by one. The hint may be wrong, and the room that is made for it decides when the table
grows and where the items lie. It does not decide what the table holds: that is a fold over the
items (`Table.Folds`), which is the same for all hints, and what single insertions would have left.

A map that is extended, or made of pairs, keeps the first key object of each key and the last value.
All other calls keep the item that is there, or else the first one. How many items are counted as
new is how much the size has grown.
-/

namespace ProbeWindow

universe u v w x y z

variable {α : Type u} {κ : Type v} {ν : Type x} {σ : Type w} [BEq κ]

open Contents

namespace Table

variable {γ : Type x} {τ : Type y} {ρ : Type z} {key : α → κ} {t : Table key}

section Folds

variable [EquivBEq κ] {merge : α → α → α} {items : List α} {f : τ → γ} {tell : Nat → γ}
  {t' : Table key} {out out' : Outcome (Table key) τ} {r r' : τ}

/-- What a call that puts many items in leaves when it returns. -/
theorem Fulfils.of_many (h : Fulfils t (out.map f) (.many merge items tell : Meaning σ α κ γ))
    (ht : t.Proper) (hr : out.result = .ok r) :
    f r = tell (insertAll key merge t.toList items).2 ∧ out.state.Sound ∧
      out.state.toList.Perm (insertAll key merge t.toList items).1 := by
  have hresult : (out.map f).result = .ok (f r) := by rw [Outcome.result_map, hr]; rfl
  obtain ⟨htell, hperm⟩ := h.meets inferInstance ht.distinct _ hresult
  exact ⟨htell, h.sound, hperm⟩

/-- **The items that are counted are the growth of the size.** -/
theorem Fulfils.size_eq {out : Outcome (Table key) Nat}
    (h : Fulfils t (out.map tell) (.many merge items tell : Meaning σ α κ γ)) (ht : t.Proper)
    (htell : Function.Injective tell) {n : Nat} (hn : out.result = .ok n) :
    out.state.size = t.size + n := by
  obtain ⟨hcount, hsound, hperm⟩ := h.of_many ht hn
  rw [hsound.size_eq_length, hperm.length_eq, length_insertAll, ← ht.sound.size_eq_length,
    htell hcount]

end Folds

end Table

/-! ### Maps -/

namespace HashMap

open Table

variable {m : HashMap κ ν} {pairs : List (κ × ν)}

variable [EquivBEq κ]

omit [EquivBEq κ] in
/-- Extending a map puts its pairs in. -/
theorem fulfils_extend (h : m.Sound) (pairs : List (κ × ν)) (hint : Nat) :
    Fulfils m ((HashMap.extend m pairs hint).map fun () ↦ .unit)
      (.many mergePair pairs fun _ ↦ .unit : Meaning Unit (κ × ν) κ (Reply Unit κ ν)) :=
  h.fulfils_map (.extend pairs hint)

end HashMap

/-! ### Sets -/

namespace HashSet

open Table

variable {s : HashSet κ} {items : List κ}

variable [EquivBEq κ]

omit [EquivBEq κ] in
/-- Extending a set puts its items in. -/
theorem fulfils_extend (h : s.Sound) (items : List κ) (hint : Nat) :
    Fulfils s ((HashSet.extend s items hint).map fun () ↦ .unit)
      (.many (fun old _ ↦ old) items fun _ ↦ .unit : Meaning Unit κ κ (Reply Unit κ)) :=
  h.fulfils_set (.extend items hint)

end HashSet

/-! ### Runs -/

namespace Bank

end Bank

end ProbeWindow
