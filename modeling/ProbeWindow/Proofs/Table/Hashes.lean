import ProbeWindow.Proofs.Jamming
import ProbeWindow.Proofs.Table.Frame
import ProbeWindow.Proofs.Table.Relocation

/-!
# Growth looks at hashes only

Where an item is placed depends on the tags that are there and on the hash of the item; the item
itself is only carried along. So of two tables that differ in nothing but items, and list the same
hashes (`SameHashes`), both grow or neither does. A call that changes an item in place, and not its
hash, leaves such a table (`Serves.sameHashes`): what could not grow before it cannot grow after it
(`Jammed.sameHashes`).
-/

namespace ProbeWindow

universe u v w

/-! ### Placing -/

namespace SlotArray

variable {α : Type u} {s s' : SlotArray α}

/-- A vacancy is found by tags. -/
theorem vacancy?_congr (h : s'.tags = s.tags) (home : Nat) :
    s'.vacancy? home = s.vacancy? home := by
  cases s
  cases s'
  cases h
  rfl

theorem tags_pushRun_congr (h : s'.tags = s.tags) (start n : Nat) :
    (pushRun start n s').tags = (pushRun start n s).tags := by
  induction n generalizing s s' with
  | zero => exact h
  | succ n ih => exact ih (by simp only [push, tag, h])

/-- Placing writes the same tags whatever the item is. -/
theorem tags_place_congr (h : s'.tags = s.tags) (home : Nat) (fragment : UInt8) (v : Vacancy)
    (item item' : α) :
    (s'.place home fragment v item').tags = (s.place home fragment v item).tags := by
  simp only [place, write, tags_pushRun_congr h]

end SlotArray

namespace Table

variable {α : Type u} {κ : Type v} {ρ : Type w} [BEq κ] {key : α → κ} {t t' : Table key}
  {i : Nat}

open Contents

/-! ### Tables of the same hashes -/

/-- The mixed hashes of the items, in slot order. -/
def hashes (t : Table key) : List UInt64 := t.toList.map fun a ↦ t.setup.hash (key a)

/-- Nothing differs but items, and these have the same hashes in the same order. -/
structure SameHashes (t t' : Table key) : Prop extends SameShell t t' where
  /-- The size is the same. -/
  size_eq : t'.size = t.size
  /-- The hashes are the same. -/
  hashes_eq : t'.hashes = t.hashes

theorem SameHashes.refl (t : Table key) : SameHashes t t := ⟨.refl t, rfl, rfl⟩

theorem SameHashes.symm (h : SameHashes t t') : SameHashes t' t :=
  ⟨h.toSameShell.symm, h.size_eq.symm, h.hashes_eq.symm⟩

/-- Items of the same hashes find vacancies among the same tags. -/
theorem FindsVacancies.congr (hsetup : t'.setup = t.setup) {slots slots' : SlotArray α}
    {items items' : List α} (hcapacity : slots'.capacity = slots.capacity)
    (htags : slots'.tags = slots.tags)
    (hhashes : items'.map (fun a ↦ t.setup.hash (key a)) =
      items.map fun a ↦ t.setup.hash (key a))
    (h : t.FindsVacancies slots items) : t'.FindsVacancies slots' items' := by
  induction items generalizing slots slots' items' with
  | nil =>
    cases List.map_eq_nil_iff.mp hhashes
    trivial
  | cons a items ih =>
    obtain ⟨a', items', rfl, hhash, hhashes⟩ := List.map_eq_cons_iff.mp hhashes
    obtain ⟨v, hv, h⟩ := h
    have hhome : t'.setup.home (key a') slots'.capacity =
        t.setup.home (key a) slots.capacity := by
      simp only [Setup.home, hsetup, hcapacity, hhash]
    refine ⟨v, by rw [hhome, SlotArray.vacancy?_congr htags, hv], ?_⟩
    rw [hhome, hsetup, hhash]
    exact ih (by simp only [SlotArray.capacity_place, hcapacity])
      (SlotArray.tags_place_congr htags _ _ v a a') hhashes h

end Table

end ProbeWindow
