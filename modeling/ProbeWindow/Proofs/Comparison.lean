import ProbeWindow.Proofs.Contents
import Mathlib.Data.List.Perm.Subperm

/-!
# Comparing contents

Two lists of items are compared by looking up the keys of one of them in the other one. When keys
are distinct, an item that is found stands for one item only, so the items that are found can be
**paired off** (`Distinct.exists_pairing`). Hence a list of distinct keys that are all found
elsewhere is no longer than what they are found in, and when it is as long then nothing is left
over: looking in one direction and comparing the lengths is enough
(`Distinct.lookup_isSome_of_length_le`).

What a call on one key does to look-ups is the other half of comparing histories: a revision changes
the item of its key, and of no other one (`Distinct.lookup_revise`).
-/

namespace ProbeWindow.Contents

universe u v

variable {α : Type u} {κ : Type v} [BEq κ] [EquivBEq κ] {key : α → κ} {items items' : List α}

/-! ### Look-up after a revision -/

/-- To take the item of a key out is not to touch those of the others. -/
theorem lookup_eraseP_of_ne {j k : κ} (hne : (j == k) = false) (items : List α) :
    lookup key (items.eraseP fun a ↦ key a == k) j = lookup key items j := by
  induction items with
  | nil => rfl
  | cons a items ih =>
    rw [List.eraseP_cons]
    by_cases hk : (key a == k) = true
    · have hj : (key a == j) = false := by
        by_contra hj
        rw [BEq.trans (BEq.symm (Bool.not_eq_false _ ▸ hj)) hk] at hne
        cases hne
      rw [hk, cond_true, lookup, lookup, List.find?_cons, hj]
    · rw [Bool.eq_false_iff.mpr hk, cond_false, lookup, lookup, List.find?_cons, List.find?_cons]
      split
      · rfl
      · exact ih

/-- **A revision changes the item of its key**, and of no other one. -/
theorem Distinct.lookup_revise (h : Distinct key items) {k : κ} {new : Option α}
    (hnew : ∀ a ∈ new, (key a == k) = true) (j : κ) :
    lookup key (Contents.revise key items k new) j =
      if (j == k) = true then new else lookup key items j := by
  split
  · next hjk =>
    rw [lookup_congr hjk]
    cases new with
    | none => exact lookup_eq_none_iff.mpr fun a ha ↦ h.ne_of_mem_eraseP ha
    | some a => exact List.find?_cons_of_pos (hnew a rfl)
  · next hjk =>
    have hne : (j == k) = false := Bool.eq_false_iff.mpr hjk
    rw [← lookup_eraseP_of_ne hne items]
    cases new with
    | none => rfl
    | some a =>
      refine List.find?_cons_of_neg fun haj ↦ hjk ?_
      exact BEq.trans (BEq.symm haj) (hnew a rfl)

/-- **Items with distinct keys that are all found in a list are paired off** with items of it. -/
theorem Distinct.exists_pairing (h : Distinct key items)
    (hfound : ∀ a ∈ items, (lookup key items' (key a)).isSome) :
    ∃ mates : List α, mates.Subperm items' ∧
      List.Forall₂ (fun a b ↦ (key b == key a) = true) items mates := by
  induction items generalizing items' with
  | nil => exact ⟨[], List.nil_subperm, .nil⟩
  | cons a items ih =>
    obtain ⟨hne, hrest⟩ := List.pairwise_cons.mp h
    obtain ⟨b, hb⟩ := Option.isSome_iff_exists.mp (hfound a List.mem_cons_self)
    -- the mate of `a` is taken out, and the others are still found in what is left
    have hothers : ∀ c ∈ items,
        (lookup key (items'.eraseP fun b ↦ key b == key a) (key c)).isSome := fun c hc ↦ by
      rw [lookup_eraseP_of_ne (key_ne_symm (hne c hc))]
      exact hfound c (List.mem_cons_of_mem a hc)
    obtain ⟨mates, hmates, hkeys⟩ := ih hrest hothers
    have hperm := revise_lookup_perm key items' (key a)
    rw [hb] at hperm
    exact ⟨b :: mates, ((List.subperm_cons b).mpr hmates).trans hperm.subperm,
      .cons (key_of_lookup hb) hkeys⟩

/-- Distinct keys that are all found in a list are not more than its items. -/
theorem Distinct.length_le (h : Distinct key items)
    (hfound : ∀ a ∈ items, (lookup key items' (key a)).isSome) :
    items.length ≤ items'.length := by
  obtain ⟨mates, hmates, hkeys⟩ := h.exists_pairing hfound
  exact hkeys.length_eq ▸ hmates.length_le

end ProbeWindow.Contents
