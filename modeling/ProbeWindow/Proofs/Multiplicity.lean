import ProbeWindow.Proofs.Contents
import Mathlib.Data.List.Perm.Lattice

/-!
# How often a key is there

Two lists of items have the same keys when every key is there equally often. Then everything that
is a function of the key class comes equally often too (`perm_map_of_multiplicity`), and so do, in
particular, the homes. Among items with distinct keys a key is there once, or not at all.
-/

namespace ProbeWindow.Contents

universe u v w

variable {α : Type u} {κ : Type v} {β : Type w} [BEq κ] [EquivBEq κ] {key : α → κ}
  {items items' : List α}

/-- How many items have a key. -/
def multiplicity (key : α → κ) (items : List α) (k : κ) : Nat := items.countP fun a ↦ key a == k

/-- A key that is among distinct ones is there once. -/
theorem Distinct.multiplicity_eq (h : Distinct key items) (k : κ) :
    multiplicity key items k = (lookup key items k).toList.length := by
  induction items with
  | nil => rfl
  | cons a items ih =>
    obtain ⟨hne, hrest⟩ := List.pairwise_cons.mp h
    rw [multiplicity, List.countP_cons, lookup, List.find?_cons]
    by_cases ha : (key a == k) = true
    · have hzero : items.countP (fun b ↦ key b == k) = 0 := by
        refine List.countP_eq_zero.mpr fun b hb hbk ↦ ?_
        have hab := hne b hb
        rw [BEq.trans ha (BEq.symm hbk)] at hab
        cases hab
      rw [hzero, if_pos ha, ha]
      rfl
    · rw [if_neg ha, Bool.eq_false_iff.mpr ha]
      exact ih hrest

/-- The classes of equal keys. -/
def keySetoid (κ : Type v) [BEq κ] [EquivBEq κ] : Setoid κ where
  r j k := (j == k) = true
  iseqv := ⟨fun _ ↦ BEq.rfl, BEq.symm, BEq.trans⟩

/-- **What equal keys have in common comes equally often** when every key does. -/
theorem perm_map_of_multiplicity
    (h : ∀ k, multiplicity key items k = multiplicity key items' k) {f : κ → β}
    (hf : ∀ j k, (j == k) = true → f j = f k) :
    (items.map fun a ↦ f (key a)).Perm (items'.map fun a ↦ f (key a)) := by
  classical
  let cls : κ → Quotient (keySetoid κ) := Quotient.mk _
  -- the lists of classes are rearrangements of each other, and `f` is a function of the class
  have hcount : ∀ (l : List α) (k : κ),
      (l.map fun a ↦ cls (key a)).count (cls k) = multiplicity key l k := by
    intro l k
    rw [List.count, List.countP_map, multiplicity]
    refine List.countP_congr fun a _ ↦ ?_
    rw [Function.comp_apply, beq_iff_eq]
    exact ⟨Quotient.exact (s := keySetoid κ), Quotient.sound (s := keySetoid κ)⟩
  have hclasses : (items.map fun a ↦ cls (key a)).Perm (items'.map fun a ↦ cls (key a)) := by
    refine List.perm_iff_count.mpr fun q ↦ ?_
    induction q using Quotient.inductionOn with
    | h k => rw [hcount, hcount, h k]
  have hmap := hclasses.map (Quotient.lift f hf)
  rw [List.map_map, List.map_map] at hmap
  exact hmap

end ProbeWindow.Contents
