import Mathlib.Data.List.Forall2
import Mathlib.Data.List.Pairwise
import Mathlib.Data.List.Perm.Basic

/-!
# Contents

What a table holds is a list of items; their order says where the items are, which no look-up
depends on. This module has the two things that a call on one key does to such a list: it looks
the item of the key up (`lookup`), and it leaves another item, or none, in its place (`revise`).

When no two items have equal keys, both are the same on a rearranged list (`Distinct.lookup_perm`,
`Distinct.revise_perm`): the contents are then a finite map from classes of equal keys to items.
Most lemmas do not need this. They are about the first item of a key, and a table with equal keys
does what they say too.
-/

namespace ProbeWindow.Contents

universe u v

variable {α : Type u} {κ : Type v} [BEq κ] {key : α → κ}

/-! ### Items of a key -/

/-- The first item with a key. -/
def lookup (key : α → κ) (items : List α) (k : κ) : Option α := items.find? fun a ↦ key a == k

/-- The items with another one, or none, in place of the first item with a key. -/
def revise (key : α → κ) (items : List α) (k : κ) (new : Option α) : List α :=
  new.toList ++ items.eraseP fun a ↦ key a == k

/-- No two items have equal keys. -/
def Distinct (key : α → κ) (items : List α) : Prop :=
  items.Pairwise fun a b ↦ (key a == key b) = false

/-- An item is the first one of a key, at a cut of the list. -/
structure FirstAt (key : α → κ) (items : List α) (k : κ) (front : List α) (a : α)
    (back : List α) : Prop where
  /-- The cut. -/
  eq_append : items = front ++ a :: back
  /-- The item has the key. -/
  key_eq : (key a == k) = true
  /-- No item before it has the key. -/
  front_ne : ∀ b ∈ front, (key b == k) = false

/-- Items put in one by one, and how many had absent keys. An item whose key is there is merged
with the item that is there. -/
def insertAll (key : α → κ) (merge : α → α → α) (items : List α) : List α → List α × Nat
  | [] => (items, 0)
  | a :: as =>
    match lookup key items (key a) with
    | none => ((insertAll key merge (a :: items) as).1, (insertAll key merge (a :: items) as).2 + 1)
    | some old => insertAll key merge (revise key items (key a) (some (merge old a))) as

section InsertAll

variable {merge : α → α → α} {items : List α} {a old : α}

theorem insertAll_cons_of_none (h : lookup key items (key a) = none) (as : List α) :
    insertAll key merge items (a :: as) =
      ((insertAll key merge (a :: items) as).1, (insertAll key merge (a :: items) as).2 + 1) := by
  rw [insertAll, h]

theorem insertAll_cons_of_some (h : lookup key items (key a) = some old) (as : List α) :
    insertAll key merge items (a :: as) =
      insertAll key merge (revise key items (key a) (some (merge old a))) as := by
  rw [insertAll, h]

end InsertAll

section Lookup

variable {items front back : List α} {k : κ} {a : α}

theorem lookup_eq_none_iff : lookup key items k = none ↔ ∀ a ∈ items, (key a == k) = false := by
  rw [lookup, List.find?_eq_none]
  exact forall₂_congr fun a _ ↦ by rw [Bool.not_eq_true]

theorem lookup_eq_some_iff :
    lookup key items k = some a ↔ ∃ front back, FirstAt key items k front a back := by
  rw [lookup, List.find?_eq_some_iff_append]
  constructor
  · rintro ⟨hkey, front, back, hsplit, hfront⟩
    exact ⟨front, back, hsplit, hkey, fun b hb ↦ by simpa using hfront b hb⟩
  · rintro ⟨front, back, hsplit, hkey, hfront⟩
    exact ⟨hkey, front, back, hsplit, fun b hb ↦ by simpa using hfront b hb⟩

theorem FirstAt.lookup_eq (h : FirstAt key items k front a back) : lookup key items k = some a :=
  lookup_eq_some_iff.mpr ⟨front, back, h⟩

theorem mem_of_lookup (h : lookup key items k = some a) : a ∈ items := List.mem_of_find?_eq_some h

theorem key_of_lookup (h : lookup key items k = some a) : (key a == k) = true := by
  obtain ⟨front, back, hfirst⟩ := lookup_eq_some_iff.mp h
  exact hfirst.key_eq

/-! ### Revision -/

theorem revise_of_lookup_none (h : lookup key items k = none) (new : Option α) :
    revise key items k new = new.toList ++ items := by
  rw [revise, List.eraseP_of_forall_not]
  intro a ha
  rw [lookup_eq_none_iff.mp h a ha]
  exact Bool.false_ne_true

theorem FirstAt.revise_eq (h : FirstAt key items k front a back) (new : Option α) :
    revise key items k new = new.toList ++ (front ++ back) := by
  have hback : (a :: back).eraseP (fun b ↦ key b == k) = back := by
    rw [List.eraseP_cons, h.key_eq, cond_true]
  rw [revise, h.eq_append, List.eraseP_append_right _ fun b hb ↦ ?_, hback]
  rw [h.front_ne b hb]
  exact Bool.false_ne_true

/-- A revision in place. -/
theorem FirstAt.revise_perm (h : FirstAt key items k front a back) (new : Option α) :
    (front ++ (new.toList ++ back)).Perm (revise key items k new) := by
  rw [h.revise_eq, ← List.append_assoc, ← List.append_assoc]
  exact List.perm_append_comm.append_right back

/-- To leave the item in its place is to do nothing. -/
theorem revise_lookup_perm (key : α → κ) (items : List α) (k : κ) :
    (revise key items k (lookup key items k)).Perm items := by
  cases h : lookup key items k with
  | none => rw [revise_of_lookup_none h, Option.toList_none, List.nil_append]
  | some a =>
    obtain ⟨front, back, hfirst⟩ := lookup_eq_some_iff.mp h
    have hperm := hfirst.revise_perm (some a)
    rw [Option.toList_some, List.singleton_append, ← hfirst.eq_append] at hperm
    exact hperm.symm

end Lookup

/-! ### Distinct keys -/

section Distinct

variable [EquivBEq κ] {items items' : List α}

omit [EquivBEq κ] in
theorem distinct_nil : Distinct key [] := List.Pairwise.nil

theorem key_ne_symm {a b : κ} (h : (a == b) = false) : (b == a) = false := by
  rw [BEq.comm, h]

theorem Distinct.perm (h : Distinct key items) (hperm : items.Perm items') :
    Distinct key items' :=
  hperm.pairwise h fun hab ↦ key_ne_symm hab

/-- Two items with a key are one item. -/
theorem Distinct.eq_of_key (h : Distinct key items) {a b : α} {k : κ} (ha : a ∈ items)
    (hb : b ∈ items) (hak : (key a == k) = true) (hbk : (key b == k) = true) : a = b := by
  have hsymm : Std.Symm fun a b : α ↦ (key a == key b) = false := ⟨fun _ _ ↦ key_ne_symm⟩
  by_contra hab
  have hne := List.Pairwise.forall h ha hb hab
  rw [BEq.trans hak (BEq.symm hbk)] at hne
  exact Bool.false_ne_true hne.symm

/-- **Look-up does not depend on the order.** -/
theorem Distinct.lookup_perm (h : Distinct key items) (hperm : items.Perm items') (k : κ) :
    lookup key items k = lookup key items' k := by
  cases hl : lookup key items' k with
  | none =>
    rw [lookup_eq_none_iff] at hl ⊢
    exact fun a ha ↦ hl a (hperm.mem_iff.mp ha)
  | some b =>
    have hb := hperm.mem_iff.mpr (mem_of_lookup hl)
    cases hl' : lookup key items k with
    | none =>
      have hne := lookup_eq_none_iff.mp hl' b hb
      rw [key_of_lookup hl] at hne
      exact absurd hne.symm Bool.false_ne_true
    | some a =>
      rw [h.eq_of_key (mem_of_lookup hl') hb (key_of_lookup hl') (key_of_lookup hl)]

/-- **Revision does not depend on the order.** -/
theorem Distinct.revise_perm (h : Distinct key items) (hperm : items.Perm items') (k : κ)
    (new : Option α) : (revise key items k new).Perm (revise key items' k new) := by
  refine List.Perm.append_left _ (hperm.eraseP _ (h.imp ?_))
  intro a b hab hak hbk
  rw [BEq.trans hak (BEq.symm hbk)] at hab
  exact Bool.false_ne_true hab.symm

/-- After the item of a key is taken out, no item has the key. -/
theorem Distinct.ne_of_mem_eraseP (h : Distinct key items) {k : κ} {a : α}
    (ha : a ∈ items.eraseP fun a ↦ key a == k) : (key a == k) = false := by
  cases hl : lookup key items k with
  | none => exact lookup_eq_none_iff.mp hl a (List.mem_of_mem_eraseP ha)
  | some b =>
    obtain ⟨front, back, hfirst⟩ := lookup_eq_some_iff.mp hl
    have hrest := hfirst.revise_eq none
    rw [revise, Option.toList_none, List.nil_append, List.nil_append] at hrest
    rw [hrest] at ha
    -- the item that was taken out is one with the key, and the others differ from it
    have hpair : Distinct key (b :: (front ++ back)) :=
      h.perm (hfirst.eq_append ▸ List.perm_middle)
    have hne := (List.pairwise_cons.mp hpair).1 a ha
    by_contra heq
    rw [BEq.trans hfirst.key_eq (BEq.symm (Bool.not_eq_false _ ▸ heq))] at hne
    exact Bool.false_ne_true hne.symm

/-- **A revision that leaves an item of the key keeps keys distinct.** -/
theorem Distinct.revise (h : Distinct key items) {k : κ} {new : Option α}
    (hnew : ∀ a ∈ new, (key a == k) = true) : Distinct key (revise key items k new) := by
  have hrest : Distinct key (items.eraseP fun a ↦ key a == k) := h.sublist List.eraseP_sublist
  cases new with
  | none => exact hrest
  | some a =>
    refine List.pairwise_cons.mpr ⟨fun b hb ↦ ?_, hrest⟩
    by_contra hab
    have hbk : (key b == k) = true :=
      BEq.trans (BEq.symm (Bool.not_eq_false _ ▸ hab)) (hnew a rfl)
    rw [h.ne_of_mem_eraseP hb] at hbk
    exact Bool.false_ne_true hbk

theorem Distinct.subperm (h : Distinct key items) (hsub : items'.Subperm items) :
    Distinct key items' := by
  obtain ⟨l, hperm, hsublist⟩ := hsub
  exact Distinct.perm (h.sublist hsublist) hperm

omit [EquivBEq κ] in
/-- Keys are distinct when they are some of the keys of other items. -/
theorem Distinct.of_map_key (h : Distinct key items)
    (hmap : (items'.map key).Sublist (items.map key)) : Distinct key items' := by
  rw [Distinct, ← List.pairwise_map (R := fun j k ↦ (j == k) = false)] at h ⊢
  exact h.sublist hmap

/-- Keys are distinct when they are equal to those of other items, one by one. -/
theorem Distinct.of_forall₂ (h : Distinct key items)
    (hkeys : List.Forall₂ (fun a b ↦ (key b == key a) = true) items items') :
    Distinct key items' := by
  induction hkeys with
  | nil => exact h
  | @cons a b as bs hab hrest ih =>
    obtain ⟨hne, htail⟩ := List.pairwise_cons.mp h
    refine List.pairwise_cons.mpr ⟨fun b' hb' ↦ ?_, ih htail⟩
    obtain ⟨i, hi, rfl⟩ := List.getElem_of_mem hb'
    have hi' : i < as.length := hrest.length_eq ▸ hi
    have hkey := hrest.get hi' hi
    by_contra heq
    have hab' : (key a == key as[i]) = true :=
      BEq.trans (BEq.symm hab) (BEq.trans (Bool.not_eq_false _ ▸ heq) hkey)
    rw [hne _ (List.getElem_mem hi')] at hab'
    cases hab'

/-- To have one of two equal keys is to have the other one. -/
theorem hasKey_congr (key : α → κ) {j k : κ} (h : (j == k) = true) :
    (fun a ↦ key a == j) = fun a ↦ key a == k := by
  funext a
  exact Bool.eq_iff_iff.mpr ⟨fun hj ↦ BEq.trans hj h, fun hk ↦ BEq.trans hk (BEq.symm h)⟩

/-- Equal keys are looked up alike. -/
theorem lookup_congr {j k : κ} (h : (j == k) = true) (items : List α) :
    lookup key items j = lookup key items k := by
  rw [lookup, lookup, hasKey_congr key h]

/-- **An item may be added when its key is absent**, and only then. -/
theorem Distinct.cons_iff (h : Distinct key items) {a : α} :
    Distinct key (a :: items) ↔ lookup key items (key a) = none := by
  rw [Distinct, List.pairwise_cons, lookup_eq_none_iff]
  constructor
  · exact fun hcons b hb ↦ key_ne_symm (hcons.1 b hb)
  · exact fun hne ↦ ⟨fun b hb ↦ key_ne_symm (hne b hb), h⟩

theorem Distinct.cons (h : Distinct key items) {a : α} (hnone : lookup key items (key a) = none) :
    Distinct key (a :: items) :=
  h.cons_iff.mpr hnone

/-- Keys that are distinct in some order are distinct in every order. -/
theorem distinct_perm_iff (hperm : items.Perm items') :
    Distinct key items ↔ Distinct key items' :=
  ⟨fun h ↦ h.perm hperm, fun h ↦ h.perm hperm.symm⟩

section InsertAll

variable (merge : α → α → α)
  (hmerge : ∀ old a, (key old == key a) = true → (key (merge old a) == key a) = true)
include hmerge

theorem Distinct.merged (h : Distinct key items) {a old : α}
    (hold : lookup key items (key a) = some old) :
    Distinct key (Contents.revise key items (key a) (some (merge old a))) := by
  refine h.revise fun b hb ↦ ?_
  cases hb
  exact hmerge old a (key_of_lookup hold)

theorem Distinct.insertAll (h : Distinct key items) (as : List α) :
    Distinct key (Contents.insertAll key merge items as).1 := by
  induction as generalizing items with
  | nil => exact h
  | cons a as ih =>
    cases hold : lookup key items (key a) with
    | none =>
      rw [insertAll_cons_of_none hold]
      exact ih (h.cons hold)
    | some old =>
      rw [insertAll_cons_of_some hold]
      exact ih (h.merged merge hmerge hold)

/-- **Putting items in does not depend on the order of the items that are there.** -/
theorem Distinct.insertAll_perm (h : Distinct key items) (hperm : items.Perm items') (as : List α) :
    (Contents.insertAll key merge items as).1.Perm (Contents.insertAll key merge items' as).1 ∧
      (Contents.insertAll key merge items as).2 = (Contents.insertAll key merge items' as).2 := by
  induction as generalizing items items' with
  | nil => exact ⟨hperm, rfl⟩
  | cons a as ih =>
    have hlookup := h.lookup_perm hperm (key a)
    cases hold : lookup key items (key a) with
    | none =>
      rw [insertAll_cons_of_none hold, insertAll_cons_of_none (hlookup ▸ hold)]
      obtain ⟨h1, h2⟩ := ih (h.cons hold) (hperm.cons a)
      exact ⟨h1, congrArg (· + 1) h2⟩
    | some old =>
      rw [insertAll_cons_of_some hold, insertAll_cons_of_some (hlookup ▸ hold)]
      exact ih (h.merged merge hmerge hold) (h.revise_perm hperm _ _)

/-- **The first of many items is put in by a revision**; the others follow. -/
theorem Distinct.insertAll_cons (h : Distinct key items) {a : α} {after : List α}
    (hafter : after.Perm (Contents.revise key items (key a)
      (some (((lookup key items (key a)).map (merge · a)).getD a)))) (as : List α) :
    Distinct key after ∧
      (Contents.insertAll key merge after as).1.Perm
        (Contents.insertAll key merge items (a :: as)).1 ∧
      (Contents.insertAll key merge items (a :: as)).2 =
        (Contents.insertAll key merge after as).2 +
          if (lookup key items (key a)).isNone then 1 else 0 := by
  cases hold : lookup key items (key a) with
  | none =>
    rw [hold, revise_of_lookup_none hold] at hafter
    have hdistinct : Distinct key after := (h.cons hold).perm hafter.symm
    obtain ⟨hperm, hcount⟩ := hdistinct.insertAll_perm merge hmerge hafter as
    rw [insertAll_cons_of_none hold]
    exact ⟨hdistinct, hperm, congrArg (· + 1) hcount.symm⟩
  | some old =>
    rw [hold] at hafter
    have hdistinct : Distinct key after := (h.merged merge hmerge hold).perm hafter.symm
    obtain ⟨hperm, hcount⟩ := hdistinct.insertAll_perm merge hmerge hafter as
    rw [insertAll_cons_of_some hold]
    exact ⟨hdistinct, hperm, hcount.symm⟩

end InsertAll

end Distinct

end ProbeWindow.Contents
