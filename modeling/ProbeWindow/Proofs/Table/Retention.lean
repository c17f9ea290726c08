import ProbeWindow.Proofs.Table.Soundness
import ProbeWindow.Table.Retention
import Mathlib.Data.List.Forall2

/-!
# Retention is a walk over the list of items

What `retain` does to the slots, by backward shifts under a walk that looks at some slots twice, is
what a predicate does to the list of items in one pass (`sieve`): it visits each item once, in slot
order, keeps those that it accepts, and stops when a visit fails.
-/

namespace ProbeWindow

universe u v w

variable {α : Type u} {κ : Type v} {σ : Type w}

/-- A predicate applied to a list of items, one by one. When a visit fails, the items from that
visit on are left. -/
def sieve (visit : σ → α → Visit σ α) (state : σ) : List α → List α × σ × Except Fault Unit
  | [] => ([], state, .ok ())
  | item :: items =>
    let v := visit state item
    match v.verdict with
    | .error fault => (v.item :: items, v.state, .error fault)
    | .ok keep =>
      let (rest, state, result) := sieve visit v.state items
      (if keep then v.item :: rest else rest, state, result)

/-- A relation between the items before and after their visits holds at every visit. -/
def VisitsKeep (R : α → α → Prop) (visit : σ → α → Visit σ α) : σ → List α → Prop
  | _, [] => True
  | state, item :: items =>
    R item (visit state item).item ∧
      ((visit state item).verdict.isOk = true → VisitsKeep R visit (visit state item).state items)

theorem sieve_cons_of_error {visit : σ → α → Visit σ α} {state : σ} {item : α} {fault : Fault}
    (h : (visit state item).verdict = .error fault) (items : List α) :
    sieve visit state (item :: items) =
      ((visit state item).item :: items, (visit state item).state, .error fault) := by
  simp only [sieve, h]

theorem sieve_cons_of_ok {visit : σ → α → Visit σ α} {state : σ} {item : α} {keep : Bool}
    (h : (visit state item).verdict = .ok keep) (items : List α) :
    sieve visit state (item :: items) =
      (if keep then (visit state item).item :: (sieve visit (visit state item).state items).1
        else (sieve visit (visit state item).state items).1,
        (sieve visit (visit state item).state items).2) := by
  simp only [sieve, h]

theorem VisitsKeep.mono {R R' : α → α → Prop} (hR : ∀ a b, R a b → R' a b)
    {visit : σ → α → Visit σ α} {state : σ} {items : List α}
    (h : VisitsKeep R visit state items) : VisitsKeep R' visit state items := by
  induction items generalizing state with
  | nil => exact trivial
  | cons a items ih => exact ⟨hR _ _ h.1, fun hok ↦ ih (h.2 hok)⟩

/-- The items that are left are some of the items, after their visits. -/
theorem VisitsKeep.exists_sublist {R : α → α → Prop} (hrefl : ∀ a, R a a)
    {visit : σ → α → Visit σ α} {state : σ} {items : List α}
    (h : VisitsKeep R visit state items) :
    ∃ kept : List α, kept.Sublist items ∧ List.Forall₂ R kept (sieve visit state items).1 := by
  induction items generalizing state with
  | nil => exact ⟨[], .slnil, .nil⟩
  | cons a items ih =>
    cases hv : (visit state a).verdict with
    | error fault =>
      rw [sieve_cons_of_error hv]
      exact ⟨a :: items, .refl _, .cons h.1 (List.forall₂_same.mpr fun b _ ↦ hrefl b)⟩
    | ok keep =>
      obtain ⟨kept, hsub, hkept⟩ := ih (h.2 (by rw [hv]; rfl))
      rw [sieve_cons_of_ok hv]
      cases keep with
      | false => exact ⟨kept, .cons a hsub, hkept⟩
      | true => exact ⟨a :: kept, .cons_cons a hsub, .cons h.1 hkept⟩

namespace Table

variable [BEq κ] {key : α → κ} {visit : σ → α → Visit σ α}

/-- **Retention from a slot on sieves the items of the slots from there on.** -/
theorem Sound.retainFrom {t : Table key} (h : t.Sound) (index : Nat) (state : σ)
    (hkeep : VisitsKeep t.SameHash visit state
      (t.slots.segment index t.slots.slotCount)) :
    (retainFrom visit t index state).1.Sound ∧
      (retainFrom visit t index state).1.setup = t.setup ∧
        (retainFrom visit t index state).1.toList = t.slots.segment 0 index ++
          (sieve visit state (t.slots.segment index t.slots.slotCount)).1 ∧
          (retainFrom visit t index state).2 =
            (sieve visit state (t.slots.segment index t.slots.slotCount)).2 := by
  fun_induction Table.retainFrom visit t index state with
  | case1 t index state hcond hitem ih =>
    rw [t.slots.segment_of_vacant hcond.1 hitem] at hkeep ⊢
    have hfront := t.slots.segment_succ (Nat.zero_le index)
    rw [hitem, Option.toList_none, List.append_nil] at hfront
    rw [← hfront]
    exact ih h hkeep
  | case2 t index state hcond item hitem v updated fault hv =>
    rw [t.slots.segment_eq_cons hcond.1 hitem] at hkeep ⊢
    rw [sieve_cons_of_error hv]
    exact ⟨h.update (o := ⟨index, item⟩) (f := fun _ ↦ v.item) hitem hkeep.1, rfl,
      SlotArray.toList_setItem hcond.1 v.item, rfl⟩
  | case3 t index state hcond item hitem v updated hv ih =>
    rw [t.slots.segment_eq_cons hcond.1 hitem] at hkeep ⊢
    have hsound : updated.Sound :=
      h.update (o := ⟨index, item⟩) (f := fun _ ↦ v.item) hitem hkeep.1
    -- the item stays in its slot, so the walk goes on behind it
    have hback : updated.slots.segment (index + 1) updated.slots.slotCount =
        t.slots.segment (index + 1) t.slots.slotCount := by
      rw [SlotArray.slotCount_setItem]
      exact t.slots.segment_setItem_of_lt (Nat.lt_succ_self index) v.item
    have hfront : updated.slots.segment 0 (index + 1) = t.slots.segment 0 index ++ [v.item] := by
      rw [SlotArray.segment_succ _ (Nat.zero_le index),
        t.slots.segment_setItem_of_le (Nat.le_refl index), SlotArray.item?_setItem,
        if_pos ⟨rfl, hcond.1⟩, Option.toList_some]
    rw [hback, hfront] at ih
    obtain ⟨h1, h2, h3, h4⟩ := ih hsound (hkeep.2 (by rw [hv]; rfl))
    rw [sieve_cons_of_ok hv]
    refine ⟨h1, h2, ?_, h4⟩
    rw [h3, List.append_assoc]
    rfl
  | case4 t index state hcond item hitem v updated hv ih =>
    rw [t.slots.segment_eq_cons hcond.1 hitem] at hkeep ⊢
    have hsound : updated.Sound :=
      h.update (o := ⟨index, item⟩) (f := fun _ ↦ v.item) hitem hkeep.1
    have hlt : index < updated.slots.slotCount := by
      rw [SlotArray.slotCount_setItem]
      exact hcond.1
    have hitem' : updated.slots.item? index = some v.item := by
      rw [SlotArray.item?_setItem, if_pos ⟨rfl, hcond.1⟩]
    have hordered := (hsound.furnished_of_item hitem').ordered
    -- the next item to visit has moved into the slot, so the walk stays there
    have hback : (updated.eraseAt index).slots.segment index
        (updated.eraseAt index).slots.slotCount =
          t.slots.segment (index + 1) t.slots.slotCount := by
      rw [slotCount_eraseAt]
      exact (hordered.formed.segment_erase hlt).trans (by
        rw [SlotArray.slotCount_setItem]
        exact t.slots.segment_setItem_of_lt (Nat.lt_succ_self index) v.item)
    have hfront : (updated.eraseAt index).slots.segment 0 index = t.slots.segment 0 index :=
      (SlotArray.segment_congr_slots _ fun j _ hj ↦ hordered.formed.item?_erase_of_lt hlt hj).trans
        (t.slots.segment_setItem_of_le (Nat.le_refl index) v.item)
    rw [hback, hfront] at ih
    have hkeep' := hkeep.2 (by rw [hv]; rfl)
    rw [sieve_cons_of_ok hv]
    exact ih (hsound.eraseAt (o := ⟨index, v.item⟩) hitem') hkeep'
  | case5 t index state hcond =>
    have hcut := t.slots.toList_cut index
    have hnil : t.slots.segment index t.slots.slotCount = [] := by
      rcases Nat.lt_or_ge index t.slots.slotCount with hlt | hge
      · have hzero : t.size = 0 := by
          by_contra hne
          exact hcond ⟨hlt, hne⟩
        have hempty := List.eq_nil_of_length_eq_zero (h.size_eq_length.symm.trans hzero)
        rw [toList, hcut] at hempty
        exact (List.append_eq_nil_iff.mp hempty).2
      · exact t.slots.segment_eq_nil fun j h1 h2 ↦ by omega
    rw [hnil] at hcut ⊢
    exact ⟨h, rfl, hcut, rfl⟩

/-- **Retention sieves the list of items**, when no visit changes the hash of its item. -/
theorem Sound.retain {t : Table key} (h : t.Sound) (state : σ)
    (hkeep : VisitsKeep t.SameHash visit state
      t.toList) :
    (t.retain visit state).1.Sound ∧ (t.retain visit state).1.setup = t.setup ∧
      (t.retain visit state).1.toList = (sieve visit state t.toList).1 ∧
        (t.retain visit state).2 = (sieve visit state t.toList).2 := by
  have hlist : t.toList = t.slots.segment 0 t.slots.slotCount := t.slots.toList_eq_segment
  rw [hlist] at hkeep ⊢
  have hfrom := h.retainFrom 0 state hkeep
  rwa [SlotArray.segment_self, List.nil_append] at hfrom

end Table

end ProbeWindow
