import ProbeWindow.Proofs.Checked.Slots
import ProbeWindow.Proofs.SlotArray.Emptying

/-!
# Emptying a block of slots

A table that is cleared or dropped goes through its slots once and drops the item of every occupied
slot. The tag is cleared before the item is dropped, so that no item can be dropped twice, and the
items are counted off; at the end none is left to count, and the slots are blank.
-/

namespace ProbeWindow.SlotArray

universe u

variable {α : Type u}

/-! ### The loop -/

/-- Goes through some slots, empties those that are occupied, and counts their items off. -/
def checkedDestroy : List Nat → SlotArray α → Nat → Checked (SlotArray α × Nat)
  | [], s, size => .pure (s, size)
  | i :: is, s, size =>
    (s.checkedOccupied i).andThen fun occupied ↦
      if occupied then
        (s.checkedSetTag i .empty).andThen fun s ↦
          .require (0 < size) <|
            (s.checkedTakeOut i).andThen fun s ↦ checkedDestroy is s (size - 1)
      else
        checkedDestroy is s size

/-- Empties all slots, unless there are no items; none is left to count. -/
def checkedDestroyAll (s : SlotArray α) (size : Nat) : Checked (SlotArray α) :=
  (if 0 < size then checkedDestroy (List.range s.slotCount) s size else .pure (s, size)).andThen
    fun (s, size) ↦ .require (size = 0) (.pure s)

/-- **The loop empties the slots that are left, and counts all items off.** -/
theorem Formed.checkedDestroy_yields {s : SlotArray α} (f : Formed s) {start n : Nat}
    (hstop : start + n = s.slotCount) (hvacant : ∀ j < start, s.item? j = none) :
    (checkedDestroy (List.range' start n) s s.toList.length).Yields (blank s.capacity, 0) := by
  induction n generalizing start s with
  | zero =>
    have hnone : ∀ j, s.item? j = none := fun j ↦ by
      rcases Nat.lt_or_ge j s.slotCount with hj | hj
      · exact hvacant j (by omega)
      · exact s.item?_eq_none_of_le hj
    rw [s.toList_eq_nil_iff.mpr hnone, ← f.eq_blank hnone]
    exact .pure _
  | succ n ih =>
    have hstart : start < s.slotCount := by omega
    have hfree : ∀ {t : SlotArray α}, (∀ j, j ≠ start → t.item? j = s.item? j) →
        t.item? start = none → ∀ j < start + 1, t.item? j = none := fun hitem hnone j hj ↦ by
      rcases Nat.eq_or_lt_of_le (Nat.le_of_lt_succ hj) with rfl | hlt
      · exact hnone
      · rw [hitem j (Nat.ne_of_lt hlt), hvacant j hlt]
    rw [List.range'_succ]
    refine (f.checkedOccupied hstart).andThen ?_
    cases hocc : s.isOccupied start with
    | false =>
      exact ih f (by omega) (hfree (fun _ _ ↦ rfl) (f.item?_eq_none hstart hocc))
    | true =>
      obtain ⟨a, ha⟩ := f.exists_item hstart hocc
      have hitem : ∀ j, (s.vacate start).item? j = if j = start then none else s.item? j := by
        intro j
        rw [item?_vacate]
        grind
      have hrest := ih (f.vacate hstart) (by rw [slotCount_vacate]; omega)
        (hfree (fun j hj ↦ by rw [hitem, if_neg hj]) (by rw [hitem, if_pos rfl]))
      have hlength : s.toList.length = (s.vacate start).toList.length + 1 :=
        length_toList_of_item? ha (by rw [hitem, if_pos rfl]) (s.slotCount_vacate start)
          fun j hj ↦ by rw [hitem, if_neg hj]
      have hsome : ((s.setTag start .empty).item? start).isSome = true := by
        rw [item?_setTag, ha]
        rfl
      rw [hlength]
      exact Checked.Yields.andThen (.require (f.hasSlot hstart) (.pure _)) <|
        .require (Nat.succ_pos _) <| Checked.Yields.andThen
          (.require ⟨(f.hasSlot hstart).setTag _ _, hsome⟩ (.pure _)) hrest

/-- **Emptying a block leaves it blank.** -/
theorem Formed.checkedDestroyAll {s : SlotArray α} (f : Formed s) {size : Nat}
    (hsize : size = s.toList.length) : (s.checkedDestroyAll size).Yields (blank s.capacity) := by
  subst hsize
  have hloop := f.checkedDestroy_yields (Nat.zero_add s.slotCount)
    fun j hj ↦ absurd hj (Nat.not_lt_zero j)
  rw [← List.range_eq_range'] at hloop
  refine Checked.Yields.andThen (r := (blank s.capacity, 0)) ?_ (.require rfl (.pure _))
  split
  · exact hloop
  · next hzero =>
    have hnil := List.eq_nil_of_length_eq_zero (Nat.eq_zero_of_not_pos hzero)
    rw [hnil, ← f.eq_blank (s.toList_eq_nil_iff.mp hnil)]
    exact .pure _

end ProbeWindow.SlotArray
