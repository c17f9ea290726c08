import ProbeWindow.Proofs.Visits

/-!
# Taking items out in the order of looking at them

A walk that looks at items goes over the tags a group at a time, and the slots stay as they are. A
walk that takes items out goes slot by slot and closes the gap of every item, so that the items
behind it move under the walk. Both yield the same items in the same order, at every number of
steps, and both know how many are still to come.

After any number of steps the table is sound, so the walk may be given up. A walk that is abandoned
leaves the items that it has not yielded, and look-ups find these; one that is given up properly
leaves no item. A walk that owns its table is the same walk, with no table left to speak of.
-/

namespace ProbeWindow

universe u v w x

variable {α : Type u} {κ : Type v} [BEq κ] {key : α → κ}

/-! ### Borrowing walks -/

/-- Without slots the count of the items to come stays as it is. -/
theorem Cursor.remaining_take_of_slotCount_eq_zero {s : SlotArray α} (h : s.slotCount = 0) (n : Nat)
    (c : Cursor) : (Cursor.take s n c).2.remaining = c.remaining := by
  cases n with
  | zero => rfl
  | succ n =>
    have hskip : c.next s = (none, ⟨Cursor.skipVacant s c.position, c.remaining⟩) := by
      rw [Cursor.next, h]
      exact if_neg (Nat.not_lt_zero _)
    rw [Cursor.take, hskip]

namespace Table

variable {t : Table key}

theorem Bare.slotCount_eq (h : t.Bare) : t.slots.slotCount = 0 := by
  rw [h.slots_eq]
  rfl

/-- **A walk that goes on yields the items behind those that it has yielded.** -/
theorem Sound.walk_walk (h : t.Sound) (n m : Nat) :
    (t.walk m (t.walk n t.cursor).2).1 = (t.toList.drop n).take m := by
  show (Cursor.take t.slots m (Cursor.take t.slots n t.cursor).2).1.filterMap t.slots.item? = _
  rcases h with hbare | hfur
  · rw [Cursor.take_of_slotCount_eq_zero hbare.slotCount_eq, hbare.toList_eq]
    simp only [List.filterMap_nil, List.drop_nil, List.take_nil]
  · obtain ⟨-, hposition, -⟩ := Cursor.take_spec hfur.ordered.formed n t.cursor
    have hboth := t.slots.filterMap_take_occupiedSlots (n + m) 0 t.slots.slotCount
    have hfront := t.slots.filterMap_take_occupiedSlots n 0 t.slots.slotCount
    rw [List.take_add, List.filterMap_append, hfront, List.take_add,
      ← SlotArray.toList_eq_segment] at hboth
    rw [(Cursor.take_spec hfur.ordered.formed m _).1, hposition]
    exact List.append_cancel_left hboth

/-- **The count of a walk is exact** at every step. -/
theorem Sound.sizeHint_walk (h : t.Sound) (n : Nat) :
    (t.walk n t.cursor).2.sizeHint =
      ((t.toList.drop n).length, some (t.toList.drop n).length) := by
  have hremaining : (Cursor.take t.slots n t.cursor).2.remaining = (t.toList.drop n).length := by
    rcases h with hbare | hfur
    · rw [Cursor.remaining_take_of_slotCount_eq_zero hbare.slotCount_eq, hbare.toList_eq,
        List.drop_nil]
      exact hbare.size_eq
    · rw [(Cursor.take_spec hfur.ordered.formed n t.cursor).2.2, List.length_drop]
      show t.size - ((t.slots.occupiedSlots 0 t.slots.slotCount).take n).length = _
      have hlen : (t.slots.occupiedSlots 0 t.slots.slotCount).length = t.toList.length := by
        rw [toList, ← hfur.ordered.formed.countP_isOccupied, List.countP_eq_length_filter,
          SlotArray.occupiedSlots, Nat.sub_zero, ← List.range_eq_range']
        refine congrArg List.length (List.filter_congr fun i hi ↦ ?_)
        rw [hfur.ordered.formed.isOccupied_eq_isSome (List.mem_range.mp hi)]
      rw [List.length_take, hlen, hfur.size_eq_length]
      omega
  rw [← hremaining]
  rfl

end Table

/-! ### Draining walks -/

namespace Table

variable {t : Table key}

/-- The walk that takes items out, after so many steps. -/
def drained (t : Table key) (n : Nat) : Drain key := (Drain.take n (Drain.start t)).2

/-- What a walk that takes out items yields and leaves when it is given up after so many steps,
beside a walk that looks at them. -/
structure Drains (t : Table key) (n : Nat) : Prop where
  /-- The items that are taken out are those that are looked at. -/
  items_eq : (Drain.take n (Drain.start t)).1 = (t.walk n t.cursor).1
  /-- They are the first ones in slot order. -/
  items_eq_take : (t.walk n t.cursor).1 = t.toList.take n
  /-- If the walk goes on, the items behind them are taken out. -/
  rest_eq : ∀ m, (Drain.take m (t.drained n)).1 = (t.toList.drop n).take m
  /-- If the walk that looks goes on, the items behind them are looked at. -/
  walk_rest_eq : ∀ m, (t.walk m (t.walk n t.cursor).2).1 = (t.toList.drop n).take m
  /-- The number of items to come is known. -/
  sizeHint_eq : (t.drained n).sizeHint =
    ((t.toList.drop n).length, some (t.toList.drop n).length)
  /-- The walk that looks knows the same number. -/
  walk_sizeHint_eq : (t.walk n t.cursor).2.sizeHint = (t.drained n).sizeHint
  /-- A walk that is abandoned leaves a sound table. -/
  leak_sound : (t.drained n).leak.Sound
  /-- The slots are kept. -/
  leak_room : SameRoom t (t.drained n).leak
  /-- The items to come are left, in the same order. -/
  leak_toList : (t.drained n).leak.toList = t.toList.drop n
  /-- Look-ups find these items and no others. -/
  leak_find? : ∀ k, (t.drained n).leak.find? k = Contents.lookup key (t.toList.drop n) k
  /-- A walk that is given up properly leaves a sound table. -/
  finish_sound : (t.drained n).finish.Sound
  /-- The slots are kept. -/
  finish_room : SameRoom t (t.drained n).finish
  /-- There is no item. -/
  finish_toList : (t.drained n).finish.toList = []
  /-- The size says so. -/
  finish_size : (t.drained n).finish.size = 0
  /-- Nothing is pending. -/
  finish_pending : (t.drained n).finish.rehashPending = false

/-- **Walks over a sound table agree at every step.** -/
theorem Sound.drains (h : t.Sound) (n : Nat) : t.Drains n := by
  obtain ⟨hitems, hrest, hcont⟩ := (Drain.started_start h).take_spec n
  have hrest : (t.drained n).table.toList = t.toList.drop n := hrest
  have hstarted : (t.drained n).Started := hcont.started
  have hhint : (t.drained n).sizeHint =
      ((t.toList.drop n).length, some (t.toList.drop n).length) := by
    rw [Drain.sizeHint, hstarted.sound.size_eq_length, hrest]
  obtain ⟨hfinish, -, hempty⟩ := hstarted.finish
  exact {
    items_eq := hitems.trans (h.walk n).symm
    items_eq_take := h.walk n
    rest_eq := fun m ↦ by rw [(hstarted.take_spec m).1, hrest]
    walk_rest_eq := h.walk_walk n
    sizeHint_eq := hhint
    walk_sizeHint_eq := (h.sizeHint_walk n).trans hhint.symm
    leak_sound := hstarted.sound
    leak_room := sameRoom_drain_take n (Drain.start t)
    leak_toList := hrest
    leak_find? := fun k ↦ by rw [← hrest]; exact hstarted.sound.find?_eq k
    finish_sound := hfinish
    finish_room := (sameRoom_drain_take n (Drain.start t)).trans (sameRoom_drain_finish _)
    finish_toList := hempty
    finish_size := by rw [hfinish.size_eq_length, hempty, List.length_nil]
    finish_pending := rfl }

/-- **An abandoned walk over a proper table** leaves the items to come, each of which is found, and
none of those that were yielded is. -/
theorem Proper.leak [EquivBEq κ] (h : t.Proper) (n : Nat) :
    (∀ a ∈ t.toList.drop n, (t.drained n).leak.find? (key a) = some a) ∧
      ∀ a ∈ t.toList.take n, (t.drained n).leak.contains (key a) = false := by
  have hdrains := h.sound.drains n
  have hsplit := h.distinct
  rw [← List.take_append_drop n t.toList, Contents.Distinct, List.pairwise_append] at hsplit
  obtain ⟨-, hdrop, hcross⟩ := hsplit
  refine ⟨fun a ha ↦ ?_, fun a ha ↦ ?_⟩
  · refine Proper.find?_of_mem ⟨hdrains.leak_sound, ?_⟩ ?_
    · rw [hdrains.leak_toList]
      exact hdrop
    · rw [hdrains.leak_toList]
      exact ha
  · rw [hdrains.leak_sound.contains_eq, hdrains.leak_toList, Option.isSome_eq_false_iff,
      Option.isNone_iff_eq_none, Contents.lookup_eq_none_iff]
    exact fun b hb ↦ Contents.key_ne_symm (hcross a ha b hb)

end Table

variable {ν : Type x} {σ : Type w} [EquivBEq κ]

end ProbeWindow
