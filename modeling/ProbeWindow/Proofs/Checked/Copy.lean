import ProbeWindow.Proofs.Checked.Block
import ProbeWindow.Proofs.Checked.Table
import ProbeWindow.Proofs.Table.Copy

/-!
# Copying a block of slots

A copy is made slot by slot: the item of an occupied slot is copied, the copy is written to the same
slot of a blank block, its tag follows, and the copies are counted. When an item cannot be copied,
the block is emptied again. The invariant of the loop (`Copied`) is that the slots before the next
one are copied and that the others are vacant; so at the end as many items are counted as the table
has.
-/

namespace ProbeWindow

universe u v

variable {α : Type u}

namespace SlotArray

/-! ### The loop -/

/-- Copies the items of some slots to the same slots of another array, which must be vacant, and
counts them. When an item cannot be copied, the other array is emptied. -/
def checkedCopy (s : SlotArray α) (copy : α → Except Fault α) :
    List Nat → SlotArray α → Nat → Checked (Except Fault (SlotArray α × Nat))
  | [], d, size => .pure (.ok (d, size))
  | i :: is, d, size =>
    (s.checkedTag i).andThen fun tag ↦
      if tag.isOccupied then
        (s.checkedItem i).andThen fun item ↦
          match Table.copySlot copy item with
          | .error fault => (d.checkedDestroyAll size).map fun _ ↦ .error fault
          | .ok none => s.checkedCopy copy is d size
          | .ok (some a) =>
            (d.checkedPut i a).andThen fun d ↦
              (d.checkedSetTag i tag).andThen fun d ↦ s.checkedCopy copy is d (size + 1)
      else
        s.checkedCopy copy is d size

/-- The slots of an array before a given one are copied to another array, which has no other
items. -/
structure Copied (copy : α → Except Fault α) (s : SlotArray α) (start : Nat) (d : SlotArray α) :
    Prop where
  /-- The copy is in form. -/
  formed : Formed d
  /-- The capacity is the same. -/
  capacity_eq : d.capacity = s.capacity
  /-- The tags are copied. -/
  tag_eq : ∀ i < start, d.tag i = s.tag i
  /-- The items are copied. -/
  items_eq : (s.items.toList.take start).mapM (Table.copySlot copy) =
    .ok (d.items.toList.take start)
  /-- The other slots are vacant. -/
  vacant : ∀ i, start ≤ i → d.item? i = none

section Copied

variable {s d : SlotArray α} {copy : α → Except Fault α} {start : Nat}

/-- The first cells up to a slot, with the one of the slot. -/
theorem take_items_succ (s : SlotArray α) (h : start < s.slotCount) :
    s.items.toList.take (start + 1) = s.items.toList.take start ++ [s.item? start] := by
  have hlt : start < s.items.toList.length := h
  rw [List.take_add_one, s.item?_eq_getD_toList, List.getD_eq_getElem?_getD,
    List.getElem?_eq_getElem hlt]
  rfl

/-- The first cells do not depend on later ones. -/
theorem take_items_write (s : SlotArray α) (i : Nat) (g : Tag) (a : α) :
    (s.write i g a).items.toList.take i = s.items.toList.take i := by
  rw [write, Array.toList_setIfInBounds, List.take_set_of_le (Nat.le_refl i)]

/-- A blank array has nothing copied. -/
theorem copied_blank (copy : α → Except Fault α) (s : SlotArray α) :
    Copied copy s 0 (blank s.capacity) where
  formed := formed_blank s.capacity
  capacity_eq := capacity_blank s.capacity
  tag_eq := fun i hi ↦ absurd hi (Nat.not_lt_zero i)
  items_eq := rfl
  vacant := fun i _ ↦ item?_blank s.capacity i

/-- A slot takes an item, with a tag that is occupied. -/
theorem Formed.write {g : Tag} {a : α} (f : Formed d) (hstart : start < d.slotCount)
    (hg : g.isOccupied = true) : Formed (d.write start g a) := by
  have htags := f.tagCount_eq
  refine f.exchange hstart rfl (d.slotCount_write ..) (d.size_tags_write ..) (fun j hj ↦ ?_)
    (fun j hj ↦ ?_) (fun hnone ↦ ?_) fun b _ ↦ ?_
  · rw [tag_write, if_neg fun h ↦ hj h.1]
  · rw [item?_write, if_neg fun h ↦ hj h.1]
  · rw [item?_write, if_pos ⟨rfl, hstart⟩] at hnone
    cases hnone
  · rw [isOccupied, tag_write, if_pos ⟨rfl, by omega⟩, hg]

/-- A vacant slot has been copied when its turn comes. -/
theorem Copied.succ_of_vacant (h : Copied copy s start d) (f : Formed s)
    (hstart : start < s.slotCount) (hnone : s.item? start = none) :
    Copied copy s (start + 1) d where
  formed := h.formed
  capacity_eq := h.capacity_eq
  tag_eq := fun i hi ↦ by
    rcases Nat.eq_or_lt_of_le (Nat.le_of_lt_succ hi) with rfl | hlt
    · have hcount := f.slotCount_congr h.formed h.capacity_eq
      rw [f.tag_vacant i hstart hnone,
        h.formed.tag_vacant i (hcount ▸ hstart) (h.vacant i (Nat.le_refl i))]
    · exact h.tag_eq i hlt
  items_eq := by
    have hcount := f.slotCount_congr h.formed h.capacity_eq
    rw [take_items_succ s hstart, take_items_succ d (hcount ▸ hstart), List.mapM_append, h.items_eq,
      hnone, h.vacant start (Nat.le_refl start)]
    rfl
  vacant := fun i hi ↦ h.vacant i (Nat.le_of_succ_le hi)

/-- **A copied item goes to the slot of the item, with its tag.** -/
theorem Copied.succ_of_item {a b : α} (h : Copied copy s start d) (f : Formed s)
    (ha : s.item? start = some a) (hb : copy a = .ok b) :
    Copied copy s (start + 1) (d.write start (s.tag start) b) := by
  have hstart := s.lt_slotCount_of_item? ha
  have hcount := f.slotCount_congr h.formed h.capacity_eq
  have hlt : start < d.slotCount := hcount ▸ hstart
  have htags : start < d.tags.size := (h.formed.hasSlot hlt).lt_tagCount
  constructor
  case formed => exact h.formed.write hlt (f.isOccupied_of_item start a ha)
  case capacity_eq => exact h.capacity_eq
  case tag_eq =>
    intro i hi
    rw [tag_write]
    split_ifs with hi'
    · rw [hi'.1]
    · exact h.tag_eq i (by omega)
  case items_eq =>
    have hcopied : Table.copySlot copy (some a) = .ok (some b) := by
      rw [Table.copySlot, hb]
      rfl
    rw [take_items_succ s hstart, take_items_succ _ (by rw [slotCount_write]; exact hlt),
      List.mapM_append, h.items_eq, take_items_write, ha, item?_write, if_pos ⟨rfl, hlt⟩]
    simp [hcopied]
    rfl
  case vacant =>
    intro i hi
    rw [item?_write, if_neg (by omega), h.vacant i (by omega)]

/-- An item that cannot be copied ends the copy. -/
theorem Copied.mapM_eq_error {a : α} {fault : Fault} (h : Copied copy s start d)
    (ha : s.item? start = some a) (hfault : copy a = .error fault) :
    s.items.toList.mapM (Table.copySlot copy) = .error fault := by
  have hcopied : Table.copySlot copy (some a) = .error fault := by
    rw [Table.copySlot, hfault]
    rfl
  rw [← List.take_append_drop (start + 1) s.items.toList,
    take_items_succ s (s.lt_slotCount_of_item? ha), List.mapM_append, List.mapM_append, h.items_eq,
    ha, List.mapM_cons, hcopied]
  rfl

/-- **The loop copies the slots that are left, or ends with the fault of the first item that cannot
be copied.** -/
theorem Copied.checkedCopy_yields (h : Copied copy s start d) (f : Formed s) {n : Nat}
    (hstop : start + n = s.slotCount) :
    (∃ fault, s.items.toList.mapM (Table.copySlot copy) = .error fault ∧
      (s.checkedCopy copy (List.range' start n) d d.toList.length).Yields (.error fault)) ∨
    ∃ d', Copied copy s s.slotCount d' ∧
      (s.checkedCopy copy (List.range' start n) d d.toList.length).Yields
        (.ok (d', d'.toList.length)) := by
  induction n generalizing start d with
  | zero =>
    obtain rfl : start = s.slotCount := hstop
    exact .inr ⟨d, h, .pure _⟩
  | succ n ih =>
    have hstart : start < s.slotCount := by omega
    have hcount := f.slotCount_congr h.formed h.capacity_eq
    have htag := f.checkedTag (Nat.le_of_lt hstart)
    rw [List.range'_succ]
    cases ha : s.item? start with
    | none =>
      have hocc : (s.tag start).isOccupied = false := f.not_isOccupied hstart ha
      have hskip : ∀ {r}, (s.checkedCopy copy (List.range' (start + 1) n) d d.toList.length).Yields
          r → (s.checkedCopy copy (start :: List.range' (start + 1) n) d
            d.toList.length).Yields r := fun hr ↦ htag.andThen <| by
        rw [if_neg (Bool.eq_false_iff.mp hocc)]
        exact hr
      rcases ih (h.succ_of_vacant f hstart ha) (by omega) with ⟨fault, herror, hr⟩ | ⟨d', hd', hr⟩
      · exact .inl ⟨fault, herror, hskip hr⟩
      · exact .inr ⟨d', hd', hskip hr⟩
    | some a =>
      have hocc : (s.tag start).isOccupied = true := f.isOccupied_of_item start a ha
      cases hb : copy a with
      | error fault =>
        have hcopied : Table.copySlot copy (some a) = .error fault := by
          rw [Table.copySlot, hb]
          rfl
        refine .inl ⟨fault, h.mapM_eq_error ha hb, htag.andThen ?_⟩
        rw [if_pos hocc]
        refine (f.checkedItem ha).andThen ?_
        rw [hcopied]
        exact (h.formed.checkedDestroyAll rfl).map _
      | ok b =>
        have hcopied : Table.copySlot copy (some a) = .ok (some b) := by
          rw [Table.copySlot, hb]
          rfl
        have hslot := h.formed.hasSlot (hcount ▸ hstart)
        have hvacant := h.vacant start (Nat.le_refl start)
        have hlength : (d.write start (s.tag start) b).toList.length = d.toList.length + 1 :=
          length_toList_of_item? (by rw [item?_write, if_pos ⟨rfl, hslot.lt_slotCount⟩]) hvacant
            (d.slotCount_write ..).symm fun j hj ↦ by rw [item?_write, if_neg fun h ↦ hj h.1]
        have hwrite : ∀ {r}, (s.checkedCopy copy (List.range' (start + 1) n)
            (d.write start (s.tag start) b) (d.write start (s.tag start) b).toList.length).Yields
              r → (s.checkedCopy copy (start :: List.range' (start + 1) n) d
                d.toList.length).Yields r := fun hr ↦ by
          refine htag.andThen ?_
          rw [if_pos hocc]
          refine (f.checkedItem ha).andThen ?_
          rw [hcopied]
          rw [hlength] at hr
          exact Checked.Yields.andThen (.require ⟨hslot, hvacant⟩ (.pure _)) <|
            Checked.Yields.andThen (.require (hslot.setCell _ _) (.pure _)) hr
        rcases ih (h.succ_of_item f ha hb) (by omega) with ⟨fault, herror, hr⟩ | ⟨d', hd', hr⟩
        · exact .inl ⟨fault, herror, hwrite hr⟩
        · exact .inr ⟨d', hd', hwrite hr⟩

/-- When all slots are copied, the copy has the tags of the array, and its items copied. -/
theorem Copied.eq (h : Copied copy s s.slotCount d) (f : Formed s) :
    s.items.toList.mapM (Table.copySlot copy) = .ok d.items.toList ∧
      d = { s with items := d.items } := by
  have hcount := f.slotCount_congr h.formed h.capacity_eq
  have hitems := h.items_eq
  have hall : s.items.toList.take s.slotCount = s.items.toList :=
    List.take_of_length_le (Nat.le_refl _)
  have hall' : d.items.toList.take s.slotCount = d.items.toList :=
    List.take_of_length_le (Nat.le_of_eq hcount)
  rw [hall, hall'] at hitems
  exact ⟨hitems, ext_cells h.capacity_eq rfl (f.tagCount_congr h.formed h.capacity_eq)
    (f.tag_congr h.formed h.capacity_eq h.tag_eq) fun _ ↦ rfl⟩

end Copied

end SlotArray

/-! ### Copies of tables -/

namespace Table

variable {κ : Type v} [BEq κ] {key : α → κ} {t : Table key} {copy : α → Except Fault α}

/-- A copy of the table whose items are copied by the given function. There must be as many copies
as items. -/
def checkedCopyWith (t : Table key) (copy : α → Except Fault α) :
    Checked (Except Fault (Table key)) :=
  if t.capacity = 0 then
    .pure (.ok { t with slots := .unallocated, size := 0 })
  else
    match t.setup.block t.capacity with
    | .error e => .pure (.error e.toFault)
    | .ok _ =>
      (t.slots.checkedCopy (t.housedCopy copy) (List.range t.slots.slotCount)
        (.blank t.capacity) 0).andThen fun result ↦
          match result with
          | .error fault => .pure (.error fault)
          | .ok (slots, size) =>
            .require (size = t.size) (.pure (.ok { t with slots := slots, size := size }))

/-- The copied slots of a table with slots. -/
theorem copyWith_eq_of_mapM (hpos : t.capacity ≠ 0) {block : Layout}
    (hblock : t.setup.block t.capacity = .ok block) :
    t.copyWith copy = (t.slots.items.toList.mapM (copySlot (t.housedCopy copy))).map fun cells ↦
      { t with slots := { t.slots with items := cells.toArray } } := by
  rw [copyWith, if_neg hpos, hblock, Array.mapM_eq_mapM_toList]
  cases t.slots.items.toList.mapM (copySlot (t.housedCopy copy)) <;> rfl

/-- **A copy is safe**, also when it fails, and a table that is copied is well-formed. -/
theorem WellFormed.checkedCopyWith (h : t.WellFormed) (copy : α → Except Fault α) :
    (t.checkedCopyWith copy).Yields (t.copyWith copy) ∧
      ∀ t', t.copyWith copy = .ok t' → t'.WellFormed := by
  rw [Table.checkedCopyWith]
  by_cases hzero : t.capacity = 0
  · rw [if_pos hzero, copyWith, if_pos hzero]
    exact ⟨.pure _, fun t' ht' ↦ by cases ht'; exact .inl ⟨rfl, rfl⟩⟩
  have ha := h.allocated (Nat.pos_of_ne_zero hzero)
  rw [if_neg hzero]
  cases hblock : t.setup.block t.capacity with
  | error e =>
    rw [copyWith, if_neg hzero, hblock]
    exact ⟨.pure _, fun t' ht' ↦ by cases ht'⟩
  | ok block =>
    have hloop := (SlotArray.copied_blank (t.housedCopy copy) t.slots).checkedCopy_yields ha.formed
      (Nat.zero_add t.slots.slotCount)
    rw [SlotArray.toList_blank, List.length_nil, ← List.range_eq_range'] at hloop
    rw [copyWith_eq_of_mapM hzero hblock]
    rcases hloop with ⟨fault, herror, hyields⟩ | ⟨d, hd, hyields⟩
    · rw [herror]
      exact ⟨hyields.andThen (.pure _), fun t' ht' ↦ by cases ht'⟩
    · obtain ⟨hitems, hslots⟩ := hd.eq ha.formed
      have hlength : d.toList.length = t.size := by
        rw [ha.size_eq, toList, SlotArray.toList, SlotArray.toList]
        exact (forall₂_filterMap_of_copySlot (forall₂_of_mapM hitems)).length_eq.symm
      rw [hitems]
      refine ⟨hyields.andThen (.require hlength ((Checked.Yields.pure _).trans ?_)), ?_⟩
      · rw [hlength, hslots]
        rfl
      · rintro t' ht'
        cases ht'
        refine .inr ⟨hslots ▸ hd.formed, ha.offered, ?_, ha.tags_lt⟩
        rw [← hlength]
        rfl

end Table

end ProbeWindow
