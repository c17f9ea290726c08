import ProbeWindow.Proofs.SlotArray.Placement
import ProbeWindow.Proofs.Table.Insertion

/-!
# Growth enlarges a table, and look-up does not notice

A growth moves all items to slots of a larger capacity (`Enlarged`). Items of one hash come in the
order that they had, because they are placed in slot order and placing is stable. So every key is
found where a table with equal keys would have found it before: growth is invisible to look-up,
whether keys are distinct or not (`Enlarged.find?_eq`).

A growth that fails has moved nothing (`grow_outcomes`). An insertion that grows several times may
fail at the last growth; the growths before it stand, so what it leaves is enlarged.
-/

namespace ProbeWindow.Table

universe u v

variable {α : Type u} {κ : Type v} [BEq κ] {key : α → κ} {t : Table key}

open Contents

/-- The items with a mixed hash, in slot order. -/
def itemsOf (t : Table key) (hash : UInt64) : List α :=
  t.toList.filter fun a ↦ t.setup.hash (key a) = hash

/-- A key is looked up among the items of its hash. -/
theorem lookup_itemsOf (t : Table key) (k : κ) :
    lookup key (t.itemsOf (t.setup.hash k)) k = lookup key t.toList k := by
  rw [lookup, lookup, itemsOf, List.find?_filter]
  congr 1
  funext a
  by_cases hkey : (key a == k) = true
  · rw [hkey, decide_eq_true (t.setup.hash_congr hkey)]
    rfl
  · simp [hkey]

/-! ### Relocation -/

/-- A seated item goes behind the items of its hash. -/
theorem filter_seat? {slots seated : SlotArray α} {item : α} (hord : t.setup.Orders key slots)
    (hoff : t.setup.Offers slots.capacity) (h : t.seat? slots item = some seated) (hash : UInt64) :
    seated.toList.filter (fun a ↦ t.setup.hash (key a) = hash) =
      (slots.toList ++ [item]).filter fun a ↦ t.setup.hash (key a) = hash := by
  simp only [seat?, Option.map_eq_some_iff] at h
  obtain ⟨v, hv, rfl⟩ := h
  have hopening := hord.opening (hoff.index_lt (t.setup.hash (key item))) hv
  exact hopening.filter_toList_place hord _ hash

theorem filter_foldlM_seat? {items : List α} {slots seated : SlotArray α}
    (hord : t.setup.Orders key slots) (hoff : t.setup.Offers slots.capacity)
    (h : items.foldlM t.seat? slots = some seated) (hash : UInt64) :
    seated.toList.filter (fun a ↦ t.setup.hash (key a) = hash) =
      (slots.toList ++ items).filter fun a ↦ t.setup.hash (key a) = hash := by
  induction items generalizing slots with
  | nil =>
    cases h
    rw [List.append_nil]
  | cons item items ih =>
    rw [List.foldlM_cons, Option.bind_eq_bind, Option.bind_eq_some_iff] at h
    obtain ⟨next, hnext, h⟩ := h
    have hord' := (seat?_spec hord hoff hnext).1
    rw [ih hord' (by rwa [t.capacity_seat? hnext]) h, List.filter_append,
      filter_seat? hord hoff hnext, ← List.filter_append, List.append_assoc, List.singleton_append]

/-- **A relocation keeps the order of the items of one hash.** -/
theorem filter_relocate {capacity : Nat} {slots : SlotArray α} (hoff : t.setup.Offers capacity)
    (h : t.relocate capacity = .ok (.ok slots)) (hash : UInt64) :
    slots.toList.filter (fun a ↦ t.setup.hash (key a) = hash) = t.itemsOf hash := by
  fun_induction relocate t capacity with
  | case1 | case3 | case4 => cases h
  | case2 capacity block hblock found hfound =>
    cases h
    have hfilter := filter_foldlM_seat? (SlotArray.ordered_blank capacity) hoff hfound hash
    rwa [SlotArray.toList_blank, List.nil_append] at hfilter
  | case5 capacity _ _ _ larger hlarger ih => exact ih (offers_of_retryCapacity hlarger) h

/-! ### Enlarged tables -/

/-- A table in slots of no smaller capacity, with the items of each hash in their order. -/
structure Enlarged (t t' : Table key) : Prop extends Rehoused t t' where
  /-- The capacity is not smaller. -/
  capacity_le : t.capacity ≤ t'.capacity
  /-- The items of one hash come in the order that they had. -/
  itemsOf_eq : ∀ hash, t'.itemsOf hash = t.itemsOf hash

theorem Sound.enlarged (h : t.Sound) : Enlarged t t := ⟨h.rehoused, Nat.le_refl _, fun _ ↦ rfl⟩

theorem Sound.enlarged_markSaturated (h : t.Sound) : Enlarged t t.markSaturated :=
  ⟨h.rehoused_markSaturated, Nat.le_refl _, fun _ ↦ rfl⟩

section Enlarged

variable {t' t'' : Table key}

theorem Enlarged.trans (h : Enlarged t t') (h' : Enlarged t' t'') : Enlarged t t'' :=
  ⟨h.toRehoused.trans h'.toRehoused, Nat.le_trans h.capacity_le h'.capacity_le,
    fun hash ↦ (h'.itemsOf_eq hash).trans (h.itemsOf_eq hash)⟩

/-- **Every key is looked up with the same answer in an enlarged table.** -/
theorem Enlarged.find?_eq (h : Enlarged t t') (hs : t.Sound) (k : κ) : t'.find? k = t.find? k := by
  rw [h.sound.find?_eq, hs.find?_eq, ← lookup_itemsOf, h.itemsOf_eq, h.setup_eq, lookup_itemsOf]

end Enlarged

/-! ### Growth -/

/-- **A growth enlarges the table**, or leaves it as it is. -/
theorem Sound.enlarged_grow (h : t.Sound) : Enlarged t t.grow.state := by
  have hrehoused := h.grow.1
  rcases t.grow_outcomes with ⟨fault, heq⟩ | ⟨capacity, slots, hoff, hle, hslots, heq⟩
  · rw [heq]
    exact h.enlarged
  · rw [heq] at hrehoused ⊢
    have hcapacity := t.le_capacity_relocate hslots
    refine ⟨hrehoused, ?_, filter_relocate hoff hslots⟩
    show t.capacity ≤ slots.capacity
    omega

/-- **Settling enlarges the table**, also when a growth fails. -/
theorem Sound.enlarged_settle (h : t.Sound) (hash : UInt64) :
    Enlarged t (t.settle hash).state := by
  fun_induction Table.settle t hash with
  | case1 => exact h.enlarged
  | case2 t home hv grown events fault hfault =>
    have hmark := h.enlarged_markSaturated
    exact hmark.trans hmark.sound.enlarged_grow
  | case3 t home hv grown events hgrown ih =>
    have hmark := h.enlarged_markSaturated
    have hgrow := hmark.trans hmark.sound.enlarged_grow
    exact hgrow.trans (ih hgrow.sound)

/-- **Securing a seat enlarges the table**, also when a growth fails. -/
theorem Sound.enlarged_secure (h : t.Sound) (hash : UInt64) :
    Enlarged t (t.secure hash).state := by
  rcases t.secure_outcomes hash with ⟨fault, -, -, heq⟩ | ⟨-, -, heq⟩ | ⟨-, heq⟩ <;> rw [heq]
  · exact h.enlarged
  · exact h.enlarged_grow.trans (h.enlarged_grow.sound.enlarged_settle hash)
  · exact h.enlarged_settle hash

end ProbeWindow.Table
