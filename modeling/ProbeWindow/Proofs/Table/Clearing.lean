import ProbeWindow.Proofs.SlotArray.Emptying
import ProbeWindow.Proofs.Outcome
import ProbeWindow.Table

/-!
# Clearing a table

Clearing empties the slots in ascending order, each before its item is destroyed. When all items can
be destroyed, the table is blank afterwards. Otherwise clearing ends at the first item that cannot be
destroyed (`CutAt`): that item is gone as well, the items behind it are in their slots and counted,
and what was pending still is (`clearWith_cases`).

All that is needed is that the slots are in form and the items counted. A table that is cut short
is like this again; whether its items can be found is another matter.
-/

namespace ProbeWindow.Table

universe u v

variable {α : Type u} {κ : Type v} [BEq κ] {key : α → κ} {t : Table key}
  {destroy : α → Except Fault Unit}

/-- The table with the slots before a given one emptied, and the other items counted. -/
def emptiedTo (t : Table key) (stop : Nat) : Table key :=
  { t with
    slots := t.slots.emptied stop
    size := (t.slots.segment stop t.slots.slotCount).length }

/-- A slot has an item that cannot be destroyed, and is the first one. -/
structure CutAt (t : Table key) (destroy : α → Except Fault Unit) (index : Nat) (fault : Fault) :
    Prop where
  /-- The item of the slot cannot be destroyed. -/
  item : ∃ a, t.slots.item? index = some a ∧ destroy a = .error fault
  /-- The items before it can. -/
  before : ∀ i a, i < index → t.slots.item? i = some a → destroy a = .ok ()

/-! ### One slot -/

/-- A vacant slot is skipped. -/
theorem emptiedTo_of_vacant (f : t.slots.Formed) {i : Nat} (hi : i < t.slots.slotCount)
    (hnone : t.slots.item? i = none) : t.emptiedTo (i + 1) = t.emptiedTo i := by
  have hvacant : (t.slots.emptied i).item? i = none := by
    rw [SlotArray.item?_emptied, if_neg (Nat.lt_irrefl i), hnone]
  rw [emptiedTo, emptiedTo, SlotArray.emptied_succ,
    (f.emptied (Nat.le_of_lt hi)).vacate_eq_self (by rwa [SlotArray.slotCount_emptied]) hvacant,
    t.slots.segment_of_vacant hi hnone]

/-- A slot with an item is emptied, and its item counted off. -/
theorem vacateAt_emptiedTo {i : Nat} {a : α} (ha : t.slots.item? i = some a) :
    (t.emptiedTo i).vacateAt i = t.emptiedTo (i + 1) := by
  rw [emptiedTo, emptiedTo, vacateAt, SlotArray.emptied_succ,
    t.slots.segment_eq_cons (t.slots.lt_slotCount_of_item? ha) ha, List.length_cons,
    Nat.add_sub_cancel]

/-! ### The loop -/

/-- **A step of the loop** ends at an item that cannot be destroyed, or passes its slot. -/
theorem destroyEach_step (f : t.slots.Formed) (destroy : α → Except Fault Unit) {i : Nat}
    (hi : i < t.slots.slotCount) (rest : List Nat) :
    (∃ a fault, t.slots.item? i = some a ∧ destroy a = .error fault ∧
      destroyEach destroy (i :: rest) (t.emptiedTo i) = .fail (t.emptiedTo (i + 1)) fault) ∨
    (∀ a, t.slots.item? i = some a → destroy a = .ok ()) ∧
      destroyEach destroy (i :: rest) (t.emptiedTo i) =
        destroyEach destroy rest (t.emptiedTo (i + 1)) := by
  have hitem : (t.emptiedTo i).slots.item? i = t.slots.item? i := by
    rw [emptiedTo, SlotArray.item?_emptied, if_neg (Nat.lt_irrefl i)]
  rw [destroyEach, hitem]
  cases hcell : t.slots.item? i with
  | none => exact .inr ⟨nofun, by rw [emptiedTo_of_vacant f hi hcell]⟩
  | some a =>
    simp only [vacateAt_emptiedTo hcell]
    cases hdestroy : destroy a with
    | error fault => exact .inl ⟨a, fault, rfl, hdestroy, rfl⟩
    | ok _ => exact .inr ⟨fun b hb ↦ Option.some.inj hb ▸ hdestroy, rfl⟩

/-- **The loop empties the slots that are left**, or ends behind the first item that cannot be
destroyed. -/
theorem destroyEach_cases (f : t.slots.Formed) (destroy : α → Except Fault Unit) {start n : Nat}
    (hstop : start + n = t.slots.slotCount) :
    ((∀ i a, start ≤ i → t.slots.item? i = some a → destroy a = .ok ()) ∧
      destroyEach destroy (List.range' start n) (t.emptiedTo start) =
        .done (t.emptiedTo t.slots.slotCount) ()) ∨
    ∃ i fault a, t.slots.item? i = some a ∧ destroy a = .error fault ∧
      (∀ j b, start ≤ j → j < i → t.slots.item? j = some b → destroy b = .ok ()) ∧
      destroyEach destroy (List.range' start n) (t.emptiedTo start) =
        .fail (t.emptiedTo (i + 1)) fault := by
  induction n generalizing start with
  | zero =>
    obtain rfl : start = t.slots.slotCount := hstop
    refine .inl ⟨fun i a hi ha ↦ ?_, rfl⟩
    exact absurd (t.slots.lt_slotCount_of_item? ha) (Nat.not_lt_of_le hi)
  | succ n ih =>
    rw [List.range'_succ]
    rcases destroyEach_step f destroy (show start < t.slots.slotCount by omega)
      (List.range' (start + 1) n) with ⟨a, fault, ha, hfault, heq⟩ | ⟨hpassed, heq⟩ <;> rw [heq]
    · exact .inr ⟨start, fault, a, ha, hfault,
        fun j b hj hji ↦ absurd hji (Nat.not_lt_of_le hj), rfl⟩
    · -- the item of the slot that was passed can be destroyed, and the others are behind it
      have hfrom : ∀ {j b}, start ≤ j → t.slots.item? j = some b →
          destroy b = .ok () ∨ start + 1 ≤ j := by
        intro j b hj hb
        rcases Nat.eq_or_lt_of_le hj with rfl | hlt
        · exact .inl (hpassed b hb)
        · exact .inr hlt
      rcases @ih (start + 1) (by omega) with ⟨hall, hrest⟩ | ⟨i, fault, a, ha, hfault, hbefore, hrest⟩
      · exact .inl ⟨fun j b hj hb ↦ (hfrom hj hb).elim id fun hj ↦ hall j b hj hb, hrest⟩
      · exact .inr ⟨i, fault, a, ha, hfault, fun j b hj hji hb ↦
          (hfrom hj hb).elim id fun hj ↦ hbefore j b hj hji hb, hrest⟩

/-! ### The call -/

section Call

variable (f : t.slots.Formed) (hpos : 0 < t.capacity) (hsize : t.size = t.toList.length)
include f hpos hsize

/-- **What clearing a table leaves**: blank slots, when all items can be destroyed; or else the items
behind the first one that cannot. -/
theorem clearWith_cases (destroy : α → Except Fault Unit) :
    ((∀ a ∈ t.toList, destroy a = .ok ()) ∧ t.clearWith destroy =
      .done { t with slots := .blank t.capacity, size := 0, rehashPending := false } ()) ∨
    ∃ index fault, t.CutAt destroy index fault ∧
      t.clearWith destroy = .fail (t.emptiedTo (index + 1)) fault := by
  rw [clearWith]
  split
  · next hzero =>
    -- the table has no item to destroy
    have hnil : t.toList = [] :=
      List.eq_nil_of_length_eq_zero (hsize ▸ hzero.resolve_left (Nat.ne_of_gt hpos))
    have hblank : t.slots = .blank t.capacity := f.eq_blank (t.slots.toList_eq_nil_iff.mp hnil)
    refine .inl ⟨by rw [hnil]; exact nofun, ?_⟩
    rw [← hblank, show (0 : Nat) = t.size by rw [hsize, hnil]; rfl]
    rfl
  · have hstart : t.emptiedTo 0 = t := by
      rw [emptiedTo, ← SlotArray.toList_eq_segment, SlotArray.emptied_zero, ← toList, ← hsize]
    have hstop : t.emptiedTo t.slots.slotCount = { t with slots := .blank t.capacity, size := 0 } := by
      rw [emptiedTo, f.emptied_slotCount, SlotArray.segment_self]
      rfl
    have hcases := destroyEach_cases f destroy (Nat.zero_add t.slots.slotCount)
    rw [← List.range_eq_range', hstart, hstop] at hcases
    rcases hcases with ⟨hall, heq⟩ | ⟨i, fault, a, ha, hfault, hbefore, heq⟩
    · refine .inl ⟨fun a ha ↦ ?_, by rw [heq]; rfl⟩
      obtain ⟨i, hi⟩ := t.slots.mem_toList.mp ha
      exact hall i a (Nat.zero_le i) hi
    · exact .inr ⟨i, fault, ⟨⟨a, ha, hfault⟩, fun j b hj hb ↦ hbefore j b (Nat.zero_le j) hj hb⟩,
        by rw [heq]; rfl⟩

/-- Clearing leaves blank slots. -/
theorem clear_eq :
    t.clear = { t with slots := .blank t.capacity, size := 0, rehashPending := false } := by
  rw [clear]
  rcases clearWith_cases f hpos hsize fun _ ↦ .ok () with ⟨-, heq⟩ | ⟨i, fault, hcut, -⟩
  · rw [heq]
    rfl
  · obtain ⟨a, -, hfault⟩ := hcut.item
    cases hfault

end Call

/-- There is nothing to destroy in a table without slots. -/
theorem clearWith_of_capacity_eq_zero (hzero : t.capacity = 0) (destroy : α → Except Fault Unit) :
    t.clearWith destroy = .done { t with rehashPending := false } () := by
  rw [clearWith, if_pos (.inl hzero)]
  rfl

theorem clear_of_capacity_eq_zero (hzero : t.capacity = 0) :
    t.clear = { t with rehashPending := false } := by
  rw [clear, clearWith_of_capacity_eq_zero hzero]
  rfl

/-! ### What does not depend on the slots -/

theorem state_destroyEach (destroy : α → Except Fault Unit) (indices : List Nat) (t : Table key) :
    (destroyEach destroy indices t).state.capacity = t.capacity ∧
      (destroyEach destroy indices t).state.maxLoad = t.maxLoad ∧
      (destroyEach destroy indices t).state.setup = t.setup := by
  induction indices generalizing t with
  | nil => exact ⟨rfl, rfl, rfl⟩
  | cons index indices ih =>
    rw [destroyEach]
    cases t.slots.item? index with
    | none => exact ih t
    | some a =>
      simp only
      cases destroy a with
      | error fault => exact ⟨rfl, rfl, rfl⟩
      | ok _ => exact ih (t.vacateAt index)

/-- Clearing keeps the slots, the load factor and the setup, wherever it ends. -/
theorem state_clearWith (destroy : α → Except Fault Unit) (t : Table key) :
    (t.clearWith destroy).state.capacity = t.capacity ∧
      (t.clearWith destroy).state.maxLoad = t.maxLoad ∧
      (t.clearWith destroy).state.setup = t.setup := by
  rw [clearWith]
  split
  · exact ⟨rfl, rfl, rfl⟩
  · have hloop := state_destroyEach destroy (List.range t.slots.slotCount) t
    rcases (destroyEach destroy (List.range t.slots.slotCount) t).andThen_cases
      (fun t () ↦ .done { t with rehashPending := false } ()) with ⟨fault, -, heq⟩ | ⟨r, -, heq⟩ <;>
      rw [heq] <;> exact hloop

theorem capacity_clear (t : Table key) : t.clear.capacity = t.capacity := (state_clearWith _ t).1

theorem maxLoad_clear (t : Table key) : t.clear.maxLoad = t.maxLoad := (state_clearWith _ t).2.1

theorem setup_clear (t : Table key) : t.clear.setup = t.setup := (state_clearWith _ t).2.2

end ProbeWindow.Table
