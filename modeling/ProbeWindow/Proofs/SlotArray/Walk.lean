import ProbeWindow.Proofs.SlotArray.Form
import ProbeWindow.SlotArray.Cursor
import Mathlib.Data.Nat.Find

/-!
# Walks visit the occupied slots

A cursor goes from group to group and reads sixteen tags at a time. In an array in form it visits
the slots that have an item, all of them, in ascending order: a step goes to the first of them
from the position on (`next_spec`), so a walk of `n` steps visits the first `n`, and the walk that
goes on from there visits the others (`take_spec`). What the cursor counts is exact.
-/

namespace ProbeWindow

universe u

variable {α : Type u} {s : SlotArray α}

namespace SlotArray

variable (s)

/-- The slots from `start` on and before `stop` that have an item, in ascending order. -/
def occupiedSlots (start stop : Nat) : List Nat :=
  (List.range' start (stop - start)).filter fun i ↦ (s.item? i).isSome

theorem filterMap_occupiedSlots (start stop : Nat) :
    (s.occupiedSlots start stop).filterMap s.item? = s.segment start stop := by
  rw [occupiedSlots, List.filterMap_filter, segment]
  refine List.filterMap_congr fun i _ ↦ ?_
  cases s.item? i <;> rfl

theorem mem_occupiedSlots {start stop i : Nat} :
    i ∈ s.occupiedSlots start stop ↔ start ≤ i ∧ i < stop ∧ (s.item? i).isSome = true := by
  rw [occupiedSlots, List.mem_filter, List.mem_range'_1]
  constructor
  · rintro ⟨⟨h1, h2⟩, h3⟩
    exact ⟨h1, by omega, h3⟩
  · rintro ⟨h1, h2, h3⟩
    exact ⟨⟨h1, by omega⟩, h3⟩

variable {s}

theorem occupiedSlots_eq_nil {start stop : Nat}
    (h : ∀ j, start ≤ j → j < stop → s.item? j = none) : s.occupiedSlots start stop = [] := by
  refine List.eq_nil_iff_forall_not_mem.mpr fun i hi ↦ ?_
  obtain ⟨h1, h2, h3⟩ := s.mem_occupiedSlots.mp hi
  rw [h i h1 h2] at h3
  cases h3

theorem occupiedSlots_eq_cons {start stop i : Nat} {a : α} (h1 : start ≤ i) (h2 : i < stop)
    (ha : s.item? i = some a) (h : ∀ j, start ≤ j → j < i → s.item? j = none) :
    s.occupiedSlots start stop = i :: s.occupiedSlots (i + 1) stop := by
  obtain ⟨m, rfl⟩ := Nat.exists_eq_add_of_le h1
  obtain ⟨n, rfl⟩ := Nat.exists_eq_add_of_lt h2
  have hfront := occupiedSlots_eq_nil h
  rw [occupiedSlots, Nat.add_sub_cancel_left] at hfront
  rw [occupiedSlots, occupiedSlots, show start + m + n + 1 - start = m + (n + 1) by omega,
    show start + m + n + 1 - (start + m + 1) = n by omega, ← List.range'_append_1,
    List.filter_append, hfront, List.nil_append, List.range'_succ,
    List.filter_cons_of_pos (by rw [ha]; rfl)]

/-- The slots from `start` on and before `stop` are vacant, or there is a first one with an item;
the segment begins with that item. -/
theorem occupiedSlots_cases (s : SlotArray α) (start stop : Nat) :
    (s.occupiedSlots start stop = [] ∧ s.segment start stop = []) ∨
      ∃ i a, start ≤ i ∧ i < stop ∧ s.item? i = some a ∧
        (∀ j, start ≤ j → j < i → s.item? j = none) ∧
          s.occupiedSlots start stop = i :: s.occupiedSlots (i + 1) stop ∧
            s.segment start stop = a :: s.segment (i + 1) stop := by
  classical
  by_cases h : ∃ i, start ≤ i ∧ i < stop ∧ s.item? i ≠ none
  · obtain ⟨h1, h2, h3⟩ := Nat.find_spec h
    obtain ⟨a, ha⟩ := Option.ne_none_iff_exists'.mp h3
    have hfree : ∀ j, start ≤ j → j < Nat.find h → s.item? j = none := by
      intro j hj hlt
      by_contra hsome
      exact Nat.find_min h hlt ⟨hj, Nat.lt_trans hlt h2, hsome⟩
    have hcons := occupiedSlots_eq_cons h1 h2 ha hfree
    refine .inr ⟨_, a, h1, h2, ha, hfree, hcons, ?_⟩
    rw [← filterMap_occupiedSlots, hcons, List.filterMap_cons, ha, filterMap_occupiedSlots]
  · have hfree : ∀ j, start ≤ j → j < stop → s.item? j = none := by
      intro j h1 h2
      by_contra hsome
      exact h ⟨j, h1, h2, hsome⟩
    exact .inl ⟨occupiedSlots_eq_nil hfree, s.segment_eq_nil hfree⟩

theorem occupiedSlots_setItem_of_lt (s : SlotArray α) {i start stop : Nat} (h : i < start)
    (a : α) : (s.setItem i a).occupiedSlots start stop = s.occupiedSlots start stop := by
  refine List.filter_congr fun j hj ↦ ?_
  have hle := (List.mem_range'_1.mp hj).1
  rw [item?_setItem, if_neg (by omega)]

/-- The first of the occupied slots have the first of the items. -/
theorem filterMap_take_occupiedSlots (s : SlotArray α) (n start stop : Nat) :
    ((s.occupiedSlots start stop).take n).filterMap s.item? = (s.segment start stop).take n := by
  induction n generalizing start with
  | zero => rfl
  | succ n ih =>
    rcases s.occupiedSlots_cases start stop with ⟨hnil, hseg⟩ | ⟨i, a, -, -, ha, -, hcons, hseg⟩
    · rw [hnil, hseg]
      rfl
    · rw [hcons, hseg, List.take_succ_cons, List.take_succ_cons, List.filterMap_cons, ha, ih]

end SlotArray

namespace Cursor

/-! ### One step -/

/-- Skipping whole groups skips vacant slots only, and ends at a group with an occupied lane or
behind the last slot. -/
theorem skipVacant_spec (f : SlotArray.Formed s) (position : Nat) :
    (∀ j, position ≤ j → j < skipVacant s position → s.item? j = none) ∧
      (skipVacant s position < s.slotCount →
        (s.group (skipVacant s position)).occupied.lowest? ≠ none) := by
  fun_induction skipVacant s position with
  | case1 position h ih =>
    obtain ⟨hlt, hlow⟩ := h
    refine ⟨fun j h1 h2 ↦ ?_, ih.2⟩
    -- a slot that was skipped is in this group, or in one that was skipped after it
    rcases Nat.lt_or_ge j (position + windowWidth) with hj | hj
    · have hlane : j - position < windowWidth := by omega
      have hfree := (LaneMask.lowest?_eq_none_iff _).mp hlow _ hlane
      rw [s.has_occupied_group _ hlane, Nat.add_sub_cancel' h1] at hfree
      by_contra hsome
      obtain ⟨a, ha⟩ := Option.ne_none_iff_exists'.mp hsome
      rw [f.isOccupied_of_item _ a ha] at hfree
      cases hfree
    · exact ih.1 j hj h2
  | case2 position h =>
    exact ⟨fun j h1 h2 ↦ by omega, fun hlt hlow ↦ h ⟨hlt, hlow⟩⟩

/-- **A step goes to the first occupied slot** from the position on; without one it ends behind
the last slot. -/
theorem next_spec (f : SlotArray.Formed s) (c : Cursor) :
    (∃ i a, c.next s = (some i, ⟨i + 1, c.remaining - 1⟩) ∧ c.position ≤ i ∧
      s.item? i = some a ∧ ∀ j, c.position ≤ j → j < i → s.item? j = none) ∨
    (∃ p, c.next s = (none, ⟨p, c.remaining⟩) ∧ s.slotCount ≤ p ∧
      ∀ j, c.position ≤ j → s.item? j = none) := by
  have hle := le_skipVacant s c.position
  obtain ⟨hskip, hgroup⟩ := skipVacant_spec f c.position
  simp only [next]
  generalize skipVacant s c.position = p at hle hskip hgroup ⊢
  split
  · next hlt =>
    cases hlow : (s.group p).occupied.lowest? with
    | none => exact absurd hlow (hgroup hlt)
    | some lane =>
      obtain ⟨hlane, hocc, hbelow⟩ := (LaneMask.lowest?_eq_some_iff _).mp hlow
      rw [s.has_occupied_group _ hlane] at hocc
      -- sentinels are occupied lanes too, so the lane may lie behind the last slot
      have hfree : ∀ j, c.position ≤ j → j < p + lane → j < s.slotCount → s.item? j = none := by
        intro j h1 h2 h3
        rcases Nat.lt_or_ge j p with hj | hj
        · exact hskip j h1 hj
        · have hnot := hbelow (j - p) (by omega)
          rw [s.has_occupied_group _ (by omega), Nat.add_sub_cancel' hj,
            f.isOccupied_eq_isSome h3, Option.isSome_eq_false_iff,
            Option.isNone_iff_eq_none] at hnot
          exact hnot
      simp only
      split
      · next hslot =>
        rw [f.isOccupied_eq_isSome hslot] at hocc
        obtain ⟨a, ha⟩ := Option.isSome_iff_exists.mp hocc
        exact .inl ⟨p + lane, a, rfl, by omega, ha, fun j h1 h2 ↦ hfree j h1 h2 (by omega)⟩
      · next hslot =>
        refine .inr ⟨_, rfl, Nat.le_refl _, fun j h1 ↦ ?_⟩
        rcases Nat.lt_or_ge j s.slotCount with hj | hj
        · exact hfree j h1 (by omega) hj
        · exact s.item?_eq_none_of_le hj
  · next hge =>
    refine .inr ⟨p, rfl, by omega, fun j h1 ↦ ?_⟩
    rcases Nat.lt_or_ge j p with hj | hj
    · exact hskip j h1 hj
    · exact s.item?_eq_none_of_le (by omega)

/-! ### Many steps -/

/-- **A walk visits the first of the occupied slots**, as many as were asked for, and leaves the
others to the walk that goes on. -/
theorem take_spec (f : SlotArray.Formed s) (n : Nat) (c : Cursor) :
    (take s n c).1 = (s.occupiedSlots c.position s.slotCount).take n ∧
      s.occupiedSlots (take s n c).2.position s.slotCount =
        (s.occupiedSlots c.position s.slotCount).drop n ∧
      (take s n c).2.remaining =
        c.remaining - ((s.occupiedSlots c.position s.slotCount).take n).length := by
  induction n generalizing c with
  | zero => exact ⟨rfl, rfl, rfl⟩
  | succ n ih =>
    rcases next_spec f c with ⟨i, a, hnext, hle, ha, hfree⟩ | ⟨p, hnext, hp, hfree⟩
    · have hcons := SlotArray.occupiedSlots_eq_cons hle (s.lt_slotCount_of_item? ha) ha hfree
      obtain ⟨h1, h2, h3⟩ := ih ⟨i + 1, c.remaining - 1⟩
      simp only at h1 h2 h3
      simp only [take, hnext, hcons, List.take_succ_cons, List.drop_succ_cons, List.length_cons]
      refine ⟨by rw [h1], h2, ?_⟩
      rw [h3]
      omega
    · have hnil : s.occupiedSlots c.position s.slotCount = [] :=
        SlotArray.occupiedSlots_eq_nil fun j h1 _ ↦ hfree j h1
      have hnil' : s.occupiedSlots p s.slotCount = [] :=
        SlotArray.occupiedSlots_eq_nil fun j h1 h2 ↦ by omega
      simp only [take, hnext, hnil, hnil']
      exact ⟨rfl, rfl, rfl⟩

end Cursor

end ProbeWindow
