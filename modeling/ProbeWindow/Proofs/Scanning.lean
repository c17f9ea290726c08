import ProbeWindow.Proofs.Checked.Walk
import ProbeWindow.Proofs.Table.Reseating
import Mathlib.Logic.Function.Iterate

/-!
# Walks and scans

A walk goes from group to group and stops at a sentinel. A scan looks at every slot, and needs
neither. They find the same slots in the same order (`walk_eq_scan`): as long as a cursor is before
what is left of the scan (`Cursor.Precedes`), a step yields the first slot of that, has counted it,
and leaves the cursor before the others; and when nothing is left, nothing is ever yielded again.

Cursors are copied, and the copies go on alone. What a cursor yields next depends on nothing but the
number of steps behind it, its own and those of the cursors that it was copied from (`stepsOf`).

This holds of every array in form. The slots of a table are one (`Table.Sound.walkable`).
-/

namespace ProbeWindow

universe u v w

variable {α : Type u} {β : Type v} {γ : Type w} {s : SlotArray α}

namespace SlotArray

/-- The occupied slots in ascending order, found by looking at all of them. -/
def scan (s : SlotArray α) : List Nat := (List.range s.slotCount).filter s.isOccupied

/-- An array that can be walked: there are no slots, or it is in form. -/
def Walkable (s : SlotArray α) : Prop := s = .unallocated ∨ Formed s

theorem mem_scan {i : Nat} : i ∈ s.scan ↔ i < s.slotCount ∧ s.isOccupied i = true := by
  rw [scan, List.mem_filter, List.mem_range]

theorem occupiedSlots_eq_scan (h : s.Walkable) : s.occupiedSlots 0 s.slotCount = s.scan := by
  rcases h with rfl | f
  · rfl
  · rw [occupiedSlots, scan, Nat.sub_zero, ← List.range_eq_range']
    exact List.filter_congr fun i hi ↦ (f.isOccupied_eq_isSome (List.mem_range.mp hi)).symm

theorem length_occupiedSlots (s : SlotArray α) (start stop : Nat) :
    (s.occupiedSlots start stop).length = (s.segment start stop).length := by
  rw [occupiedSlots, segment, List.length_filterMap_eq_countP, List.countP_eq_length_filter]

end SlotArray

namespace Cursor

/-! ### Steps -/

/-- The cursor behind the next slot. -/
def advance (s : SlotArray α) (c : Cursor) : Cursor := (c.next s).2

/-- Without slots there is nothing to yield. -/
theorem next_unallocated (c : Cursor) : c.next (.unallocated : SlotArray α) = (none, c) := by
  have hskip : skipVacant (.unallocated : SlotArray α) c.position = c.position := by
    rw [skipVacant, if_neg fun hlt ↦ Nat.not_lt_zero _ hlt.1]
  rw [next, hskip]
  rfl

/-- Without slots no tag is read. -/
theorem checkedNext_unallocated (c : Cursor) :
    (c.checkedNext (.unallocated : SlotArray α)).Yields (none, c) := by
  have hend : ¬c.position < (.unallocated : SlotArray α).slotCount := Nat.not_lt_zero _
  have hskip : (checkedSkip (.unallocated : SlotArray α) c.position).Yields c.position := by
    rw [checkedSkip, if_neg hend]
    exact .pure _
  refine hskip.andThen ?_
  rw [if_neg hend]
  exact .pure _

/-- A cursor is before some slots: these are the occupied ones to come, and it counts them. -/
structure Precedes (s : SlotArray α) (c : Cursor) (rest : List Nat) : Prop where
  /-- The slots are the occupied ones from the position on. -/
  slots_eq : s.occupiedSlots c.position s.slotCount = rest
  /-- The cursor counts them. -/
  remaining_eq : c.remaining = rest.length

theorem precedes_start (h : s.Walkable) : Precedes s (start s.scan.length) s.scan :=
  ⟨SlotArray.occupiedSlots_eq_scan h, rfl⟩

namespace Precedes

variable {c : Cursor} {rest : List Nat}

theorem eq_nil_of_unallocated (hc : Precedes (.unallocated : SlotArray α) c rest) : rest = [] := by
  rw [← hc.slots_eq]
  exact SlotArray.occupiedSlots_eq_nil fun j _ hlt ↦ absurd hlt (Nat.not_lt_zero j)

/-- **A step yields the first of the slots to come**, or nothing when there are none. -/
theorem next_cases (hc : Precedes s c rest) (h : s.Walkable) :
    (∃ i rest' d, rest = i :: rest' ∧ c.next s = (some i, d) ∧ Precedes s d rest') ∨
      rest = [] ∧ ∃ d, c.next s = (none, d) ∧ Precedes s d [] := by
  rcases h with rfl | f
  · obtain rfl := hc.eq_nil_of_unallocated
    exact .inr ⟨rfl, c, next_unallocated c, hc⟩
  · obtain ⟨hslots, hcount⟩ := hc
    rcases next_spec f c with ⟨i, a, hnext, hle, ha, hfree⟩ | ⟨p, hnext, hp, hfree⟩
    · have hcons := SlotArray.occupiedSlots_eq_cons hle (s.lt_slotCount_of_item? ha) ha hfree
      subst hslots
      rw [hcons, List.length_cons] at hcount
      exact .inl ⟨i, _, _, hcons, hnext, rfl, by rw [hcount, Nat.add_sub_cancel]⟩
    · have hnil : rest = [] :=
        hslots.symm.trans (SlotArray.occupiedSlots_eq_nil fun j h1 _ ↦ hfree j h1)
      subst hnil
      refine .inr ⟨rfl, _, hnext, SlotArray.occupiedSlots_eq_nil fun j h1 h2 ↦ ?_, hcount⟩
      exact absurd (Nat.lt_of_lt_of_le h2 hp) (Nat.not_lt.mpr h1)

theorem next_fst (hc : Precedes s c rest) (h : s.Walkable) : (c.next s).1 = rest.head? := by
  rcases hc.next_cases h with ⟨i, rest', d, rfl, heq, -⟩ | ⟨rfl, d, heq, -⟩ <;> rw [heq] <;> rfl

/-- The cursor behind a step is before the others. -/
theorem advance (hc : Precedes s c rest) (h : s.Walkable) :
    Precedes s (c.advance s) rest.tail := by
  rw [Cursor.advance]
  rcases hc.next_cases h with ⟨i, rest', d, rfl, heq, hd⟩ | ⟨rfl, d, heq, hd⟩
  · rw [heq]
    exact hd
  · rw [heq]
    exact hd

/-- **A step is safe**: it reads tags that are there, and it counts down only for a slot. -/
theorem checkedNext (hc : Precedes s c rest) (h : s.Walkable) :
    (c.checkedNext s).Yields (c.next s) := by
  rcases h with rfl | f
  · rw [next_unallocated]
    exact checkedNext_unallocated c
  · refine f.checkedNext ?_
    rw [Counts, ahead, hc.remaining_eq, ← hc.slots_eq, SlotArray.length_occupiedSlots]

/-- **A walk yields the first of the slots to come.** -/
theorem take_fst (hc : Precedes s c rest) (h : s.Walkable) (n : Nat) :
    (take s n c).1 = rest.take n := by
  rcases h with rfl | f
  · obtain rfl := hc.eq_nil_of_unallocated
    rw [List.take_nil]
    cases n with
    | zero => rfl
    | succ n => rw [take, next_unallocated]
  · rw [(take_spec f n c).1, hc.slots_eq]

/-- **After some steps a cursor is before what they leave.** -/
theorem iterate (hc : Precedes s c rest) (h : s.Walkable) (n : Nat) :
    Precedes s ((Cursor.advance s)^[n] c) (rest.drop n) := by
  induction n with
  | zero => exact hc
  | succ n ih =>
    rw [Function.iterate_succ_apply', ← List.tail_drop]
    exact ih.advance h

end Precedes

/-! ### Copies -/

/-- What is done with the cursors in numbered registers. -/
inductive Use where
  /-- The cursor of a register makes a step. -/
  | step (r : Nat)
  /-- The cursor of a register is copied to another register. -/
  | copy (source target : Nat)

/-- The registers after a use, when a step applies a function. -/
def Use.exec (f : β → β) (pool : Nat → β) : Use → Nat → β
  | step r => Function.update pool r (f (pool r))
  | copy source target => Function.update pool target (pool source)

/-- The registers after some uses. -/
def runUses (f : β → β) (pool : Nat → β) (uses : List Use) : Nat → β := uses.foldl (Use.exec f) pool

/-- The number of steps behind the cursor of a register. A copy has the steps of its original. -/
def stepsOf (uses : List Use) : Nat → Nat := runUses (· + 1) (fun _ ↦ 0) uses

/-- Cursors that start together in all registers, after some uses. -/
def cursors (s : SlotArray α) (uses : List Use) : Nat → Cursor :=
  runUses (advance s) (fun _ ↦ start s.scan.length) uses

/-- Registers go along with registers whose steps go along. -/
theorem runUses_comp {f : β → β} {f' : γ → γ} {g : β → γ} (hg : ∀ b, f' (g b) = g (f b))
    (pool : Nat → β) (uses : List Use) : runUses f' (g ∘ pool) uses = g ∘ runUses f pool uses := by
  induction uses generalizing pool with
  | nil => rfl
  | cons use uses ih =>
    have huse : use.exec f' (g ∘ pool) = g ∘ use.exec f pool := by
      cases use with
      | step r => rw [Use.exec, Use.exec, Function.comp_update, ← hg, Function.comp_apply]
      | copy source target => rw [Use.exec, Use.exec, Function.comp_update, Function.comp_apply]
    show runUses f' (use.exec f' (g ∘ pool)) uses = g ∘ runUses f (use.exec f pool) uses
    rw [huse, ih]

/-- **A cursor is where its own steps have led it.** -/
theorem cursors_eq_iterate (s : SlotArray α) (uses : List Use) (r : Nat) :
    cursors s uses r = (advance s)^[stepsOf uses r] (start s.scan.length) := by
  have hstep : ∀ n, advance s ((advance s)^[n] (start s.scan.length)) =
      (advance s)^[n + 1] (start s.scan.length) := fun n ↦
    (Function.iterate_succ_apply' (advance s) n _).symm
  exact congrFun (runUses_comp hstep (fun _ ↦ 0) uses) r

end Cursor

/-! ### Tables -/

section Tables

variable {κ : Type v} [BEq κ] {key : α → κ} {t : Table key}

/-- The slots of a table can be walked. -/
theorem Table.Sound.walkable (h : t.Sound) : t.slots.Walkable :=
  h.imp Table.Bare.slots_eq fun hfurnished ↦ hfurnished.ordered.formed

end Tables

/-- **A walk is a scan.** Whatever steps and copies are made, the next step of a cursor yields the
slot of the scan that its number of steps points to, and nothing behind the end of the scan; it is
safe; and the cursor counts what is left of the scan, which is what a walk from it yields. -/
theorem walk_eq_scan (h : s.Walkable) (uses : List Cursor.Use) (r : Nat) :
    let c := Cursor.cursors s uses r
    let n := Cursor.stepsOf uses r
    (c.next s).1 = s.scan[n]? ∧
      (∀ i, (c.next s).1 = some i → i < s.slotCount ∧ s.isOccupied i = true ∧ 0 < c.remaining) ∧
      c.remaining = (s.scan.drop n).length ∧
      (c.checkedNext s).Yields (c.next s) ∧
      ∀ m, (Cursor.take s m c).1 = (s.scan.drop n).take m := by
  intro c n
  have hc : Cursor.Precedes s c (s.scan.drop n) := by
    rw [show c = _ from Cursor.cursors_eq_iterate s uses r]
    exact (Cursor.precedes_start h).iterate h n
  have hnext : (c.next s).1 = s.scan[n]? := (hc.next_fst h).trans (List.head?_drop ..)
  refine ⟨hnext, fun i hi ↦ ?_, hc.remaining_eq, hc.checkedNext h, hc.take_fst h⟩
  rw [hnext] at hi
  obtain ⟨hlt, hocc⟩ := SlotArray.mem_scan.mp (List.mem_of_getElem? hi)
  refine ⟨hlt, hocc, ?_⟩
  rw [hc.remaining_eq, List.length_drop]
  exact Nat.sub_pos_of_lt (List.getElem?_eq_some_iff.mp hi).1

namespace Bank

/-- A key of the first home, and a full window of the last one. -/
def stretchedKeys : List UInt64 := 0 :: Key.range 1184 1 16

/-- A table with few items in many slots: those of the last home fill the overflow slots. -/
def stretchedTable : Table (id : UInt64 → UInt64) :=
  run Table.Call.next (fresh id fun _ ↦ .crowded UInt64 16 64) (insertingTable 40 stretchedKeys) 0

/-- A cursor is copied after a step, and the copy goes on. -/
def copyingUses : List Cursor.Use := [.step 0, .copy 0 1, .step 1]

end Bank

open Bank Cursor in
/-- The slots between the first item and the others are skipped, four groups that begin one slot
late. The copy is a step ahead of its original, and both come to the last overflow slot. -/
theorem walk_eq_scan_stretched :
    stretchedTable.slots.scan = 0 :: List.range' 63 16 ∧ stretchedTable.slots.slotCount = 79 ∧
    ((cursors stretchedTable.slots copyingUses 0).next stretchedTable.slots).1 = some 63 ∧
    (cursors stretchedTable.slots copyingUses 0).remaining = 16 ∧
    (take stretchedTable.slots 20 (cursors stretchedTable.slots copyingUses 0)).1 =
      List.range' 63 16 ∧
    (take stretchedTable.slots 20 (cursors stretchedTable.slots copyingUses 1)).1 =
      List.range' 64 15 := by
  have hsound : stretchedTable.Sound :=
    Table.sound_run (admits_insertingTable _ 40 stretchedKeys) 0
  obtain ⟨hcount, hscan⟩ : stretchedTable.slots.slotCount = 79 ∧
      stretchedTable.slots.scan = 0 :: List.range' 63 16 := by
    decide +kernel
  obtain ⟨hnext, -, hremaining, -, htake⟩ := walk_eq_scan hsound.walkable copyingUses 0
  obtain ⟨-, -, -, -, htake'⟩ := walk_eq_scan hsound.walkable copyingUses 1
  rw [hscan] at hnext hremaining htake htake'
  exact ⟨hscan, hcount, hnext, hremaining, htake 20, htake' 20⟩

end ProbeWindow
