import ProbeWindow.Proofs.Table.Iteration
import ProbeWindow.Table.Reservation
import Mathlib.Data.List.Basic

/-!
# Calls on a whole table

The calls that are about no key in particular: those that resize, those that walk, and those that
empty the table. Maps and sets have them as tables do, so they are specified here once. What such a
call says of the contents is `Upkeep.Meets`: it never depends on where the items are, except that
walks go through them in some order.
-/

namespace ProbeWindow.Table

universe u v

variable {α : Type u} {κ : Type v} [BEq κ] {key : α → κ} {t : Table key}

/-- A call on a whole table. -/
inductive Upkeep where
  /-- Takes all items out. -/
  | clear
  /-- Makes room, or ends with a fault. -/
  | reserve (additional : Nat)
  /-- Makes room, or tells why not. -/
  | tryReserve (additional : Nat)
  /-- Brings the table to the capacity for its items and a slot count. -/
  | rehash (count : Nat)
  /-- Brings the table to the smallest capacity for its items. -/
  | shrinkToFit
  /-- Sets the load factor by its bits. -/
  | setMaxLoadFactor (bits : UInt32)
  /-- Walks over so many items. -/
  | iter (n : Nat)
  /-- Takes so many items out, and gives the walk up: properly, or by leaking it. -/
  | drain (n : Nat) (leak : Bool)

/-- What a call on a whole table answers. -/
inductive Report (α : Type u) where
  /-- Nothing. -/
  | unit
  /-- Whether room was made. -/
  | reserved (answer : Except ReserveError Unit)
  /-- The items that were yielded. -/
  | items (items : List α)
deriving DecidableEq

namespace Upkeep

/-- The call on a table. -/
def exec (t : Table key) : Upkeep → Outcome (Table key) (Report α)
  | clear => .done t.clear .unit
  | reserve additional => (t.reserve additional).map fun _ ↦ .unit
  | tryReserve additional => (t.tryReserve additional).map .reserved
  | rehash count => (t.rehash count).map fun _ ↦ .unit
  | shrinkToFit => t.shrinkToFit.map fun _ ↦ .unit
  | setMaxLoadFactor bits => (t.setMaxLoadFactor bits).map fun _ ↦ .unit
  | iter n => .done t (.items (t.walk n t.cursor).1)
  | drain n leak =>
    let (items, d) := Drain.take n (Drain.start t)
    .done (if leak then d.leak else d.finish) (.items items)

/-- **What a call on a whole table does to the contents.** -/
def Meets (before : List α) (report : Report α) (after : List α) : Upkeep → Prop
  | clear => report = .unit ∧ after = []
  | tryReserve _ => (∃ answer, report = .reserved answer) ∧ after.Perm before
  | iter n =>
    ∃ order : List α, order.Perm before ∧ report = .items (order.take n) ∧ after.Perm before
  | drain n leak =>
    ∃ order : List α, order.Perm before ∧ report = .items (order.take n) ∧
      after.Perm (if leak then order.drop n else [])
  | reserve _ | rehash _ | shrinkToFit | setMaxLoadFactor _ =>
    report = .unit ∧ after.Perm before

end Upkeep

namespace Upkeep.Meets

variable {u : Upkeep} {before before' after : List α} {report : Report α}

/-- A call on a whole table adds no item. -/
theorem subperm (h : u.Meets before report after) : after.Subperm before := by
  cases u with
  | clear => exact h.2 ▸ List.nil_subperm
  | reserve _ | rehash _ | shrinkToFit | setMaxLoadFactor _ | tryReserve _ => exact h.2.subperm
  | iter n =>
    obtain ⟨-, -, -, hafter⟩ := h
    exact hafter.subperm
  | drain n leak =>
    obtain ⟨order, horder, -, hafter⟩ := h
    refine hafter.subperm.trans (List.Subperm.trans ?_ horder.subperm)
    cases leak with
    | true => exact (List.drop_sublist n order).subperm
    | false => exact List.nil_subperm

/-- What a call on a whole table does depends on no order. -/
theorem of_perm (h : u.Meets before report after) (hperm : before.Perm before') :
    u.Meets before' report after := by
  cases u with
  | clear => exact h
  | reserve _ | rehash _ | shrinkToFit | setMaxLoadFactor _ | tryReserve _ =>
    exact ⟨h.1, h.2.trans hperm⟩
  | iter n =>
    obtain ⟨order, horder, hreport, hafter⟩ := h
    exact ⟨order, horder.trans hperm, hreport, hafter.trans hperm⟩
  | drain n leak =>
    obtain ⟨order, horder, hreport, hafter⟩ := h
    exact ⟨order, horder.trans hperm, hreport, hafter⟩

end Upkeep.Meets

/-! ### Soundness -/

/-- What every call on a whole table has in common, the calls that end with a fault included: the
table stays sound, keeps its setup, and gets no item. -/
structure Upkept (t t' : Table key) : Prop where
  /-- The table is sound. -/
  sound : t'.Sound
  /-- The setup is the same. -/
  setup_eq : t'.setup = t.setup
  /-- No item is new. -/
  subperm : t'.toList.Subperm t.toList

theorem Rehoused.upkept {t' : Table key} (h : Rehoused t t') : Upkept t t' :=
  ⟨h.sound, h.setup_eq, h.perm.subperm⟩

/-- The load factor is set, or the table is left as it is. -/
theorem Sound.setMaxLoadFactor (h : t.Sound) (bits : UInt32) :
    (t.setMaxLoadFactor bits).state.Sound ∧ (t.setMaxLoadFactor bits).state.setup = t.setup ∧
      (t.setMaxLoadFactor bits).state.toList = t.toList := by
  rw [Table.setMaxLoadFactor]
  split
  · next f _ => exact ⟨h.setMaxLoad f, rfl, rfl⟩
  · exact ⟨h, rfl, rfl⟩

/-- **A call on a whole table keeps it sound.** -/
theorem Sound.upkept_exec (h : t.Sound) (u : Upkeep) : Upkept t (u.exec t).state := by
  cases u with
  | clear =>
    refine ⟨h.clear, t.setup_clear, ?_⟩
    show t.clear.toList.Subperm t.toList
    rw [h.toList_clear]
    exact List.nil_subperm
  | reserve additional => exact (h.reserve additional).upkept
  | tryReserve additional => exact (h.tryReserve additional).upkept
  | rehash count => exact (h.rehash count).upkept
  | shrinkToFit => exact h.shrinkToFit.upkept
  | setMaxLoadFactor bits =>
    obtain ⟨hsound, hsetup, hlist⟩ := h.setMaxLoadFactor bits
    exact ⟨hsound, hsetup, hlist ▸ List.Subperm.refl _⟩
  | iter n => exact h.rehoused.upkept
  | drain n leak =>
    obtain ⟨-, hrest, hcont⟩ := (Drain.started_start h).take_spec n
    cases leak with
    | true =>
      refine ⟨hcont.started.sound, hcont.setup_eq, ?_⟩
      show (Drain.take n (Drain.start t)).2.table.toList.Subperm t.toList
      rw [hrest]
      exact (List.drop_sublist n t.toList).subperm
    | false =>
      obtain ⟨hsound, hsetup, hnil⟩ := hcont.started.finish
      refine ⟨hsound, hsetup.trans hcont.setup_eq, ?_⟩
      show (Drain.take n (Drain.start t)).2.finish.toList.Subperm t.toList
      rw [hnil]
      exact List.nil_subperm

/-! ### Contents -/

/-- A call that leaves the items and has nothing to tell. -/
theorem unit_meets {o : Outcome (Table key) Unit} (h : o.state.toList.Perm t.toList)
    {report : Report α} (hreport : (o.map fun _ ↦ (.unit : Report α)).result = .ok report) :
    report = .unit ∧ o.state.toList.Perm t.toList := by
  obtain ⟨-, -, rfl⟩ := Outcome.of_result_map hreport
  exact ⟨rfl, h⟩

/-- **A call on a whole table does what it should to the contents**, when it returns. -/
theorem Sound.meets_exec (h : t.Sound) (u : Upkeep) {report : Report α}
    (hreport : (u.exec t).result = .ok report) :
    u.Meets t.toList report (u.exec t).state.toList := by
  cases u with
  | clear =>
    cases hreport
    exact ⟨rfl, h.toList_clear⟩
  | reserve additional => exact unit_meets (h.reserve additional).perm hreport
  | rehash count => exact unit_meets (h.rehash count).perm hreport
  | shrinkToFit => exact unit_meets h.shrinkToFit.perm hreport
  | setMaxLoadFactor bits =>
    obtain ⟨-, -, hlist⟩ := h.setMaxLoadFactor bits
    exact unit_meets (hlist ▸ .refl _) hreport
  | tryReserve additional =>
    obtain ⟨answer, -, rfl⟩ := Outcome.of_result_map hreport
    exact ⟨⟨answer, rfl⟩, (h.tryReserve additional).perm⟩
  | iter n =>
    cases hreport
    exact ⟨t.toList, .refl _, congrArg _ (h.walk n), .refl _⟩
  | drain n leak =>
    obtain ⟨hitems, hrest, hcont⟩ := (Drain.started_start h).take_spec n
    cases hreport
    refine ⟨t.toList, .refl _, congrArg _ hitems, ?_⟩
    cases leak with
    | true => exact hrest ▸ .refl _
    | false =>
      obtain ⟨-, -, hnil⟩ := hcont.started.finish
      exact hnil ▸ .refl _

end ProbeWindow.Table
