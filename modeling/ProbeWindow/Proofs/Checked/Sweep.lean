import ProbeWindow.Proofs.Checked.Whole
import ProbeWindow.Table.Retention

/-!
# Walks that remove items, step by step

A draining walk and a retention go on at the slot of an item that they remove, since the backward
shift may bring another item there. Retention looks at all slots, so it is given a number of steps,
and it is part of its safety that it ends within it: every step leaves fewer slots to look at, or
fewer items.
-/

namespace ProbeWindow

universe u v w

variable {α : Type u} {κ : Type v} {σ : Type w} [BEq κ] {key : α → κ}

/-! ### Draining walks -/

namespace Drain

/-- The first occupied slot from an index on, if there is one, and its item. -/
def checkedNextOccupied (slots : SlotArray α) (index : Nat) : Checked (Option (Occupant α)) :=
  if index < slots.slotCount then
    (slots.checkedOccupied index).andThen fun occupied ↦
      if occupied then
        (slots.checkedItem index).map fun item ↦ item.map (⟨index, ·⟩)
      else
        checkedNextOccupied slots (index + 1)
  else
    .pure none
termination_by slots.slotCount - index

/-- The next item, taken out of the table, and the walk behind it. -/
def checkedNext (d : Drain key) : Checked (Option α × Drain key) :=
  if d.table.size = 0 then
    .pure (none, d)
  else
    (checkedNextOccupied d.table.slots d.index).andThen fun found ↦
      match found with
      | none => .pure (none, { d with index := d.table.slots.slotCount })
      | some o => (d.table.checkedEraseAt o.index).map fun t ↦ (some o.item, ⟨t, o.index⟩)

/-- Up to so many next items, taken out of the table, and the walk behind them. -/
def checkedTake : Nat → Drain key → Checked (List α × Drain key)
  | 0, d => .pure ([], d)
  | n + 1, d =>
    d.checkedNext.andThen fun step ↦
      match step with
      | (none, d) => .pure ([], d)
      | (some item, d) => (checkedTake n d).map fun (rest, d) ↦ (item :: rest, d)

/-- The table after a walk that is given up properly. -/
def checkedFinish (d : Drain key) : Checked (Table key) :=
  (checkedTake d.table.size d).map fun (_, d) ↦ { d.table with rehashPending := false }

variable {d : Drain key}

theorem checkedNextOccupied_yields {slots : SlotArray α} (f : slots.Formed) (index : Nat) :
    (checkedNextOccupied slots index).Yields (nextOccupied? slots index) := by
  fun_induction nextOccupied? slots index with
  | case1 index hlt ih =>
    rw [checkedNextOccupied, if_pos hlt]
    refine (f.checkedOccupied hlt).andThen ?_
    cases hocc : slots.isOccupied index with
    | false =>
      rw [SlotArray.occupant?, f.item?_eq_none hlt hocc]
      exact ih
    | true =>
      obtain ⟨a, ha⟩ := f.exists_item hlt hocc
      rw [SlotArray.occupant?, ha]
      exact (f.checkedItem ha).map _
  | case2 index hge =>
    rw [checkedNextOccupied, if_neg hge]
    exact .pure _

/-- **A step of a draining walk is safe**, and leaves the table well-formed. -/
theorem checkedNext_yields (h : d.table.WellFormed) :
    d.checkedNext.Yields d.next ∧ d.next.2.table.WellFormed := by
  rw [checkedNext, next]
  split
  · exact ⟨.pure _, h⟩
  · next hsize =>
    have hoccupied := checkedNextOccupied_yields (h.allocated_of_size hsize).formed d.index
    rcases nextOccupied?_cases d.table.slots d.index with ⟨hnone, -⟩ | ⟨o, hsome, hitem, -⟩
    · rw [hnone] at hoccupied ⊢
      exact ⟨hoccupied.andThen (.pure _), h⟩
    · rw [hsome] at hoccupied ⊢
      exact ⟨hoccupied.andThen ((h.checkedEraseAt hitem).map _), h.eraseAt hitem⟩

/-- **A draining walk is safe**, however long it is. -/
theorem checkedTake_yields (n : Nat) {d : Drain key} (h : d.table.WellFormed) :
    (checkedTake n d).Yields (take n d) ∧ (take n d).2.table.WellFormed := by
  induction n generalizing d with
  | zero => exact ⟨.pure _, h⟩
  | succ n ih =>
    obtain ⟨hnext, hwell⟩ := checkedNext_yields h
    rw [take]
    rcases heq : d.next with ⟨_ | item, d'⟩
    · rw [heq] at hnext hwell
      exact ⟨hnext.andThen (.pure _), hwell⟩
    · rw [heq] at hnext hwell
      exact ⟨hnext.andThen ((ih hwell).1.map _), (ih hwell).2⟩

/-- Giving a draining walk up is safe. -/
theorem checkedFinish_yields (h : d.table.WellFormed) :
    d.checkedFinish.Yields d.finish ∧ d.finish.WellFormed := by
  obtain ⟨hyields, hwell⟩ := checkedTake_yields d.table.size h
  exact ⟨hyields.map _, hwell.mark false⟩

end Drain

namespace Table

variable (t : Table key)

/-- Up to so many items of a walk that consumes the table; the others are dropped with it. -/
def checkedIntoItems (n : Nat) : Checked (List α) :=
  (Drain.checkedTake n (Drain.start t)).andThen fun (items, d) ↦
    d.table.checkedDrop.map fun _ ↦ items

/-! ### Retention -/

/-- Retention from a slot on, in at most so many steps. -/
def checkedRetainFrom (visit : σ → α → Visit σ α) :
    Nat → Table key → Nat → σ → Checked (Table key × σ × Except Fault Unit)
  | 0, t, _, state => .endless (t, state, .ok ())
  | n + 1, t, index, state =>
    if index < t.slots.slotCount then
      (t.slots.checkedOccupied index).andThen fun occupied ↦
        if occupied then
          (t.slots.checkedItem index).andThen fun item ↦
            match item with
            | none => checkedRetainFrom visit n t (index + 1) state
            | some a =>
              let v := visit state a
              let updated : Table key := { t with slots := t.slots.setItem index v.item }
              match v.verdict with
              | .error fault => .pure (updated, v.state, .error fault)
              | .ok true => checkedRetainFrom visit n updated (index + 1) v.state
              | .ok false =>
                (updated.checkedEraseAt index).andThen fun t ↦
                  checkedRetainFrom visit n t index v.state
        else
          checkedRetainFrom visit n t (index + 1) state
    else
      .pure (t, state, .ok ())

/-- Keeps the items that a predicate accepts. Every step but the last one leaves a slot behind, or
removes an item. -/
def checkedRetain (visit : σ → α → Visit σ α) (state : σ) :
    Checked (Table key × σ × Except Fault Unit) :=
  checkedRetainFrom visit (t.slots.slotCount + t.size + 1) t 0 state

variable {t} {visit : σ → α → Visit σ α}

/-- A walk that consumes the table is safe. -/
theorem WellFormed.checkedIntoItems (h : t.WellFormed) (n : Nat) :
    (t.checkedIntoItems n).Yields (Drain.take n (Drain.start t)).1 := by
  obtain ⟨hyields, hwell⟩ := Drain.checkedTake_yields n (d := Drain.start t) h
  exact hyields.andThen (hwell.checkedDrop.map _)

/-- Slots without items are passed. -/
theorem WellFormed.checkedRetainFrom_of_vacant (h : t.WellFormed) {n index : Nat} {state : σ}
    (hn : t.slots.slotCount - index < n) (hvacant : ∀ i, t.slots.item? i = none) :
    (checkedRetainFrom visit n t index state).Yields (t, state, .ok ()) := by
  induction n generalizing index with
  | zero => omega
  | succ n ih =>
    rw [Table.checkedRetainFrom]
    by_cases hlt : index < t.slots.slotCount
    · have hform := h.formed_of_lt hlt
      rw [if_pos hlt]
      refine (hform.checkedOccupied hlt).andThen ?_
      rw [hform.not_isOccupied hlt (hvacant index)]
      exact ih (by omega)
    · rw [if_neg hlt]
      exact .pure _

/-- **Retention from a slot on is safe**, and leaves the table well-formed, also when a visit
fails. -/
theorem WellFormed.checkedRetainFrom {t : Table key} (h : t.WellFormed) {n : Nat} (index : Nat)
    (state : σ) (hn : t.slots.slotCount - index + t.size < n) :
    (checkedRetainFrom visit n t index state).Yields (retainFrom visit t index state) ∧
      (retainFrom visit t index state).1.WellFormed := by
  induction n generalizing t index state with
  | zero => omega
  | succ n ih =>
    rw [retainFrom]
    by_cases hsize : t.size = 0
    · rw [if_neg fun hcond ↦ hcond.2 hsize]
      exact ⟨h.checkedRetainFrom_of_vacant (by omega) (h.item?_eq_none_of_size hsize), h⟩
    by_cases hlt : index < t.slots.slotCount
    case neg =>
      rw [if_neg fun hcond ↦ hlt hcond.1, Table.checkedRetainFrom, if_neg hlt]
      exact ⟨.pure _, h⟩
    have hform := h.formed_of_lt hlt
    have hoccupied := hform.checkedOccupied hlt
    rw [if_pos ⟨hlt, hsize⟩, Table.checkedRetainFrom, if_pos hlt]
    cases hitem : t.slots.item? index with
    | none =>
      rw [hform.not_isOccupied hlt hitem] at hoccupied
      exact And.imp_left hoccupied.andThen (ih h (index + 1) state (by omega))
    | some a =>
      rw [hform.isOccupied_of_item index a hitem] at hoccupied
      -- the visit may have changed the item, but it is still there
      have ho : t.Holds ⟨index, a⟩ := hitem
      have hupdated := h.update ho fun _ ↦ (visit state a).item
      have hkept := ho.update fun _ ↦ (visit state a).item
      have hcount := t.slots.slotCount_setItem index (visit state a).item
      refine And.imp_left hoccupied.andThen ?_
      rw [if_pos rfl]
      refine And.imp_left (hform.checkedItem hitem).andThen ?_
      rcases hverdict : (visit state a).verdict with fault | _ | _
      · simp only [hverdict]
        exact ⟨.pure _, hupdated⟩
      · simp only [hverdict]
        refine And.imp_left (hupdated.checkedEraseAt hkept).andThen ?_
        refine ih (hupdated.eraseAt hkept) index (visit state a).state ?_
        rw [slotCount_eraseAt]
        show (t.slots.setItem index (visit state a).item).slotCount - index + (t.size - 1) < n
        omega
      · simp only [hverdict]
        refine ih hupdated (index + 1) (visit state a).state ?_
        show (t.slots.setItem index (visit state a).item).slotCount - (index + 1) + t.size < n
        omega

theorem WellFormed.checkedRetain (h : t.WellFormed) (visit : σ → α → Visit σ α) (state : σ) :
    (t.checkedRetain visit state).Yields (t.retain visit state) ∧
      (t.retain visit state).1.WellFormed :=
  h.checkedRetainFrom 0 state (Nat.lt_succ_self _)

end Table

end ProbeWindow
