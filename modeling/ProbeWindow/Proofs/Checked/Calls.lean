import ProbeWindow.Proofs.Checked.Insertion
import ProbeWindow.Proofs.Checked.Sweep
import ProbeWindow.Proofs.Table.Calls

/-!
# The calls of a table, step by step

Every call of a table has a checked version, which is safe and leaves what the call leaves. Nothing
is assumed of the changes that a user makes to items: a change may well give an item another key,
and then later look-ups may miss it, but no step that they take is out of range.
-/

namespace ProbeWindow.Table

universe u v w

variable {α : Type u} {κ : Type v} {σ : Type w} [BEq κ] {key : α → κ}

section Exec

variable (t : Table key)

/-- An occupied item is handed out, and changed. -/
def checkedHandOut (change : α → α) (o : Occupant α) : Checked (Outcome (Table key) (Answer α)) :=
  (t.checkedUpdate o change).map fun (t, item) ↦ .done t (.item item)

/-- The result of an insertion is handed out, and changed. -/
def checkedHandOutPlaced (change : α → α) (o : Occupant α) (inserted : Bool) :
    Checked (Outcome (Table key) (Answer α)) :=
  (t.checkedUpdate o change).map fun (t, item) ↦ .done t (.placed item inserted)

/-- The use of an entry. -/
def EntryUse.checkedExec (entry : Entry α) :
    EntryUse α → Checked (Outcome (Table key) (Answer α))
  | drop => .pure (.done t .none)
  | orInsert item change =>
    (t.checkedOrInsert entry item).proceed fun t o ↦ t.checkedHandOut change o
  | orInsertWith make change =>
    (t.checkedOrInsertWith entry make).proceed fun t o ↦ t.checkedHandOut change o
  | matched vacant occupied =>
    match entry, vacant, occupied with
    | .vacant _, none, _ => .pure (.done t .none)
    | .vacant seat, some (item, change), _ =>
      (t.checkedFillChecked seat item).proceed fun t o ↦ t.checkedHandOut change o
    | .occupied o, _, none => (t.checkedEraseAt o.index).map fun t ↦ .done t (.item o.item)
    | .occupied o, _, some change => t.checkedHandOut change o

/-- The call on a table. -/
def Access.checkedExec : Access α κ → Checked (Outcome (Table key) (Answer α))
  | find k => (t.checkedFind k).map fun item ↦ .done t (.ofOption item)
  | contains k => (t.checkedContains k).map fun present ↦ .done t (.flag present)
  | modify k change => (t.checkedModify k change).map fun (t, item) ↦ .done t (.ofOption item)
  | erase k => (t.checkedEraseKey k).map fun (t, item) ↦ .done t (.ofOption item)
  | emplace item change =>
    (t.checkedEmplace item).proceed fun t (o, inserted) ↦ t.checkedHandOutPlaced change o inserted
  | tryEmplaceWith k make change =>
    (t.checkedTryEmplaceWith k make).proceed fun t (o, inserted) ↦
      t.checkedHandOutPlaced change o inserted
  | entry k use => (t.checkedEntry k).proceed fun t e ↦ use.checkedExec t e

/-- The call on a table. -/
def Upkeep.checkedExec : Upkeep → Checked (Outcome (Table key) (Report α))
  | clear => t.checkedClear.map fun t ↦ .done t .unit
  | reserve additional => (t.checkedReserve additional).map (Outcome.map · fun _ ↦ .unit)
  | tryReserve additional => (t.checkedTryReserve additional).map (Outcome.map · .reserved)
  | rehash count => (t.checkedRehash count).map (Outcome.map · fun _ ↦ .unit)
  | shrinkToFit => (t.checkedRehash 0).map (Outcome.map · fun _ ↦ .unit)
  | setMaxLoadFactor bits => .pure ((t.setMaxLoadFactor bits).map fun _ ↦ .unit)
  | iter n => (t.checkedWalk n t.cursor).map fun (items, _) ↦ .done t (.items items)
  | drain n leak =>
    (Drain.checkedTake n (Drain.start t)).andThen fun (items, d) ↦
      (if leak then .pure d.leak else d.checkedFinish).map fun t ↦ .done t (.items items)

/-- The table as the call leaves it. -/
def Call.checkedNext : Call σ α κ → Checked (Table key)
  | access a => (a.checkedExec t).map Outcome.state
  | iterMut change n => (t.checkedWalkUpdating change n).map Prod.fst
  | retain visit state => (t.checkedRetain visit state).map Prod.fst
  | upkeep u => (u.checkedExec t).map Outcome.state

end Exec

namespace WellFormed

variable {t : Table key} (h : t.WellFormed)
include h

theorem checkedHandOut {o : Occupant α} (ho : t.Holds o) (change : α → α) :
    Runs (t.checkedHandOut change o) (t.handOut change o) fun _ _ ↦ True :=
  .of_map (h.checkedUpdate ho change) _ (h.update ho change)

theorem checkedHandOutPlaced {o : Occupant α} (ho : t.Holds o) (change : α → α) (inserted : Bool) :
    Runs (t.checkedHandOutPlaced change o inserted) (t.handOutPlaced change o inserted)
      fun _ _ ↦ True :=
  .of_map (h.checkedUpdate ho change) _ (h.update ho change)

/-- **The use of an entry is safe.** -/
theorem checkedUse {entry : Entry α} (hstands : t.Stands entry) (use : EntryUse α) :
    Runs (use.checkedExec t entry) (use.exec t entry) fun _ _ ↦ True := by
  cases use with
  | drop => exact h.runs_done trivial
  | orInsert item change =>
    exact (h.checkedOrInsert hstands item).proceed fun t' o hwell ho ↦
      hwell.checkedHandOut ho change
  | orInsertWith make change =>
    exact (h.checkedOrInsertWith hstands make).proceed fun t' o hwell ho ↦
      hwell.checkedHandOut ho change
  | matched vacant occupied =>
    cases entry with
    | vacant seat =>
      cases vacant with
      | none => exact h.runs_done trivial
      | some offer =>
        exact (Admits.checkedFillChecked hstands offer.1).proceed fun t' o hwell ho ↦
          hwell.checkedHandOut ho offer.2
    | occupied o =>
      cases occupied with
      | none =>
        rw [EntryUse.checkedExec, EntryUse.exec]
        exact .of_map (h.checkedEraseAt hstands) _ (h.eraseAt hstands)
      | some change => exact h.checkedHandOut hstands change

/-- **Every call on one key is safe.** -/
theorem checkedAccess (a : Access α κ) : Runs (a.checkedExec t) (a.exec t) fun _ _ ↦ True := by
  cases a with
  | find k =>
    rw [Access.checkedExec, Access.exec]
    exact .of_map (h.checkedFind k) _ h
  | contains k =>
    rw [Access.checkedExec, Access.exec]
    exact .of_map (h.checkedContains k) _ h
  | modify k change =>
    obtain ⟨hyields, hwell⟩ := h.checkedModify k change
    rw [Access.checkedExec, Access.exec]
    exact .of_map hyields _ hwell
  | erase k =>
    obtain ⟨hyields, hwell⟩ := h.checkedEraseKey k
    rw [Access.checkedExec, Access.exec]
    exact .of_map hyields _ hwell
  | emplace item change =>
    exact (h.checkedEmplace item).proceed fun t' r hwell ho ↦
      hwell.checkedHandOutPlaced ho change r.2
  | tryEmplaceWith k make change =>
    exact (h.checkedTryEmplaceWith k make).proceed fun t' r hwell ho ↦
      hwell.checkedHandOutPlaced ho change r.2
  | entry k use =>
    exact (h.checkedEntry k).proceed fun t' e hwell hstands ↦ hwell.checkedUse hstands use

/-- **Every call on a whole table is safe.** -/
theorem checkedUpkeep (u : Upkeep) : Runs (u.checkedExec t) (u.exec t) fun _ _ ↦ True := by
  cases u with
  | clear =>
    rw [Upkeep.checkedExec, Upkeep.exec]
    exact .of_map h.checkedClear _ h.clear
  | reserve additional => exact (h.checkedReserve additional).map _ fun _ _ _ _ ↦ trivial
  | tryReserve additional => exact (h.checkedTryReserve additional).map _ fun _ _ _ _ ↦ trivial
  | rehash count => exact (h.checkedRehash count).map _ fun _ _ _ _ ↦ trivial
  | shrinkToFit => exact (h.checkedRehash 0).map _ fun _ _ _ _ ↦ trivial
  | setMaxLoadFactor bits => exact ⟨.pure _, h.setMaxLoadFactor bits, fun _ _ ↦ trivial⟩
  | iter n =>
    rw [Upkeep.checkedExec, Upkeep.exec]
    exact .of_map (h.checkedWalk n h.counts_cursor) _ h
  | drain n leak =>
    obtain ⟨hyields, hwell⟩ := Drain.checkedTake_yields n (d := Drain.start t) h
    obtain ⟨hfinish, hfinished⟩ := Drain.checkedFinish_yields hwell
    rw [Upkeep.checkedExec, Upkeep.exec]
    refine .of_yields hyields ?_
    cases leak with
    | true => exact .of_map (.pure _) _ hwell
    | false => exact .of_map hfinish _ hfinished

/-- **Every call of a table is safe**, and leaves the table well-formed. -/
theorem checkedCall (c : Call σ α κ) :
    (c.checkedNext t).Yields (c.next t) ∧ (c.next t).WellFormed := by
  cases c with
  | access a =>
    have hrun := h.checkedAccess a
    exact ⟨hrun.toYields.map _, hrun.wellFormed⟩
  | iterMut change n =>
    obtain ⟨hyields, hwell⟩ := h.checkedWalkUpdating change n
    exact ⟨hyields.map _, hwell⟩
  | retain visit state =>
    obtain ⟨hyields, hwell⟩ := h.checkedRetain visit state
    exact ⟨hyields.map _, hwell⟩
  | upkeep u =>
    have hrun := h.checkedUpkeep u
    exact ⟨hrun.toYields.map _, hrun.wellFormed⟩

end WellFormed

end ProbeWindow.Table
