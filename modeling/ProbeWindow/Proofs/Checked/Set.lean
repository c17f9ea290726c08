import ProbeWindow.Proofs.Checked.Calls
import ProbeWindow.Proofs.Set.Calls

/-!
# The calls of a set, step by step

A set adds to a table the exchange of a stored item by an equal one, and nothing else that touches
slots.
-/

namespace ProbeWindow.HashSet

universe u v

variable {κ : Type u} {σ : Type v} [BEq κ]

open Table

section Exec

variable (s : HashSet κ)

/-- Stores an item in place of an equal one, or inserts it. -/
def checkedReplace (item : κ) : Checked (Outcome (HashSet κ) (Option κ)) :=
  (s.checkedEntry item).proceed fun s entry ↦
    match entry with
    | .occupied o => (s.checkedUpdate o fun _ ↦ item).map fun (s, _) ↦ .done s (some o.item)
    | .vacant seat => (s.checkedFill seat item).map (Outcome.map · fun _ ↦ none)

/-- The call on a set. -/
def Access.checkedExec : Access κ → Checked (Outcome (HashSet κ) (Reply σ κ))
  | contains k => (s.checkedContains k).map fun present ↦ .done s (.flag present)
  | count k => (s.checkedCountPresent [k]).map fun n ↦ .done s (.count n)
  | get k => (s.checkedFind k).map fun item ↦ .done s (.item? item)
  | insert k => (s.checkedEmplace k).map (Outcome.map · fun (_, inserted) ↦ .flag inserted)
  | emplace k =>
    (s.checkedEmplace k).map (Outcome.map · fun (o, inserted) ↦ .placed o.item inserted)
  | getOrInsert k => (s.checkedEmplace k).map (Outcome.map · fun (o, _) ↦ .item o.item)
  | getOrInsertWith k make =>
    (s.checkedTryEmplaceWith k fun () ↦ make k).map (Outcome.map · fun (o, _) ↦ .item o.item)
  | replace k => (checkedReplace s k).map (Outcome.map · .item?)
  | remove k => (s.checkedEraseKey k).map fun (s, item) ↦ .done s (.flag item.isSome)
  | take k => (s.checkedEraseKey k).map fun (s, item) ↦ .done s (.item? item)

/-- Inserts the items that are absent, after making room. -/
def checkedInsertMany (items : List κ) (room : Nat) : Checked (Outcome (HashSet κ) Nat) :=
  (s.checkedReserve room).proceed fun s () ↦ s.checkedEmplaceEach 0 items

/-- The call on a set. -/
def Call.checkedExec : Call σ κ → Checked (Outcome (HashSet κ) (Reply σ κ))
  | access a => a.checkedExec s
  | insertMany items hint => (checkedInsertMany s items hint).map (Outcome.map · .count)
  | extend items hint =>
    (checkedInsertMany s items (if s.isEmpty then hint else (hint + 1) / 2)).map
      (Outcome.map · fun _ ↦ .unit)
  | retain keep state =>
    (s.checkedRetain (visitItem keep) state).map fun (s, state, result) ↦
      ⟨s, [], result.map fun () ↦ .state state⟩
  | upkeep u => (u.checkedExec s).map (Outcome.map · .report)

end Exec

section Safety

variable {s : HashSet κ} (h : s.WellFormed)
include h

/-- **Replacing an item is safe.** -/
theorem runs_replace (item : κ) :
    Runs (checkedReplace s item) (replace s item) fun _ _ ↦ True := by
  refine (h.checkedEntry item).proceed fun s' entry hwell hstands ↦ ?_
  cases entry with
  | occupied o =>
    exact .of_map (hwell.checkedUpdate hstands _) _ (hwell.update hstands fun _ ↦ item)
  | vacant seat => exact (Admits.checkedFill hstands item).map _ fun _ _ _ _ ↦ trivial

theorem runs_insertMany (items : List κ) (room : Nat) :
    Runs (checkedInsertMany s items room)
      ((Table.reserve s room).andThen fun s () ↦ s.emplaceEach 0 items) fun _ _ ↦ True :=
  (h.checkedReserve room).proceed fun _ _ hwell _ ↦ hwell.checkedEmplaceEach 0 items

/-- **Every call of a set on one item is safe.** -/
theorem runs_access (a : Access κ) :
    Runs (a.checkedExec (σ := σ) s) (a.exec s) fun _ _ ↦ True := by
  cases a with
  | contains k =>
    rw [Access.checkedExec, Access.exec]
    exact .of_map (h.checkedContains k) _ h
  | count k =>
    rw [Access.checkedExec, Access.exec]
    exact .of_map (h.checkedCountPresent [k]) _ h
  | get k =>
    rw [Access.checkedExec, Access.exec]
    exact .of_map (h.checkedFind k) _ h
  | insert k =>
    rw [Access.checkedExec, Access.exec, HashSet.insert, Outcome.map_map]
    exact (h.checkedEmplace k).map _ fun _ _ _ _ ↦ trivial
  | emplace k => exact (h.checkedEmplace k).map _ fun _ _ _ _ ↦ trivial
  | getOrInsert k =>
    rw [Access.checkedExec, Access.exec, HashSet.getOrInsert, Outcome.map_map]
    exact (h.checkedEmplace k).map _ fun _ _ _ _ ↦ trivial
  | getOrInsertWith k make =>
    rw [Access.checkedExec, Access.exec, HashSet.getOrInsertWith, Outcome.map_map]
    exact (h.checkedTryEmplaceWith k _).map _ fun _ _ _ _ ↦ trivial
  | replace k => exact (runs_replace h k).map _ fun _ _ _ _ ↦ trivial
  | remove k =>
    obtain ⟨hyields, hwell⟩ := h.checkedEraseKey k
    rw [Access.checkedExec, Access.exec]
    exact .of_map hyields _ hwell
  | take k =>
    obtain ⟨hyields, hwell⟩ := h.checkedEraseKey k
    rw [Access.checkedExec, Access.exec]
    exact .of_map hyields _ hwell

/-- **Every call of a set is safe**, and leaves the set well-formed. -/
theorem runs_call (c : Call σ κ) : Runs (c.checkedExec s) (c.exec s) fun _ _ ↦ True := by
  cases c with
  | access a => exact runs_access h a
  | insertMany items hint => exact (runs_insertMany h items hint).map _ fun _ _ _ _ ↦ trivial
  | extend items hint =>
    rw [Call.checkedExec, Call.exec, HashSet.extend, Outcome.andThen_map, Outcome.map_map]
    exact (runs_insertMany h items _).map _ fun _ _ _ _ ↦ trivial
  | retain keep state =>
    obtain ⟨hyields, hwell⟩ := h.checkedRetain (visitItem keep) state
    rw [Call.checkedExec, Call.exec]
    exact .of_map hyields _ hwell
  | upkeep u => exact (h.checkedUpkeep u).map _ fun _ _ _ _ ↦ trivial

end Safety

end ProbeWindow.HashSet
