import ProbeWindow.Proofs.Table.Insertion
import ProbeWindow.Proofs.Table.Retention
import ProbeWindow.Proofs.Table.Upkeep
import ProbeWindow.Set

/-!
# The calls of a set

Everything that a user of a set can do with it, as data, and what each call on one item does
(`HashSet.Access.act`). A user gets to see stored items and cannot change them, so there is nothing
to assume of a call.

Equal items may differ, and the acts say which of them is stored: all insertions keep the item that
is there, except `replace`, which stores its own. Every call on one item serves it by its act, or is
refused (`Sound.handles_set`).
-/

namespace ProbeWindow

universe u v w

variable {κ : Type u} {σ : Type w} [BEq κ]

open Contents Table

namespace HashSet

/-! ### Calls -/

/-- What a call of a set answers. -/
inductive Reply (σ : Type w) (κ : Type u) where
  /-- Nothing. -/
  | unit
  /-- Whether there is an item, or there was none. -/
  | flag (b : Bool)
  /-- A number of items. -/
  | count (n : Nat)
  /-- A stored item. -/
  | item (a : κ)
  /-- A stored item, if there is one. -/
  | item? (a : Option κ)
  /-- The stored item, and whether it is the new one. -/
  | placed (a : κ) (inserted : Bool)
  /-- The state of a predicate after all visits. -/
  | state (s : σ)
  /-- The report of a call on the whole set. -/
  | report (r : Report κ)
deriving DecidableEq

/-- A call on one item. -/
inductive Access (κ : Type u) where
  /-- Tells whether there is an equal item. -/
  | contains (k : κ)
  /-- Tells how many equal items there are. -/
  | count (k : κ)
  /-- Looks an equal item up. -/
  | get (k : κ)
  /-- Inserts the item, and tells whether there was no equal one. -/
  | insert (k : κ)
  /-- Inserts the item, and looks up which one is stored. -/
  | emplace (k : κ)
  /-- Looks an equal item up, which is the item itself when there is none. -/
  | getOrInsert (k : κ)
  /-- Looks an equal item up, which is one that is built when there is none. -/
  | getOrInsertWith (k : κ) (make : κ → Except Fault κ)
  /-- Stores the item in place of an equal one. -/
  | replace (k : κ)
  /-- Removes an equal item, and tells whether there was one. -/
  | remove (k : κ)
  /-- Takes an equal item out. -/
  | take (k : κ)

/-- The item of a call. -/
def Access.keyOf : Access κ → κ
  | contains k | count k | get k | insert k | emplace k | getOrInsert k | getOrInsertWith k _
  | replace k | remove k | take k => k

/-- The call on a set. -/
def Access.exec (s : HashSet κ) : Access κ → Outcome (HashSet κ) (Reply σ κ)
  | contains k => .done s (.flag (Table.contains s k))
  | count k => .done s (.count (s.countPresent [k]))
  | get k => .done s (.item? (s.find? k))
  | insert k => (HashSet.insert s k).map .flag
  | emplace k => (Table.emplace s k).map fun (o, inserted) ↦ .placed o.item inserted
  | getOrInsert k => (HashSet.getOrInsert s k).map .item
  | getOrInsertWith k make => (HashSet.getOrInsertWith s k make).map .item
  | replace k => (HashSet.replace s k).map .item?
  | remove k =>
    match s.erase k with
    | (s, item) => .done s (.flag item.isSome)
  | take k =>
    match s.erase k with
    | (s, item) => .done s (.item? item)

/-- A call of a set. -/
inductive Call (σ : Type w) (κ : Type u) where
  /-- A call on one item. -/
  | access (a : Access κ)
  /-- Inserts the items that are absent, and counts them. -/
  | insertMany (items : List κ) (hint : Nat)
  /-- Inserts the items that are absent. -/
  | extend (items : List κ) (hint : Nat)
  /-- Keeps the items that a predicate accepts. -/
  | retain (keep : σ → κ → σ × Except Fault Bool) (state : σ)
  /-- A call on the whole set. -/
  | upkeep (u : Upkeep)

/-- A visit that leaves its item as it is. -/
def visitItem (keep : σ → κ → σ × Except Fault Bool) (s : σ) (a : κ) : Visit σ κ :=
  ⟨(keep s a).1, a, (keep s a).2⟩

/-- The call on a set. -/
def Call.exec (s : HashSet κ) : Call σ κ → Outcome (HashSet κ) (Reply σ κ)
  | access a => a.exec s
  | insertMany items hint => (HashSet.insertMany s items hint).map .count
  | extend items hint => (HashSet.extend s items hint).map fun () ↦ .unit
  | retain keep state =>
    match s.retain (visitItem keep) state with
    | (s, state, result) => ⟨s, [], result.map fun () ↦ .state state⟩
  | upkeep u => (u.exec s).map .report

/-- The set as the call leaves it, also when the call ends with a fault. -/
def Call.next (s : HashSet κ) (c : Call σ κ) : HashSet κ := (c.exec s).state

/-! ### Acts -/

/-- **What a call on one item does** to a set of representatives. -/
def Access.act : Access κ → Act κ (Reply σ κ)
  | contains _, old => (old, .ok (.flag old.isSome))
  | count _, old => (old, .ok (.count old.toList.length))
  | get _, old => (old, .ok (.item? old))
  | insert k, old => (some (old.getD k), .ok (.flag old.isNone))
  | emplace k, old => (some (old.getD k), .ok (.placed (old.getD k) old.isNone))
  | getOrInsert k, old => (some (old.getD k), .ok (.item (old.getD k)))
  | getOrInsertWith _ _, some a => (some a, .ok (.item a))
  | getOrInsertWith k make, none =>
    match built id k fun () ↦ make k with
    | .error fault => (none, .error fault)
    | .ok a => (some a, .ok (.item a))
  | replace k, old => (some k, .ok (.item? old))
  | remove _, old => (none, .ok (.flag old.isSome))
  | take _, old => (none, .ok (.item? old))

end HashSet

/-! ### Service -/

namespace Table

variable {s : HashSet κ}

open HashSet

/-- **An insertion keeps the item that is there.** The result is told by the stored item and whether
it is the new one. -/
theorem Sound.handles_emplace {ρ : Type v} (h : s.Sound) (k : κ) (f : κ → Bool → ρ) :
    Handles s k (fun old ↦ (some (old.getD k), .ok (f (old.getD k) old.isNone)))
      ((Table.emplace s k).map fun p ↦ f p.1.item p.2) := by
  rcases h.emplace_cases k with ⟨o, heq, hfound⟩ |
    ⟨hnone, hhouse, s', events, o, heq, rfl, hadded⟩ | ⟨s', events, fault, heq, hrehoused, habsent⟩
  · rw [heq]
    exact .inl (Found.serves_keep (k := k) hfound h rfl)
  · rw [heq]
    exact .inl (hadded.serves hhouse hnone rfl)
  · rw [heq]
    exact .inr ⟨habsent, hrehoused, fault, rfl⟩

/-- **A call on one item of a set serves it by its act, or is refused.** -/
theorem Sound.handles_set (h : s.Sound) (a : HashSet.Access κ) :
    Handles s a.keyOf (a.act (σ := σ)) (a.exec s) := by
  cases a with
  | contains k => exact .inl (h.serves_keep (by rw [h.contains_eq]; rfl))
  | count k => exact .inl (h.serves_keep (by rw [h.countPresent_singleton]; rfl))
  | get k => exact .inl (h.serves_keep (by rw [h.find?_eq]; rfl))
  | insert k =>
    rw [HashSet.Access.exec, HashSet.insert, Outcome.map_map]
    exact h.handles_emplace k fun _ inserted ↦ Reply.flag inserted
  | emplace k => exact h.handles_emplace k Reply.placed
  | getOrInsert k =>
    rw [HashSet.Access.exec, HashSet.getOrInsert, Outcome.map_map]
    exact h.handles_emplace k fun item _ ↦ Reply.item item
  | getOrInsertWith k make =>
    show Handles s k _ _
    rw [HashSet.Access.exec, HashSet.getOrInsertWith]
    rcases h.tryEmplaceWith_cases k fun () ↦ make k with ⟨o, heq, hfound⟩ |
      ⟨hnone, ⟨s', events, o, heq, hbuilt, hhouse, hadded⟩ |
        ⟨s', events, fault, heq, hbuilt, hrehoused⟩ | ⟨s', events, fault, heq, hrehoused⟩⟩
    · rw [heq]
      exact .inl (hfound.serves_keep h rfl)
    · rw [heq]
      exact .inl (hadded.serves hhouse hnone (by simp only [HashSet.Access.act, hbuilt]; rfl))
    · rw [heq]
      exact .inl (hrehoused.serves hnone (by simp only [HashSet.Access.act, hbuilt]; rfl))
    · rw [heq]
      exact .inr (hrehoused.refused hnone fault _)
  | replace k =>
    have hput : Handles s k _ (HashSet.replace s k) := h.handles_put k (fun _ ↦ k) k
      (fun a ha ↦ (s.setup.hash_congr (key_of_lookup ha)).symm) rfl (fun old ↦ old)
      (fun _ _ ↦ rfl) fun _ _ ↦ rfl
    exact hput.map _ (Prod.ext (by cases lookup id s.toList k <;> rfl) rfl)
  | remove k => exact h.handles_erase k fun item ↦ Reply.flag item.isSome
  | take k => exact h.handles_erase k Reply.item?

end Table

end ProbeWindow
