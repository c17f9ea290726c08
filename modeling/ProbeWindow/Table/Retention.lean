import ProbeWindow.Table

/-!
# Retention

`retain` goes through the items in slot order and keeps those that a predicate accepts. The
predicate may change the item that it looks at, may carry a state of its own from visit to visit,
and may fail. A rejected item is removed by a backward shift, which moves the next unvisited item
into the slot just visited, so the slot is looked at again and every item is visited once.
-/

namespace ProbeWindow

universe u v w

/-- What a predicate did with one item. -/
structure Visit (σ : Type w) (α : Type u) where
  /-- The state of the predicate after the visit. -/
  state : σ
  /-- The item after the visit. -/
  item : α
  /-- Whether the item is kept, or why the visit failed. -/
  verdict : Except Fault Bool

namespace Table

variable {α : Type u} {κ : Type v} {σ : Type w} [BEq κ] {key : α → κ}

/-- Retention from a slot on. -/
def retainFrom (visit : σ → α → Visit σ α) (t : Table key) (index : Nat) (state : σ) :
    Table key × σ × Except Fault Unit :=
  if index < t.slots.slotCount ∧ t.size ≠ 0 then
    match t.slots.item? index with
    | none => retainFrom visit t (index + 1) state
    | some item =>
      let v := visit state item
      let updated : Table key := { t with slots := t.slots.setItem index v.item }
      match v.verdict with
      | .error fault => (updated, v.state, .error fault)
      | .ok true => retainFrom visit updated (index + 1) v.state
      | .ok false => retainFrom visit (updated.eraseAt index) index v.state
  else
    (t, state, .ok ())
termination_by (t.slots.slotCount - index) + t.size
decreasing_by
  · omega
  · simp only [SlotArray.slotCount_setItem]
    omega
  · simp only [slotCount_eraseAt, SlotArray.slotCount_setItem]
    simp only [eraseAt]
    omega

/-- Keeps the items that a predicate accepts. The result has the predicate's final state and, when
a visit failed, its fault; the items from that visit on are still there. -/
def retain (t : Table key) (visit : σ → α → Visit σ α) (state : σ) :
    Table key × σ × Except Fault Unit :=
  retainFrom visit t 0 state

end Table

end ProbeWindow
