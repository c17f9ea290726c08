import ProbeWindow.SlotArray

/-!
# Windows: search and displacement

A key is looked for, and placed, inside the window of its home only.

* `search?` compares the candidates of a probe that precede the first empty slot.
* `vacancy?` finds where a new item with a given home goes: before the first resident that is
  closer to its own home than the new item would be. The residents from there to the first empty
  slot move back by one, which is impossible when one of them already has the largest offset.
* `place` writes the new item and moves those residents.

Finding (`vacancy?`) reads only, and placing (`place`) cannot fail; a caller may do something
between the two that may fail, as long as it leaves the slots alone.
-/

namespace ProbeWindow

universe u

/-- Where a new item goes in the window of its home. -/
structure Vacancy where
  /-- The lane of the new item. -/
  steal : Nat
  /-- The first empty lane; the residents of the lanes from `steal` on move back by one. -/
  empty : Nat
deriving DecidableEq, Repr

namespace SlotArray

variable {α : Type u} (s : SlotArray α)

/-- The resident of the window of `home` with the given fragment that passes a test. No key
homed at `home` lies past the first empty slot. -/
def search? (home : Nat) (fragment : UInt8) (test : α → Bool) : Option (Occupant α) :=
  let group := s.group home
  let limit := group.vacant.lowest?.getD windowWidth
  ((group.probe fragment).below limit).lanes.findSome? fun lane ↦
    (s.occupant? (home + lane)).filter fun o ↦ test o.item

/-- The first lane below `empty` whose resident is closer to its home than the lane is to
`home`; `empty` itself when there is none. -/
def stealLane (home empty : Nat) : Nat :=
  ((List.range empty).find? fun lane ↦ decide ((s.tag (home + lane)).offset < lane)).getD empty

/-- Where an item with the given home goes, or `none` when the window is full or a displaced
resident would leave its own window. -/
def vacancy? (home : Nat) : Option Vacancy := do
  let empty ← (s.group home).vacant.lowest?
  let steal := s.stealLane home empty
  if (List.range' steal (empty - steal)).any fun lane ↦
      (s.tag (home + lane)).offset == maxOffset then
    none
  else
    some ⟨steal, empty⟩

/-- The array with the content of a slot copied one slot further from home. -/
def push (index : Nat) : SlotArray α :=
  { s with
    tags := s.tags.setIfInBounds (index + 1) (s.tag index).pushed
    items := s.items.setIfInBounds (index + 1) (s.item? index) }

/-- The array with a run of slots moved back by one, the last of them first. The first slot of
the run keeps a stale copy, for `place` to overwrite. -/
def pushRun (start : Nat) : Nat → SlotArray α → SlotArray α
  | 0, s => s
  | n + 1, s => pushRun start n (s.push (start + n))

/-- The array with a new item written into a vacancy of the window of `home`. -/
def place (home : Nat) (fragment : UInt8) (v : Vacancy) (item : α) : SlotArray α :=
  let index := home + v.steal
  (pushRun index (v.empty - v.steal) s).write index (.encode fragment v.steal) item

@[simp]
theorem capacity_push (index : Nat) : (s.push index).capacity = s.capacity := rfl

@[simp]
theorem capacity_pushRun (start n : Nat) (s : SlotArray α) :
    (pushRun start n s).capacity = s.capacity := by
  induction n generalizing s with
  | zero => rfl
  | succ n ih => simp [pushRun, ih]

@[simp]
theorem capacity_place (home : Nat) (fragment : UInt8) (v : Vacancy) (item : α) :
    (s.place home fragment v item).capacity = s.capacity := by
  simp [place]

end SlotArray

end ProbeWindow
