import ProbeWindow.Table

/-!
# Growth

Items move to another capacity by **relocation**: they are placed, in slot order, into blank
slots of that capacity. When a window of the attempt is full, the attempt is dropped and the next
one has at least twice the capacity. The old slots are only read, so a relocation that does not
succeed has changed nothing.

An insertion **secures a seat** before anything is written: it grows while the table is at its
load threshold or marked, looks for a vacancy in the window of the new item, and, when there is
none, marks the table and grows again. Every growth at least doubles the capacity, so both loops
end within the range of a word.
-/

namespace ProbeWindow

universe u v

/-- A place that was found for a new item: the vacancy, the home whose window has it, and the
mixed hash that it was found for. -/
structure Seat where
  /-- The mixed hash of the item's key. -/
  hash : UInt64
  /-- The home of the item. -/
  home : Nat
  /-- Where the item goes in the window of its home. -/
  vacancy : Vacancy
deriving DecidableEq, Repr

namespace Table

variable {α : Type u} {κ : Type v} [BEq κ] {key : α → κ} (t : Table key)

/-! ### Relocation -/

/-- The slots with a further item placed in them, or `none` when its window has no vacancy. -/
def seat? (slots : SlotArray α) (item : α) : Option (SlotArray α) :=
  let hash := t.setup.hash (key item)
  let home := t.setup.policy.index hash slots.capacity
  (slots.vacancy? home).map fun v ↦ slots.place home (Tag.fragmentOf hash) v item

/-- All items of the table placed in slot order into blank slots of a capacity, or `none` when
some window has no vacancy. -/
def reseat? (capacity : Nat) : Option (SlotArray α) :=
  t.toList.foldlM t.seat? (.blank capacity)

/-- The capacity to try when a window was full. -/
def retryCapacity (capacity : Nat) : Except Fault (Except ReserveError Nat) :=
  match Word.mul? capacity 2 with
  | none => .ok (.error .capacityOverflow)
  | some doubled => (t.setup.policy.capacityFor doubled).map .ok

/-- A retry is at a larger capacity, and is made only while the double fits a word. -/
theorem lt_of_retryCapacity {capacity larger : Nat}
    (h : t.retryCapacity capacity = .ok (.ok larger)) :
    capacity < larger ∧ capacity < Word.bound := by
  unfold retryCapacity at h
  split at h
  · cases h
  · rename_i doubled hdoubled
    obtain ⟨hlt, rfl⟩ := Word.mul?_eq_some_iff.mp hdoubled
    cases hc : t.setup.policy.capacityFor (capacity * 2) with
    | error fault => simp [hc, Except.map] at h
    | ok c =>
      simp only [hc, Except.map, Except.ok.injEq] at h
      obtain ⟨hle, hmin⟩ := t.setup.policy.le_of_capacityFor hc
      simp only [minCapacity] at hmin
      omega

/-- The items in slots of the given capacity, or of the first larger one on the chain of retries
at which every window has room. -/
def relocate (capacity : Nat) : Except Fault (Except ReserveError (SlotArray α)) :=
  match t.setup.block capacity with
  | .error e => .ok (.error e)
  | .ok _ =>
    match t.reseat? capacity with
    | some slots => .ok (.ok slots)
    | none =>
      match _hretry : t.retryCapacity capacity with
      | .error fault => .error fault
      | .ok (.error e) => .ok (.error e)
      | .ok (.ok larger) => relocate larger
termination_by Word.bound - capacity
decreasing_by
  have := t.lt_of_retryCapacity _hretry
  omega

theorem capacity_seat? {slots seated : SlotArray α} {item : α}
    (h : t.seat? slots item = some seated) : seated.capacity = slots.capacity := by
  simp only [seat?, Option.map_eq_some_iff] at h
  obtain ⟨v, _, rfl⟩ := h
  simp

theorem capacity_foldlM_seat? {items : List α} {slots seated : SlotArray α}
    (h : items.foldlM t.seat? slots = some seated) : seated.capacity = slots.capacity := by
  induction items generalizing slots with
  | nil => simp_all
  | cons item items ih =>
    simp only [List.foldlM_cons, Option.bind_eq_bind, Option.bind_eq_some_iff] at h
    obtain ⟨next, hnext, h⟩ := h
    rw [ih h, t.capacity_seat? hnext]

theorem capacity_reseat? {capacity : Nat} {slots : SlotArray α}
    (h : t.reseat? capacity = some slots) : slots.capacity = capacity := by
  simpa using t.capacity_foldlM_seat? h

/-- A relocation never ends below the capacity that it was asked for. -/
theorem le_capacity_relocate {capacity : Nat} {slots : SlotArray α}
    (h : t.relocate capacity = .ok (.ok slots)) : capacity ≤ slots.capacity := by
  fun_induction relocate t capacity with
  | case1 | case3 | case4 => cases h
  | case2 capacity _ _ found hfound =>
    cases h
    exact Nat.le_of_eq (t.capacity_reseat? hfound).symm
  | case5 capacity _ _ _ larger hlarger ih =>
    exact Nat.le_trans (Nat.le_of_lt (t.lt_of_retryCapacity hlarger).1) (ih h)

/-- The table moved to slots of the given capacity, or of a later one on the chain of retries. On
a failure the table is as it was. -/
def resize (capacity : Nat) (reason : ResizeReason) :
    Outcome (Table key) (Except ReserveError Unit) :=
  match t.relocate capacity with
  | .error fault => .fail t fault
  | .ok (.error e) => .done t (.error e)
  | .ok (.ok slots) =>
    { state := { t with slots := slots, rehashPending := false }
      events := [.resized t.capacity slots.capacity t.size reason]
      result := .ok (.ok ()) }

/-- A resize for a call that has no other way to report a reserve error than to end. -/
def resizeOrFail (capacity : Nat) (reason : ResizeReason) : Outcome (Table key) Unit :=
  (t.resize capacity reason).andThen fun t result ↦
    match result with
    | .ok () => .done t ()
    | .error e => .fail t e.toFault

/-! ### Growth -/

/-- The number of slots to ask for when the table grows: twice as many as now, or as many as one
more item needs. -/
def growthTarget? : Option Nat := do
  let doubled ← Word.mul? t.capacity 2
  let size ← Word.add? t.size 1
  let needed ← t.maxLoad.slotsFor? size
  return max doubled needed

/-- The table at a larger capacity. -/
def grow : Outcome (Table key) Unit :=
  match t.growthTarget? with
  | none => .fail t .capacityOverflow
  | some slots =>
    match t.setup.policy.capacityFor slots with
    | .error fault => .fail t fault
    | .ok capacity =>
      t.resizeOrFail capacity (if t.rehashPending then .windowSaturated else .loadFactorReached)

/-- A resize that succeeds ends at the requested capacity or above. -/
theorem le_capacity_resizeOrFail {capacity : Nat} {reason : ResizeReason}
    (h : (t.resizeOrFail capacity reason).result = .ok ()) :
    capacity ≤ (t.resizeOrFail capacity reason).state.capacity := by
  unfold resizeOrFail resize at h ⊢
  split at h
  · cases h
  · cases h
  · rename_i slots hslots
    simpa [hslots, Outcome.andThen, Outcome.done, Table.capacity] using
      t.le_capacity_relocate hslots

/-- A growth that succeeds leaves a strictly larger capacity, and started from one whose double
fits a word. -/
theorem capacity_lt_grow (h : t.grow.result = .ok ()) :
    t.capacity < t.grow.state.capacity ∧ t.capacity < Word.bound := by
  unfold grow at h ⊢
  split at h
  · cases h
  · rename_i slots hslots
    simp only [growthTarget?, Option.bind_eq_bind, Option.bind_eq_some_iff, Option.pure_def,
      Option.some.injEq] at hslots
    obtain ⟨doubled, hdoubled, size, -, needed, -, rfl⟩ := hslots
    obtain ⟨hlt, rfl⟩ := Word.mul?_eq_some_iff.mp hdoubled
    split at h
    · cases h
    · rename_i capacity hcapacity
      obtain ⟨hle, hmin⟩ := t.setup.policy.le_of_capacityFor hcapacity
      have hgrown := t.le_capacity_resizeOrFail h
      have hdouble : t.capacity * 2 ≤ capacity := Nat.le_trans (Nat.le_max_left ..) hle
      simp only [minCapacity] at hmin
      omega

/-! ### Securing a seat -/

/-- The event that a window has no room. -/
def saturatedEvent (home : Nat) : Event := .saturated t.capacity t.size home

/-- The table marked to grow at its next insertion. -/
def markSaturated : Table key := { t with rehashPending := true }

/-- A seat for a hash, with growth until the window of its home has a vacancy. -/
def settle (t : Table key) (hash : UInt64) : Outcome (Table key) Seat :=
  let home := t.home hash
  if hv : (t.slots.vacancy? home).isSome then
    .done t ⟨hash, home, (t.slots.vacancy? home).get hv⟩
  else
    let grown := t.markSaturated.grow
    let events := t.saturatedEvent home :: grown.events
    match _hgrown : grown.result with
    | .error fault => ⟨grown.state, events, .error fault⟩
    | .ok () => (settle grown.state hash).after events
termination_by Word.bound - t.capacity
decreasing_by
  have := t.markSaturated.capacity_lt_grow _hgrown
  simp only [markSaturated, Table.capacity] at this ⊢
  omega

/-- Whether the next insertion grows the table before it looks for a vacancy. -/
def mustGrow : Bool := t.rehashPending || t.maxSize ≤ t.size

/-- A seat for an item with the given mixed hash whose key the table does not hold. The seat is
good until the slots change. -/
def secure (hash : UInt64) : Outcome (Table key) Seat :=
  if t.mustGrow then
    t.grow.andThen fun t () ↦ t.settle hash
  else
    t.settle hash

end Table

end ProbeWindow
