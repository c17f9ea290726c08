import ProbeWindow.Proofs.Checked.Table
import ProbeWindow.Proofs.Checked.Walk
import ProbeWindow.Proofs.Table.Growth

/-!
# Growth, step by step

A relocation reads the occupied slots of the old block one after the other and places their items
into a block of its own, so it may stop at any item. A seat is looked for in a loop that grows the
table until there is one; the loop is given as many steps as there are capacities left, and it is
part of its safety that it ends within them.
-/

namespace ProbeWindow.Table

universe u v

variable {α : Type u} {κ : Type v} [BEq κ] {key : α → κ}

/-! ### Relocation -/

section Relocation

variable (t : Table key)

/-- The slots with a further item placed in them, or `none` when its window has no vacancy. -/
def checkedSeat (slots : SlotArray α) (item : α) : Checked (Option (SlotArray α)) :=
  let hash := t.setup.hash (key item)
  (t.setup.checkedHome hash slots.capacity).andThen fun home ↦
    (slots.checkedVacancy home).andThen fun vacancy ↦
      match vacancy with
      | none => .pure none
      | some v => (slots.checkedPlace home (Tag.fragmentOf hash) v item).map some

/-- The items of some slots of the table, placed into other slots. -/
def checkedReseat : List Nat → SlotArray α → Checked (Option (SlotArray α))
  | [], slots => .pure (some slots)
  | index :: indices, slots =>
    (t.slots.checkedOccupied index).andThen fun occupied ↦
      if occupied then
        (t.slots.checkedItem index).andThen fun item ↦
          match item with
          | none => checkedReseat indices slots
          | some a =>
            (t.checkedSeat slots a).andThen fun seated ↦
              match seated with
              | none => .pure none
              | some slots => checkedReseat indices slots
      else
        checkedReseat indices slots

/-- The items in slots of the given capacity, which must not be zero, or of the first larger one at
which every window has room. -/
def checkedRelocate (capacity : Nat) : Checked (Except Fault (Except ReserveError (SlotArray α))) :=
  .require (0 < capacity) <|
    match t.setup.block capacity with
    | .error e => .pure (.ok (.error e))
    | .ok _ =>
      (t.checkedReseat (List.range t.slots.slotCount) (.blank capacity)).andThen fun found ↦
        match found with
        | some slots => .pure (.ok (.ok slots))
        | none =>
          match _hretry : t.retryCapacity capacity with
          | .error fault => .pure (.error fault)
          | .ok (.error e) => .pure (.ok (.error e))
          | .ok (.ok larger) => checkedRelocate larger
termination_by Word.bound - capacity
decreasing_by
  have := t.lt_of_retryCapacity _hretry
  omega

/-- The table moved to slots of the given capacity, or of a later one on the chain of retries. -/
def checkedResize (capacity : Nat) (reason : ResizeReason) :
    Checked (Outcome (Table key) (Except ReserveError Unit)) :=
  (t.checkedRelocate capacity).map fun relocated ↦
    match relocated with
    | .error fault => .fail t fault
    | .ok (.error e) => .done t (.error e)
    | .ok (.ok slots) =>
      { state := { t with slots := slots, rehashPending := false }
        events := [.resized t.capacity slots.capacity t.size reason]
        result := .ok (.ok ()) }

/-- A resize for a call that has no other way to report a reserve error than to end. -/
def checkedResizeOrFail (capacity : Nat) (reason : ResizeReason) :
    Checked (Outcome (Table key) Unit) :=
  (t.checkedResize capacity reason).proceed fun t result ↦
    match result with
    | .ok () => .pure (.done t ())
    | .error e => .pure (.fail t e.toFault)

/-- The table at a larger capacity. -/
def checkedGrow : Checked (Outcome (Table key) Unit) :=
  match t.growthTarget? with
  | none => .pure (.fail t .capacityOverflow)
  | some slots =>
    match t.setup.policy.capacityFor slots with
    | .error fault => .pure (.fail t fault)
    | .ok capacity =>
      t.checkedResizeOrFail capacity
        (if t.rehashPending then .windowSaturated else .loadFactorReached)

end Relocation

variable {t : Table key}

/-- A seated item leaves the slots in form. -/
theorem checkedSeat_yields {slots : SlotArray α} (f : slots.Formed)
    (hoff : t.setup.Offers slots.capacity) (item : α) :
    (t.checkedSeat slots item).Yields (t.seat? slots item) ∧
      ∀ seated, t.seat? slots item = some seated →
        seated.Formed ∧ seated.toList.Perm (item :: slots.toList) := by
  have hhome := hoff.index_lt (t.setup.hash (key item))
  have hfragment := Tag.fragmentOf_lt (t.setup.hash (key item))
  constructor
  · rw [checkedSeat]
    refine (hoff.checkedHome _).andThen ?_
    refine (f.checkedVacancy hhome).andThen ?_
    rw [seat?]
    cases hv : slots.vacancy? (t.setup.policy.index (t.setup.hash (key item)) slots.capacity) with
    | none => exact .pure _
    | some v => exact (f.checkedPlace (f.gap hhome hv) hfragment item).map _
  · intro seated hseated
    obtain ⟨v, hv, rfl⟩ := Option.map_eq_some_iff.mp hseated
    have gap := f.gap hhome hv
    exact ⟨f.place gap hfragment item, SlotArray.toList_place_perm gap.steal_le
      gap.empty_lt_slotCount gap.vacant _ item⟩

/-- **Items of the table are seated safely**, and each of them is there once. -/
theorem checkedReseat_yields (h : t.slots.Formed) {slots : SlotArray α} (f : slots.Formed)
    (hoff : t.setup.Offers slots.capacity) (indices : List Nat)
    (hi : ∀ i ∈ indices, i < t.slots.slotCount) :
    (t.checkedReseat indices slots).Yields
        ((indices.filterMap t.slots.item?).foldlM t.seat? slots) ∧
      ∀ seated, (indices.filterMap t.slots.item?).foldlM t.seat? slots = some seated →
        seated.Formed ∧ seated.toList.Perm (indices.filterMap t.slots.item? ++ slots.toList) := by
  induction indices generalizing slots with
  | nil =>
    refine ⟨.pure _, fun seated hseated ↦ ?_⟩
    cases hseated
    exact ⟨f, .refl _⟩
  | cons index indices ih =>
    have hlt := hi index List.mem_cons_self
    have hrest := fun i hmem ↦ hi i (List.mem_cons_of_mem _ hmem)
    have hoccupied := h.checkedOccupied hlt
    cases ha : t.slots.item? index with
    | none =>
      rw [h.not_isOccupied hlt ha] at hoccupied
      rw [List.filterMap_cons, ha]
      obtain ⟨hyields, hspec⟩ := ih f hoff hrest
      exact ⟨hoccupied.andThen hyields, hspec⟩
    | some a =>
      rw [h.isOccupied_of_item index a ha] at hoccupied
      obtain ⟨hseat, hseated⟩ := checkedSeat_yields f hoff a
      rw [List.filterMap_cons, ha]
      simp only [List.foldlM_cons, Option.bind_eq_bind]
      cases hnext : t.seat? slots a with
      | none =>
        rw [hnext] at hseat
        refine ⟨hoccupied.andThen ?_, nofun⟩
        rw [if_pos rfl]
        exact (h.checkedItem ha).andThen (hseat.andThen (.pure _))
      | some next =>
        rw [hnext] at hseat
        obtain ⟨hform, hperm⟩ := hseated next hnext
        obtain ⟨hyields, hspec⟩ := ih hform (by rwa [t.capacity_seat? hnext]) hrest
        refine ⟨hoccupied.andThen ?_, fun seated h' ↦ ?_⟩
        · rw [if_pos rfl]
          exact (h.checkedItem ha).andThen (hseat.andThen hyields)
        · obtain ⟨hform', hperm'⟩ := hspec seated h'
          exact ⟨hform', (hperm'.trans (hperm.append_left _)).trans List.perm_middle⟩

/-- **A relocation is safe.** What it returns has all items in slots in form, at a capacity that the
policy offers. -/
theorem WellFormed.checkedRelocate (h : t.WellFormed) {capacity : Nat}
    (hoff : t.setup.Offers capacity) :
    (t.checkedRelocate capacity).Yields (t.relocate capacity) ∧
      ∀ slots, t.relocate capacity = .ok (.ok slots) →
        slots.Formed ∧ slots.toList.Perm t.toList ∧ t.setup.Offers slots.capacity ∧
          slots.capacity + maxOffset + windowWidth < Word.bound := by
  have hreseat : ∀ {capacity}, t.setup.Offers capacity →
      (t.checkedReseat (List.range t.slots.slotCount) (.blank capacity)).Yields
          (t.reseat? capacity) ∧
        ∀ seated, t.reseat? capacity = some seated →
          seated.Formed ∧ seated.toList.Perm t.toList := fun {capacity} hoff ↦ by
    rw [reseat?, toList, SlotArray.toList_eq_filterMap]
    rcases h with h | h
    · rw [h.slots_eq]
      refine ⟨.pure _, fun seated hseated ↦ ?_⟩
      cases hseated
      exact ⟨SlotArray.formed_blank capacity, .of_eq (SlotArray.toList_blank capacity)⟩
    · have hspec := checkedReseat_yields h.formed (SlotArray.formed_blank capacity) hoff
        (List.range t.slots.slotCount) fun i hi ↦ List.mem_range.mp hi
      rwa [SlotArray.toList_blank, List.append_nil] at hspec
  fun_induction relocate t capacity with
  | case1 capacity e hblock =>
    rw [Table.checkedRelocate, hblock]
    exact ⟨.require hoff.pos (.pure _), fun slots hslots ↦ by cases hslots⟩
  | case2 capacity block hblock found hfound =>
    obtain ⟨hyields, hspec⟩ := hreseat hoff
    rw [hfound] at hyields
    rw [Table.checkedRelocate, hblock]
    refine ⟨.require hoff.pos (hyields.andThen (.pure _)), fun slots hslots ↦ ?_⟩
    cases hslots
    obtain ⟨hform, hperm⟩ := hspec found hfound
    have hcapacity := t.capacity_reseat? hfound
    exact ⟨hform, hperm, by rwa [hcapacity], by rw [hcapacity]; exact Setup.lt_of_block hblock⟩
  | case3 capacity block hblock hfound fault hretry =>
    obtain ⟨hyields, -⟩ := hreseat hoff
    rw [hfound] at hyields
    rw [Table.checkedRelocate, hblock]
    refine ⟨.require hoff.pos (hyields.andThen ?_), fun slots hslots ↦ by cases hslots⟩
    dsimp only
    split <;> rename_i heq <;> rw [hretry] at heq <;> cases heq
    exact .pure _
  | case4 capacity block hblock hfound e hretry =>
    obtain ⟨hyields, -⟩ := hreseat hoff
    rw [hfound] at hyields
    rw [Table.checkedRelocate, hblock]
    refine ⟨.require hoff.pos (hyields.andThen ?_), fun slots hslots ↦ by cases hslots⟩
    dsimp only
    split <;> rename_i heq <;> rw [hretry] at heq <;> cases heq
    exact .pure _
  | case5 capacity block hblock hfound larger hretry ih =>
    obtain ⟨hyields, -⟩ := hreseat hoff
    obtain ⟨hretried, hspec⟩ := ih (offers_of_retryCapacity hretry)
    rw [hfound] at hyields
    rw [Table.checkedRelocate, hblock]
    refine ⟨.require hoff.pos (hyields.andThen ?_), hspec⟩
    dsimp only
    split <;> rename_i heq <;> rw [hretry] at heq <;> cases heq
    exact hretried

/-- **A resize is safe**, and leaves slots behind when it succeeds. -/
theorem WellFormed.checkedResize (h : t.WellFormed) {capacity : Nat}
    (hoff : t.setup.Offers capacity) (reason : ResizeReason) :
    Runs (t.checkedResize capacity reason) (t.resize capacity reason)
      fun t' result ↦ result = .ok () → t'.Allocated := by
  obtain ⟨hyields, hspec⟩ := h.checkedRelocate hoff
  rw [Table.checkedResize, resize]
  rcases hrelocated : t.relocate capacity with fault | e | slots
  · rw [hrelocated] at hyields
    exact ⟨hyields.map _, h, fun r hr ↦ by cases hr⟩
  · rw [hrelocated] at hyields
    exact ⟨hyields.map _, h, fun r hr hok ↦ by cases hr; cases hok⟩
  · rw [hrelocated] at hyields
    obtain ⟨hform, hperm, hoff', hlt⟩ := hspec slots hrelocated
    have ha : ({ t with slots := slots, rehashPending := false } : Table key).Allocated :=
      ⟨hform, hoff', h.size_eq.trans hperm.length_eq.symm, hlt⟩
    exact ⟨hyields.map _, .inr ha, fun _ _ _ ↦ ha⟩

theorem WellFormed.checkedResizeOrFail (h : t.WellFormed) {capacity : Nat}
    (hoff : t.setup.Offers capacity) (reason : ResizeReason) :
    Runs (t.checkedResizeOrFail capacity reason) (t.resizeOrFail capacity reason)
      fun t' _ ↦ t'.Allocated := by
  refine (h.checkedResize hoff reason).proceed fun t' result hwell hpost ↦ ?_
  cases result with
  | ok => exact hwell.runs_done (hpost rfl)
  | error e => exact hwell.runs_fail _

/-- **A growth is safe.** -/
theorem WellFormed.checkedGrow (h : t.WellFormed) :
    Runs t.checkedGrow t.grow fun t' _ ↦ t'.Allocated := by
  rw [Table.checkedGrow, grow]
  cases t.growthTarget? with
  | none => exact h.runs_fail _
  | some slots =>
    cases hcapacity : t.setup.policy.capacityFor slots with
    | error fault =>
      simp only [hcapacity]
      exact h.runs_fail _
    | ok capacity =>
      simp only [hcapacity]
      exact h.checkedResizeOrFail ⟨slots, hcapacity⟩ _

/-! ### Securing a seat -/

/-- A seat for a hash, with at most so many looks for a vacancy. -/
def checkedSettle : Nat → Table key → UInt64 → Checked (Outcome (Table key) Seat)
  | 0, t, _ => .endless (.fail t .capacityOverflow)
  | n + 1, t, hash =>
    (t.setup.checkedHome hash t.capacity).andThen fun home ↦
      (t.slots.checkedVacancy home).andThen fun vacancy ↦
        match vacancy with
        | some v => .pure (.done t ⟨hash, home, v⟩)
        | none =>
          (t.markSaturated.checkedGrow.proceed fun t () ↦ checkedSettle n t hash).map
            (Outcome.after [t.saturatedEvent home])

/-- A seat for an item with the given mixed hash. Every growth is to a larger capacity, and there
are not more capacities than words. -/
def checkedSecure (t : Table key) (hash : UInt64) : Checked (Outcome (Table key) Seat) :=
  if t.mustGrow then
    t.checkedGrow.proceed fun t () ↦ checkedSettle (Word.bound - t.capacity + 1) t hash
  else
    checkedSettle (Word.bound - t.capacity + 1) t hash

/-- A seat has a gap in the window of a home. -/
structure Admits (t : Table key) (seat : Seat) : Prop where
  /-- There are slots. -/
  allocated : t.Allocated
  /-- The gap. -/
  gap : SlotArray.Gap t.slots seat.home seat.vacancy

/-- **Settling is safe**, and ends within as many steps as there are capacities left. -/
theorem Allocated.checkedSettle {t : Table key} (h : t.Allocated) (hash : UInt64) {n : Nat}
    (hn : Word.bound - t.capacity < n) :
    Runs (checkedSettle n t hash) (t.settle hash) Admits := by
  induction n generalizing t with
  | zero => omega
  | succ n ih =>
    have hhome := h.offered.checkedHome hash
    have hvacancy := h.formed.checkedVacancy (h.home_lt hash)
    rw [Table.checkedSettle, settle_eq]
    refine .of_yields hhome (.of_yields hvacancy ?_)
    rw [show t.setup.policy.index hash t.capacity = t.home hash from rfl]
    cases hv : t.slots.vacancy? (t.home hash) with
    | some v => exact WellFormed.runs_done (.inr h) ⟨h, h.formed.gap (h.home_lt hash) hv⟩
    | none =>
      have hgrow := WellFormed.checkedGrow (t := t.markSaturated) (.mark (.inr h) true)
      have hlarger : Runs t.markSaturated.checkedGrow t.markSaturated.grow
          fun t' _ ↦ t'.Allocated ∧ t.capacity < t'.capacity ∧ t.capacity < Word.bound :=
        ⟨hgrow.toYields, hgrow.wellFormed,
          fun r hr ↦ ⟨hgrow.result r hr, t.markSaturated.capacity_lt_grow hr⟩⟩
      exact (hlarger.proceed fun t' _ _ ⟨ha, hlt, hword⟩ ↦ ih ha (by omega)).after _

/-- **Securing a seat is safe**, and the seat has a gap. -/
theorem WellFormed.checkedSecure (h : t.WellFormed) (hash : UInt64) :
    Runs (t.checkedSecure hash) (t.secure hash) Admits := by
  rw [Table.checkedSecure, secure]
  split
  · exact h.checkedGrow.proceed fun t' _ _ ha ↦ ha.checkedSettle hash (Nat.lt_succ_self _)
  -- a table that need not grow is below its largest size, so it has slots
  · next hmust =>
    have hpos : 0 < t.capacity :=
      Nat.zero_lt_of_lt (size_lt_of_mustGrow (eq_false_of_ne_true hmust))
    exact (h.allocated hpos).checkedSettle hash (Nat.lt_succ_self _)

end ProbeWindow.Table
