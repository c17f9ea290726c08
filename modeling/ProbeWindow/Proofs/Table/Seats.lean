import ProbeWindow.Proofs.Table.Climbing
import ProbeWindow.Proofs.Table.Frame

/-!
# Calls that secure a seat

What a call on one key does to the slots, the mark and the reports is settled once its key has been
looked up and a seat secured: what comes after that is quiet (`Quiet`), whether an item is put in
the seat or not. So there are three ways for a call to go (`Seats`). The key is there, and the call
is quiet; or it has a seat for an absent key, and nothing is added to what securing the seat did; or
there is no seat, and the call fails as securing the seat failed. A call that is given its item may
also fail before all that, when the item does not get its block.
-/

namespace ProbeWindow.Table

universe u v w x

variable {α : Type u} {κ : Type v} {ρ : Type w} {τ : Type x} [BEq κ] {key : α → κ}
  {t t' : Table key}

/-! ### Quiet calls -/

/-- A call reports nothing, and leaves the slots that there are and the mark. -/
structure Quiet (t : Table key) (out : Outcome (Table key) ρ) : Prop extends KeepsRoom t out where
  /-- The mark is the same. -/
  rehashPending_eq : out.state.rehashPending = t.rehashPending

section Quiet

variable {out : Outcome (Table key) ρ}

/-- A call that changes nothing. -/
theorem Quiet.refl {result : Except Fault ρ} : Quiet t (⟨t, [], result⟩ : Outcome (Table key) ρ) :=
  ⟨⟨.refl t, rfl⟩, rfl⟩

theorem Quiet.map (h : Quiet t out) (f : ρ → τ) : Quiet t (out.map f) :=
  ⟨h.toKeepsRoom.map f, h.rehashPending_eq⟩

/-- What comes before a quiet call may leave the slots that there are and the mark as well. -/
theorem Quiet.after (hout : Quiet t' out) (h : SameRoom t t')
    (hmark : t'.rehashPending = t.rehashPending) : Quiet t out :=
  ⟨hout.toKeepsRoom.after h, hout.rehashPending_eq.trans hmark⟩

theorem quiet_update (t : Table key) (o : Occupant α) (f : α → α) (r : ρ) :
    Quiet t (.done (t.update o f).1 r) :=
  ⟨⟨⟨rfl, rfl⟩, rfl⟩, rfl⟩

theorem quiet_eraseAt (t : Table key) (index : Nat) (r : ρ) : Quiet t (.done (t.eraseAt index) r) :=
  ⟨⟨t.sameRoom_eraseAt index, rfl⟩, rfl⟩

theorem quiet_erase (t : Table key) (k : κ) (r : ρ) : Quiet t (.done (t.erase k).1 r) := by
  rw [erase]
  split
  · exact .refl
  · exact t.quiet_eraseAt _ r

theorem quiet_modify (t : Table key) (k : κ) (change : α → α) (r : ρ) :
    Quiet t (.done (t.modify k change).1 r) := by
  rw [modify]
  split
  · exact .refl
  · exact t.quiet_update _ change r

theorem quiet_sit (t : Table key) (seat : Seat) (item : α) (r : ρ) :
    Quiet t (.done (t.sit seat item).1 r) :=
  ⟨⟨⟨SlotArray.capacity_place .., rfl⟩, rfl⟩, rfl⟩

/-- Filling a seat is quiet, also when the item is refused. -/
theorem quiet_fill (t : Table key) (seat : Seat) (item : α) : Quiet t (t.fill seat item) := by
  rcases t.fill_outcomes seat item with ⟨fault, -, heq⟩ | ⟨-, heq⟩ <;> rw [heq]
  · exact .refl
  · exact t.quiet_sit seat item _

end Quiet

/-! ### Seats -/

/-- A call has reported so much, and leaves the slots and the mark of a table as they are. -/
structure QuietAfter (t : Table key) (events : List Event) (out : Outcome (Table key) ρ) :
    Prop extends SameRoom t out.state where
  /-- The mark is the same. -/
  rehashPending_eq : out.state.rehashPending = t.rehashPending
  /-- Nothing more is reported. -/
  events_eq : out.events = events

/-- **How a call that asks for a seat goes.** -/
inductive Seats (t : Table key) (k : κ) (out : Outcome (Table key) ρ) : Prop where
  /-- The key is there, and no seat is asked for. -/
  | present (hkey : t.contains k = true) (h : QuietAfter t [] out)
  /-- There is a seat for the absent key. -/
  | seated (hkey : t.contains k = false) {seat : Seat}
    (hseat : (t.secure (t.setup.hash k)).result = .ok seat)
    (h : QuietAfter (t.secure (t.setup.hash k)).state (t.secure (t.setup.hash k)).events out)
  /-- The item does not get its block, and nothing is done. -/
  | barred {fault : Fault} (hhouse : t.setup.house = .error fault) (hstate : out.state = t)
    (hevents : out.events = []) (hresult : out.result = .error fault)
  /-- There is no seat for the absent key. -/
  | refused (hkey : t.contains k = false) {fault : Fault}
    (hfault : (t.secure (t.setup.hash k)).result = .error fault)
    (hstate : out.state = (t.secure (t.setup.hash k)).state)
    (hevents : out.events = (t.secure (t.setup.hash k)).events)
    (hresult : out.result = .error fault)

section Seats

variable {k : κ} {out : Outcome (Table key) ρ} {events : List Event}

theorem Quiet.quietAfter (h : Quiet t out) : QuietAfter t [] out :=
  ⟨h.toSameRoom, h.rehashPending_eq, h.events_eq⟩

theorem QuietAfter.map (h : QuietAfter t events out) (f : ρ → τ) :
    QuietAfter t events (out.map f) :=
  ⟨h.toSameRoom, h.rehashPending_eq, h.events_eq⟩

/-- What follows quietly adds nothing. -/
theorem QuietAfter.andThen (h : QuietAfter t events out)
    {next : Table key → ρ → Outcome (Table key) τ}
    (hnext : ∀ r, Quiet out.state (next out.state r)) : QuietAfter t events (out.andThen next) := by
  rcases out.andThen_cases next with ⟨fault, -, heq⟩ | ⟨r, -, heq⟩
  · rw [heq]
    exact ⟨h.toSameRoom, h.rehashPending_eq, h.events_eq⟩
  · have hquiet := hnext r
    rw [heq]
    refine ⟨h.toSameRoom.trans hquiet.toSameRoom,
      hquiet.rehashPending_eq.trans h.rehashPending_eq, ?_⟩
    show out.events ++ (next out.state r).events = events
    rw [hquiet.events_eq, List.append_nil, h.events_eq]

theorem Quiet.andThen (h : Quiet t out) {next : Table key → ρ → Outcome (Table key) τ}
    (hnext : ∀ r, Quiet out.state (next out.state r)) : Quiet t (out.andThen next) :=
  have hafter := h.quietAfter.andThen hnext
  ⟨⟨hafter.toSameRoom, hafter.events_eq⟩, hafter.rehashPending_eq⟩

theorem Seats.map (h : Seats t k out) (f : ρ → τ) : Seats t k (out.map f) := by
  cases h with
  | present hkey h => exact .present hkey (h.map f)
  | seated hkey hseat h => exact .seated hkey hseat (h.map f)
  | barred hhouse hstate hevents hresult =>
    exact .barred hhouse hstate hevents (by rw [Outcome.result_map, hresult]; rfl)
  | refused hkey hfault hstate hevents hresult =>
    exact .refused hkey hfault hstate hevents (by rw [Outcome.result_map, hresult]; rfl)

/-- **A call goes as its first step does** when the others are quiet. -/
theorem Seats.andThen (h : Seats t k out) {next : Table key → ρ → Outcome (Table key) τ}
    (hnext : ∀ r, Quiet out.state (next out.state r)) : Seats t k (out.andThen next) := by
  cases h with
  | present hkey h => exact .present hkey (h.andThen hnext)
  | seated hkey hseat h => exact .seated hkey hseat (h.andThen hnext)
  | barred hhouse hstate hevents hresult =>
    rw [Outcome.andThen_of_error next hresult]
    exact .barred hhouse hstate hevents rfl
  | refused hkey hfault hstate hevents hresult =>
    rw [Outcome.andThen_of_error next hresult]
    exact .refused hkey hfault hstate hevents rfl

end Seats

theorem contains_of_locate? {k : κ} {o : Occupant α}
    (h : t.locate? (t.setup.hash k) k = some o) : t.contains k = true := by
  rw [contains, occupant?, h]
  rfl

theorem not_contains_of_locate? {k : κ} (h : t.locate? (t.setup.hash k) k = none) :
    t.contains k = false := by
  rw [contains, occupant?, h]
  rfl

/-- Securing a seat for an absent key has a seat, or none. -/
theorem seats_secure {k : κ} (hkey : t.contains k = false) :
    Seats t k (t.secure (t.setup.hash k)) := by
  cases hsecure : (t.secure (t.setup.hash k)).result with
  | error fault => exact .refused hkey hsecure rfl rfl hsecure
  | ok seat => exact .seated hkey hsecure ⟨.refl _, rfl, rfl⟩

theorem seats_entry (t : Table key) (k : κ) : Seats t k (t.entry k) := by
  rw [entry]
  split
  · next o ho => exact .present (contains_of_locate? ho) Quiet.refl.quietAfter
  · next hnone => exact (seats_secure (not_contains_of_locate? hnone)).map _

theorem seats_accept (t : Table key) (item : α) : Seats t (key item) (t.accept item) := by
  simp only [accept]
  split
  · next o ho => exact .present (contains_of_locate? ho) Quiet.refl.quietAfter
  · next hnone =>
    exact (seats_secure (not_contains_of_locate? hnone)).andThen fun seat ↦
      quiet_sit _ seat item _

theorem seats_emplace (t : Table key) (item : α) : Seats t (key item) (t.emplace item) := by
  rcases t.emplace_outcomes item with ⟨fault, hhouse, heq⟩ | ⟨-, heq⟩ <;> rw [heq]
  · exact .barred hhouse rfl rfl rfl
  · exact t.seats_accept item

theorem seats_tryEmplaceWith (t : Table key) (k : κ) (make : Unit → Except Fault α) :
    Seats t k (t.tryEmplaceWith k make) := by
  refine (t.seats_entry k).andThen fun e ↦ ?_
  rcases e with o | seat
  · exact .refl
  · simp only
    split
    · exact .refl
    · split
      · exact (quiet_fill _ seat _).map _
      · exact .refl

/-! ### Calls on one key -/

/-- Filling a seat and changing the new item is quiet, also when the item is refused. -/
theorem quiet_fillChecked (t : Table key) (seat : Seat) (item : α) (change : α → α) :
    Quiet t ((t.fillChecked seat item).andThen fun t o ↦ t.handOut change o) := by
  simp only [fillChecked]
  split
  · exact (t.quiet_fill seat item).andThen fun o ↦ quiet_update _ o change _
  · exact .refl

/-- **The use of an entry is quiet.** -/
theorem EntryUse.quiet_exec (use : EntryUse α) (t : Table key) (e : Entry α) :
    Quiet t (use.exec t e) := by
  rcases e with o | seat
  · cases use with
    | drop => exact .refl
    | orInsert item change => exact t.quiet_update o change _
    | orInsertWith make change => exact t.quiet_update o change _
    | matched vacant occupied =>
      rcases occupied with _ | change
      · exact t.quiet_eraseAt o.index _
      · exact t.quiet_update o change _
  · cases use with
    | drop => exact .refl
    | orInsert item change =>
      rw [EntryUse.exec, Table.orInsert]
      exact t.quiet_fillChecked seat item change
    | orInsertWith make change =>
      rw [EntryUse.exec, Table.orInsertWith]
      split
      · exact .refl
      · exact t.quiet_fillChecked seat _ change
    | matched vacant occupied =>
      rcases vacant with _ | ⟨item, change⟩
      · exact .refl
      · rw [EntryUse.exec]
        exact t.quiet_fillChecked seat item change

/-- A call looks for no seat: it is quiet, and adds no item. -/
structure Idle (t : Table key) (out : Outcome (Table key) ρ) : Prop extends Quiet t out where
  /-- There are no more items than before. -/
  size_le : out.state.size ≤ t.size

theorem size_erase_le (t : Table key) (k : κ) : (t.erase k).1.size ≤ t.size := by
  rw [erase]
  split
  · exact Nat.le_refl _
  · exact Nat.sub_le _ _

theorem size_modify (t : Table key) (k : κ) (change : α → α) :
    (t.modify k change).1.size = t.size := by
  rw [modify]
  split <;> rfl

theorem Idle.refl {result : Except Fault ρ} : Idle t (⟨t, [], result⟩ : Outcome (Table key) ρ) :=
  ⟨.refl, Nat.le_refl _⟩

theorem idle_erase (t : Table key) (k : κ) (r : ρ) : Idle t (.done (t.erase k).1 r) :=
  ⟨t.quiet_erase k r, t.size_erase_le k⟩

theorem idle_modify (t : Table key) (k : κ) (change : α → α) (r : ρ) :
    Idle t (.done (t.modify k change).1 r) :=
  ⟨t.quiet_modify k change r, Nat.le_of_eq (t.size_modify k change)⟩

/-- **Every call on one key asks for a seat, or is idle.** -/
theorem seats_access (t : Table key) (a : Access α κ) :
    Seats t (a.keyOf key) (a.exec t) ∨ ¬a.Inserts ∧ Idle t (a.exec t) := by
  cases a with
  | find | contains => exact .inr ⟨id, .refl⟩
  | modify k change => exact .inr ⟨id, t.idle_modify k change _⟩
  | erase k => exact .inr ⟨id, t.idle_erase k _⟩
  | emplace item change =>
    rw [Access.exec]
    exact .inl ((t.seats_emplace item).andThen fun p ↦ quiet_update _ p.1 change _)
  | tryEmplaceWith k make change =>
    rw [Access.exec]
    exact .inl ((t.seats_tryEmplaceWith k make).andThen fun p ↦ quiet_update _ p.1 change _)
  | entry k use => exact .inl ((t.seats_entry k).andThen fun e ↦ use.quiet_exec _ e)

end ProbeWindow.Table
