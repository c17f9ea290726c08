import ProbeWindow.Proofs.Checked.Insertion
import ProbeWindow.Proofs.Checked.Calls
import ProbeWindow.Proofs.Map.Calls

/-!
# The calls of a map, step by step

A user of a map gets hold of values through entries that stay open from one step to the next. What
carries over between two steps is that the slot of an occupied entry still has its pair, with the
stored key and the value as it is then.
-/

namespace ProbeWindow.HashMap

universe u v w

variable {κ : Type u} {ν : Type v} {σ : Type w} [BEq κ]

open Table

/-! ### Values -/

section Values

variable (m : HashMap κ ν)

/-- The value of a key. -/
def checkedGet? (k : κ) : Checked (Option ν) := (m.checkedFind k).map (Option.map Prod.snd)

/-- A function is applied to the value of an occupied slot. -/
def checkedUpdateValue (o : Occupant (κ × ν)) (f : ν → ν) : Checked (HashMap κ ν × ν) :=
  (m.checkedUpdate o fun (k, v) ↦ (k, f v)).map fun (m, (_, v)) ↦ (m, v)

/-- A function is applied to the value of a key. -/
def checkedModifyValue (k : κ) (f : ν → ν) : Checked (HashMap κ ν × Option ν) :=
  (m.checkedModify k fun (k, v) ↦ (k, f v)).map fun (m, item) ↦ (m, item.map Prod.snd)

/-- The value of an occupied entry is exchanged. -/
def checkedExchange (o : Occupant (κ × ν)) (v : ν) : Checked (HashMap κ ν × ν) :=
  (m.checkedUpdate o fun (k, _) ↦ (k, v)).map fun (m, _) ↦ (m, o.item.2)

end Values

/-! ### Insertion -/

section Insertion

variable (m : HashMap κ ν)

/-- Inserts the value that `make` builds unless the key is there. -/
def checkedTryEmplace (k : κ) (make : Unit → Except Fault ν) :
    Checked (Outcome (HashMap κ ν) (Occupant (κ × ν) × Bool)) :=
  (m.checkedEntry k).proceed fun m entry ↦
    match entry with
    | .occupied o => (m.checkedOccupant o).map (Outcome.map · (·, false))
    | .vacant seat =>
      match make () with
      | .error fault => .pure (.fail m fault)
      | .ok v => (m.checkedFill seat (k, v)).map (Outcome.map · (·, true))

/-- Sets the value of a key. -/
def checkedInsert (k : κ) (v : ν) : Checked (Outcome (HashMap κ ν) (Option ν)) :=
  (m.checkedEntry k).proceed fun m entry ↦
    match entry with
    | .occupied o =>
      (m.checkedUpdate o fun (stored, _) ↦ (stored, v)).map fun (m, _) ↦ .done m (some o.item.2)
    | .vacant seat => (m.checkedFill seat (k, v)).map (Outcome.map · fun _ ↦ none)

/-- Sets the values of keys one by one. -/
def checkedInsertEach (m : HashMap κ ν) (count : Nat) :
    List (κ × ν) → Checked (Outcome (HashMap κ ν) Nat)
  | [] => .pure (.done m count)
  | (k, v) :: pairs =>
    (checkedInsert m k v).proceed fun m old ↦
      checkedInsertEach m (if old.isNone then count + 1 else count) pairs

/-- Inserts the pairs whose keys are absent, after making room. -/
def checkedInsertMany (pairs : List (κ × ν)) (hint : Nat) :
    Checked (Outcome (HashMap κ ν) Nat) :=
  (m.checkedReserve hint).proceed fun m () ↦ m.checkedEmplaceEach 0 pairs

/-- Sets the values of the keys of some pairs, after making room. -/
def checkedExtend (pairs : List (κ × ν)) (hint : Nat) : Checked (Outcome (HashMap κ ν) Unit) :=
  (m.checkedReserve (if m.isEmpty then hint else (hint + 1) / 2)).proceed fun m () ↦
    (checkedInsertEach m 0 pairs).map (Outcome.map · fun _ ↦ ())

end Insertion

/-! ### Entries -/

section Entries

variable (m : HashMap κ ν)

/-- The entry of a key, with the key. -/
def checkedMapEntry (k : κ) : Checked (Outcome (HashMap κ ν) (MapEntry κ ν)) :=
  (m.checkedEntry k).map (Outcome.map · (⟨k, ·⟩))

/-- The stored key of an occupied entry; the looked-up key of a vacant one. -/
def checkedCurrentKey (e : MapEntry κ ν) : Checked κ :=
  match e.place with
  | .occupied o => (m.checkedAt o.index).map fun _ ↦ o.item.1
  | .vacant _ => .pure e.key

/-- The value of an entry, which is filled with a given value when it is vacant. -/
def checkedOrInsert (e : MapEntry κ ν) (v : ν) :
    Checked (Outcome (HashMap κ ν) (Occupant (κ × ν))) :=
  match e.place with
  | .occupied o => m.checkedOccupant o
  | .vacant seat => m.checkedFill seat (e.key, v)

/-- The value of an entry, which is filled with the value that `make` builds when it is vacant. -/
def checkedOrInsertWith (e : MapEntry κ ν) (make : Unit → Except Fault ν) :
    Checked (Outcome (HashMap κ ν) (Occupant (κ × ν))) :=
  match e.place with
  | .occupied o => m.checkedOccupant o
  | .vacant seat =>
    match make () with
    | .error fault => .pure (.fail m fault)
    | .ok v => m.checkedFill seat (e.key, v)

/-- A function is applied to the value of an occupied entry. -/
def checkedAndModify (e : MapEntry κ ν) (f : ν → ν) : Checked (HashMap κ ν × MapEntry κ ν) :=
  match e.place with
  | .occupied o =>
    (m.checkedUpdate o fun (k, v) ↦ (k, f v)).map fun (m, item) ↦
      (m, { e with place := .occupied ⟨o.index, item⟩ })
  | .vacant _ => .pure (m, e)

/-- An occupied value is handed out, and changed. -/
def checkedHandOut (change : ν → ν) (o : Occupant (κ × ν)) :
    Checked (Outcome (HashMap κ ν) (List (Answer κ ν))) :=
  (checkedUpdateValue m o change).map fun (m, v) ↦ .done m [.value v]

/-- The use of a vacant entry. -/
def VacantUse.checkedExec (k : κ) (seat : Seat) :
    VacantUse ν → Checked (Outcome (HashMap κ ν) (List (Answer κ ν)))
  | drop => .pure (.done m [])
  | key next => (next.checkedExec k seat).map (Outcome.map · (.key k :: ·))
  | intoKey => .pure (.done m [.key k])
  | insert v change =>
    (m.checkedFill seat (k, v)).proceed fun m o ↦ checkedHandOut m change o

/-- The end of an occupied entry. -/
def OccupiedEnd.checkedExec (o : Occupant (κ × ν)) :
    OccupiedEnd ν → Checked (Outcome (HashMap κ ν) (List (Answer κ ν)))
  | drop => .pure (.done m [])
  | intoMut change => checkedHandOut m change o
  | remove => (m.checkedEraseAt o.index).map fun m ↦ .done m [.value o.item.2]
  | removeEntry => (m.checkedEraseAt o.index).map fun m ↦ .done m [.pair o.item]

/-- The use of an occupied entry. -/
def checkedExecOccupied (last : OccupiedEnd ν) (m : HashMap κ ν) (o : Occupant (κ × ν)) :
    List (OccupiedStep ν) → Checked (Outcome (HashMap κ ν) (List (Answer κ ν)))
  | [] => last.checkedExec m o
  | .key :: steps =>
    (m.checkedAt o.index).andThen fun _ ↦
      (checkedExecOccupied last m o steps).map (Outcome.map · (.key o.item.1 :: ·))
  | .get :: steps =>
    (m.checkedAt o.index).andThen fun _ ↦
      (checkedExecOccupied last m o steps).map (Outcome.map · (.value o.item.2 :: ·))
  | .getMut change :: steps =>
    (checkedUpdateValue m o change).andThen fun (m, v) ↦
      (checkedExecOccupied last m ⟨o.index, o.item.1, v⟩ steps).map
        (Outcome.map · (.value v :: ·))
  | .insert v :: steps =>
    (checkedExchange m o v).andThen fun (m, old) ↦
      (checkedExecOccupied last m ⟨o.index, o.item.1, v⟩ steps).map
        (Outcome.map · (.value old :: ·))

/-- The use of an entry. -/
def EntryUse.checkedExec (m : HashMap κ ν) (e : MapEntry κ ν) :
    EntryUse κ ν → Checked (Outcome (HashMap κ ν) (List (Answer κ ν)))
  | drop => .pure (.done m [])
  | key next =>
    (checkedCurrentKey m e).andThen fun k ↦
      (next.checkedExec m e).map (Outcome.map · (.key k :: ·))
  | andModify change next =>
    (checkedAndModify m e change).andThen fun (m, e) ↦ next.checkedExec m e
  | orInsert v change =>
    (checkedOrInsert m e v).proceed fun m o ↦ checkedHandOut m change o
  | orInsertWith make change =>
    (checkedOrInsertWith m e make).proceed fun m o ↦ checkedHandOut m change o
  | orInsertWithKey make change =>
    (checkedOrInsertWith m e fun () ↦ make e.key).proceed fun m o ↦ checkedHandOut m change o
  | orDefault change =>
    (checkedOrInsert m e default).proceed fun m o ↦ checkedHandOut m change o
  | matched vacant steps last =>
    match e.place with
    | .vacant seat => vacant.checkedExec m e.key seat
    | .occupied o => checkedExecOccupied last m o steps

end Entries

/-! ### Calls -/

section Calls

variable (m : HashMap κ ν)

/-- The result of an insertion is handed out, and changed. -/
def checkedHandOutPlaced (change : ν → ν) (o : Occupant (κ × ν)) (inserted : Bool) :
    Checked (Outcome (HashMap κ ν) (Reply σ κ ν)) :=
  (checkedUpdateValue m o change).map fun (m, v) ↦ .done m (.placed v inserted)

/-- The call on a map. -/
def Access.checkedExec : Access κ ν → Checked (Outcome (HashMap κ ν) (Reply σ κ ν))
  | get k => (checkedGet? m k).map fun v ↦ .done m (.value? v)
  | getKeyValue k => (m.checkedFind k).map fun p ↦ .done m (.pair? p)
  | getMut k change => (checkedModifyValue m k change).map fun (m, v) ↦ .done m (.value? v)
  | contains k => (m.checkedContains k).map fun present ↦ .done m (.flag present)
  | count k => (m.checkedCountPresent [k]).map fun n ↦ .done m (.count n)
  | index k =>
    (checkedGet? m k).map fun v ↦
      match v with
      | some v => .done m (.value v)
      | none => .fail m .keyNotFound
  | insert k v => (checkedInsert m k v).map (Outcome.map · .value?)
  | emplace k v change =>
    (m.checkedEmplace (k, v)).proceed fun m (o, inserted) ↦ checkedHandOutPlaced m change o inserted
  | tryEmplace k make change =>
    (checkedTryEmplace m k make).proceed fun m (o, inserted) ↦
      checkedHandOutPlaced m change o inserted
  | remove k => (m.checkedEraseKey k).map fun (m, item) ↦ .done m (.value? (item.map Prod.snd))
  | removeEntry k => (m.checkedEraseKey k).map fun (m, item) ↦ .done m (.pair? item)
  | entry k use =>
    ((checkedMapEntry m k).proceed fun m e ↦ use.checkedExec m e).map (Outcome.map · .answers)

/-- The call on a map. -/
def Call.checkedExec : Call σ κ ν → Checked (Outcome (HashMap κ ν) (Reply σ κ ν))
  | access a => a.checkedExec m
  | insertMany pairs hint => (checkedInsertMany m pairs hint).map (Outcome.map · .count)
  | extend pairs hint => (checkedExtend m pairs hint).map (Outcome.map · fun () ↦ .unit)
  | iterMut change n =>
    (m.checkedWalkUpdating (changeValue change) n).map fun (m, items, _) ↦
      .done m (.report (.items items))
  | retain visit state =>
    (m.checkedRetain (visitValue visit) state).map fun (m, state, result) ↦
      ⟨m, [], result.map fun () ↦ .state state⟩
  | upkeep u => (u.checkedExec m).map (Outcome.map · .report)

end Calls

/-! ### Safety -/

section Safety

variable {m : HashMap κ ν} (h : m.WellFormed)
include h

/-- A changed value is in the slot of its pair, with the stored key. -/
theorem checkedUpdateValue_yields {o : Occupant (κ × ν)} (ho : m.Holds o) (f : ν → ν) :
    (checkedUpdateValue m o f).Yields (updateValue m o f) ∧ (updateValue m o f).1.WellFormed ∧
      (updateValue m o f).1.Holds ⟨o.index, o.item.1, (updateValue m o f).2⟩ :=
  ⟨(h.checkedUpdate ho _).map _, h.update ho fun (k, v) ↦ (k, f v),
    ho.update fun (k, v) ↦ (k, f v)⟩

theorem checkedExchange_yields {o : Occupant (κ × ν)} (ho : m.Holds o) (v : ν) :
    (checkedExchange m o v).Yields (exchange m o v) ∧ (exchange m o v).1.WellFormed ∧
      (exchange m o v).1.Holds ⟨o.index, o.item.1, v⟩ :=
  ⟨(h.checkedUpdate ho _).map _, h.update ho fun (k, _) ↦ (k, v), ho.update fun (k, _) ↦ (k, v)⟩

theorem runs_handOut {o : Occupant (κ × ν)} (ho : m.Holds o) (change : ν → ν) :
    Runs (checkedHandOut m change o) (handOut m change o) fun _ _ ↦ True := by
  obtain ⟨hyields, hwell, -⟩ := checkedUpdateValue_yields h ho change
  exact .of_map hyields _ hwell

theorem runs_handOutPlaced {o : Occupant (κ × ν)} (ho : m.Holds o) (change : ν → ν)
    (inserted : Bool) :
    Runs (checkedHandOutPlaced (σ := σ) m change o inserted) (handOutPlaced m change o inserted)
      fun _ _ ↦ True := by
  obtain ⟨hyields, hwell, -⟩ := checkedUpdateValue_yields h ho change
  exact .of_map hyields _ hwell

/-- **Inserting a value that is built for an absent key is safe.** -/
theorem runs_tryEmplace (k : κ) (make : Unit → Except Fault ν) :
    Runs (checkedTryEmplace m k make) (tryEmplace m k make) fun m' r ↦ m'.Holds r.1 := by
  refine (h.checkedEntry k).proceed fun m' entry hwell hstands ↦ ?_
  cases entry with
  | occupied o => exact (hwell.checkedOccupant hstands).map _ fun _ _ _ ho ↦ ho
  | vacant seat =>
    cases make () with
    | error fault => exact hwell.runs_fail fault
    | ok v => exact (Admits.checkedFill hstands (k, v)).map _ fun _ _ _ ho ↦ ho

/-- **Setting a value is safe.** -/
theorem runs_insert (k : κ) (v : ν) :
    Runs (checkedInsert m k v) (insert m k v) fun _ _ ↦ True := by
  refine (h.checkedEntry k).proceed fun m' entry hwell hstands ↦ ?_
  cases entry with
  | occupied o =>
    exact .of_map (hwell.checkedUpdate hstands _) _ (hwell.update hstands fun (k, _) ↦ (k, v))
  | vacant seat =>
    exact (Admits.checkedFill hstands (k, v)).map _ fun _ _ _ _ ↦ trivial

omit h in
theorem runs_insertEach {m : HashMap κ ν} (h : m.WellFormed) (count : Nat) (pairs : List (κ × ν)) :
    Runs (checkedInsertEach m count pairs) (insertEach m count pairs) fun _ _ ↦ True := by
  induction pairs generalizing m count with
  | nil => exact h.runs_done trivial
  | cons p pairs ih => exact (runs_insert h p.1 p.2).proceed fun m' old hwell _ ↦ ih hwell _

theorem runs_insertMany (pairs : List (κ × ν)) (hint : Nat) :
    Runs (checkedInsertMany m pairs hint) (insertMany m pairs hint) fun _ _ ↦ True :=
  (h.checkedReserve hint).proceed fun _ _ hwell _ ↦ hwell.checkedEmplaceEach 0 pairs

theorem runs_extend (pairs : List (κ × ν)) (hint : Nat) :
    Runs (checkedExtend m pairs hint) (extend m pairs hint) fun _ _ ↦ True :=
  (h.checkedReserve _).proceed fun _ _ hwell _ ↦
    (runs_insertEach hwell 0 pairs).map _ fun _ _ _ _ ↦ trivial

theorem runs_mapEntry (k : κ) :
    Runs (checkedMapEntry m k) (HashMap.entry m k) fun m' e ↦ m'.Stands e.place :=
  (h.checkedEntry k).map _ fun _ _ _ hstands ↦ hstands

/-- The key of an entry can be read. -/
theorem checkedCurrentKey_yields {e : MapEntry κ ν} (hstands : m.Stands e.place) :
    (checkedCurrentKey m e).Yields e.currentKey := by
  rw [checkedCurrentKey, MapEntry.currentKey]
  rcases e with ⟨k, o | seat⟩
  · exact (h.checkedAt hstands).map _
  · exact .pure _

theorem runs_orInsert {e : MapEntry κ ν} (hstands : m.Stands e.place) (v : ν) :
    Runs (checkedOrInsert m e v) (HashMap.orInsert m e v) Holds := by
  rw [checkedOrInsert, HashMap.orInsert]
  rcases e with ⟨k, o | seat⟩
  · exact h.checkedOccupant hstands
  · exact Admits.checkedFill hstands (k, v)

theorem runs_orInsertWith {e : MapEntry κ ν} (hstands : m.Stands e.place)
    (make : Unit → Except Fault ν) :
    Runs (checkedOrInsertWith m e make) (HashMap.orInsertWith m e make) Holds := by
  rw [checkedOrInsertWith, HashMap.orInsertWith]
  rcases e with ⟨k, o | seat⟩
  · exact h.checkedOccupant hstands
  · cases make () with
    | error fault => exact h.runs_fail fault
    | ok v => exact Admits.checkedFill hstands (k, v)

/-- A changed entry stands. -/
theorem checkedAndModify_yields {e : MapEntry κ ν} (hstands : m.Stands e.place) (f : ν → ν) :
    (checkedAndModify m e f).Yields (HashMap.andModify m e f) ∧
      (HashMap.andModify m e f).1.WellFormed ∧
        (HashMap.andModify m e f).1.Stands (HashMap.andModify m e f).2.place := by
  rw [checkedAndModify, HashMap.andModify]
  rcases e with ⟨k, o | seat⟩
  · exact ⟨(h.checkedUpdate hstands _).map _, h.update hstands fun (k, v) ↦ (k, f v),
      Holds.update hstands fun (k, v) ↦ (k, f v)⟩
  · exact ⟨.pure _, h, hstands⟩

/-- **The use of a vacant entry is safe.** -/
theorem runs_vacantUse (k : κ) {seat : Seat} (hadmits : m.Admits seat) (use : VacantUse ν) :
    Runs (use.checkedExec m k seat) (use.exec m k seat) fun _ _ ↦ True := by
  induction use with
  | drop => exact h.runs_done trivial
  | key next ih => exact ih.map _ fun _ _ _ _ ↦ trivial
  | intoKey => exact h.runs_done trivial
  | insert v change =>
    rw [VacantUse.checkedExec, VacantUse.exec]
    exact (hadmits.checkedFill (k, v)).proceed fun m' o hwell ho ↦ runs_handOut hwell ho change

/-- The end of an occupied entry is safe. -/
theorem runs_occupiedEnd {o : Occupant (κ × ν)} (ho : m.Holds o) (last : OccupiedEnd ν) :
    Runs (last.checkedExec m o) (last.exec m o) fun _ _ ↦ True := by
  cases last with
  | drop => exact h.runs_done trivial
  | intoMut change => exact runs_handOut h ho change
  | remove =>
    rw [OccupiedEnd.checkedExec, OccupiedEnd.exec]
    exact .of_map (h.checkedEraseAt ho) _ (h.eraseAt ho)
  | removeEntry =>
    rw [OccupiedEnd.checkedExec, OccupiedEnd.exec]
    exact .of_map (h.checkedEraseAt ho) _ (h.eraseAt ho)

omit h in
/-- **The use of an occupied entry is safe**: after every step its pair is still in its slot. -/
theorem runs_execOccupied (last : OccupiedEnd ν) {m : HashMap κ ν} (h : m.WellFormed)
    {o : Occupant (κ × ν)} (ho : m.Holds o) (steps : List (OccupiedStep ν)) :
    Runs (checkedExecOccupied last m o steps) (execOccupied last m o steps) fun _ _ ↦ True := by
  induction steps generalizing m o with
  | nil => exact runs_occupiedEnd h ho last
  | cons step steps ih =>
    cases step with
    | key | get => exact .of_yields (h.checkedAt ho) ((ih h ho).map _ fun _ _ _ _ ↦ trivial)
    | getMut change =>
      obtain ⟨hyields, hwell, hholds⟩ := checkedUpdateValue_yields h ho change
      exact .of_yields hyields ((ih hwell hholds).map _ fun _ _ _ _ ↦ trivial)
    | insert v =>
      obtain ⟨hyields, hwell, hholds⟩ := checkedExchange_yields h ho v
      exact .of_yields hyields ((ih hwell hholds).map _ fun _ _ _ _ ↦ trivial)

omit h in
/-- **The use of an entry is safe.** -/
theorem runs_use {m : HashMap κ ν} (h : m.WellFormed) {e : MapEntry κ ν}
    (hstands : m.Stands e.place) (use : EntryUse κ ν) :
    Runs (use.checkedExec m e) (use.exec m e) fun _ _ ↦ True := by
  induction use generalizing m e with
  | drop => exact h.runs_done trivial
  | key next ih =>
    exact .of_yields (checkedCurrentKey_yields h hstands)
      ((ih h hstands).map _ fun _ _ _ _ ↦ trivial)
  | andModify change next ih =>
    obtain ⟨hyields, hwell, hstill⟩ := checkedAndModify_yields h hstands change
    exact .of_yields hyields (ih hwell hstill)
  | orInsert v change =>
    exact (runs_orInsert h hstands v).proceed fun m' o hwell ho ↦ runs_handOut hwell ho change
  | orInsertWith make change =>
    exact (runs_orInsertWith h hstands make).proceed fun m' o hwell ho ↦
      runs_handOut hwell ho change
  | orInsertWithKey make change =>
    exact (runs_orInsertWith h hstands fun () ↦ make e.key).proceed fun m' o hwell ho ↦
      runs_handOut hwell ho change
  | orDefault change =>
    exact (runs_orInsert h hstands default).proceed fun m' o hwell ho ↦
      runs_handOut hwell ho change
  | matched vacant steps last =>
    rcases e with ⟨k, o | seat⟩
    · exact runs_execOccupied last h hstands steps
    · exact runs_vacantUse h k hstands vacant

/-- **Every call of a map on one key is safe.** -/
theorem runs_access (a : Access κ ν) :
    Runs (a.checkedExec (σ := σ) m) (a.exec m) fun _ _ ↦ True := by
  cases a with
  | get k =>
    rw [Access.checkedExec, Access.exec]
    exact .of_map ((h.checkedFind k).map (Option.map Prod.snd)) _ h
  | getKeyValue k =>
    rw [Access.checkedExec, Access.exec]
    exact .of_map (h.checkedFind k) _ h
  | getMut k change =>
    obtain ⟨hyields, hwell⟩ := h.checkedModify k fun (k, v) ↦ (k, change v)
    rw [Access.checkedExec, Access.exec]
    exact .of_map (hyields.map _) _ hwell
  | contains k =>
    rw [Access.checkedExec, Access.exec]
    exact .of_map (h.checkedContains k) _ h
  | count k =>
    rw [Access.checkedExec, Access.exec]
    exact .of_map (h.checkedCountPresent [k]) _ h
  | index k =>
    have hget : (checkedGet? m k).Yields (HashMap.get? m k) := (h.checkedFind k).map _
    rw [Access.checkedExec, Access.exec, HashMap.get]
    cases hv : HashMap.get? m k with
    | none =>
      rw [hv] at hget
      exact .of_map hget _ h
    | some v =>
      rw [hv] at hget
      exact .of_map hget _ h
  | insert k v => exact (runs_insert h k v).map _ fun _ _ _ _ ↦ trivial
  | emplace k v change =>
    exact (h.checkedEmplace (k, v)).proceed fun m' r hwell ho ↦
      runs_handOutPlaced hwell ho change r.2
  | tryEmplace k make change =>
    exact (runs_tryEmplace h k make).proceed fun m' r hwell ho ↦
      runs_handOutPlaced hwell ho change r.2
  | remove k =>
    obtain ⟨hyields, hwell⟩ := h.checkedEraseKey k
    rw [Access.checkedExec, Access.exec]
    exact .of_map hyields _ hwell
  | removeEntry k =>
    obtain ⟨hyields, hwell⟩ := h.checkedEraseKey k
    rw [Access.checkedExec, Access.exec]
    exact .of_map hyields _ hwell
  | entry k use =>
    exact ((runs_mapEntry h k).proceed fun m' e hwell hstands ↦ runs_use hwell hstands use).map _
      fun _ _ _ _ ↦ trivial

/-- **Every call of a map is safe**, and leaves the map well-formed. -/
theorem runs_call (c : Call σ κ ν) : Runs (c.checkedExec m) (c.exec m) fun _ _ ↦ True := by
  cases c with
  | access a => exact runs_access h a
  | insertMany pairs hint => exact (runs_insertMany h pairs hint).map _ fun _ _ _ _ ↦ trivial
  | extend pairs hint => exact (runs_extend h pairs hint).map _ fun _ _ _ _ ↦ trivial
  | iterMut change n =>
    obtain ⟨hyields, hwell⟩ := h.checkedWalkUpdating (changeValue change) n
    rw [Call.checkedExec, Call.exec]
    exact .of_map hyields _ hwell
  | retain visit state =>
    obtain ⟨hyields, hwell⟩ := h.checkedRetain (visitValue visit) state
    rw [Call.checkedExec, Call.exec]
    exact .of_map hyields _ hwell
  | upkeep u => exact (h.checkedUpkeep u).map _ fun _ _ _ _ ↦ trivial

end Safety

end ProbeWindow.HashMap
