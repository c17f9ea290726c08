import ProbeWindow.Proofs.Frame
import ProbeWindow.Proofs.Table.Reports

/-!
# What tables, maps and sets report

Every call that may grow or resize a table, map or set reports each change of the capacity, when it
returns and when it fails: the events of the call account for the capacity, from what it was to what
it is. A call on one key tells of every full window as well, and of the resize that follows from it;
a call that inserts many items is a run of such calls (`reports_of_run`).

Maps and sets add to this that whatever they do after they have secured a seat is quiet.
-/

namespace ProbeWindow

universe u v w x

open Table

/-! ### Maps -/

namespace HashMap

variable {κ : Type u} {ν : Type v} {σ : Type w} [BEq κ]

theorem quiet_handOut (m : HashMap κ ν) (change : ν → ν) (o : Occupant (κ × ν)) :
    Quiet m (handOut m change o) :=
  quiet_update m o (mapValue change) _

/-- A new value is handed out, and changed. -/
theorem quiet_fill_handOut (m : HashMap κ ν) (seat : Seat) (p : κ × ν) (change : ν → ν) :
    Quiet m ((m.fill seat p).andThen fun m o ↦ handOut m change o) :=
  (m.quiet_fill seat p).andThen fun o ↦ quiet_handOut _ change o

theorem VacantUse.quiet_exec (use : VacantUse ν) (m : HashMap κ ν) (k : κ) (seat : Seat) :
    Quiet m (use.exec m k seat) := by
  induction use with
  | drop | intoKey => exact .refl
  | insert v change => exact quiet_fill_handOut m seat (k, v) change
  | key next ih => exact ih.map _

theorem quiet_execOccupied (last : OccupiedEnd ν) (steps : List (OccupiedStep ν))
    (m : HashMap κ ν) (o : Occupant (κ × ν)) : Quiet m (execOccupied last m o steps) := by
  induction steps generalizing m o with
  | nil =>
    cases last with
    | drop => exact .refl
    | intoMut change => exact quiet_handOut m change o
    | remove | removeEntry => exact m.quiet_eraseAt o.index _
  | cons step steps ih =>
    -- a change of the value is quiet, and so are the steps after it
    have hchanged : ∀ (f : ν → ν) (o' : Occupant (κ × ν)),
        Quiet m (execOccupied last (m.update o (mapValue f)).1 o' steps) := fun f o' ↦
      (ih _ o').after ⟨rfl, rfl⟩ rfl
    cases step with
    | key | get => exact (ih m o).map _
    | getMut change => exact (hchanged change _).map _
    | insert v => exact (hchanged (fun _ ↦ v) _).map _

theorem quiet_orInsertWith (m : HashMap κ ν) (e : MapEntry κ ν) (make : Unit → Except Fault ν)
    (change : ν → ν) :
    Quiet m ((HashMap.orInsertWith m e make).andThen fun m o ↦ handOut m change o) := by
  obtain ⟨k, o | seat⟩ := e
  · exact quiet_handOut m change o
  · rw [HashMap.orInsertWith]
    cases make () with
    | error fault => exact .refl
    | ok v => exact quiet_fill_handOut m seat (k, v) change

theorem quiet_orInsert (m : HashMap κ ν) (e : MapEntry κ ν) (v : ν) (change : ν → ν) :
    Quiet m ((HashMap.orInsert m e v).andThen fun m o ↦ handOut m change o) := by
  obtain ⟨k, o | seat⟩ := e
  · exact quiet_handOut m change o
  · exact quiet_fill_handOut m seat (k, v) change

/-- **The use of an entry is quiet.** -/
theorem EntryUse.quiet_exec (use : EntryUse κ ν) (m : HashMap κ ν) (e : MapEntry κ ν) :
    Quiet m (use.exec m e) := by
  induction use generalizing m e with
  | drop => exact .refl
  | key next ih => exact (ih m e).map _
  | andModify change next ih =>
    obtain ⟨k, o | seat⟩ := e
    · exact (ih (m.update o (mapValue change)).1 _).after ⟨rfl, rfl⟩ rfl
    · exact ih m ⟨k, .vacant seat⟩
  | orInsert v change => exact quiet_orInsert m e v change
  | orDefault change => exact quiet_orInsert m e default change
  | orInsertWith make change => exact quiet_orInsertWith m e make change
  | orInsertWithKey make change => exact quiet_orInsertWith m e (fun () ↦ make e.key) change
  | matched vacant steps last =>
    obtain ⟨k, o | seat⟩ := e
    · exact quiet_execOccupied last steps m o
    · exact vacant.quiet_exec m k seat

variable {m : HashMap κ ν}

theorem seats_insert (m : HashMap κ ν) (k : κ) (v : ν) : Seats m k (HashMap.insert m k v) := by
  refine (m.seats_entry k).andThen fun e ↦ ?_
  rcases e with o | seat
  · exact quiet_update _ o (fun p ↦ (p.1, v)) _
  · exact (quiet_fill _ seat (k, v)).map _

theorem seats_tryEmplace (m : HashMap κ ν) (k : κ) (make : Unit → Except Fault ν) :
    Seats m k (HashMap.tryEmplace m k make) := by
  refine (m.seats_entry k).andThen fun e ↦ ?_
  rcases e with o | seat
  · exact .refl
  · cases make () with
    | error fault => exact .refl
    | ok v => exact (quiet_fill _ seat (k, v)).map _

theorem quiet_handOutPlaced (m : HashMap κ ν) (change : ν → ν) (o : Occupant (κ × ν))
    (inserted : Bool) : Quiet m (handOutPlaced (σ := σ) m change o inserted) :=
  quiet_update m o (mapValue change) _

/-- **Every call on one key of a map asks for a seat, or is idle.** -/
theorem seats_access (m : HashMap κ ν) (a : Access κ ν) :
    Seats m a.keyOf (a.exec (σ := σ) m) ∨ ¬a.Inserts ∧ Idle m (a.exec (σ := σ) m) := by
  cases a with
  | get | getKeyValue | contains | count | index => exact .inr ⟨id, .refl⟩
  | getMut k change => exact .inr ⟨id, m.idle_modify k (mapValue change) _⟩
  | remove k | removeEntry k => exact .inr ⟨id, m.idle_erase k _⟩
  | insert k v => exact .inl ((seats_insert m k v).map _)
  | emplace k v change =>
    rw [Access.exec]
    exact .inl ((m.seats_emplace (k, v)).andThen fun p ↦ quiet_handOutPlaced _ change p.1 p.2)
  | tryEmplace k make change =>
    rw [Access.exec]
    exact .inl ((seats_tryEmplace m k make).andThen fun p ↦ quiet_handOutPlaced _ change p.1 p.2)
  | entry k use =>
    rw [Access.exec]
    exact .inl ((((m.seats_entry k).map _).andThen fun e ↦ use.quiet_exec _ e).map _)

/-- **Every call on one key of a map tells of growth.** -/
theorem reports_access (h : m.Sound) (a : Access κ ν) :
    ReportsGrowth m a.keyOf (a.exec (σ := σ) m) := by
  rcases seats_access m a with hseats | ⟨-, hidle⟩
  · exact h.reportsGrowth hseats
  · exact h.reportsGrowth_of_quietAfter hidle.quietAfter

/-- Sets the value of the key of a pair. -/
def insertPair (m : HashMap κ ν) (p : κ × ν) : Outcome (HashMap κ ν) (Option ν) :=
  HashMap.insert m p.1 p.2

/-- Setting values one by one, also when a call fails. -/
theorem reports_insertEach (h : m.Sound) (count : Nat) (pairs : List (κ × ν)) :
    ReportsBulk insertPair Prod.fst m (HashMap.insertEach m count pairs) := by
  induction pairs generalizing m count with
  | nil => exact .refl m count
  | cons p pairs ih =>
    have hgrowth : ReportsGrowth m p.1 (insertPair m p) :=
      h.reportsGrowth (seats_insert m p.1 p.2)
    rw [HashMap.insertEach]
    exact .cons (.insert p hgrowth) hgrowth.mark fun old ↦ ih (h.handles_insert p).sound.1 _

/-- **Extending a map**, also when this fails. -/
theorem reports_extend (h : m.Sound) (pairs : List (κ × ν)) (hint : Nat) :
    ReportsBulk insertPair Prod.fst m (HashMap.extend m pairs hint) :=
  .cons (.reserve _ (h.tells_reserve _)) (h.tells_reserve _).mark fun _ ↦
    (reports_insertEach (h.reserve _).sound 0 pairs).map _

end HashMap

/-! ### Sets -/

namespace HashSet

variable {κ : Type u} {σ : Type w} [BEq κ] {s : HashSet κ}

/-- **Every call on one item of a set asks for a seat, or is idle.** -/
theorem seats_access (s : HashSet κ) (a : Access κ) :
    Seats s a.keyOf (a.exec (σ := σ) s) ∨ ¬a.Inserts ∧ Idle s (a.exec (σ := σ) s) := by
  cases a with
  | contains | count | get => exact .inr ⟨id, .refl⟩
  | insert k | getOrInsert k => exact .inl (((s.seats_emplace k).map _).map _)
  | emplace k => exact .inl ((s.seats_emplace k).map _)
  | getOrInsertWith k make =>
    exact .inl (((s.seats_tryEmplaceWith k fun () ↦ make k).map _).map _)
  | replace k =>
    refine .inl (Seats.map ((s.seats_entry k).andThen fun e ↦ ?_) _)
    rcases e with o | seat
    · exact quiet_update _ o (fun _ ↦ k) _
    · exact (quiet_fill _ seat k).map _
  | remove k | take k => exact .inr ⟨id, s.idle_erase k _⟩

/-- **Every call on one item of a set tells of growth.** -/
theorem reports_access (h : s.Sound) (a : Access κ) :
    ReportsGrowth s a.keyOf (a.exec (σ := σ) s) := by
  rcases seats_access s a with hseats | ⟨-, hidle⟩
  · exact h.reportsGrowth hseats
  · exact h.reportsGrowth_of_quietAfter hidle.quietAfter

/-- **Extending a set**, also when this fails. -/
theorem reports_extend (h : s.Sound) (items : List κ) (hint : Nat) :
    ReportsBulk Table.emplace id s (HashSet.extend s items hint) :=
  .cons (.reserve _ (h.tells_reserve _)) (h.tells_reserve _).mark fun _ ↦
    ((h.reserve _).sound.reports_emplaceEach 0 items).map _

end HashSet

/-! ### Runs -/

variable {α : Type u} {κ : Type v} {ν : Type x} {σ : Type w} [BEq κ]

/-- **What is reported is what happened**, in every table, map and set that a run leads to, whether
the call returns or fails: of a call on one key, of a call that inserts many items, and of a call
that resizes the table. -/
theorem reports_of_run (setups : Nat → Setup κ) (r : Nat) :
    (∀ (key : α → κ) (cs : List (Bank.Command (Table.Call σ α κ) α)),
      Bank.Admits Table.Call.next (fun t c ↦ c.Keeps t.SameHash t) SameHash
          (Bank.fresh key setups) cs →
        let t := Bank.run Table.Call.next (Bank.fresh key setups) cs r
        (∀ a : Table.Access α κ, ReportsGrowth t (a.keyOf key) (a.exec t)) ∧
        ∀ u : Upkeep, u.Resizes → ReportsResize t (u.exec t)) ∧
    (∀ cs : List (Bank.Command (HashMap.Call σ κ ν) (κ × ν)),
      Bank.Admits HashMap.Call.next (fun _ _ ↦ True) SameHash (Bank.fresh Prod.fst setups) cs →
        let m := Bank.run HashMap.Call.next (Bank.fresh Prod.fst setups) cs r
        (∀ a : HashMap.Access κ ν, ReportsGrowth m a.keyOf (a.exec (σ := σ) m)) ∧
        (∀ (pairs : List (κ × ν)) (hint : Nat),
          ReportsBulk Table.emplace Prod.fst m (HashMap.insertMany m pairs hint) ∧
            ReportsBulk HashMap.insertPair Prod.fst m (HashMap.extend m pairs hint)) ∧
        ∀ u : Upkeep, u.Resizes → ReportsResize m (u.exec m)) ∧
    ∀ cs : List (Bank.Command (HashSet.Call σ κ) κ),
      Bank.Admits HashSet.Call.next (fun _ _ ↦ True) SameHash (Bank.fresh id setups) cs →
        let s := Bank.run HashSet.Call.next (Bank.fresh id setups) cs r
        (∀ a : HashSet.Access κ, ReportsGrowth s a.keyOf (a.exec (σ := σ) s)) ∧
        (∀ (items : List κ) (hint : Nat),
          ReportsBulk Table.emplace id s (HashSet.insertMany s items hint) ∧
            ReportsBulk Table.emplace id s (HashSet.extend s items hint)) ∧
        ∀ u : Upkeep, u.Resizes → ReportsResize s (u.exec s) := by
  refine ⟨fun key cs hcs ↦ ?_, fun cs hcs ↦ ?_, fun cs hcs ↦ ?_⟩
  · have ht := Table.sound_run hcs r
    exact ⟨fun a ↦ ht.reports_access a, fun u hu ↦ ht.reports_upkeep hu⟩
  · have hm := HashMap.sound_run hcs r
    exact ⟨fun a ↦ HashMap.reports_access hm a,
      fun pairs hint ↦ ⟨hm.reports_emplaceMany hint pairs, HashMap.reports_extend hm pairs hint⟩,
      fun u hu ↦ hm.reports_upkeep hu⟩
  · have hs := HashSet.sound_run hcs r
    exact ⟨fun a ↦ HashSet.reports_access hs a,
      fun items hint ↦ ⟨hs.reports_emplaceMany hint items, HashSet.reports_extend hs items hint⟩,
      fun u hu ↦ hs.reports_upkeep hu⟩

open Bank in
/-- A further key for a full window: one growth does not help, and the next one is refused. A map is
rehashed, and a set makes room before it takes further keys. -/
theorem reports_of_run_crowded :
    (((Table.Access.emplace 16 id).exec (filledTable 64)).events =
        [.saturated 32 16 0, .resized 32 64 16 .windowSaturated, .saturated 64 16 0] ∧
      ReportsGrowth (filledTable 64) 16 ((Table.Access.emplace 16 id).exec (filledTable 64))) ∧
    (((Upkeep.rehash 40).exec (filledMap 64)).events = [.resized 32 64 16 .rehash] ∧
      ReportsResize (filledMap 64) ((Upkeep.rehash 40).exec (filledMap 64))) ∧
    (HashSet.insertMany (filledSet 64) [7, 16] 20).events =
        [.resized 32 64 16 .reserve, .saturated 64 16 0] ∧
      ReportsBulk Table.emplace id (filledSet 64)
        (HashSet.insertMany (filledSet 64) [7, 16] 20) := by
  obtain ⟨htables, hmaps, hsets⟩ := reports_of_run (α := UInt64) (ν := Nat) (σ := Unit)
    (fun _ ↦ .crowded UInt64 32 64) 0
  refine ⟨⟨?_, ?_⟩, ⟨?_, ?_⟩, ?_, ?_⟩
  · decide +kernel
  · exact (htables id _ (admits_fillingTable _)).1 (.emplace 16 id)
  · decide +kernel
  · exact (hmaps _ (admits_fillingMap _)).2.2 (.rehash 40) trivial
  · decide +kernel
  · exact ((hsets _ (admits_fillingSet _)).2.1 [7, 16] 20).1

end ProbeWindow
