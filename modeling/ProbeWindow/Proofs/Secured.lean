import ProbeWindow.Proofs.Shrinking
import ProbeWindow.Proofs.Table.Securing

/-!
# A secured slot stays secured

The entry of an absent key has its slot before it is filled, and the growth that this takes is not
undone when the entry is dropped. So the next insertion of the key finds the slot secured: it does
not grow, reports nothing, and leaves the very table that filling the entry would have left.

A growth could stop short of the threshold, or leave the table marked, and then the next insertion
would grow again. Neither happens: a growth that returns is for one more item, a larger capacity has
no lower threshold (`LoadFactor.monotone_maxSize`), and every resize clears the mark.
-/

namespace ProbeWindow

universe u v w x

variable {α : Type u} {κ : Type v} {σ : Type w} {ν : Type x} [BEq κ]

open Contents Table

namespace HashMap

/-- A seat was secured in a map for an absent key, and its entry dropped: besides the calls of
tables, those of maps fill the seat and do nothing else. -/
structure Secured (m : HashMap κ ν) (k : κ) (m' : HashMap κ ν) (events : List Event) (seat : Seat) :
    Prop extends Table.Secured m k m' events seat where
  /-- Every way to insert a value for the key fills the seat. -/
  insertBy_map_eq : ∀ j v, (j == k) = true → ∀ way : Way,
    HashMap.insertBy m' j v way = m'.fill seat (j, v)
  /-- To set a value for the key is to fill the seat. -/
  insert_eq : ∀ j v, (j == k) = true → insert m' j v = (m'.fill seat (j, v)).map fun _ ↦ none
  /-- To insert a value at once is to drop the entry first, as long as the pair gets its block or asks
  for it late. -/
  at_once_map : ∀ j v, (j == k) = true → ∀ way : Way, (way = .emplace → m.setup.house = .ok ()) →
    HashMap.insertBy m j v way = (HashMap.insertBy m' j v way).after events
  /-- To set a value at once is to drop the entry first. -/
  insert_at_once : ∀ j v, (j == k) = true → insert m j v = (insert m' j v).after events

/-- Every way of a map to insert is one of tables. -/
theorem exists_way [ReflBEq κ] (way : Way) : ∃ way' : Table.Way,
    (way' = .emplace → way = .emplace) ∧
      ∀ (m : HashMap κ ν) k v, HashMap.insertBy m k v way = Table.insertBy m (k, v) way' := by
  by_cases hway : way = .emplace
  · exact ⟨.emplace, fun _ ↦ hway, fun m k v ↦ by rw [hway]; rfl⟩
  · have hlate : Table.Way.orInsert ≠ .emplace := nofun
    refine ⟨.orInsert, nofun, fun m k v ↦ ?_⟩
    rw [HashMap.insertBy_eq m k v hway, Table.insertBy_eq m (k, v) hlate]

/-- **An entry of a map that is dropped leaves its seat secured.** -/
theorem secured [EquivBEq κ] {m : HashMap κ ν} {k : κ} {seat : Seat} (h : m.Sound)
    (hnone : lookup Prod.fst m.toList k = none)
    (hvacant : (Table.entry m k).result = .ok (.vacant seat)) :
    Secured m k (Table.entry m k).state (Table.entry m k).events seat := by
  have hsecured := h.secured hnone hvacant
  have hinsert : ∀ j v, (j == k) = true → insert (Table.entry m k).state j v =
      ((Table.entry m k).state.fill seat (j, v)).map fun _ ↦ none := by
    intro j v hj
    rw [insert, hsecured.entry_eq j hj]
    rfl
  constructor
  case toSecured => exact hsecured
  case insertBy_map_eq =>
    intro j v hj way
    obtain ⟨way', -, hway⟩ := exists_way (κ := κ) (ν := ν) way
    rw [hway]
    exact hsecured.insertBy_eq (j, v) hj way'
  case insert_eq => exact hinsert
  case at_once_map =>
    intro j v hj way hearly
    obtain ⟨way', hearly', hway⟩ := exists_way (κ := κ) (ν := ν) way
    rw [hway, hway]
    exact hsecured.at_once (j, v) hj way' fun h ↦ hearly (hearly' h)
  case insert_at_once =>
    intro j v hj
    rw [hinsert j v hj, insert, Table.entry_congr hj, Outcome.andThen_of_ok _ hvacant]

end HashMap

/-- **A secured slot stays secured**, in all tables and maps that runs lead to: when the entry of an
absent key is returned and dropped, the next insertion of the key fills the slot that the entry had,
without growth and without an event. -/
theorem secured_of_run [EquivBEq κ] (setups : Nat → Setup κ) (r : Nat) :
    (∀ (key : α → κ) (cs : List (Bank.Command (Table.Call σ α κ) α)),
      Bank.Admits Table.Call.next (fun t c ↦ c.Keeps t.SameHash t) Table.SameHash
          (Bank.fresh key setups) cs →
        let t := Bank.run Table.Call.next (Bank.fresh key setups) cs r
        ∀ k e, t.contains k = false → (t.entry k).result = .ok e →
          ∃ seat, e = .vacant seat ∧
            t.Secured k (t.entry k).state (t.entry k).events seat) ∧
    ∀ cs : List (Bank.Command (HashMap.Call σ κ ν) (κ × ν)),
      Bank.Admits HashMap.Call.next (fun _ _ ↦ True) Table.SameHash (Bank.fresh Prod.fst setups) cs →
        let m := Bank.run HashMap.Call.next (Bank.fresh Prod.fst setups) cs r
        ∀ k e, Table.contains m k = false → (HashMap.entry m k).result = .ok e →
          ∃ seat, e = ⟨k, .vacant seat⟩ ∧
            HashMap.Secured m k (HashMap.entry m k).state (HashMap.entry m k).events seat := by
  constructor
  · intro key cs hcs t k e habsent he
    have ht : t.Sound := Table.sound_run hcs r
    have hnone := ht.lookup_eq_none habsent
    obtain ⟨seat, rfl⟩ := ht.vacant_of_absent hnone he
    exact ⟨seat, rfl, ht.secured hnone he⟩
  · intro cs hcs m k e habsent he
    have hm : m.Sound := HashMap.sound_run hcs r
    have hnone := hm.lookup_eq_none habsent
    obtain ⟨place, hplace, rfl⟩ := Outcome.of_result_map he
    obtain ⟨seat, rfl⟩ := hm.vacant_of_absent hnone hplace
    exact ⟨seat, rfl, HashMap.secured hm hnone hplace⟩

namespace Bank

/-- The table with keys that fill a window which a further one needs. -/
def crampedTable : Table (id : UInt64 → UInt64) :=
  insertedTable .powerOfTwo 16 (interleavedKeys.take 16)

/-- The map with these keys. -/
def crampedMap : HashMap UInt64 Nat := insertedMap .powerOfTwo 16 (interleavedKeys.take 16)

end Bank

open Bank in
/-- The entry of a further key finds its window full and grows the table. The insertion that follows
does not, and a map that is asked to set a value at once reports what the entry reported. -/
theorem secured_of_run_cramped :
    (crampedTable.capacity < (crampedTable.entry 124).state.capacity ∧
      ((crampedTable.entry 124).state.insertBy 124 .emplace).state.capacity =
        (crampedTable.entry 124).state.capacity ∧
      ((crampedTable.entry 124).state.insertBy 124 .emplace).events = []) ∧
    (HashMap.insert crampedMap 124 7).events = (HashMap.entry crampedMap 124).events ∧
      (HashMap.insert (HashMap.entry crampedMap 124).state 124 7).events = [] := by
  obtain ⟨htables, hmaps⟩ := secured_of_run (α := UInt64) (ν := Nat) (σ := Unit)
    (fun _ ↦ .scattered UInt64 .powerOfTwo) 0
  have ht := htables id (insertingTable 16 (interleavedKeys.take 16)) (admits_insertingTable _ _ _)
    124
  have hm := hmaps (insertingMap 16 (interleavedKeys.take 16)) ⟨trivial, trivial, trivial⟩ 124
  obtain ⟨habsent, hok, hgrown⟩ : crampedTable.contains 124 = false ∧
      ((crampedTable.entry 124).map fun _ ↦ ()).result = .ok () ∧
      crampedTable.capacity < (crampedTable.entry 124).state.capacity := by
    decide +kernel
  obtain ⟨habsent', hok'⟩ : Table.contains crampedMap 124 = false ∧
      ((HashMap.entry crampedMap 124).map fun _ ↦ ()).result = .ok () := by
    decide +kernel
  refine ⟨⟨hgrown, ?_⟩, ?_⟩
  · obtain ⟨e, he, -⟩ := Outcome.of_result_map hok
    obtain ⟨seat, -, hsecured⟩ := ht e habsent he
    have hinsert := hsecured.insertBy_eq 124 rfl .emplace
    have hquiet := hsecured.quiet 124
    exact ⟨(congrArg (·.state.capacity) hinsert).trans hquiet.capacity_eq,
      (congrArg (·.events) hinsert).trans hquiet.events_eq⟩
  · obtain ⟨e, he, -⟩ := Outcome.of_result_map hok'
    obtain ⟨seat, -, hsecured⟩ := hm e habsent' he
    have hinsert : (HashMap.insert (HashMap.entry crampedMap 124).state 124 7).events = [] :=
      (congrArg (·.events) (hsecured.insert_eq 124 7 rfl)).trans (hsecured.quiet (124, 7)).events_eq
    have hatOnce := congrArg (·.events) (hsecured.insert_at_once 124 7 rfl)
    exact ⟨hatOnce.trans ((congrArg (_ ++ ·) hinsert).trans (List.append_nil _)), hinsert⟩

end ProbeWindow
