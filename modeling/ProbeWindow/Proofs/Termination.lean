import ProbeWindow.Proofs.Rollback
import ProbeWindow.Proofs.Table.Passes

/-!
# Insertion ends

In every table, map and set that a run leads to, the search for a seat ends: whatever the policy,
the hash function and the load factor are, how many keys have the hash, and whatever calls have
failed before. It rests on soundness alone, which runs keep, and on the promises that policies make.
-/

namespace ProbeWindow

universe u v w x

open Table

variable {α : Type u} {κ : Type v} {ν : Type x} {σ : Type w} [BEq κ]

/-- **The search for a seat ends**, for every hash, wherever a run leads to: with a seat in the
window of the hash, or with a fault of a growth, after a bounded number of passes and retries. -/
theorem secureEnds_of_run (setups : Nat → Setup κ) (r : Nat) :
    (∀ (key : α → κ) (cs : List (Bank.Command (Table.Call σ α κ) α)),
      Bank.Admits Table.Call.next (fun t c ↦ c.Keeps t.SameHash t) SameHash
          (Bank.fresh key setups) cs →
        ∀ hash, SecureEnds (Bank.run Table.Call.next (Bank.fresh key setups) cs r) hash) ∧
    (∀ cs : List (Bank.Command (HashMap.Call σ κ ν) (κ × ν)),
      Bank.Admits HashMap.Call.next (fun _ _ ↦ True) SameHash (Bank.fresh Prod.fst setups) cs →
        ∀ hash, SecureEnds (Bank.run HashMap.Call.next (Bank.fresh Prod.fst setups) cs r) hash) ∧
    ∀ cs : List (Bank.Command (HashSet.Call σ κ) κ),
      Bank.Admits HashSet.Call.next (fun _ _ ↦ True) SameHash (Bank.fresh id setups) cs →
        ∀ hash, SecureEnds (Bank.run HashSet.Call.next (Bank.fresh id setups) cs r) hash :=
  ⟨fun _ _ hcs hash ↦ (Table.sound_run hcs r).secureEnds hash,
    fun _ hcs hash ↦ (HashMap.sound_run hcs r).secureEnds hash,
    fun _ hcs hash ↦ (HashSet.sound_run hcs r).secureEnds hash⟩

open Bank in
/-- A window is full. A further key of its home finds no seat, in the table and in the map, and a
key of another home finds one in the set. -/
theorem secureEnds_of_run_crowded :
    (((filledTable 64).secure ((Setup.crowded UInt64 32 64).hash 16)).result =
        .error .growthLimit ∧
      SecureEnds (filledTable 64) ((Setup.crowded UInt64 32 64).hash 16)) ∧
    (((filledMap 64).secure ((Setup.crowded UInt64 32 64).hash 16)).result = .error .growthLimit ∧
      SecureEnds (filledMap 64) ((Setup.crowded UInt64 32 64).hash 16)) ∧
    ((filledSet 64).secure ((Setup.crowded UInt64 32 64).hash 32)).result.isOk = true ∧
      SecureEnds (filledSet 64) ((Setup.crowded UInt64 32 64).hash 32) := by
  obtain ⟨htables, hmaps, hsets⟩ := secureEnds_of_run (α := UInt64) (ν := Nat) (σ := Unit)
    (fun _ ↦ .crowded UInt64 32 64) 0
  refine ⟨⟨?_, ?_⟩, ⟨?_, ?_⟩, ?_, ?_⟩
  · decide +kernel
  · exact htables id _ (admits_fillingTable _) _
  · decide +kernel
  · exact hmaps _ (admits_fillingMap _) _
  · decide +kernel
  · exact hsets _ (admits_fillingSet _) _

end ProbeWindow
