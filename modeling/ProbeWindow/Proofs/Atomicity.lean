import ProbeWindow.Proofs.Rollback
import ProbeWindow.Proofs.Table.Attempts

/-!
# Memory is reserved for all items or for none

`tryReserve` is the one call that reports trouble with memory as a value, so that a program can go
on. It does so from every state: along every run of tables, maps and sets under the policies of the
library, it answers whatever is asked for and whatever the allocator grants, and a call that reports
trouble has changed nothing (`tryReserve_of_run`).

An allocator may grant a block at one time and refuse it at another. So the commands of a run may
give tables other allocators, at any time (`Supplied`).
-/

namespace ProbeWindow

universe u v w x

open Table

/-- A call, or another allocator from now on. -/
inductive Supplied (γ : Type w) where
  /-- A call. -/
  | call (c : γ)
  /-- Blocks come from another allocator from now on. -/
  | supply (allocator : Allocator)

namespace Supplied

variable {α : Type u} {κ : Type v} {γ : Type w} [BEq κ] {key : α → κ}

/-- The table afterwards. -/
def next (next : Table key → γ → Table key) (t : Table key) : Supplied γ → Table key
  | call c => next t c
  | supply allocator => t.withAllocator allocator

/-- Only calls have rules to keep to. -/
def Keeps (keeps : Table key → γ → Prop) (t : Table key) : Supplied γ → Prop
  | call c => keeps t c
  | supply _ => True

end Supplied

/-! ### Runs -/

section Run

variable {α : Type u} {κ : Type v} {γ : Type w} [BEq κ] {key : α → κ} {t : Table key}

/-- A table is as sound with one allocator as with another. -/
theorem Table.Sound.withAllocator (h : t.Sound) (allocator : Allocator) :
    (t.withAllocator allocator).Sound := by
  rcases h with hb | hf
  · exact .inl ⟨hb.slots_eq, hb.size_eq⟩
  · exact .inr ⟨hf.ordered, hf.offered, hf.size_eq, hf.size_le, hf.slots_lt⟩

/-- **When calls keep tables sound and their setups, every reservation along a run answers**, and
does all of what it is asked for or nothing. -/
theorem Bank.reserves_run {next : Table key → γ → Table key} {keeps : Table key → γ → Prop}
    (hcall : ∀ t c, t.Sound → keeps t c → (next t c).Sound ∧ (next t c).setup = t.setup)
    {setups : Nat → Setup κ} (hpolicy : ∀ r, (setups r).policy.Willing)
    {cs : List (Bank.Command (Supplied γ) α)}
    (hcs : Bank.Admits (Supplied.next next) (Supplied.Keeps keeps) SameHash
      (Bank.fresh key setups) cs) (r additional : Nat) :
    Reserves (Bank.run (Supplied.next next) (Bank.fresh key setups) cs r) additional
      ((Bank.run (Supplied.next next) (Bank.fresh key setups) cs r).tryReserve additional) := by
  have hrun : (Bank.run (Supplied.next next) (Bank.fresh key setups) cs r).Sound ∧
      (Bank.run (Supplied.next next) (Bank.fresh key setups) cs r).setup.policy.Willing := by
    refine Bank.run_preserves (P := fun t ↦ t.Sound ∧ t.setup.policy.Willing)
      (fun t c ht hc ↦ ?_) (fun t t' copy ht hcopy hkeep ↦ ?_) hcs
      (fun r ↦ ⟨sound_empty (setups r), hpolicy r⟩) r
    · cases c with
      | call c =>
        obtain ⟨hsound, hsetup⟩ := hcall t c ht.1 hc
        exact ⟨hsound, by rw [Supplied.next, hsetup]; exact ht.2⟩
      | supply allocator => exact ⟨ht.1.withAllocator allocator, ht.2⟩
    · obtain ⟨hsound, hsetup, -⟩ := ht.1.copyWith hcopy hkeep
      exact ⟨hsound, by rw [hsetup]; exact ht.2⟩
  exact hrun.1.reserves hrun.2 additional

end Run

variable {α : Type u} {κ : Type v} {ν : Type x} {σ : Type w} [BEq κ]

/-- **Reserving memory is total and atomic**, in every table, map and set that a run leads to, under
the policies `powerOfTwo` and `modulo`: the call answers; when it reports trouble, nothing has
changed, and there is a reason for what it reports; and when it does not, the items are as they
were, in the same slots or at a larger capacity. -/
theorem tryReserve_of_run (setups : Nat → Setup κ)
    (hpolicy : ∀ r, (setups r).policy = .powerOfTwo ∨ (setups r).policy = .modulo)
    (r additional : Nat) :
    (∀ (key : α → κ) (cs : List (Bank.Command (Supplied (Table.Call σ α κ)) α)),
      Bank.Admits (Supplied.next Table.Call.next)
          (Supplied.Keeps fun t c ↦ c.Keeps t.SameHash t) SameHash (Bank.fresh key setups) cs →
        let t := Bank.run (Supplied.next Table.Call.next) (Bank.fresh key setups) cs r
        Reserves t additional (t.tryReserve additional)) ∧
    (∀ cs : List (Bank.Command (Supplied (HashMap.Call σ κ ν)) (κ × ν)),
      Bank.Admits (Supplied.next HashMap.Call.next) (Supplied.Keeps fun _ _ ↦ True) SameHash
          (Bank.fresh Prod.fst setups) cs →
        let m := Bank.run (Supplied.next HashMap.Call.next) (Bank.fresh Prod.fst setups) cs r
        Reserves m additional (m.tryReserve additional)) ∧
    ∀ cs : List (Bank.Command (Supplied (HashSet.Call σ κ)) κ),
      Bank.Admits (Supplied.next HashSet.Call.next) (Supplied.Keeps fun _ _ ↦ True) SameHash
          (Bank.fresh id setups) cs →
        let s := Bank.run (Supplied.next HashSet.Call.next) (Bank.fresh id setups) cs r
        Reserves s additional (s.tryReserve additional) := by
  have hwilling : ∀ r, (setups r).policy.Willing := fun r ↦ by
    rcases hpolicy r with heq | heq
    · rw [heq]
      exact GrowthPolicy.powerOfTwo_willing
    · rw [heq]
      exact GrowthPolicy.modulo_willing
  refine ⟨fun key cs hcs ↦ ?_, fun cs hcs ↦ ?_, fun cs hcs ↦ ?_⟩
  · exact Bank.reserves_run (fun t c ht hkeep ↦ ht.next c hkeep) hwilling hcs r additional
  · exact Bank.reserves_run (fun m c hm _ ↦ (hm.fulfils_map c).kept) hwilling hcs r additional
  · exact Bank.reserves_run (fun s c hs _ ↦ (hs.fulfils_set c).kept) hwilling hcs r additional

namespace Bank

/-- An item is inserted, and then only small blocks are granted. -/
def narrowingTable : List (Command (Supplied (Table.Call Unit UInt64 UInt64)) UInt64) :=
  [.call 0 (.call (.access (.emplace 1 id))), .call 0 (.supply (.upTo "narrow" 1000))]

/-- The same with a map, and no block is granted. -/
def narrowingMap : List (Command (Supplied (HashMap.Call Unit UInt64 Nat)) (UInt64 × Nat)) :=
  [.call 0 (.call (.access (.insert 1 10))), .call 0 (.supply (.upTo "narrow" 0))]

/-- A set is filled with the allocator that it is made with. -/
def supplyingSet : List (Command (Supplied (HashSet.Call Unit UInt64)) UInt64) :=
  [.call 0 (.call (.insertMany [1, 2, 3] 3))]

/-- The table that gets small blocks only. -/
def narrowedTable : Table (id : UInt64 → UInt64) :=
  run (Supplied.next Table.Call.next) (fresh id fun _ ↦ .colliding UInt64) narrowingTable 0

/-- The map that gets no blocks. -/
def narrowedMap : HashMap UInt64 Nat :=
  run (Supplied.next HashMap.Call.next) (fresh Prod.fst fun _ ↦ .colliding UInt64) narrowingMap 0

/-- The set that gets the blocks that it asks for. -/
def suppliedSet : HashSet UInt64 :=
  run (Supplied.next HashSet.Call.next) (fresh id fun _ ↦ .colliding UInt64) supplyingSet 0

end Bank

open Bank in
/-- Two blocks are refused, and one is granted. -/
theorem tryReserve_of_run_narrowed :
    ((narrowedTable.tryReserve 100).result = .ok (.error (.refused ⟨1304, 8⟩)) ∧
      Reserves narrowedTable 100 (narrowedTable.tryReserve 100)) ∧
    ((narrowedMap.tryReserve 100).result = .ok (.error (.refused ⟨1304, 8⟩)) ∧
      Reserves narrowedMap 100 (narrowedMap.tryReserve 100)) ∧
    (suppliedSet.tryReserve 100).result = .ok (.ok ()) ∧
      Reserves suppliedSet 100 (suppliedSet.tryReserve 100) := by
  obtain ⟨htables, hmaps, hsets⟩ := tryReserve_of_run (α := UInt64) (ν := Nat) (σ := Unit)
    (fun _ ↦ .colliding UInt64) (fun _ ↦ .inl rfl) 0 100
  refine ⟨⟨?_, ?_⟩, ⟨?_, ?_⟩, ?_, ?_⟩
  · decide +kernel
  · exact htables id narrowingTable ⟨rfl, trivial, trivial⟩
  · decide +kernel
  · exact hmaps narrowingMap ⟨trivial, trivial, trivial⟩
  · decide +kernel
  · exact hsets supplyingSet ⟨trivial, trivial⟩

end ProbeWindow
