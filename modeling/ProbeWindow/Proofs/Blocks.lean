import ProbeWindow.Proofs.Reports
import ProbeWindow.Proofs.Table.Blocks

/-!
# Blocks and their bytes

The block for a capacity is asked for as if numbers had no range: it is out of range exactly when the
bytes of its slots and tags are, and else it has these bytes, rounded up to the alignment. A table,
map or set that a run leads to has slots only in a block that was granted, and reports the size of
that block (`blocks_of_run`).
-/

namespace ProbeWindow

universe u v w x

open Table

/-! ### Calls of maps and sets -/

namespace HashMap

variable {κ : Type u} {ν : Type v} {σ : Type w} [BEq κ] {m : HashMap κ ν}

/-- **Every call of a map keeps its slots in a block.** -/
theorem housed_next (hm : m.Sound) (h : m.Housed) (c : Call σ κ ν) : (c.next m).Housed := by
  have hsetup := (hm.fulfils_map c).setup_eq
  cases c with
  | access a => exact housed_of_seats_or_idle (seats_access m a) hm h hsetup
  | insertMany pairs hint => exact hm.housed_emplaceMany h hint pairs
  | extend pairs hint =>
    refine (reports_extend hm pairs hint).housed (fun m p hm h ↦ ?_) hm h
    have hserved := (hm.handles_insert p).sound
    exact ⟨hserved.1, (seats_insert m p.1 p.2).housed hm h hserved.2⟩
  | iterMut change n => exact (m.sameShell_walkUpdating (changeValue change) n).housed h
  | retain visit state => exact (m.sameShell_retain (visitValue visit) state).housed h
  | upkeep u => exact hm.housed_upkeep h u

end HashMap

namespace HashSet

variable {κ : Type u} {σ : Type w} [BEq κ] {s : HashSet κ}

/-- **Every call of a set keeps its slots in a block.** -/
theorem housed_next (hs : s.Sound) (h : s.Housed) (c : Call σ κ) : (c.next s).Housed := by
  have hsetup := (hs.fulfils_set c).setup_eq
  cases c with
  | access a => exact housed_of_seats_or_idle (seats_access s a) hs h hsetup
  | insertMany items hint => exact hs.housed_emplaceMany h hint items
  | extend items hint =>
    exact (reports_extend hs items hint).housed
      (fun _ a hs h ↦ ⟨hs.sound_emplace a, hs.housed_emplace h a⟩) hs h
  | retain keep state => exact (s.sameShell_retain (visitItem keep) state).housed h
  | upkeep u => exact hs.housed_upkeep h u

end HashSet

/-! ### Runs -/

namespace Bank

variable {α : Type u} {κ : Type v} {γ : Type w} [BEq κ] {key : α → κ}
  {next : Table key → γ → Table key} {keeps : Table key → γ → Prop}

/-- **When calls keep tables sound and in blocks, so do runs.** -/
theorem housed_run
    (hcall : ∀ t c, t.Sound → t.Housed → keeps t c → (next t c).Sound ∧ (next t c).Housed)
    {setups : Nat → Setup κ} {cs : List (Command γ α)}
    (hcs : Admits next keeps SameHash (fresh key setups) cs) (r : Nat) :
    (run next (fresh key setups) cs r).Housed := by
  refine (run_preserves (P := fun t ↦ t.Sound ∧ t.Housed) ?_ ?_ hcs ?_ r).2
  · exact fun t c ht hkeep ↦ hcall t c ht.1 ht.2 hkeep
  · exact fun t t' copy ht hcopy hkeep ↦ ⟨(ht.1.copyWith hcopy hkeep).1, ht.2.copyWith hcopy⟩
  · exact fun r ↦ ⟨sound_empty (setups r), housed_empty (setups r)⟩

end Bank

variable {α : Type u} {κ : Type v} {ν : Type x} [BEq κ]

/-- **Blocks are asked for exactly, and tables report the size of their block**, in every table, map
and set that a run leads to. -/
theorem blocks_of_run (σ : Type w) (setups : Nat → Setup κ) (r : Nat) :
    (∀ (setup : Setup κ) (capacity : Nat), setup.storage.slot.align.isPowerOfTwo →
      setup.AsksExactly capacity) ∧
    (∀ (key : α → κ) (cs : List (Bank.Command (Table.Call σ α κ) α)),
      Bank.Admits Table.Call.next (fun t c ↦ c.Keeps t.SameHash t) SameHash
          (Bank.fresh key setups) cs →
        (Bank.run Table.Call.next (Bank.fresh key setups) cs r).ReportsBlock) ∧
    (∀ cs : List (Bank.Command (HashMap.Call σ κ ν) (κ × ν)),
      Bank.Admits HashMap.Call.next (fun _ _ ↦ True) SameHash (Bank.fresh Prod.fst setups) cs →
        (Bank.run HashMap.Call.next (Bank.fresh Prod.fst setups) cs r).ReportsBlock) ∧
    ∀ cs : List (Bank.Command (HashSet.Call σ κ) κ),
      Bank.Admits HashSet.Call.next (fun _ _ ↦ True) SameHash (Bank.fresh id setups) cs →
        (Bank.run HashSet.Call.next (Bank.fresh id setups) cs r).ReportsBlock := by
  refine ⟨?_, fun key cs hcs ↦ ?_, fun cs hcs ↦ ?_, fun cs hcs ↦ ?_⟩
  · exact fun setup capacity halign ↦ setup.asksExactly capacity halign
  · refine (Bank.housed_run (fun t c ht h hkeep ↦ ?_) hcs r).reportsBlock
    exact ⟨(ht.next c hkeep).1, ht.housed_next h c hkeep⟩
  · refine (Bank.housed_run (fun m c hm h _ ↦ ?_) hcs r).reportsBlock
    exact ⟨(hm.fulfils_map c).sound, HashMap.housed_next hm h c⟩
  · refine (Bank.housed_run (fun s c hs h _ ↦ ?_) hcs r).reportsBlock
    exact ⟨(hs.fulfils_set c).sound, HashSet.housed_next hs h c⟩

open Bank in
/-- The last capacity whose block is in range, with the largest size that there is, and the first one
whose block is not; and the bytes of some tables. -/
theorem blocks_of_run_crowded :
    ((Setup.crowded UInt64 32 64).AsksExactly 1024819115206086183 ∧
      (Setup.crowded UInt64 32 64).block 1024819115206086183 =
        .error (.refused ⟨2 ^ 63 - 8, 8⟩)) ∧
    ((Setup.crowded UInt64 32 64).AsksExactly 1024819115206086184 ∧
      (Setup.crowded UInt64 32 64).block 1024819115206086184 = .error .capacityOverflow) ∧
    ((filledTable 64).ReportsBlock ∧
      (filledTable 64).capacity = 32 ∧ (filledTable 64).totalBytes = 440) ∧
    (filledMap 64).ReportsBlock ∧ (filledSet 64).ReportsBlock := by
  obtain ⟨hblocks, htables, hmaps, hsets⟩ := blocks_of_run (α := UInt64) (ν := Nat) Unit
    (fun _ ↦ .crowded UInt64 32 64) 0
  refine ⟨⟨?_, by decide +kernel⟩, ⟨?_, by decide +kernel⟩, ⟨?_, by decide +kernel⟩, ?_, ?_⟩
  · exact hblocks _ _ ⟨3, rfl⟩
  · exact hblocks _ _ ⟨3, rfl⟩
  · exact htables id _ (admits_fillingTable _)
  · exact hmaps _ (admits_fillingMap _)
  · exact hsets _ (admits_fillingSet _)

end ProbeWindow
