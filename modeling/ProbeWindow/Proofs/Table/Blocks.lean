import ProbeWindow.Proofs.Layout
import ProbeWindow.Proofs.Table.Calls
import ProbeWindow.Proofs.Table.Headroom
import ProbeWindow.Proofs.Table.Relocation
import ProbeWindow.Table.Statistics

/-!
# The block of a table

A table that has slots has them in a block that its allocator has granted (`Housed`). The capacity
of a table changes when the slots are given back and when a relocation succeeds, and a relocation
succeeds at a capacity that it has a block for; all other calls keep the capacity. So the block is
in range, and what the table reports as its bytes is the size of the block.
-/

namespace ProbeWindow

universe u v w x y

/-- How a block is asked for: it is out of range, or the size and the alignment are exact, whether
the allocator grants it or not. -/
structure Setup.AsksExactly {κ : Type v} [BEq κ] (setup : Setup κ) (capacity : Nat) : Prop where
  /-- A block is out of range when the slots are too many for a word, or the bytes of the slots, or
  of the slots and tags, exceed half of the address space less the alignment. -/
  overflow_iff : setup.block capacity = .error .capacityOverflow ↔
    2 ^ 64 ≤ capacity + 15 ∨
    2 ^ 63 - setup.storage.slot.align < (capacity + 15) * setup.storage.slot.size ∨
    2 ^ 63 - setup.storage.slot.align <
      (capacity + 15) * setup.storage.slot.size + (capacity + 15) + 16
  /-- The size of a block is the number of bytes of slots and tags, rounded up to the alignment. -/
  size : ∀ block, setup.block capacity = .ok block ∨ setup.block capacity = .error (.refused block) →
    block.align = setup.storage.slot.align ∧
    IsLeast {n | setup.storage.slot.align ∣ n ∧
      (capacity + 15) * setup.storage.slot.size + (capacity + 15) + 16 ≤ n} block.size ∧
    block.size ≤ 2 ^ 63 - setup.storage.slot.align

section Asking

variable {κ : Type v} [BEq κ] (setup : Setup κ) (capacity : Nat)

/-- A block is out of range when there is no layout for it. -/
theorem Setup.block_eq_overflow_iff : setup.block capacity = .error .capacityOverflow ↔
    Layout.slotBlock? setup.storage.slot capacity = none := by
  rcases setup.block_cases capacity with ⟨hnone, heq⟩ | ⟨layout, hlayout, ⟨-, heq⟩ | heq⟩
  · exact iff_of_true heq hnone
  · rw [heq, hlayout]
    exact iff_of_false nofun nofun
  · rw [heq, hlayout]
    exact iff_of_false nofun nofun

/-- What the allocator is asked for, and grants or refuses, is the layout. -/
theorem Setup.layout_of_block {block : Layout} (h : setup.block capacity = .ok block ∨
      setup.block capacity = .error (.refused block)) :
    Layout.slotBlock? setup.storage.slot capacity = some block := by
  rcases setup.block_cases capacity with ⟨-, heq⟩ | ⟨layout, hlayout, ⟨-, heq⟩ | heq⟩ <;>
    rw [heq] at h <;> rcases h with h | h <;> cases h
  · exact hlayout
  · exact hlayout

/-- **Every block is asked for exactly.** -/
theorem Setup.asksExactly (halign : setup.storage.slot.align.isPowerOfTwo) :
    setup.AsksExactly capacity where
  overflow_iff := (setup.block_eq_overflow_iff capacity).trans
    (Layout.slotBlock?_eq_none_iff (Nat.pos_of_isPowerOfTwo halign))
  size _ h := Layout.isLeast_of_slotBlock? halign (setup.layout_of_block capacity h)

end Asking

namespace Table

variable {α : Type u} {κ : Type v} {ρ : Type w} {τ : Type x} {ι : Type y} [BEq κ] {key : α → κ}
  {t t' : Table key}

/-- **A table has no slots, or a block for them.** -/
def Housed (t : Table key) : Prop := t.capacity = 0 ∨ t.HasBlock t.capacity

theorem housed_empty (setup : Setup κ) : (empty key setup).Housed :=
  .inl (bare_empty setup).capacity_eq

/-- The bytes that a table with slots reports are the size of the block that it asked for. -/
def ReportsBlock (t : Table key) : Prop :=
  t.capacity ≠ 0 → ∃ block, t.setup.block t.capacity = .ok block ∧ t.totalBytes = block.size

theorem Housed.reportsBlock (h : t.Housed) : t.ReportsBlock := by
  intro hcapacity
  obtain ⟨block, hblock⟩ := h.resolve_left hcapacity
  refine ⟨block, hblock, ?_⟩
  rw [Table.totalBytes, if_neg hcapacity, t.setup.layout_of_block t.capacity (.inl hblock)]
  rfl

/-- It is about the setup and the capacity only. -/
theorem Housed.congr (h : t.Housed) (hsetup : t'.setup = t.setup)
    (hcapacity : t'.capacity = t.capacity) : t'.Housed := by
  rw [Housed, HasBlock, hsetup, hcapacity]
  exact h

theorem SameShell.housed (hshell : SameShell t t') (h : t.Housed) : t'.Housed :=
  h.congr hshell.setup_eq hshell.capacity_eq

/-! ### Relocation -/

/-- **A relocation has a block for the capacity at which it succeeds.** -/
theorem housed_of_relocate {first : Nat} {slots : SlotArray α}
    (h : t.relocate first = .ok (.ok slots)) :
    ({ t with slots := slots, rehashPending := false } : Table key).Housed := by
  obtain ⟨n, hn, -, -, hblocks⟩ := exists_chain_of_relocate h
  exact .inr (hblocks n (Nat.lt_succ_self n) _ hn)

namespace Housed

variable (h : t.Housed)
include h

theorem resize (capacity : Nat) (reason : ResizeReason) :
    (t.resize capacity reason).state.Housed := by
  rcases t.resize_cases capacity reason with ⟨fault, heq⟩ | ⟨e, heq⟩ | ⟨slots, hslots, heq⟩ <;>
    rw [heq]
  · exact h
  · exact h
  · exact housed_of_relocate hslots

theorem tryReserve (additional : Nat) : (t.tryReserve additional).state.Housed := by
  rcases t.tryReserve_cases additional with
    ⟨-, heq⟩ | ⟨-, heq⟩ | ⟨-, ⟨-, heq⟩ | ⟨slots, -, -, ⟨fault, -, heq⟩ | ⟨first, -, heq⟩⟩⟩ <;>
    rw [heq]
  · exact h
  · exact h
  · exact h
  · exact h
  · exact h.resize first .reserve

theorem reserve (additional : Nat) : (t.reserve additional).state.Housed := by
  rw [state_reserve]
  exact h.tryReserve additional

theorem rehash (count : Nat) : (t.rehash count).state.Housed := by
  rcases t.rehash_cases count with
    ⟨-, heq⟩ | ⟨-, ⟨fault, -, heq⟩ | ⟨first, -, ⟨-, heq⟩ | ⟨-, heq⟩⟩⟩ <;> rw [heq]
  · exact .inl SlotArray.capacity_unallocated
  · exact h
  · exact h
  · rcases t.resizeOrFail_cases first .rehash with ⟨fault, heq⟩ | ⟨slots, hslots, heq⟩ <;> rw [heq]
    · exact h
    · exact housed_of_relocate hslots

theorem grow : t.grow.state.Housed := by
  rcases t.grow_outcomes with ⟨fault, heq⟩ | ⟨capacity, slots, -, -, hslots, heq⟩ <;> rw [heq]
  · exact h
  · exact housed_of_relocate hslots

end Housed

/-- **Settling keeps the slots in a block**, through all the growths that it takes. -/
theorem Housed.settle (h : t.Housed) (hash : UInt64) : (t.settle hash).state.Housed := by
  fun_induction Table.settle t hash with
  | case1 => exact h
  | case2 t home hv grown events fault hfault => exact Housed.grow (t := t.markSaturated) h
  | case3 t home hv grown events hgrown ih => exact ih (Housed.grow (t := t.markSaturated) h)

theorem Housed.secure (h : t.Housed) (hash : UInt64) : (t.secure hash).state.Housed := by
  rcases t.secure_outcomes hash with ⟨fault, -, -, heq⟩ | ⟨-, -, heq⟩ | ⟨-, heq⟩ <;> rw [heq]
  · exact h
  · exact h.grow.settle hash
  · exact h.settle hash

/-! ### Calls -/

/-- **A call that asks for a seat** changes the capacity only to secure it. -/
theorem Seats.housed {k : κ} {out : Outcome (Table key) ρ} (hseats : Seats t k out) (hs : t.Sound)
    (h : t.Housed) (hsetup : out.state.setup = t.setup) : out.state.Housed := by
  have hsecured := h.secure (t.setup.hash k)
  have hsetup' := (hs.enlarged_secure (t.setup.hash k)).setup_eq
  rcases hseats with ⟨-, hquiet⟩ | ⟨-, -, hquiet⟩ | ⟨-, hstate, -, -⟩ | ⟨-, -, hstate, -, -⟩
  · exact h.congr hsetup hquiet.capacity_eq
  · exact hsecured.congr (hsetup.trans hsetup'.symm) hquiet.capacity_eq
  · exact hstate ▸ h
  · exact hstate ▸ hsecured

/-- **A call on one key keeps the slots in a block**, whether it asks for a seat or not. -/
theorem housed_of_seats_or_idle {k : κ} {P : Prop} {out : Outcome (Table key) ρ}
    (hseats : Seats t k out ∨ P ∧ Idle t out) (hs : t.Sound) (h : t.Housed)
    (hsetup : out.state.setup = t.setup) : out.state.Housed := by
  rcases hseats with hseats | ⟨-, hidle⟩
  · exact hseats.housed hs h hsetup
  · exact h.congr hsetup hidle.capacity_eq

theorem Sound.housed_emplace (hs : t.Sound) (h : t.Housed) (item : α) :
    (t.emplace item).state.Housed := by
  refine (t.seats_emplace item).housed hs h ?_
  rcases hs.emplace_cases item with ⟨o, heq, -⟩ |
    ⟨-, -, t', events, o, heq, -, hadded⟩ | ⟨t', events, fault, heq, hrehoused, -⟩ <;> rw [heq]
  · rfl
  · exact hadded.setup_eq
  · exact hrehoused.setup_eq

/-- **A call that inserts many items keeps the slots in a block.** -/
theorem ReportsBulk.housed {one : Table key → ι → Outcome (Table key) ρ} {keyOf : ι → κ}
    {out : Outcome (Table key) τ} (hbulk : ReportsBulk one keyOf t out)
    (hone : ∀ t i, t.Sound → t.Housed → (one t i).state.Sound ∧ (one t i).state.Housed)
    (hs : t.Sound) (h : t.Housed) : out.state.Housed := by
  obtain ⟨log, hrun, -⟩ := hbulk.run
  refine (BulkStep.preserves_run (P := fun t ↦ t.Sound ∧ t.Housed) ?_ ?_ hrun ⟨hs, h⟩).2
  · exact fun t n ht ↦ ⟨(ht.1.reserve n).sound, ht.2.reserve n⟩
  · exact fun t i ht ↦ hone t i ht.1 ht.2

theorem Sound.housed_emplaceMany (hs : t.Sound) (h : t.Housed) (hint : Nat) (items : List α) :
    ((t.reserve hint).andThen fun t () ↦ t.emplaceEach 0 items).state.Housed :=
  (hs.reports_emplaceMany hint items).housed
    (fun _ a ht h ↦ ⟨ht.sound_emplace a, ht.housed_emplace h a⟩) hs h

theorem sameShell_updateStep (f : α → α) (p : Table key × List α) (i : Nat) :
    SameShell p.1 (updateStep f p i).1 := by
  rw [updateStep]
  split
  · exact .refl _
  · exact ⟨⟨rfl, rfl⟩, rfl, rfl⟩

/-- A walk that changes items changes nothing else. -/
theorem sameShell_walkUpdating (t : Table key) (f : α → α) (n : Nat) :
    SameShell t (t.walkUpdating f n).1 := by
  have hfold : ∀ (indices : List Nat) (p : Table key × List α),
      SameShell p.1 (indices.foldl (updateStep f) p).1 := by
    intro indices
    induction indices with
    | nil => exact fun p ↦ .refl p.1
    | cons i indices ih => exact fun p ↦ (sameShell_updateStep f p i).trans (ih _)
  exact hfold _ (t, [])

/-- **A call on the whole table keeps the slots in a block.** -/
theorem Sound.housed_upkeep (hs : t.Sound) (h : t.Housed) (u : Upkeep) :
    (u.exec t).state.Housed := by
  have hsetup := (hs.upkept_exec u).setup_eq
  cases u with
  | clear => exact h.congr hsetup t.sameRoom_clear.capacity_eq
  | reserve additional => exact h.reserve additional
  | tryReserve additional => exact h.tryReserve additional
  | rehash count => exact h.rehash count
  | shrinkToFit => exact h.rehash 0
  | setMaxLoadFactor bits =>
    refine h.congr hsetup ?_
    show (t.setMaxLoadFactor bits).state.capacity = t.capacity
    rw [Table.setMaxLoadFactor]
    split <;> rfl
  | iter n => exact h
  | drain n leak =>
    have hroom := Upkeep.TakesOut.keepsRoom (u := .drain n leak) trivial t
    exact h.congr hsetup hroom.capacity_eq

/-- A copy has a block of its own for the same capacity. -/
theorem Housed.copyWith (h : t.Housed) {copy : α → Except Fault α}
    (hcopy : t.copyWith copy = .ok t') : t'.Housed := by
  rw [Table.copyWith] at hcopy
  split at hcopy
  · cases hcopy
    exact .inl SlotArray.capacity_unallocated
  · split at hcopy
    · cases hcopy
    · split at hcopy
      · cases hcopy
      · cases hcopy
        exact h

/-- **Every call of a table keeps its slots in a block.** -/
theorem Sound.housed_next {σ : Type w} (hs : t.Sound) (h : t.Housed) (c : Call σ α κ)
    (hkeep : c.Keeps t.SameHash t) : (c.next t).Housed := by
  cases c with
  | access a =>
    exact housed_of_seats_or_idle (t.seats_access a) hs h (hs.next (.access a) hkeep).2
  | iterMut change n => exact (t.sameShell_walkUpdating change n).housed h
  | retain visit state => exact (t.sameShell_retain visit state).housed h
  | upkeep u => exact hs.housed_upkeep h u

end Table

end ProbeWindow
