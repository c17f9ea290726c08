import ProbeWindow.Proofs.Table.Growth
import ProbeWindow.Table.Reservation

/-!
# Reservation and rehashing rehouse the table

Every operation that resizes on request leaves the table rehoused, whatever it answers and also
when it ends with a fault. For rehashing this rests on the target being large enough for the items:
either the load factor gives a slot count for them, which is no smaller than their number, or there
is no such count, and then the target is out of the range of a block.
-/

namespace ProbeWindow.Table

universe u v w

variable {α : Type u} {κ : Type v} [BEq κ] {key : α → κ} {t : Table key}

/-- **What a reservation does**: the length is out of range; or there is room already; or no slot
count in range is found; or the policy refuses the slot count, or the items are to be moved. -/
theorem tryReserve_cases (t : Table key) (additional : Nat) :
    (Word.bound ≤ t.size + additional ∧
      t.tryReserve additional = .done t (.error .capacityOverflow)) ∨
    (t.size + additional ≤ t.maxSize ∧ t.tryReserve additional = .done t (.ok ())) ∨
    t.maxSize < t.size + additional ∧
      (((∀ slots, t.maxLoad.slotsFor? (t.size + additional) = some slots → slotLimit < slots) ∧
        t.tryReserve additional = .done t (.error .capacityOverflow)) ∨
      ∃ slots, t.maxLoad.slotsFor? (t.size + additional) = some slots ∧ slots ≤ slotLimit ∧
        ((∃ fault, t.setup.policy.capacityFor slots = .error fault ∧
          t.tryReserve additional = .fail t fault) ∨
        ∃ first, t.setup.policy.capacityFor slots = .ok first ∧
          t.tryReserve additional = t.resize first .reserve)) := by
  rw [Table.tryReserve, Word.add?]
  by_cases hword : t.size + additional < Word.bound
  · rw [if_pos hword]
    simp only
    split
    · next hroom => exact .inr (.inl ⟨hroom, rfl⟩)
    · next hroom =>
      refine .inr (.inr ⟨Nat.lt_of_not_le hroom, ?_⟩)
      rcases hslots : (t.maxLoad.slotsFor? (t.size + additional)).filter (· ≤ slotLimit) with
        _ | slots
      · refine .inl ⟨fun slots hfound ↦ ?_, rfl⟩
        rw [hfound, Option.filter_eq_none_iff] at hslots
        exact Nat.lt_of_not_le fun hle ↦ hslots slots rfl (decide_eq_true hle)
      · obtain ⟨hfound, hle⟩ := Option.filter_eq_some_iff.mp hslots
        refine .inr ⟨slots, hfound, of_decide_eq_true hle, ?_⟩
        simp only
        cases hfirst : t.setup.policy.capacityFor slots with
        | error fault => exact .inl ⟨fault, rfl, rfl⟩
        | ok first => exact .inr ⟨first, rfl, rfl⟩
  · rw [if_neg hword]
    exact .inl ⟨Nat.le_of_not_lt hword, rfl⟩

theorem Sound.tryReserve (h : t.Sound) (additional : Nat) :
    Rehoused t (t.tryReserve additional).state := by
  rcases t.tryReserve_cases additional with
    ⟨-, heq⟩ | ⟨-, heq⟩ | ⟨-, ⟨-, heq⟩ | ⟨slots, hslots, -, ⟨fault, -, heq⟩ | ⟨first, hfirst, heq⟩⟩⟩
  · rw [heq]
    exact h.rehoused
  · rw [heq]
    exact h.rehoused
  · rw [heq]
    exact h.rehoused
  · rw [heq]
    exact h.rehoused
  · have hle := t.maxLoad.le_of_slotsFor? hslots
    have hge := (t.setup.policy.le_of_capacityFor hfirst).1
    rw [heq]
    exact h.resize ⟨slots, hfirst⟩ (fun _ ↦ by omega) _

theorem Sound.reserve (h : t.Sound) (additional : Nat) :
    Rehoused t (t.reserve additional).state := by
  have hreserve := h.tryReserve additional
  rw [Table.reserve]
  rcases (t.tryReserve additional).andThen_cases _ with ⟨fault, -, heq⟩ | ⟨result, -, heq⟩
  · rw [heq]
    exact hreserve
  · rw [heq]
    cases result <;> exact hreserve

/-- A target that a block can have is large enough for the items. -/
theorem size_le_rehashTarget {count capacity : Nat} (hle : t.rehashTarget count ≤ capacity)
    (hlt : capacity + maxOffset < Word.bound) : t.size ≤ capacity := by
  have hneeded := Nat.le_trans (Nat.le_max_left _ count) hle
  cases hslots : t.maxLoad.slotsFor? t.size with
  -- the target is then the largest word, which leaves no room for the overflow slots
  | none =>
    rw [hslots, Option.getD_none] at hneeded
    simp only [Word.bound, maxOffset, windowWidth] at hlt hneeded
    omega
  | some slots =>
    rw [hslots, Option.getD_some] at hneeded
    exact Nat.le_trans (t.maxLoad.le_of_slotsFor? hslots) hneeded

/-- **What rehashing does**: a table of which no slots are needed gives its slots back; the policy
refuses the target; the table has the capacity for it already; or the items are to be moved. -/
theorem rehash_cases (t : Table key) (count : Nat) :
    (t.rehashTarget count = 0 ∧
      t.rehash count = .done { t with slots := .unallocated, rehashPending := false } ()) ∨
    t.rehashTarget count ≠ 0 ∧
      ((∃ fault, t.setup.policy.capacityFor (t.rehashTarget count) = .error fault ∧
        t.rehash count = .fail t fault) ∨
      ∃ first, t.setup.policy.capacityFor (t.rehashTarget count) = .ok first ∧
        (first = t.capacity ∧ t.rehash count = .done t () ∨
          first ≠ t.capacity ∧ t.rehash count = t.resizeOrFail first .rehash)) := by
  simp only [Table.rehash]
  split
  · next hzero => exact .inl ⟨hzero, rfl⟩
  · next hne =>
    refine .inr ⟨hne, ?_⟩
    rcases hfirst : t.setup.policy.capacityFor (t.rehashTarget count) with fault | first
    · exact .inl ⟨fault, rfl, rfl⟩
    · refine .inr ⟨first, rfl, ?_⟩
      simp only
      split
      · next heq => exact .inl ⟨heq, rfl⟩
      · next hne => exact .inr ⟨hne, rfl⟩

/-- **Rehashing rehouses the table.** -/
theorem Sound.rehash (h : t.Sound) (count : Nat) : Rehoused t (t.rehash count).state := by
  rcases t.rehash_cases count with
    ⟨hzero, heq⟩ | ⟨-, ⟨fault, -, heq⟩ | ⟨first, hfirst, ⟨-, heq⟩ | ⟨-, heq⟩⟩⟩ <;> rw [heq]
  · have hsize : t.size = 0 :=
      Nat.le_zero.mp (size_le_rehashTarget (Nat.le_of_eq hzero) (by decide))
    have hnil := List.eq_nil_of_length_eq_zero (h.size_eq_length.symm.trans hsize)
    refine ⟨.inl ⟨rfl, hsize⟩, ?_, rfl, rfl⟩
    rw [hnil]
    exact .refl _
  · exact h.rehoused
  · exact h.rehoused
  · have hge := (t.setup.policy.le_of_capacityFor hfirst).1
    exact h.resizeOrFail ⟨_, hfirst⟩ (size_le_rehashTarget hge) _

theorem Sound.shrinkToFit (h : t.Sound) : Rehoused t t.shrinkToFit.state := h.rehash 0

/-- A call that makes room before it goes on ends with a fault, or goes on with a table that holds
the same items. -/
theorem Sound.reserve_andThen_cases {ρ : Type w} (h : t.Sound) (additional : Nat)
    (next : Table key → Unit → Outcome (Table key) ρ) :
    (∃ fault, ((t.reserve additional).andThen next).result = .error fault ∧
      Rehoused t ((t.reserve additional).andThen next).state) ∨
    ∃ t', Rehoused t t' ∧
      ((t.reserve additional).andThen next).state = (next t' ()).state ∧
      ((t.reserve additional).andThen next).result = (next t' ()).result := by
  have hrehoused := h.reserve additional
  rcases Outcome.andThen_cases (t.reserve additional) next with ⟨fault, -, heq⟩ | ⟨r, -, heq⟩
  · rw [heq]
    exact .inl ⟨fault, rfl, hrehoused⟩
  · rw [heq]
    exact .inr ⟨_, hrehoused, rfl, rfl⟩

section AndThen

variable {ρ : Type w} (h : t.Sound) {additional : Nat}
  {next : Table key → Unit → Outcome (Table key) ρ}
include h

theorem Sound.sound_reserve_andThen
    (hnext : ∀ t', Rehoused t t' →
      (next t' ()).state.Sound ∧ (next t' ()).state.setup = t'.setup) :
    ((t.reserve additional).andThen next).state.Sound ∧
      ((t.reserve additional).andThen next).state.setup = t.setup := by
  rcases h.reserve_andThen_cases additional next with
    ⟨-, -, hrehoused⟩ | ⟨t', hrehoused, hstate, -⟩
  · exact ⟨hrehoused.sound, hrehoused.setup_eq⟩
  · obtain ⟨hsound, hsetup⟩ := hnext t' hrehoused
    rw [hstate]
    exact ⟨hsound, hsetup.trans hrehoused.setup_eq⟩

theorem Sound.of_reserve_andThen {r : ρ}
    (hr : ((t.reserve additional).andThen next).result = .ok r) :
    ∃ t', Rehoused t t' ∧ ((t.reserve additional).andThen next).state = (next t' ()).state ∧
      (next t' ()).result = .ok r := by
  rcases h.reserve_andThen_cases additional next with
    ⟨fault, hfault, -⟩ | ⟨t', hrehoused, hstate, hresult⟩
  · rw [hr] at hfault
    cases hfault
  · exact ⟨t', hrehoused, hstate, hresult.symm.trans hr⟩

end AndThen

end ProbeWindow.Table
