import ProbeWindow.Proofs.GrowthPolicy
import ProbeWindow.Proofs.LoadFactor
import ProbeWindow.Proofs.Table.Enlargement

/-!
# Reserving memory fails as a whole

A relocation attempts to place all items at the capacity that it is asked for, and after an attempt
with a full window at a larger one (`Attempts`). Every relocation ends with one of its attempts
(`Attempts.exists_ends`), and the answer says how: the items were placed, or there was no block for
the attempt, or no larger capacity to go on with.

The old slots are not touched on the way, so a reservation that fails has done nothing, whichever
attempt it failed at. With a willing policy no attempt ends with a fault, so a reservation always
answers (`Sound.reserves`).
-/

namespace ProbeWindow

universe u v

/-- There is no block for a capacity when it is out of range, or refused by the allocator. -/
theorem Setup.block_cases {κ : Type v} [BEq κ] (setup : Setup κ) (capacity : Nat) :
    (Layout.slotBlock? setup.storage.slot capacity = none ∧
      setup.block capacity = .error .capacityOverflow) ∨
    ∃ layout, Layout.slotBlock? setup.storage.slot capacity = some layout ∧
      ((setup.allocator.grants layout = false ∧
        setup.block capacity = .error (.refused layout)) ∨
      setup.block capacity = .ok layout) := by
  rw [Setup.block]
  cases Layout.slotBlock? setup.storage.slot capacity with
  | none => exact .inl ⟨rfl, rfl⟩
  | some layout =>
    refine .inr ⟨layout, rfl, ?_⟩
    simp only
    split
    · exact .inr rfl
    · next hrefused => exact .inl ⟨Bool.eq_false_of_not_eq_true hrefused, rfl⟩

/-- **The slots for a length admit it**, and so do more slots. -/
theorem LoadFactor.le_maxSize_of_slotsFor? (f : LoadFactor) {size slots capacity : Nat}
    (h : f.slotsFor? size = some slots) (hle : slots ≤ capacity) : size ≤ f.maxSize capacity := by
  refine Nat.le_trans ?_ (f.monotone_maxSize hle)
  rw [slotsFor?] at h
  split at h
  · next hzero => exact hzero ▸ Nat.zero_le _
  · exact f.le_maxSize_firstAdmitting? h

namespace Table

variable {α : Type u} {κ : Type v} [BEq κ] {key : α → κ} {t : Table key} {first capacity : Nat}

/-! ### Attempts -/

/-- The capacities at which a relocation attempts to place the items. -/
inductive Attempts (t : Table key) (first : Nat) : Nat → Prop where
  /-- The first attempt is at the capacity that is asked for. -/
  | first : Attempts t first first
  /-- After a full window, the next attempt is at the capacity for twice as many slots. -/
  | retry {capacity larger : Nat} (h : Attempts t first capacity)
    (hblock : ∃ block, t.setup.block capacity = .ok block) (hfull : t.reseat? capacity = none)
    (hdouble : capacity * 2 < Word.bound)
    (hlarger : t.setup.policy.capacityFor (capacity * 2) = .ok larger) : Attempts t first larger

/-- How a relocation ends with the attempt at a capacity. -/
inductive Ends (t : Table key) (capacity : Nat) :
    Except Fault (Except ReserveError (SlotArray α)) → Prop where
  /-- All items are placed. -/
  | seated {slots : SlotArray α} (h : t.reseat? capacity = some slots) :
    Ends t capacity (.ok (.ok slots))
  /-- The block is out of range. -/
  | outOfRange (h : Layout.slotBlock? t.setup.storage.slot capacity = none) :
    Ends t capacity (.ok (.error .capacityOverflow))
  /-- The allocator refuses the block. -/
  | refused {layout : Layout}
    (h : Layout.slotBlock? t.setup.storage.slot capacity = some layout)
    (hrefused : t.setup.allocator.grants layout = false) :
    Ends t capacity (.ok (.error (.refused layout)))
  /-- A window is full, and twice as many slots are out of range. -/
  | overflow (hfull : t.reseat? capacity = none) (hdouble : Word.bound ≤ capacity * 2) :
    Ends t capacity (.ok (.error .capacityOverflow))
  /-- A window is full, and the policy refuses twice as many slots. -/
  | declined {fault : Fault} (hfull : t.reseat? capacity = none)
    (hdouble : capacity * 2 < Word.bound)
    (h : t.setup.policy.capacityFor (capacity * 2) = .error fault) : Ends t capacity (.error fault)

theorem retryCapacity_cases (t : Table key) (capacity : Nat) :
    (Word.bound ≤ capacity * 2 ∧ t.retryCapacity capacity = .ok (.error .capacityOverflow)) ∨
    capacity * 2 < Word.bound ∧
      ((∃ fault, t.setup.policy.capacityFor (capacity * 2) = .error fault ∧
        t.retryCapacity capacity = .error fault) ∨
      ∃ larger, t.setup.policy.capacityFor (capacity * 2) = .ok larger ∧
        t.retryCapacity capacity = .ok (.ok larger)) := by
  by_cases hdouble : capacity * 2 < Word.bound
  · have hretry : t.retryCapacity capacity =
        (t.setup.policy.capacityFor (capacity * 2)).map .ok := by
      rw [retryCapacity, Word.mul?, if_pos hdouble]
    rw [hretry]
    cases t.setup.policy.capacityFor (capacity * 2) with
    | error fault => exact .inr ⟨hdouble, .inl ⟨fault, rfl, rfl⟩⟩
    | ok larger => exact .inr ⟨hdouble, .inr ⟨larger, rfl, rfl⟩⟩
  · rw [retryCapacity, Word.mul?, if_neg hdouble]
    exact .inl ⟨Nat.le_of_not_lt hdouble, rfl⟩

/-- **A relocation ends with one of its attempts.** -/
theorem Attempts.exists_ends (h : Attempts t first capacity) :
    ∃ last, Attempts t first last ∧ Ends t last (t.relocate capacity) := by
  fun_induction relocate t capacity with
  | case1 capacity e hblock =>
    refine ⟨capacity, h, ?_⟩
    rcases t.setup.block_cases capacity with
      ⟨hnone, heq⟩ | ⟨layout, hlayout, ⟨hrefused, heq⟩ | heq⟩
    · cases heq.symm.trans hblock
      exact .outOfRange hnone
    · cases heq.symm.trans hblock
      exact .refused hlayout hrefused
    · cases heq.symm.trans hblock
  | case2 capacity block hblock slots hslots => exact ⟨capacity, h, .seated hslots⟩
  -- the window is full from here on, and it is the policy that tells the cases apart
  | case3 capacity block hblock hfull fault hretry =>
    rcases t.retryCapacity_cases capacity with
      ⟨-, heq⟩ | ⟨hdouble, ⟨fault', hlarger, heq⟩ | ⟨larger, -, heq⟩⟩ <;>
      cases heq.symm.trans hretry
    exact ⟨capacity, h, .declined hfull hdouble hlarger⟩
  | case4 capacity block hblock hfull e hretry =>
    rcases t.retryCapacity_cases capacity with
      ⟨hdouble, heq⟩ | ⟨-, ⟨fault, -, heq⟩ | ⟨larger, -, heq⟩⟩ <;> cases heq.symm.trans hretry
    exact ⟨capacity, h, .overflow hfull hdouble⟩
  | case5 capacity block hblock hfull larger hretry ih =>
    rcases t.retryCapacity_cases capacity with
      ⟨-, heq⟩ | ⟨hdouble, ⟨fault, -, heq⟩ | ⟨larger', hlarger, heq⟩⟩ <;>
      cases heq.symm.trans hretry
    exact ih (h.retry ⟨block, hblock⟩ hfull hdouble hlarger)

/-- The attempts are at capacities that the policy offers, if the first one is. -/
theorem Attempts.offers (h : Attempts t first capacity) (hoff : t.setup.Offers first) :
    t.setup.Offers capacity := by
  cases h with
  | first => exact hoff
  | retry _ _ _ _ hlarger => exact ⟨_, hlarger⟩

/-- **With a willing policy a relocation always answers.** -/
theorem exists_relocate (hpolicy : t.setup.policy.Willing) (hoff : t.setup.Offers first) :
    ∃ answer, t.relocate first = .ok answer := by
  obtain ⟨last, hlast, hends⟩ := Attempts.exists_ends (.first : Attempts t first first)
  cases hrelocate : t.relocate first with
  | ok answer => exact ⟨answer, rfl⟩
  | error fault =>
    rw [hrelocate] at hends
    cases hends with
    | declined hfull hdouble hdeclined =>
      obtain ⟨size, hsize⟩ := hlast.offers hoff
      obtain ⟨larger, hlarger⟩ := hpolicy.again size last hsize hdouble
      cases hdeclined.symm.trans hlarger

/-! ### Reservations -/

/-- A reservation asks for slots for the items and so many more, and a capacity for those. -/
def Requests (t : Table key) (additional capacity : Nat) : Prop :=
  ∃ slots, t.maxLoad.slotsFor? (t.size + additional) = some slots ∧ slots ≤ slotLimit ∧
    t.setup.policy.capacityFor slots = .ok capacity

/-- **What a reservation that reports trouble as a value may do**: it always answers, and does all
of what it is asked for or nothing. -/
structure Reserves (t : Table key) (additional : Nat)
    (out : Outcome (Table key) (Except ReserveError Unit)) : Prop where
  /-- The call answers. -/
  returns : ∃ answer, out.result = .ok answer
  /-- A call that reports trouble has changed nothing, and told of nothing. -/
  of_error : ∀ e, out.result = .ok (.error e) → out.state = t ∧ out.events = []
  /-- A layout that is reported is that of an attempt, and the allocator refused it. -/
  of_refused : ∀ layout, out.result = .ok (.error (.refused layout)) →
    ∃ first capacity, Requests t additional first ∧ Attempts t first capacity ∧
      Layout.slotBlock? t.setup.storage.slot capacity = some layout ∧
      t.setup.allocator.grants layout = false
  /-- An overflow is one of the length, of the slots for it, or of the block or the double of an
  attempt. -/
  of_overflow : out.result = .ok (.error .capacityOverflow) →
    Word.bound ≤ t.size + additional ∨
    (∀ slots, t.maxLoad.slotsFor? (t.size + additional) = some slots → slotLimit < slots) ∨
    ∃ first capacity, Requests t additional first ∧ Attempts t first capacity ∧
      (Layout.slotBlock? t.setup.storage.slot capacity = none ∨ Word.bound ≤ capacity * 2)
  /-- A call that succeeds keeps the items, and has changed nothing or moved them to a larger
  capacity. -/
  of_ok : out.result = .ok (.ok ()) →
    Enlarged t out.state ∧ (out.state = t ∧ out.events = [] ∨ t.capacity < out.state.capacity)

/-- **What a reservation does** under a willing policy: the length is out of range; or there is room
already; or no slot count in range is found; or the items are to be moved. -/
theorem tryReserve_outcomes (hpolicy : t.setup.policy.Willing) (additional : Nat) :
    (Word.bound ≤ t.size + additional ∧
      t.tryReserve additional = .done t (.error .capacityOverflow)) ∨
    (t.tryReserve additional = .done t (.ok ())) ∨
    ((∀ slots, t.maxLoad.slotsFor? (t.size + additional) = some slots → slotLimit < slots) ∧
      t.tryReserve additional = .done t (.error .capacityOverflow)) ∨
    ∃ slots first, t.maxSize < t.size + additional ∧
      t.maxLoad.slotsFor? (t.size + additional) = some slots ∧ slots ≤ slotLimit ∧
      t.setup.policy.capacityFor slots = .ok first ∧
      t.tryReserve additional = t.resize first .reserve := by
  rcases t.tryReserve_cases additional with
    ⟨hword, heq⟩ | ⟨-, heq⟩ | ⟨hsize, ⟨hslots, heq⟩ | ⟨slots, hfound, hle, hfirst⟩⟩
  · exact .inl ⟨hword, heq⟩
  · exact .inr (.inl heq)
  · exact .inr (.inr (.inl ⟨hslots, heq⟩))
  · obtain ⟨first, hcapacity⟩ := hpolicy.first slots (Nat.le_trans hle (by decide))
    rcases hfirst with ⟨fault, hfault, -⟩ | ⟨first, hfirst, heq⟩
    · cases hcapacity.symm.trans hfault
    · exact .inr (.inr (.inr ⟨slots, first, hsize, hfound, hle, hfirst, heq⟩))

/-- Room that is asked for beyond what a table admits takes a larger capacity. -/
theorem capacity_lt_of_slotsFor? {size slots : Nat} (hsize : t.maxSize < size)
    (hslots : t.maxLoad.slotsFor? size = some slots) : t.capacity < slots := by
  have hle := t.maxLoad.le_maxSize_of_slotsFor? hslots (Nat.le_refl slots)
  exact t.maxLoad.lt_of_maxSize_lt (Nat.lt_of_lt_of_le hsize hle)

/-- **A relocation to a larger capacity enlarges the table.** -/
theorem Sound.enlarged_relocate (h : t.Sound) {slots : SlotArray α} (hoff : t.setup.Offers first)
    (hle : t.capacity ≤ first) (hslots : t.relocate first = .ok (.ok slots)) :
    Enlarged t { t with slots := slots, rehashPending := false } := by
  have hresize := h.resize hoff (fun _ ↦ Nat.le_trans h.size_le hle) .reserve
  simp only [Table.resize, hslots] at hresize
  exact ⟨hresize, Nat.le_trans hle (t.le_capacity_relocate hslots), filter_relocate hoff hslots⟩

section Reserves

variable {additional : Nat}

/-- A reservation that reports an overflow for one of the reasons. -/
theorem reserves_overflow
    (h : Word.bound ≤ t.size + additional ∨
      (∀ slots, t.maxLoad.slotsFor? (t.size + additional) = some slots → slotLimit < slots) ∨
      ∃ first capacity, Requests t additional first ∧ Attempts t first capacity ∧
        (Layout.slotBlock? t.setup.storage.slot capacity = none ∨ Word.bound ≤ capacity * 2)) :
    Reserves t additional (.done t (.error .capacityOverflow)) where
  returns := ⟨_, rfl⟩
  of_error _ _ := ⟨rfl, rfl⟩
  of_refused _ := nofun
  of_overflow _ := h
  of_ok := nofun

/-- A reservation that reports a layout which was refused. -/
theorem reserves_refused {layout : Layout}
    (h : ∃ first capacity, Requests t additional first ∧ Attempts t first capacity ∧
      Layout.slotBlock? t.setup.storage.slot capacity = some layout ∧
      t.setup.allocator.grants layout = false) :
    Reserves t additional (.done t (.error (.refused layout))) where
  returns := ⟨_, rfl⟩
  of_error _ _ := ⟨rfl, rfl⟩
  of_refused layout' heq := by
    cases heq
    exact h
  of_overflow := nofun
  of_ok := nofun

/-- A reservation that succeeds. -/
theorem reserves_ok {t' : Table key} {events : List Event} (h : Enlarged t t')
    (hmoved : t' = t ∧ events = [] ∨ t.capacity < t'.capacity) :
    Reserves t additional ⟨t', events, .ok (.ok ())⟩ where
  returns := ⟨_, rfl⟩
  of_error _ := nofun
  of_refused _ := nofun
  of_overflow := nofun
  of_ok _ := ⟨h, hmoved⟩

/-- **A reservation reports what the relocation for it ends with.** -/
theorem Sound.reserves_resize (h : t.Sound) (hpolicy : t.setup.policy.Willing)
    (hrequest : Requests t additional first) (hlt : t.capacity < first) :
    Reserves t additional (t.resize first .reserve) := by
  have hoff : t.setup.Offers first := by
    obtain ⟨slots, -, -, hfirst⟩ := hrequest
    exact ⟨slots, hfirst⟩
  obtain ⟨answer, hanswer⟩ := exists_relocate hpolicy hoff
  obtain ⟨last, hlast, hends⟩ := Attempts.exists_ends (.first : Attempts t first first)
  rw [hanswer] at hends
  simp only [Table.resize, hanswer]
  cases hends with
  | outOfRange hnone =>
    exact reserves_overflow (.inr (.inr ⟨first, last, hrequest, hlast, .inl hnone⟩))
  | overflow hfull hdouble =>
    exact reserves_overflow (.inr (.inr ⟨first, last, hrequest, hlast, .inr hdouble⟩))
  | refused hlayout hrefused =>
    exact reserves_refused ⟨first, last, hrequest, hlast, hlayout, hrefused⟩
  | seated hslots =>
    have henlarged := h.enlarged_relocate hoff (Nat.le_of_lt hlt) hanswer
    exact reserves_ok henlarged (.inr (Nat.lt_of_lt_of_le hlt (t.le_capacity_relocate hanswer)))

end Reserves

/-- **Reserving memory always answers, and does all of it or nothing**, under a willing policy. -/
theorem Sound.reserves (h : t.Sound) (hpolicy : t.setup.policy.Willing) (additional : Nat) :
    Reserves t additional (t.tryReserve additional) := by
  rcases tryReserve_outcomes hpolicy additional with
    ⟨hword, heq⟩ | heq | ⟨hslots, heq⟩ | ⟨slots, first, hsize, hfound, hle, hfirst, heq⟩
  · rw [heq]
    exact reserves_overflow (.inl hword)
  · rw [heq]
    exact reserves_ok h.enlarged (.inl ⟨rfl, rfl⟩)
  · rw [heq]
    exact reserves_overflow (.inr (.inl hslots))
  · rw [heq]
    refine h.reserves_resize hpolicy ⟨slots, hfound, hle, hfirst⟩ ?_
    exact Nat.lt_of_lt_of_le (capacity_lt_of_slotsFor? hsize hfound)
      (t.setup.policy.le_of_capacityFor hfirst).1

end Table

end ProbeWindow
