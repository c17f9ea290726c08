import ProbeWindow.Proofs.Rollback
import ProbeWindow.Proofs.Table.Growth

/-!
# Relocation loses and duplicates nothing

A relocation may be asked for a smaller capacity or a larger one. The homes of the items are others
there, so the items come in an order that has nothing to do with their new homes, and they may jam
in a window that was not full before. Then the attempt is dropped, and the next capacity of a chain
is tried.

The slots that a relocation returns are in order for their own capacity and hold every item as often
as the table does, and their capacity is the first one of the chain at which every item finds a
vacancy in its turn (`Relocated`). It returns some exactly when the chain comes to such a capacity
with a block for each one before (`exists_relocate_iff`).

That the old slots and everything else are untouched is a statement about memory: in a memory of
blocks (`relocateIn`), the items are copied from one block into others, and a block that is given up
is freed. Such a relocation ends with the memory as it was, and with one more block in it if it has
succeeded.
-/

namespace ProbeWindow

universe u v

/-! ### The chain of capacities -/

namespace GrowthPolicy

variable (policy : GrowthPolicy)

/-- The capacity for twice as many slots, unless the double does not fit a word or the policy
refuses it. -/
def next? (capacity : Nat) : Option Nat :=
  (Word.mul? capacity 2).bind fun doubled ↦ (policy.capacityFor doubled).toOption

/-- The capacities to try from a first one on, each of them the next one of the one before. -/
def chain : Nat → Nat → Option Nat
  | first, 0 => some first
  | first, n + 1 => (policy.next? first).bind fun larger ↦ chain larger n

/-- A property holds of the first so many capacities of the chain. -/
def AllOfFirst (first n : Nat) (p : Nat → Prop) : Prop :=
  ∀ m < n, ∀ c, policy.chain first m = some c → p c

variable {policy} {p : Nat → Prop} {first larger n : Nat}

theorem chain_succ (hnext : policy.next? first = some larger) (n : Nat) :
    policy.chain first (n + 1) = policy.chain larger n := by
  rw [chain, hnext, Option.bind_some]

theorem allOfFirst_zero : policy.AllOfFirst first 0 p := fun m hm ↦ absurd hm (Nat.not_lt_zero m)

theorem AllOfFirst.head (h : policy.AllOfFirst first (n + 1) p) : p first :=
  h 0 n.succ_pos first rfl

theorem AllOfFirst.tail (h : policy.AllOfFirst first (n + 1) p)
    (hnext : policy.next? first = some larger) : policy.AllOfFirst larger n p := fun m hm c hc ↦
  h (m + 1) (Nat.succ_lt_succ hm) c ((chain_succ hnext m).trans hc)

theorem AllOfFirst.cons (h : policy.AllOfFirst larger n p) (hfirst : p first)
    (hnext : policy.next? first = some larger) : policy.AllOfFirst first (n + 1) p := by
  intro m hm c hc
  cases m with
  | zero =>
    cases hc
    exact hfirst
  | succ m => exact h m (Nat.lt_of_succ_lt_succ hm) c ((chain_succ hnext m).symm.trans hc)

theorem next?_eq_some_iff : policy.next? first = some larger ↔
    first * 2 < Word.bound ∧ policy.capacityFor (first * 2) = .ok larger := by
  rw [next?, Option.bind_eq_some_iff]
  constructor
  · rintro ⟨doubled, hdoubled, hlarger⟩
    obtain ⟨hlt, rfl⟩ := Word.mul?_eq_some_iff.mp hdoubled
    rcases hcapacity : policy.capacityFor (first * 2) with fault | capacity
    · rw [hcapacity] at hlarger
      cases hlarger
    · rw [hcapacity] at hlarger
      cases hlarger
      exact ⟨hlt, rfl⟩
  · rintro ⟨hlt, hlarger⟩
    exact ⟨_, Word.mul?_eq_some_iff.mpr ⟨hlt, rfl⟩, by rw [hlarger]; rfl⟩

/-- The next capacity is at least twice as large. -/
theorem two_mul_le_of_next? (h : policy.next? first = some larger) : first * 2 ≤ larger :=
  (policy.le_of_capacityFor (next?_eq_some_iff.mp h).2).1

theorem lt_of_next? (h : policy.next? first = some larger) : first < larger := by
  obtain ⟨hle, hmin⟩ := policy.le_of_capacityFor (next?_eq_some_iff.mp h).2
  simp only [minCapacity] at hmin
  omega

/-- **Along the chain the capacity doubles.** -/
theorem mul_two_pow_le_of_chain {c : Nat} (h : policy.chain first n = some c) :
    first * 2 ^ n ≤ c := by
  induction n generalizing first with
  | zero =>
    cases h
    rw [Nat.pow_zero, Nat.mul_one]
  | succ n ih =>
    obtain ⟨larger, hnext, h⟩ := Option.bind_eq_some_iff.mp h
    calc first * 2 ^ (n + 1) = first * 2 * 2 ^ n := by
          rw [Nat.pow_succ, Nat.mul_assoc, Nat.mul_comm 2]
      _ ≤ larger * 2 ^ n := Nat.mul_le_mul_right _ (two_mul_le_of_next? hnext)
      _ ≤ c := ih h

theorem le_of_chain {c : Nat} (h : policy.chain first n = some c) : first ≤ c :=
  Nat.le_trans (Nat.le_mul_of_pos_right first (Nat.two_pow_pos n)) (mul_two_pow_le_of_chain h)

/-- **The chain is increasing.** -/
theorem lt_of_chain {m c c' : Nat} (h : policy.chain first m = some c)
    (h' : policy.chain first n = some c') (hlt : m < n) : c < c' := by
  induction m generalizing first n with
  | zero =>
    cases h
    obtain ⟨n, rfl⟩ := Nat.exists_eq_add_one_of_ne_zero (Nat.ne_of_gt hlt)
    obtain ⟨larger, hnext, h'⟩ := Option.bind_eq_some_iff.mp h'
    exact Nat.lt_of_lt_of_le (lt_of_next? hnext) (le_of_chain h')
  | succ m ih =>
    obtain ⟨n, rfl⟩ := Nat.exists_eq_add_one_of_ne_zero (Nat.ne_zero_of_lt hlt)
    obtain ⟨larger, hnext, h⟩ := Option.bind_eq_some_iff.mp h
    rw [chain_succ hnext] at h'
    exact ih h h' (Nat.lt_of_succ_lt_succ hlt)

/-- The first capacity of the chain with a property is the least one. -/
theorem AllOfFirst.le_of_chain {m c c' : Nat} (h : policy.AllOfFirst first n (¬ p ·))
    (hc : policy.chain first n = some c) (hc' : policy.chain first m = some c') (hp : p c') :
    c ≤ c' := by
  rcases Nat.lt_trichotomy m n with hlt | rfl | hgt
  · exact absurd hp (h m hlt c' hc')
  · cases hc.symm.trans hc'
    exact Nat.le_refl c
  · exact Nat.le_of_lt (lt_of_chain hc hc' hgt)

/-- It is the one that the chain begins with, or else a later one. -/
theorem AllOfFirst.start_or_later {c : Nat} (h : policy.AllOfFirst first n (¬ p ·))
    (hc : policy.chain first n = some c) (hp : p c) :
    (p first → c = first) ∧
    (¬ p first → ∃ m, policy.chain first (m + 1) = some c ∧ p c ∧
      policy.AllOfFirst first (m + 1) (¬ p ·)) := by
  constructor
  · intro hfirst
    have hstart : policy.chain first 0 = some first := rfl
    exact Nat.le_antisymm (h.le_of_chain hc hstart hfirst) (GrowthPolicy.le_of_chain hc)
  · intro hfirst
    cases n with
    | zero =>
      cases hc
      exact absurd hp hfirst
    | succ m => exact ⟨m, hc, hp, h⟩

end GrowthPolicy

namespace Table

variable {α : Type u} {κ : Type v} [BEq κ] {key : α → κ} {t : Table key}

/-! ### Attempts -/

/-- Every item of a list finds a vacancy in the window of its home, when they are placed one after
the other. -/
def FindsVacancies (t : Table key) : SlotArray α → List α → Prop
  | _, [] => True
  | slots, item :: items =>
    ∃ v, slots.vacancy? (t.setup.home (key item) slots.capacity) = some v ∧
      t.FindsVacancies (slots.place (t.setup.home (key item) slots.capacity)
        (Tag.fragmentOf (t.setup.hash (key item))) v item) items

theorem findsVacancies_iff (slots : SlotArray α) (items : List α) :
    t.FindsVacancies slots items ↔ (items.foldlM t.seat? slots).isSome = true := by
  induction items generalizing slots with
  | nil => exact iff_of_true trivial rfl
  | cons item items ih =>
    rw [FindsVacancies, List.foldlM_cons, seat?]
    simp only [Setup.home]
    cases slots.vacancy? (t.setup.policy.index (t.setup.hash (key item)) slots.capacity) with
    | none => simp
    | some v => simp [ih]

/-- The items of a table find vacancies in blank slots of a capacity, in the order of the old
slots. -/
def FitsAt (t : Table key) (capacity : Nat) : Prop :=
  t.FindsVacancies (.blank capacity) t.toList

theorem fitsAt_iff {capacity : Nat} : t.FitsAt capacity ↔ (t.reseat? capacity).isSome = true :=
  findsVacancies_iff _ _

/-- Retries go along the chain. -/
theorem retryCapacity_eq_ok_iff {capacity larger : Nat} :
    t.retryCapacity capacity = .ok (.ok larger) ↔ t.setup.policy.next? capacity = some larger := by
  rw [retryCapacity, GrowthPolicy.next?]
  cases Word.mul? capacity 2 with
  | none => simp
  | some doubled =>
    cases h : t.setup.policy.capacityFor doubled with
    | error fault => simp [h, Except.map, Except.toOption]
    | ok c => simp [h, Except.map, Except.toOption]

/-- There is a block of slots for a capacity. -/
def HasBlock (t : Table key) (capacity : Nat) : Prop := ∃ block, t.setup.block capacity = .ok block

/-- The chain comes to a capacity at which the items fit, and there is a block for every capacity up
to it. -/
def Attainable (t : Table key) (first : Nat) : Prop :=
  ∃ n capacity, t.setup.policy.chain first n = some capacity ∧ t.FitsAt capacity ∧
    t.setup.policy.AllOfFirst first (n + 1) t.HasBlock

variable {first : Nat}

/-- A relocation that succeeds has dropped the attempts at the capacities before its own, and had a
block for each attempt. -/
theorem exists_chain_of_relocate {slots : SlotArray α} (h : t.relocate first = .ok (.ok slots)) :
    ∃ n, t.setup.policy.chain first n = some slots.capacity ∧ t.FitsAt slots.capacity ∧
      t.setup.policy.AllOfFirst first n (¬ t.FitsAt ·) ∧
      t.setup.policy.AllOfFirst first (n + 1) t.HasBlock := by
  fun_induction relocate t first with
  | case1 | case3 | case4 => cases h
  | case2 first block hblock found hfound =>
    cases h
    have hfits : t.FitsAt first := fitsAt_iff.mpr (by rw [hfound]; rfl)
    rw [t.capacity_reseat? hfound]
    refine ⟨0, rfl, hfits, GrowthPolicy.allOfFirst_zero, fun m hm c hc ↦ ?_⟩
    cases Nat.lt_one_iff.mp hm
    cases hc
    exact ⟨block, hblock⟩
  | case5 first block hblock hfull larger hretry ih =>
    obtain ⟨n, hn, hfits, hbefore, hblocks⟩ := ih h
    have hnext := retryCapacity_eq_ok_iff.mp hretry
    have hnot : ¬ t.FitsAt first := by
      rw [fitsAt_iff, hfull]
      exact Bool.false_ne_true
    exact ⟨n + 1, (GrowthPolicy.chain_succ hnext n).trans hn, hfits, hbefore.cons hnot hnext,
      hblocks.cons ⟨block, hblock⟩ hnext⟩

/-- An attempt succeeds where the items fit. -/
theorem FitsAt.exists_relocate (h : t.FitsAt first) (hblock : t.HasBlock first) :
    ∃ slots, t.relocate first = .ok (.ok slots) := by
  obtain ⟨block, hblock⟩ := hblock
  obtain ⟨slots, hslots⟩ := Option.isSome_iff_exists.mp (fitsAt_iff.mp h)
  exact ⟨slots, by rw [relocate, hblock]; simp only [hslots]⟩

/-- After an attempt that is dropped the relocation goes on with the next capacity. -/
theorem relocate_eq_of_next? {larger : Nat} (hblock : t.HasBlock first) (hnot : ¬ t.FitsAt first)
    (hnext : t.setup.policy.next? first = some larger) : t.relocate first = t.relocate larger := by
  obtain ⟨block, hblock⟩ := hblock
  have hfull : t.reseat? first = none := by
    rwa [fitsAt_iff, Option.not_isSome_iff_eq_none] at hnot
  rw [relocate, hblock]
  simp only [hfull]
  split <;> rename_i hretry <;> cases hretry.symm.trans (retryCapacity_eq_ok_iff.mpr hnext)
  rfl

/-- A relocation succeeds when it can. -/
theorem Attainable.exists_relocate (h : t.Attainable first) :
    ∃ slots, t.relocate first = .ok (.ok slots) := by
  obtain ⟨n, capacity, hn, hfits, hblocks⟩ := h
  induction n generalizing first with
  | zero =>
    cases hn
    exact hfits.exists_relocate hblocks.head
  | succ n ih =>
    by_cases hfirst : t.FitsAt first
    · exact hfirst.exists_relocate hblocks.head
    · obtain ⟨larger, hnext, hn⟩ := Option.bind_eq_some_iff.mp hn
      rw [relocate_eq_of_next? hblocks.head hfirst hnext]
      exact ih hn (hblocks.tail hnext)

/-- **A relocation succeeds exactly when the chain comes to a capacity at which the items fit**,
before the allocator or the policy refuses one. -/
theorem exists_relocate_iff :
    (∃ slots, t.relocate first = .ok (.ok slots)) ↔ t.Attainable first := by
  refine ⟨fun ⟨slots, hslots⟩ ↦ ?_, Attainable.exists_relocate⟩
  obtain ⟨n, hn, hfits, -, hblocks⟩ := exists_chain_of_relocate hslots
  exact ⟨n, slots.capacity, hn, hfits, hblocks⟩

/-- **What a relocation returns.** -/
structure Relocated (t : Table key) (first : Nat) (slots : SlotArray α) : Prop where
  /-- The slots hold their items in order, for the homes of their own capacity. -/
  ordered : t.setup.Orders key slots
  /-- The capacity is one that the policy returns. -/
  offered : t.setup.Offers slots.capacity
  /-- The slots are numbered by words. -/
  slots_lt : slots.capacity + maxOffset < Word.bound
  /-- Every item is there as often as in the table, and no other is. -/
  perm : slots.toList.Perm t.toList
  /-- The capacity is the first one of the chain at which the items fit. -/
  first_fitting : ∃ n, t.setup.policy.chain first n = some slots.capacity ∧
    t.FitsAt slots.capacity ∧ t.setup.policy.AllOfFirst first n (¬ t.FitsAt ·)

theorem relocated_of_eq {slots : SlotArray α} (hoff : t.setup.Offers first)
    (h : t.relocate first = .ok (.ok slots)) : Relocated t first slots := by
  obtain ⟨hord, hperm, hoff', hlt⟩ := relocate_spec hoff h
  obtain ⟨n, hn, hfits, hbefore, -⟩ := exists_chain_of_relocate h
  exact ⟨hord, hoff', Nat.lt_of_le_of_lt (Nat.le_add_right _ _) hlt, hperm, n, hn, hfits, hbefore⟩

/-! ### Relocation in memory -/

/-- Blocks of slots by their addresses. -/
abbrev Memory (α : Type u) : Type u := Nat → Option (SlotArray α)

section Memory

variable (t : Table key)

/-- The items in some slots of a block, placed into another block one after the other until one
does not fit; and whether all did. -/
def copyItems (old new : Nat) : List Nat → Memory α → Memory α × Bool
  | [], memory => (memory, true)
  | index :: indices, memory =>
    match (memory old).bind fun slots ↦
      if slots.isOccupied index then slots.item? index else none with
    | none => copyItems old new indices memory
    | some item =>
      match (memory new).bind (t.seat? · item) with
      | none => (memory, false)
      | some slots => copyItems old new indices (Function.update memory new (some slots))

/-- The items of a block placed into a new one of a capacity, as far as they fit; and whether all
did. -/
def attemptIn (old new capacity : Nat) (memory : Memory α) : Memory α × Bool :=
  t.copyItems old new (List.range (((memory old).map SlotArray.slotCount).getD 0))
    (Function.update memory new (some (.blank capacity)))

/-- The relocation of the items of a block, attempt by attempt: each attempt has a block of its own,
at an address for its capacity, which is freed when a window is full. The answer is the address of
the block with all items. -/
def relocateIn (address : Nat → Nat) (old : Nat) (capacity : Nat) (memory : Memory α) :
    Memory α × Except Fault (Except ReserveError Nat) :=
  match t.setup.block capacity with
  | .error e => (memory, .ok (.error e))
  | .ok _ =>
    let new := address capacity
    let (memory, seated) := t.attemptIn old new capacity memory
    if seated then
      (memory, .ok (.ok new))
    else
      let memory := Function.update memory new none
      match _hretry : t.retryCapacity capacity with
      | .error fault => (memory, .error fault)
      | .ok (.error e) => (memory, .ok (.error e))
      | .ok (.ok larger) => relocateIn address old larger memory
termination_by Word.bound - capacity
decreasing_by
  have := t.lt_of_retryCapacity _hretry
  omega

end Memory

/-- The slots of the table hold its items in order, or there are none. -/
def InOrder (t : Table key) : Prop := t.slots = .unallocated ∨ t.setup.Orders key t.slots

theorem Sound.inOrder (h : t.Sound) : t.InOrder := h.imp Bare.slots_eq Furnished.ordered

/-- In slots that are in order, those that look occupied are those with an item. -/
theorem InOrder.read_eq (h : t.InOrder) {index : Nat} (hindex : index < t.slots.slotCount) :
    (if t.slots.isOccupied index then t.slots.item? index else none) = t.slots.item? index := by
  rcases h with h | h
  · rw [h] at hindex
    exact absurd hindex (Nat.not_lt_zero index)
  · split
    · rfl
    · next hvacant =>
      exact (h.formed.item?_eq_none hindex (eq_false_of_ne_true hvacant)).symm

section Memory

variable {memory : Memory α} {old : Nat}

/-- **The items of a block are copied as they are placed one after the other**, and nothing but the
new block is written to. -/
theorem InOrder.copyItems_eq (h : t.InOrder) (hold : memory old = some t.slots) {new : Nat}
    (hne : old ≠ new) {slots : SlotArray α} (hnew : memory new = some slots) (indices : List Nat)
    (hindices : ∀ i ∈ indices, i < t.slots.slotCount) :
    ∃ written, t.copyItems old new indices memory = (Function.update memory new (some written),
        ((indices.filterMap t.slots.item?).foldlM t.seat? slots).isSome) ∧
      ∀ seated, (indices.filterMap t.slots.item?).foldlM t.seat? slots = some seated →
        written = seated := by
  induction indices generalizing memory slots with
  | nil =>
    refine ⟨slots, ?_, fun seated hseated ↦ Option.some.inj hseated⟩
    rw [copyItems, ← hnew, Function.update_eq_self]
    rfl
  | cons index indices ih =>
    have hrest : ∀ i ∈ indices, i < t.slots.slotCount := fun i hi ↦
      hindices i (List.mem_cons_of_mem _ hi)
    rw [copyItems, hold, Option.bind_some, h.read_eq (hindices index List.mem_cons_self)]
    cases hitem : t.slots.item? index with
    | none =>
      rw [List.filterMap_cons_none hitem]
      exact ih hold hnew hrest
    | some item =>
      rw [List.filterMap_cons_some hitem, List.foldlM_cons, hnew]
      simp only [Option.bind_some, Option.bind_eq_bind]
      cases hseat : t.seat? slots item with
      | none =>
        refine ⟨slots, ?_, nofun⟩
        rw [← hnew, Function.update_eq_self]
        rfl
      | some seated =>
        have hold' : Function.update memory new (some seated) old = some t.slots := by
          rw [Function.update_of_ne hne, hold]
        simpa using ih hold' (Function.update_self ..) hrest

/-- An attempt writes to its own block only, and what it has written there when it succeeds is what
`reseat?` returns. -/
theorem InOrder.attemptIn_eq (h : t.InOrder) (hold : memory old = some t.slots) {new : Nat}
    (hnew : memory new = none) (capacity : Nat) :
    ∃ written, t.attemptIn old new capacity memory =
        (Function.update memory new (some written), (t.reseat? capacity).isSome) ∧
      ∀ seated, t.reseat? capacity = some seated → written = seated := by
  have hne : old ≠ new := fun heq ↦ by
    rw [heq, hnew] at hold
    cases hold
  have hitems : t.toList = (List.range t.slots.slotCount).filterMap t.slots.item? :=
    t.slots.toList_eq_filterMap
  have hold' : Function.update memory new (some (.blank capacity)) old = some t.slots := by
    rw [Function.update_of_ne hne, hold]
  obtain ⟨written, hcopied, hwritten⟩ := h.copyItems_eq hold' hne (Function.update_self ..)
    (List.range t.slots.slotCount) fun i hi ↦ List.mem_range.mp hi
  rw [Function.update_idem, ← hitems] at hcopied
  rw [← hitems] at hwritten
  rw [attemptIn, hold]
  exact ⟨written, hcopied, hwritten⟩

/-- A dropped attempt has its block freed, so the next one starts from the same memory. -/
theorem InOrder.relocateIn_of_full (h : t.InOrder) (hold : memory old = some t.slots)
    {address : Nat → Nat} {capacity : Nat} (hfree : memory (address capacity) = none)
    {block : Layout} (hblock : t.setup.block capacity = .ok block)
    (hfull : t.reseat? capacity = none) :
    t.relocateIn address old capacity memory =
      match t.retryCapacity capacity with
      | .error fault => (memory, .error fault)
      | .ok (.error e) => (memory, .ok (.error e))
      | .ok (.ok larger) => t.relocateIn address old larger memory := by
  obtain ⟨partly, hattempt, -⟩ := h.attemptIn_eq hold hfree capacity
  have hfreed : Function.update (Function.update memory (address capacity) (some partly))
      (address capacity) none = memory := by
    rw [Function.update_idem, ← hfree, Function.update_eq_self]
  rw [relocateIn, hblock]
  simp only [hattempt, hfull, hfreed, Option.isSome_none, Bool.false_eq_true, if_false]
  split <;> rename_i hretry <;> rw [hretry]

/-- **A relocation in memory** gives the answer of `relocate`. It leaves every block as it was, and
no block of an attempt that was dropped; the block of a relocation that succeeds is new. -/
theorem InOrder.relocateIn_eq (h : t.InOrder) (hold : memory old = some t.slots)
    {address : Nat → Nat} (hfree : ∀ capacity, memory (address capacity) = none) (first : Nat) :
    t.relocateIn address old first memory =
      match t.relocate first with
      | .error fault => (memory, .error fault)
      | .ok (.error e) => (memory, .ok (.error e))
      | .ok (.ok slots) => (Function.update memory (address slots.capacity) (some slots),
          .ok (.ok (address slots.capacity))) := by
  fun_induction relocate t first with
  | case1 capacity e hblock => rw [relocateIn, hblock]
  | case2 capacity block hblock found hfound =>
    obtain ⟨written, hattempt, hwritten⟩ := h.attemptIn_eq hold (hfree capacity) capacity
    rw [relocateIn, hblock]
    simp only [hattempt, hfound, Option.isSome_some, if_true, hwritten found hfound,
      t.capacity_reseat? hfound]
  | case3 capacity block hblock hfull fault hretry
  | case4 capacity block hblock hfull e hretry =>
    rw [h.relocateIn_of_full hold (hfree capacity) hblock hfull, hretry]
  | case5 capacity block hblock hfull larger hretry ih =>
    rw [h.relocateIn_of_full hold (hfree capacity) hblock hfull, hretry]
    exact ih

end Memory

/-! ### The theorem -/

/-- **A relocation loses and duplicates nothing**, whichever capacity of its policy it is asked for:
what it returns holds every item as often as the table does, in order for the first capacity of the
chain at which the items fit; and it returns something if there is such a capacity and a block for
each one up to it. The old block, and every other one, is as it was, whether the relocation succeeds
or not. -/
theorem relocation_moves_each_once (h : t.InOrder) (hoff : t.setup.Offers first)
    {memory : Memory α} {old : Nat} (hold : memory old = some t.slots) {address : Nat → Nat}
    (hfree : ∀ capacity, memory (address capacity) = none) :
    (∀ slots, t.relocate first = .ok (.ok slots) → Relocated t first slots ∧
      t.relocateIn address old first memory =
        (Function.update memory (address slots.capacity) (some slots),
          .ok (.ok (address slots.capacity)))) ∧
    (¬ t.Attainable first → (t.relocateIn address old first memory).1 = memory) ∧
    (t.relocateIn address old first memory).1 old = some t.slots ∧
    ((∃ slots, t.relocate first = .ok (.ok slots)) ↔ t.Attainable first) := by
  rw [h.relocateIn_eq hold hfree, ← exists_relocate_iff]
  have hne : ∀ capacity, old ≠ address capacity := fun capacity heq ↦ by
    rw [heq, hfree] at hold
    cases hold
  rcases hrelocate : t.relocate first with fault | e | slots
  · exact ⟨nofun, fun _ ↦ rfl, hold, .rfl⟩
  · exact ⟨nofun, fun _ ↦ rfl, hold, .rfl⟩
  · refine ⟨fun slots' heq ↦ ?_, fun hnone ↦ absurd ⟨slots, rfl⟩ hnone, ?_, .rfl⟩
    · cases heq
      exact ⟨relocated_of_eq hoff hrelocate, rfl⟩
    · exact (Function.update_of_ne (hne slots.capacity) ..).trans hold

end Table

namespace Bank

/-- Items of two homes, which are one home when there are eight homes only. -/
def mergingKeys : List UInt64 := Key.range 126 1 9 ++ Key.range 36 1 8

/-- The table with them. -/
def mergingTable : Table (id : UInt64 → UInt64) :=
  run Table.Call.next (fresh id fun _ ↦ .crowded UInt64 9 64)
    (mergingKeys.map fun k ↦
      (.call 0 (.access (.emplace k id)) : Command (Table.Call Unit UInt64 UInt64) UInt64)) 0

/-- A memory with no block but that of the table. -/
def mergingMemory : Table.Memory UInt64 :=
  Function.update (fun _ ↦ none) 0 (some mergingTable.slots)

end Bank

open Bank Table in
/-- A table is asked for a capacity at which two homes are one. At the next capacity of the chain
they are two again, and the items come in another order. -/
theorem relocation_moves_each_once_merging :
    mergingTable.capacity = 32 ∧ ∃ slots, mergingTable.relocate 8 = .ok (.ok slots) ∧
      slots.capacity = 16 ∧ slots.toList ≠ mergingTable.toList ∧
      Relocated mergingTable 8 slots ∧
      (mergingTable.relocateIn (· + 1) 0 8 mergingMemory).1 0 = some mergingTable.slots := by
  have hsound : mergingTable.Sound := Table.sound_run (admits_emplaces _ mergingKeys) 0
  obtain ⟨hcapacity, hoff, hmoved⟩ : mergingTable.capacity = 32 ∧
      mergingTable.setup.policy.capacityFor 8 = .ok 8 ∧
      ((mergingTable.relocate 8).toOption.bind Except.toOption).any
        (fun slots ↦ slots.capacity = 16 ∧ slots.toList ≠ mergingTable.toList) = true := by
    decide +kernel
  have hfree : ∀ capacity, mergingMemory (capacity + 1) = none := fun capacity ↦
    Function.update_of_ne (Nat.succ_ne_zero capacity) ..
  have hold : mergingMemory 0 = some mergingTable.slots := Function.update_self ..
  obtain ⟨hrelocated, -, hkept, -⟩ := relocation_moves_each_once hsound.inOrder ⟨8, hoff⟩ hold hfree
  rcases hrelocate : mergingTable.relocate 8 with fault | e | slots
  · rw [hrelocate] at hmoved
    cases hmoved
  · rw [hrelocate] at hmoved
    cases hmoved
  · rw [hrelocate] at hmoved
    obtain ⟨hless, horder⟩ := of_decide_eq_true hmoved
    exact ⟨hcapacity, slots, rfl, hless, horder, (hrelocated slots hrelocate).1, hkept⟩

end ProbeWindow
