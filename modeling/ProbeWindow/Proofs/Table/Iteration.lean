import ProbeWindow.Proofs.SlotArray.Walk
import ProbeWindow.Proofs.Table.Reservation
import ProbeWindow.Table.Iteration

/-!
# Iteration goes through the list of items

A borrowing walk yields the items in slot order, up to the number asked for; a walk that changes
what it yields changes these items and no other; a draining walk takes them out. So all three are
`take` and `drop` on the list of items. A draining walk is at a slot before which there is no item
(`Drain.Started`): the backward shift that closes the gap of a removed item reaches no slot before
it.
-/

namespace ProbeWindow

universe u v

variable {α : Type u} {κ : Type v} [BEq κ] {key : α → κ}

/-! ### Borrowing walks -/

/-- Without slots there is nothing to visit. -/
theorem Cursor.take_of_slotCount_eq_zero {s : SlotArray α} (h : s.slotCount = 0) (n : Nat)
    (c : Cursor) : (Cursor.take s n c).1 = [] := by
  cases n with
  | zero => rfl
  | succ n =>
    have hskip : c.next s = (none, ⟨Cursor.skipVacant s c.position, c.remaining⟩) := by
      rw [Cursor.next, h]
      exact if_neg (Nat.not_lt_zero _)
    rw [Cursor.take, hskip]

namespace Table

variable {t : Table key}

/-- A walk over a table visits the first of its occupied slots. -/
theorem Sound.take_cursor (h : t.Sound) (n : Nat) :
    (Cursor.take t.slots n t.cursor).1 = (t.slots.occupiedSlots 0 t.slots.slotCount).take n := by
  rcases h with h | h
  · have hzero : t.slots.slotCount = 0 := by
      rw [h.slots_eq]
      rfl
    rw [Cursor.take_of_slotCount_eq_zero hzero, hzero,
      SlotArray.occupiedSlots_eq_nil fun j _ hj ↦ absurd hj (Nat.not_lt_zero j), List.take_nil]
  · exact (Cursor.take_spec h.ordered.formed n t.cursor).1

/-- **A walk yields the items in slot order.** -/
theorem Sound.walk (h : t.Sound) (n : Nat) : (t.walk n t.cursor).1 = t.toList.take n := by
  show (Cursor.take t.slots n t.cursor).1.filterMap t.slots.item? = _
  rw [h.take_cursor, SlotArray.filterMap_take_occupiedSlots, toList, SlotArray.toList_eq_segment]

/-! ### Walks that change what they yield -/

/-- One step of a walk that changes what it yields: the table so far, and the items that were
yielded, the last one first. -/
def updateStep (f : α → α) (p : Table key × List α) (i : Nat) : Table key × List α :=
  match p.1.slots.occupant? i with
  | none => p
  | some o => ((p.1.update o f).1, (p.1.update o f).2 :: p.2)

theorem updateEach_eq_foldl (f : α → α) (indices : List Nat) :
    t.updateEach f indices =
      ((indices.foldl (updateStep f) (t, [])).1,
        (indices.foldl (updateStep f) (t, [])).2.reverse) := rfl

/-- A step at an item changes it. -/
theorem updateStep_eq (f : α → α) {i : Nat} {a : α} (ha : t.slots.item? i = some a)
    (items : List α) :
    updateStep f (t, items) i = ((t.update ⟨i, a⟩ f).1, f a :: items) := by
  have ho : t.slots.occupant? i = some ⟨i, a⟩ := SlotArray.occupant?_eq_some.mpr ⟨rfl, ha⟩
  simp only [updateStep, ho]
  rfl

/-- **The first of the occupied slots from `start` on have their items changed**, and no other. -/
theorem Sound.foldl_updateStep {f : α → α} (n start : Nat) {t : Table key} (h : t.Sound)
    (hf : ∀ a ∈ (t.slots.segment start t.slots.slotCount).take n,
      t.setup.hash (key (f a)) = t.setup.hash (key a)) (items : List α) :
    let p := ((t.slots.occupiedSlots start t.slots.slotCount).take n).foldl (updateStep f)
      (t, items)
    p.1.Sound ∧ p.1.setup = t.setup ∧
      p.1.toList = t.slots.segment 0 start ++
        (((t.slots.segment start t.slots.slotCount).take n).map f ++
          (t.slots.segment start t.slots.slotCount).drop n) ∧
      p.2 = (((t.slots.segment start t.slots.slotCount).take n).map f).reverse ++ items := by
  induction n generalizing start t items with
  | zero => exact ⟨h, rfl, t.slots.toList_cut start, rfl⟩
  | succ n ih =>
    rcases t.slots.occupiedSlots_cases start t.slots.slotCount with
      ⟨hnil, hseg⟩ | ⟨i, a, hle, hlt, ha, hfree, hcons, hseg⟩
    · rw [hnil, hseg]
      refine ⟨h, rfl, ?_, rfl⟩
      have hcut := t.slots.toList_cut start
      rwa [hseg] at hcut
    -- the first item that is left is changed; the items before it are those before `start`
    · rw [hseg, List.take_succ_cons] at hf
      have hsound := h.update (o := ⟨i, a⟩) ha (hf a List.mem_cons_self)
      have hcount : (t.update ⟨i, a⟩ f).1.slots.slotCount = t.slots.slotCount :=
        t.slots.slotCount_setItem i (f a)
      have hrest : (t.update ⟨i, a⟩ f).1.slots.segment (i + 1) t.slots.slotCount =
          t.slots.segment (i + 1) t.slots.slotCount :=
        t.slots.segment_setItem_of_lt (Nat.lt_succ_self i) (f a)
      have hindices : (t.update ⟨i, a⟩ f).1.slots.occupiedSlots (i + 1) t.slots.slotCount =
          t.slots.occupiedSlots (i + 1) t.slots.slotCount :=
        t.slots.occupiedSlots_setItem_of_lt (Nat.lt_succ_self i) (f a)
      have hfront : (t.update ⟨i, a⟩ f).1.slots.segment 0 (i + 1) =
          t.slots.segment 0 start ++ [f a] := by
        rw [SlotArray.segment_succ _ (Nat.zero_le i)]
        show (t.slots.setItem i (f a)).segment 0 i ++ ((t.slots.setItem i (f a)).item? i).toList = _
        rw [t.slots.segment_setItem_of_le (Nat.le_refl i), SlotArray.item?_setItem,
          if_pos ⟨rfl, hlt⟩, t.slots.segment_cut 0 start i (Nat.zero_le _) hle,
          t.slots.segment_eq_nil hfree, List.append_nil]
        rfl
      have hih := ih (i + 1) hsound (by
        rw [hcount, hrest]
        exact fun b hb ↦ hf b (List.mem_cons_of_mem a hb)) (f a :: items)
      rw [hcount, hrest, hindices, hfront] at hih
      obtain ⟨h1, h2, h3, h4⟩ := hih
      rw [hcons, hseg, List.take_succ_cons, List.foldl_cons, updateStep_eq f ha,
        List.take_succ_cons, List.drop_succ_cons]
      refine ⟨h1, h2, ?_, ?_⟩
      · rw [h3, List.map_cons, List.append_assoc]
        rfl
      · rw [h4, List.map_cons, List.reverse_cons, List.append_assoc]
        rfl

/-- **A walk that changes what it yields** changes the first items, and yields them changed. -/
theorem Sound.walkUpdating {t : Table key} (h : t.Sound) {f : α → α} (n : Nat)
    (hf : ∀ a ∈ t.toList.take n, t.setup.hash (key (f a)) = t.setup.hash (key a)) :
    (t.walkUpdating f n).1.Sound ∧ (t.walkUpdating f n).1.setup = t.setup ∧
      (t.walkUpdating f n).1.toList = (t.toList.take n).map f ++ t.toList.drop n ∧
      (t.walkUpdating f n).2.1 = (t.toList.take n).map f := by
  have hlist : t.toList = t.slots.segment 0 t.slots.slotCount := t.slots.toList_eq_segment
  rw [hlist] at hf ⊢
  obtain ⟨h1, h2, h3, h4⟩ := h.foldl_updateStep n 0 hf []
  rw [SlotArray.segment_self, List.nil_append] at h3
  show (t.updateEach f _).1.Sound ∧ (t.updateEach f _).1.setup = t.setup ∧
    (t.updateEach f _).1.toList = _ ∧ (t.updateEach f _).2 = _
  rw [h.take_cursor, updateEach_eq_foldl]
  refine ⟨h1, h2, h3, ?_⟩
  rw [h4, List.append_nil, List.reverse_reverse]

end Table

/-! ### Draining walks -/

namespace Drain

/-- A draining walk is under way: the table is sound, and before the slot where the walk goes on
there is no item. -/
structure Started (d : Drain key) : Prop where
  /-- The table is sound. -/
  sound : d.table.Sound
  /-- No slot before the walk has an item. -/
  vacant : ∀ j < d.index, d.table.slots.item? j = none

theorem started_start {t : Table key} (h : t.Sound) : (start t).Started :=
  ⟨h, fun _ hj ↦ absurd hj (Nat.not_lt_zero _)⟩

theorem nextOccupied?_cases (s : SlotArray α) (index : Nat) :
    (nextOccupied? s index = none ∧ ∀ j, index ≤ j → s.item? j = none) ∨
      ∃ o, nextOccupied? s index = some o ∧ s.item? o.index = some o.item ∧
        ∀ j, index ≤ j → j < o.index → s.item? j = none := by
  fun_induction nextOccupied? s index with
  | case1 index hlt ih =>
    cases hitem : s.item? index with
    | some a =>
      have ho : s.occupant? index = some ⟨index, a⟩ := SlotArray.occupant?_eq_some.mpr ⟨rfl, hitem⟩
      exact .inr ⟨⟨index, a⟩, by rw [ho]; rfl, hitem, fun j h1 h2 ↦ absurd h2 (Nat.not_lt.mpr h1)⟩
    | none =>
      have ho : s.occupant? index = none := by rw [SlotArray.occupant?, hitem]; rfl
      have hfree : ∀ {P : Nat → Prop} (j : Nat), (∀ j, index + 1 ≤ j → P j → s.item? j = none) →
          index ≤ j → P j → s.item? j = none := by
        intro P j hP hle hj
        rcases Nat.eq_or_lt_of_le hle with heq | hlt
        · exact heq ▸ hitem
        · exact hP j hlt hj
      rw [ho, Option.none_or]
      rcases ih with ⟨hnone, hvacant⟩ | ⟨o, hsome, hitem, hvacant⟩
      · exact .inl ⟨hnone, fun j hle ↦ hfree j (fun j h1 (_ : True) ↦ hvacant j h1) hle trivial⟩
      · exact .inr ⟨o, hsome, hitem, fun j hle hlt ↦ hfree j hvacant hle hlt⟩
  | case2 index hge => exact .inl ⟨rfl, fun j hle ↦ s.item?_eq_none_of_le (by omega)⟩

/-- A draining walk goes on with fewer items of a table. -/
structure Continues (d d' : Drain key) : Prop where
  /-- The walk is under way. -/
  started : d'.Started
  /-- The setup is the same. -/
  setup_eq : d'.table.setup = d.table.setup

/-- **A step takes out the first item that is left**; it yields none when none is left. -/
theorem Started.next_cases {d : Drain key} (h : d.Started) :
    (∃ d', d.next = (none, d') ∧ d.table.toList = [] ∧ d'.table = d.table ∧ Continues d d') ∨
      ∃ a rest d', d.next = (some a, d') ∧ d.table.toList = a :: rest ∧ d'.table.toList = rest ∧
        Continues d d' := by
  have hcut := d.table.slots.toList_cut d.index
  rw [d.table.slots.segment_eq_nil fun j _ hj ↦ h.vacant j hj, List.nil_append] at hcut
  by_cases hsize : d.table.size = 0
  · have hnil := List.eq_nil_of_length_eq_zero (h.sound.size_eq_length.symm.trans hsize)
    exact .inl ⟨d, by rw [next, if_pos hsize], hnil, rfl, h, rfl⟩
  · rw [next, if_neg hsize]
    rcases nextOccupied?_cases d.table.slots d.index with
      ⟨hnone, hvacant⟩ | ⟨o, hsome, hitem, hvacant⟩
    · rw [d.table.slots.segment_eq_nil fun j hj _ ↦ hvacant j hj] at hcut
      refine absurd ?_ hsize
      rw [h.sound.size_eq_length, Table.toList, hcut, List.length_nil]
    · have hlt := d.table.slots.lt_slotCount_of_item? hitem
      have hordered := (h.sound.furnished_of_item hitem).ordered
      -- the item is the first of the whole table, so what is left is the rest of the list
      have hfree : ∀ j < o.index, d.table.slots.item? j = none := by
        intro j hj
        rcases Nat.lt_or_ge j d.index with hlt | hge
        · exact h.vacant j hlt
        · exact hvacant j hge hj
      have hfront : d.table.slots.segment 0 o.index = [] :=
        d.table.slots.segment_eq_nil fun j _ hj ↦ hfree j hj
      have hsplit := d.table.slots.toList_of_item? hitem
      have hrest := h.sound.toList_eraseAt hitem
      rw [hfront] at hsplit
      rw [hfront] at hrest
      rw [hsome]
      refine .inr ⟨o.item, _, _, rfl, hsplit, hrest, ⟨h.sound.eraseAt hitem, ?_⟩, rfl⟩
      intro j hj
      show (d.table.slots.erase o.index).item? j = none
      rw [hordered.formed.item?_erase_of_lt hlt hj, hfree j hj]

/-- **A draining walk takes out the first items**, as many as were asked for, and leaves the
others. -/
theorem Started.take_spec (n : Nat) {d : Drain key} (h : d.Started) :
    (take n d).1 = d.table.toList.take n ∧
      (take n d).2.table.toList = d.table.toList.drop n ∧ Continues d (take n d).2 := by
  induction n generalizing d with
  | zero => exact ⟨rfl, rfl, h, rfl⟩
  | succ n ih =>
    rcases h.next_cases with ⟨d', hnext, hnil, htable, hcont⟩ | ⟨a, rest, d', hnext, hl, hl', hcont⟩
    · rw [take, hnext, hnil]
      exact ⟨rfl, by rw [htable, hnil]; rfl, hcont⟩
    · obtain ⟨h1, h2, h3⟩ := ih hcont.started
      rw [take, hnext, hl, List.take_succ_cons, List.drop_succ_cons]
      refine ⟨?_, ?_, h3.started, h3.setup_eq.trans hcont.setup_eq⟩
      · show a :: (take n d').1 = _
        rw [h1, hl']
      · show (take n d').2.table.toList = _
        rw [h2, hl']

/-- A walk that is given up properly leaves no item. -/
theorem Started.finish {d : Drain key} (h : d.Started) :
    d.finish.Sound ∧ d.finish.setup = d.table.setup ∧ d.finish.toList = [] := by
  obtain ⟨-, hrest, hcont⟩ := h.take_spec d.table.size
  rw [h.sound.size_eq_length, List.drop_length] at hrest
  refine ⟨hcont.started.sound.mark false, hcont.setup_eq, ?_⟩
  show (take d.table.size d).2.table.toList = []
  rwa [h.sound.size_eq_length]

end Drain

end ProbeWindow
