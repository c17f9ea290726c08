import ProbeWindow.Proofs.Rollback

/-!
# One window or all slots

A look-up loads one window, cuts it off at the first empty slot, and compares the items whose tags
have the fragment and the offset that an item of the sought key would have there. Each of the three
filters could drop the item that is sought. In a sound table none does: the answer is that of a
search through all slots, from the first to the last, and so are those of the calls that are built
on look-up.

What a look-up compares is said apart from what it answers: two tests that agree on the candidates,
up to the first that passes, give the same answer. No other item is asked about.
-/

namespace ProbeWindow

universe u v

/-! ### Candidates -/

/-- What a search through a list finds depends on the elements up to the first that gives
something. -/
theorem findSome?_congr_of_first {β : Type u} {γ : Type v} {l : List β} {f g : β → Option γ}
    (h : ∀ front x back, l = front ++ x :: back → (∀ y ∈ front, f y = none) → g x = f x) :
    l.findSome? g = l.findSome? f := by
  induction l with
  | nil => rfl
  | cons x l ih =>
    have hx : g x = f x := h [] x l rfl (fun y hy ↦ absurd hy List.not_mem_nil)
    rw [List.findSome?_cons, List.findSome?_cons, hx]
    cases hf : f x with
    | some z => rfl
    | none =>
      refine ih fun front y back heq hfront ↦ h (x :: front) y back (by rw [heq]; rfl) ?_
      exact List.forall_mem_cons.mpr ⟨hf, hfront⟩

namespace SlotArray

variable {α : Type u} {s : SlotArray α} {home : Nat} {fragment : UInt8}

/-- A slot whose item a search compares: it is in the window of the home, no slot of the window up
to it is empty, and its tag has the fragment that is sought, with its lane as the offset. -/
structure Candidate (s : SlotArray α) (home : Nat) (fragment : UInt8) (i : Nat) : Prop where
  /-- The slot is not before the home. -/
  home_le : home ≤ i
  /-- The slot is in the window. -/
  lt_window : i < home + windowWidth
  /-- There is no hole before it. -/
  unbroken : ∀ j, home ≤ j → j ≤ i → s.isOccupied j = true
  /-- Its tag is the one that is looked for in its lane. -/
  tag_eq : s.tag i = .encode fragment (i - home)

/-- A lane is below the first vacant one when no lane up to it is vacant. -/
theorem lt_lowest?_iff {lane : Nat} (h : lane < windowWidth) :
    lane < (s.group home).vacant.lowest?.getD windowWidth ↔
      ∀ j, home ≤ j → j ≤ home + lane → s.isOccupied j = true := by
  -- a lane up to `lane` is vacant exactly when its slot is not occupied
  have hvacant : ∀ j, home ≤ j → j ≤ home + lane →
      (s.group home).vacant.has (j - home) = !s.isOccupied j := by
    intro j hle hj
    rw [s.has_vacant_group home (by omega), Nat.add_sub_cancel' hle]
  cases hlow : (s.group home).vacant.lowest? with
  | none =>
    refine ⟨fun _ j hle hj ↦ ?_, fun _ ↦ h⟩
    have hfree := (LaneMask.lowest?_eq_none_iff _).mp hlow (j - home) (by omega)
    rwa [hvacant j hle hj, Bool.not_eq_false'] at hfree
  | some empty =>
    obtain ⟨hlt, hempty, hbefore⟩ := (LaneMask.lowest?_eq_some_iff _).mp hlow
    rw [Option.getD_some]
    constructor
    · intro hlane j hle hj
      have hfree := hbefore (j - home) (by omega)
      rwa [hvacant j hle hj, Bool.not_eq_false'] at hfree
    · intro hall
      by_contra hge
      have hocc := hall (home + empty) (Nat.le_add_right _ _) (by omega)
      rw [s.has_vacant_group home hlt, hocc] at hempty
      cases hempty

/-- **The lanes that a search goes through are those of the candidates.** -/
theorem mem_lanes_iff_candidate {lane : Nat} :
    lane ∈ (((s.group home).probe fragment).below
        ((s.group home).vacant.lowest?.getD windowWidth)).lanes ↔
      s.Candidate home fragment (home + lane) := by
  rw [LaneMask.mem_lanes]
  constructor
  · rintro ⟨hlt, hhas⟩
    rw [LaneMask.has_below _ hlt, has_probe_group s _ _ hlt, Bool.and_eq_true, beq_iff_eq,
      decide_eq_true_eq, lt_lowest?_iff hlt] at hhas
    exact ⟨Nat.le_add_right _ _, Nat.add_lt_add_left hlt home, hhas.2,
      by rw [Nat.add_sub_cancel_left]; exact hhas.1⟩
  · rintro ⟨-, hwindow, hunbroken, htag⟩
    have hlt : lane < windowWidth := Nat.lt_of_add_lt_add_left hwindow
    rw [Nat.add_sub_cancel_left] at htag
    refine ⟨hlt, ?_⟩
    rw [LaneMask.has_below _ hlt, has_probe_group s _ _ hlt, Bool.and_eq_true, beq_iff_eq,
      decide_eq_true_eq, lt_lowest?_iff hlt]
    exact ⟨htag, hunbroken⟩

/-- What a search finds is a candidate. -/
theorem candidate_of_search?_eq_some {test : α → Bool} {o : Occupant α}
    (h : s.search? home fragment test = some o) : s.Candidate home fragment o.index := by
  obtain ⟨lane, hlane, ho⟩ := List.exists_of_findSome?_eq_some h
  have hindex := (occupant?_eq_some.mp (Option.filter_eq_some_iff.mp ho).1).1
  rw [hindex]
  exact mem_lanes_iff_candidate.mp hlane

/-- **A search asks about the candidates only**, in ascending order, and about none behind the
first that passes. -/
theorem search?_congr {test test' : α → Bool}
    (h : ∀ i a, s.Candidate home fragment i → s.item? i = some a →
      (∀ j b, s.Candidate home fragment j → j < i → s.item? j = some b → test b = false) →
      test' a = test a) :
    s.search? home fragment test' = s.search? home fragment test := by
  simp only [search?]
  refine findSome?_congr_of_first fun front lane back hsplit hfront ↦ ?_
  have hmem := @mem_lanes_iff_candidate _ s home fragment
  have hsorted := LaneMask.lanes_sorted (((s.group home).probe fragment).below
    ((s.group home).vacant.lowest?.getD windowWidth))
  rw [hsplit] at hmem hsorted
  cases hitem : s.item? (home + lane) with
  | none => rw [occupant?, hitem]; rfl
  | some a =>
    have htest : test' a = test a := by
      refine h _ a (hmem.mp (by simp)) hitem fun j b hj hlt hb ↦ ?_
      -- a candidate before this one was asked about, and did not pass
      have hj' : j - home ∈ front ++ lane :: back :=
        hmem.mpr (by rwa [Nat.add_sub_cancel' hj.home_le])
      have hfront' : j - home ∈ front := by
        refine (List.mem_append.mp hj').resolve_right fun hback ↦ ?_
        have hle := hj.home_le
        rcases List.mem_cons.mp hback with heq | hback
        · omega
        · have := (List.pairwise_cons.mp (List.pairwise_append.mp hsorted).2.1).1 _ hback
          omega
      have hnone := hfront _ hfront'
      rw [Nat.add_sub_cancel' hj.home_le, occupant?, hb, Option.map_some,
        Option.filter_eq_none_iff] at hnone
      exact Bool.eq_false_iff.mpr (hnone _ rfl)
    rw [occupant?, hitem, Option.map_some, Option.filter_some, Option.filter_some, htest]

end SlotArray

namespace Table

variable {α : Type u} {κ : Type v} [BEq κ] {key : α → κ} {t : Table key}

/-! ### The search through all slots -/

/-- The first occupied slot of the whole array whose item has a key. -/
def scan (t : Table key) (k : κ) : Option (Occupant α) :=
  (List.range t.slots.slotCount).findSome? fun i ↦
    if t.slots.isOccupied i then (t.slots.occupant? i).filter fun o ↦ key o.item == k else none

/-- A slot stores an item: its tag is occupied, and the item is in it. -/
structure Stores (t : Table key) (i : Nat) (a : α) : Prop where
  /-- The tag of the slot is occupied. -/
  occupied : t.slots.isOccupied i = true
  /-- The slot has the item. -/
  item : t.slots.item? i = some a

/-- An occupant has an item with a key, and no slot before it has. -/
structure Lowest (t : Table key) (k : κ) (o : Occupant α) : Prop where
  /-- The slot stores the item. -/
  stores : t.Stores o.index o.item
  /-- The item has the key. -/
  key_eq : (key o.item == k) = true
  /-- Every slot that stores an item with the key is at or behind it. -/
  least : ∀ i a, t.Stores i a → (key a == k) = true → o.index ≤ i

/-- A slot of the scan is passed when it stores no item with the key. -/
theorem scanned_eq_none_iff {k : κ} {i : Nat} :
    (if t.slots.isOccupied i then (t.slots.occupant? i).filter fun o ↦ key o.item == k
      else none) = none ↔ ∀ a, t.Stores i a → (key a == k) = false := by
  split
  · next hocc =>
    rw [Option.filter_eq_none_iff]
    refine ⟨fun h a ha ↦ ?_, fun h o ho ↦ ?_⟩
    · exact Bool.eq_false_iff.mpr (h ⟨i, a⟩ (SlotArray.occupant?_eq_some.mpr ⟨rfl, ha.item⟩))
    · exact Bool.eq_false_iff.mp (h o.item ⟨hocc, (SlotArray.occupant?_eq_some.mp ho).2⟩)
  · next hocc => exact ⟨fun _ a ha ↦ absurd ha.occupied hocc, fun _ ↦ rfl⟩

/-- **The scan finds nothing exactly when no occupied slot has an item with the key.** -/
theorem scan_eq_none_iff {k : κ} :
    t.scan k = none ↔ ∀ i a, t.Stores i a → (key a == k) = false := by
  rw [scan, List.findSome?_eq_none_iff]
  refine ⟨fun h i a ha ↦ ?_, fun h i _ ↦ scanned_eq_none_iff.mpr (h i)⟩
  exact scanned_eq_none_iff.mp
    (h i (List.mem_range.mpr (t.slots.lt_slotCount_of_item? ha.item))) a ha

/-- What a scan finds is the lowest slot of the key. -/
theorem lowest_of_scan {k : κ} {o : Occupant α} (h : t.scan k = some o) : t.Lowest k o := by
  obtain ⟨front, i, back, hsplit, ho, hfront⟩ := List.findSome?_eq_some_iff.mp h
  split at ho
  · next hocc =>
    rw [Option.filter_eq_some_iff] at ho
    obtain ⟨hindex, hitem⟩ := SlotArray.occupant?_eq_some.mp ho.1
    refine ⟨⟨hindex ▸ hocc, hindex ▸ hitem⟩, ho.2, fun j a ha hkey ↦ ?_⟩
    by_contra hlt
    -- the slots before the one that was found are the numbers before it in the range
    have hj : j ∈ front := by
      have hmem : j ∈ front ++ i :: back :=
        hsplit ▸ List.mem_range.mpr (t.slots.lt_slotCount_of_item? ha.item)
      have hsorted : (front ++ i :: back).Pairwise (· < ·) := hsplit ▸ List.pairwise_lt_range
      refine (List.mem_append.mp hmem).resolve_right fun hback ↦ ?_
      rcases List.mem_cons.mp hback with heq | hback
      · omega
      · have := (List.pairwise_cons.mp (List.pairwise_append.mp hsorted).2.1).1 _ hback
        omega
    rw [scanned_eq_none_iff.mp (hfront j hj) a ha] at hkey
    cases hkey
  · cases ho

/-- **The scan finds a slot exactly when it is the lowest one of the key.** -/
theorem scan_eq_some_iff {k : κ} {o : Occupant α} : t.scan k = some o ↔ t.Lowest k o := by
  refine ⟨lowest_of_scan, fun h ↦ ?_⟩
  cases hscan : t.scan k with
  | none =>
    have hne := scan_eq_none_iff.mp hscan _ _ h.stores
    rw [h.key_eq] at hne
    cases hne
  | some o' =>
    have h' := lowest_of_scan hscan
    have hindex : o'.index = o.index :=
      Nat.le_antisymm (h'.least _ _ h.stores h.key_eq) (h.least _ _ h'.stores h'.key_eq)
    have hitem : some o'.item = some o.item := by
      rw [← h'.stores.item, ← h.stores.item, hindex]
    obtain ⟨i, a⟩ := o
    obtain ⟨i', a'⟩ := o'
    cases hindex
    cases hitem
    rfl

/-! ### Look-up and the calls that are built on it -/

/-- What the calls that look a key up answer, when the occupant that they find is given. -/
structure Answers (t : Table key) (k : κ) (found : Option (Occupant α)) : Prop where
  /-- The slot that is found. -/
  occupant?_eq : t.occupant? k = found
  /-- The item is handed out. -/
  find?_eq : t.find? k = found.map Occupant.item
  /-- Whether there is one is told. -/
  contains_eq : t.contains k = found.isSome
  /-- A removal takes that item out, and does nothing when there is none. -/
  erase_eq : t.erase k =
    found.elim (t, none) fun o ↦ (t.eraseAt o.index, some o.item)
  /-- A change is made to that item, and to nothing when there is none. -/
  modify_eq : ∀ f, t.modify k f =
    found.elim (t, none) fun o ↦ ((t.update o f).1, some (f o.item))
  /-- The entry is the one of that item. -/
  entry_of_some : ∀ o, found = some o → t.entry k = .done t (.occupied o)
  /-- The entry is occupied for no other reason. -/
  entry_of_none : found = none → ∀ o, (t.entry k).result ≠ .ok (.occupied o)

/-- Calls answer what is found in the window. -/
theorem answers_occupant? (t : Table key) (k : κ) : t.Answers k (t.occupant? k) := by
  have hoccupant : t.occupant? k = t.locate? (t.setup.hash k) k := rfl
  refine ⟨rfl, rfl, rfl, ?_, fun f ↦ ?_, fun o ho ↦ ?_, fun hnone o ↦ ?_⟩
  · rw [Table.erase]
    cases t.occupant? k <;> rfl
  · rw [Table.modify]
    cases t.occupant? k <;> rfl
  · rw [entry]
    simp only [← hoccupant, ho]
  · rw [entry]
    simp only [← hoccupant, hnone, Outcome.result_map]
    intro hok
    cases hsecure : (t.secure (t.setup.hash k)).result with
    | error fault =>
      rw [hsecure] at hok
      cases hok
    | ok seat =>
      rw [hsecure] at hok
      cases hok

/-- A slot that is found is one with an occupied tag. -/
theorem Sound.stores_iff (h : t.Sound) {i : Nat} {a : α} :
    t.Stores i a ↔ t.slots.item? i = some a :=
  ⟨Stores.item, fun hi ↦ ⟨(h.furnished_of_item hi).ordered.isOccupied_of_item hi, hi⟩⟩

/-- An occupant that is found is the lowest slot of the key. -/
theorem Sound.lowest_of_found (h : t.Sound) {k : κ} {o : Occupant α} (ho : t.Found k o) :
    t.Lowest k o := by
  refine ⟨h.stores_iff.mpr ho.item, ho.first.key_eq, fun i a ha hkey ↦ ?_⟩
  by_contra hlt
  have hmem : a ∈ t.slots.segment 0 o.index :=
    t.slots.mem_segment.mpr ⟨i, Nat.zero_le i, Nat.lt_of_not_le hlt, ha.item⟩
  rw [ho.first.front_ne a hmem] at hkey
  cases hkey

/-- **The window of a key has what all slots have.** -/
theorem Sound.occupant?_eq_scan (h : t.Sound) (k : κ) : t.occupant? k = t.scan k := by
  rcases h.locate?_cases k with ⟨o, ho, hfound⟩ | ⟨hnone, hlookup⟩
  · rw [occupant?, ho, scan_eq_some_iff.mpr (h.lowest_of_found hfound)]
  · rw [occupant?, hnone, eq_comm, scan_eq_none_iff]
    exact fun i a ha ↦ Contents.lookup_eq_none_iff.mp hlookup a
      (t.slots.mem_toList.mpr ⟨i, ha.item⟩)

/-- A table without items has none to search for. -/
theorem Sound.occupant?_eq_search? (h : t.Sound) (k : κ) :
    t.occupant? k = t.slots.search? (t.home (t.setup.hash k)) (Tag.fragmentOf (t.setup.hash k))
      fun a ↦ key a == k := by
  rw [occupant?, locate?]
  split
  · next hsize =>
    cases hsearch : t.slots.search? (t.home (t.setup.hash k)) (Tag.fragmentOf (t.setup.hash k))
        fun a ↦ key a == k with
    | none => rfl
    | some o =>
      have hmem := t.slots.mem_toList.mpr ⟨_, (SlotArray.of_search?_eq_some hsearch).1⟩
      have hlen := List.length_pos_of_mem hmem
      have hsize' := h.size_eq_length
      rw [toList] at hsize'
      omega
  · rfl

end Table

/-- **Looking at one window is as good as looking at all slots.** In a sound table, all calls that
look a key up answer with the result of the scan. The scan finds the lowest occupied slot whose
item has the key, and nothing exactly when no occupied slot has one. And only candidates are
compared, up to the first with the key: any other test of items that agrees on these gives the same
answer. -/
theorem Table.Sound.answers_scan {α : Type u} {κ : Type v} [BEq κ] {key : α → κ} {t : Table key}
    (h : t.Sound) (k : κ) :
    t.Answers k (t.scan k) ∧
    (∀ o, t.scan k = some o ↔ t.Lowest k o) ∧
    (t.scan k = none ↔ ∀ i a, t.Stores i a → (key a == k) = false) ∧
    ∀ test : α → Bool,
      (∀ i a, t.slots.Candidate (t.home (t.setup.hash k)) (Tag.fragmentOf (t.setup.hash k)) i →
        t.slots.item? i = some a → (∀ o, t.scan k = some o → i ≤ o.index) →
        test a = (key a == k)) →
      t.slots.search? (t.home (t.setup.hash k)) (Tag.fragmentOf (t.setup.hash k)) test =
        t.scan k := by
  refine ⟨?_, fun o ↦ Table.scan_eq_some_iff, Table.scan_eq_none_iff, fun test htest ↦ ?_⟩
  · rw [← h.occupant?_eq_scan]
    exact t.answers_occupant? k
  · rw [← h.occupant?_eq_scan, h.occupant?_eq_search?]
    refine SlotArray.search?_congr fun i a hi ha hbefore ↦ htest i a hi ha fun o ho ↦ ?_
    -- the slot that is found is a candidate that passes, so it is not before this one
    by_contra hlt
    rw [← h.occupant?_eq_scan, h.occupant?_eq_search?] at ho
    obtain ⟨hitem, hkey⟩ := SlotArray.of_search?_eq_some ho
    have hne := hbefore _ _ (SlotArray.candidate_of_search?_eq_some ho) (Nat.lt_of_not_le hlt) hitem
    rw [hkey] at hne
    cases hne

open Bank in
/-- In a table whose window is full there is no hole to stop at. The eighth key of the home is
found in its eighth slot, and a further key of the home is not found, though every tag of the
window has its fragment. -/
theorem answers_scan_crowded :
    ((filledTable 32).Answers 7 ((filledTable 32).scan 7) ∧
      ((filledTable 32).scan 7).map (fun o ↦ (o.index, o.item)) = some (7, 7)) ∧
    (filledTable 32).Answers 16 ((filledTable 32).scan 16) ∧
      ((filledTable 32).scan 16).isNone = true := by
  have hsound : (filledTable 32).Sound := Table.sound_run (admits_fillingTable _) 0
  exact ⟨⟨(hsound.answers_scan 7).1, by decide +kernel⟩, (hsound.answers_scan 16).1,
    by decide +kernel⟩

end ProbeWindow
