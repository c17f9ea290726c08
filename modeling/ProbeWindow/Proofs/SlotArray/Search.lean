import ProbeWindow.Proofs.SlotArray.Order

/-!
# Searching one window

A search compares a few items of one window only. In an array in order nothing is lost by this:
when all items that pass the test have one and the same hash, the search in the window of that
hash finds the first of them in slot order, and it finds nothing exactly when there is none.
-/

namespace ProbeWindow.SlotArray

universe u

variable {α : Type u} {hash : α → UInt64} {index : UInt64 → Nat} {s : SlotArray α}

theorem occupant?_eq_some {i : Nat} {o : Occupant α} :
    s.occupant? i = some o ↔ o.index = i ∧ s.item? i = some o.item := by
  rw [occupant?, Option.map_eq_some_iff]
  constructor
  · rintro ⟨a, ha, rfl⟩
    exact ⟨rfl, ha⟩
  · rintro ⟨rfl, h⟩
    exact ⟨o.item, h, rfl⟩

/-- **The lane of an item is a candidate.** The probe for its hash matches its tag, and no slot
of the window before it is empty. -/
theorem Ordered.mem_candidates (ord : Ordered hash index s) {i : Nat} {a : α}
    (h : s.item? i = some a) :
    i - index (hash a) ∈ (((s.group (index (hash a))).probe (Tag.fragmentOf (hash a))).below
      ((s.group (index (hash a))).vacant.lowest?.getD windowWidth)).lanes := by
  have hle := ord.home_le i a h
  have hlane : i - index (hash a) < windowWidth := Nat.lt_succ_of_le (ord.offset_le h)
  rw [LaneMask.mem_lanes, LaneMask.has_below _ hlane, has_probe_group s _ _ hlane,
    Nat.add_sub_cancel' hle, ord.tag_item i a h, beq_self_eq_true, Bool.true_and,
    decide_eq_true_eq]
  refine ⟨hlane, ?_⟩
  cases hlow : (s.group (index (hash a))).vacant.lowest? with
  | none => exact hlane
  | some empty =>
    obtain ⟨hlt, hfree, -⟩ := (LaneMask.lowest?_eq_some_iff _).mp hlow
    rw [s.has_vacant_group _ hlt, Bool.not_eq_true'] at hfree
    rw [Option.getD_some]
    -- an empty slot before the item would be a hole on its way from home
    by_contra hge
    have hcount := s.lt_slotCount_of_item? h
    rw [ord.formed.isOccupied_eq_isSome (by omega), Option.isSome_eq_false_iff,
      Option.isNone_iff_eq_none] at hfree
    exact ord.no_hole i a _ h (Nat.le_add_right _ _) (by omega) hfree

section Search

variable {test : α → Bool} {sought : UInt64}

/-- A search finds an item that passes the test. -/
theorem of_search?_eq_some {home : Nat} {fragment : UInt8} {o : Occupant α}
    (h : s.search? home fragment test = some o) :
    s.item? o.index = some o.item ∧ test o.item = true := by
  obtain ⟨lane, -, ho⟩ := List.exists_of_findSome?_eq_some h
  rw [Option.filter_eq_some_iff] at ho
  obtain ⟨hocc, htest⟩ := ho
  obtain ⟨hindex, hitem⟩ := occupant?_eq_some.mp hocc
  exact ⟨hindex ▸ hitem, htest⟩

variable (ord : Ordered hash index s) (hsought : ∀ a, test a = true → hash a = sought)
include ord hsought

/-- **A search finds the first** of the items that pass the test. -/
theorem Ordered.le_of_search?_eq_some {o : Occupant α}
    (h : s.search? (index sought) (Tag.fragmentOf sought) test = some o) {i : Nat} {a : α}
    (ha : s.item? i = some a) (htest : test a = true) : o.index ≤ i := by
  have hhash := hsought a htest
  have hmem := ord.mem_candidates ha
  have hle := ord.home_le i a ha
  rw [hhash] at hmem hle
  simp only [search?] at h
  obtain ⟨front, lane, back, hsplit, ho, hfront⟩ := List.findSome?_eq_some_iff.mp h
  have hsorted := LaneMask.lanes_sorted (((s.group (index sought)).probe
    (Tag.fragmentOf sought)).below ((s.group (index sought)).vacant.lowest?.getD windowWidth))
  rw [hsplit] at hmem hsorted
  have hindex : o.index = index sought + lane :=
    (occupant?_eq_some.mp (Option.filter_eq_some_iff.mp ho).1).1
  -- the candidates before the one that was found fail the test, and those behind it are later
  rcases List.mem_append.mp hmem with hm | hm
  · have hnone := hfront _ hm
    rw [Nat.add_sub_cancel' hle, occupant?, ha, Option.map_some, Option.filter_some,
      if_pos htest] at hnone
    cases hnone
  · rcases List.mem_cons.mp hm with heq | hm
    · omega
    · have := (List.pairwise_cons.mp (List.pairwise_append.mp hsorted).2.1).1 _ hm
      omega

/-- **A search that finds nothing misses nothing.** -/
theorem Ordered.test_eq_false_of_search?_eq_none
    (h : s.search? (index sought) (Tag.fragmentOf sought) test = none) {i : Nat} {a : α}
    (ha : s.item? i = some a) : test a = false := by
  by_contra htest
  rw [Bool.not_eq_false] at htest
  have hhash := hsought a htest
  have hmem := ord.mem_candidates ha
  have hle := ord.home_le i a ha
  rw [hhash] at hmem hle
  have hnone := List.findSome?_eq_none_iff.mp h _ hmem
  rw [Nat.add_sub_cancel' hle, occupant?, ha, Option.map_some, Option.filter_some,
    if_pos htest] at hnone
  cases hnone

end Search

end ProbeWindow.SlotArray
