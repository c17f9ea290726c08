import ProbeWindow.Proofs.SlotArray.Packing
import ProbeWindow.Proofs.SlotArray.Placement

/-!
# Placing is carrying from slot to slot

Displacement is usually explained one slot at a time. A new item is carried from its home on. Where
a resident is closer to its home than the item in hand, the two are swapped, and the resident is
carried on; the walk ends at the first empty slot (`walk`). Placing does the same in one go: it
finds the end of the walk first and moves all residents on the way at once.

The two do not leave the same array. Of the residents of one home the walk takes the first one to
the end, and placing moves each of them by one slot. But they leave the same layout, and an empty
slot in the window is what both need. The first is a matter of order alone: a swap keeps the array
in order (`Ordered.writeCarried`), so both results are arrays in order with items of the same homes,
and those have one layout. The second rests on the order of homes: residents that move have larger
homes, so their windows end no sooner than that of the new item, and neither the walk
(`Ordered.exists_walk_eq_settled`) nor placing (`Ordered.exists_vacancy?`) can take one too far.
-/

namespace ProbeWindow

universe u

/-- How a walk with an item ends. -/
inductive WalkEnd (α : Type u) where
  /-- An empty slot takes the item that is carried. -/
  | settled (slots : SlotArray α)
  /-- An item would be carried past the largest offset. -/
  | overrun
  /-- There is no slot left. -/
  | exhausted

namespace SlotArray

variable {α : Type u} {hash : α → UInt64} {index : UInt64 → Nat} {s : SlotArray α}

/-- The walk from a slot on with an item in hand, whose tag is the one that it would have there. -/
def carry (s : SlotArray α) (i : Nat) (tag : Tag) (x : α) : WalkEnd α :=
  if i < s.slotCount then
    match s.item? i with
    | none => .settled (s.write i tag x)
    | some resident =>
      if (s.tag i).offset < tag.offset then
        carry (s.write i tag x) (i + 1) (s.tag i).pushed resident
      else if tag.offset = maxOffset then
        .overrun
      else
        carry s (i + 1) tag.pushed x
  else
    .exhausted
termination_by s.slotCount - i
decreasing_by
  · rw [slotCount_write]
    omega
  · omega

/-- The walk of a new item from its home. -/
def walk (s : SlotArray α) (home : Nat) (fragment : UInt8) (x : α) : WalkEnd α :=
  s.carry home (.encode fragment 0) x

/-! ### What a walk leaves -/

/-- An item with the given home may be carried to a slot: on the way there is no empty slot, and no
resident with a larger home. -/
structure Reaches (hash : α → UInt64) (index : UInt64 → Nat) (s : SlotArray α) (home i : Nat) :
    Prop where
  /-- The slot is not before the home. -/
  home_le : home ≤ i
  /-- The slot is in the window of the home. -/
  le_home_add : i ≤ home + maxOffset
  /-- The slots on the way have items. -/
  full : ∀ j, home ≤ j → j < i → s.item? j ≠ none
  /-- No item before the slot has a larger home. -/
  before : ∀ j a, j < i → s.item? j = some a → index (hash a) ≤ home

/-- An item may be carried to its home. -/
theorem Ordered.reaches_home (ord : Ordered hash index s) (home : Nat) :
    Reaches hash index s home home where
  home_le := Nat.le_refl _
  le_home_add := Nat.le_add_right _ _
  full _ h1 h2 := absurd h2 (Nat.not_lt_of_le h1)
  before j a hj ha := Nat.le_trans (ord.home_le j a ha) (Nat.le_of_lt hj)

/-- An item may be carried past a resident of no larger home. -/
theorem Reaches.succ {home i : Nat} (h : Reaches hash index s home i) {a : α}
    (ha : s.item? i = some a) (hle : index (hash a) ≤ home) (hroom : i < home + maxOffset) :
    Reaches hash index s home (i + 1) where
  home_le := Nat.le_succ_of_le h.home_le
  le_home_add := hroom
  full j h1 h2 := by
    rcases Nat.lt_succ_iff_lt_or_eq.mp h2 with hlt | rfl
    · exact h.full j h1 hlt
    · rw [ha]
      exact Option.some_ne_none a
  before j b hj hb := by
    rcases Nat.lt_succ_iff_lt_or_eq.mp hj with hlt | rfl
    · exact h.before j b hlt hb
    · rw [ha] at hb
      cases hb
      exact hle

/-- Where the items are after a carried item is put into a slot. -/
theorem item?_write_cases {i j : Nat} {g : Tag} {x a : α}
    (h : (s.write i g x).item? j = some a) : j = i ∧ a = x ∨ j ≠ i ∧ s.item? j = some a := by
  rw [item?_write] at h
  split_ifs at h with hj
  · exact .inl ⟨hj.1, (Option.some.inj h).symm⟩
  · refine .inr ⟨fun hji ↦ hj ⟨hji, ?_⟩, h⟩
    exact hji ▸ s.lt_slotCount_of_item? h

section Write

variable (ord : Ordered hash index s) {i : Nat} {x : α}
  (hreach : Reaches hash index s (index (hash x)) i) (hi : i < s.slotCount)
include ord hreach hi

/-- **A carried item may be put into a slot** when all items behind it have no smaller homes.
Whether the slot has an item does not matter. -/
theorem Ordered.writeCarried (hhome : index (hash x) < s.capacity)
    (hbehind : ∀ j b, i < j → s.item? j = some b → index (hash x) ≤ index (hash b)) :
    Ordered hash index
      (s.write i (.encode (Tag.fragmentOf (hash x)) (i - index (hash x))) x) := by
  have htags := ord.tagCount_eq
  have hself : i < s.tags.size := by omega
  constructor
  case slotCount_eq => rw [slotCount_write, capacity_write, ord.slotCount_eq]
  case tagCount_eq => rw [slotCount_write, size_tags_write, htags]
  case tag_sentinel =>
    intro j h1 h2
    rw [slotCount_write] at h1 h2
    rw [tag_write, if_neg (by omega), ord.tag_sentinel j h1 h2]
  case tag_vacant =>
    intro j h1 h2
    rw [slotCount_write] at h1
    rw [item?_write] at h2
    split_ifs at h2 with hj
    rw [tag_write, if_neg fun h ↦ hj ⟨h.1, hi⟩, ord.tag_vacant j h1 h2]
  case tag_item =>
    intro j a h
    rcases item?_write_cases h with ⟨rfl, rfl⟩ | ⟨hne, ha⟩
    · rw [tag_write, if_pos ⟨rfl, hself⟩]
    · rw [tag_write, if_neg fun h ↦ hne h.1, ord.tag_item j a ha]
  case home_lt =>
    intro j a h
    rcases item?_write_cases h with ⟨-, rfl⟩ | ⟨-, ha⟩
    exacts [hhome, ord.home_lt j a ha]
  case home_le =>
    intro j a h
    rcases item?_write_cases h with ⟨rfl, rfl⟩ | ⟨-, ha⟩
    exacts [hreach.home_le, ord.home_le j a ha]
  case le_home_add =>
    intro j a h
    rcases item?_write_cases h with ⟨rfl, rfl⟩ | ⟨-, ha⟩
    exacts [hreach.le_home_add, ord.le_home_add j a ha]
  case no_hole =>
    intro j a k h h1 h2
    rw [item?_write]
    split_ifs with hk
    · exact Option.some_ne_none x
    · rcases item?_write_cases h with ⟨rfl, rfl⟩ | ⟨-, ha⟩
      · exact hreach.full k h1 (Nat.lt_of_le_of_ne h2 fun hkj ↦ hk ⟨hkj, hi⟩)
      · exact ord.no_hole j a k ha h1 h2
  case sorted =>
    intro j k a b hjk hj hk
    rcases item?_write_cases hj with ⟨rfl, rfl⟩ | ⟨hne, ha⟩ <;>
      rcases item?_write_cases hk with ⟨rfl, rfl⟩ | ⟨hne', hb⟩
    · exact Nat.le_refl _
    · exact hbehind k b (by omega) hb
    · exact hreach.before j a (by omega) ha
    · exact ord.sorted j k a b hjk ha hb

/-- After a swap the resident may be carried to the next slot. -/
theorem Reaches.swap {a : α} (ha : s.item? i = some a) (hlt : index (hash x) < index (hash a))
    (g : Tag) : Reaches hash index (s.write i g x) (index (hash a)) (i + 1) where
  home_le := Nat.le_succ_of_le (ord.home_le i a ha)
  le_home_add := by
    have := hreach.le_home_add
    omega
  full j h1 h2 := by
    rw [item?_write]
    split_ifs with hj
    · exact Option.some_ne_none x
    · exact ord.no_hole i a j ha h1 (Nat.le_of_lt_succ h2)
  before j b hj hb := by
    rcases item?_write_cases hb with ⟨rfl, rfl⟩ | ⟨hne, hb⟩
    · exact Nat.le_of_lt hlt
    · exact Nat.le_trans (hreach.before j b (by omega) hb) (Nat.le_of_lt hlt)

end Write

/-- An item in place of another one, or of none. -/
theorem toList_write_perm {i : Nat} (hi : i < s.slotCount) (g : Tag) (x : α) :
    ((s.item? i).toList ++ (s.write i g x).toList).Perm (x :: s.toList) := by
  have hwrite : (s.write i g x).toList = s.segment 0 i ++ x :: s.segment (i + 1) s.slotCount :=
    toList_setItem hi x
  have hlist : s.toList =
      s.segment 0 i ++ ((s.item? i).toList ++ s.segment (i + 1) s.slotCount) := by
    rw [s.toList_cut i, s.segment_eq_append hi]
  rw [hwrite, hlist]
  refine (List.Perm.append_left _ List.perm_middle).trans (List.perm_middle.trans (.cons x ?_))
  rw [← List.append_assoc, ← List.append_assoc]
  exact List.perm_append_comm.append_right _

/-- The tag of a carried item, one slot further from home. -/
theorem pushed_encode_sub {fragment : UInt8} (hf : fragment < 8) {home i : Nat} (hle : home ≤ i)
    (hroom : i < home + maxOffset) :
    (Tag.encode fragment (i - home)).pushed = .encode fragment (i + 1 - home) := by
  rw [Tag.pushed_encode hf (by omega), Nat.sub_add_comm hle]

theorem Reaches.offset_encode {home i : Nat} (h : Reaches hash index s home i) {fragment : UInt8}
    (hf : fragment < 8) : (Tag.encode fragment (i - home)).offset = i - home := by
  have := h.le_home_add
  exact Tag.offset_encode hf (by omega)

/-- **A walk that settles leaves an array in order**, with the items that were there and the new
one. -/
theorem Ordered.of_carry_eq_settled {i : Nat} {tag : Tag} {x : α} {t : SlotArray α}
    (ord : Ordered hash index s) (hreach : Reaches hash index s (index (hash x)) i)
    (hhome : index (hash x) < s.capacity)
    (htag : tag = .encode (Tag.fragmentOf (hash x)) (i - index (hash x)))
    (h : s.carry i tag x = .settled t) :
    Ordered hash index t ∧ t.toList.Perm (x :: s.toList) ∧ t.capacity = s.capacity := by
  -- along the walk the array stays in order, and the item in hand is in reach of the next slot
  fun_induction carry s i tag x with
  | case1 s i tag x hi hvacant =>
    cases h
    have hperm := toList_write_perm hi tag x
    rw [hvacant, Option.toList_none, List.nil_append] at hperm
    refine ⟨htag ▸ ord.writeCarried hreach hi hhome fun j b hj hb ↦ ?_, hperm, capacity_write ..⟩
    -- what is behind an empty slot has its home there
    have hlt := ord.lt_home_of_vacant hvacant hb (Nat.le_of_lt hj)
    exact Nat.le_trans hreach.home_le (Nat.le_of_lt hlt)
  | case2 s i tag x hi a ha hlt ih =>
    rw [htag, hreach.offset_encode (Tag.fragmentOf_lt _), ord.offset_tag ha] at hlt
    have hle := ord.home_le i a ha
    have hhomes : index (hash x) < index (hash a) := by omega
    have hroom := hreach.le_home_add
    have ord' := ord.writeCarried hreach hi hhome fun j b hj hb ↦
      Nat.le_trans (Nat.le_of_lt hhomes) (ord.sorted i j a b (Nat.le_of_lt hj) ha hb)
    have hpushed := pushed_encode_sub (Tag.fragmentOf_lt (hash a)) hle (by omega)
    rw [← htag] at ord'
    rw [← ord.tag_item i a ha] at hpushed
    obtain ⟨ht, hperm, hcapacity⟩ :=
      ih ord' (hreach.swap ord hi ha hhomes tag) (ord.home_lt i a ha) hpushed h
    have hwrite := toList_write_perm hi tag x
    rw [ha, Option.toList_some, List.singleton_append] at hwrite
    exact ⟨ht, hperm.trans hwrite, hcapacity⟩
  | case3 => cases h
  | case4 s i tag x hi a ha hge hmax ih =>
    rw [htag, hreach.offset_encode (Tag.fragmentOf_lt _)] at hge hmax
    rw [ord.offset_tag ha] at hge
    have hhomes : index (hash a) ≤ index (hash x) := by
      have := ord.home_le i a ha
      omega
    have hle := hreach.home_le
    have hroom := hreach.le_home_add
    have hpushed := pushed_encode_sub (Tag.fragmentOf_lt (hash x)) hle (by omega)
    rw [← htag] at hpushed
    exact ih ord (hreach.succ ha hhomes (by omega)) hhome hpushed h
  | case5 => cases h

/-! ### When a walk settles -/

/-- **A walk settles when there is an empty slot in the window** of the item in hand. A resident
that is swapped has a larger home, so its window ends no sooner. The slots that the walk has left
behind do not matter. -/
theorem Ordered.exists_carry_eq_settled (ord : Ordered hash index s) {t : SlotArray α}
    {home i stop : Nat} {tag : Tag} {x : α} (hcount : t.slotCount = s.slotCount)
    (hitem : ∀ j, i ≤ j → t.item? j = s.item? j) (htags : ∀ j, i ≤ j → t.tag j = s.tag j)
    (htag : home + tag.offset = i) (hle : i ≤ stop) (hstop : s.item? stop = none)
    (hlt : stop < s.slotCount) (hwindow : stop ≤ home + maxOffset) :
    ∃ u, t.carry i tag x = .settled u := by
  have hne : ∀ {i a}, s.item? i = some a → i ≠ stop := fun ha h ↦ by
    rw [← h, ha] at hstop
    cases hstop
  fun_induction carry t i tag x generalizing home with
  | case1 => exact ⟨_, rfl⟩
  | case2 t i tag x hi a ha hcloser ih =>
    rw [hitem i (Nat.le_refl i)] at ha
    rw [htags i (Nat.le_refl i), ord.offset_tag ha] at hcloser
    have hhome := ord.home_le i a ha
    have hmax := tag.offset_le
    have hstop' := hne ha
    have hpushed : index (hash a) + (t.tag i).pushed.offset = i + 1 := by
      rw [htags i (Nat.le_refl i), Tag.offset_pushed (by rw [ord.offset_tag ha]; omega),
        ord.offset_tag ha]
      omega
    refine ih (by rw [slotCount_write, hcount]) (fun j hj ↦ ?_) (fun j hj ↦ ?_) hpushed (by omega)
      (by omega)
    · rw [item?_write, if_neg (by omega), hitem j (by omega)]
    · rw [tag_write, if_neg (by omega), htags j (by omega)]
  | case3 t i tag x hi a ha hfurther hmax =>
    -- the item in hand is at the end of its window, which is not before the empty slot
    rw [hitem i (Nat.le_refl i)] at ha
    have hstop' := hne ha
    omega
  | case4 t i tag x hi a ha hfurther hmax ih =>
    rw [hitem i (Nat.le_refl i)] at ha
    have hstop' := hne ha
    have hroom := tag.offset_le
    refine ih hcount (fun j hj ↦ hitem j (by omega)) (fun j hj ↦ htags j (by omega)) ?_ (by omega)
      hwindow
    rw [Tag.offset_pushed (by omega)]
    omega
  | case5 => omega

/-- The walk of a new item settles when there is an empty slot in its window. -/
theorem Ordered.exists_walk_eq_settled (ord : Ordered hash index s) {home empty : Nat}
    (hhome : home < s.capacity) (hlow : (s.group home).vacant.lowest? = some empty) (h : UInt64)
    (x : α) : ∃ t, s.walk home (Tag.fragmentOf h) x = .settled t := by
  obtain ⟨hwidth, hcount, hvacant, -⟩ := ord.formed.of_lowest? hhome hlow
  have htag : home + (Tag.encode (Tag.fragmentOf h) 0).offset = home := by
    rw [Tag.offset_encode (Tag.fragmentOf_lt h) (Nat.zero_le _), Nat.add_zero]
  exact ord.exists_carry_eq_settled rfl (fun _ _ ↦ rfl) (fun _ _ ↦ rfl) htag
    (Nat.le_add_right home empty) hvacant hcount
    (Nat.add_le_add_left (Nat.le_of_lt_succ hwidth) home)

/-- **A window has a vacancy when it has an empty slot.** The residents that are to move have larger
homes, so they are not at the end of their windows. -/
theorem Ordered.exists_vacancy? (ord : Ordered hash index s) {home empty : Nat}
    (hhome : home < s.capacity) (hlow : (s.group home).vacant.lowest? = some empty) :
    s.vacancy? home = some ⟨s.stealLane home empty, empty⟩ := by
  obtain ⟨hwidth, -, -, hfull⟩ := ord.formed.of_lowest? hhome hlow
  obtain ⟨hsteal, -, hfirst⟩ := s.stealLane_spec home empty
  simp only [vacancy?, hlow, Option.bind_eq_bind, Option.bind_some]
  rw [if_neg]
  intro hany
  obtain ⟨lane, hlane, hmax⟩ := List.any_eq_true.mp hany
  obtain ⟨h1, h2⟩ := List.mem_range'_1.mp hlane
  obtain ⟨a, ha⟩ := hfull (home + lane) (by omega) (by omega)
  obtain ⟨b, hb⟩ := hfull (home + s.stealLane home empty) (by omega) (by omega)
  have hcloser := hfirst (by omega)
  rw [ord.offset_tag hb] at hcloser
  rw [beq_iff_eq, ord.offset_tag ha] at hmax
  have hhome' := ord.home_le _ b hb
  have hsorted := ord.sorted _ _ b a (by omega) hb ha
  simp only [maxOffset, windowWidth] at hmax hwidth
  omega

/-- A window without an empty lane is full. -/
theorem isOccupied_of_lowest?_eq_none {home : Nat} (h : (s.group home).vacant.lowest? = none)
    (i : Nat) (h1 : home ≤ i) (h2 : i < home + windowWidth) : s.isOccupied i = true := by
  have hlane := (LaneMask.lowest?_eq_none_iff _).mp h (i - home) (by omega)
  rwa [s.has_vacant_group home (by omega), Bool.not_eq_false', Nat.add_sub_cancel' h1] at hlane

/-- A walk that settles leaves an array in order, with the items that were there and the new one. -/
theorem Ordered.of_walk_eq_settled (ord : Ordered hash index s) {x : α}
    (hhome : index (hash x) < s.capacity) {t : SlotArray α}
    (h : s.walk (index (hash x)) (Tag.fragmentOf (hash x)) x = .settled t) :
    Ordered hash index t ∧ t.toList.Perm (x :: s.toList) ∧ t.capacity = s.capacity :=
  ord.of_carry_eq_settled (ord.reaches_home _) hhome (by rw [Nat.sub_self]) h

/-- An item is placed in a vacancy of the window of its home. -/
theorem Ordered.place_of_vacancy? (ord : Ordered hash index s) {x : α} {v : Vacancy}
    (hhome : index (hash x) < s.capacity) (hv : s.vacancy? (index (hash x)) = some v) :
    Ordered hash index (s.place (index (hash x)) (Tag.fragmentOf (hash x)) v x) :=
  ord.place (ord.opening hhome hv) hhome

/-- **Placing is carrying.** Where a window has a vacancy, placing a new item in it leaves an array
in order; the new item is behind all items of no larger home and before all others, which keep their
sequence; and the array is laid out as the walk of the item would have it. And there is no vacancy
exactly when the window has no empty slot, or the walk would carry an item too far from its home. -/
theorem place_and_walk (ord : Ordered hash index s) {home : Nat} (hhome : home < s.capacity) :
    (∀ x v, index (hash x) = home → s.vacancy? home = some v →
      let placed := s.place home (Tag.fragmentOf (hash x)) v x
      Ordered hash index placed ∧
      (∃ front back, s.toList = front ++ back ∧ placed.toList = front ++ x :: back ∧
        (∀ a ∈ front, index (hash a) ≤ home) ∧ ∀ a ∈ back, home < index (hash a)) ∧
      ∃ walked, s.walk home (Tag.fragmentOf (hash x)) x = .settled walked ∧
        SameLayout (fun a ↦ index (hash a)) placed walked) ∧
    ∀ (x : α) (h : UInt64), s.vacancy? home = none ↔
      (∀ i, home ≤ i → i < home + windowWidth → s.isOccupied i = true) ∨
        s.walk home (Tag.fragmentOf h) x = .overrun := by
  refine ⟨fun x v hx hv ↦ ?_, fun x h ↦ ?_⟩
  · subst hx
    have op := ord.opening hhome hv
    have hplaced := ord.place_of_vacancy? hhome hv
    have hperm := toList_place_perm op.steal_le op.empty_lt_slotCount op.vacant
      (Tag.fragmentOf (hash x)) x
    refine ⟨hplaced, ⟨_, _, s.toList_cut _, toList_place op.steal_le op.empty_lt_slotCount
      op.vacant _ x, fun a ha ↦ ?_, fun a ha ↦ ?_⟩, ?_⟩
    · obtain ⟨i, -, hi, hia⟩ := s.mem_segment.mp ha
      exact op.home_le_of_lt ord hia hi
    · obtain ⟨i, hi, -, hia⟩ := s.mem_segment.mp ha
      exact op.home_lt ord hia hi
    -- both arrays are in order, and their items have the same homes
    · obtain ⟨walked, hwalk⟩ :=
        ord.exists_walk_eq_settled hhome (vacancy?_eq_some hv).1 (hash x) x
      obtain ⟨hwalked, hperm', hcapacity⟩ := ord.of_walk_eq_settled hhome hwalk
      refine ⟨walked, hwalk, hplaced.sameLayout hwalked ?_ ?_⟩
      · rw [hcapacity, capacity_place]
      · exact (hperm'.trans hperm.symm).map _
  · cases hlow : (s.group home).vacant.lowest? with
    | none =>
      exact iff_of_true (by rw [vacancy?, hlow]; rfl) (.inl (isOccupied_of_lowest?_eq_none hlow))
    | some empty =>
      obtain ⟨hwidth, hcount, hvacant, -⟩ := ord.formed.of_lowest? hhome hlow
      obtain ⟨t, hwalk⟩ := ord.exists_walk_eq_settled hhome hlow h x
      rw [ord.exists_vacancy? hhome hlow, hwalk]
      refine iff_of_false (Option.some_ne_none _) ?_
      rintro (hfull | hoverrun)
      · have hocc := hfull (home + empty) (Nat.le_add_right _ _) (by omega)
        rw [ord.formed.not_isOccupied hcount hvacant] at hocc
        cases hocc
      · cases hoverrun

/-- Eight homes, of which the last three bits of a number say which one is its. -/
def octal (hash : UInt64) : Nat := hash.toNat % 8

/-- Numbers with the homes 0 and 1. -/
def pair : SlotArray UInt64 :=
  ((blank 8).place (octal 0) (Tag.fragmentOf 0) ⟨0, 0⟩ 0).place
    (octal 1) (Tag.fragmentOf 1) ⟨0, 0⟩ 1

/-- Numbers with the homes 0, 1, 1 and 2, one in each slot from the first one on. -/
def crowd : SlotArray UInt64 :=
  (pair.place (octal 9) (Tag.fragmentOf 9) ⟨1, 1⟩ 9).place (octal 2) (Tag.fragmentOf 2) ⟨1, 1⟩ 2

theorem ordered_crowd : Ordered id octal crowd := by
  have h0 : Ordered id octal ((blank 8).place (octal 0) (Tag.fragmentOf 0) ⟨0, 0⟩ 0) :=
    (ordered_blank 8).place_of_vacancy? (by decide) (by decide +kernel)
  have h1 : Ordered id octal pair := h0.place_of_vacancy? (by decide) (by decide +kernel)
  have h9 : Ordered id octal (pair.place (octal 9) (Tag.fragmentOf 9) ⟨1, 1⟩ 9) :=
    h1.place_of_vacancy? (by decide) (by decide +kernel)
  exact h9.place_of_vacancy? (by decide) (by decide +kernel)

/-- **One more number of home 0 moves three others.** The walk takes the first one of home 1 over
the second one, so the numbers are in other slots than after placing; the layout is the same. -/
theorem place_and_walk_crowd :
    octal 16 < crowd.capacity ∧ crowd.vacancy? (octal 16) = some ⟨1, 4⟩ ∧
      (crowd.place (octal 16) (Tag.fragmentOf 16) ⟨1, 4⟩ 16).toList = [0, 16, 1, 9, 2] ∧
      ∃ walked, crowd.walk (octal 16) (Tag.fragmentOf 16) 16 = .settled walked ∧
        SameLayout octal (crowd.place (octal 16) (Tag.fragmentOf 16) ⟨1, 4⟩ 16) walked := by
  have hhome : octal 16 < crowd.capacity := by decide +kernel
  have hvacancy : crowd.vacancy? (octal 16) = some ⟨1, 4⟩ := by decide +kernel
  obtain ⟨-, -, hwalk⟩ := (place_and_walk ordered_crowd hhome).1 16 ⟨1, 4⟩ rfl hvacancy
  exact ⟨hhome, hvacancy, by decide +kernel, hwalk⟩

example : (match crowd.walk (octal 16) (Tag.fragmentOf 16) 16 with
    | .settled walked => walked.toList
    | _ => []) = [0, 16, 9, 1, 2] := by
  cbv

end SlotArray

end ProbeWindow
