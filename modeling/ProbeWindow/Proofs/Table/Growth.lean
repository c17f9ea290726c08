import ProbeWindow.Proofs.Outcome
import ProbeWindow.Proofs.SlotArray.Placement
import ProbeWindow.Proofs.Table.Soundness
import ProbeWindow.Table.Growth

/-!
# Growth moves items, and nothing else

Whatever resizes a table leaves it **rehoused**: a sound table with the same items, in some order,
and the same setup. This holds also when the resize ends in a fault, because the old slots are
only read. A growth that returns has made room for one more item, and a seat that was secured
**fits**: its window has the vacancy that the seat names.
-/

namespace ProbeWindow

universe u v

namespace LoadFactor

variable (f : LoadFactor)

theorem maxSize_le (capacity : Nat) : f.maxSize capacity ≤ capacity := Nat.min_le_right _ _

theorem le_maxSize_firstAdmitting? {size start slots : Nat}
    (h : f.firstAdmitting? size start = some slots) : size ≤ f.maxSize slots := by
  fun_induction firstAdmitting? f size start with
  | case1 start hlt hword ih => exact ih h
  | case2 => cases h
  | case3 start hge =>
    cases h
    exact Nat.le_of_not_lt hge

/-- A slot count for a length is no smaller than the length. -/
theorem le_of_slotsFor? {size slots : Nat} (h : f.slotsFor? size = some slots) : size ≤ slots := by
  rw [slotsFor?] at h
  split at h
  · next hzero => exact hzero ▸ Nat.zero_le slots
  · exact Nat.le_trans (f.le_maxSize_firstAdmitting? h) (f.maxSize_le slots)

end LoadFactor

variable {α : Type u} {κ : Type v} [BEq κ] {key : α → κ}

/-- A block is granted only when its slots and its tags are numbered by words. -/
theorem Setup.lt_of_block {setup : Setup κ} {capacity : Nat} {block : Layout}
    (h : setup.block capacity = .ok block) :
    capacity + maxOffset + windowWidth < Word.bound := by
  rw [Setup.block] at h
  split at h
  · cases h
  · next hblock =>
    simp only [Layout.slotBlock?, Layout.tags?, Option.bind_eq_bind,
      Option.bind_eq_some_iff] at hblock
    obtain ⟨slots, hslots, -, -, tags, ⟨count, hcount, -⟩, -⟩ := hblock
    obtain ⟨-, rfl⟩ := Word.add?_eq_some_iff.mp hslots
    exact (Word.add?_eq_some_iff.mp hcount).1

namespace Table

variable {t : Table key}

/-- The same items in slots of some capacity: all that a resize may do to a table. -/
structure Rehoused (t t' : Table key) : Prop where
  /-- The table is sound. -/
  sound : t'.Sound
  /-- The items are the same. -/
  perm : t'.toList.Perm t.toList
  /-- The setup is the same. -/
  setup_eq : t'.setup = t.setup
  /-- The load factor is the same. -/
  maxLoad_eq : t'.maxLoad = t.maxLoad

theorem Sound.rehoused (h : t.Sound) : Rehoused t t := ⟨h, .refl _, rfl, rfl⟩

theorem Rehoused.trans {t' t'' : Table key} (h : Rehoused t t') (h' : Rehoused t' t'') :
    Rehoused t t'' :=
  ⟨h'.sound, h'.perm.trans h.perm, h'.setup_eq.trans h.setup_eq, h'.maxLoad_eq.trans h.maxLoad_eq⟩

theorem Rehoused.size_eq {t' : Table key} (h : Rehoused t t') (hs : t.Sound) : t'.size = t.size :=
  hs.size_eq_of_perm h.sound h.perm

theorem Sound.rehoused_markSaturated (h : t.Sound) : Rehoused t t.markSaturated :=
  ⟨h.mark true, .refl _, rfl, rfl⟩

/-! ### Relocation -/

/-- A seated item leaves the slots in order. -/
theorem seat?_spec {slots seated : SlotArray α} {item : α} (hord : t.setup.Orders key slots)
    (hoff : t.setup.Offers slots.capacity) (h : t.seat? slots item = some seated) :
    t.setup.Orders key seated ∧ seated.toList.Perm (item :: slots.toList) := by
  simp only [seat?, Option.map_eq_some_iff] at h
  obtain ⟨v, hv, rfl⟩ := h
  have hhome := hoff.index_lt (t.setup.hash (key item))
  have hopening := hord.opening hhome hv
  refine ⟨?_, SlotArray.toList_place_perm hopening.steal_le hopening.empty_lt_slotCount
    hopening.vacant _ item⟩
  rw [Setup.Orders, SlotArray.capacity_place]
  exact hord.place hopening hhome

theorem foldlM_seat?_spec {items : List α} {slots seated : SlotArray α}
    (hord : t.setup.Orders key slots) (hoff : t.setup.Offers slots.capacity)
    (h : items.foldlM t.seat? slots = some seated) :
    t.setup.Orders key seated ∧ seated.toList.Perm (items ++ slots.toList) := by
  induction items generalizing slots with
  | nil =>
    cases h
    exact ⟨hord, .refl _⟩
  | cons item items ih =>
    rw [List.foldlM_cons, Option.bind_eq_bind, Option.bind_eq_some_iff] at h
    obtain ⟨next, hnext, h⟩ := h
    obtain ⟨hord', hperm⟩ := seat?_spec hord hoff hnext
    obtain ⟨hord'', hperm'⟩ := ih hord' (by rwa [t.capacity_seat? hnext]) h
    refine ⟨hord'', hperm'.trans ?_⟩
    exact (hperm.append_left items).trans List.perm_middle

theorem reseat?_spec {capacity : Nat} {slots : SlotArray α} (hoff : t.setup.Offers capacity)
    (h : t.reseat? capacity = some slots) :
    t.setup.Orders key slots ∧ slots.toList.Perm t.toList := by
  obtain ⟨hord, hperm⟩ := foldlM_seat?_spec (SlotArray.ordered_blank capacity) hoff h
  rw [SlotArray.toList_blank, List.append_nil] at hperm
  exact ⟨hord, hperm⟩

theorem offers_of_retryCapacity {capacity larger : Nat}
    (h : t.retryCapacity capacity = .ok (.ok larger)) : t.setup.Offers larger := by
  rw [retryCapacity] at h
  split at h
  · cases h
  · next doubled _ =>
    cases hcap : t.setup.policy.capacityFor doubled with
    | error fault => rw [hcap] at h; cases h
    | ok c =>
      rw [hcap] at h
      cases h
      exact ⟨doubled, hcap⟩

/-- **A relocation has all items in order**, at a capacity that the policy offers. -/
theorem relocate_spec {capacity : Nat} {slots : SlotArray α} (hoff : t.setup.Offers capacity)
    (h : t.relocate capacity = .ok (.ok slots)) :
    t.setup.Orders key slots ∧ slots.toList.Perm t.toList ∧ t.setup.Offers slots.capacity ∧
      slots.capacity + maxOffset + windowWidth < Word.bound := by
  fun_induction relocate t capacity with
  | case1 | case3 | case4 => cases h
  | case2 capacity block hblock found hfound =>
    cases h
    obtain ⟨hord, hperm⟩ := reseat?_spec hoff hfound
    have hcapacity := t.capacity_reseat? hfound
    refine ⟨hord, hperm, ?_, ?_⟩
    · rwa [hcapacity]
    · rw [hcapacity]
      exact Setup.lt_of_block hblock
  | case5 capacity _ _ _ larger hlarger ih => exact ih (offers_of_retryCapacity hlarger) h

/-- **What a resize does**: it fails or reports trouble, and changes nothing; or the items are
relocated, which it reports, and the mark is cleared. -/
theorem resize_cases (t : Table key) (capacity : Nat) (reason : ResizeReason) :
    (∃ fault, t.resize capacity reason = .fail t fault) ∨
      (∃ e, t.resize capacity reason = .done t (.error e)) ∨
      ∃ slots, t.relocate capacity = .ok (.ok slots) ∧
        t.resize capacity reason =
          ⟨{ t with slots := slots, rehashPending := false },
            [.resized t.capacity slots.capacity t.size reason], .ok (.ok ())⟩ := by
  rcases hrelocate : t.relocate capacity with fault | e | slots
  · exact .inl ⟨fault, by simp only [Table.resize, hrelocate]⟩
  · exact .inr (.inl ⟨e, by simp only [Table.resize, hrelocate]⟩)
  · exact .inr (.inr ⟨slots, rfl, by simp only [Table.resize, hrelocate]⟩)

/-- **A resize rehouses the table**, whether it succeeds or not. -/
theorem Sound.resize (h : t.Sound) {capacity : Nat} (hoff : t.setup.Offers capacity)
    (hsize : capacity + maxOffset < Word.bound → t.size ≤ capacity) (reason : ResizeReason) :
    Rehoused t (t.resize capacity reason).state := by
  rcases t.resize_cases capacity reason with ⟨fault, heq⟩ | ⟨e, heq⟩ | ⟨slots, hslots, heq⟩ <;>
    rw [heq]
  -- without new slots the table is as it was
  · exact h.rehoused
  · exact h.rehoused
  · obtain ⟨hord, hperm, hoff', hlt⟩ := relocate_spec hoff hslots
    have hle := t.le_capacity_relocate hslots
    have hword := Nat.lt_of_le_of_lt (Nat.le_add_right _ _) hlt
    have hsize' : t.size ≤ slots.capacity := Nat.le_trans (hsize (by omega)) hle
    refine ⟨.inr (furnished_of_length hord hoff' ?_ hsize' hword), hperm, rfl, rfl⟩
    exact h.size_eq_length.trans hperm.length_eq.symm

theorem Sound.resizeOrFail (h : t.Sound) {capacity : Nat} (hoff : t.setup.Offers capacity)
    (hsize : capacity + maxOffset < Word.bound → t.size ≤ capacity) (reason : ResizeReason) :
    Rehoused t (t.resizeOrFail capacity reason).state := by
  have hresize := h.resize hoff hsize reason
  rw [Table.resizeOrFail]
  rcases (t.resize capacity reason).andThen_cases _ with ⟨fault, -, heq⟩ | ⟨result, -, heq⟩
  · rw [heq]
    exact hresize
  · rw [heq]
    cases result <;> exact hresize

theorem resizeOrFail_of_relocate {capacity : Nat} {slots : SlotArray α}
    (h : t.relocate capacity = .ok (.ok slots)) (reason : ResizeReason) :
    t.resizeOrFail capacity reason =
      ⟨{ t with slots := slots, rehashPending := false },
        [.resized t.capacity slots.capacity t.size reason], .ok ()⟩ := by
  simp only [Table.resizeOrFail, Table.resize, h]
  rfl

/-- **What a resize does**: it fails and changes nothing, or the items are relocated, which it
reports, and the mark is cleared. -/
theorem resizeOrFail_cases (t : Table key) (capacity : Nat) (reason : ResizeReason) :
    (∃ fault, t.resizeOrFail capacity reason = .fail t fault) ∨
      ∃ slots, t.relocate capacity = .ok (.ok slots) ∧
        t.resizeOrFail capacity reason =
          ⟨{ t with slots := slots, rehashPending := false },
            [.resized t.capacity slots.capacity t.size reason], .ok ()⟩ := by
  rcases hrelocate : t.relocate capacity with fault | e | slots
  · exact .inl ⟨fault, by simp only [Table.resizeOrFail, Table.resize, hrelocate]; rfl⟩
  · exact .inl ⟨e.toFault, by simp only [Table.resizeOrFail, Table.resize, hrelocate]; rfl⟩
  · exact .inr ⟨slots, rfl, resizeOrFail_of_relocate hrelocate reason⟩

/-! ### Growth -/

/-- A growth asks for no capacity, or it resizes to one that the policy returns for its target. -/
theorem grow_cases (t : Table key) :
    (∃ fault, t.grow = .fail t fault) ∨
      ∃ slots capacity, t.growthTarget? = some slots ∧
        t.setup.policy.capacityFor slots = .ok capacity ∧
          t.grow = t.resizeOrFail capacity
            (if t.rehashPending then .windowSaturated else .loadFactorReached) := by
  unfold Table.grow
  split
  · exact .inl ⟨_, rfl⟩
  · next slots htarget =>
    split
    · exact .inl ⟨_, rfl⟩
    · next capacity hcapacity => exact .inr ⟨slots, capacity, htarget, hcapacity, rfl⟩

/-- **What a growth does**: it fails and changes nothing, or the items are relocated to a capacity
that the policy offers, at least twice as large, which it reports, and the mark is cleared. -/
theorem grow_outcomes (t : Table key) :
    (∃ fault, t.grow = .fail t fault) ∨
      ∃ capacity slots, t.setup.Offers capacity ∧ t.capacity * 2 ≤ capacity ∧
        t.relocate capacity = .ok (.ok slots) ∧
          t.grow = ⟨{ t with slots := slots, rehashPending := false },
            [.resized t.capacity slots.capacity t.size
              (if t.rehashPending then .windowSaturated else .loadFactorReached)], .ok ()⟩ := by
  rcases t.grow_cases with hfail | ⟨target, capacity, htarget, hcapacity, heq⟩
  · exact .inl hfail
  · rw [heq]
    rcases t.resizeOrFail_cases capacity _ with hfail | ⟨slots, hslots, hresize⟩
    · exact .inl hfail
    · simp only [growthTarget?, Option.bind_eq_bind, Option.bind_eq_some_iff, Option.pure_def,
        Option.some.injEq] at htarget
      obtain ⟨doubled, hdoubled, size, -, needed, -, rfl⟩ := htarget
      obtain ⟨-, rfl⟩ := Word.mul?_eq_some_iff.mp hdoubled
      have hle := (t.setup.policy.le_of_capacityFor hcapacity).1
      exact .inr ⟨capacity, slots, ⟨_, hcapacity⟩, Nat.le_trans (Nat.le_max_left _ _) hle, hslots,
        hresize⟩

/-- A growth that fails has changed nothing, so it fails again when it is asked for again. -/
theorem grow_eq_fail {fault : Fault} (h : t.grow.result = .error fault) :
    t.grow = .fail t fault := by
  rcases t.grow_outcomes with ⟨fault', heq⟩ | ⟨_, _, -, -, -, heq⟩
  · rw [heq] at h ⊢
    cases h
    rfl
  · rw [heq] at h
    cases h

/-- **A growth that returns at least doubles the capacity**, and reaches the smallest one. -/
theorem two_mul_le_capacity_grow (h : t.grow.result = .ok ()) :
    t.capacity * 2 ≤ t.grow.state.capacity ∧ minCapacity ≤ t.grow.state.capacity := by
  rcases t.grow_outcomes with ⟨fault, heq⟩ | ⟨capacity, slots, ⟨size, hsize⟩, hle, hslots, heq⟩
  · rw [heq] at h
    cases h
  · have hmin := (t.setup.policy.le_of_capacityFor hsize).2
    have hslots_le := t.le_capacity_relocate hslots
    rw [heq]
    exact ⟨Nat.le_trans hle hslots_le, Nat.le_trans hmin hslots_le⟩

/-- The target of a growth has room for one more item. -/
theorem size_lt_of_growthTarget? {slots : Nat} (h : t.growthTarget? = some slots) :
    t.size < slots := by
  simp only [growthTarget?, Option.bind_eq_bind, Option.bind_eq_some_iff, Option.pure_def,
    Option.some.injEq] at h
  obtain ⟨doubled, -, size, hsize, needed, hneeded, rfl⟩ := h
  obtain ⟨-, rfl⟩ := Word.add?_eq_some_iff.mp hsize
  exact Nat.lt_of_lt_of_le (t.maxLoad.le_of_slotsFor? hneeded) (Nat.le_max_right _ _)

/-- **A growth rehouses the table, and makes room for one more item** when it returns. -/
theorem Sound.grow (h : t.Sound) :
    Rehoused t t.grow.state ∧ (t.grow.result = .ok () → t.size < t.grow.state.capacity) := by
  rcases t.grow_cases with ⟨fault, heq⟩ | ⟨slots, capacity, htarget, hcapacity, heq⟩
  · rw [heq]
    exact ⟨h.rehoused, nofun⟩
  · rw [heq]
    have hle := (t.setup.policy.le_of_capacityFor hcapacity).1
    have hlt : t.size < capacity := Nat.lt_of_lt_of_le (size_lt_of_growthTarget? htarget) hle
    refine ⟨h.resizeOrFail ⟨slots, hcapacity⟩ (fun _ ↦ Nat.le_of_lt hlt) _, fun hres ↦ ?_⟩
    exact Nat.lt_of_lt_of_le hlt (t.le_capacity_resizeOrFail hres)

/-! ### Seats -/

/-- Settling finds a vacancy, or grows the table and looks again. -/
theorem settle_eq (t : Table key) (hash : UInt64) :
    t.settle hash =
      match t.slots.vacancy? (t.home hash) with
      | some v => .done t ⟨hash, t.home hash, v⟩
      | none =>
        (t.markSaturated.grow.andThen fun t () ↦ t.settle hash).after
          [t.saturatedEvent (t.home hash)] := by
  rw [settle]
  cases hv : t.slots.vacancy? (t.home hash) with
  | some v => rw [dif_pos (Option.isSome_some), Option.get_some]
  | none =>
    rw [dif_neg (Bool.eq_false_iff.mp Option.isSome_none)]
    rcases t.markSaturated.grow with ⟨t', events, fault | ⟨⟩⟩ <;> rfl

/-- A seat is good for an item with a mixed hash. -/
structure Fits (t : Table key) (hash : UInt64) (seat : Seat) : Prop where
  /-- The seat was found for the hash. -/
  hash_eq : seat.hash = hash
  /-- The seat is in the window of the hash. -/
  home_eq : seat.home = t.home hash
  /-- The window has the vacancy. -/
  vacancy_eq : t.slots.vacancy? (t.home hash) = some seat.vacancy
  /-- There are more homes than items. -/
  room : t.size < t.capacity

/-- **A seat that is found by settling fits**, and settling rehouses the table. -/
theorem Sound.settle (h : t.Sound) (hroom : t.size < t.capacity) (hash : UInt64) :
    Rehoused t (t.settle hash).state ∧
      ∀ seat, (t.settle hash).result = .ok seat → (t.settle hash).state.Fits hash seat := by
  -- along the retries the table stays sound and keeps room for one more item
  fun_induction Table.settle t hash with
  | case1 t home hv =>
    refine ⟨h.rehoused, fun seat hseat ↦ ?_⟩
    cases hseat
    exact ⟨rfl, rfl, (Option.some_get hv).symm, hroom⟩
  | case2 t home hv grown events fault hfault =>
    have hmark := h.rehoused_markSaturated
    exact ⟨hmark.trans hmark.sound.grow.1, nofun⟩
  | case3 t home hv grown events hgrown ih =>
    have hmark := h.rehoused_markSaturated
    obtain ⟨hrehoused, hgrew⟩ := hmark.sound.grow
    have hback := hmark.trans hrehoused
    have hlt : grown.state.size < grown.state.capacity := by
      rw [show grown.state.size = t.size from hback.size_eq h]
      exact hgrew hgrown
    obtain ⟨hsettled, hfits⟩ := ih hrehoused.sound hlt
    exact ⟨hback.trans hsettled, hfits⟩

/-- **How securing a seat goes**: a growth that must come first fails and changes nothing, or a
vacancy is looked for, after that growth or at once. -/
theorem secure_outcomes (t : Table key) (hash : UInt64) :
    (∃ fault, t.mustGrow = true ∧ t.grow = .fail t fault ∧ t.secure hash = .fail t fault) ∨
    (t.mustGrow = true ∧ t.grow.result = .ok () ∧
      t.secure hash = (t.grow.state.settle hash).after t.grow.events) ∨
    t.mustGrow = false ∧ t.secure hash = t.settle hash := by
  rw [secure]
  cases hmust : t.mustGrow with
  | false => exact .inr (.inr ⟨rfl, rfl⟩)
  | true =>
    rcases t.grow.andThen_cases fun t () ↦ t.settle hash with
      ⟨fault, hfault, -⟩ | ⟨⟨⟩, hgrown, heq⟩
    · have hgrow := grow_eq_fail hfault
      exact .inl ⟨fault, rfl, hgrow, by rw [if_pos rfl, hgrow]; rfl⟩
    · exact .inr (.inl ⟨rfl, hgrown, heq⟩)

/-- A table need not grow when it is not marked, and below its load threshold. -/
theorem mustGrow_eq_false_iff :
    t.mustGrow = false ↔ t.rehashPending = false ∧ t.size < t.maxSize := by
  rw [mustGrow, Bool.or_eq_false_iff, decide_eq_false_iff_not, Nat.not_le]

/-- A table that need not grow has room for one more item. -/
theorem size_lt_of_mustGrow (h : t.mustGrow = false) : t.size < t.capacity :=
  Nat.lt_of_lt_of_le (mustGrow_eq_false_iff.mp h).2 (t.maxLoad.maxSize_le _)

/-- **Securing a seat rehouses the table; a seat that it returns fits.** -/
theorem Sound.secure_cases (h : t.Sound) (hash : UInt64) :
    (∃ t' events seat, t.secure hash = ⟨t', events, .ok seat⟩ ∧ Rehoused t t' ∧
      t'.Fits hash seat) ∨
    ∃ t' events fault, t.secure hash = ⟨t', events, .error fault⟩ ∧ Rehoused t t' := by
  have hspec : Rehoused t (t.secure hash).state ∧
      ∀ seat, (t.secure hash).result = .ok seat → (t.secure hash).state.Fits hash seat := by
    rcases t.secure_outcomes hash with ⟨fault, -, -, heq⟩ | ⟨-, hgrown, heq⟩ | ⟨hmust, heq⟩ <;>
      rw [heq]
    · exact ⟨h.rehoused, nofun⟩
    · obtain ⟨hrehoused, hgrew⟩ := h.grow
      have hroom : t.grow.state.size < t.grow.state.capacity := by
        rw [hrehoused.size_eq h]
        exact hgrew hgrown
      obtain ⟨hsettled, hfits⟩ := hrehoused.sound.settle hroom hash
      exact ⟨hrehoused.trans hsettled, hfits⟩
    · exact h.settle (size_lt_of_mustGrow hmust) hash
  rcases hsecure : t.secure hash with ⟨t', events, fault | seat⟩
  · rw [hsecure] at hspec
    exact .inr ⟨t', events, fault, rfl, hspec.1⟩
  · rw [hsecure] at hspec
    exact .inl ⟨t', events, seat, rfl, hspec.1, hspec.2 seat rfl⟩

end Table

end ProbeWindow
