import ProbeWindow.Proofs.Table.Reservation
import ProbeWindow.Proofs.Table.Service
import ProbeWindow.Table.Insertion

/-!
# Insertion adds one item, for an absent key

An insertion looks its key up, secures a seat when the key is absent, and fills it. What can come
of this is said once for entries (`Sound.entry_cases`) and once for whole insertions
(`Sound.emplace_cases`); the calls that are built on them are then served case by case.

An item that does not get its block is not inserted. When that shows depends on the call: a seat
that is to be filled has been secured by then (`fill_outcomes`), and `emplace` has not even looked
its key up (`emplace_outcomes`).
-/

namespace ProbeWindow.Table

universe u v w

variable {α : Type u} {κ : Type v} [BEq κ] {key : α → κ} {t : Table key}

open Contents

/-! ### Blocks for items -/

/-- **A seat is filled** when the item gets its block, and otherwise the table is as it was. -/
theorem fill_outcomes (t : Table key) (seat : Seat) (item : α) :
    (∃ fault, t.setup.house = .error fault ∧ t.fill seat item = .fail t fault) ∨
      t.setup.house = .ok () ∧ t.fill seat item = .done (t.sit seat item).1 (t.sit seat item).2 := by
  rw [fill]
  cases t.setup.house with
  | error fault => exact .inl ⟨fault, rfl, rfl⟩
  | ok _ => exact .inr ⟨rfl, rfl⟩

/-- **An item is inserted** when it gets its block, and otherwise the table is as it was. -/
theorem emplace_outcomes (t : Table key) (item : α) :
    (∃ fault, t.setup.house = .error fault ∧ t.emplace item = .fail t fault) ∨
      t.setup.house = .ok () ∧ t.emplace item = t.accept item := by
  rw [emplace]
  cases t.setup.house with
  | error fault => exact .inl ⟨fault, rfl, rfl⟩
  | ok _ => exact .inr ⟨rfl, rfl⟩

/-! ### Seats and entries -/

/-- **A seat that fits is taken by an item of its hash.** -/
theorem Fits.added {hash : UInt64} {seat : Seat} (hfits : t.Fits hash seat) (h : t.Sound) (item : α)
    (hitem : t.setup.hash (key item) = hash) :
    Added t (t.sit seat item).1 (t.sit seat item).2 := by
  obtain ⟨hhash, hseat, hvacancy, hroom⟩ := hfits
  have hfur := h.furnished (Nat.lt_of_le_of_lt (Nat.zero_le _) hroom)
  have hhome : t.home hash < t.capacity := hfur.offered.index_lt _
  have hslots : (t.sit seat item).1.slots =
      t.slots.place (t.home hash) (Tag.fragmentOf hash) seat.vacancy item := by
    rw [sit, hhash, hseat]
  subst hitem
  have hopening := hfur.ordered.opening hhome hvacancy
  have hperm : (t.sit seat item).1.toList.Perm (item :: t.toList) := by
    rw [toList, hslots]
    exact SlotArray.toList_place_perm hopening.steal_le hopening.empty_lt_slotCount
      hopening.vacant _ item
  have hcapacity : (t.sit seat item).1.capacity = t.capacity := by
    rw [capacity, hslots, SlotArray.capacity_place, capacity]
  have hordered : t.setup.Orders key (t.sit seat item).1.slots := by
    rw [Setup.Orders, ← capacity, hcapacity, hslots]
    exact hfur.ordered.place hopening hhome
  refine ⟨.inr (furnished_of_length hordered ?_ ?_ ?_ ?_), ?_, hperm, rfl, rfl⟩
  · rw [hcapacity]
    exact hfur.offered
  · rw [hperm.length_eq, List.length_cons, ← h.size_eq_length]
    rfl
  · rw [hcapacity]
    exact hroom
  · rw [hcapacity]
    exact hfur.slots_lt
  · rw [hslots, show (t.sit seat item).2.index = t.home _ + seat.vacancy.steal by
      rw [sit, hseat],
      SlotArray.item?_place hopening.steal_le hopening.empty_lt_slotCount, if_pos rfl]
    rfl

/-- **What an entry is**: the first item of the key; or a seat that fits, in a table that was
rehoused, for an absent key; or a fault of growth, for an absent key. -/
theorem Sound.entry_cases (h : t.Sound) (k : κ) :
    (∃ o, t.entry k = .done t (.occupied o) ∧ t.Found k o) ∨
    lookup key t.toList k = none ∧
      ((∃ t' events seat, t.entry k = ⟨t', events, .ok (.vacant seat)⟩ ∧ Rehoused t t' ∧
        t'.Fits (t.setup.hash k) seat) ∨
      ∃ t' events fault, t.entry k = ⟨t', events, .error fault⟩ ∧ Rehoused t t') := by
  rcases h.locate?_cases k with ⟨o, ho, hfound⟩ | ⟨hnone, hlookup⟩
  · exact .inl ⟨o, by simp only [entry, ho], hfound⟩
  · refine .inr ⟨hlookup, ?_⟩
    simp only [entry, hnone]
    rcases h.secure_cases (t.setup.hash k) with
      ⟨t', events, seat, hsecure, hrehoused, hfits⟩ | ⟨t', events, fault, hsecure, hrehoused⟩
    · exact .inl ⟨t', events, seat, by rw [hsecure]; rfl, hrehoused, hfits⟩
    · exact .inr ⟨t', events, fault, by rw [hsecure]; rfl, hrehoused⟩

/-- **A call that changes the item of a key, or adds one for it**, serves the key, or is refused. -/
theorem Sound.handles_put {ρ : Type w} (h : t.Sound) (k : κ) (f : α → α) (a : α)
    (hf : ∀ b ∈ lookup key t.toList k, t.setup.hash (key (f b)) = t.setup.hash (key b))
    (ha : t.setup.hash (key a) = t.setup.hash k) (tell : Option α → ρ)
    {next : Table key → Entry α → Outcome (Table key) ρ}
    (hoccupied : ∀ t o, next t (.occupied o) = .done (t.update o f).1 (tell (some o.item)))
    (hvacant : ∀ t seat, next t (.vacant seat) = (t.fill seat a).map fun _ ↦ tell none) :
    Handles t k (fun old ↦ (some ((old.map f).getD a), .ok (tell old)))
      ((t.entry k).andThen next) := by
  rcases h.entry_cases k with ⟨o, heq, hfound⟩ |
    ⟨hnone, ⟨t', events, seat, heq, hrehoused, hfits⟩ | ⟨t', events, fault, heq, hrehoused⟩⟩
  · rw [heq, Outcome.andThen_of_ok next (Outcome.result_done ..), Outcome.state_done, hoccupied]
    exact .inl ((hfound.serves_update h (hf o.item hfound.lookup_eq) rfl).after [])
  · rw [heq, Outcome.andThen_of_ok next rfl, hvacant]
    rcases t'.fill_outcomes seat a with ⟨fault, -, hfill⟩ | ⟨hhouse, hfill⟩
    · rw [hfill]
      exact .inr (hrehoused.refused hnone fault _)
    · rw [hfill]
      rw [hrehoused.setup_eq] at hhouse
      have hadded := hfits.added hrehoused.sound a (by rw [hrehoused.setup_eq, ha])
      exact .inl (((hrehoused.added hadded).serves hhouse hnone rfl).after events)
  · rw [heq]
    exact .inr (hrehoused.refused hnone fault _)

/-! ### Insertions -/

/-- **What an insertion of an item that has its block does**: it finds the first item of the key; or
it adds its own, for an absent key; or it ends with a fault of growth, for an absent key. -/
theorem Sound.accept_cases (h : t.Sound) (item : α) :
    (∃ o, t.accept item = .done t (o, false) ∧ t.Found (key item) o) ∨
    lookup key t.toList (key item) = none ∧
      ((∃ t' events o, t.accept item = ⟨t', events, .ok (o, true)⟩ ∧ o.item = item ∧
        Added t t' o) ∨
      ∃ t' events fault, t.accept item = ⟨t', events, .error fault⟩ ∧ Rehoused t t') := by
  rcases h.locate?_cases (key item) with ⟨o, ho, hfound⟩ | ⟨hnone, hlookup⟩
  · exact .inl ⟨o, by simp only [accept, ho], hfound⟩
  · refine .inr ⟨hlookup, ?_⟩
    simp only [accept, hnone]
    rcases h.secure_cases (t.setup.hash (key item)) with
      ⟨t', events, seat, hsecure, hrehoused, hfits⟩ | ⟨t', events, fault, hsecure, hrehoused⟩
    · have hadded := hfits.added hrehoused.sound item (by rw [hrehoused.setup_eq])
      exact .inl ⟨_, _, _, by rw [hsecure]; rfl, rfl, hrehoused.added hadded⟩
    · exact .inr ⟨t', events, fault, by rw [hsecure]; rfl, hrehoused⟩

/-- **What an insertion does**: it finds the first item of the key; or it adds its own, for an
absent key; or it ends with a fault, and then the key is absent or the table is as it was. -/
theorem Sound.emplace_cases (h : t.Sound) (item : α) :
    (∃ o, t.emplace item = .done t (o, false) ∧ t.Found (key item) o) ∨
    (lookup key t.toList (key item) = none ∧ t.setup.house = .ok () ∧ ∃ t' events o,
      t.emplace item = ⟨t', events, .ok (o, true)⟩ ∧ o.item = item ∧ Added t t' o) ∨
    ∃ t' events fault, t.emplace item = ⟨t', events, .error fault⟩ ∧ Rehoused t t' ∧
      (lookup key t.toList (key item) = none ∨ t' = t) := by
  rcases t.emplace_outcomes item with ⟨fault, -, heq⟩ | ⟨hhouse, heq⟩
  · exact .inr (.inr ⟨t, [], fault, heq, h.rehoused, .inr rfl⟩)
  · rw [heq]
    rcases h.accept_cases item with hfound | ⟨hnone, hadded | ⟨t', events, fault, hfail, hrehoused⟩⟩
    · exact .inl hfound
    · exact .inr (.inl ⟨hnone, hhouse, hadded⟩)
    · exact .inr (.inr ⟨t', events, fault, hfail, hrehoused, .inl hnone⟩)

/-- The item that is built for a key, which must be its key. -/
def built (key : α → κ) (k : κ) (make : Unit → Except Fault α) : Except Fault α :=
  match make () with
  | .error fault => .error fault
  | .ok item => if key item == k then .ok item else .error .notEquivalent

theorem key_of_built {k : κ} {make : Unit → Except Fault α} {item : α}
    (h : built key k make = .ok item) : (key item == k) = true := by
  rw [built] at h
  split at h
  · cases h
  · split at h
    · next hkey =>
      cases h
      exact hkey
    · cases h

/-- **What an insertion of a built item does**: it finds the first item of the key; or it adds the
item that is built, for an absent key; or none is built; or growth ends with a fault, or the item
does not get its block. -/
theorem Sound.tryEmplaceWith_cases (h : t.Sound) (k : κ) (make : Unit → Except Fault α) :
    (∃ o, t.tryEmplaceWith k make = .done t (o, false) ∧ t.Found k o) ∨
    lookup key t.toList k = none ∧
      ((∃ t' events o, t.tryEmplaceWith k make = ⟨t', events, .ok (o, true)⟩ ∧
        built key k make = .ok o.item ∧ t.setup.house = .ok () ∧ Added t t' o) ∨
      (∃ t' events fault, t.tryEmplaceWith k make = ⟨t', events, .error fault⟩ ∧
        built key k make = .error fault ∧ Rehoused t t') ∨
      ∃ t' events fault, t.tryEmplaceWith k make = ⟨t', events, .error fault⟩ ∧
        Rehoused t t') := by
  rw [Table.tryEmplaceWith]
  rcases h.entry_cases k with ⟨o, heq, hfound⟩ |
    ⟨hnone, ⟨t', events, seat, heq, hrehoused, hfits⟩ | ⟨t', events, fault, heq, hrehoused⟩⟩
  · rw [heq]
    exact .inl ⟨o, rfl, hfound⟩
  · rw [heq]
    refine .inr ⟨hnone, ?_⟩
    cases hmake : make () with
    | error fault =>
      simp only [Outcome.andThen, built, hmake]
      exact .inr (.inl ⟨_, _, _, rfl, rfl, hrehoused⟩)
    | ok item =>
      by_cases hitem : (key item == k) = true
      · have hhash := t.setup.hash_congr hitem
        have hadded := hrehoused.added
          (hfits.added hrehoused.sound item (by rw [hrehoused.setup_eq, hhash]))
        simp only [Outcome.andThen, built, hmake, if_pos hitem]
        rcases t'.fill_outcomes seat item with ⟨fault, -, hfill⟩ | ⟨hhouse, hfill⟩
        · rw [hfill]
          exact .inr (.inr ⟨_, _, _, rfl, hrehoused⟩)
        · rw [hfill]
          exact .inl ⟨_, _, _, rfl, rfl, hrehoused.setup_eq ▸ hhouse, hadded⟩
      · simp only [Outcome.andThen, built, hmake, if_neg hitem]
        exact .inr (.inl ⟨_, _, _, rfl, rfl, hrehoused⟩)
  · rw [heq]
    exact .inr ⟨hnone, .inr (.inr ⟨_, _, _, rfl, hrehoused⟩)⟩

/-! ### Many items -/

/-- Inserting items one by one keeps a table sound, also when an insertion ends with a fault. -/
theorem Sound.emplaceEach (h : t.Sound) (count : Nat) (items : List α) :
    (t.emplaceEach count items).state.Sound ∧
      (t.emplaceEach count items).state.setup = t.setup := by
  induction items generalizing t count with
  | nil => exact ⟨h, rfl⟩
  | cons a items ih =>
    rw [Table.emplaceEach]
    rcases h.emplace_cases a with ⟨o, heq, -⟩ |
      ⟨-, -, t', events, o, heq, -, hadded⟩ | ⟨t', events, fault, heq, hrehoused, -⟩
    · rw [heq]
      exact ih h count
    · rw [heq]
      obtain ⟨hsound, hsetup⟩ := ih hadded.sound (count + 1)
      exact ⟨hsound, hsetup.trans hadded.setup_eq⟩
    · rw [heq]
      exact ⟨hrehoused.sound, hrehoused.setup_eq⟩

/-- **Items are inserted one by one**, those whose keys are absent when their turn comes. -/
theorem Sound.emplaceEach_perm [EquivBEq κ] (h : t.Sound) (hdistinct : Distinct key t.toList)
    {count n : Nat} {items : List α} (hn : (t.emplaceEach count items).result = .ok n) :
    (t.emplaceEach count items).state.toList.Perm
        (insertAll key (fun old _ ↦ old) t.toList items).1 ∧
      n = count + (insertAll key (fun old _ ↦ old) t.toList items).2 := by
  induction items generalizing t count with
  | nil =>
    cases hn
    exact ⟨.refl _, rfl⟩
  | cons a items ih =>
    rw [Table.emplaceEach] at hn ⊢
    rcases h.emplace_cases a with ⟨o, heq, hfound⟩ |
      ⟨hnone, -, t', events, o, heq, rfl, hadded⟩ | ⟨t', events, fault, heq, -, -⟩
    · rw [heq] at hn ⊢
      have hafter := (revise_lookup_perm key t.toList (key a)).symm
      rw [hfound.lookup_eq] at hafter
      obtain ⟨-, hall, hcount⟩ := hdistinct.insertAll_cons (fun old _ ↦ old)
        (fun _ _ h ↦ h) (show t.toList.Perm _ by rw [hfound.lookup_eq]; exact hafter) items
      obtain ⟨hperm, hn'⟩ := ih h hdistinct hn
      rw [hfound.lookup_eq] at hcount
      exact ⟨hperm.trans hall, hn'.trans (congrArg (count + ·) hcount.symm)⟩
    · rw [heq] at hn ⊢
      have hafter := hadded.perm
      rw [← List.singleton_append, ← Option.toList_some, ← revise_of_lookup_none hnone] at hafter
      obtain ⟨hdistinct', hall, hcount⟩ := hdistinct.insertAll_cons (fun old _ ↦ old)
        (fun _ _ h ↦ h) (show t'.toList.Perm _ by rw [hnone]; exact hafter) items
      obtain ⟨hperm, hn'⟩ := ih hadded.sound hdistinct' hn
      rw [hnone, Option.isNone_none, if_pos rfl] at hcount
      refine ⟨hperm.trans hall, ?_⟩
      rw [hn', hcount, if_pos rfl]
      omega
    · rw [heq] at hn
      cases hn

/-- Inserting items after room is made for them keeps a table sound, also when it ends with a
fault. -/
theorem Sound.emplaceMany (h : t.Sound) (hint : Nat) (items : List α) :
    ((t.reserve hint).andThen fun t () ↦ t.emplaceEach 0 items).state.Sound ∧
      ((t.reserve hint).andThen fun t () ↦ t.emplaceEach 0 items).state.setup = t.setup :=
  h.sound_reserve_andThen fun _ ht' ↦ ht'.sound.emplaceEach 0 items

/-- Items are inserted one by one after room is made for them. -/
theorem Sound.emplaceMany_perm [EquivBEq κ] (h : t.Sound) (hdistinct : Distinct key t.toList)
    {hint n : Nat} {items : List α}
    (hn : ((t.reserve hint).andThen fun t () ↦ t.emplaceEach 0 items).result = .ok n) :
    ((t.reserve hint).andThen fun t () ↦ t.emplaceEach 0 items).state.toList.Perm
        (insertAll key (fun old _ ↦ old) t.toList items).1 ∧
      n = (insertAll key (fun old _ ↦ old) t.toList items).2 := by
  obtain ⟨t', hrehoused, hstate, hresult⟩ := h.of_reserve_andThen hn
  have hdistinct' : Distinct key t'.toList := hdistinct.perm hrehoused.perm.symm
  obtain ⟨hperm, hcount⟩ := hrehoused.sound.emplaceEach_perm hdistinct' hresult
  obtain ⟨hall, hcount'⟩ :=
    hdistinct'.insertAll_perm (fun old _ ↦ old) (fun _ _ h ↦ h) hrehoused.perm items
  rw [hstate]
  exact ⟨hperm.trans hall, by rw [hcount, hcount', Nat.zero_add]⟩

end ProbeWindow.Table
