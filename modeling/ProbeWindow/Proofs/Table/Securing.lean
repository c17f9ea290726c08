import ProbeWindow.Proofs.Agreement
import ProbeWindow.Proofs.SlotArray.Carrying
import ProbeWindow.Proofs.Table.Headroom

/-!
# Securing a seat twice

A table has a seat for a hash at hand when it need not grow first and the window has a vacancy
(`secure_of_fits`). Securing ends in such a table: every growth clears the mark and ends above the
number of items, a larger capacity never has a lower threshold, and the vacancy is searched for in
the slots as they are then. So to secure a seat again is to do nothing (`Sound.secure_again`). A table
with slots and no items has a seat at hand for every hash (`Sound.exists_fits_of_nil`).

An entry of an absent key that is dropped leaves such a table, and what is inserted for the key next
goes where the entry would have put it (`Sound.secured`).
-/

namespace ProbeWindow.Table

universe u v

variable {α : Type u} {κ : Type v} [BEq κ] {key : α → κ} {t : Table key} {hash : UInt64}
  {seat : Seat} {k : κ}

open Contents

/-- **A seat that is at hand is secured without doing anything.** -/
theorem secure_of_fits (hclear : t.rehashPending = false) (hsize : t.size < t.maxSize)
    (hfits : t.Fits hash seat) : t.secure hash = .done t seat := by
  have hmust : t.mustGrow = false := mustGrow_eq_false_iff.mpr ⟨hclear, hsize⟩
  have hseat : (⟨hash, t.home hash, seat.vacancy⟩ : Seat) = seat := by
    rw [← hfits.home_eq, ← hfits.hash_eq]
  rw [secure, hmust, if_neg Bool.false_ne_true, settle_eq, hfits.vacancy_eq]
  exact congrArg (Outcome.done t) hseat

/-- **A table in which a seat was secured is not marked**, whether it was before or not. -/
theorem rehashPending_secure (hok : (t.secure hash).result = .ok seat) :
    (t.secure hash).state.rehashPending = false := by
  rcases t.secure_outcomes hash with ⟨fault, -, -, heq⟩ | ⟨-, hgrown, heq⟩ | ⟨hmust, heq⟩ <;>
    rw [heq] at hok ⊢
  · cases hok
  · -- the growth that came first has cleared the mark
    have hclear : t.grow.state.rehashPending = false := by
      rcases t.grow_reports with ⟨fault, hfail⟩ | ⟨slots, hgrow, -⟩
      · rw [hfail] at hgrown
        cases hgrown
      · rw [hgrow]
    exact (secures_settle t.grow.state hash).mark hclear ⟨seat, hok⟩
  · exact (secures_settle t hash).mark (mustGrow_eq_false_iff.mp hmust).1 ⟨seat, hok⟩

/-- **An empty table with slots has a seat for every hash.** -/
theorem Sound.exists_fits_of_nil (h : t.Sound) (hnil : t.toList = []) (hroom : t.size < t.capacity)
    (hash : UInt64) : ∃ seat, t.Fits hash seat := by
  have hfur := h.furnished (Nat.lt_of_le_of_lt (Nat.zero_le _) hroom)
  have hhome : t.home hash < t.capacity := hfur.offered.index_lt hash
  have hlt : t.home hash < t.slots.slotCount := by
    rw [hfur.ordered.slotCount_eq]
    exact Nat.lt_add_right _ hhome
  cases hlow : (t.slots.group (t.home hash)).vacant.lowest? with
  | none =>
    -- a full window has an item at its home
    have hocc := SlotArray.isOccupied_of_lowest?_eq_none hlow _ (Nat.le_refl _)
      (Nat.lt_add_of_pos_right (by decide))
    obtain ⟨a, ha⟩ := hfur.ordered.formed.exists_item hlt hocc
    cases ((SlotArray.toList_eq_nil_iff _).mp hnil _).symm.trans ha
  | some empty =>
    exact ⟨⟨hash, t.home hash, ⟨_, empty⟩⟩, rfl, rfl, hfur.ordered.exists_vacancy? hhome hlow, hroom⟩

/-- **A secured seat stays secured.** -/
theorem Sound.secure_again (h : t.Sound) (hok : (t.secure hash).result = .ok seat) :
    (t.secure hash).state.secure hash = .done (t.secure hash).state seat := by
  have hclear := rehashPending_secure hok
  have hsize := h.size_lt_maxSize_secure hok
  rcases h.secure_cases hash with
    ⟨t', events, seat', heq, hrehoused, hfits⟩ | ⟨t', events, fault, heq, -⟩
  · rw [heq] at hok hclear hsize ⊢
    cases hok
    exact secure_of_fits hclear (hrehoused.size_eq h ▸ hsize) hfits
  · rw [heq] at hok
    cases hok

/-! ### Entries -/

/-- An item that is inserted where its seat is at hand goes to that seat, in every way. -/
theorem insertBy_of_entry [ReflBEq κ] {item : α}
    (hentry : t.entry (key item) = .done t (.vacant seat)) (way : Way) :
    t.insertBy item way = t.fill seat item := by
  have hvia : t.insertVia item = (t.fill seat item).map (·, true) := by
    rw [insertVia, hentry]
    rfl
  by_cases hway : way = .emplace
  · cases hway
    rcases t.fill_outcomes seat item with ⟨fault, hhouse, heq⟩ | ⟨hhouse, heq⟩
    · rw [insertBy, t.emplace_of_refused item hhouse, heq]
      rfl
    · rw [insertBy, t.emplace_eq item hhouse, hvia, heq]
      rfl
  · rw [t.insertBy_eq item hway, hvia]
    exact t.insertAt_vacant_fst item seat

/-- The entry of an absent key is a seat that is secured. -/
theorem Sound.entry_of_absent (h : t.Sound) (hnone : lookup key t.toList k = none) :
    t.entry k = (t.secure (t.setup.hash k)).map .vacant := by
  simp only [entry, h.locate?_of_absent hnone]

/-- The entry of an absent key that is returned is vacant. -/
theorem Sound.vacant_of_absent {e : Entry α} (h : t.Sound) (hnone : lookup key t.toList k = none)
    (he : (t.entry k).result = .ok e) : ∃ seat, e = .vacant seat := by
  rw [h.entry_of_absent hnone] at he
  obtain ⟨seat, -, rfl⟩ := Outcome.of_result_map he
  exact ⟨seat, rfl⟩

/-- When a table without items has a vacant entry, it has one for every key, without doing anything
more. -/
theorem Sound.entry_of_nil (h : t.Sound) (hnil : t.toList = [])
    (hvacant : (t.entry k).result = .ok (.vacant seat)) (j : κ) :
    ∃ seat', (t.entry k).state.entry j = .done (t.entry k).state (.vacant seat') := by
  rw [h.entry_of_absent (by rw [hnil]; rfl)] at hvacant ⊢
  obtain ⟨seat', hsecure, -⟩ := Outcome.of_result_map hvacant
  rw [Outcome.state_map]
  have hrehoused := (h.enlarged_secure (t.setup.hash k)).toRehoused
  have hsound := hrehoused.sound
  have hnil' : (t.secure (t.setup.hash k)).state.toList = [] :=
    List.perm_nil.mp (hnil ▸ hrehoused.perm)
  have hsize := hrehoused.size_eq h ▸ h.size_lt_maxSize_secure hsecure
  obtain ⟨seat'', hfits⟩ := hsound.exists_fits_of_nil hnil'
    (Nat.lt_of_lt_of_le hsize (LoadFactor.maxSize_le _ _)) ((t.secure _).state.setup.hash j)
  refine ⟨seat'', ?_⟩
  rw [hsound.entry_of_absent (by rw [hnil']; rfl),
    secure_of_fits (rehashPending_secure hsecure) hsize hfits]
  rfl

/-- Equal keys have the same entry. -/
theorem entry_congr [EquivBEq κ] {j : κ} (hjk : (j == k) = true) : t.entry j = t.entry k := by
  simp only [entry, locate?, t.setup.hash_congr hjk, hasKey_congr key hjk]

/-- A seat was secured for an absent key, and its entry dropped: `t'` is the table that is left, and
`events` are what was reported on the way. -/
structure Secured (t : Table key) (k : κ) (t' : Table key) (events : List Event) (seat : Seat) :
    Prop where
  /-- The items are the same, and the table is sound. -/
  rehoused : Rehoused t t'
  /-- The entry of the key has the same seat again; nothing is done for it, nothing reported. -/
  entry_eq : ∀ j, (j == k) = true → t'.entry j = .done t' (.vacant seat)
  /-- The dropped entry could have been filled with an item of the key. -/
  fillChecked_eq : ∀ item, (key item == k) = true → t'.fillChecked seat item = t'.fill seat item
  /-- That would not have been growth, and would not have been reported. -/
  quiet : ∀ item, Quiet t' (t'.fill seat item)
  /-- When the item gets its block, the entry would have been filled. -/
  fill_eq : t.setup.house = .ok () → ∀ item,
    t'.fill seat item = .done (t'.sit seat item).1 (t'.sit seat item).2
  /-- Every way to insert an item of the key does the same. -/
  insertBy_eq : ∀ item, (key item == k) = true → ∀ way : Way,
    t'.insertBy item way = t'.fill seat item
  /-- To insert an item at once is to drop the entry first, as long as the item gets its block or
  asks for it late. -/
  at_once : ∀ item, (key item == k) = true → ∀ way : Way,
    (way = .emplace → t.setup.house = .ok ()) →
      t.insertBy item way = (t'.insertBy item way).after events

/-- **The entry of an absent key has the same seat when it is asked for again.** -/
theorem Sound.entry_again (h : t.Sound) (hnone : lookup key t.toList k = none)
    (hvacant : (t.entry k).result = .ok (.vacant seat)) :
    Rehoused t (t.entry k).state ∧
      (t.entry k).state.entry k = .done (t.entry k).state (.vacant seat) := by
  rw [h.entry_of_absent hnone] at hvacant ⊢
  obtain ⟨seat', hsecure, heq⟩ := Outcome.of_result_map hvacant
  cases heq
  have hrehoused := (h.enlarged_secure (t.setup.hash k)).toRehoused
  have hnone' : lookup key (t.secure (t.setup.hash k)).state.toList k = none :=
    lookup_eq_none_iff.mpr fun a ha ↦
      lookup_eq_none_iff.mp hnone a (hrehoused.perm.mem_iff.mp ha)
  refine ⟨hrehoused, ?_⟩
  rw [Outcome.state_map, hrehoused.sound.entry_of_absent hnone', hrehoused.setup_eq,
    h.secure_again hsecure]
  rfl

/-- **A dropped entry leaves its seat secured.** -/
theorem Sound.secured [EquivBEq κ] (h : t.Sound) (hnone : lookup key t.toList k = none)
    (hvacant : (t.entry k).result = .ok (.vacant seat)) :
    t.Secured k (t.entry k).state (t.entry k).events seat := by
  obtain ⟨hrehoused, hagain⟩ := h.entry_again hnone hvacant
  have hfill : ∀ item, (key item == k) = true → ∀ way : Way,
      (t.entry k).state.insertBy item way = (t.entry k).state.fill seat item :=
    fun item hitem way ↦ insertBy_of_entry ((entry_congr hitem).trans hagain) way
  constructor
  case rehoused => exact hrehoused
  case entry_eq => exact fun j hj ↦ (entry_congr hj).trans hagain
  case fillChecked_eq =>
    intro item hitem
    have hhash : (t.entry k).state.setup.hash (key item) = seat.hash :=
      (Setup.hash_congr _ hitem).trans (t.hash_of_vacant hvacant)
    rw [fillChecked, if_pos hhash]
  case quiet => exact (t.entry k).state.quiet_fill seat
  case fill_eq =>
    intro hhouse item
    rw [fill, hrehoused.setup_eq, hhouse]
  case insertBy_eq => exact hfill
  case at_once =>
    intro item hitem way hearly
    have hvia : t.insertBy item way = (t.insertVia item).map Prod.fst := by
      by_cases hway : way = .emplace
      · rw [hway, insertBy, t.emplace_eq item (hearly hway)]
      · exact t.insertBy_eq item hway
    rw [hfill item hitem way, hvia, insertVia, entry_congr hitem, Outcome.andThen_of_ok _ hvacant,
      ← Table.insertAt_vacant_fst]
    rfl

end ProbeWindow.Table
