import ProbeWindow.Proofs.Table.Growth

/-!
# Calls on one key

A call on one key is specified by an **act**: from the item that the table has for the key, the
item that it has afterwards and the result. An outcome **serves** a key by an act when it is what
the act says of the contents: the item of the key is revised, everything else is left, and the
result is the act's.

A call for an absent key may have to grow, and growing may end in a fault; then the call is
**refused** and the contents are as they were. A call on a key that is there can be refused in one
way only, before it has looked at the table.

The lemmas below have one way to serve each: leaving the item, changing it in place, taking it
out, and adding one.
-/

namespace ProbeWindow

universe u v w x

/-- What a call on one key does: the item afterwards, and the result, from the item before. -/
abbrev Act (α : Type u) (ρ : Type w) := Option α → Option α × Except Fault ρ

namespace Table

variable {α : Type u} {κ : Type v} {ρ : Type w} [BEq κ] {key : α → κ} {t : Table key}

open Contents

/-- An outcome is what an act says of the item of a key. -/
structure Serves (t : Table key) (k : κ) (act : Act α ρ) (out : Outcome (Table key) ρ) : Prop where
  /-- The table is sound. -/
  sound : out.state.Sound
  /-- The setup is the same. -/
  setup_eq : out.state.setup = t.setup
  /-- The item of the key is revised. -/
  perm : out.state.toList.Perm (revise key t.toList k (act (lookup key t.toList k)).1)
  /-- The result is the act's. -/
  result_eq : out.result = (act (lookup key t.toList k)).2
  /-- An item that is added has got its block. -/
  housed : lookup key t.toList k = none → (act (lookup key t.toList k)).1.isSome = true →
    t.setup.house = .ok ()

/-- An outcome is a fault, and the items are the same. -/
structure Refused (t : Table key) (k : κ) (out : Outcome (Table key) ρ) : Prop where
  /-- The key is absent, or nothing was done. -/
  absent_or : lookup key t.toList k = none ∨ out.state = t
  /-- The items are the same. -/
  rehoused : Rehoused t out.state
  /-- The call ended with a fault. -/
  failed : ∃ fault, out.result = .error fault

/-- A call on one key serves it, or is refused. -/
def Handles (t : Table key) (k : κ) (act : Act α ρ) (out : Outcome (Table key) ρ) : Prop :=
  Serves t k act out ∨ Refused t k out

theorem Serves.after {k : κ} {act : Act α ρ} {out : Outcome (Table key) ρ}
    (h : Serves t k act out) (events : List Event) : Serves t k act (out.after events) :=
  ⟨h.sound, h.setup_eq, h.perm, h.result_eq, h.housed⟩

/-- Only what the act does to the item of the key matters. -/
theorem Serves.congr {k : κ} {act act' : Act α ρ} {out : Outcome (Table key) ρ}
    (h : Serves t k act out)
    (hact : act' (lookup key t.toList k) = act (lookup key t.toList k)) : Serves t k act' out :=
  ⟨h.sound, h.setup_eq, by rw [hact]; exact h.perm, by rw [hact]; exact h.result_eq,
    by rw [hact]; exact h.housed⟩

/-- The result is told in another way. -/
theorem Serves.map {τ : Type x} {k : κ} {act : Act α ρ} {out : Outcome (Table key) ρ}
    (h : Serves t k act out) (act' : Act α τ) {f : ρ → τ}
    (hact : act' (lookup key t.toList k) =
      ((act (lookup key t.toList k)).1, (act (lookup key t.toList k)).2.map f)) :
    Serves t k act' (out.map f) := by
  refine ⟨h.sound, h.setup_eq, ?_, ?_, ?_⟩
  · rw [hact]
    exact h.perm
  · rw [hact, Outcome.result_map, h.result_eq]
  · rw [hact]
    exact h.housed

/-- The result of a refused call is told in another way. -/
theorem Refused.map {τ : Type x} {k : κ} {out : Outcome (Table key) ρ} (h : Refused t k out)
    (f : ρ → τ) : Refused t k (out.map f) := by
  obtain ⟨fault, hfault⟩ := h.failed
  exact ⟨h.absent_or, h.rehoused, fault, by rw [Outcome.result_map, hfault]; rfl⟩

theorem Handles.congr {k : κ} {act act' : Act α ρ} {out : Outcome (Table key) ρ}
    (h : Handles t k act out)
    (hact : act' (lookup key t.toList k) = act (lookup key t.toList k)) : Handles t k act' out :=
  h.imp_left fun h ↦ h.congr hact

theorem Handles.after {k : κ} {act : Act α ρ} {out : Outcome (Table key) ρ}
    (h : Handles t k act out) (events : List Event) : Handles t k act (out.after events) :=
  h.imp (fun h ↦ h.after events) fun h ↦ ⟨h.absent_or, h.rehoused, h.failed⟩

/-- The result of a call is told in another way. -/
theorem Handles.map {τ : Type x} {k : κ} {act : Act α ρ} {out : Outcome (Table key) ρ}
    (h : Handles t k act out) (act' : Act α τ) {f : ρ → τ}
    (hact : act' (lookup key t.toList k) =
      ((act (lookup key t.toList k)).1, (act (lookup key t.toList k)).2.map f)) :
    Handles t k act' (out.map f) :=
  h.imp (fun h ↦ h.map act' hact) fun h ↦ h.map f

theorem Handles.sound {k : κ} {act : Act α ρ} {out : Outcome (Table key) ρ}
    (h : Handles t k act out) : out.state.Sound ∧ out.state.setup = t.setup := by
  rcases h with h | h
  · exact ⟨h.sound, h.setup_eq⟩
  · exact ⟨h.rehoused.sound, h.rehoused.setup_eq⟩

/-- A call that returns was not refused. -/
theorem Handles.serves {k : κ} {act : Act α ρ} {out : Outcome (Table key) ρ}
    (h : Handles t k act out) {r : ρ} (hr : out.result = .ok r) : Serves t k act out := by
  rcases h with h | h
  · exact h
  · obtain ⟨fault, hfault⟩ := h.failed
    rw [hr] at hfault
    cases hfault

/-! ### Blocks for items -/

/-- **The items of a table have got their blocks**: there are none when a block for an item is
refused. -/
def Lodged (t : Table key) : Prop := t.setup.house = .ok () ∨ t.toList = []

theorem lodged_empty (setup : Setup κ) : (empty key setup).Lodged :=
  .inr (bare_empty setup).toList_eq

theorem Lodged.of_nil {t' : Table key} (h : t.Lodged) (hsetup : t'.setup = t.setup)
    (hnil : t.toList = [] → t'.toList = []) : t'.Lodged :=
  h.imp (fun hhouse ↦ hsetup ▸ hhouse) hnil

theorem Rehoused.lodged {t' : Table key} (h : Rehoused t t') (hl : t.Lodged) : t'.Lodged :=
  hl.of_nil h.setup_eq fun hnil ↦ List.perm_nil.mp (hnil ▸ h.perm)

/-- **A call on one key adds no item without a block.** -/
theorem Handles.lodged {k : κ} {act : Act α ρ} {out : Outcome (Table key) ρ}
    (h : Handles t k act out) (ht : t.Lodged) : out.state.Lodged := by
  rcases h with h | h
  · cases hitem : (act (lookup key t.toList k)).1 with
    | none =>
      refine ht.of_nil h.setup_eq fun hnil ↦ List.perm_nil.mp ?_
      have hperm := h.perm
      rwa [hitem, hnil] at hperm
    | some a =>
      refine .inl (h.setup_eq ▸ ht.elim id fun hnil ↦ h.housed ?_ ?_)
      · rw [hnil]
        rfl
      · rw [hitem]
        rfl
  · exact h.rehoused.lodged ht

/-! ### An item that is there -/

section Found

variable {k : κ} {o : Occupant α} {act : Act α ρ} {out : Outcome (Table key) ρ}

/-- A changed item is the first one of its key, where the item was, when the key is kept. -/
theorem Found.firstAt_update (h : t.Found k o) {f : α → α} (hf : (key (f o.item) == k) = true) :
    FirstAt key (t.update o f).1.toList k (t.slots.segment 0 o.index) (f o.item)
      (t.slots.segment (o.index + 1) t.slots.slotCount) :=
  ⟨toList_update h.item f, hf, h.first.front_ne⟩

/-- A changed item is found again when the key is kept. -/
theorem Found.update (h : t.Found k o) {f : α → α} (hf : (key (f o.item) == k) = true) :
    (t.update o f).1.Found k ⟨o.index, f o.item⟩ := by
  have hlt := t.slots.lt_slotCount_of_item? h.item
  have hfirst := h.firstAt_update hf
  refine ⟨?_, ?_⟩
  · rw [Table.update, SlotArray.item?_setItem, if_pos ⟨rfl, hlt⟩]
  · show FirstAt key _ k ((t.slots.setItem o.index (f o.item)).segment 0 o.index) _
      ((t.slots.setItem o.index (f o.item)).segment (o.index + 1)
        (t.slots.setItem o.index (f o.item)).slotCount)
    rwa [SlotArray.segment_setItem_of_le _ (Nat.le_refl _),
      SlotArray.segment_setItem_of_lt _ (Nat.lt_succ_self _), SlotArray.slotCount_setItem]

/-- The item is left as it is, if there is one. -/
theorem Sound.serves_keep (h : t.Sound) {r : Except Fault ρ} {events : List Event}
    (hact : act (lookup key t.toList k) = (lookup key t.toList k, r)) :
    Serves t k act ⟨t, events, r⟩ := by
  refine ⟨h, rfl, ?_, ?_, fun hnone hsome ↦ ?_⟩
  · rw [hact]
    exact (revise_lookup_perm key t.toList k).symm
  · rw [hact]
  · rw [hact, hnone] at hsome
    cases hsome

theorem Found.lookup_ne (h : t.Found k o) : lookup key t.toList k ≠ none := by
  rw [h.lookup_eq]
  exact Option.some_ne_none _

theorem Found.serves_keep (h : t.Found k o) (hs : t.Sound) {r : Except Fault ρ}
    {events : List Event} (hact : act (some o.item) = (some o.item, r)) :
    Serves t k act ⟨t, events, r⟩ :=
  hs.serves_keep (by rw [h.lookup_eq, hact])

/-- The item is changed in place. -/
theorem Found.serves_update (h : t.Found k o) (hs : t.Sound) {f : α → α}
    (hf : t.setup.hash (key (f o.item)) = t.setup.hash (key o.item)) {r : Except Fault ρ}
    {events : List Event} (hact : act (some o.item) = (some (f o.item), r)) :
    Serves t k act ⟨(t.update o f).1, events, r⟩ := by
  refine ⟨hs.update h.item hf, rfl, ?_, ?_, fun hnone ↦ absurd hnone h.lookup_ne⟩
  · rw [h.lookup_eq, hact, toList_update h.item]
    exact h.first.revise_perm (some (f o.item))
  · rw [h.lookup_eq, hact]

/-- The item is changed in place, and then served by a further act. -/
theorem Found.serves_update_trans (h : t.Found k o) {f : α → α} {act' : Act α ρ}
    (hf : (key (f o.item) == k) = true) (hact : act (some o.item) = act' (some (f o.item)))
    (hout : Serves (t.update o f).1 k act' out) : Serves t k act out := by
  have hfirst := h.firstAt_update hf
  refine ⟨hout.sound, hout.setup_eq, ?_, ?_, fun hnone ↦ absurd hnone h.lookup_ne⟩
  · rw [h.lookup_eq, h.first.revise_eq, hact, ← hfirst.revise_eq, ← hfirst.lookup_eq]
    exact hout.perm
  · rw [hout.result_eq, hfirst.lookup_eq, h.lookup_eq, hact]

/-- The item is taken out. -/
theorem Found.serves_erase (h : t.Found k o) (hs : t.Sound) {r : Except Fault ρ}
    {events : List Event} (hact : act (some o.item) = (none, r)) :
    Serves t k act ⟨t.eraseAt o.index, events, r⟩ := by
  refine ⟨hs.eraseAt h.item, rfl, ?_, ?_, fun hnone ↦ absurd hnone h.lookup_ne⟩
  · rw [h.lookup_eq, hact, hs.toList_eraseAt h.item]
    exact h.first.revise_perm none
  · rw [h.lookup_eq, hact]

/-- A call that changes the item of a key finds it and changes it, or the key is absent. -/
theorem Sound.modify_cases (h : t.Sound) (k : κ) (f : α → α) :
    (∃ o, t.modify k f = ((t.update o f).1, some (f o.item)) ∧ t.Found k o) ∨
      t.modify k f = (t, none) ∧ lookup key t.toList k = none := by
  rcases h.locate?_cases k with ⟨o, ho, hfound⟩ | ⟨hnone, hlookup⟩
  · refine .inl ⟨o, ?_, hfound⟩
    rw [Table.modify, occupant?, ho]
    rfl
  · exact .inr ⟨by rw [Table.modify, occupant?, hnone], hlookup⟩

/-- A call that takes the item of a key out finds it and erases it, or the key is absent. -/
theorem Sound.erase_cases (h : t.Sound) (k : κ) :
    (∃ o, t.erase k = (t.eraseAt o.index, some o.item) ∧ t.Found k o) ∨
      t.erase k = (t, none) ∧ lookup key t.toList k = none := by
  rcases h.locate?_cases k with ⟨o, ho, hfound⟩ | ⟨hnone, hlookup⟩
  · exact .inl ⟨o, by rw [Table.erase, occupant?, ho], hfound⟩
  · exact .inr ⟨by rw [Table.erase, occupant?, hnone], hlookup⟩

/-- **A call that takes the item of a key out** serves the key. -/
theorem Sound.handles_erase (h : t.Sound) (k : κ) (tell : Option α → ρ) :
    Handles t k (fun old ↦ (none, .ok (tell old)))
      (.done (t.erase k).1 (tell (t.erase k).2)) := by
  rcases h.erase_cases k with ⟨o, heq, hfound⟩ | ⟨heq, hnone⟩
  · rw [heq]
    exact .inl (hfound.serves_erase h rfl)
  · rw [heq]
    exact .inl (h.serves_keep (by rw [hnone]))

/-- **A call that changes the item of a key** serves the key. -/
theorem Sound.handles_modify (h : t.Sound) (k : κ) (f : α → α)
    (hf : ∀ a ∈ lookup key t.toList k, t.setup.hash (key (f a)) = t.setup.hash (key a))
    (tell : Option α → ρ) :
    Handles t k (fun old ↦ (old.map f, .ok (tell (old.map f))))
      (.done (t.modify k f).1 (tell (t.modify k f).2)) := by
  rcases h.modify_cases k f with ⟨o, heq, hfound⟩ | ⟨heq, hnone⟩
  · rw [heq]
    exact .inl (hfound.serves_update h (hf o.item hfound.lookup_eq) rfl)
  · rw [heq]
    exact .inl (h.serves_keep (by rw [hnone]; rfl))

end Found

/-! ### A key that is absent -/

section Absent

variable {k : κ} {t' t'' : Table key} {o : Occupant α} {act : Act α ρ}

/-- A table with one item more, which an occupant has. -/
structure Added (t t' : Table key) (o : Occupant α) : Prop where
  /-- The table is sound. -/
  sound : t'.Sound
  /-- The slot of the occupant has the item. -/
  item : t'.slots.item? o.index = some o.item
  /-- The items are the others and the new one. -/
  perm : t'.toList.Perm (o.item :: t.toList)
  /-- The setup is the same. -/
  setup_eq : t'.setup = t.setup
  /-- The load factor is the same. -/
  maxLoad_eq : t'.maxLoad = t.maxLoad

theorem Rehoused.added (h : Rehoused t t') (h' : Added t' t'' o) : Added t t'' o :=
  ⟨h'.sound, h'.item, h'.perm.trans (h.perm.cons o.item), h'.setup_eq.trans h.setup_eq,
    h'.maxLoad_eq.trans h.maxLoad_eq⟩

/-- A new item is changed in place. -/
theorem Added.update (h : Added t t' o) {f : α → α}
    (hf : t.setup.hash (key (f o.item)) = t.setup.hash (key o.item)) :
    Added t (t'.update o f).1 ⟨o.index, f o.item⟩ := by
  have hlt := t'.slots.lt_slotCount_of_item? h.item
  refine ⟨h.sound.update h.item (by rw [h.setup_eq, hf]), ?_, ?_, h.setup_eq, h.maxLoad_eq⟩
  · rw [Table.update, SlotArray.item?_setItem, if_pos ⟨rfl, hlt⟩]
  · have hperm := h.perm
    rw [Table.toList, t'.slots.toList_of_item? h.item] at hperm
    have hrest := (List.perm_middle.symm.trans hperm).cons_inv
    rw [toList_update h.item]
    exact List.perm_middle.trans (hrest.cons _)

/-- An item is added. -/
theorem Added.serves (h : Added t t' o) (hhouse : t.setup.house = .ok ())
    (hnone : lookup key t.toList k = none) {r : Except Fault ρ} {events : List Event}
    (hact : act none = (some o.item, r)) : Serves t k act ⟨t', events, r⟩ := by
  refine ⟨h.sound, h.setup_eq, ?_, ?_, fun _ _ ↦ hhouse⟩
  · rw [hnone, hact, revise_of_lookup_none hnone]
    exact h.perm
  · rw [hnone, hact]

/-- Nothing is added. -/
theorem Rehoused.serves (h : Rehoused t t') (hnone : lookup key t.toList k = none)
    {r : Except Fault ρ} {events : List Event} (hact : act none = (none, r)) :
    Serves t k act ⟨t', events, r⟩ := by
  refine ⟨h.sound, h.setup_eq, ?_, ?_, fun _ hsome ↦ ?_⟩
  · rw [hnone, hact, revise_of_lookup_none hnone]
    exact h.perm
  · rw [hnone, hact]
  · rw [hnone, hact] at hsome
    cases hsome

theorem Rehoused.refused (h : Rehoused t t') (hnone : lookup key t.toList k = none)
    (fault : Fault) (events : List Event) :
    Refused t k (⟨t', events, .error fault⟩ : Outcome (Table key) ρ) :=
  ⟨.inl hnone, h, fault, rfl⟩

end Absent

end Table

end ProbeWindow
