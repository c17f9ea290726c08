import ProbeWindow.Proofs.Map.Meaning

/-!
# Calls on one key of a map

Every call on one key of a map serves it by its act, or is refused (`Sound.handles_map`). The entry
of a key may be used in many steps. An occupied entry is used by induction on the steps: after each
of them the pair is found again, changed. A vacant entry is filled at most once, at the end.
-/

namespace ProbeWindow

universe u v w

variable {κ : Type u} {ν : Type v} {σ : Type w} [BEq κ]

open Contents Table

/-! ### Entries -/

namespace Table

section Occupied

variable {m : HashMap κ ν} {k : κ} {o : Occupant (κ × ν)}

open HashMap

/-- A value that is handed out is changed in place. -/
theorem Found.serves_handOut (hfound : m.Found k o) (h : m.Sound) {change : ν → ν}
    {act : Act (κ × ν) (List (HashMap.Answer κ ν))}
    (hact : act (some o.item) = (some (mapValue change o.item), .ok [.value (change o.item.2)])) :
    Serves m k act (HashMap.handOut m change o) :=
  hfound.serves_update (f := mapValue change) h rfl hact

/-- A changed value is found again. -/
theorem Found.mapValue (hfound : m.Found k o) (change : ν → ν) :
    (m.update o (mapValue change)).1.Found k ⟨o.index, o.item.1, change o.item.2⟩ :=
  hfound.update (f := HashMap.mapValue change) hfound.first.key_eq

theorem Found.sound_mapValue (hfound : m.Found k o) (h : m.Sound) (change : ν → ν) :
    (m.update o (HashMap.mapValue change)).1.Sound :=
  h.update hfound.item rfl

/-- **The use of an occupied entry**, by induction on its steps. -/
theorem Found.serves_occupied (last : OccupiedEnd ν) (steps : List (OccupiedStep ν))
    (hfound : m.Found k o) (h : m.Sound) :
    Serves m k (fun _ ↦ ((occupiedAct last o.item steps).1, .ok (occupiedAct last o.item steps).2))
      (execOccupied last m o steps) := by
  induction steps generalizing m o with
  | nil =>
    cases last with
    | drop => exact hfound.serves_keep h rfl
    | intoMut change => exact hfound.serves_handOut h rfl
    | remove => exact hfound.serves_erase h rfl
    | removeEntry => exact hfound.serves_erase h rfl
  | cons step steps ih =>
    cases step with
    | key => exact (ih hfound h).map _ rfl
    | get => exact (ih hfound h).map _ rfl
    | getMut change =>
      have hnext := ih (hfound.mapValue change) (hfound.sound_mapValue h change)
      have hserved := hnext.map (f := (HashMap.Answer.value (change o.item.2) :: ·))
        (fun _ ↦ ((occupiedAct last o.item (.getMut change :: steps)).1,
          .ok (occupiedAct last o.item (.getMut change :: steps)).2)) rfl
      exact hfound.serves_update_trans (f := HashMap.mapValue change) hfound.first.key_eq rfl
        hserved
    | insert v =>
      have hnext := ih (hfound.mapValue fun _ ↦ v) (hfound.sound_mapValue h fun _ ↦ v)
      have hserved := hnext.map (f := (HashMap.Answer.value o.item.2 :: ·))
        (fun _ ↦ ((occupiedAct last o.item (.insert v :: steps)).1,
          .ok (occupiedAct last o.item (.insert v :: steps)).2)) rfl
      exact hfound.serves_update_trans (f := HashMap.mapValue fun _ ↦ v) hfound.first.key_eq rfl
        hserved

end Occupied

section Vacant

variable {m m' : HashMap κ ν} {k : κ} {seat : Seat}

open HashMap

/-- A vacant entry is filled with a value, which is handed out and changed. -/
theorem Rehoused.handles_fill (h : Rehoused m m') (hnone : lookup Prod.fst m.toList k = none)
    (hfits : m'.Fits (m.setup.hash k) seat) (v : ν) (change : ν → ν)
    {act : Act (κ × ν) (List (HashMap.Answer κ ν))}
    (hact : act none = (some (k, change v), .ok [.value (change v)])) :
    Handles m k act ((m'.fill seat (k, v)).andThen fun m o ↦ HashMap.handOut m change o) := by
  rcases m'.fill_outcomes seat (k, v) with ⟨fault, -, heq⟩ | ⟨hhouse, heq⟩ <;> rw [heq]
  · exact .inr (h.refused hnone fault [])
  · rw [h.setup_eq] at hhouse
    have hadded := h.added (hfits.added h.sound (k, v) (by rw [h.setup_eq]))
    exact .inl ((hadded.update (f := mapValue change) rfl).serves hhouse hnone hact)

/-- **The use of a vacant entry.** -/
theorem Rehoused.handles_vacant (h : Rehoused m m') (hnone : lookup Prod.fst m.toList k = none)
    (hfits : m'.Fits (m.setup.hash k) seat) (use : VacantUse ν) :
    Handles m k (fun _ ↦ ((use.act k).1, .ok (use.act k).2)) (use.exec m' k seat) := by
  induction use with
  | drop => exact .inl (h.serves hnone rfl)
  | key next ih => exact ih.map _ rfl
  | intoKey => exact .inl (h.serves hnone rfl)
  | insert v change => exact h.handles_fill hnone hfits v change rfl

/-- A vacant entry is filled with a value that is built. -/
theorem Rehoused.handles_orInsertWith (h : Rehoused m m')
    (hnone : lookup Prod.fst m.toList k = none) (hfits : m'.Fits (m.setup.hash k) seat)
    (make : Unit → Except Fault ν) (change : ν → ν) :
    Handles m k (orInsertAct k make change)
      ((HashMap.orInsertWith m' ⟨k, .vacant seat⟩ make).andThen fun m o ↦
        HashMap.handOut m change o) := by
  cases hmake : make () with
  | error fault =>
    simp only [HashMap.orInsertWith, hmake]
    exact .inl (h.serves hnone (by simp only [orInsertAct, hmake]))
  | ok v =>
    simp only [HashMap.orInsertWith, hmake]
    exact h.handles_fill hnone hfits v change (by simp only [orInsertAct, hmake])

end Vacant

section Entry

variable {m m' : HashMap κ ν} {k : κ}

open HashMap

/-- **The use of an entry that is occupied.** -/
theorem Found.serves_mapUse {o : Occupant (κ × ν)} (hfound : m.Found k o) (h : m.Sound)
    (use : HashMap.EntryUse κ ν) : Serves m k (use.act k) (use.exec m ⟨k, .occupied o⟩) := by
  induction use generalizing m o with
  | drop => exact hfound.serves_keep h rfl
  | key next ih => exact (ih hfound h).map _ (by rw [hfound.lookup_eq]; rfl)
  | andModify change next ih =>
    exact hfound.serves_update_trans (f := HashMap.mapValue change) hfound.first.key_eq rfl
      (ih (hfound.mapValue change) (hfound.sound_mapValue h change))
  | orInsert v change => exact hfound.serves_handOut h rfl
  | orInsertWith make change => exact (hfound.serves_handOut h rfl).after []
  | orInsertWithKey make change => exact (hfound.serves_handOut h rfl).after []
  | orDefault change => exact hfound.serves_handOut h rfl
  | matched vacant steps last =>
    exact (hfound.serves_occupied last steps h).congr (by rw [hfound.lookup_eq]; rfl)

/-- **The use of an entry that is vacant.** -/
theorem Rehoused.handles_mapUse (h : Rehoused m m') (hnone : lookup Prod.fst m.toList k = none)
    {seat : Seat} (hfits : m'.Fits (m.setup.hash k) seat) (use : HashMap.EntryUse κ ν) :
    Handles m k (use.act k) (use.exec m' ⟨k, .vacant seat⟩) := by
  induction use with
  | drop => exact .inl (h.serves hnone rfl)
  | key next ih => exact ih.map _ (by rw [hnone]; rfl)
  | andModify change next ih => exact ih.congr (by rw [hnone]; rfl)
  | orInsert v change => exact h.handles_fill hnone hfits v change rfl
  | orInsertWith make change => exact h.handles_orInsertWith hnone hfits make change
  | orInsertWithKey make change => exact h.handles_orInsertWith hnone hfits (fun () ↦ make k) change
  | orDefault change => exact h.handles_fill hnone hfits default change rfl
  | matched vacant steps last =>
    exact (h.handles_vacant hnone hfits vacant).congr (by rw [hnone]; rfl)

end Entry

/-! ### Calls -/

section Access

variable {m : HashMap κ ν}

open HashMap

theorem Sound.get?_eq (h : m.Sound) (k : κ) :
    HashMap.get? m k = (lookup Prod.fst m.toList k).map Prod.snd := by
  rw [HashMap.get?, h.find?_eq]

/-- **Setting a value** serves the key, or is refused. -/
theorem Sound.handles_insert (h : m.Sound) (p : κ × ν) :
    Handles m p.1 (insertAct p) (HashMap.insert m p.1 p.2) :=
  h.handles_put p.1 (mergePair · p) p (fun _ _ ↦ rfl) rfl (fun old ↦ old.map Prod.snd)
    (fun _ _ ↦ rfl) fun _ _ ↦ rfl

/-- **A call on one key of a map serves it by its act, or is refused.** -/
theorem Sound.handles_map (h : m.Sound) (a : HashMap.Access κ ν) :
    Handles m a.keyOf (a.act (σ := σ)) (a.exec m) := by
  cases a with
  | get k => exact .inl (h.serves_keep (by rw [h.get?_eq]; rfl))
  | getKeyValue k => exact .inl (h.serves_keep (by rw [h.find?_eq]; rfl))
  | contains k => exact .inl (h.serves_keep (by rw [h.contains_eq]; rfl))
  | count k => exact .inl (h.serves_keep (by rw [h.countPresent_singleton]; rfl))
  | index k =>
    show Handles m k _ _
    refine .inl (h.serves_keep ?_)
    rw [HashMap.get, h.get?_eq]
    cases lookup Prod.fst m.toList k <;> rfl
  | getMut k change =>
    exact h.handles_modify k (HashMap.mapValue change) (fun _ _ ↦ rfl) fun item ↦
      HashMap.Reply.value? (item.map Prod.snd)
  | remove k => exact h.handles_erase k fun item ↦ HashMap.Reply.value? (item.map Prod.snd)
  | removeEntry k => exact h.handles_erase k HashMap.Reply.pair?
  | insert k v => exact (h.handles_insert (k, v)).map _ rfl
  | emplace k v change =>
    show Handles m k _ _
    rw [HashMap.Access.exec, HashMap.emplace]
    rcases h.emplace_cases (k, v) with ⟨o, heq, hfound⟩ |
      ⟨hnone, hhouse, m', events, o, heq, hitem, hadded⟩ |
      ⟨m', events, fault, heq, hrehoused, habsent⟩
    · rw [heq]
      exact .inl (hfound.serves_update (f := HashMap.mapValue change) h rfl rfl)
    · obtain ⟨i, p⟩ := o
      subst hitem
      rw [heq]
      exact .inl ((hadded.update (f := HashMap.mapValue change) rfl).serves hhouse hnone rfl)
    · rw [heq]
      exact .inr ⟨habsent, hrehoused, fault, rfl⟩
  | tryEmplace k make change =>
    show Handles m k _ _
    rw [HashMap.Access.exec, HashMap.tryEmplace]
    rcases h.entry_cases k with ⟨o, heq, hfound⟩ |
      ⟨hnone, ⟨m', events, seat, heq, hrehoused, hfits⟩ | ⟨m', events, fault, heq, hrehoused⟩⟩
    · rw [heq]
      exact .inl (hfound.serves_update (f := HashMap.mapValue change) h rfl rfl)
    · rw [heq]
      cases hmake : make () with
      | error fault =>
        simp only [Outcome.andThen]
        exact .inl (hrehoused.serves hnone (by simp only [HashMap.Access.act, hmake]))
      | ok v =>
        simp only [Outcome.andThen]
        rcases m'.fill_outcomes seat (k, v) with ⟨fault, -, hfill⟩ | ⟨hhouse, hfill⟩ <;> rw [hfill]
        · exact .inr (hrehoused.refused hnone fault _)
        · rw [hrehoused.setup_eq] at hhouse
          have hadded := hrehoused.added
            (hfits.added hrehoused.sound (k, v) (by rw [hrehoused.setup_eq]))
          exact .inl ((hadded.update (f := HashMap.mapValue change) rfl).serves hhouse hnone
            (by simp only [HashMap.Access.act, hmake]; rfl))
    · rw [heq]
      exact .inr (hrehoused.refused hnone fault _)
  | entry k use =>
    show Handles m k _ _
    rw [HashMap.Access.exec, HashMap.entry]
    rcases h.entry_cases k with ⟨o, heq, hfound⟩ |
      ⟨hnone, ⟨m', events, seat, heq, hrehoused, hfits⟩ | ⟨m', events, fault, heq, hrehoused⟩⟩
    · rw [heq]
      exact .inl (((hfound.serves_mapUse h use).after []).map _ rfl)
    · rw [heq]
      exact ((hrehoused.handles_mapUse hnone hfits use).after events).map _ rfl
    · rw [heq]
      exact .inr ((hrehoused.refused hnone fault events).map HashMap.Reply.answers)

end Access

end Table

end ProbeWindow
