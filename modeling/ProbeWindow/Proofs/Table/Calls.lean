import ProbeWindow.Proofs.Table.Insertion
import ProbeWindow.Proofs.Table.Retention
import ProbeWindow.Proofs.Table.Upkeep

/-!
# The calls of a table

Everything that a user of a table can do with it, as data: calls on one key (`Access`), the uses of
an entry among them, and the calls that go through all items. A call is run by `exec`, which has
only the operations of the library in it. A user who gets hold of a stored item may change it; the
change is a function that is part of the call.

A call on one key is specified by its act (`Access.act`), and the theorem about it is that it
serves its key by the act, or is refused (`Sound.handles`). The one assumption is that changes keep
the hashes of the items they are applied to (`Access.Keeps`).
-/

namespace ProbeWindow.Table

universe u v w

variable {α : Type u} {κ : Type v} {σ : Type w} [BEq κ]

open Contents

/-! ### Calls on one key -/

/-- What a call on one key answers. -/
inductive Answer (α : Type u) where
  /-- There is no item. -/
  | none
  /-- Whether there is an item. -/
  | flag (present : Bool)
  /-- An item. -/
  | item (a : α)
  /-- The stored item, and whether it is the new one. -/
  | placed (a : α) (inserted : Bool)

/-- An answer from an item that may be missing. -/
def Answer.ofOption : Option α → Answer α
  | Option.none => .none
  | some a => .item a

/-- What is done with the entry of a key. -/
inductive EntryUse (α : Type u) where
  /-- The entry is dropped. -/
  | drop
  /-- A vacant entry is filled with an item; the stored item is changed. -/
  | orInsert (item : α) (change : α → α)
  /-- A vacant entry is filled with an item that is built for it; the stored item is changed. -/
  | orInsertWith (make : Unit → Except Fault α) (change : α → α)
  /-- A vacant entry is dropped, or filled with an item that is changed; the item of an occupied
  one is taken out, or changed. -/
  | matched (vacant : Option (α × (α → α))) (occupied : Option (α → α))

/-- A call on one key. -/
inductive Access (α : Type u) (κ : Type v) where
  /-- Looks the item up. -/
  | find (k : κ)
  /-- Tells whether there is an item. -/
  | contains (k : κ)
  /-- Changes the item. -/
  | modify (k : κ) (change : α → α)
  /-- Takes the item out. -/
  | erase (k : κ)
  /-- Inserts an item unless its key is there; changes the stored item. -/
  | emplace (item : α) (change : α → α)
  /-- Inserts an item that is built for an absent key; changes the stored item. -/
  | tryEmplaceWith (k : κ) (make : Unit → Except Fault α) (change : α → α)
  /-- Uses the entry of a key. -/
  | entry (k : κ) (use : EntryUse α)

section Exec

variable {key : α → κ} (t : Table key)

/-- An occupied item is handed out, and changed. -/
def handOut (change : α → α) (o : Occupant α) : Outcome (Table key) (Answer α) :=
  match t.update o change with
  | (t, item) => .done t (.item item)

/-- The result of an insertion is handed out, and changed. -/
def handOutPlaced (change : α → α) (o : Occupant α) (inserted : Bool) :
    Outcome (Table key) (Answer α) :=
  match t.update o change with
  | (t, item) => .done t (.placed item inserted)

/-- The use of an entry. -/
def EntryUse.exec (entry : Entry α) : EntryUse α → Outcome (Table key) (Answer α)
  | drop => .done t .none
  | orInsert item change =>
    (t.orInsert entry item).andThen fun t o ↦ t.handOut change o
  | orInsertWith make change =>
    (t.orInsertWith entry make).andThen fun t o ↦ t.handOut change o
  | matched vacant occupied =>
    match entry, vacant, occupied with
    | .vacant _, none, _ => .done t .none
    | .vacant seat, some (item, change), _ =>
      (t.fillChecked seat item).andThen fun t o ↦ t.handOut change o
    | .occupied o, _, none => .done (t.eraseAt o.index) (.item o.item)
    | .occupied o, _, some change => t.handOut change o

/-- The call on a table. -/
def Access.exec : Access α κ → Outcome (Table key) (Answer α)
  | find k => .done t (.ofOption (t.find? k))
  | contains k => .done t (.flag (t.contains k))
  | modify k change =>
    match t.modify k change with
    | (t, item) => .done t (.ofOption item)
  | erase k =>
    match t.erase k with
    | (t, item) => .done t (.ofOption item)
  | emplace item change =>
    (t.emplace item).andThen fun t (o, inserted) ↦ t.handOutPlaced change o inserted
  | tryEmplaceWith k make change =>
    (t.tryEmplaceWith k make).andThen fun t (o, inserted) ↦ t.handOutPlaced change o inserted
  | entry k use => (t.entry k).andThen fun t e ↦ use.exec t e

end Exec

/-! ### What they do -/

section Act

variable (setup : Setup κ) (key : α → κ)

/-- The item that a use offers for a vacant entry, and the change of it. -/
def EntryUse.offer : EntryUse α → Except Fault (Option (α × (α → α)))
  | drop => .ok none
  | orInsert item change => .ok (some (item, change))
  | orInsertWith make change => (make ()).map fun item ↦ some (item, change)
  | matched vacant _ => .ok vacant

/-- A vacant entry takes an item whose hash is that of the entry's key. -/
def fillAct (k : κ) (item : α) (change : α → α) : Option α × Except Fault (Answer α) :=
  if setup.hash (key item) = setup.hash k then
    (some (change item), .ok (.item (change item)))
  else
    (none, .error (.wrongVacantKey (setup.hash (key item)) (setup.hash k)))

/-- What the use of an entry does. -/
def EntryUse.act (k : κ) (use : EntryUse α) : Act α (Answer α)
  | none =>
    match use.offer with
    | .error fault => (none, .error fault)
    | .ok none => (none, .ok .none)
    | .ok (some (item, change)) => fillAct setup key k item change
  | some a =>
    match use with
    | drop => (some a, .ok .none)
    | matched _ none => (none, .ok (.item a))
    | orInsert _ change | orInsertWith _ change | matched _ (some change) =>
      (some (change a), .ok (.item (change a)))

/-- The key of a call. -/
def Access.keyOf : Access α κ → κ
  | find k | contains k | modify k _ | erase k | tryEmplaceWith k _ _ | entry k _ => k
  | emplace item _ => key item

/-- **What a call on one key does.** -/
def Access.act : Access α κ → Act α (Answer α)
  | find _, old => (old, .ok (.ofOption old))
  | contains _, old => (old, .ok (.flag old.isSome))
  | modify _ change, old => (old.map change, .ok (.ofOption (old.map change)))
  | erase _, old => (none, .ok (.ofOption old))
  | emplace item change, old =>
    (some (change (old.getD item)), .ok (.placed (change (old.getD item)) old.isNone))
  | tryEmplaceWith _ _ change, some a => (some (change a), .ok (.placed (change a) false))
  | tryEmplaceWith k make change, none =>
    match built key k make with
    | .error fault => (none, .error fault)
    | .ok item => (some (change item), .ok (.placed (change item) true))
  | entry k use, old => use.act setup key k old

/-- A relation holds between the item that the use of an entry hands out and the item after the
change. -/
def EntryUse.Keeps (R : α → α → Prop) (k : κ) (use : EntryUse α) : Option α → Prop
  | none => ∀ item change, use.offer = .ok (some (item, change)) →
    setup.hash (key item) = setup.hash k → R item (change item)
  | some a =>
    match use with
    | drop | matched _ none => True
    | orInsert _ change | orInsertWith _ change | matched _ (some change) => R a (change a)

/-- A relation holds between the item that a call hands out and the item after the change. -/
def Access.Keeps (R : α → α → Prop) : Access α κ → Option α → Prop
  | find _, _ | contains _, _ | erase _, _ => True
  | modify _ change, old => ∀ a ∈ old, R a (change a)
  | emplace item change, old => R (old.getD item) (change (old.getD item))
  | tryEmplaceWith _ _ change, some a => R a (change a)
  | tryEmplaceWith k make change, none => ∀ item, built key k make = .ok item → R item (change item)
  | entry k use, old => use.Keeps setup key R k old

end Act

section Mono

variable {setup : Setup κ} {key : α → κ} {R R' : α → α → Prop} (hR : ∀ a b, R a b → R' a b)
include hR

theorem EntryUse.Keeps.mono {k : κ} {use : EntryUse α} {old : Option α}
    (h : use.Keeps setup key R k old) : use.Keeps setup key R' k old := by
  cases old with
  | none => exact fun item change hoffer hhash ↦ hR _ _ (h item change hoffer hhash)
  | some a =>
    cases use with
    | drop => trivial
    | orInsert | orInsertWith => exact hR _ _ h
    | matched vacant occupied =>
      cases occupied with
      | none => trivial
      | some change => exact hR _ _ h

theorem Access.Keeps.mono {a : Access α κ} {old : Option α} (h : a.Keeps setup key R old) :
    a.Keeps setup key R' old := by
  cases a with
  | find | contains | erase => trivial
  | modify k change => exact fun b hb ↦ hR _ _ (h b hb)
  | emplace item change => exact hR _ _ h
  | tryEmplaceWith k make change =>
    cases old with
    | none => exact fun item hitem ↦ hR _ _ (h item hitem)
    | some b => exact hR _ _ h
  | entry k use => exact EntryUse.Keeps.mono hR h

end Mono

section Some

variable {setup : Setup κ} {key : α → κ} {R : α → α → Prop} (hR : ∀ a, R a a)
include hR

theorem EntryUse.keeps_act_some {k : κ} {use : EntryUse α} {a b : α}
    (hkeep : use.Keeps setup key R k (some a)) (hb : b ∈ (use.act setup key k (some a)).1) :
    R a b := by
  cases use with
  | drop => cases hb; exact hR a
  | orInsert | orInsertWith => cases hb; exact hkeep
  | matched vacant occupied =>
    cases occupied with
    | none => cases hb
    | some change => cases hb; exact hkeep

/-- **What a call makes of an item that is there** is in the relation to it that the user keeps. -/
theorem Access.keeps_act_some {c : Access α κ} {a b : α} (hkeep : c.Keeps setup key R (some a))
    (hb : b ∈ (c.act setup key (some a)).1) : R a b := by
  cases c with
  | find | contains => cases hb; exact hR a
  | erase => cases hb
  | modify k change => cases hb; exact hkeep a rfl
  | emplace | tryEmplaceWith => cases hb; exact hkeep
  | entry k use =>
    have hkeep : use.Keeps setup key R k (some a) := hkeep
    exact EntryUse.keeps_act_some hR hkeep hb

end Some

/-! ### Service -/

section Service

variable {key : α → κ} {t t' : Table key} {k : κ}

/-- A seat that was secured for an absent key is filled with an item of the right hash, or the call
ends with a fault; the stored item is changed. -/
theorem Rehoused.handles_fillChecked (h : Rehoused t t') (hnone : lookup key t.toList k = none)
    {seat : Seat} (hfits : t'.Fits (t.setup.hash k) seat) {item : α} {change : α → α}
    (hkeep : t.setup.hash (key item) = t.setup.hash k →
      t.setup.hash (key (change item)) = t.setup.hash (key item))
    {act : Act α (Answer α)} (hact : act none = fillAct t.setup key k item change) :
    Handles t k act ((t'.fillChecked seat item).andThen fun t o ↦ t.handOut change o) := by
  rw [fillAct] at hact
  by_cases hhash : t.setup.hash (key item) = t.setup.hash k
  · have hfill : t'.fillChecked seat item = t'.fill seat item := by
      rw [fillChecked, h.setup_eq, hfits.hash_eq, if_pos hhash]
    rw [if_pos hhash] at hact
    rw [hfill]
    rcases t'.fill_outcomes seat item with ⟨fault, -, heq⟩ | ⟨hhouse, heq⟩ <;> rw [heq]
    · exact .inr (h.refused hnone fault [])
    · rw [h.setup_eq] at hhouse
      have hadded := h.added (hfits.added h.sound item (by rw [h.setup_eq, hhash]))
      exact .inl ((hadded.update (hkeep hhash)).serves hhouse hnone hact)
  · have hfail : t'.fillChecked seat item =
        .fail t' (.wrongVacantKey (t.setup.hash (key item)) (t.setup.hash k)) := by
      rw [fillChecked, h.setup_eq, hfits.hash_eq, if_neg hhash]
    rw [if_neg hhash] at hact
    rw [hfail]
    exact .inl (h.serves hnone hact)

/-- The use of a vacant entry. -/
theorem Rehoused.handles_use (h : Rehoused t t') (hnone : lookup key t.toList k = none) {seat : Seat}
    (hfits : t'.Fits (t.setup.hash k) seat) (use : EntryUse α)
    (hkeep : use.Keeps t.setup key t.SameHash k none) :
    Handles t k (use.act t.setup key k) (use.exec t' (.vacant seat)) := by
  cases use with
  | drop => exact .inl (h.serves hnone rfl)
  | orInsert item change => exact h.handles_fillChecked hnone hfits (hkeep item change rfl) rfl
  | orInsertWith make change =>
    cases hmake : make () with
    | error fault =>
      simp only [EntryUse.exec, orInsertWith, hmake]
      exact .inl (h.serves hnone (by simp only [EntryUse.act, EntryUse.offer, hmake]; rfl))
    | ok item =>
      have hoffer : (EntryUse.orInsertWith make change).offer = .ok (some (item, change)) := by
        rw [EntryUse.offer, hmake]
        rfl
      simp only [EntryUse.exec, orInsertWith, hmake]
      exact h.handles_fillChecked hnone hfits (hkeep item change hoffer)
        (by rw [EntryUse.act, hoffer])
  | matched vacant occupied =>
    cases vacant with
    | none => exact .inl (h.serves hnone rfl)
    | some p => exact h.handles_fillChecked hnone hfits (hkeep p.1 p.2 rfl) rfl

/-- The use of an occupied entry. -/
theorem Found.serves_use {o : Occupant α} (hfound : t.Found k o) (h : t.Sound) (use : EntryUse α)
    (hkeep : use.Keeps t.setup key t.SameHash k
      (some o.item)) :
    Serves t k (use.act t.setup key k) (use.exec t (.occupied o)) := by
  cases use with
  | drop => exact hfound.serves_keep h rfl
  | orInsert item change => exact hfound.serves_update h hkeep rfl
  | orInsertWith make change => exact hfound.serves_update h hkeep rfl
  | matched vacant occupied =>
    cases occupied with
    | none => exact hfound.serves_erase h (by cases vacant <;> rfl)
    | some change => exact hfound.serves_update h hkeep rfl

/-- **A call on one key serves it by its act, or is refused.** -/
theorem Sound.handles (h : t.Sound) (a : Access α κ)
    (hkeep : a.Keeps t.setup key t.SameHash
      (lookup key t.toList (a.keyOf key))) :
    Handles t (a.keyOf key) (a.act t.setup key) (a.exec t) := by
  cases a with
  | find k =>
    exact .inl (h.serves_keep (by rw [h.find?_eq]; rfl))
  | contains k =>
    exact .inl (h.serves_keep (by rw [h.contains_eq]; rfl))
  | modify k change => exact h.handles_modify k change hkeep Answer.ofOption
  | erase k => exact h.handles_erase k Answer.ofOption
  | emplace item change =>
    show Handles t (key item) _ _
    rw [Access.exec]
    rcases h.emplace_cases item with ⟨o, heq, hfound⟩ |
      ⟨hnone, hhouse, t', events, o, heq, rfl, hadded⟩ |
      ⟨t', events, fault, heq, hrehoused, habsent⟩
    · have hkeep' : t.setup.hash (key (change o.item)) = t.setup.hash (key o.item) := by
        simpa [Access.Keeps, Access.keyOf, hfound.lookup_eq] using hkeep
      rw [heq]
      exact .inl (hfound.serves_update h hkeep' rfl)
    · have hkeep' : t.setup.hash (key (change o.item)) = t.setup.hash (key o.item) := by
        simpa [Access.Keeps, Access.keyOf, hnone] using hkeep
      rw [heq]
      exact .inl ((hadded.update hkeep').serves hhouse hnone rfl)
    · rw [heq]
      exact .inr ⟨habsent, hrehoused, fault, rfl⟩
  | tryEmplaceWith k make change =>
    show Handles t k _ _
    rw [Access.exec]
    rcases h.tryEmplaceWith_cases k make with ⟨o, heq, hfound⟩ |
      ⟨hnone, ⟨t', events, o, heq, hbuilt, hhouse, hadded⟩ |
        ⟨t', events, fault, heq, hbuilt, hrehoused⟩ | ⟨t', events, fault, heq, hrehoused⟩⟩
    · rw [heq]
      rw [show lookup key t.toList ((Access.tryEmplaceWith k make change).keyOf key) = some o.item
        from hfound.lookup_eq] at hkeep
      exact .inl (hfound.serves_update h hkeep rfl)
    · rw [heq]
      rw [show lookup key t.toList ((Access.tryEmplaceWith k make change).keyOf key) = none
        from hnone] at hkeep
      exact .inl ((hadded.update (hkeep o.item hbuilt)).serves hhouse hnone
        (by simp only [Access.act, hbuilt]))
    · rw [heq]
      exact .inl (hrehoused.serves hnone (by simp only [Access.act, hbuilt]))
    · rw [heq]
      exact .inr (hrehoused.refused hnone fault events)
  | entry k use =>
    show Handles t k _ _
    rw [Access.exec]
    rcases h.entry_cases k with ⟨o, heq, hfound⟩ |
      ⟨hnone, ⟨t', events, seat, heq, hrehoused, hfits⟩ | ⟨t', events, fault, heq, hrehoused⟩⟩
    · rw [show lookup key t.toList ((Access.entry k use).keyOf key) = some o.item
        from hfound.lookup_eq] at hkeep
      rw [heq]
      exact .inl ((hfound.serves_use h use hkeep).after [])
    · rw [show lookup key t.toList ((Access.entry k use).keyOf key) = none from hnone] at hkeep
      rw [heq]
      exact (hrehoused.handles_use hnone hfits use hkeep).after events
    · rw [heq]
      exact .inr (hrehoused.refused hnone fault events)

end Service

/-! ### All calls -/

/-- A call of a table. -/
inductive Call (σ : Type w) (α : Type u) (κ : Type v) where
  /-- A call on one key. -/
  | access (a : Access α κ)
  /-- Walks over so many items and changes them. -/
  | iterMut (change : α → α) (n : Nat)
  /-- Keeps the items that a predicate accepts. -/
  | retain (visit : σ → α → Visit σ α) (state : σ)
  /-- A call on the whole table. -/
  | upkeep (u : Upkeep)

namespace Call

variable {key : α → κ}

/-- The table as the call leaves it, also when the call ends with a fault. -/
def next (t : Table key) : Call σ α κ → Table key
  | access a => (a.exec t).state
  | iterMut change n => (t.walkUpdating change n).1
  | retain visit state => (t.retain visit state).1
  | upkeep u => (u.exec t).state

/-- A relation holds between the items that a call hands out and the items after the change. -/
def Keeps (R : α → α → Prop) (t : Table key) : Call σ α κ → Prop
  | access a => a.Keeps t.setup key R (lookup key t.toList (a.keyOf key))
  | iterMut change n => ∀ a ∈ t.toList.take n, R a (change a)
  | retain visit state => VisitsKeep R visit state t.toList
  | upkeep _ => True

theorem Keeps.mono {R R' : α → α → Prop} (hR : ∀ a b, R a b → R' a b) {t : Table key}
    {c : Call σ α κ} (h : c.Keeps R t) : c.Keeps R' t := by
  cases c with
  | access a => exact Access.Keeps.mono hR h
  | iterMut change n => exact fun a ha ↦ hR _ _ (h a ha)
  | retain visit state => exact VisitsKeep.mono hR h
  | upkeep u => trivial

end Call

/-- **Every call keeps a table sound**, when its changes keep the hashes of items; so do the calls
that end with a fault. -/
theorem Sound.next {key : α → κ} {t : Table key} (h : t.Sound) (c : Call σ α κ)
    (hkeep : c.Keeps t.SameHash t) :
    (c.next t).Sound ∧ (c.next t).setup = t.setup := by
  cases c with
  | access a => exact (h.handles a hkeep).sound
  | iterMut change n =>
    obtain ⟨hsound, hsetup, -, -⟩ := h.walkUpdating n hkeep
    exact ⟨hsound, hsetup⟩
  | retain visit state =>
    obtain ⟨hsound, hsetup, -, -⟩ := h.retain state hkeep
    exact ⟨hsound, hsetup⟩
  | upkeep u => exact ⟨(h.upkept_exec u).sound, (h.upkept_exec u).setup_eq⟩

end ProbeWindow.Table
