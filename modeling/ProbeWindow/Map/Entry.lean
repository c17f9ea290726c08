import ProbeWindow.Map

/-!
# Entries of maps

The entry of a key in a map is its entry in the table together with the key that was looked up,
so that a vacant entry can be filled with a value alone. The item is built from the looked-up key
itself, so no check of the key is needed when a vacant entry is filled.
-/

namespace ProbeWindow

universe u v

/-- The place of a key in a map. -/
structure MapEntry (κ : Type u) (ν : Type v) where
  /-- The key that was looked up. -/
  key : κ
  /-- Its entry in the table. -/
  place : Entry (κ × ν)

namespace MapEntry

variable {κ : Type u} {ν : Type v} (e : MapEntry κ ν)

/-- The stored key of an occupied entry; the looked-up key of a vacant one. -/
def currentKey : κ :=
  match e.place with
  | .occupied o => o.item.1
  | .vacant _ => e.key

end MapEntry

namespace HashMap

variable {κ : Type u} {ν : Type v} [BEq κ] (m : HashMap κ ν)

/-- The entry of a key. The map may grow even when the entry is never filled. -/
def entry (k : κ) : Outcome (HashMap κ ν) (MapEntry κ ν) :=
  (Table.entry m k).map (⟨k, ·⟩)

/-- The value of an entry, which is filled with a given value when it is vacant. -/
def orInsert (e : MapEntry κ ν) (v : ν) : Outcome (HashMap κ ν) (Occupant (κ × ν)) :=
  match e.place with
  | .occupied o => .done m o
  | .vacant seat => m.fill seat (e.key, v)

/-- The value of an entry, which is filled with the value that `make` builds when it is
vacant. -/
def orInsertWith (e : MapEntry κ ν) (make : Unit → Except Fault ν) :
    Outcome (HashMap κ ν) (Occupant (κ × ν)) :=
  match e.place with
  | .occupied o => .done m o
  | .vacant seat =>
    match make () with
    | .error fault => .fail m fault
    | .ok v => m.fill seat (e.key, v)

/-- The value of an entry, which is filled with a value built from its key when it is vacant. -/
def orInsertWithKey (e : MapEntry κ ν) (make : κ → Except Fault ν) :
    Outcome (HashMap κ ν) (Occupant (κ × ν)) :=
  orInsertWith m e fun () ↦ make e.key

/-- The value of an entry, which is filled with the default value when it is vacant. -/
def orDefault [Inhabited ν] (e : MapEntry κ ν) : Outcome (HashMap κ ν) (Occupant (κ × ν)) :=
  orInsert m e default

/-- The map with a function applied to the value of an occupied entry, and the entry after it. A
vacant entry stays as it is. -/
def andModify (e : MapEntry κ ν) (f : ν → ν) : HashMap κ ν × MapEntry κ ν :=
  match e.place with
  | .occupied o =>
    match m.update o fun (k, v) ↦ (k, f v) with
    | (m, item) => (m, { e with place := .occupied ⟨o.index, item⟩ })
  | .vacant _ => (m, e)

/-- The map with the value of an occupied entry exchanged, and the value that it had. -/
def exchange (o : Occupant (κ × ν)) (v : ν) : HashMap κ ν × ν :=
  match m.update o fun (k, _) ↦ (k, v) with
  | (m, _) => (m, o.item.2)

end HashMap

end ProbeWindow
