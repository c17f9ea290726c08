import ProbeWindow.Map.Entry
import ProbeWindow.Proofs.Table.Insertion
import ProbeWindow.Proofs.Table.Retention
import ProbeWindow.Proofs.Table.Upkeep

/-!
# The calls of a map

Everything that a user of a map can do with it, as data. A user gets hold of stored values, and may
change them; the keys are out of reach. So no call gives an item another hash, and nothing has to be
assumed of the changes.
-/

namespace ProbeWindow.HashMap

universe u v w

variable {κ : Type u} {ν : Type v} {σ : Type w} [BEq κ]

open Contents Table

/-- A pair with a function applied to its value. -/
def mapValue (f : ν → ν) (p : κ × ν) : κ × ν := (p.1, f p.2)

/-! ### Entries -/

/-- What the user of an entry gets to see. -/
inductive Answer (κ : Type u) (ν : Type v) where
  /-- A key. -/
  | key (k : κ)
  /-- A value. -/
  | value (v : ν)
  /-- A pair. -/
  | pair (p : κ × ν)
deriving DecidableEq

/-- What is done with a vacant entry. -/
inductive VacantUse (ν : Type v) where
  /-- It is dropped. -/
  | drop
  /-- Its key is looked at, and more is done. -/
  | key (next : VacantUse ν)
  /-- Its key is taken back. -/
  | intoKey
  /-- It is filled with a value, which is then changed. -/
  | insert (v : ν) (change : ν → ν)

/-- What is done with an occupied entry that is used further. -/
inductive OccupiedStep (ν : Type v) where
  /-- The stored key is looked at. -/
  | key
  /-- The value is looked at. -/
  | get
  /-- The value is changed. -/
  | getMut (change : ν → ν)
  /-- The value is exchanged. -/
  | insert (v : ν)

/-- How an occupied entry is given up. -/
inductive OccupiedEnd (ν : Type v) where
  /-- It is dropped. -/
  | drop
  /-- It is turned into its value, which is changed. -/
  | intoMut (change : ν → ν)
  /-- Its pair is taken out, and the value kept. -/
  | remove
  /-- Its pair is taken out. -/
  | removeEntry

/-- What is done with the entry of a key. -/
inductive EntryUse (κ : Type u) (ν : Type v) where
  /-- It is dropped. -/
  | drop
  /-- Its key is looked at, and more is done. -/
  | key (next : EntryUse κ ν)
  /-- Its value is changed, if there is one, and more is done. -/
  | andModify (change : ν → ν) (next : EntryUse κ ν)
  /-- Its value, or else a given one, is changed. -/
  | orInsert (v : ν) (change : ν → ν)
  /-- Its value, or else one that is built, is changed. -/
  | orInsertWith (make : Unit → Except Fault ν) (change : ν → ν)
  /-- Its value, or else one that is built from the key, is changed. -/
  | orInsertWithKey (make : κ → Except Fault ν) (change : ν → ν)
  /-- Its value, or else the default one, is changed. -/
  | orDefault [Inhabited ν] (change : ν → ν)
  /-- It is told apart whether the entry is vacant or occupied. -/
  | matched (vacant : VacantUse ν) (steps : List (OccupiedStep ν)) (last : OccupiedEnd ν)

section EntryExec

variable (m : HashMap κ ν)

/-- An occupied value is handed out, and changed. -/
def handOut (change : ν → ν) (o : Occupant (κ × ν)) : Outcome (HashMap κ ν) (List (Answer κ ν)) :=
  match updateValue m o change with
  | (m, v) => .done m [.value v]

/-- The use of a vacant entry. -/
def VacantUse.exec (k : κ) (seat : Seat) :
    VacantUse ν → Outcome (HashMap κ ν) (List (Answer κ ν))
  | drop => .done m []
  | key next => (next.exec k seat).map (.key k :: ·)
  | intoKey => .done m [.key k]
  | insert v change => (m.fill seat (k, v)).andThen fun m o ↦ handOut m change o

/-- The end of an occupied entry. -/
def OccupiedEnd.exec (o : Occupant (κ × ν)) :
    OccupiedEnd ν → Outcome (HashMap κ ν) (List (Answer κ ν))
  | drop => .done m []
  | intoMut change => handOut m change o
  | remove => .done (m.eraseAt o.index) [.value o.item.2]
  | removeEntry => .done (m.eraseAt o.index) [.pair o.item]

/-- The use of an occupied entry. -/
def execOccupied (last : OccupiedEnd ν) (m : HashMap κ ν) (o : Occupant (κ × ν)) :
    List (OccupiedStep ν) → Outcome (HashMap κ ν) (List (Answer κ ν))
  | [] => last.exec m o
  | .key :: steps => (execOccupied last m o steps).map (.key o.item.1 :: ·)
  | .get :: steps => (execOccupied last m o steps).map (.value o.item.2 :: ·)
  | .getMut change :: steps =>
    match updateValue m o change with
    | (m, v) =>
      (execOccupied last m ⟨o.index, o.item.1, v⟩ steps).map (.value v :: ·)
  | .insert v :: steps =>
    match exchange m o v with
    | (m, old) => (execOccupied last m ⟨o.index, o.item.1, v⟩ steps).map (.value old :: ·)

/-- The use of an entry. -/
def EntryUse.exec (m : HashMap κ ν) (e : MapEntry κ ν) :
    EntryUse κ ν → Outcome (HashMap κ ν) (List (Answer κ ν))
  | drop => .done m []
  | key next => (next.exec m e).map (.key e.currentKey :: ·)
  | andModify change next =>
    match HashMap.andModify m e change with
    | (m, e) => next.exec m e
  | orInsert v change => (HashMap.orInsert m e v).andThen fun m o ↦ handOut m change o
  | orInsertWith make change =>
    (HashMap.orInsertWith m e make).andThen fun m o ↦ handOut m change o
  | orInsertWithKey make change =>
    (HashMap.orInsertWithKey m e make).andThen fun m o ↦ handOut m change o
  | orDefault change => (HashMap.orDefault m e).andThen fun m o ↦ handOut m change o
  | matched vacant steps last =>
    match e.place with
    | .vacant seat => vacant.exec m e.key seat
    | .occupied o => execOccupied last m o steps

end EntryExec

/-! ### Calls on one key -/

/-- What a call of a map answers. -/
inductive Reply (σ : Type w) (κ : Type u) (ν : Type v) where
  /-- Nothing. -/
  | unit
  /-- Whether there is a pair. -/
  | flag (present : Bool)
  /-- A number of keys. -/
  | count (n : Nat)
  /-- A value. -/
  | value (v : ν)
  /-- A value, if there is one. -/
  | value? (v : Option ν)
  /-- A pair, if there is one. -/
  | pair? (p : Option (κ × ν))
  /-- The stored value, and whether it is the new one. -/
  | placed (v : ν) (inserted : Bool)
  /-- What an entry gave to see. -/
  | answers (l : List (Answer κ ν))
  /-- The state of a predicate after all visits. -/
  | state (s : σ)
  /-- The report of a call on the whole map. -/
  | report (r : Report (κ × ν))
deriving DecidableEq

/-- A call on one key. -/
inductive Access (κ : Type u) (ν : Type v) where
  /-- Looks the value up. -/
  | get (k : κ)
  /-- Looks the pair up. -/
  | getKeyValue (k : κ)
  /-- Changes the value. -/
  | getMut (k : κ) (change : ν → ν)
  /-- Tells whether the key is there. -/
  | contains (k : κ)
  /-- Tells how often the key is there. -/
  | count (k : κ)
  /-- Looks up the value of a key that must be there. -/
  | index (k : κ)
  /-- Sets the value. -/
  | insert (k : κ) (v : ν)
  /-- Inserts a value unless the key is there; changes the stored value. -/
  | emplace (k : κ) (v : ν) (change : ν → ν)
  /-- Inserts a value that is built for an absent key; changes the stored value. -/
  | tryEmplace (k : κ) (make : Unit → Except Fault ν) (change : ν → ν)
  /-- Takes the pair out, and keeps the value. -/
  | remove (k : κ)
  /-- Takes the pair out. -/
  | removeEntry (k : κ)
  /-- Uses the entry of a key. -/
  | entry (k : κ) (use : EntryUse κ ν)

/-- The key of a call. -/
def Access.keyOf : Access κ ν → κ
  | get k | getKeyValue k | getMut k _ | contains k | count k | index k | insert k _
  | emplace k _ _ | tryEmplace k _ _ | remove k | removeEntry k | entry k _ => k

/-- The result of an insertion is handed out, and changed. -/
def handOutPlaced (m : HashMap κ ν) (change : ν → ν) (o : Occupant (κ × ν)) (inserted : Bool) :
    Outcome (HashMap κ ν) (Reply σ κ ν) :=
  match updateValue m o change with
  | (m, v) => .done m (.placed v inserted)

/-- The call on a map. -/
def Access.exec (m : HashMap κ ν) : Access κ ν → Outcome (HashMap κ ν) (Reply σ κ ν)
  | get k => .done m (.value? (HashMap.get? m k))
  | getKeyValue k => .done m (.pair? (m.find? k))
  | getMut k change =>
    match modifyValue m k change with
    | (m, v) => .done m (.value? v)
  | contains k => .done m (.flag (Table.contains m k))
  | count k => .done m (.count (m.countPresent [k]))
  | index k => ⟨m, [], (HashMap.get m k).map .value⟩
  | insert k v => (HashMap.insert m k v).map .value?
  | emplace k v change =>
    (HashMap.emplace m k v).andThen fun m (o, inserted) ↦ handOutPlaced m change o inserted
  | tryEmplace k make change =>
    (HashMap.tryEmplace m k make).andThen fun m (o, inserted) ↦ handOutPlaced m change o inserted
  | remove k =>
    match m.erase k with
    | (m, item) => .done m (.value? (item.map Prod.snd))
  | removeEntry k =>
    match m.erase k with
    | (m, item) => .done m (.pair? item)
  | entry k use => ((HashMap.entry m k).andThen fun m e ↦ use.exec m e).map .answers

/-! ### All calls -/

/-- A call of a map. -/
inductive Call (σ : Type w) (κ : Type u) (ν : Type v) where
  /-- A call on one key. -/
  | access (a : Access κ ν)
  /-- Inserts the pairs whose keys are absent. -/
  | insertMany (pairs : List (κ × ν)) (hint : Nat)
  /-- Sets the values of some keys. -/
  | extend (pairs : List (κ × ν)) (hint : Nat)
  /-- Walks over so many pairs and changes their values. -/
  | iterMut (change : κ → ν → ν) (n : Nat)
  /-- Keeps the pairs that a predicate accepts, which may change their values. -/
  | retain (visit : σ → κ → ν → Visit σ ν) (state : σ)
  /-- A call on the whole map. -/
  | upkeep (u : Upkeep)

/-- A pair with its value changed in view of its key. -/
def changeValue (change : κ → ν → ν) (p : κ × ν) : κ × ν := (p.1, change p.1 p.2)

/-- A visit of a value, as a visit of its pair. -/
def visitValue (visit : σ → κ → ν → Visit σ ν) (s : σ) (p : κ × ν) : Visit σ (κ × ν) :=
  ⟨(visit s p.1 p.2).state, (p.1, (visit s p.1 p.2).item), (visit s p.1 p.2).verdict⟩

/-- The call on a map. -/
def Call.exec (m : HashMap κ ν) : Call σ κ ν → Outcome (HashMap κ ν) (Reply σ κ ν)
  | access a => a.exec m
  | insertMany pairs hint => (HashMap.insertMany m pairs hint).map .count
  | extend pairs hint => (HashMap.extend m pairs hint).map fun () ↦ .unit
  | iterMut change n =>
    match m.walkUpdating (changeValue change) n with
    | (m, items, _) => .done m (.report (.items items))
  | retain visit state =>
    match m.retain (visitValue visit) state with
    | (m, state, result) => ⟨m, [], result.map fun () ↦ .state state⟩
  | upkeep u => (u.exec m).map .report

/-- The map as the call leaves it, also when the call ends with a fault. -/
def Call.next (m : HashMap κ ν) (c : Call σ κ ν) : HashMap κ ν := (c.exec m).state

end ProbeWindow.HashMap
