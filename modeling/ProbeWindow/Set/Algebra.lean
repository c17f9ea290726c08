import ProbeWindow.Set
import ProbeWindow.Table.Iteration

/-!
# Set algebra

Relations between two sets, and walks over their intersection, difference, union and symmetric
difference. Each walk yields stored items of the sets; `Sift` is the walk over the items of one
set that another set holds, or that it lacks.

An intersection walks over the set with fewer items, over the first one when they have equally
many. How many items a sift yields is not known in advance, only that there are at most as many
as its walk has left.
-/

namespace ProbeWindow

universe u

/-- A walk over the items of one set, sifted by membership in another. -/
structure Sift (κ : Type u) [BEq κ] where
  /-- The set whose items are yielded. -/
  source : HashSet κ
  /-- Where the walk is. -/
  cursor : Cursor
  /-- The set that is asked. -/
  sieve : HashSet κ
  /-- Whether the items that the other set holds are yielded, or those that it lacks. -/
  held : Bool

namespace Sift

variable {κ : Type u} [BEq κ]

/-- Whether an item is yielded. -/
def passes (s : Sift κ) (item : κ) : Bool := s.sieve.contains item == s.held

/-- The next item, and the sift behind it. -/
def next (s : Sift κ) : Option κ × Sift κ :=
  match _hnext : s.cursor.next s.source.slots with
  | (none, cursor) => (none, { s with cursor := cursor })
  | (some index, cursor) =>
    match (s.source.slots.item? index).filter s.passes with
    | some item => (some item, { s with cursor := cursor })
    | none => next { s with cursor := cursor }
termination_by s.source.slots.slotCount - s.cursor.position
decreasing_by
  have := Cursor.next_eq_some s.source.slots _hnext
  omega

/-- Up to so many next items, and the sift behind them. -/
def take : Nat → Sift κ → List κ × Sift κ
  | 0, s => ([], s)
  | n + 1, s =>
    match s.next with
    | (none, s) => ([], s)
    | (some item, s) =>
      let (rest, s) := take n s
      (item :: rest, s)

variable (s : Sift κ)

/-- What is known about the number of items to come. -/
def sizeHint : Nat × Option Nat := (0, s.cursor.sizeHint.2)

/-- All items to come. -/
def toList : List κ := (take s.cursor.remaining s).1

end Sift

namespace HashSet

variable {κ : Type u} [BEq κ] (a b : HashSet κ)

/-! ### Relations -/

/-- Whether two sets have no item in common. -/
def isDisjoint : Bool :=
  if a.size ≤ b.size then a.toList.all fun x ↦ !b.contains x
  else b.toList.all fun x ↦ !a.contains x

/-- Whether all items of a set are in another. -/
def isSubset : Bool := a.size ≤ b.size && a.toList.all b.contains

/-- Whether a set has all items of another. -/
def isSuperset : Bool := isSubset b a

/-! ### Walks -/

/-- The items of `a` that `b` lacks. -/
def difference : Sift κ := ⟨a, a.cursor, b, false⟩

/-- The items that both sets hold. -/
def intersection : Sift κ :=
  if a.size ≤ b.size then ⟨a, a.cursor, b, true⟩ else ⟨b, b.cursor, a, true⟩

/-- The items of `a`, then those of `b` that `a` lacks. -/
def union : List κ := a.toList ++ (difference b a).toList

/-- The items that one of the sets holds and the other lacks, those of `a` first. -/
def symmetricDifference : List κ := (difference a b).toList ++ (difference b a).toList

end HashSet

end ProbeWindow
