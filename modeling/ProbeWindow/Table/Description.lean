import ProbeWindow.Decimal
import ProbeWindow.Table

/-!
# Descriptions of tables

A table is described by its fields and a picture of its slots: one text for every sixteen slots,
in which an occupied slot shows the distance of its item from home.
-/

namespace ProbeWindow

universe u v

namespace SlotArray

variable {α : Type u} (s : SlotArray α)

/-- A slot in the picture. -/
def cell (tag : Tag) : String :=
  if tag.isOccupied then "+" ++ Text.zeroPadded 2 tag.offset else "..."

/-- The picture of so many groups of slots. -/
def pictureRows : Nat → List Tag → List String
  | 0, _ => []
  | n + 1, tags =>
    " ".intercalate ((tags.take windowWidth).map cell) :: pictureRows n (tags.drop windowWidth)

/-- The picture of the slots, sixteen to a text. -/
def picture : List String :=
  pictureRows ((s.slotCount + windowWidth - 1) / windowWidth) (s.tags.toList.take s.slotCount)

end SlotArray

namespace Table

variable {α : Type u} {κ : Type v} [BEq κ] {key : α → κ} (t : Table key)

/-- The description of a table. -/
def describe (spread : Text.Spread) : String :=
  Text.record spread "HashTable"
    [("len", toString t.size),
      ("capacity", toString t.capacity),
      ("max_load_factor", Decimal.Single.render Decimal.Single.detail t.maxLoad.bits),
      ("rehash_pending", toString t.rehashPending),
      ("metadata", Text.listed spread (t.slots.picture.map fun row ↦ "\"" ++ row ++ "\""))]

end Table

end ProbeWindow
