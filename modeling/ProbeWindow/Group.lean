import ProbeWindow.Tag

/-!
# Lane masks and groups of tags

A **lane mask** is a set of lanes of a window, as sixteen bits with lane 0 lowest. Matching a window
yields a mask; a mask is read by its lowest lane or by all its lanes in ascending order.

A **group** is the tags of one window, read together. A probe for a fragment matches lane `k`
when its tag is occupied, carries that fragment and records offset `k`: only a key homed at the
start of the window can match, so a probe names the candidates of a lookup and nothing else.
-/

namespace ProbeWindow

/-- A set of lanes of a window. -/
structure LaneMask where
  /-- Bit `k` is set when lane `k` is in the set. -/
  bits : BitVec 16
deriving DecidableEq, Repr

namespace LaneMask

/-- The lanes with a given property. -/
def ofPred (p : Fin 16 → Bool) : LaneMask :=
  ⟨(BitVec.ofBoolListLE ((List.finRange 16).map p)).setWidth 16⟩

variable (m : LaneMask)

/-- Whether a lane is in the set. -/
def has (lane : Nat) : Bool := m.bits.getLsbD lane

/-- The lanes of the set, ascending. -/
def lanes : List Nat := (List.range windowWidth).filter m.has

/-- The lowest lane of the set. -/
def lowest? : Option Nat := (List.range windowWidth).find? m.has

/-- The lanes strictly below a bound; a bound past the window keeps them all. -/
def below (lane : Nat) : LaneMask :=
  if lane ≥ windowWidth then m else ⟨m.bits &&& ((1#16 <<< lane) - 1#16)⟩

/-- The lanes that are not in the set. -/
def complement : LaneMask := ⟨~~~m.bits⟩

end LaneMask

/-- Sixteen consecutive tags. -/
structure Group where
  /-- The tag of each lane. -/
  tags : Vector Tag 16

namespace Group

variable (g : Group)

/-- The lanes that can hold a key with this fragment homed at lane 0. -/
def probe (fragment : UInt8) : LaneMask :=
  .ofPred fun k ↦ g.tags[k] == Tag.encode fragment k

/-- The lanes whose slot is occupied, sentinels included. -/
def occupied : LaneMask := .ofPred fun k ↦ g.tags[k].isOccupied

/-- The lanes whose slot is empty. -/
def vacant : LaneMask := g.occupied.complement

end Group

end ProbeWindow
