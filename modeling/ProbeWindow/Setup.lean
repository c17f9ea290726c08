import ProbeWindow.GrowthPolicy
import ProbeWindow.Hashing

/-!
# The setup of a table

What a table is made with and keeps for its life: its hasher, its growth policy, where its items
are stored, and the allocator of its blocks. None of these depends on the items.
-/

namespace ProbeWindow

universe v

/-- Where an item lives. -/
inductive Placement where
  /-- In its slot. -/
  | inline
  /-- In a block of its own, which the slot points to: the item keeps its address when the
  table moves it to another slot. -/
  | boxed
deriving DecidableEq, Repr

/-- The shape of the items of a table and where they live. -/
structure Storage where
  /-- Where an item lives. -/
  placement : Placement
  /-- The layout of one item. -/
  item : Layout
deriving DecidableEq, Repr

namespace Storage

variable (s : Storage)

/-- The layout of one slot: the item itself, or a pointer. -/
def slot : Layout :=
  match s.placement with
  | .inline => s.item
  | .boxed => ⟨8, 8⟩

/-- The block that an item needs besides its slot, if it needs one. -/
def itemBlock? : Option Layout :=
  match s.placement with
  | .inline => none
  | .boxed => if s.item.size = 0 then none else some s.item

/-- Whether items keep their addresses when the table is resized. -/
def stableAddresses : Bool := s.placement == .boxed

/-- The bytes of so many items outside of the slots. -/
def itemBytes (count : Nat) : Nat := if s.stableAddresses then count * s.item.size else 0

end Storage

/-- A source of memory blocks, seen as the set of layouts that it grants. -/
structure Allocator where
  /-- What the allocator is called. -/
  name : String
  /-- Whether a block of this layout is granted. -/
  grants : Layout → Bool

/-- The allocator that grants every block up to a size. -/
def Allocator.upTo (name : String) (limit : Nat) : Allocator where
  name := name
  grants block := block.size ≤ limit

/-- What a table is made with. -/
structure Setup (κ : Type v) [BEq κ] where
  /-- How keys are hashed. -/
  hasher : Hasher κ
  /-- How homes and capacities are chosen. -/
  policy : GrowthPolicy
  /-- Where items live. -/
  storage : Storage
  /-- Where blocks come from. -/
  allocator : Allocator

namespace Setup

variable {κ : Type v} [BEq κ] (s : Setup κ)

/-- The mixed hash of a key, on which the table works. -/
def hash (k : κ) : UInt64 := mix (s.hasher.hash k)

/-- The home of a key under a capacity. -/
def home (k : κ) (capacity : Nat) : Nat := s.policy.index (s.hash k) capacity

/-- The layout of the block for a capacity, if the block is in range and granted. -/
def block (capacity : Nat) : Except ReserveError Layout :=
  match Layout.slotBlock? s.storage.slot capacity with
  | none => .error .capacityOverflow
  | some block => if s.allocator.grants block then .ok block else .error (.refused block)

/-- Gets the block that an item needs besides its slot. -/
def house : Except Fault Unit :=
  match s.storage.itemBlock? with
  | none => .ok ()
  | some block => if s.allocator.grants block then .ok () else .error (.outOfMemory block)

end Setup

end ProbeWindow
