import ProbeWindow.Group

/-!
# Groups in one wide register

The same three matches, computed on a 128-bit register with the operations that wide registers
offer: bytewise equality, a shift of every 16-bit lane, and the collection of the bytes' sign
bits into a mask. Lane `k` of the group is byte `k` of the register, lowest byte first.
-/

namespace ProbeWindow

/-- A 128-bit register. -/
abbrev Register := BitVec 128

namespace Register

/-- The register with the given bytes, lowest first. -/
def ofBytes (f : Fin 16 → BitVec 8) : Register :=
  (List.finRange 16).foldl (fun r k ↦ r ||| ((f k).setWidth 128 <<< (8 * k.val))) 0

/-- The register with the given 16-bit lanes, lowest first. -/
def ofHalves (f : Fin 8 → BitVec 16) : Register :=
  (List.finRange 8).foldl (fun r k ↦ r ||| ((f k).setWidth 128 <<< (16 * k.val))) 0

variable (r : Register)

/-- Byte `k` of the register. -/
def byte (k : Nat) : BitVec 8 := r.extractLsb' (8 * k) 8

/-- The 16-bit lane `k` of the register. -/
def half (k : Nat) : BitVec 16 := r.extractLsb' (16 * k) 16

/-- The same byte sixteen times. -/
def splat (b : BitVec 8) : Register := ofBytes fun _ ↦ b

/-- All ones in each byte where two registers agree, all zeroes elsewhere. -/
def equalBytes (s : Register) : Register :=
  ofBytes fun k ↦ if byte r k = byte s k then 0xFF#8 else 0#8

/-- Every 16-bit lane shifted left on its own; bits that leave a lane are dropped. -/
def shiftHalves (n : Nat) : Register := ofHalves fun k ↦ half r k <<< n

/-- The sign bits of the sixteen bytes. -/
def signMask : LaneMask := .ofPred fun k ↦ (byte r k).msb

end Register

namespace Group

/-- A group held in one wide register. -/
structure Packed where
  /-- Byte `k` is the tag of lane `k`. -/
  register : Register

/-- The tags of a group, loaded into a register. -/
def pack (g : Group) : Packed := ⟨Register.ofBytes fun k ↦ (g.tags.get k).byte.toBitVec⟩

namespace Packed

variable (g : Packed)

/-- The offsets that the lanes of a probe expect, each in the place where a tag records it. -/
def laneOffsets : Register := Register.ofBytes fun k ↦ BitVec.ofNat 8 k.val <<< 4

/-- The lanes that can hold a key with this fragment homed at lane 0. -/
def probe (fragment : UInt8) : LaneMask :=
  let tag := Register.splat (1#8 ||| (fragment.toBitVec <<< 1))
  Register.signMask (Register.equalBytes g.register (laneOffsets ||| tag))

/-- The lanes whose slot is occupied: bit 0 of every byte is moved into that byte's sign bit.
Within a 16-bit lane the high byte's bit 0 lands on bit 15 and the low byte's on bit 7, and no
other bit reaches either place. -/
def occupied : LaneMask := Register.signMask (Register.shiftHalves g.register 7)

/-- The lanes whose slot is empty. -/
def vacant : LaneMask := g.occupied.complement

end Packed

end Group

end ProbeWindow
