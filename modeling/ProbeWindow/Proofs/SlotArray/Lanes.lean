import ProbeWindow.SlotArray
import Mathlib.Data.List.Basic

/-!
# Tags and lanes

What the byte format and the masks of a group say about single slots. A tag is read back field by
field, for the eight fragments and sixteen offsets that a tag can carry; a mask is read lane by
lane. With these facts no later proof about slots looks at a bit.
-/

namespace ProbeWindow

universe u

namespace Tag

/-- A property of encoded tags needs a check of the eight fragments and the sixteen offsets
only. -/
theorem encode_ind {P : UInt8 → Nat → Prop} (h : ∀ f : Fin 8, ∀ o : Fin 16, P f.val.toUInt8 o.val)
    {fragment : UInt8} {offset : Nat} (hf : fragment < 8) (ho : offset ≤ maxOffset) :
    P fragment offset := by
  have hlt : fragment.toNat < 8 := hf
  have hh := h ⟨fragment.toNat, hlt⟩ ⟨offset, by simp only [maxOffset, windowWidth] at ho; omega⟩
  simpa using hh

theorem fragmentOf_lt (hash : UInt64) : fragmentOf hash < 8 := by
  rw [UInt8.lt_iff_toNat_lt, fragmentOf, UInt64.toNat_toUInt8, UInt64.toNat_shiftRight,
    show (61 : UInt64).toNat % 64 = 61 from rfl, Nat.shiftRight_eq_div_pow]
  have := hash.toNat_lt
  show _ < 8
  omega

section Encode

variable {fragment : UInt8} {offset : Nat}

theorem isOccupied_encode (hf : fragment < 8) (ho : offset ≤ maxOffset) :
    (encode fragment offset).isOccupied = true :=
  encode_ind (P := fun f o ↦ (encode f o).isOccupied = true) (by decide) hf ho

theorem offset_encode (hf : fragment < 8) (ho : offset ≤ maxOffset) :
    (encode fragment offset).offset = offset :=
  encode_ind (P := fun f o ↦ (encode f o).offset = o) (by decide) hf ho

theorem pushed_encode (hf : fragment < 8) (ho : offset < maxOffset) :
    (encode fragment offset).pushed = encode fragment (offset + 1) :=
  encode_ind (P := fun f o ↦ o < maxOffset → (encode f o).pushed = encode f (o + 1)) (by decide)
    hf (Nat.le_of_lt ho) ho

theorem pulled_encode (hf : fragment < 8) (ho : offset ≤ maxOffset) (hpos : 0 < offset) :
    (encode fragment offset).pulled = encode fragment (offset - 1) :=
  encode_ind (P := fun f o ↦ 0 < o → (encode f o).pulled = encode f (o - 1)) (by decide)
    hf ho hpos

end Encode

/-- A property of tags needs a check of the 256 bytes only. -/
theorem byte_ind {P : Tag → Prop} (h : ∀ b : Fin 256, P ⟨UInt8.ofNat b.val⟩) (t : Tag) : P t := by
  simpa using h ⟨t.byte.toNat, t.byte.toNat_lt⟩

theorem offset_le (t : Tag) : t.offset ≤ maxOffset :=
  byte_ind (P := fun t ↦ t.offset ≤ maxOffset) (by decide +kernel) t

theorem offset_pushed {t : Tag} (h : t.offset < maxOffset) : t.pushed.offset = t.offset + 1 :=
  byte_ind (P := fun t ↦ t.offset < maxOffset → t.pushed.offset = t.offset + 1)
    (by decide +kernel) t h

theorem isOccupied_pushed (t : Tag) : t.pushed.isOccupied = t.isOccupied :=
  byte_ind (P := fun t ↦ t.pushed.isOccupied = t.isOccupied) (by decide +kernel) t

theorem isOccupied_pulled (t : Tag) : t.pulled.isOccupied = t.isOccupied :=
  byte_ind (P := fun t ↦ t.pulled.isOccupied = t.isOccupied) (by decide +kernel) t

theorem isOccupied_sentinel : sentinel.isOccupied = true := rfl

theorem offset_sentinel : sentinel.offset = 0 := rfl

end Tag

namespace LaneMask

theorem has_ofPred {p : Fin 16 → Bool} {lane : Nat} (h : lane < windowWidth) :
    (ofPred p).has lane = p ⟨lane, h⟩ := by
  have hlane : lane < 16 := h
  have hlen : lane < ((List.finRange 16).map p).length := by simpa using hlane
  rw [has, ofPred, BitVec.getLsbD_setWidth, BitVec.getLsbD_ofBoolListLE,
    List.getD_eq_getElem?_getD, List.getElem?_eq_getElem hlen]
  simp [hlane]

variable (m : LaneMask)

theorem has_complement {lane : Nat} (h : lane < windowWidth) :
    m.complement.has lane = !m.has lane := by
  simp only [windowWidth] at h
  simp [has, complement, h]

theorem has_below {bound lane : Nat} (h : lane < windowWidth) :
    (m.below bound).has lane = (m.has lane && decide (lane < bound)) := by
  unfold below
  split
  · next hb => simp [has, show lane < bound by omega]
  · next hb =>
    have hbit : ∀ b : Fin 16, ∀ k : Fin 16,
        ((1#16 <<< b.val) - 1#16).getLsbD k.val = decide (k.val < b.val) := by decide
    simp only [has, BitVec.getLsbD_and]
    rw [hbit ⟨bound, Nat.lt_of_not_le hb⟩ ⟨lane, h⟩]

theorem mem_lanes {lane : Nat} : lane ∈ m.lanes ↔ lane < windowWidth ∧ m.has lane = true := by
  simp [lanes]

/-- The lanes of a mask come in ascending order. -/
theorem lanes_sorted : m.lanes.Pairwise (· < ·) :=
  List.pairwise_lt_range.filter _

theorem lowest?_eq_some_iff {lane : Nat} :
    m.lowest? = some lane ↔
      lane < windowWidth ∧ m.has lane = true ∧ ∀ j < lane, m.has j = false := by
  simp only [lowest?, List.find?_range_eq_some, List.mem_range, Bool.not_eq_true']
  tauto

theorem lowest?_eq_none_iff : m.lowest? = none ↔ ∀ lane < windowWidth, m.has lane = false := by
  simp [lowest?]

end LaneMask

namespace SlotArray

variable {α : Type u} (s : SlotArray α) (index : Nat) {lane : Nat}

theorem has_occupied_group (h : lane < windowWidth) :
    (s.group index).occupied.has lane = s.isOccupied (index + lane) := by
  simp only [Group.occupied, LaneMask.has_ofPred h, group, isOccupied]
  simp

theorem has_vacant_group (h : lane < windowWidth) :
    (s.group index).vacant.has lane = !s.isOccupied (index + lane) := by
  rw [Group.vacant, LaneMask.has_complement _ h, s.has_occupied_group index h]

theorem has_probe_group (fragment : UInt8) (h : lane < windowWidth) :
    ((s.group index).probe fragment).has lane =
      (s.tag (index + lane) == Tag.encode fragment lane) := by
  simp only [Group.probe, LaneMask.has_ofPred h, group]
  simp

end SlotArray

end ProbeWindow
