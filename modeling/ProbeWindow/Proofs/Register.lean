import ProbeWindow.Group.Packed
import ProbeWindow.Proofs.SlotArray.Lanes

/-!
# Groups in a wide register

A group answers the same from a wide register as from its tags (`Group.pack_agrees`), whatever its
sixteen bytes are. The operations of a register are read byte by byte first, for every register;
after that no proof looks at the 128 bits.

A register is put together from pieces of one width, its bytes or its 16-bit lanes. That a piece can
be read back is proved once, for pieces of any width (`extractLsb'_join`).

The shift is the only operation that crosses the bounds of a byte. What it carries across is said
exactly (`byte_shiftHalves_high`): the top `n` bits of the low byte of a lane become the lowest `n`
bits of the high byte. A shift by less than a byte therefore keeps them below the sign bit
(`msb_byte_shiftHalves`), and the sign bits are those of the bytes shifted one by one.
-/

namespace ProbeWindow

namespace Register

variable (r s : Register) {w count n : Nat}

/-! ### Registers put together from pieces -/

/-- A bit is set in registers taken together when it is set in one of them. -/
theorem getLsbD_foldl_or {ι : Type} (g : ι → Register) (l : List ι) (i : Nat) :
    (l.foldl (fun r k ↦ r ||| g k) r).getLsbD i =
      (r.getLsbD i || l.any fun k ↦ (g k).getLsbD i) := by
  induction l generalizing r with
  | nil => rw [List.foldl_nil, List.any_nil, Bool.or_false]
  | cons k l ih => rw [List.foldl_cons, ih, BitVec.getLsbD_or, List.any_cons, Bool.or_assoc]

/-- A piece at its place has no bits at the place of another one. -/
theorem getLsbD_piece (b : BitVec w) {i k m : Nat} (hi : i < w) (hfit : w * k + i < 128) :
    (b.setWidth 128 <<< (w * m)).getLsbD (w * k + i) = (decide (m = k) && b.getLsbD i) := by
  rw [BitVec.getLsbD_shiftLeft, BitVec.getLsbD_setWidth]
  -- a piece that begins earlier ends at that place, one that begins later has not begun there
  rcases Nat.lt_trichotomy m k with hlt | rfl | hgt
  · have hle : w * m + w ≤ w * k := Nat.mul_le_mul_left w hlt
    have hpast : b.getLsbD (w * k + i - w * m) = false := BitVec.getLsbD_of_ge _ _ (by omega)
    simp [hpast, Nat.ne_of_lt hlt]
  · have hin : i < 128 := Nat.lt_of_le_of_lt (Nat.le_add_left ..) hfit
    simp [hfit, hin]
  · have hle : w * k + w ≤ w * m := Nat.mul_le_mul_left w hgt
    have hbefore : w * k + i < w * m := by omega
    simp [hbefore, Nat.ne_of_gt hgt]

/-- **Pieces are read back**: piece `k` of a register put together from pieces is the piece that was
put there. -/
theorem extractLsb'_join (f : Fin count → BitVec w) (hfit : w * count ≤ 128) (k : Fin count) :
    ((List.finRange count).foldl (fun r k ↦ r ||| ((f k).setWidth 128 <<< (w * k.val))) 0#128
      ).extractLsb' (w * k.val) w = f k := by
  ext i hi
  have hend : w * k.val + w ≤ w * count := Nat.mul_le_mul_left w k.isLt
  have hbit : w * k.val + i < 128 := by omega
  rw [BitVec.getElem_extractLsb', getLsbD_foldl_or, BitVec.getLsbD_zero, Bool.false_or,
    ← BitVec.getLsbD_eq_getElem, Bool.eq_iff_iff, List.any_eq_true]
  simp [getLsbD_piece _ hi hbit, Fin.val_inj]

theorem byte_ofBytes (f : Fin 16 → BitVec 8) (k : Fin 16) : byte (ofBytes f) k = f k :=
  extractLsb'_join f (by decide) k

theorem half_ofHalves (f : Fin 8 → BitVec 16) (k : Fin 8) : half (ofHalves f) k = f k :=
  extractLsb'_join f (by decide) k

/-! ### The operations, byte by byte -/

theorem byte_splat (b : BitVec 8) (k : Fin 16) : byte (splat b) k = b := byte_ofBytes _ k

theorem byte_or (k : Nat) : byte (r ||| s) k = byte r k ||| byte s k := BitVec.extractLsb'_or

theorem msb_byte_equalBytes (k : Fin 16) :
    (byte (equalBytes r s) k).msb = decide (byte r k = byte s k) := by
  rw [equalBytes, byte_ofBytes]
  split
  · next heq => rw [decide_eq_true heq]; rfl
  · next hne => rw [decide_eq_false hne]; rfl

theorem half_shiftHalves (k : Fin 8) : half (shiftHalves r n) k = half r k <<< n :=
  half_ofHalves _ k

/-- The low byte of a 16-bit lane. -/
theorem byte_low (k : Nat) : byte r (2 * k) = (half r k).extractLsb' 0 8 := by
  ext i hi
  have hplace : 8 * (2 * k) + i = 16 * k + i := by omega
  have hin : i < 16 := by omega
  simp [byte, half, hplace, hin]

/-- The high byte of a 16-bit lane. -/
theorem byte_high (k : Nat) : byte r (2 * k + 1) = (half r k).extractLsb' 8 8 := by
  ext i hi
  have hplace : 8 * (2 * k + 1) + i = 16 * k + (8 + i) := by omega
  have hin : 8 + i < 16 := by omega
  simp [byte, half, hplace, hin]

/-- Nothing comes into the low byte of a lane. -/
theorem byte_shiftHalves_low (k : Fin 8) :
    byte (shiftHalves r n) (2 * k) = byte r (2 * k) <<< n := by
  rw [byte_low, byte_low, half_shiftHalves]
  refine BitVec.eq_of_getLsbD_eq fun i hi ↦ ?_
  have hin : i < 16 := by omega
  have hsource : i - n < 8 := by omega
  simp only [BitVec.getLsbD_extractLsb', BitVec.getLsbD_shiftLeft, Nat.zero_add, hi, hin, hsource,
    decide_true, Bool.true_and]

/-- **What crosses the bound of a byte**: the top `n` bits of the low byte of a lane become the
lowest `n` bits of the high byte. -/
theorem byte_shiftHalves_high (hn : n ≤ 8) (k : Fin 8) :
    byte (shiftHalves r n) (2 * k + 1) =
      byte r (2 * k + 1) <<< n ||| byte r (2 * k) >>> (8 - n) := by
  rw [byte_high, byte_high, byte_low, half_shiftHalves]
  refine BitVec.eq_of_getLsbD_eq fun i hi ↦ ?_
  have hin : 8 + i < 16 := by omega
  have hreached : ¬ 8 + i < n := by omega
  simp only [BitVec.getLsbD_extractLsb', BitVec.getLsbD_shiftLeft, BitVec.getLsbD_or,
    BitVec.getLsbD_ushiftRight, Nat.zero_add, hi, hin, hreached, decide_true, decide_false,
    Bool.not_false, Bool.true_and]
  -- below the shift a bit comes from the low byte, from there on from the high byte
  by_cases hlow : i < n
  · have hsource : 8 + i - n = 8 - n + i := by omega
    have hinlow : 8 - n + i < 8 := by omega
    simp only [hlow, hsource, hinlow, decide_true, Bool.not_true, Bool.false_and, Bool.false_or,
      Bool.true_and]
  · have hsource : 8 + i - n = 8 + (i - n) := by omega
    have hinhigh : i - n < 8 := by omega
    have hpast : ¬ 8 - n + i < 8 := by omega
    simp only [hlow, hsource, hinhigh, hpast, decide_true, decide_false, Bool.not_false,
      Bool.true_and, Bool.false_and, Bool.or_false]

/-- **A shift by less than a byte takes each sign bit from its own byte.** -/
theorem msb_byte_shiftHalves (hn : n < 8) (k : Fin 16) :
    (byte (shiftHalves r n) k).msb = (byte r k).getMsbD n := by
  obtain ⟨m, hlow | hhigh⟩ : ∃ m : Fin 8, k.val = 2 * m ∨ k.val = 2 * m + 1 :=
    ⟨⟨k / 2, by omega⟩, by dsimp only; omega⟩
  · rw [hlow, byte_shiftHalves_low, BitVec.msb_shiftLeft]
  · -- what comes from the low byte has been shifted down, so its sign bit is clear
    have hdown : 0 < 8 - n := Nat.sub_pos_of_lt hn
    rw [hhigh, byte_shiftHalves_high r (Nat.le_of_lt hn), BitVec.msb_or, BitVec.msb_shiftLeft,
      BitVec.msb_ushiftRight, decide_eq_true hdown, Bool.not_true, Bool.false_and, Bool.or_false]

/-- The low byte fills all of the high byte but its sign bit. -/
example : byte (shiftHalves (ofBytes fun k ↦ if k = 0 then 0xFF#8 else 0#8) 7) 1 = 0x7F#8 := by
  decide

end Register

/-! ### The bits of a tag -/

namespace Tag

variable {t u : Tag}

theorem toBitVec_inj : t.byte.toBitVec = u.byte.toBitVec ↔ t = u := by
  rw [UInt8.toBitVec_inj, Tag.mk.injEq]

theorem isOccupied_eq (t : Tag) : t.isOccupied = t.byte.toBitVec.getLsbD 0 :=
  byte_ind (P := fun t ↦ t.isOccupied = t.byte.toBitVec.getLsbD 0) (by decide +kernel) t

theorem toBitVec_encode (fragment : UInt8) (offset : Nat) :
    (encode fragment offset).byte.toBitVec =
      BitVec.ofNat 8 offset <<< 4 ||| (1#8 ||| fragment.toBitVec <<< 1) := by
  rw [encode, UInt8.toBitVec_or, BitVec.or_comm]
  rfl

end Tag

/-! ### Agreement -/

namespace Group

variable (g : Group) (fragment : UInt8)

theorem byte_pack (k : Fin 16) : g.pack.register.byte k = (g.tags.get k).byte.toBitVec := by
  rw [pack, Register.byte_ofBytes]

theorem probe_pack : g.pack.probe fragment = g.probe fragment := by
  refine congrArg LaneMask.ofPred (funext fun k ↦ ?_)
  rw [Register.msb_byte_equalBytes, byte_pack, Register.byte_or, Packed.laneOffsets,
    Register.byte_ofBytes, Register.byte_splat, ← Tag.toBitVec_encode]
  exact decide_eq_decide.mpr Tag.toBitVec_inj

theorem occupied_pack : g.pack.occupied = g.occupied := by
  refine congrArg LaneMask.ofPred (funext fun k ↦ ?_)
  rw [Register.msb_byte_shiftHalves _ (by decide), byte_pack, Tag.isOccupied_eq]
  rfl

theorem vacant_pack : g.pack.vacant = g.vacant := congrArg LaneMask.complement g.occupied_pack

/-- **A group answers the same from a wide register**, whatever its sixteen bytes are: a probe
matches the same lanes, and so do the searches for occupied and for empty ones. A hash has a
fragment below 8, but probes agree for every byte. The shift takes the lowest bit of each byte of a
register to the sign bit of that byte, and no bit of another byte to it. -/
theorem pack_agrees :
    (∀ fragment, g.pack.probe fragment = g.probe fragment) ∧
      g.pack.occupied = g.occupied ∧ g.pack.vacant = g.vacant ∧
      ∀ (r : Register) (k : Fin 16),
        ((r.shiftHalves 7).byte k).msb = (r.byte k).getLsbD 0 :=
  ⟨g.probe_pack, g.occupied_pack, g.vacant_pack, fun r k ↦ r.msb_byte_shiftHalves (by decide) k⟩

end Group

end ProbeWindow
