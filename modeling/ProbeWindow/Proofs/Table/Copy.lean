import ProbeWindow.Proofs.Table.Soundness
import Mathlib.Data.List.Forall2

/-!
# Copies are sound

A copy has the tags of the table and, in every slot, the copy of its item. When copying keeps the
hashes of items, the slots of the copy are in order because those of the table are.
-/

namespace ProbeWindow.Table

universe u v

variable {α : Type u} {κ : Type v} [BEq κ] {key : α → κ} {t : Table key}
  {copy : α → Except Fault α}

/-- What a traversal that may fail yields, when it does not. -/
theorem forall₂_of_mapM {β γ : Type u} {f : β → Except Fault γ} {l : List β} {l' : List γ}
    (h : l.mapM f = .ok l') : List.Forall₂ (fun b c ↦ f b = .ok c) l l' := by
  induction l generalizing l' with
  | nil =>
    cases h
    exact .nil
  | cons b l ih =>
    rw [List.mapM_cons] at h
    cases hb : f b with
    | error fault => rw [hb] at h; cases h
    | ok c =>
      cases hl : l.mapM f with
      | error fault => rw [hb, hl] at h; cases h
      | ok cs =>
        rw [hb, hl] at h
        cases h
        exact .cons hb (ih hl)

/-- The items of copied slots are the copies of the items. -/
theorem forall₂_filterMap_of_copySlot {cells cells' : List (Option α)}
    (h : List.Forall₂ (fun c c' ↦ copySlot copy c = .ok c') cells cells') :
    List.Forall₂ (fun a b ↦ copy a = .ok b) (cells.filterMap id) (cells'.filterMap id) := by
  induction h with
  | nil => exact .nil
  | @cons c c' cells cells' hc _ ih =>
    cases c with
    | none =>
      cases hc
      exact ih
    | some a =>
      cases ha : copy a with
      | error fault => rw [copySlot, ha] at hc; cases hc
      | ok b =>
        rw [copySlot, ha] at hc
        cases hc
        exact .cons ha ih

theorem getD_of_forall₂ {R : Option α → Option α → Prop} (hnone : R none none)
    {cells cells' : List (Option α)} (h : List.Forall₂ R cells cells') (i : Nat) :
    R (cells.getD i none) (cells'.getD i none) := by
  induction h generalizing i with
  | nil => exact hnone
  | cons hc _ ih =>
    cases i with
    | zero => exact hc
    | succ i => exact ih i

/-- A copy that has its block is a copy. -/
theorem copy_of_housedCopy {a b : α} (h : t.housedCopy copy a = .ok b) : copy a = .ok b := by
  rw [housedCopy] at h
  cases hb : copy a with
  | error fault => rw [hb] at h; cases h
  | ok c =>
    cases hhouse : t.setup.house with
    | error fault => rw [hb, Except.bind, hhouse] at h; cases h
    | ok _ =>
      rw [hb, Except.bind, hhouse] at h
      exact congrArg Except.ok (Except.ok.inj h)

/-- **A copy is sound**, when copying keeps the hashes of the items; it has their copies, in slot
order, and the setup of the table. -/
theorem Sound.copyWith (h : t.Sound) {t' : Table key} (hcopy : t.copyWith copy = .ok t')
    (hkeep : ∀ a ∈ t.toList, ∀ b, copy a = .ok b → t.setup.hash (key b) = t.setup.hash (key a)) :
    t'.Sound ∧ t'.setup = t.setup ∧
      List.Forall₂ (fun a b ↦ copy a = .ok b) t.toList t'.toList := by
  rw [Table.copyWith] at hcopy
  split at hcopy
  · next hzero =>
    cases hcopy
    rcases h with hb | hf
    · rw [hb.toList_eq]
      exact ⟨.inl ⟨rfl, rfl⟩, rfl, .nil⟩
    · exact absurd hzero (Nat.ne_of_gt hf.offered.pos)
  · next hpos =>
    have hfur := h.furnished (Nat.pos_of_ne_zero hpos)
    split at hcopy
    · cases hcopy
    · split at hcopy
      · cases hcopy
      · next cells hcells =>
        cases hcopy
        have hcells' : t.slots.items.toList.mapM (copySlot (t.housedCopy copy)) =
            .ok cells.toList := by
          rw [← Array.toList_mapM, hcells]
          rfl
        have hpointwise := forall₂_of_mapM hcells'
        have hitems := forall₂_filterMap_of_copySlot hpointwise
        -- the tags are shared, so order needs equal hashes in equal slots only
        have hslot : ∀ i, copySlot (t.housedCopy copy) (t.slots.item? i) =
            .ok (({ t.slots with items := cells } : SlotArray α).item? i) := by
          intro i
          rw [SlotArray.item?_eq_getD_toList, SlotArray.item?_eq_getD_toList]
          exact getD_of_forall₂ (R := fun c c' ↦ copySlot (t.housedCopy copy) c = .ok c') rfl hpointwise i
        have hcount : ({ t.slots with items := cells } : SlotArray α).slotCount =
            t.slots.slotCount := hpointwise.length_eq.symm
        have hordered := hfur.ordered.transfer
          (t := { t.slots with items := cells }) rfl rfl hcount fun i ↦ by
            have hi := hslot i
            cases ha : t.slots.item? i with
            | none =>
              rw [ha, copySlot] at hi
              injection hi with hi
              rw [← hi]
            | some a =>
              cases hb : t.housedCopy copy a with
              | error fault => rw [ha, copySlot, hb] at hi; cases hi
              | ok b =>
                rw [ha, copySlot, hb] at hi
                injection hi with hi
                rw [← hi, Option.map_some, Option.map_some,
                  hkeep a (t.slots.mem_toList.mpr ⟨i, ha⟩) b (copy_of_housedCopy hb)]
        refine ⟨.inr (furnished_of_length hordered hfur.offered ?_ hfur.size_le hfur.slots_lt),
          rfl, hitems.imp fun _ _ ↦ copy_of_housedCopy⟩
        exact h.size_eq_length.trans hitems.length_eq

end ProbeWindow.Table
