import ProbeWindow.Proofs.Checked.Compare
import ProbeWindow.Proofs.Checked.Copy
import ProbeWindow.Proofs.Checked.Map
import ProbeWindow.Proofs.Checked.Set
import ProbeWindow.Proofs.Table.Bank

/-!
# Safety

Whatever is called, cloned and swapped in a bank of tables, maps or sets, and whatever a user does
to the items in them, all steps of all calls are allowed: indices are in range, groups end with the
sentinels, items are moved to vacant slots only, no counter goes below zero, and all loops end.
Soundness is not needed for this, so there is nothing to assume of changes and copies.
-/

namespace ProbeWindow

universe u v w x

open Table

variable {α : Type u} {κ : Type v} {ν : Type x} {σ : Type w} [BEq κ]

/-! ### Reachable tables -/

namespace Bank

variable {γ : Type w} {key : α → κ}

/-- Without rules for calls and copies, all commands keep to them. -/
theorem admits_true (next : Table key → γ → Table key) (bank : Bank key) (cs : List (Command γ α)) :
    Admits next (fun _ _ ↦ True) (fun _ _ _ ↦ True) bank cs := by
  induction cs generalizing bank with
  | nil => trivial
  | cons c cs ih =>
    refine ⟨?_, ih _⟩
    cases c with
    | call r c => trivial
    | clone source target copy => exact fun _ _ _ _ ↦ trivial
    | swap r s => trivial

/-- **When calls leave tables well-formed, all tables of a run are well-formed.** -/
theorem wellFormed_run (next : Table key → γ → Table key)
    (hcall : ∀ t c, t.WellFormed → (next t c).WellFormed) (setups : Nat → Setup κ)
    (cs : List (Command γ α)) (r : Nat) : (run next (fresh key setups) cs r).WellFormed :=
  run_preserves (fun t c ht _ ↦ hcall t c ht)
    (fun _ t' copy ht hcopy _ ↦ (ht.checkedCopyWith copy).2 t' hcopy)
    (admits_true next (fresh key setups) cs) (fun r ↦ wellFormed_empty (setups r)) r

end Bank

/-! ### What is safe -/

/-- Everything that is not a call is safe on a table: copying and dropping it, walking over it,
consuming it, and the reports on it. -/
structure Table.Safe {key : α → κ} (t : Table key) : Prop where
  /-- The table is well-formed. -/
  wellFormed : t.WellFormed
  /-- A copy can be made of it. -/
  copyWith : ∀ copy, (t.checkedCopyWith copy).Yields (t.copyWith copy)
  /-- It can be dropped. -/
  drop : t.checkedDrop.Yields ()
  /-- It can be walked over. -/
  walk : ∀ n, (t.checkedWalk n t.cursor).Yields (t.walk n t.cursor)
  /-- It can be consumed by a walk. -/
  intoItems : ∀ n, (t.checkedIntoItems n).Yields (Drain.take n (Drain.start t)).1
  /-- It can be described. -/
  picture : t.checkedPicture.Yields t.slots.picture
  /-- Its items can be counted by their distance from home. -/
  histogram : t.checkedHistogram.Yields t.probeHistogram

theorem Table.WellFormed.safe {key : α → κ} {t : Table key} (h : t.WellFormed) : t.Safe where
  wellFormed := h
  copyWith := fun copy ↦ (h.checkedCopyWith copy).1
  drop := h.checkedDrop
  walk := fun n ↦ h.checkedWalk n h.counts_cursor
  intoItems := h.checkedIntoItems
  picture := h.checkedPicture
  histogram := h.checkedHistogram

/-- The algebra of two sets is safe: their relations, and the walks over what they have in common
and what they have not. -/
structure HashSet.SafeWith (a b : HashSet κ) : Prop where
  /-- They can be compared. -/
  beq : (checkedBeq a b).Yields (HashSet.beq a b)
  /-- They can be tested for a common item. -/
  isDisjoint : (checkedIsDisjoint a b).Yields (HashSet.isDisjoint a b)
  /-- One can be tested for being included in the other. -/
  isSubset : (checkedIsSubset a b).Yields (HashSet.isSubset a b)
  /-- The items that the other one lacks can be walked over. -/
  difference : ∀ n, (Sift.checkedTake n (difference a b)).Yields (Sift.take n (difference a b))
  /-- The items of both can be walked over. -/
  intersection : ∀ n,
    (Sift.checkedTake n (intersection a b)).Yields (Sift.take n (intersection a b))
  /-- The items of either can be listed. -/
  union : (checkedUnion a b).Yields (HashSet.union a b)
  /-- The items of exactly one can be listed. -/
  symmetricDifference :
    (checkedSymmetricDifference a b).Yields (HashSet.symmetricDifference a b)

theorem HashSet.safeWith {a b : HashSet κ} (ha : a.WellFormed) (hb : b.WellFormed) :
    HashSet.SafeWith a b where
  beq := checkedBeq_yields ha hb
  isDisjoint := checkedIsDisjoint_yields ha hb
  isSubset := checkedIsSubset_yields ha hb
  difference := (ready_difference ha hb).checkedTake
  intersection := (ready_intersection ha hb).checkedTake
  union := checkedUnion_yields ha hb
  symmetricDifference := checkedSymmetricDifference_yields ha hb

/-- **Every step is allowed**, on all tables, maps and sets of all runs: in every call, in the
operations that are no calls, and in those on two of them. -/
theorem safe_of_run [BEq ν] (setups : Nat → Setup κ) :
    (∀ (key : α → κ) (cs : List (Bank.Command (Table.Call σ α κ) α)) (r : Nat),
      let t := Bank.run Table.Call.next (Bank.fresh key setups) cs r
      t.Safe ∧ ∀ c : Table.Call σ α κ, (c.checkedNext t).Yields (c.next t)) ∧
    (∀ (cs : List (Bank.Command (HashMap.Call σ κ ν) (κ × ν))) (r r' : Nat),
      let bank := Bank.run HashMap.Call.next (Bank.fresh Prod.fst setups) cs
      (bank r).Safe ∧
        (∀ c : HashMap.Call σ κ ν, (c.checkedExec (bank r)).Yields (c.exec (bank r))) ∧
          (HashMap.checkedBeq (bank r) (bank r')).Yields (HashMap.beq (bank r) (bank r'))) ∧
    ∀ (cs : List (Bank.Command (HashSet.Call σ κ) κ)) (r r' : Nat),
      let bank := Bank.run HashSet.Call.next (Bank.fresh id setups) cs
      (bank r).Safe ∧
        (∀ c : HashSet.Call σ κ, (c.checkedExec (bank r)).Yields (c.exec (bank r))) ∧
          HashSet.SafeWith (bank r) (bank r') := by
  refine ⟨fun key cs r ↦ ?_, fun cs r r' ↦ ?_, fun cs r r' ↦ ?_⟩
  · have ht : (Bank.run Table.Call.next (Bank.fresh key setups) cs r).WellFormed :=
      Bank.wellFormed_run _ (fun t c ht ↦ (ht.checkedCall c).2) setups cs r
    exact ⟨ht.safe, fun c ↦ (ht.checkedCall c).1⟩
  · have hm := Bank.wellFormed_run (HashMap.Call.next (σ := σ) (κ := κ) (ν := ν))
      (fun m c hm ↦ (HashMap.runs_call hm c).wellFormed) setups cs
    exact ⟨(hm r).safe, fun c ↦ (HashMap.runs_call (hm r) c).toYields,
      HashMap.checkedBeq_yields (hm r) (hm r')⟩
  · have hs := Bank.wellFormed_run (HashSet.Call.next (σ := σ) (κ := κ))
      (fun s c hs ↦ (HashSet.runs_call hs c).wellFormed) setups cs
    exact ⟨(hs r).safe, fun c ↦ (HashSet.runs_call (hs r) c).toYields,
      HashSet.safeWith (hs r) (hs r')⟩

end ProbeWindow
