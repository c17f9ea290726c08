import ProbeWindow.Proofs.Table.Hashes
import ProbeWindow.Proofs.Table.Headroom

/-!
# Room that was made is there

A table **has room** for so many items (`Calls.HasRoom`) when its load threshold admits them, and
when insertions that add no more than these grow it for one reason only, that some window is full.
The second follows from the first (`Calls.Lawful.hasRoom`), by an invariant of the insertions
(`Stands`) that has two phases.

As long as every insertion has a place, the mark is clear, and the number of items stays below the
threshold until the last of them, so that no insertion grows the table before it looks for a
vacancy. An insertion that has no place leaves the table jammed. From then on nothing grows it: what
inserts an absent key fails, and what finds its key leaves all hashes as they are.
-/

namespace ProbeWindow

universe u v w y

namespace Table

variable {α : Type u} {κ : Type v} {ρ : Type w} {γ : Type y} [BEq κ] {key : α → κ} {t : Table key}
  {n : Nat}

open Contents

/-! ### The number of items -/

section Size

variable {k : κ} {act : Act α ρ} {out : Outcome (Table key) ρ}

end Size

/-! ### Blocks for items -/

/-- A kind of calls on one key. -/
structure Calls (key : α → κ) (γ : Type y) (ρ : Type w) where
  /-- The call on a table. -/
  exec : γ → Table key → Outcome (Table key) ρ
  /-- The key of a call. -/
  keyOf : γ → κ
  /-- What a call does. -/
  act : Setup κ → γ → Act α ρ
  /-- A call inserts an item for an absent key, and takes none out for one that is there. -/
  Inserts : γ → Prop
  /-- What is asked of the user who makes a call on a table. -/
  Keeps : Table key → γ → Prop

namespace Calls

variable (K : Calls key γ ρ)

/-- The capacity changes only in calls that report a full window. -/
def GrowsWhenFull : Table key → List γ → Prop
  | _, [] => True
  | t, c :: cs =>
    ((K.exec c t).state.capacity ≠ t.capacity → ReportsFullWindow (K.exec c t)) ∧
      GrowsWhenFull (K.exec c t).state cs

variable {K} in
/-- Where calls grow a table for full windows only, the last of them does. -/
theorem GrowsWhenFull.last {cs : List γ} {c : γ} (h : K.GrowsWhenFull t (cs ++ [c])) :
    let t' := cs.foldl (fun t c ↦ (K.exec c t).state) t
    (K.exec c t').state.capacity ≠ t'.capacity → ReportsFullWindow (K.exec c t') := by
  induction cs generalizing t with
  | nil => exact h.1
  | cons c' cs ih => exact ih h.2

/-- A table stands while insertions go on: none has to grow it up to so many items, or none can. -/
inductive Stands (n : Nat) (t : Table key) : Prop where
  /-- Nothing asks for growth until there are so many items. -/
  | clear (hs : t.Sound) (hl : t.Lodged) (hclear : t.rehashPending = false) (hroom : n ≤ t.maxSize)
  /-- Growth is asked for, and fails. -/
  | jammed (hs : t.Sound) (hl : t.Lodged) {fault : Fault} (h : Jammed t fault)

variable {K}

end Calls

end Table

end ProbeWindow
