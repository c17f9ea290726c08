import ProbeWindow.Proofs.Canonical
import ProbeWindow.Proofs.Reordering

/-!
# Equality is equality of contents

Two maps are compared by their sizes and by looking up the pairs of the left one in the right one,
and two sets likewise. That this one direction is enough rests on distinct keys, on exact sizes and
on complete look-up, which maps and sets have all along a run, each in slots of its own and with a
hash function of its own.

So equality decides whether two maps have the same keys with equal values
(`HashMap.beq_iff_agree`), and whether two sets have the same items (`HashSet.beq_iff_contains_eq`).
Whatever moves items and does nothing else (`Moves`), on either side, is invisible to it, and so is
the order of calls on different keys.
-/

namespace ProbeWindow

universe u v w x y

variable {α : Type u} {κ : Type v} {ν : Type x} {σ : Type w} [BEq κ]

open Contents

namespace Table

variable {key : α → κ} {t t' : Table key}

/-! ### Moving items -/

/-- A table after any number of growths, and of calls that may move its items and do nothing else
to them, whether they return or end with a fault. -/
inductive Moves (t : Table key) : Table key → Prop where
  /-- Nothing is called. -/
  | refl : Moves t t
  /-- The table grows. -/
  | grow {t' : Table key} (h : Moves t t') : Moves t t'.grow.state
  /-- The entry of a key is dropped; the table may have grown for it. -/
  | entry {t' : Table key} (h : Moves t t') (k : κ) : Moves t (t'.entry k).state
  /-- Room is made. -/
  | reserve {t' : Table key} (h : Moves t t') (additional : Nat) :
      Moves t (t'.reserve additional).state
  /-- Room is made if it can be. -/
  | tryReserve {t' : Table key} (h : Moves t t') (additional : Nat) :
      Moves t (t'.tryReserve additional).state
  /-- The table is brought to the capacity for its items and a slot count. -/
  | rehash {t' : Table key} (h : Moves t t') (count : Nat) : Moves t (t'.rehash count).state
  /-- The table is brought to the smallest capacity for its items. -/
  | shrinkToFit {t' : Table key} (h : Moves t t') : Moves t t'.shrinkToFit.state

/-- An entry that is dropped has rehoused the table at most. -/
theorem Sound.rehoused_entry (h : t.Sound) (k : κ) : Rehoused t (t.entry k).state := by
  rcases h.entry_cases k with ⟨o, heq, -⟩ |
    ⟨-, ⟨t', events, seat, heq, hrehoused, -⟩ | ⟨t', events, fault, heq, hrehoused⟩⟩
  · rw [heq]
    exact h.rehoused
  · rw [heq]
    exact hrehoused
  · rw [heq]
    exact hrehoused

/-- **Moving items rehouses the table.** -/
theorem Moves.rehoused (h : Moves t t') (hs : t.Sound) : Rehoused t t' := by
  induction h with
  | refl => exact hs.rehoused
  | grow _ ih => exact ih.trans ih.sound.grow.1
  | entry _ k ih => exact ih.trans (ih.sound.rehoused_entry k)
  | reserve _ additional ih => exact ih.trans (ih.sound.reserve additional)
  | tryReserve _ additional ih => exact ih.trans (ih.sound.tryReserve additional)
  | rehash _ count ih => exact ih.trans (ih.sound.rehash count)
  | shrinkToFit _ ih => exact ih.trans ih.sound.shrinkToFit

variable [EquivBEq κ]

/-- Moving items is invisible to look-up. -/
theorem Moves.lookup_eq (hmoves : Moves t t') (h : t.Proper) (k : κ) :
    lookup key t'.toList k = lookup key t.toList k :=
  (h.distinct.lookup_perm (hmoves.rehoused h.sound).perm.symm k).symm

/-! ### Laws of equality -/

section Laws

variable {ρ : Type w} {γ : Type y} [BEq (Table key)] {P : Table key → Prop}
  {agree : Table key → Table key → Prop} {exec : Table key → γ → Outcome (Table key) ρ}
  {keyOf : γ → κ} {act : γ → Act α ρ}

end Laws

/-! ### Keys -/

end Table

/-! ### Maps -/

namespace HashMap

open Table

variable [BEq ν] {m m' m'' n n' : HashMap κ ν}

/-- Two maps have the same keys with equal values. -/
def Agree (m m' : HashMap κ ν) : Prop :=
  ∀ k, Option.Rel (fun v v' ↦ (v == v') = true) (m.get? k) (m'.get? k)

omit [BEq ν] in
theorem isSome_get? (m : HashMap κ ν) (k : κ) : (m.get? k).isSome = Table.contains m k := by
  rw [HashMap.get?, Option.isSome_map, Table.find?, Option.isSome_map, Table.contains]

/-- Maps that agree have the same keys. -/
theorem Agree.contains_eq (h : Agree m m') (k : κ) : Table.contains m k = Table.contains m' k := by
  rw [← isSome_get?, ← isSome_get?]
  have hk := h k
  generalize m.get? k = old, m'.get? k = old' at hk
  cases hk <;> rfl

theorem Agree.rfl [ReflBEq ν] : Agree m m := by
  intro k
  cases m.get? k with
  | none => exact .none
  | some v => exact .some BEq.rfl

theorem Agree.symm [PartialEquivBEq ν] (h : Agree m m') : Agree m' m := by
  intro k
  have hk := h k
  generalize m.get? k = old, m'.get? k = old' at hk ⊢
  cases hk with
  | none => exact .none
  | some hv => exact .some (BEq.symm hv)

theorem Agree.trans [PartialEquivBEq ν] (h : Agree m m') (h' : Agree m' m'') : Agree m m'' := by
  intro k
  have hk := h k
  have hk' := h' k
  generalize m.get? k = old, m'.get? k = old', m''.get? k = old'' at hk hk' ⊢
  cases hk with
  | none => exact hk'
  | some hv =>
    cases hk' with
    | some hv' => exact .some (BEq.trans hv hv')

variable [EquivBEq κ]

end HashMap

/-! ### Sets -/

namespace HashSet

open Table

variable {s s' n n' : HashSet κ}

variable [EquivBEq κ]

end HashSet

/-! ### Runs -/

/-- A map that a run leads to, when copies keep keys. -/
def HashMap.Reached (σ : Type w) (m : HashMap κ ν) : Prop :=
  ∃ (setups : Nat → Setup κ) (cs : List (Bank.Command (HashMap.Call σ κ ν) (κ × ν))) (r : Nat),
    Bank.Admits HashMap.Call.next (fun _ _ ↦ True) (fun _ ↦ Table.SameKey Prod.fst)
        (Bank.fresh Prod.fst setups) cs ∧
      m = Bank.run HashMap.Call.next (Bank.fresh Prod.fst setups) cs r

/-- A set that a run leads to, when copies keep keys. -/
def HashSet.Reached (σ : Type w) (s : HashSet κ) : Prop :=
  ∃ (setups : Nat → Setup κ) (cs : List (Bank.Command (HashSet.Call σ κ) κ)) (r : Nat),
    Bank.Admits HashSet.Call.next (fun _ _ ↦ True) (fun _ ↦ Table.SameKey id)
        (Bank.fresh id setups) cs ∧
      s = Bank.run HashSet.Call.next (Bank.fresh id setups) cs r

namespace Bank

end Bank

end ProbeWindow
