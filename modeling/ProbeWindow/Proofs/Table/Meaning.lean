import ProbeWindow.Proofs.Table.Insertion
import ProbeWindow.Proofs.Table.Retention
import ProbeWindow.Proofs.Table.Upkeep

/-!
# What calls mean

What a call does to the contents of a table, as data (`Meaning`). The contents are a list of items
with distinct keys of which the order does not matter: a finite map from classes of equal keys to
items. Where the items are in the slots is not in it.

That this is a finite map is proved here, for calls that keep keys (`Meaning.KeepsKeys`): they keep
keys distinct (`Meaning.Meets.distinct`), and what they do does not depend on the order of the list
(`Meaning.Meets.of_perm`).
-/

namespace ProbeWindow

universe u v w x

open Contents

/-- What a call does to the contents, and how its reply is told. -/
inductive Meaning (σ : Type w) (α : Type u) (κ : Type v) (ρ : Type x) where
  /-- The item of a key is revised by an act. -/
  | one (k : κ) (act : Act α ρ)
  /-- Items are put in one by one; those with absent keys are counted. -/
  | many (merge : α → α → α) (items : List α) (tell : Nat → ρ)
  /-- So many items of a walk are changed. -/
  | walk (change : α → α) (n : Nat) (tell : List α → ρ)
  /-- The items of a walk are sieved. -/
  | sift (visit : σ → α → Visit σ α) (state : σ) (tell : σ → ρ)
  /-- A call on the whole table. -/
  | upkeep (u : Table.Upkeep) (tell : Table.Report α → ρ)

namespace Meaning

variable {σ : Type w} {α : Type u} {κ : Type v} {ρ : Type x} [BEq κ]

/-- **What a call does to a finite map**, when it returns. A walk goes through the items in some
order. -/
def Meets (key : α → κ) (before : List α) (reply : ρ) (after : List α) : Meaning σ α κ ρ → Prop
  | one k act =>
    (act (lookup key before k)).2 = .ok reply ∧
      after.Perm (revise key before k (act (lookup key before k)).1)
  | many merge items tell =>
    reply = tell (insertAll key merge before items).2 ∧
      after.Perm (insertAll key merge before items).1
  | walk change n tell =>
    ∃ order : List α, order.Perm before ∧ reply = tell ((order.take n).map change) ∧
      after.Perm ((order.take n).map change ++ order.drop n)
  | sift visit state tell =>
    ∃ (order : List α) (state' : σ), order.Perm before ∧
      (sieve visit state order).2 = (state', .ok ()) ∧ reply = tell state' ∧
      after.Perm (sieve visit state order).1
  | upkeep u tell => ∃ r, reply = tell r ∧ u.Meets before r after

/-- A call keeps the keys of the items that it changes. -/
def KeepsKeys (key : α → κ) : Meaning σ α κ ρ → Prop
  | one k act =>
    ∀ old : Option α, (∀ a ∈ old, (key a == k) = true) → ∀ b ∈ (act old).1, (key b == k) = true
  | many merge _ _ => ∀ old a, (key old == key a) = true → (key (merge old a) == key a) = true
  | walk change _ _ => ∀ a, key (change a) = key a
  | sift visit _ _ => ∀ s a, key (visit s a).item = key a
  | upkeep _ _ => True

variable {key : α → κ}

omit [BEq κ] in
/-- A predicate that keeps keys leaves some of the keys. -/
theorem map_key_sieve_sublist {visit : σ → α → Visit σ α}
    (hvisit : ∀ s a, key (visit s a).item = key a) (state : σ) (items : List α) :
    ((sieve visit state items).1.map key).Sublist (items.map key) := by
  induction items generalizing state with
  | nil => exact .slnil
  | cons a items ih =>
    cases hv : (visit state a).verdict with
    | error fault =>
      rw [sieve_cons_of_error hv, List.map_cons, hvisit, List.map_cons]
    | ok keep =>
      rw [sieve_cons_of_ok hv]
      cases keep with
      | false => exact .cons _ (ih _)
      | true =>
        rw [if_pos rfl, List.map_cons, hvisit, List.map_cons]
        exact .cons_cons _ (ih _)

namespace Meets

variable [EquivBEq κ] {c : Meaning σ α κ ρ} {before before' after : List α} {reply : ρ}

/-- **A call that keeps keys keeps them distinct.** -/
theorem distinct (h : c.Meets key before reply after) (hkeys : c.KeepsKeys key)
    (hbefore : Distinct key before) : Distinct key after := by
  cases c with
  | one k act =>
    exact (hbefore.revise (hkeys _ fun a ha ↦ key_of_lookup ha)).perm h.2.symm
  | many merge items tell => exact (hbefore.insertAll merge hkeys items).perm h.2.symm
  | walk change n tell =>
    obtain ⟨order, horder, -, hafter⟩ := h
    refine ((hbefore.perm horder.symm).of_map_key ?_).perm hafter.symm
    have hchange : ((order.take n).map change).map key = (order.take n).map key := by
      rw [List.map_map]
      exact List.map_congr_left fun a _ ↦ hkeys a
    rw [List.map_append, hchange, ← List.map_append, List.take_append_drop]
  | sift visit state tell =>
    obtain ⟨order, -, horder, -, -, hafter⟩ := h
    exact ((hbefore.perm horder.symm).of_map_key (map_key_sieve_sublist hkeys _ _)).perm hafter.symm
  | upkeep u tell =>
    obtain ⟨r, -, hu⟩ := h
    exact hbefore.subperm hu.subperm

/-- **What a call does depends on no order.** -/
theorem of_perm (h : c.Meets key before reply after) (hkeys : c.KeepsKeys key)
    (hbefore : Distinct key before) (hperm : before.Perm before') :
    c.Meets key before' reply after := by
  cases c with
  | one k act =>
    have hlookup := hbefore.lookup_perm hperm k
    refine ⟨?_, h.2.trans ?_⟩
    · rw [← hlookup]
      exact h.1
    · rw [← hlookup]
      exact hbefore.revise_perm hperm k _
  | many merge items tell =>
    obtain ⟨hafter, hcount⟩ := hbefore.insertAll_perm merge hkeys hperm items
    exact ⟨hcount ▸ h.1, h.2.trans hafter⟩
  | walk change n tell =>
    obtain ⟨order, horder, h⟩ := h
    exact ⟨order, horder.trans hperm, h⟩
  | sift visit state tell =>
    obtain ⟨order, state', horder, h⟩ := h
    exact ⟨order, state', horder.trans hperm, h⟩
  | upkeep u tell =>
    obtain ⟨r, hr, hu⟩ := h
    exact ⟨r, hr, hu.of_perm hperm⟩

end Meets

end Meaning

end ProbeWindow
