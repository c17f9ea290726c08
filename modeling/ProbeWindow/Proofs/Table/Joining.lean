import ProbeWindow.Proofs.Table.Enlargement
import ProbeWindow.Proofs.Table.Listing

/-!
# One item joins the others

A call for an absent key that returns does one of three things: the table has grown, or it is as it
was, or one item more is in its list, with the others in the sequence that they had (`Joins`). When
the item is in the list, nothing else has changed, so removal of its key leads back to the table
that was there before (`Serves.erase_eq`).
-/

namespace ProbeWindow.Table

universe u v w x

variable {α : Type u} {κ : Type v} {ρ : Type w} {τ : Type x} [BEq κ] {key : α → κ}
  {t t' : Table key} {k : κ} {o : Occupant α} {out : Outcome (Table key) ρ}

open Contents

/-- A table with one item more, which an occupant has; nothing else differs, except that items may
be in other slots. -/
structure Joined (t t' : Table key) (o : Occupant α) : Prop extends SameShell t t' where
  /-- The slot of the occupant has the item. -/
  item : t'.slots.item? o.index = some o.item
  /-- The other items are in the sequence that they had. -/
  toList_eq : t.toList = t'.slots.segment 0 o.index ++
    t'.slots.segment (o.index + 1) t'.slots.slotCount

/-- A call that returns has grown the table, or left it as it was, or added an item. -/
def Joins (t : Table key) (out : Outcome (Table key) ρ) : Prop :=
  ∀ r, out.result = .ok r →
    t.capacity < out.state.capacity ∨ out.state = t ∨ ∃ o, Joined t out.state o

/-- The new item is changed in place. -/
theorem Joined.update (h : Joined t t' o) (f : α → α) :
    Joined t (t'.update o f).1 ⟨o.index, f o.item⟩ := by
  refine ⟨h.toSameShell.trans ⟨⟨rfl, rfl⟩, rfl, rfl⟩, item?_update h.item f, h.toList_eq.trans ?_⟩
  show _ = (t'.slots.setItem o.index (f o.item)).segment 0 o.index ++
    (t'.slots.setItem o.index (f o.item)).segment (o.index + 1)
      (t'.slots.setItem o.index (f o.item)).slotCount
  rw [SlotArray.slotCount_setItem, t'.slots.segment_setItem_of_le (Nat.le_refl _),
    t'.slots.segment_setItem_of_lt (Nat.lt_succ_self _)]

theorem Joins.map (h : Joins t out) (f : ρ → τ) : Joins t (out.map f) := by
  intro r hr
  obtain ⟨r', hr', -⟩ := Outcome.of_result_map hr
  exact h r' hr'

theorem Sound.lookup_eq_none (h : t.Sound) (habsent : t.contains k = false) :
    lookup key t.toList k = none := by
  rwa [h.contains_eq, Option.isSome_eq_false_iff, Option.isNone_iff_eq_none] at habsent

theorem Sound.locate?_of_absent (h : t.Sound) (hnone : lookup key t.toList k = none) :
    t.locate? (t.setup.hash k) k = none := by
  rcases h.locate?_cases k with ⟨o, -, hfound⟩ | ⟨habsent, -⟩
  · cases hfound.lookup_eq.symm.trans hnone
  · exact habsent

section Insertion

variable {next : Table key → Occupant α × Bool → Outcome (Table key) ρ}
  (hnext : ∀ t t' o, Joined t t' o → Joins t (next t' (o, true)))
include hnext

end Insertion

/-- **Removal undoes insertion.** A call stores an item for an absent key, and the capacity stays
what it was: then the key is removed with the table as it was before the call as the result. -/
theorem Serves.erase_eq (hs : t.Sound) {act : Act α ρ} (h : Serves t k act out)
    (hjoins : Joins t out) {r : ρ} (hr : out.result = .ok r)
    (hnone : lookup key t.toList k = none) {x : α} (hx : (act none).1 = some x)
    (hkey : (key x == k) = true)
    (hcapacity : out.state.capacity = t.capacity) : out.state.erase k = (t, some x) := by
  have hperm := h.perm
  rw [hnone, hx, revise_of_lookup_none hnone, Option.toList_some, List.singleton_append] at hperm
  rcases hjoins r hr with hlt | heq | ⟨o, hjoined⟩
  · omega
  · have hlength := hperm.length_eq
    rw [heq, List.length_cons] at hlength
    omega
  · -- the item that joined is the one that the act stores
    have hlist := out.state.slots.toList_of_item? hjoined.item
    have hitem : o.item = x := by
      rw [toList, hlist, hjoined.toList_eq] at hperm
      have hcons := List.perm_middle.symm.trans hperm
      exact List.singleton_perm_singleton.mp ((List.perm_append_right_iff _).mp hcons)
    have hfirst : FirstAt key out.state.toList k (out.state.slots.segment 0 o.index) x
        (out.state.slots.segment (o.index + 1) out.state.slots.slotCount) := by
      refine ⟨hitem ▸ hlist, hkey, fun b hb ↦ lookup_eq_none_iff.mp hnone b ?_⟩
      rw [hjoined.toList_eq]
      exact List.mem_append_left _ hb
    obtain ⟨hsound, hshell, hrest, hfound⟩ := h.sound.erase_spec k
    rw [hfirst.eraseP_eq, ← hjoined.toList_eq] at hrest
    rw [hfirst.lookup_eq] at hfound
    exact Prod.ext (hs.eq_of_toList_eq hsound (hjoined.toSameShell.trans hshell) hrest) hfound

end ProbeWindow.Table
