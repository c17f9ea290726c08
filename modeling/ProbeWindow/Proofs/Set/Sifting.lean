import ProbeWindow.Proofs.Checked.Compare

/-!
# What a sift yields

A sift walks over the items of one set and asks another set about each of them. The items that are
still to come are those ahead of its cursor that pass (`Sift.pending`): a step yields the first of
them and leaves the others (`Ready.next`), so after `n` steps all but the first `n` are to come
(`Ready.behind`). Hence a sift is a walk over a list (`Sift.Walks`), and however much of the list
has been consumed, the cursor has counted at least the items that are left.
-/

namespace ProbeWindow

universe u

/-- A step that finds no slot counts nothing. -/
theorem Cursor.remaining_of_next_none {α : Type u} {s : SlotArray α} {c d : Cursor}
    (h : c.next s = (none, d)) : d.remaining = c.remaining := by
  simp only [Cursor.next] at h
  split at h
  · split at h
    · split at h <;> cases h
      rfl
    · cases h
      rfl
  · cases h
    rfl

namespace Sift

variable {κ : Type u} [BEq κ] {s : Sift κ}

/-- The items that are still to come. -/
def pending (s : Sift κ) : List κ := (s.cursor.ahead s.source.slots).filter s.passes

/-- The sift behind so many steps, some of which may have found no item. -/
def behind : Nat → Sift κ → Sift κ
  | 0, s => s
  | n + 1, s => behind n s.next.2

/-- A number is one that a size hint allows. -/
def Within (count : Nat) (hint : Nat × Option Nat) : Prop :=
  hint.1 ≤ count ∧ ∀ most ∈ hint.2, count ≤ most

/-- A sift walks over a list: however many steps have been made, the next ones yield the items of
the list that have not been yielded, and the size hint allows their number. -/
structure Walks (s : Sift κ) (items : List κ) : Prop where
  /-- A step yields the next item, and none when the list is at its end. -/
  next_eq : ∀ n, (behind n s).next.1 = items[n]?
  /-- Many steps yield as many of the items. -/
  take_eq : ∀ n m, (take m (behind n s)).1 = (items.drop n).take m
  /-- All steps together yield all items that are left. -/
  toList_eq : ∀ n, (behind n s).toList = items.drop n
  /-- The number of items that are left is within the size hint. -/
  within_sizeHint : ∀ n, Within (items.drop n).length (behind n s).sizeHint

namespace Ready

/-- **A step yields the first item to come**, and leaves the others. -/
theorem next (h : s.Ready) :
    s.next.2.Ready ∧ s.next.1 = s.pending.head? ∧ s.next.2.pending = s.pending.tail := by
  -- the induction is on the items ahead, of which those that do not pass are stepped over
  induction hn : s.cursor.remaining using Nat.strong_induction_on generalizing s with
  | _ n ih =>
    rcases h.source.next_cases h.counts with
      ⟨i, a, d, hnext, ha, hahead, hd⟩ | ⟨d, hnext, hahead, hd⟩
    · have hcounted := h.counts.succ_eq hd hahead
      have hrest : ({ s with cursor := d } : Sift κ).Ready := ⟨h.source, h.sieve, hd⟩
      have hpending : s.pending =
          [a].filter s.passes ++ ({ s with cursor := d } : Sift κ).pending := by
        rw [pending, hahead, ← List.singleton_append, List.filter_append]
        rfl
      rw [next_of_some hnext ha, hpending]
      cases hpass : s.passes a with
      | true =>
        rw [List.filter_singleton, hpass]
        exact ⟨hrest, rfl, rfl⟩
      | false =>
        rw [List.filter_singleton, hpass]
        exact ih d.remaining (by omega) hrest rfl
    · have hleft : (d.ahead s.source.slots).length = 0 := by
        rw [← hd, Cursor.remaining_of_next_none hnext, h.counts, hahead, List.length_nil]
      have hpending : s.pending = [] := by rw [pending, hahead, List.filter_nil]
      have hpending' : ({ s with cursor := d } : Sift κ).pending = [] := by
        rw [pending, List.eq_nil_of_length_eq_zero hleft, List.filter_nil]
      rw [next_of_none hnext, hpending]
      exact ⟨⟨h.source, h.sieve, hd⟩, rfl, hpending'⟩

/-- **After so many steps the items behind them are to come.** -/
theorem behind (h : s.Ready) (n : Nat) :
    (Sift.behind n s).Ready ∧ (Sift.behind n s).pending = s.pending.drop n := by
  induction n generalizing s with
  | zero => exact ⟨h, rfl⟩
  | succ n ih =>
    obtain ⟨hready, -, htail⟩ := h.next
    obtain ⟨hbehind, hpending⟩ := ih hready
    rw [htail, List.drop_tail] at hpending
    exact ⟨hbehind, hpending⟩

/-- **A walk of so many steps yields as many of the items to come.** -/
theorem take (h : s.Ready) (n : Nat) : (Sift.take n s).1 = s.pending.take n := by
  induction n generalizing s with
  | zero => rfl
  | succ n ih =>
    obtain ⟨hready, hhead, htail⟩ := h.next
    rw [Sift.take]
    rcases hnext : s.next with ⟨_ | item, s'⟩
    · rw [hnext, eq_comm, List.head?_eq_none_iff] at hhead
      rw [hhead, List.take_nil]
    · rw [hnext] at hready hhead htail
      obtain ⟨rest, hrest⟩ := List.head?_eq_some_iff.mp hhead.symm
      rw [hrest, List.tail_cons] at htail
      show item :: (Sift.take n s').1 = _
      rw [ih hready, htail, hrest, List.take_succ_cons]

/-- The cursor has counted the items to come, and those that will not pass. -/
theorem length_pending_le (h : s.Ready) : s.pending.length ≤ s.cursor.remaining := by
  rw [h.counts]
  exact List.length_filter_le ..

theorem toList_eq (h : s.Ready) : s.toList = s.pending := by
  rw [toList, h.take, List.take_of_length_le h.length_pending_le]

theorem within_sizeHint (h : s.Ready) : Within s.pending.length s.sizeHint := by
  refine ⟨Nat.zero_le _, fun most hmost ↦ ?_⟩
  cases hmost
  exact h.length_pending_le

/-- **A sift that is under way walks over the items that are to come.** -/
theorem walks (h : s.Ready) : s.Walks s.pending where
  next_eq n := by
    obtain ⟨hready, hpending⟩ := h.behind n
    rw [hready.next.2.1, hpending, List.head?_drop]
  take_eq n m := by
    obtain ⟨hready, hpending⟩ := h.behind n
    rw [hready.take, hpending]
  toList_eq n := by
    obtain ⟨hready, hpending⟩ := h.behind n
    rw [hready.toList_eq, hpending]
  within_sizeHint n := by
    obtain ⟨hready, hpending⟩ := h.behind n
    exact hpending ▸ hready.within_sizeHint

end Ready

end Sift

namespace HashSet

variable {κ : Type u} [BEq κ] {a b : HashSet κ}

/-- A sift that starts has all items of its source to come that pass. -/
theorem pending_start (a b : HashSet κ) (held : Bool) :
    (⟨a, a.cursor, b, held⟩ : Sift κ).pending =
      a.toList.filter fun x ↦ b.contains x == held := by
  rw [Sift.pending, Table.toList, ← Cursor.ahead_start a.size]
  rfl

/-- **A difference walks over the items of the first set** that the second one lacks. -/
theorem walks_difference (ha : a.WellFormed) (hb : b.WellFormed) :
    (difference a b).Walks (a.toList.filter fun x ↦ !b.contains x) := by
  have hpending : (difference a b).pending = a.toList.filter fun x ↦ !b.contains x := by
    simp only [difference, pending_start, beq_false]
  exact hpending ▸ (ready_difference ha hb).walks

/-- **An intersection walks over the items of the smaller set**, or of the first one of two that
are equally large, that the other one holds. -/
theorem walks_intersection (ha : a.WellFormed) (hb : b.WellFormed) :
    (intersection a b).Walks
      (if a.size ≤ b.size then a.toList.filter b.contains else b.toList.filter a.contains) := by
  have hpending : (intersection a b).pending =
      if a.size ≤ b.size then a.toList.filter b.contains else b.toList.filter a.contains := by
    rw [intersection]
    split <;> simp only [pending_start, beq_true]
  exact hpending ▸ (ready_intersection ha hb).walks

end HashSet

end ProbeWindow
