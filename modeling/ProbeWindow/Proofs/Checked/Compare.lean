import ProbeWindow.Map
import ProbeWindow.Proofs.Checked.Whole
import ProbeWindow.Set.Algebra

/-!
# Two tables at a time, step by step

Equality of maps, and the algebra of sets, walk over one table and look the items up in another.
The walks ask for the next item until there is none, or until an answer is known. They are given one
step more than the cursor has items to come, and it is part of their safety that this is enough.
-/

namespace ProbeWindow

universe u v

namespace Table

variable {α : Type u} {κ : Type v} [BEq κ] {key : α → κ}

/-- Whether all items from a cursor on pass a test, in at most so many steps. -/
def checkedAll (t : Table key) (test : α → Checked Bool) : Nat → Cursor → Checked Bool
  | 0, _ => .endless true
  | n + 1, c =>
    (c.checkedNext t.slots).andThen fun step ↦
      match step with
      | (none, _) => .pure true
      | (some index, c) =>
        (t.slots.checkedItem index).andThen fun item ↦
          match item with
          | none => t.checkedAll test n c
          | some a =>
            (test a).andThen fun passed ↦ if passed then t.checkedAll test n c else .pure false

/-- Whether all items pass a test. -/
def checkedForall (t : Table key) (test : α → Checked Bool) : Checked Bool :=
  t.checkedAll test (t.size + 1) t.cursor

namespace WellFormed

variable {t : Table key} (h : t.WellFormed)
include h

/-- **Testing the items to come is safe**, and ends within the steps for them. -/
theorem checkedAll {test : α → Checked Bool} {p : α → Bool} (htest : ∀ a, (test a).Yields (p a))
    {n : Nat} {c : Cursor} (hc : c.Counts t.slots) (hn : c.remaining < n) :
    (t.checkedAll test n c).Yields ((c.ahead t.slots).all p) := by
  induction n generalizing c with
  | zero => omega
  | succ n ih =>
    have hsafe := h.checkedNext hc
    rcases h.next_cases hc with ⟨i, a, d, hnext, ha, hahead, hd⟩ | ⟨d, hnext, hahead, hd⟩
    · have hcounted := hc.succ_eq hd hahead
      rw [hnext] at hsafe
      rw [hahead, List.all_cons]
      refine hsafe.andThen ((h.checkedItem ha).andThen ((htest a).andThen ?_))
      cases p a with
      | true => exact ih hd (by omega)
      | false => exact .pure _
    · rw [hnext] at hsafe
      rw [hahead]
      exact hsafe.andThen (.pure _)

theorem checkedForall {test : α → Checked Bool} {p : α → Bool}
    (htest : ∀ a, (test a).Yields (p a)) : (t.checkedForall test).Yields (t.toList.all p) := by
  rw [toList, ← Cursor.ahead_start t.size]
  exact h.checkedAll htest h.counts_cursor (Nat.lt_succ_self _)

/-- A walk yields the items in slot order. -/
theorem walk (n : Nat) : (t.walk n t.cursor).1 = t.toList.take n := by
  show (Cursor.take t.slots n t.cursor).1.filterMap t.slots.item? = _
  rcases h with h | h
  · rw [(h.checkedTake n t.cursor).2, h.toList_eq, List.take_nil]
    rfl
  · rw [(Cursor.take_spec h.formed n t.cursor).1, SlotArray.filterMap_take_occupiedSlots, toList,
      SlotArray.toList_eq_segment]
    rfl

/-- All items can be walked over. -/
theorem checkedWalk_size :
    (t.checkedWalk t.size t.cursor).Yields (t.toList, (t.walk t.size t.cursor).2) := by
  refine (h.checkedWalk t.size h.counts_cursor).trans ?_
  rw [← List.take_length (l := t.toList), ← h.size_eq, ← h.walk]

end WellFormed

end Table

open Table

/-! ### Equality of maps -/

namespace HashMap

variable {κ : Type u} {ν : Type v} [BEq κ] [BEq ν]

/-- Whether two maps have the same keys with equal values. -/
def checkedBeq (m other : HashMap κ ν) : Checked Bool :=
  if m.size == other.size then
    m.checkedForall fun p ↦
      (other.checkedFind p.1).map fun found ↦ (found.map Prod.snd).any (p.2 == ·)
  else
    .pure false

/-- **Comparing two maps is safe.** -/
theorem checkedBeq_yields {m other : HashMap κ ν} (h : m.WellFormed) (h' : other.WellFormed) :
    (checkedBeq m other).Yields (beq m other) := by
  rw [checkedBeq, beq]
  cases m.size == other.size with
  | false => exact .pure _
  | true => exact h.checkedForall fun p ↦ (h'.checkedFind p.1).map _

end HashMap

/-! ### Relations of sets -/

namespace HashSet

variable {κ : Type u} [BEq κ] (a b : HashSet κ)

/-- Whether all items of a set are in another. -/
def checkedIncluded : Checked Bool := a.checkedForall b.checkedContains

/-- Whether no item of a set is in another. -/
def checkedExcluded : Checked Bool := a.checkedForall fun x ↦ (b.checkedContains x).map (!·)

/-- Whether two sets have the same items. -/
def checkedBeq : Checked Bool := if a.size == b.size then checkedIncluded a b else .pure false

/-- Whether two sets have no item in common. -/
def checkedIsDisjoint : Checked Bool :=
  if a.size ≤ b.size then checkedExcluded a b else checkedExcluded b a

/-- Whether all items of a set are in another. -/
def checkedIsSubset : Checked Bool := if a.size ≤ b.size then checkedIncluded a b else .pure false

variable {a b} (ha : a.WellFormed) (hb : b.WellFormed)
include ha hb

theorem checkedIncluded_yields : (checkedIncluded a b).Yields (a.toList.all b.contains) :=
  ha.checkedForall hb.checkedContains

theorem checkedExcluded_yields :
    (checkedExcluded a b).Yields (a.toList.all fun x ↦ !b.contains x) :=
  ha.checkedForall fun x ↦ (hb.checkedContains x).map _

/-- **Comparing two sets is safe.** -/
theorem checkedBeq_yields : (checkedBeq a b).Yields (beq a b) := by
  rw [checkedBeq, beq]
  cases a.size == b.size with
  | false => exact .pure _
  | true => exact checkedIncluded_yields ha hb

theorem checkedIsDisjoint_yields : (checkedIsDisjoint a b).Yields (isDisjoint a b) := by
  rw [checkedIsDisjoint, isDisjoint]
  split
  · exact checkedExcluded_yields ha hb
  · exact checkedExcluded_yields hb ha

theorem checkedIsSubset_yields : (checkedIsSubset a b).Yields (isSubset a b) := by
  rw [checkedIsSubset, isSubset]
  split
  · next hle =>
    rw [decide_eq_true hle]
    exact checkedIncluded_yields ha hb
  · next hlt =>
    rw [decide_eq_false hlt]
    exact .pure _

end HashSet

/-! ### Sifts -/

namespace Sift

variable {κ : Type u} [BEq κ]

/-- The next item, and the sift behind it, in at most so many steps. -/
def checkedNext : Nat → Sift κ → Checked (Option κ × Sift κ)
  | 0, s => .endless (none, s)
  | n + 1, s =>
    (s.cursor.checkedNext s.source.slots).andThen fun step ↦
      match step with
      | (none, cursor) => .pure (none, { s with cursor := cursor })
      | (some index, cursor) =>
        (s.source.slots.checkedItem index).andThen fun item ↦
          match item with
          | none => checkedNext n { s with cursor := cursor }
          | some a =>
            (s.sieve.checkedContains a).andThen fun present ↦
              if present == s.held then
                .pure (some a, { s with cursor := cursor })
              else
                checkedNext n { s with cursor := cursor }

/-- Up to so many next items, and the sift behind them. -/
def checkedTake : Nat → Sift κ → Checked (List κ × Sift κ)
  | 0, s => .pure ([], s)
  | n + 1, s =>
    (checkedNext (s.cursor.remaining + 1) s).andThen fun step ↦
      match step with
      | (none, s) => .pure ([], s)
      | (some item, s) => (checkedTake n s).map fun (rest, s) ↦ (item :: rest, s)

section Step

variable {s : Sift κ} {d : Cursor}

/-- A step that comes to an item yields it when it passes, and goes on behind it when not. -/
theorem next_of_some {i : Nat} {a : κ} (hnext : s.cursor.next s.source.slots = (some i, d))
    (ha : s.source.slots.item? i = some a) :
    s.next = if s.passes a then (some a, { s with cursor := d }) else
      Sift.next { s with cursor := d } := by
  rw [Sift.next]
  split <;> rename_i heq <;> rw [hnext] at heq <;> cases heq
  rw [ha, Option.filter_some]
  cases s.passes a <;> rfl

/-- A step that comes to no item yields none. -/
theorem next_of_none (hnext : s.cursor.next s.source.slots = (none, d)) :
    s.next = (none, { s with cursor := d }) := by
  rw [Sift.next]
  split <;> rename_i heq <;> rw [hnext] at heq <;> cases heq
  rfl

end Step

/-- A sift that is under way. -/
structure Ready (s : Sift κ) : Prop where
  /-- The set that is walked over is well-formed. -/
  source : s.source.WellFormed
  /-- The set that is asked is well-formed. -/
  sieve : s.sieve.WellFormed
  /-- The cursor counts the items that are still to come. -/
  counts : s.cursor.Counts s.source.slots

/-- **A step of a sift is safe**, and ends within the steps for the items to come. -/
theorem Ready.checkedNext {s : Sift κ} (h : s.Ready) {n : Nat} (hn : s.cursor.remaining < n) :
    (checkedNext n s).Yields s.next ∧ s.next.2.Ready := by
  induction n generalizing s with
  | zero => omega
  | succ n ih =>
    have hsafe := h.source.checkedNext h.counts
    rcases h.source.next_cases h.counts with
      ⟨i, a, d, hnext, ha, hahead, hd⟩ | ⟨d, hnext, -, hd⟩
    · have hcounted := h.counts.succ_eq hd hahead
      have hrest : ({ s with cursor := d } : Sift κ).Ready := ⟨h.source, h.sieve, hd⟩
      rw [next_of_some hnext ha]
      rw [hnext] at hsafe
      have hfirst : ∀ {r}, (if s.passes a then .pure (some a, { s with cursor := d }) else
          Sift.checkedNext n { s with cursor := d }).Yields r →
            (Sift.checkedNext (n + 1) s).Yields r :=
        fun hr ↦ hsafe.andThen ((h.source.checkedItem ha).andThen
          ((h.sieve.checkedContains a).andThen hr))
      cases hpass : s.passes a with
      | true =>
        rw [hpass] at hfirst
        exact ⟨hfirst (.pure _), hrest⟩
      | false =>
        rw [hpass] at hfirst
        obtain ⟨hyields, hready⟩ := ih hrest (by show d.remaining < n; omega)
        exact ⟨hfirst hyields, hready⟩
    · rw [next_of_none hnext]
      rw [hnext] at hsafe
      exact ⟨hsafe.andThen (.pure _), h.source, h.sieve, hd⟩

/-- **A sift is safe**, however long it is. -/
theorem Ready.checkedTake {s : Sift κ} (h : s.Ready) (n : Nat) :
    (checkedTake n s).Yields (take n s) := by
  induction n generalizing s with
  | zero => exact .pure _
  | succ n ih =>
    obtain ⟨hnext, hready⟩ := h.checkedNext (Nat.lt_succ_self _)
    rw [take]
    rcases heq : s.next with ⟨_ | item, s'⟩
    · rw [heq] at hnext
      exact hnext.andThen (.pure _)
    · rw [heq] at hnext hready
      exact hnext.andThen ((ih hready).map _)

end Sift

namespace HashSet

variable {κ : Type u} [BEq κ] (a b : HashSet κ)

/-- All items of a sift. -/
def checkedSifted (s : Sift κ) : Checked (List κ) :=
  (Sift.checkedTake s.cursor.remaining s).map Prod.fst

/-- The items of `a`, then those of `b` that `a` lacks. -/
def checkedUnion : Checked (List κ) :=
  (a.checkedWalk a.size a.cursor).andThen fun (items, _) ↦
    (checkedSifted (difference b a)).map (items ++ ·)

/-- The items that one of the sets holds and the other lacks. -/
def checkedSymmetricDifference : Checked (List κ) :=
  (checkedSifted (difference a b)).andThen fun items ↦
    (checkedSifted (difference b a)).map (items ++ ·)

variable {a b} (ha : a.WellFormed) (hb : b.WellFormed)
include ha hb

theorem ready_difference : (difference a b).Ready := ⟨ha, hb, ha.counts_cursor⟩

theorem ready_intersection : (intersection a b).Ready := by
  rw [intersection]
  split
  · exact ⟨ha, hb, ha.counts_cursor⟩
  · exact ⟨hb, ha, hb.counts_cursor⟩

theorem checkedUnion_yields : (checkedUnion a b).Yields (union a b) :=
  ha.checkedWalk_size.andThen ((((ready_difference hb ha).checkedTake _).map Prod.fst).map _)

theorem checkedSymmetricDifference_yields :
    (checkedSymmetricDifference a b).Yields (symmetricDifference a b) :=
  (((ready_difference ha hb).checkedTake _).map Prod.fst).andThen
    ((((ready_difference hb ha).checkedTake _).map Prod.fst).map _)

end HashSet

end ProbeWindow
