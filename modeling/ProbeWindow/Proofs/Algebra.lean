import ProbeWindow.Proofs.Equality
import ProbeWindow.Proofs.Safety
import ProbeWindow.Proofs.Set.Sifting
import Mathlib.Order.CompletePartialOrder
import Mathlib.Order.ConditionallyCompleteLattice.Basic
import Mathlib.Order.SymmDiff

/-!
# Set algebra

A set of items stands for the set of keys that it holds (`HashSet.keys`), in which equal keys come
together. The operations on two sets of items are those on their sets of keys: what they yield lists
the keys of the result, with one item for each class of equal keys (`Lists`), and the relations hold
when those of the keys do.

Equal items may differ, so it matters which one of them is yielded. All items are stored ones, in
the order of their slots, and it is said of each operation from which set they come
(`HashSet.Algebra`). An intersection takes them from the smaller set; the sets may have setups of
their own, and nothing else about their slots matters.
-/

namespace ProbeWindow

universe u v w

namespace HashSet

open Contents Table

variable {κ : Type u} {σ : Type v} {τ : Type w} [BEq κ]

/-- The keys that a set holds. -/
def keys (s : HashSet κ) : Set κ := {k | s.contains k = true}

/-- Items list some keys: each key is equal to an item, only these keys are, and no two items are
equal. -/
structure Lists (items : List κ) (keys : Set κ) : Prop where
  /-- No two items are equal. -/
  distinct : Distinct id items
  /-- The keys are those that are equal to an item. -/
  mem_iff : ∀ k, k ∈ keys ↔ ∃ x ∈ items, (x == k) = true

/-- The algebra of two sets: what each operation yields, from which of the sets and in what order,
and which keys it lists. -/
structure Algebra (a b : HashSet κ) : Prop where
  /-- A union yields the items of the first set, then those of the second one that it lacks. -/
  union_eq : union a b = a.toList ++ b.toList.filter fun x ↦ !a.contains x
  /-- A union lists the keys of both sets. -/
  lists_union : Lists (union a b) (keys a ∪ keys b)
  /-- An intersection walks over the items of the smaller set, or of the first one of two that are
  equally large, that the other one holds. -/
  walks_intersection : (intersection a b).Walks
    (if a.size ≤ b.size then a.toList.filter b.contains else b.toList.filter a.contains)
  /-- An intersection lists the common keys. -/
  lists_intersection : Lists (intersection a b).toList (keys a ∩ keys b)
  /-- A difference walks over the items of the first set that the second one lacks. -/
  walks_difference : (difference a b).Walks (a.toList.filter fun x ↦ !b.contains x)
  /-- A difference lists the keys of the first set that are not in the second one. -/
  lists_difference : Lists (difference a b).toList (keys a \ keys b)
  /-- A symmetric difference yields the items of each set that the other one lacks. -/
  symmetricDifference_eq : symmetricDifference a b =
    (a.toList.filter fun x ↦ !b.contains x) ++ b.toList.filter fun x ↦ !a.contains x
  /-- A symmetric difference lists the keys that are in one of the sets only. -/
  lists_symmetricDifference : Lists (symmetricDifference a b) (symmDiff (keys a) (keys b))
  /-- Sets are disjoint when their keys are. -/
  isDisjoint_iff : isDisjoint a b = true ↔ Disjoint (keys a) (keys b)
  /-- A set is a subset when its keys are. -/
  isSubset_iff : isSubset a b = true ↔ keys a ⊆ keys b
  /-- A set is a superset when its keys are. -/
  isSuperset_iff : isSuperset a b = true ↔ keys b ⊆ keys a

variable {items items' : List κ} {S T : Set κ} {a b s : HashSet κ}

/-! ### Lists of keys -/

section Lists

variable [EquivBEq κ] {test : κ → Bool}

/-- A test of the items is one of their keys when it does not tell equal keys apart. -/
theorem Lists.forall_iff (h : Lists items S) (htest : ∀ x k, (x == k) = true → test x = test k) :
    (∀ x ∈ items, test x = true) ↔ ∀ k ∈ S, test k = true := by
  constructor
  · intro hall k hk
    obtain ⟨x, hx, hxk⟩ := (h.mem_iff k).mp hk
    exact htest x k hxk ▸ hall x hx
  · exact fun hall x hx ↦ hall x ((h.mem_iff x).mpr ⟨x, hx, BEq.rfl⟩)

omit [EquivBEq κ] in
/-- **The items that pass a test list the keys that do.** -/
theorem Lists.filter (h : Lists items S) (htest : ∀ x k, (x == k) = true → test x = test k) :
    Lists (items.filter test) {k ∈ S | test k = true} where
  distinct := h.distinct.sublist List.filter_sublist
  mem_iff k := by
    constructor
    · rintro ⟨hk, hpass⟩
      obtain ⟨x, hx, hxk⟩ := (h.mem_iff k).mp hk
      exact ⟨x, List.mem_filter.mpr ⟨hx, htest x k hxk ▸ hpass⟩, hxk⟩
    · rintro ⟨x, hx, hxk⟩
      obtain ⟨hmem, hpass⟩ := List.mem_filter.mp hx
      exact ⟨(h.mem_iff k).mpr ⟨x, hmem, hxk⟩, htest x k hxk ▸ hpass⟩

/-- **Two lists of different keys make one list.** -/
theorem Lists.append (h : Lists items S) (h' : Lists items' T) (hdisj : Disjoint S T) :
    Lists (items ++ items') (S ∪ T) where
  distinct := by
    refine List.pairwise_append.mpr ⟨h.distinct, h'.distinct, fun x hx y hy ↦ ?_⟩
    refine Bool.eq_false_iff.mpr fun hxy ↦ ?_
    -- equal items in both lists would be a key of both
    have hx' : y ∈ S := (h.mem_iff y).mpr ⟨x, hx, hxy⟩
    have hy' : y ∈ T := (h'.mem_iff y).mpr ⟨y, hy, BEq.rfl⟩
    exact Set.disjoint_left.mp hdisj hx' hy'
  mem_iff k := by
    rw [Set.mem_union, h.mem_iff, h'.mem_iff]
    simp only [List.mem_append, or_and_right, exists_or]

end Lists

/-! ### Keys of a set -/

section Keys

@[simp]
theorem mem_keys {k : κ} : k ∈ keys s ↔ s.contains k = true := Iff.rfl

/-- **The items of a set list its keys.** -/
theorem lists_toList (h : s.Proper) : Lists s.toList (keys s) where
  distinct := h.distinct
  mem_iff k := by
    rw [mem_keys, h.sound.contains_eq, lookup, List.find?_isSome]
    rfl

variable [EquivBEq κ]

/-- A set does not tell equal keys apart. -/
theorem contains_congr (h : s.Sound) (x k : κ) (hxk : (x == k) = true) :
    s.contains x = s.contains k := by
  rw [h.contains_eq, h.contains_eq, lookup_congr hxk]

/-- That no item of a set is in another one is that they have no key in common. -/
theorem all_lacked_iff (ha : a.Proper) (hb : b.Proper) :
    (a.toList.all fun x ↦ !b.contains x) = true ↔ Disjoint (keys a) (keys b) := by
  rw [List.all_eq_true, (lists_toList ha).forall_iff fun x k hxk ↦
    congrArg (!·) (contains_congr hb.sound x k hxk), Set.disjoint_left]
  exact forall₂_congr fun k _ ↦ by rw [mem_keys, Bool.not_eq_true, Bool.not_eq_true']

/-- That all items of a set are in another one is that all its keys are. -/
theorem all_held_iff (ha : a.Proper) (hb : b.Proper) :
    a.toList.all b.contains = true ↔ keys a ⊆ keys b := by
  rw [List.all_eq_true, (lists_toList ha).forall_iff (contains_congr hb.sound)]
  rfl

theorem isDisjoint_iff (ha : a.Proper) (hb : b.Proper) :
    isDisjoint a b = true ↔ Disjoint (keys a) (keys b) := by
  rw [isDisjoint]
  split
  · exact all_lacked_iff ha hb
  · exact (all_lacked_iff hb ha).trans disjoint_comm

/-- **A set with more items is no subset**, so the sizes may be compared first. -/
theorem isSubset_iff (ha : a.Proper) (hb : b.Proper) :
    isSubset a b = true ↔ keys a ⊆ keys b := by
  rw [isSubset, Bool.and_eq_true, decide_eq_true_eq, all_held_iff ha hb, and_iff_right_iff_imp]
  intro hsub
  rw [ha.sound.size_eq_length, hb.sound.size_eq_length]
  refine ha.distinct.length_le fun x hx ↦ ?_
  rw [← hb.sound.contains_eq]
  exact hsub (((lists_toList ha).mem_iff x).mpr ⟨x, hx, BEq.rfl⟩)

/-! ### The algebra -/

end Keys

/-- Sets that runs lead to are well-formed. -/
theorem Reached.wellFormed (h : s.Reached σ) : s.WellFormed := by
  obtain ⟨setups, cs, r, -, rfl⟩ := h
  exact Bank.wellFormed_run _ (fun s c hs ↦ (runs_call hs c).wellFormed) setups cs r

end HashSet

namespace Bank

end Bank

end ProbeWindow
