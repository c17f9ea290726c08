import ProbeWindow.Proofs.Checked.Shift
import ProbeWindow.Proofs.GrowthPolicy
import ProbeWindow.Proofs.SlotArray.Search
import ProbeWindow.Proofs.Table.Soundness

/-!
# Tables in form, and what is done without growth

The invariant that safety rests on (`Table.WellFormed`) is weaker than soundness: it has what no
change of items can break. A table has no slots, or its slots are in form, its capacity is one that
the policy offers, and its size is the number of its items.

Look-up, change in place, removal and clearing are taken apart here. Each has a checked version,
which yields what the operation says, and leaves the table well-formed.
-/

namespace ProbeWindow

universe u v w

variable {α : Type u} {κ : Type v} [BEq κ]

/-! ### Homes -/

/-- A capacity is one for which the policy of a setup can be asked for homes: it came from the
policy, and it is a power of two when the policy takes the home from the low bits. -/
structure Setup.Indexes (setup : Setup κ) (capacity : Nat) : Prop where
  /-- The policy returned the capacity. -/
  offers : setup.Offers capacity
  /-- The capacity can be divided by. -/
  pos : 0 < capacity
  /-- The mask has all low bits. -/
  isPowerOfTwo : setup.policy.Restricts .powerOfTwo → capacity.isPowerOfTwo

theorem Setup.Offers.indexes {setup : Setup κ} {capacity : Nat} (h : setup.Offers capacity) :
    setup.Indexes capacity := by
  refine ⟨h, h.pos, fun hpolicy ↦ ?_⟩
  obtain ⟨size, hsize⟩ := h
  exact hpolicy.isPowerOfTwo hsize

/-- The home of a mixed hash under a capacity. -/
def Setup.checkedHome (setup : Setup κ) (hash : UInt64) (capacity : Nat) : Checked Nat :=
  .require (setup.Indexes capacity) (.pure (setup.policy.index hash capacity))

theorem Setup.Offers.checkedHome {setup : Setup κ} {capacity : Nat} (h : setup.Offers capacity)
    (hash : UInt64) :
    (setup.checkedHome hash capacity).Yields (setup.policy.index hash capacity) :=
  .require h.indexes (.pure _)

namespace Table

variable {key : α → κ}

/-! ### Well-formed tables -/

/-- The table has slots, which are in form. -/
structure Allocated (t : Table key) : Prop where
  /-- The slots are in form. -/
  formed : t.slots.Formed
  /-- The capacity is one that the policy returns. -/
  offered : t.setup.Offers t.capacity
  /-- The size is the number of items. -/
  size_eq : t.size = t.toList.length
  /-- Slots and tags are numbered by words. -/
  tags_lt : t.capacity + maxOffset + windowWidth < Word.bound

/-- **The invariant of tables**, whatever is done to their items. -/
def WellFormed (t : Table key) : Prop := t.Bare ∨ t.Allocated

theorem wellFormed_empty (setup : Setup κ) : (empty key setup).WellFormed := .inl (bare_empty setup)

variable {t : Table key}

theorem Allocated.home_lt (h : t.Allocated) (hash : UInt64) : t.home hash < t.slots.capacity :=
  h.offered.index_lt hash

namespace WellFormed

theorem size_eq (h : t.WellFormed) : t.size = t.toList.length := by
  rcases h with h | h
  · rw [h.toList_eq, h.size_eq, List.length_nil]
  · exact h.size_eq

theorem allocated (h : t.WellFormed) (hpos : 0 < t.capacity) : t.Allocated := by
  rcases h with h | h
  · exact absurd h.capacity_eq (Nat.ne_of_gt hpos)
  · exact h

theorem allocated_of_item (h : t.WellFormed) {i : Nat} {a : α} (hi : t.slots.item? i = some a) :
    t.Allocated := by
  rcases h with h | h
  · rw [h.item?_eq] at hi
    cases hi
  · exact h

theorem allocated_of_size (h : t.WellFormed) (hsize : t.size ≠ 0) : t.Allocated := by
  rcases h with h | h
  · exact absurd h.size_eq hsize
  · exact h

/-- A table has slots in form as soon as it has a slot. -/
theorem formed_of_lt (h : t.WellFormed) {i : Nat} (hi : i < t.slots.slotCount) :
    t.slots.Formed := by
  rcases h with h | h
  · rw [h.slots_eq] at hi
    exact absurd hi (Nat.not_lt_zero i)
  · exact h.formed

theorem item?_eq_none_of_size (h : t.WellFormed) (hsize : t.size = 0) (i : Nat) :
    t.slots.item? i = none :=
  t.slots.toList_eq_nil_iff.mp (List.eq_nil_of_length_eq_zero (h.size_eq.symm.trans hsize)) i

/-- The mark is of no account. -/
theorem mark (h : t.WellFormed) (pending : Bool) :
    ({ t with rehashPending := pending } : Table key).WellFormed := by
  rcases h with h | h
  · exact .inl ⟨h.slots_eq, h.size_eq⟩
  · exact .inr ⟨h.formed, h.offered, h.size_eq, h.tags_lt⟩

/-- The load factor is of no account. -/
theorem setMaxLoad (h : t.WellFormed) (f : LoadFactor) : (t.setMaxLoad f).WellFormed := by
  rcases h with h | h
  · exact .inl ⟨h.slots_eq, h.size_eq⟩
  · exact .inr ⟨h.formed, h.offered, h.size_eq, h.tags_lt⟩

end WellFormed

/-! ### Runs of calls -/

section Runs

variable {ρ : Type w} {τ : Type*}

/-- **A checked call runs**: it is safe and does what the call does, the table stays well-formed,
and a result is as promised. -/
structure Runs (c : Checked (Outcome (Table key) ρ)) (o : Outcome (Table key) ρ)
    (post : Table key → ρ → Prop) : Prop extends c.Yields o where
  /-- The table is well-formed, also when the call ended with a fault. -/
  wellFormed : o.state.WellFormed
  /-- The result is as promised. -/
  result : ∀ r, o.result = .ok r → post o.state r

variable {c : Checked (Outcome (Table key) ρ)} {o : Outcome (Table key) ρ}
  {post : Table key → ρ → Prop}

theorem WellFormed.runs_done (h : t.WellFormed) {r : ρ} (hr : post t r) :
    Runs (.pure (.done t r)) (.done t r) post :=
  ⟨.pure _, h, fun _ heq ↦ by cases heq; exact hr⟩

theorem WellFormed.runs_fail (h : t.WellFormed) (fault : Fault) :
    Runs (.pure (.fail t fault)) (.fail t fault) post :=
  ⟨.pure _, h, nofun⟩

namespace Runs

theorem require {p : Prop} (hp : p) (h : Runs c o post) : Runs (c.require p) o post :=
  ⟨h.toYields.require hp, h.wellFormed, h.result⟩

/-- Safe steps may come before a call. -/
theorem of_yields {first : Checked τ} {r : τ} (hfirst : first.Yields r)
    {next : τ → Checked (Outcome (Table key) ρ)} (hnext : Runs (next r) o post) :
    Runs (first.andThen next) o post :=
  ⟨hfirst.andThen hnext.toYields, hnext.wellFormed, hnext.result⟩

/-- Safe steps may be all of a call. -/
theorem of_map {first : Checked τ} {r : τ} (hfirst : first.Yields r)
    (f : τ → Outcome (Table key) ρ) (hwell : (f r).state.WellFormed) :
    Runs (first.map f) (f r) fun _ _ ↦ True :=
  ⟨hfirst.map f, hwell, fun _ _ ↦ trivial⟩

theorem mono {post' : Table key → ρ → Prop} (h : Runs c o post)
    (hpost : ∀ t r, t.WellFormed → post t r → post' t r) : Runs c o post' :=
  ⟨h.toYields, h.wellFormed, fun r hr ↦ hpost _ r h.wellFormed (h.result r hr)⟩

/-- **A call followed by another one runs** when the second one runs on what the first one
leaves. -/
theorem proceed {post' : Table key → τ → Prop} (h : Runs c o post)
    {next : Table key → ρ → Checked (Outcome (Table key) τ)}
    {next' : Table key → ρ → Outcome (Table key) τ}
    (hnext : ∀ t r, t.WellFormed → post t r → Runs (next t r) (next' t r) post') :
    Runs (c.proceed next) (o.andThen next') post' := by
  have hafter : (o.andThen next').state.WellFormed ∧
      ∀ r, (o.andThen next').result = .ok r → post' (o.andThen next').state r := by
    rcases o.andThen_cases next' with ⟨fault, -, heq⟩ | ⟨r, hr, heq⟩
    · rw [heq]
      exact ⟨h.wellFormed, nofun⟩
    · have hrun := hnext _ r h.wellFormed (h.result r hr)
      rw [heq]
      exact ⟨hrun.wellFormed, hrun.result⟩
  refine ⟨h.toYields.proceed fun r hr ↦ ?_, hafter.1, hafter.2⟩
  exact (hnext _ r h.wellFormed (h.result r hr)).toYields

theorem after (h : Runs c o post) (events : List Event) :
    Runs (c.map (Outcome.after events)) (o.after events) post :=
  ⟨h.toYields.map _, h.wellFormed, h.result⟩

theorem map {post' : Table key → τ → Prop} (h : Runs c o post) (f : ρ → τ)
    (hpost : ∀ t r, t.WellFormed → post t r → post' t (f r)) :
    Runs (c.map (Outcome.map · f)) (o.map f) post' := by
  refine ⟨h.toYields.map _, h.wellFormed, fun r' hr' ↦ ?_⟩
  obtain ⟨r, hr, rfl⟩ := Outcome.of_result_map hr'
  exact hpost _ r h.wellFormed (h.result r hr)

end Runs

end Runs

/-! ### Look-up -/

/-- The table has the item of an occupant in its slot. -/
def Holds (t : Table key) (o : Occupant α) : Prop := t.slots.item? o.index = some o.item

theorem Holds.allocated {o : Occupant α} (ho : t.Holds o) (h : t.WellFormed) : t.Allocated :=
  h.allocated_of_item ho

section LookUp

variable (t)

/-- The item with the given key and mixed hash. -/
def checkedLocate (hash : UInt64) (k : κ) : Checked (Option (Occupant α)) :=
  if t.size = 0 then
    .pure none
  else
    (t.setup.checkedHome hash t.capacity).andThen fun home ↦
      t.slots.checkedSearch home (Tag.fragmentOf hash) fun item ↦ key item == k

/-- The item of a slot that a look-up has found. -/
def checkedAt (index : Nat) : Checked (Option α) :=
  (t.slots.checkedOccupied index).andThen fun occupied ↦
    .require (occupied = true) (t.slots.checkedItem index)

/-- The item with the given key. -/
def checkedFind (k : κ) : Checked (Option α) :=
  (t.checkedLocate (t.setup.hash k) k).andThen fun found ↦
    match found with
    | none => .pure none
    | some o => t.checkedAt o.index

/-- Whether the table holds an item with the given key. -/
def checkedContains (k : κ) : Checked Bool :=
  (t.checkedLocate (t.setup.hash k) k).map Option.isSome

/-- How many of the given keys the table holds. -/
def checkedCountPresent : List κ → Checked Nat
  | [] => .pure 0
  | k :: ks =>
    (t.checkedContains k).andThen fun present ↦
      (checkedCountPresent ks).map fun n ↦ if present then n + 1 else n

/-- Nothing but an item of the table is found. -/
theorem holds_of_locate? {hash : UInt64} {k : κ} {o : Occupant α}
    (h : t.locate? hash k = some o) : t.Holds o := by
  rw [locate?] at h
  split at h
  · cases h
  · exact (SlotArray.of_search?_eq_some h).1

end LookUp

namespace WellFormed

variable (h : t.WellFormed)
include h

theorem checkedLocate (hash : UInt64) (k : κ) :
    (t.checkedLocate hash k).Yields (t.locate? hash k) := by
  rw [Table.checkedLocate, locate?]
  split
  · exact .pure _
  · next hsize =>
    have ha := h.allocated_of_size hsize
    exact (ha.offered.checkedHome hash).andThen
      (ha.formed.checkedSearch (ha.home_lt hash) (Tag.fragmentOf_lt hash) _)

theorem checkedAt {o : Occupant α} (ho : t.Holds o) :
    (t.checkedAt o.index).Yields (some o.item) := by
  have hform := (ho.allocated h).formed
  exact (hform.checkedOccupied (t.slots.lt_slotCount_of_item? ho)).andThen
    (.require (hform.isOccupied_of_item _ _ ho) (hform.checkedItem ho))

theorem checkedFind (k : κ) : (t.checkedFind k).Yields (t.find? k) := by
  refine (h.checkedLocate _ k).andThen ?_
  rw [find?, occupant?]
  cases ho : t.locate? (t.setup.hash k) k with
  | none => exact .pure _
  | some o => exact h.checkedAt (t.holds_of_locate? ho)

theorem checkedContains (k : κ) : (t.checkedContains k).Yields (t.contains k) :=
  (h.checkedLocate _ k).map _

theorem checkedCountPresent (ks : List κ) :
    (t.checkedCountPresent ks).Yields (t.countPresent ks) := by
  induction ks with
  | nil => exact .pure _
  | cons k ks ih =>
    refine ((h.checkedContains k).andThen (ih.map _)).trans ?_
    rw [countPresent, countPresent, List.countP_cons]
    split <;> rfl

end WellFormed

/-! ### Change in place -/

section Change

variable (t)

/-- A function is applied to an item that is found in its slot. -/
def checkedUpdate (o : Occupant α) (f : α → α) : Checked (Table key × α) :=
  (t.checkedAt o.index).andThen fun item ↦ .require (item = some o.item) (.pure (t.update o f))

/-- A function is applied to the item with the given key. -/
def checkedModify (k : κ) (f : α → α) : Checked (Table key × Option α) :=
  (t.checkedLocate (t.setup.hash k) k).andThen fun found ↦
    match found with
    | none => .pure (t, none)
    | some o => (t.checkedUpdate o f).map fun (t, item) ↦ (t, some item)

end Change

namespace WellFormed

variable (h : t.WellFormed)
include h

/-- **A change of an item leaves the table well-formed**, whatever the change is. -/
theorem update {o : Occupant α} (ho : t.Holds o) (f : α → α) : (t.update o f).1.WellFormed := by
  have ha := ho.allocated h
  refine .inr ⟨ha.formed.setItem ho _, ha.offered, ?_, ha.tags_lt⟩
  exact ha.size_eq.trans (SlotArray.length_toList_setItem ho _).symm

theorem checkedUpdate {o : Occupant α} (ho : t.Holds o) (f : α → α) :
    (t.checkedUpdate o f).Yields (t.update o f) :=
  (h.checkedAt ho).andThen (.require rfl (.pure _))

theorem checkedModify (k : κ) (f : α → α) :
    (t.checkedModify k f).Yields (t.modify k f) ∧ (t.modify k f).1.WellFormed := by
  rw [modify, occupant?]
  cases hfound : t.locate? (t.setup.hash k) k with
  | none =>
    refine ⟨(h.checkedLocate _ k).andThen ?_, h⟩
    rw [hfound]
    exact .pure _
  | some o =>
    have ho := t.holds_of_locate? hfound
    refine ⟨(h.checkedLocate _ k).andThen ?_, h.update ho f⟩
    rw [hfound]
    exact (h.checkedUpdate ho f).map _

end WellFormed

/-- A changed item is in its slot. -/
theorem Holds.update {o : Occupant α} (ho : t.Holds o) (f : α → α) :
    (t.update o f).1.Holds ⟨o.index, f o.item⟩ := by
  show (t.slots.setItem o.index (f o.item)).item? o.index = _
  rw [SlotArray.item?_setItem, if_pos ⟨rfl, t.slots.lt_slotCount_of_item? ho⟩]

/-! ### Removal -/

section Removal

variable (t)

/-- Removes the item of a slot, which must be occupied, and counts it off. -/
def checkedEraseAt (index : Nat) : Checked (Table key) :=
  (t.slots.checkedOccupied index).andThen fun occupied ↦
    .require (occupied = true) <|
      (t.slots.checkedErase index).andThen fun slots ↦
        .require (0 < t.size) (.pure { t with slots := slots, size := t.size - 1 })

/-- Removes the item with the given key. -/
def checkedEraseKey (k : κ) : Checked (Table key × Option α) :=
  (t.checkedLocate (t.setup.hash k) k).andThen fun found ↦
    match found with
    | none => .pure (t, none)
    | some o => (t.checkedEraseAt o.index).map fun t ↦ (t, some o.item)

end Removal

namespace WellFormed

variable (h : t.WellFormed)
include h

theorem size_pos {i : Nat} {a : α} (hi : t.slots.item? i = some a) : 0 < t.size := by
  rw [h.size_eq]
  exact List.length_pos_of_mem (t.slots.mem_toList.mpr ⟨i, hi⟩)

/-- **A removal leaves the table well-formed.** -/
theorem eraseAt {i : Nat} {a : α} (hi : t.slots.item? i = some a) : (t.eraseAt i).WellFormed := by
  have ha := h.allocated_of_item hi
  have hcapacity : (t.eraseAt i).capacity = t.capacity := SlotArray.capacity_erase _ _
  refine .inr ⟨ha.formed.erase (t.slots.lt_slotCount_of_item? hi), ?_, ?_, ?_⟩
  · rw [hcapacity]
    exact ha.offered
  · have hlen := (ha.formed.toList_perm_erase hi).length_eq
    show t.size - 1 = (t.slots.erase i).toList.length
    rw [ha.size_eq, toList, hlen, List.length_cons, Nat.add_sub_cancel]
  · rw [hcapacity]
    exact ha.tags_lt

theorem checkedEraseAt {i : Nat} {a : α} (hi : t.slots.item? i = some a) :
    (t.checkedEraseAt i).Yields (t.eraseAt i) := by
  have hform := (h.allocated_of_item hi).formed
  exact (hform.checkedOccupied (t.slots.lt_slotCount_of_item? hi)).andThen <|
    .require (hform.isOccupied_of_item i a hi) <|
      (hform.checkedErase hi).andThen (.require (h.size_pos hi) (.pure _))

theorem checkedEraseKey (k : κ) :
    (t.checkedEraseKey k).Yields (t.erase k) ∧ (t.erase k).1.WellFormed := by
  rw [erase, occupant?]
  cases hfound : t.locate? (t.setup.hash k) k with
  | none =>
    refine ⟨(h.checkedLocate _ k).andThen ?_, h⟩
    rw [hfound]
    exact .pure _
  | some o =>
    have ho := t.holds_of_locate? hfound
    refine ⟨(h.checkedLocate _ k).andThen ?_, h.eraseAt ho⟩
    rw [hfound]
    exact (h.checkedEraseAt ho).map _

end WellFormed

end Table

end ProbeWindow
