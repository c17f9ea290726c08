import ProbeWindow.Proofs.Table.Calls

/-!
# What calls leave alone

An insertion looks its key up before it looks at anything else: not at the load threshold, and not
at the mark of an insertion that failed. So on a key that is there it changes one item in its slot
and nothing else (`InPlace`), builds no item and reports nothing, in whatever state the table is.

A call that takes items out moves the items behind them, but it keeps the slots that there are
(`SameRoom`), also when a visit of it fails.
-/

namespace ProbeWindow.Table

universe u v w x

variable {α : Type u} {κ : Type v} {ρ σ : Type w} [BEq κ] {key : α → κ} {t t' t'' : Table key}
  {i : Nat}

open Contents

/-- The table holds an item with a key. -/
def HasKey (t : Table key) (k : κ) : Prop := ∃ a ∈ t.toList, (key a == k) = true

/-- As many homes, and the same load factor. -/
structure SameRoom (t t' : Table key) : Prop where
  /-- The capacity is the same. -/
  capacity_eq : t'.capacity = t.capacity
  /-- The load factor is the same. -/
  maxLoad_eq : t'.maxLoad = t.maxLoad

/-- Nothing differs but the items and where they are. -/
structure SameShell (t t' : Table key) : Prop extends SameRoom t t' where
  /-- The setup is the same. -/
  setup_eq : t'.setup = t.setup
  /-- The mark is the same. -/
  rehashPending_eq : t'.rehashPending = t.rehashPending

/-- Nothing differs but the item of one slot. -/
structure InPlace (t t' : Table key) (i : Nat) : Prop extends SameRoom t t' where
  /-- The size is the same. -/
  size_eq : t'.size = t.size
  /-- The mark is the same. -/
  rehashPending_eq : t'.rehashPending = t.rehashPending
  /-- The setup is the same. -/
  setup_eq : t'.setup = t.setup
  /-- All tags are the same. -/
  tags_eq : t'.slots.tags = t.slots.tags
  /-- The other slots have the items that they had. -/
  item?_eq : ∀ j, j ≠ i → t'.slots.item? j = t.slots.item? j
  /-- The slot has an item if it had one. -/
  isSome_item?_eq : (t'.slots.item? i).isSome = (t.slots.item? i).isSome

/-- A call leaves the slots that there are, and reports nothing. -/
structure KeepsRoom (t : Table key) (out : Outcome (Table key) ρ) : Prop extends
    SameRoom t out.state where
  /-- Nothing is reported. -/
  events_eq : out.events = []

/-- A call returns, and has changed at most the item of one slot and reported nothing. -/
structure StaysAt (t : Table key) (i : Nat) (out : Outcome (Table key) ρ) : Prop extends
    InPlace t out.state i where
  /-- Nothing is reported. -/
  events_eq : out.events = []
  /-- The call returns. -/
  returns : ∃ r, out.result = .ok r

/-- A call for a key changes at most an item of that key, where it is. -/
def StaysPut (t : Table key) (k : κ) (out : Outcome (Table key) ρ) : Prop :=
  ∃ i a, t.slots.item? i = some a ∧ (key a == k) = true ∧ StaysAt t i out

theorem SameRoom.refl (t : Table key) : SameRoom t t := ⟨rfl, rfl⟩

theorem SameRoom.trans (h : SameRoom t t') (h' : SameRoom t' t'') : SameRoom t t'' :=
  ⟨h'.capacity_eq.trans h.capacity_eq, h'.maxLoad_eq.trans h.maxLoad_eq⟩

theorem SameShell.refl (t : Table key) : SameShell t t := ⟨.refl t, rfl, rfl⟩

theorem SameShell.trans (h : SameShell t t') (h' : SameShell t' t'') : SameShell t t'' :=
  ⟨h.toSameRoom.trans h'.toSameRoom, h'.setup_eq.trans h.setup_eq,
    h'.rehashPending_eq.trans h.rehashPending_eq⟩

theorem SameShell.symm (h : SameShell t t') : SameShell t' t :=
  ⟨⟨h.capacity_eq.symm, h.maxLoad_eq.symm⟩, h.setup_eq.symm, h.rehashPending_eq.symm⟩

theorem InPlace.refl (t : Table key) (i : Nat) : InPlace t t i :=
  ⟨.refl t, rfl, rfl, rfl, rfl, fun _ _ ↦ rfl, rfl⟩

theorem InPlace.trans (h : InPlace t t' i) (h' : InPlace t' t'' i) : InPlace t t'' i where
  toSameRoom := h.toSameRoom.trans h'.toSameRoom
  size_eq := h'.size_eq.trans h.size_eq
  rehashPending_eq := h'.rehashPending_eq.trans h.rehashPending_eq
  setup_eq := h'.setup_eq.trans h.setup_eq
  tags_eq := h'.tags_eq.trans h.tags_eq
  item?_eq j hj := (h'.item?_eq j hj).trans (h.item?_eq j hj)
  isSome_item?_eq := h'.isSome_item?_eq.trans h.isSome_item?_eq

theorem StaysAt.after {out : Outcome (Table key) ρ} (hout : StaysAt t' i out) (h : InPlace t t' i) :
    StaysAt t i out :=
  ⟨h.trans hout.toInPlace, hout.events_eq, hout.returns⟩

theorem StaysAt.map {τ : Type x} {out : Outcome (Table key) ρ} (h : StaysAt t i out) (f : ρ → τ) :
    StaysAt t i (out.map f) := by
  obtain ⟨r, hr⟩ := h.returns
  exact ⟨h.toInPlace, h.events_eq, f r, by rw [Outcome.result_map, hr]; rfl⟩

theorem KeepsRoom.map {τ : Type x} {out : Outcome (Table key) ρ} (h : KeepsRoom t out)
    (f : ρ → τ) : KeepsRoom t (out.map f) :=
  ⟨h.toSameRoom, h.events_eq⟩

theorem KeepsRoom.after {out : Outcome (Table key) ρ} (hout : KeepsRoom t' out)
    (h : SameRoom t t') : KeepsRoom t out :=
  ⟨h.trans hout.toSameRoom, hout.events_eq⟩

theorem StaysAt.keepsRoom {out : Outcome (Table key) ρ} (h : StaysAt t i out) : KeepsRoom t out :=
  ⟨h.toSameRoom, h.events_eq⟩

theorem StaysAt.done (h : InPlace t t' i) (r : ρ) : StaysAt t i (.done t' r) :=
  ⟨h, rfl, r, rfl⟩

/-! ### One item -/

/-- The changed item is where the item was. -/
theorem item?_update {o : Occupant α} (hitem : t.slots.item? o.index = some o.item)
    (f : α → α) : (t.update o f).1.slots.item? o.index = some (f o.item) := by
  rw [Table.update, SlotArray.item?_setItem, if_pos ⟨rfl, t.slots.lt_slotCount_of_item? hitem⟩]

/-- **A change in place** touches one item. -/
theorem inPlace_update {o : Occupant α} (hitem : t.slots.item? o.index = some o.item)
    (f : α → α) : InPlace t (t.update o f).1 o.index := by
  refine ⟨⟨rfl, rfl⟩, rfl, rfl, rfl, rfl, fun j hj ↦ ?_, ?_⟩
  · rw [Table.update, SlotArray.item?_setItem, if_neg fun h ↦ hj h.1]
  · rw [item?_update hitem, hitem]
    rfl

theorem sameShell_eraseAt (t : Table key) (index : Nat) : SameShell t (t.eraseAt index) :=
  ⟨⟨SlotArray.capacity_erase _ _, rfl⟩, rfl, rfl⟩

theorem sameRoom_eraseAt (t : Table key) (index : Nat) : SameRoom t (t.eraseAt index) :=
  (t.sameShell_eraseAt index).toSameRoom

theorem sameRoom_erase (t : Table key) (k : κ) : SameRoom t (t.erase k).1 := by
  rw [erase]
  split
  · exact .refl t
  · exact t.sameRoom_eraseAt _

/-- **A key that is there is found**, wherever its item is. -/
theorem Sound.exists_found (h : t.Sound) {k : κ} (hk : t.HasKey k) :
    ∃ o, t.locate? (t.setup.hash k) k = some o ∧ t.Found k o := by
  rcases h.locate?_cases k with hfound | ⟨-, hnone⟩
  · exact hfound
  · obtain ⟨a, ha, hak⟩ := hk
    rw [lookup_eq_none_iff.mp hnone a ha] at hak
    cases hak

theorem Sound.exists_entry (h : t.Sound) {k : κ} (hk : t.HasKey k) :
    ∃ o, t.entry k = .done t (.occupied o) ∧ t.Found k o := by
  obtain ⟨o, ho, hfound⟩ := h.exists_found hk
  exact ⟨o, by simp only [entry, ho], hfound⟩

/-- Where there is an item, items get their blocks. -/
theorem HasKey.house_eq {k : κ} (hk : t.HasKey k) (hl : t.Lodged) : t.setup.house = .ok () := by
  obtain ⟨a, ha, -⟩ := hk
  exact hl.resolve_right fun hnil ↦ List.not_mem_nil (hnil ▸ ha)

theorem Sound.exists_emplace (h : t.Sound) (hl : t.Lodged) (item : α) (hk : t.HasKey (key item)) :
    ∃ o, t.emplace item = .done t (o, false) ∧ t.Found (key item) o := by
  obtain ⟨o, ho, hfound⟩ := h.exists_found hk
  exact ⟨o, by simp only [emplace, hk.house_eq hl, accept, ho], hfound⟩

theorem Found.staysPut {k : κ} {o : Occupant α} (h : t.Found k o) {out : Outcome (Table key) ρ}
    (hout : StaysAt t o.index out) : StaysPut t k out :=
  ⟨o.index, o.item, h.item, h.first.key_eq, hout⟩

/-! ### Calls on one key -/

/-- The use of an entry takes no item out. -/
def EntryUse.Leaves : EntryUse α → Prop
  | matched _ none => False
  | drop | orInsert _ _ | orInsertWith _ _ | matched _ (some _) => True

/-- The use of an entry with another function to build an item. -/
def EntryUse.withMake (make : Unit → Except Fault α) : EntryUse α → EntryUse α
  | orInsertWith _ change => orInsertWith make change
  | drop => drop
  | orInsert item change => orInsert item change
  | matched vacant occupied => matched vacant occupied

/-- A call inserts an item for an absent key, and takes none out for one that is there. -/
def Access.Inserts : Access α κ → Prop
  | emplace _ _ | tryEmplaceWith _ _ _ => True
  | entry _ use => use.Leaves
  | find _ | contains _ | modify _ _ | erase _ => False

/-- The call with another function to build an item. -/
def Access.withMake (make : Unit → Except Fault α) : Access α κ → Access α κ
  | tryEmplaceWith k _ change => tryEmplaceWith k make change
  | entry k use => entry k (use.withMake make)
  | find k => find k
  | contains k => contains k
  | modify k change => modify k change
  | erase k => erase k
  | emplace item change => emplace item change

/-- A call takes an item out: an entry does so when it is occupied. -/
def Access.TakesOut (t : Table key) : Access α κ → Prop
  | erase _ => True
  | entry k use => t.HasKey k ∧ ¬use.Leaves
  | find _ | contains _ | modify _ _ | emplace _ _ | tryEmplaceWith _ _ _ => False

theorem EntryUse.withMake_exec (use : EntryUse α) (make : Unit → Except Fault α)
    (o : Occupant α) : (use.withMake make).exec t (.occupied o) = use.exec t (.occupied o) := by
  cases use <;> rfl

/-- The use of an occupied entry changes its item, or takes it out. -/
theorem EntryUse.exec_occupied {o : Occupant α} (hitem : t.slots.item? o.index = some o.item)
    (use : EntryUse α) : KeepsRoom t (use.exec t (.occupied o)) ∧
      (use.Leaves → StaysAt t o.index (use.exec t (.occupied o))) := by
  have hhandOut : ∀ change, StaysAt t o.index (t.handOut change o) := fun change ↦
    .done (inPlace_update hitem change) _
  cases use with
  | drop => exact ⟨⟨.refl t, rfl⟩, fun _ ↦ .done (.refl t _) _⟩
  | orInsert item change | orInsertWith make change =>
    exact ⟨(hhandOut change).keepsRoom, fun _ ↦ hhandOut change⟩
  | matched vacant occupied =>
    cases occupied with
    | none => exact ⟨⟨t.sameRoom_eraseAt _, rfl⟩, False.elim⟩
    | some change => exact ⟨(hhandOut change).keepsRoom, fun _ ↦ hhandOut change⟩

/-- **An insertion for a key that is there changes at most the item of the key**, where it is, and
builds no item. -/
theorem Sound.staysPut (h : t.Sound) (hl : t.Lodged) {a : Access α κ} (ha : a.Inserts)
    (hk : t.HasKey (a.keyOf key)) :
    StaysPut t (a.keyOf key) (a.exec t) ∧ ∀ make, (a.withMake make).exec t = a.exec t := by
  cases a with
  | find | contains | modify | erase => exact ha.elim
  | emplace item change =>
    obtain ⟨o, ho, hfound⟩ := h.exists_emplace hl item hk
    refine ⟨?_, fun _ ↦ rfl⟩
    rw [Access.exec, ho]
    exact hfound.staysPut (.done (inPlace_update hfound.item change) _)
  | tryEmplaceWith k make change =>
    obtain ⟨o, ho, hfound⟩ := h.exists_entry hk
    have hexec : ∀ make, (Access.tryEmplaceWith k make change).exec t =
        t.handOutPlaced change o false := fun make ↦ by
      rw [Access.exec, tryEmplaceWith, show t.entry k = _ from ho]
      rfl
    refine ⟨?_, fun make' ↦ (hexec make').trans (hexec make).symm⟩
    rw [hexec]
    exact hfound.staysPut (.done (inPlace_update hfound.item change) _)
  | entry k use =>
    obtain ⟨o, ho, hfound⟩ := h.exists_entry hk
    have hexec : ∀ use : EntryUse α, (Access.entry k use).exec t = use.exec t (.occupied o) :=
      fun use ↦ by
        rw [Access.exec, show t.entry k = _ from ho]
        rfl
    refine ⟨?_, fun make ↦ ?_⟩
    · rw [hexec]
      exact hfound.staysPut ((use.exec_occupied hfound.item).2 ha)
    · rw [Access.withMake, hexec, hexec, use.withMake_exec]

/-- **A call that takes an item out keeps the slots.** -/
theorem Sound.keepsRoom (h : t.Sound) {a : Access α κ} (ha : a.TakesOut t) :
    KeepsRoom t (a.exec t) := by
  cases a with
  | find | contains | modify | emplace | tryEmplaceWith => exact ha.elim
  | erase k => exact ⟨t.sameRoom_erase k, rfl⟩
  | entry k use =>
    obtain ⟨o, ho, hfound⟩ := h.exists_entry ha.1
    rw [Access.exec, ho]
    exact (use.exec_occupied hfound.item).1

/-! ### Calls on a whole table -/

/-- **A retention changes nothing but items**, also when a visit fails. -/
theorem sameShell_retainFrom (visit : σ → α → Visit σ α) (t : Table key) (index : Nat)
    (state : σ) : SameShell t (retainFrom visit t index state).1 := by
  fun_induction retainFrom visit t index state with
  | case1 t index state hcond hitem ih => exact ih
  | case2 | case5 => exact ⟨⟨rfl, rfl⟩, rfl, rfl⟩
  | case3 t index state hcond item hitem v updated hv ih =>
    have hupdated : SameShell t updated := ⟨⟨rfl, rfl⟩, rfl, rfl⟩
    exact hupdated.trans ih
  | case4 t index state hcond item hitem v updated hv ih =>
    have hupdated : SameShell t updated := ⟨⟨rfl, rfl⟩, rfl, rfl⟩
    exact hupdated.trans ((updated.sameShell_eraseAt index).trans ih)

theorem sameShell_retain (t : Table key) (visit : σ → α → Visit σ α) (state : σ) :
    SameShell t (t.retain visit state).1 :=
  sameShell_retainFrom visit t 0 state

theorem sameRoom_retain (t : Table key) (visit : σ → α → Visit σ α) (state : σ) :
    SameRoom t (t.retain visit state).1 :=
  (t.sameShell_retain visit state).toSameRoom

theorem sameRoom_clear (t : Table key) : SameRoom t t.clear :=
  ⟨t.capacity_clear, t.maxLoad_clear⟩

/-- **A draining walk keeps the slots** at every step. -/
theorem sameRoom_drain_take (n : Nat) (d : Drain key) :
    SameRoom d.table (Drain.take n d).2.table := by
  induction n generalizing d with
  | zero => exact .refl _
  | succ n ih =>
    have hnext : SameRoom d.table d.next.2.table := by
      rw [Drain.next]
      split
      · exact .refl _
      · split
        · exact .refl _
        · exact d.table.sameRoom_eraseAt _
    rw [Drain.take]
    split
    · next d' heq =>
      rw [heq] at hnext
      exact hnext
    · next item d' heq =>
      rw [heq] at hnext
      exact hnext.trans (ih d')

theorem sameRoom_drain_finish (d : Drain key) : SameRoom d.table d.finish :=
  (sameRoom_drain_take d.table.size d).trans ⟨rfl, rfl⟩

/-- A call on the whole table takes items out. -/
def Upkeep.TakesOut : Upkeep → Prop
  | clear | drain _ _ => True
  | reserve _ | tryReserve _ | rehash _ | shrinkToFit | setMaxLoadFactor _ | iter _ => False

/-- **A call that takes out what a table has keeps the slots.** -/
theorem Upkeep.TakesOut.keepsRoom {u : Upkeep} (hu : u.TakesOut) (t : Table key) :
    KeepsRoom t (u.exec t) := by
  cases u with
  | reserve | tryReserve | rehash | shrinkToFit | setMaxLoadFactor | iter => exact hu.elim
  | clear => exact ⟨t.sameRoom_clear, rfl⟩
  | drain n leak =>
    have htake := sameRoom_drain_take n (Drain.start t)
    cases leak with
    | true => exact ⟨htake, rfl⟩
    | false => exact ⟨htake.trans (sameRoom_drain_finish _), rfl⟩

end ProbeWindow.Table
