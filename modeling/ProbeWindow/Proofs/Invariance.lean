import ProbeWindow.Proofs.GrowthPolicy
import ProbeWindow.Proofs.Map.Refinement
import ProbeWindow.Proofs.Set.Refinement
import ProbeWindow.Proofs.Table.Bank
import ProbeWindow.Proofs.Table.Calls

/-!
# The invariant along runs

Tables, maps and sets stay intact along a run of a bank of them: whatever is called, cloned and
swapped, and also when calls end with a fault. What is asked of the user is that no item gets another
hash while it is in a table. For tables this is about the changes that a user makes to items that
are handed out; for all three it is about copies.

There is one exception. Clearing empties slot after slot and moves nothing, so when it ends at an item
that cannot be destroyed, there may be a hole between an item that is left and its home. The table is
**torn** then (`Table.TornBy`): the item is counted, but cannot be found. This is the only way in which
a run can lead to a table that is not intact (`intact_run_iff`). The other calls that destroy items,
retentions and drains, close the gap of an item before they destroy it; where a destructor stops
them, a retention whose next visit fails and a leaked drain stop as well.
-/

namespace ProbeWindow

universe u v w x

open Table

/-- **What holds of every table along a run**: it is sound, it has no slots or at least
`minCapacity` homes, and the number of homes is a power of two when the policy is `powerOfTwo`, or
one that restricts it. -/
structure Table.Intact {α : Type u} {κ : Type v} [BEq κ] {key : α → κ} (t : Table key) : Prop where
  /-- The table is sound. -/
  sound : t.Sound
  /-- The capacity is zero, or not below the smallest one. -/
  capacity_cases : t.capacity = 0 ∨ minCapacity ≤ t.capacity
  /-- The capacity is zero, or a power of two, when the policy asks for one. -/
  isPowerOfTwo : t.setup.policy.Restricts .powerOfTwo →
    t.capacity = 0 ∨ t.capacity.isPowerOfTwo

theorem Table.Sound.intact {α : Type u} {κ : Type v} [BEq κ] {key : α → κ} {t : Table key}
    (h : t.Sound) : t.Intact := by
  rcases h with hb | hf
  · exact ⟨.inl hb, .inl hb.capacity_eq, fun _ ↦ .inl hb.capacity_eq⟩
  · obtain ⟨size, hsize⟩ := hf.offered
    exact ⟨.inr hf, .inr (t.setup.policy.le_of_capacityFor hsize).2,
      fun hpolicy ↦ .inr (hpolicy.isPowerOfTwo hsize)⟩

namespace Bank

variable {α : Type u} {κ : Type v} {γ : Type w} [BEq κ] {key : α → κ}
  {next : Table key → γ → Table key} {keeps : Table key → γ → Prop}

/-- **When calls keep tables sound, all tables of a run are intact.** -/
theorem intact_run (hcall : ∀ t c, t.Sound → keeps t c → (next t c).Sound)
    {setups : Nat → Setup κ} {cs : List (Command γ α)}
    (hcs : Admits next keeps SameHash (fresh key setups) cs) (r : Nat) :
    (run next (fresh key setups) cs r).Intact :=
  (run_preserves hcall (fun _ _ _ ht hcopy hkeep ↦ (ht.copyWith hcopy hkeep).1) hcs
    (fun r ↦ sound_empty (setups r)) r).intact

/-- **When calls keep tables sound and their setups, what all setups are like at the start they are
like along the run.** -/
theorem kept_run
    (hcall : ∀ t c, t.Sound → keeps t c → (next t c).Sound ∧ (next t c).setup = t.setup)
    {setups : Nat → Setup κ} {P : Setup κ → Prop} (hsetups : ∀ r, P (setups r))
    {cs : List (Command γ α)} (hcs : Admits next keeps SameHash (fresh key setups) cs) (r : Nat) :
    (run next (fresh key setups) cs r).Sound ∧ P (run next (fresh key setups) cs r).setup := by
  refine run_preserves (P := fun t ↦ t.Sound ∧ P t.setup) (fun t c ht hc ↦ ?_)
    (fun t t' copy ht hcopy hkeep ↦ ?_) hcs (fun r ↦ ⟨sound_empty (setups r), hsetups r⟩) r
  · obtain ⟨hsound, hsetup⟩ := hcall t c ht.1 hc
    exact ⟨hsound, hsetup ▸ ht.2⟩
  · obtain ⟨hsound, hsetup, -⟩ := ht.1.copyWith hcopy hkeep
    exact ⟨hsound, hsetup ▸ ht.2⟩

end Bank

variable {α : Type u} {κ : Type v} {ν : Type x} {σ : Type w} [BEq κ]

section Sound

variable {setups : Nat → Setup κ}

/-- Tables stay sound along a run, when changes and copies keep hashes. -/
theorem Table.sound_run {key : α → κ} {cs : List (Bank.Command (Table.Call σ α κ) α)}
    (hcs : Bank.Admits Table.Call.next (fun t c ↦ c.Keeps t.SameHash t) SameHash
      (Bank.fresh key setups) cs) (r : Nat) :
    (Bank.run Table.Call.next (Bank.fresh key setups) cs r).Sound :=
  (Bank.intact_run (fun _ c ht hkeep ↦ (ht.next c hkeep).1) hcs r).sound

/-- Maps stay sound along a run, when copies keep hashes. -/
theorem HashMap.sound_run {cs : List (Bank.Command (HashMap.Call σ κ ν) (κ × ν))}
    (hcs : Bank.Admits HashMap.Call.next (fun _ _ ↦ True) SameHash
      (Bank.fresh Prod.fst setups) cs) (r : Nat) :
    (Bank.run HashMap.Call.next (Bank.fresh Prod.fst setups) cs r).Sound :=
  (Bank.intact_run (fun _ c hm _ ↦ (hm.fulfils_map c).sound) hcs r).sound

/-- Sets stay sound along a run, when copies keep hashes. -/
theorem HashSet.sound_run {cs : List (Bank.Command (HashSet.Call σ κ) κ)}
    (hcs : Bank.Admits HashSet.Call.next (fun _ _ ↦ True) SameHash (Bank.fresh id setups) cs)
    (r : Nat) : (Bank.run HashSet.Call.next (Bank.fresh id setups) cs r).Sound :=
  (Bank.intact_run (fun _ c hs _ ↦ (hs.fulfils_set c).sound) hcs r).sound

end Sound

/-! ### Clearing that is cut short -/

namespace Table

variable {key : α → κ} {t : Table key} {destroy : α → Except Fault Unit}

/-- Clearing the table ends at an item that cannot be destroyed, and behind it there is an item on
whose way from its home slots have been emptied. -/
def TornBy (t : Table key) (destroy : α → Except Fault Unit) : Prop :=
  ∃ index fault, t.CutAt destroy index fault ∧
    ∃ i a, index < i ∧ t.slots.item? i = some a ∧ t.home (t.setup.hash (key a)) ≤ index

/-- Where all items can be destroyed, no table is torn. -/
theorem not_tornBy_ok : ¬t.TornBy fun _ ↦ .ok () := by
  rintro ⟨index, fault, hcut, -⟩
  obtain ⟨a, -, hfault⟩ := hcut.item
  cases hfault

/-- There is only one place at which clearing can end. -/
theorem CutAt.index_eq {i j : Nat} {fault fault' : Fault} (hi : t.CutAt destroy i fault)
    (hj : t.CutAt destroy j fault') : i = j := by
  obtain ⟨a, ha, hafault⟩ := hi.item
  obtain ⟨b, hb, hbfault⟩ := hj.item
  rcases Nat.lt_trichotomy i j with hlt | heq | hgt
  · cases hafault.symm.trans (hj.before i a hlt ha)
  · exact heq
  · cases hbfault.symm.trans (hi.before j b hgt hb)

/-- The items behind a slot make a sound table by themselves if and only if their homes are behind it
as well. -/
theorem Furnished.sound_emptiedTo_iff (h : t.Furnished) {stop : Nat}
    (hstop : stop ≤ t.slots.slotCount) :
    (t.emptiedTo stop).Sound ↔ ∀ i a, stop ≤ i → t.slots.item? i = some a →
      stop ≤ t.home (t.setup.hash (key a)) := by
  have hcapacity : (t.emptiedTo stop).capacity = t.capacity := SlotArray.capacity_emptied ..
  have horders : t.setup.Orders key (t.slots.emptied stop) ↔ ∀ i a, stop ≤ i →
      t.slots.item? i = some a → stop ≤ t.home (t.setup.hash (key a)) := by
    rw [Setup.Orders, SlotArray.capacity_emptied]
    exact h.ordered.ordered_emptied_iff hstop
  rw [← horders]
  constructor
  · intro hsound
    exact (hsound.furnished (hcapacity ▸ h.offered.pos)).ordered
  · intro hordered
    have hlist : (t.emptiedTo stop).toList = t.slots.segment stop t.slots.slotCount :=
      SlotArray.toList_emptied ..
    have hsize : (t.emptiedTo stop).size ≤ t.size := by
      rw [h.size_eq_length, toList, t.slots.toList_cut stop, List.length_append]
      exact Nat.le_add_left ..
    refine .inr (furnished_of_length hordered ?_ ?_ ?_ ?_)
    · rw [hcapacity]
      exact h.offered
    · rw [hlist]
      rfl
    · exact hcapacity ▸ Nat.le_trans hsize h.size_le
    · exact hcapacity ▸ h.slots_lt

/-- **Clearing leaves a sound table if and only if it does not tear it.** -/
theorem Sound.sound_clearWith_iff (h : t.Sound) (destroy : α → Except Fault Unit) :
    (t.clearWith destroy).state.Sound ↔ ¬t.TornBy destroy := by
  rcases h with h | h
  · rw [clearWith_of_capacity_eq_zero h.capacity_eq]
    refine iff_of_true (.inl ⟨h.slots_eq, h.size_eq⟩) ?_
    rintro ⟨index, fault, hcut, -⟩
    obtain ⟨a, ha, -⟩ := hcut.item
    cases (h.item?_eq index).symm.trans ha
  · rcases clearWith_cases h.ordered.formed h.offered.pos h.size_eq_length destroy with
      ⟨hall, heq⟩ | ⟨index, fault, hcut, heq⟩
    · have hclear : (t.clearWith destroy).state = t.clear := by
        rw [heq, h.clear_eq]
        rfl
      rw [hclear]
      refine iff_of_true (Sound.clear (.inr h)) ?_
      rintro ⟨index, fault, hcut, -⟩
      obtain ⟨a, ha, hfault⟩ := hcut.item
      cases (hall a ((t.slots.mem_toList).mpr ⟨index, ha⟩)).symm.trans hfault
    · obtain ⟨a, ha, -⟩ := hcut.item
      rw [heq, Outcome.state_fail, h.sound_emptiedTo_iff (t.slots.lt_slotCount_of_item? ha)]
      constructor
      · rintro hhomes ⟨index', fault', hcut', i, b, hi, hb, hhome⟩
        rw [← hcut.index_eq hcut'] at hi hhome
        exact Nat.not_lt_of_le hhome (hhomes i b hi hb)
      · intro hnot i b hi hb
        by_contra hhome
        exact hnot ⟨index, fault, hcut, i, b, hi, hb, Nat.le_of_not_lt hhome⟩

end Table

/-- The calls of some kind, and the clearing of a table with a destructor that may fail. -/
inductive WithClear (γ : Type w) (α : Type u) where
  /-- A call. -/
  | call (c : γ)
  /-- All items are taken out and destroyed. -/
  | clear (destroy : α → Except Fault Unit)

namespace WithClear

variable {γ : Type w} {key : α → κ}

/-- The table as a call or the clearing leaves it, also when it ends with a fault. -/
def next (next : Table key → γ → Table key) (t : Table key) : WithClear γ α → Table key
  | call c => next t c
  | clear destroy => (t.clearWith destroy).state

/-- What is asked of the user for calls; nothing is asked for clearing. -/
def Keeps (keeps : Table key → γ → Prop) (t : Table key) : WithClear γ α → Prop
  | call c => keeps t c
  | clear _ => True

end WithClear

namespace Bank

variable {γ : Type w} {key : α → κ} {next : Table key → γ → Table key}
  {keeps : Table key → γ → Prop}

/-- A command clears a table and tears it. -/
def Command.Tears (bank : Bank key) : Command (WithClear γ α) α → Prop
  | .call r (.clear destroy) => (bank r).TornBy destroy
  | _ => False

/-- No command of a list tears a table when its turn comes. -/
def NeverTears (next : Table key → γ → Table key) (bank : Bank key)
    (cs : List (Command (WithClear γ α) α)) : Prop :=
  ∀ (n : Nat) (c : Command (WithClear γ α) α), cs[n]? = some c →
    ¬c.Tears (run (WithClear.next next) bank (cs.take n))

/-- **A command keeps all tables of a bank sound unless it tears one.** -/
theorem sound_exec_iff (hcall : ∀ t c, t.Sound → keeps t c → (next t c).Sound) {bank : Bank key}
    {c : Command (WithClear γ α) α} (hbank : ∀ r, (bank r).Sound)
    (hc : Keeps (WithClear.Keeps keeps) SameHash bank c) :
    (∀ r, (exec (WithClear.next next) bank c r).Sound) ↔ ¬c.Tears bank := by
  cases c with
  | call r c =>
    refine (forall_update_iff hbank r _).trans ?_
    cases c with
    | call c => exact iff_of_true (hcall _ c (hbank r) hc) not_false
    | clear destroy => exact (hbank r).sound_clearWith_iff destroy
  | clone source target copy =>
    refine iff_of_true ?_ not_false
    cases ht : (bank source).copyWith copy with
    | error fault => simpa only [exec, ht] using hbank
    | ok t =>
      simp only [exec, ht]
      exact (forall_update_iff hbank target t).mpr ((hbank source).copyWith ht hc).1
  | swap r s => exact iff_of_true (fun _ ↦ hbank _) not_false

/-- **When calls keep tables sound, all tables of a run are intact if and only if no command tears
one.** -/
theorem forall_intact_run_iff (hcall : ∀ t c, t.Sound → keeps t c → (next t c).Sound)
    {setups : Nat → Setup κ} {cs : List (Command (WithClear γ α) α)}
    (hcs : Admits (WithClear.next next) (WithClear.Keeps keeps) SameHash (fresh key setups) cs) :
    (∀ n r, (run (WithClear.next next) (fresh key setups) (cs.take n) r).Intact) ↔
      NeverTears next (fresh key setups) cs := by
  rw [NeverTears, ← forall_run_take_iff (S := fun _ ↦ True) (D := fun bank ↦ ∀ r, (bank r).Sound)
    (fun _ _ _ _ ↦ trivial) (fun _ _ _ hbank hc ↦ sound_exec_iff hcall hbank hc) hcs trivial
    fun r ↦ sound_empty (setups r)]
  exact forall₂_congr fun n r ↦ ⟨fun h ↦ h.sound, fun h ↦ h.intact⟩

end Bank

/-- **Tables, maps and sets stay intact along a run, in which no item gets another hash, if and only if
no clearing of the run tears its table.** Whatever else is called, cloned and swapped leaves them
intact, also when it ends with a fault. -/
theorem intact_run_iff (setups : Nat → Setup κ) :
    (∀ (key : α → κ) (cs : List (Bank.Command (WithClear (Table.Call σ α κ) α) α)),
      Bank.Admits (WithClear.next Table.Call.next)
          (WithClear.Keeps fun t c ↦ c.Keeps t.SameHash t) SameHash (Bank.fresh key setups) cs →
        ((∀ n r, (Bank.run (WithClear.next Table.Call.next) (Bank.fresh key setups) (cs.take n)
            r).Intact) ↔ Bank.NeverTears Table.Call.next (Bank.fresh key setups) cs)) ∧
    (∀ cs : List (Bank.Command (WithClear (HashMap.Call σ κ ν) (κ × ν)) (κ × ν)),
      Bank.Admits (WithClear.next HashMap.Call.next) (WithClear.Keeps fun _ _ ↦ True) SameHash
          (Bank.fresh Prod.fst setups) cs →
        ((∀ n r, (Bank.run (WithClear.next HashMap.Call.next) (Bank.fresh Prod.fst setups)
            (cs.take n) r).Intact) ↔
          Bank.NeverTears HashMap.Call.next (Bank.fresh Prod.fst setups) cs)) ∧
    ∀ cs : List (Bank.Command (WithClear (HashSet.Call σ κ) κ) κ),
      Bank.Admits (WithClear.next HashSet.Call.next) (WithClear.Keeps fun _ _ ↦ True) SameHash
          (Bank.fresh id setups) cs →
        ((∀ n r, (Bank.run (WithClear.next HashSet.Call.next) (Bank.fresh id setups) (cs.take n)
            r).Intact) ↔ Bank.NeverTears HashSet.Call.next (Bank.fresh id setups) cs) := by
  refine ⟨fun key cs hcs ↦ ?_, fun cs hcs ↦ ?_, fun cs hcs ↦ ?_⟩
  · exact Bank.forall_intact_run_iff (fun t c ht hkeep ↦ (ht.next c hkeep).1) hcs
  · exact Bank.forall_intact_run_iff (fun m c hm _ ↦ (hm.fulfils_map c).sound) hcs
  · exact Bank.forall_intact_run_iff (fun s c hs _ ↦ (hs.fulfils_set c).sound) hcs

namespace Bank

/-- Two colliding items are inserted, and then the table is cleared, but the first of them cannot be
destroyed. -/
def tearing : List (Command (WithClear (Table.Call Unit UInt64 UInt64) UInt64) UInt64) :=
  [.call 0 (.call (.access (.emplace 1 id))), .call 0 (.call (.access (.emplace 2 id))),
    .call 0 (.clear fun a ↦ if a = 1 then .error (.raised "not destroyed") else .ok ())]

/-- Two colliding keys are inserted into a map, which is cloned, and the clone is cleared. -/
def clearingMap :
    List (Command (WithClear (HashMap.Call Unit UInt64 Nat) (UInt64 × Nat)) (UInt64 × Nat)) :=
  [.call 0 (.call (.extend [(1, 10), (2, 20), (1, 30)] 3)), .clone 0 1 .ok,
    .call 1 (.clear fun _ ↦ .ok ())]

/-- A call on a set ends with a fault, and the set is cleared. -/
def clearingSet : List (Command (WithClear (HashSet.Call Unit UInt64) UInt64) UInt64) :=
  [.call 0 (.call (.insertMany [1, 2, 1] 3)),
    .call 0 (.call (.access (.getOrInsertWith 3 fun _ ↦ .ok 4))), .call 0 (.clear fun _ ↦ .ok ())]

theorem admits_tearing :
    Admits (WithClear.next Table.Call.next) (WithClear.Keeps fun t c ↦ c.Keeps t.SameHash t)
      SameHash (fresh id fun _ ↦ .colliding UInt64) tearing :=
  ⟨rfl, rfl, trivial, trivial⟩

theorem admits_clearingMap :
    Admits (WithClear.next HashMap.Call.next) (WithClear.Keeps fun _ _ ↦ True) SameHash
      (fresh Prod.fst fun _ ↦ .colliding UInt64) clearingMap := by
  refine ⟨trivial, fun a _ b hb ↦ ?_, trivial, trivial⟩
  cases hb
  rfl

theorem admits_clearingSet :
    Admits (WithClear.next HashSet.Call.next) (WithClear.Keeps fun _ _ ↦ True) SameHash
      (fresh id fun _ ↦ .colliding UInt64) clearingSet :=
  ⟨trivial, trivial, trivial, trivial⟩

end Bank

open Bank in
/-- The clearing that ends at the first of two colliding items tears the table. Those at whose end
nothing is left do not. -/
theorem intact_run_iff_colliding :
    (¬∀ n r, (run (WithClear.next Table.Call.next) (fresh id fun _ ↦ .colliding UInt64)
      (tearing.take n) r).Intact) ∧
    (∀ n r, (run (WithClear.next HashMap.Call.next) (fresh Prod.fst fun _ ↦ .colliding UInt64)
      (clearingMap.take n) r).Intact) ∧
    ∀ n r, (run (WithClear.next HashSet.Call.next) (fresh id fun _ ↦ .colliding UInt64)
      (clearingSet.take n) r).Intact := by
  obtain ⟨htables, hmaps, hsets⟩ := intact_run_iff (α := UInt64) (ν := Nat) (σ := Unit)
    (fun _ ↦ .colliding UInt64)
  refine ⟨?_, ?_, ?_⟩
  · rw [htables id _ admits_tearing]
    intro h
    refine h 2 _ rfl ⟨0, .raised "not destroyed", ⟨⟨1, by decide +kernel, rfl⟩, nofun⟩, 1, 2, ?_⟩
    decide +kernel
  · refine (hmaps _ admits_clearingMap).mpr fun n c hc ↦ ?_
    rcases n with _ | _ | _ | n <;> cases hc
    exacts [id, id, not_tornBy_ok]
  · refine (hsets _ admits_clearingSet).mpr fun n c hc ↦ ?_
    rcases n with _ | _ | _ | n <;> cases hc
    exacts [id, id, not_tornBy_ok]

open Bank in
/-- **Not every run keeps tables intact.** The item that is left cannot be found. -/
theorem not_forall_intact_run :
    ¬∀ cs : List (Command (WithClear (Table.Call Unit UInt64 UInt64) UInt64) UInt64),
      Admits (WithClear.next Table.Call.next) (WithClear.Keeps fun t c ↦ c.Keeps t.SameHash t)
          SameHash (fresh id fun _ ↦ .colliding UInt64) cs →
        ∀ r, (run (WithClear.next Table.Call.next) (fresh id fun _ ↦ .colliding UInt64)
          cs r).Intact := by
  intro h
  have hsound := (h tearing admits_tearing 0).sound
  obtain ⟨hlist, hfind⟩ : (run (WithClear.next Table.Call.next)
        (fresh id fun _ ↦ .colliding UInt64) tearing 0).toList = [2] ∧
      (run (WithClear.next Table.Call.next) (fresh id fun _ ↦ .colliding UInt64)
        tearing 0).find? 2 = none := by decide +kernel
  rw [hsound.find?_eq, hlist] at hfind
  cases hfind

end ProbeWindow
