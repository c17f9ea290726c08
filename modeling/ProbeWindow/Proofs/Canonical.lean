import ProbeWindow.Proofs.Distinctness
import ProbeWindow.Proofs.Invariance
import ProbeWindow.Proofs.Multiplicity
import ProbeWindow.Proofs.SlotArray.Packing
import ProbeWindow.Table.Statistics

/-!
# The layout is canonical

Two tables of one policy, one hash function and one capacity in which every key is equally often
have the same layout, whatever led to them: the homes are a function of the keys, and the layout is
one of the homes. Maps and sets hold every key once at most, so there it is enough to hold the same
keys. A table may hold a key more than once, and then it is not.
-/

namespace ProbeWindow

universe u v w x

open Contents

namespace SlotArray

variable {α : Type u} {s s' : SlotArray α}

/-- The recorded offsets, read slot by slot. -/
theorem offsets_eq_filterMap (h : s.slotCount ≤ s.tags.size) :
    s.offsets = (List.range s.slotCount).filterMap fun i ↦
      if s.isOccupied i then some (s.tag i).offset else none := by
  have htags : s.tags.toList.take s.slotCount = (List.range s.slotCount).map s.tag := by
    refine List.ext_getElem (by simpa using h) fun i hi hi' ↦ ?_
    have hlt : i < s.tags.size := by
      rw [List.length_take, Array.length_toList] at hi
      omega
    rw [List.getElem_take, List.getElem_map, List.getElem_range, Array.getElem_toList, tag,
      Array.getD, dif_pos hlt]
    rfl
  rw [offsets, htags, List.filterMap_map]
  rfl

/-- One layout has one list of recorded offsets. -/
theorem SameLayout.offsets_eq {home : α → Nat} (h : SameLayout home s s')
    (hs : s.slotCount ≤ s.tags.size) (hs' : s'.slotCount ≤ s'.tags.size) :
    s'.offsets = s.offsets := by
  rw [offsets_eq_filterMap hs, offsets_eq_filterMap hs', h.slotCount_eq]
  refine List.filterMap_congr fun i hi ↦ ?_
  have hlt := List.mem_range.mp hi
  rw [h.isOccupied_eq i hlt, h.offset_eq i hlt]

end SlotArray

variable {α : Type u} {κ : Type v} {ν : Type x} {σ : Type w} [BEq κ]

namespace Table

variable {key : α → κ} {t t' : Table key}

/-- Two tables are of one policy, one hash function and one capacity. -/
structure Alike (t t' : Table key) : Prop where
  /-- The policy is the same. -/
  policy_eq : t'.setup.policy = t.setup.policy
  /-- The hash function is the same. -/
  hasher_eq : t'.setup.hasher = t.setup.hasher
  /-- The capacity is the same. -/
  capacity_eq : t'.capacity = t.capacity

/-- **Two tables have the same layout**: the same slots are occupied, by items of the same homes,
with the same recorded offsets, and so items are equally far from their homes. -/
structure SameLayout (t t' : Table key) : Prop where
  /-- The slots are laid out alike. -/
  slots : t.slots.SameLayout (fun a ↦ t.home (t.setup.hash (key a))) t'.slots
  /-- The distances are the same. -/
  probeHistogram_eq : t'.probeHistogram = t.probeHistogram

/-- Slots in order for one of two such tables are in order for the other. -/
theorem Alike.ordered (h : Alike t t') (hord : t'.setup.Orders key t'.slots) :
    t'.slots.Ordered (fun a ↦ t.setup.hash (key a)) t.home := by
  have hhash : (fun a ↦ t'.setup.hash (key a)) = fun a ↦ t.setup.hash (key a) := by
    funext a
    rw [Setup.hash, Setup.hash, h.hasher_eq]
  have hindex : (fun hash ↦ t'.setup.policy.index hash t'.slots.capacity) = t.home := by
    funext hash
    rw [home, h.policy_eq, ← h.capacity_eq, capacity]
  rwa [Setup.Orders, hhash, hindex] at hord

theorem Furnished.slotCount_le (h : t.Furnished) : t.slots.slotCount ≤ t.slots.tags.size := by
  rw [h.ordered.tagCount_eq]
  exact Nat.le_add_right _ _

/-- **Tables of one capacity in which every key is equally often have the same layout.** -/
theorem Sound.sameLayout [EquivBEq κ] (h : t.Sound) (h' : t'.Sound) (halike : Alike t t')
    (hkeys : ∀ k, multiplicity key t'.toList k = multiplicity key t.toList k) :
    SameLayout t t' := by
  rcases h with hbare | hfur
  · have hbare' : t'.Bare := h'.resolve_right fun hfur' ↦
      Nat.ne_of_gt hfur'.offered.pos (halike.capacity_eq.trans hbare.capacity_eq)
    have hslots : t'.slots = t.slots := hbare'.slots_eq.trans hbare.slots_eq.symm
    exact ⟨⟨by rw [hslots], fun _ _ ↦ by rw [hslots], fun _ _ ↦ by rw [hslots],
      fun _ ↦ by rw [hslots]⟩, by rw [probeHistogram, probeHistogram, hslots]⟩
  · have hfur' := h'.furnished (halike.capacity_eq ▸ hfur.offered.pos)
    -- equal keys have one home, so the homes come equally often in both tables
    have hhome : ∀ j k, (j == k) = true →
        t.home (t.setup.hash j) = t.home (t.setup.hash k) := fun j k hjk ↦
      congrArg t.home (t.setup.hash_congr hjk)
    have hhomes := perm_map_of_multiplicity hkeys hhome
    have hlayout := hfur.ordered.sameLayout (halike.ordered hfur'.ordered) halike.capacity_eq hhomes
    refine ⟨hlayout, ?_⟩
    rw [probeHistogram, probeHistogram,
      hlayout.offsets_eq hfur.slotCount_le hfur'.slotCount_le]

/-- Tables with the same keys, in some order, hold the same keys. -/
theorem Sound.contains_eq_of_perm (h : t.Sound) (h' : t'.Sound)
    (hkeys : (t'.toList.map key).Perm (t.toList.map key)) (k : κ) :
    t'.contains k = t.contains k := by
  have hany : ∀ l : List α, (lookup key l k).isSome = (l.map key).any (· == k) := fun l ↦ by
    rw [lookup, List.isSome_find?, List.any_map]
    rfl
  rw [h.contains_eq, h'.contains_eq, hany, hany, hkeys.any_eq]

/-- **Tables with distinct keys have the same layout when they hold the same keys.** -/
theorem Proper.sameLayout [EquivBEq κ] (h : t.Proper) (h' : t'.Proper) (halike : Alike t t')
    (hkeys : ∀ k, t'.contains k = t.contains k) : SameLayout t t' := by
  refine h.sound.sameLayout h'.sound halike fun k ↦ ?_
  rw [h.distinct.multiplicity_eq, h'.distinct.multiplicity_eq, ← h.sound.countPresent_singleton,
    ← h'.sound.countPresent_singleton, countPresent, countPresent, List.countP_singleton,
    List.countP_singleton, hkeys]

end Table

/-- **The layout is canonical**: what two runs lead to has the same layout when it is of one
capacity, one policy and one hash function and, for tables, when every key is there equally often,
or, for maps and sets, when the same keys are there. -/
theorem sameLayout_of_run [EquivBEq κ] (setups setups' : Nat → Setup κ) (r r' : Nat) :
    (∀ (key : α → κ) (cs cs' : List (Bank.Command (Table.Call σ α κ) α)),
      Bank.Admits Table.Call.next (fun t c ↦ c.Keeps t.SameHash t) Table.SameHash
          (Bank.fresh key setups) cs →
        Bank.Admits Table.Call.next (fun t c ↦ c.Keeps t.SameHash t) Table.SameHash
            (Bank.fresh key setups') cs' →
          let t := Bank.run Table.Call.next (Bank.fresh key setups) cs r
          let t' := Bank.run Table.Call.next (Bank.fresh key setups') cs' r'
          t.Alike t' → (∀ k, multiplicity key t'.toList k = multiplicity key t.toList k) →
            t.SameLayout t') ∧
    (∀ cs cs' : List (Bank.Command (HashMap.Call σ κ ν) (κ × ν)),
      Bank.Admits HashMap.Call.next (fun _ _ ↦ True) (fun _ ↦ Table.SameKey Prod.fst)
          (Bank.fresh Prod.fst setups) cs →
        Bank.Admits HashMap.Call.next (fun _ _ ↦ True) (fun _ ↦ Table.SameKey Prod.fst)
            (Bank.fresh Prod.fst setups') cs' →
          let m := Bank.run HashMap.Call.next (Bank.fresh Prod.fst setups) cs r
          let m' := Bank.run HashMap.Call.next (Bank.fresh Prod.fst setups') cs' r'
          m.Alike m' → (∀ k, m'.contains k = m.contains k) → m.SameLayout m') ∧
    ∀ cs cs' : List (Bank.Command (HashSet.Call σ κ) κ),
      Bank.Admits HashSet.Call.next (fun _ _ ↦ True) (fun _ ↦ Table.SameKey id)
          (Bank.fresh id setups) cs →
        Bank.Admits HashSet.Call.next (fun _ _ ↦ True) (fun _ ↦ Table.SameKey id)
            (Bank.fresh id setups') cs' →
          let s := Bank.run HashSet.Call.next (Bank.fresh id setups) cs r
          let s' := Bank.run HashSet.Call.next (Bank.fresh id setups') cs' r'
          s.Alike s' → (∀ k, s'.contains k = s.contains k) → s.SameLayout s' := by
  refine ⟨?_, ?_, ?_⟩
  · intro key cs cs' hcs hcs' t t' halike hkeys
    exact (Table.sound_run hcs r).sameLayout (Table.sound_run hcs' r') halike hkeys
  · intro cs cs' hcs hcs' m m' halike hkeys
    exact (HashMap.proper_run hcs r).sameLayout (HashMap.proper_run hcs' r') halike hkeys
  · intro cs cs' hcs hcs' s s' halike hkeys
    exact (HashSet.proper_run hcs r).sameLayout (HashSet.proper_run hcs' r') halike hkeys

namespace Bank

/-- Three items of one home are inserted, and the first one is removed. -/
def tableOneWay : List (Command (Table.Call Unit UInt64 UInt64) UInt64) :=
  [.call 0 (.access (.emplace 1 id)), .call 0 (.access (.emplace 2 id)),
    .call 0 (.access (.emplace 3 id)), .call 0 (.access (.erase 1))]

/-- The two that are left are inserted in another order. -/
def tableOtherWay : List (Command (Table.Call Unit UInt64 UInt64) UInt64) :=
  [.call 0 (.access (.emplace 3 id)), .call 0 (.access (.emplace 2 id))]

/-- The same with a map. -/
def mapOneWay : List (Command (HashMap.Call Unit UInt64 Nat) (UInt64 × Nat)) :=
  [.call 0 (.extend [(1, 10), (2, 20), (3, 30)] 3), .call 0 (.access (.remove 1))]

/-- The same with a map, in another order. -/
def mapOtherWay : List (Command (HashMap.Call Unit UInt64 Nat) (UInt64 × Nat)) :=
  [.call 0 (.access (.insert 3 31)), .call 0 (.access (.insert 2 21))]

/-- The same with a set. -/
def setOneWay : List (Command (HashSet.Call Unit UInt64) UInt64) :=
  [.call 0 (.insertMany [1, 2, 3] 3), .call 0 (.access (.take 1))]

/-- The same with a set, in another order. -/
def setOtherWay : List (Command (HashSet.Call Unit UInt64) UInt64) :=
  [.call 0 (.access (.insert 3)), .call 0 (.access (.insert 2))]

/-- The table that a run with colliding keys leads to. -/
def collidingTable (cs : List (Command (Table.Call Unit UInt64 UInt64) UInt64)) :
    Table (id : UInt64 → UInt64) :=
  run Table.Call.next (fresh id fun _ ↦ .colliding UInt64) cs 0

/-- The map that a run with colliding keys leads to. -/
def collidingMap (cs : List (Command (HashMap.Call Unit UInt64 Nat) (UInt64 × Nat))) :
    HashMap UInt64 Nat :=
  run HashMap.Call.next (fresh Prod.fst fun _ ↦ .colliding UInt64) cs 0

/-- The set that a run with colliding keys leads to. -/
def collidingSet (cs : List (Command (HashSet.Call Unit UInt64) UInt64)) : HashSet UInt64 :=
  run HashSet.Call.next (fresh id fun _ ↦ .colliding UInt64) cs 0

/-- Commands that keep keys keep hashes. -/
theorem Admits.sameHash {key : α → κ} {bank : Bank key}
    {cs : List (Command (Table.Call σ α κ) α)}
    (h : Admits Table.Call.next (fun t c ↦ c.Keeps (Table.SameKey key) t)
      (fun _ ↦ Table.SameKey key) bank cs) :
    Admits Table.Call.next (fun t c ↦ c.Keeps t.SameHash t) Table.SameHash bank cs :=
  h.mono (fun t _ ↦ Table.Call.Keeps.mono fun _ _ ↦ t.setup.hash_congr)
    fun t _ _ ↦ t.setup.hash_congr

/-- Runs that start with one setup lead to tables of one policy and one hash function. -/
theorem alike_run {key : α → κ} {γ : Type w} {next : Table key → γ → Table key}
    {keeps : Table key → γ → Prop} {setup : Setup κ}
    (hcall : ∀ t c, t.Sound → keeps t c → (next t c).Sound ∧ (next t c).setup = t.setup)
    {cs cs' : List (Command γ α)}
    (hcs : Admits next keeps Table.SameHash (fresh key fun _ ↦ setup) cs)
    (hcs' : Admits next keeps Table.SameHash (fresh key fun _ ↦ setup) cs') {r : Nat}
    (hcapacity : (run next (fresh key fun _ ↦ setup) cs' r).capacity =
      (run next (fresh key fun _ ↦ setup) cs r).capacity) :
    (run next (fresh key fun _ ↦ setup) cs r).Alike
      (run next (fresh key fun _ ↦ setup) cs' r) := by
  have hsetup : ∀ {cs : List (Command γ α)},
      Admits next keeps Table.SameHash (fresh key fun _ ↦ setup) cs →
        (run next (fresh key fun _ ↦ setup) cs r).setup = setup := by
    intro cs hcs
    refine (run_preserves (P := fun t ↦ t.Sound ∧ t.setup = setup) ?_ ?_ hcs
      (fun r ↦ ⟨Table.sound_empty setup, rfl⟩) r).2
    · rintro t c ⟨ht, hsetup⟩ hc
      exact ⟨(hcall t c ht hc).1, (hcall t c ht hc).2.trans hsetup⟩
    · rintro t t' copy ⟨ht, hsetup⟩ hcopy hkeep
      obtain ⟨hsound, hsetup', -⟩ := ht.copyWith hcopy hkeep
      exact ⟨hsound, hsetup'.trans hsetup⟩
  exact ⟨by rw [hsetup hcs, hsetup hcs'], by rw [hsetup hcs, hsetup hcs'], hcapacity⟩

end Bank

open Bank in
/-- Two ways to the same keys: the items are in other slots, and the layout is the same. -/
theorem sameLayout_of_run_colliding :
    (collidingTable tableOneWay).SameLayout (collidingTable tableOtherWay) ∧
    (collidingMap mapOneWay).SameLayout (collidingMap mapOtherWay) ∧
    (collidingSet setOneWay).SameLayout (collidingSet setOtherWay) := by
  obtain ⟨htables, hmaps, hsets⟩ := sameLayout_of_run (α := UInt64) (ν := Nat) (σ := Unit)
    (fun _ ↦ .colliding UInt64) (fun _ ↦ .colliding UInt64) 0 0
  refine ⟨?_, ?_, ?_⟩
  · have hcs : Admits Table.Call.next (fun t c ↦ c.Keeps t.SameHash t) Table.SameHash
        (fresh id fun _ ↦ .colliding UInt64) tableOneWay := ⟨rfl, rfl, rfl, trivial, trivial⟩
    have hcs' : Admits Table.Call.next (fun t c ↦ c.Keeps t.SameHash t) Table.SameHash
        (fresh id fun _ ↦ .colliding UInt64) tableOtherWay := ⟨rfl, rfl, trivial⟩
    have hrun : (collidingTable tableOtherWay).capacity = (collidingTable tableOneWay).capacity ∧
        (collidingTable tableOtherWay).toList.Perm (collidingTable tableOneWay).toList := by
      decide +kernel
    have halike := alike_run (fun _ c ht hc ↦ ht.next c hc) hcs hcs' hrun.1
    exact htables id _ _ hcs hcs' halike fun k ↦ hrun.2.countP_eq _
  · have hcs : Admits HashMap.Call.next (fun _ _ ↦ True) Table.SameHash
        (fresh Prod.fst fun _ ↦ .colliding UInt64) mapOneWay := ⟨trivial, trivial, trivial⟩
    have hcs' : Admits HashMap.Call.next (fun _ _ ↦ True) Table.SameHash
        (fresh Prod.fst fun _ ↦ .colliding UInt64) mapOtherWay := ⟨trivial, trivial, trivial⟩
    have hrun : (collidingMap mapOtherWay).capacity = (collidingMap mapOneWay).capacity ∧
        ((collidingMap mapOtherWay).toList.map Prod.fst).Perm
          ((collidingMap mapOneWay).toList.map Prod.fst) := by decide +kernel
    have halike := alike_run (fun _ c hm _ ↦ (hm.fulfils_map c).kept) hcs hcs' hrun.1
    exact hmaps _ _ ⟨trivial, trivial, trivial⟩ ⟨trivial, trivial, trivial⟩ halike
      ((HashMap.sound_run hcs 0).contains_eq_of_perm (HashMap.sound_run hcs' 0) hrun.2)
  · have hcs : Admits HashSet.Call.next (fun _ _ ↦ True) Table.SameHash
        (fresh id fun _ ↦ .colliding UInt64) setOneWay := ⟨trivial, trivial, trivial⟩
    have hcs' : Admits HashSet.Call.next (fun _ _ ↦ True) Table.SameHash
        (fresh id fun _ ↦ .colliding UInt64) setOtherWay := ⟨trivial, trivial, trivial⟩
    have hrun : (collidingSet setOtherWay).capacity = (collidingSet setOneWay).capacity ∧
        ((collidingSet setOtherWay).toList.map id).Perm
          ((collidingSet setOneWay).toList.map id) := by decide +kernel
    have halike := alike_run (fun _ c hs _ ↦ (hs.fulfils_set c).kept) hcs hcs' hrun.1
    exact hsets _ _ ⟨trivial, trivial, trivial⟩ ⟨trivial, trivial, trivial⟩ halike
      ((HashSet.sound_run hcs 0).contains_eq_of_perm (HashSet.sound_run hcs' 0) hrun.2)

open Bank in
/-- **Tables that hold the same keys may have other layouts**: a key may be there twice. -/
theorem not_forall_sameLayout_of_contains_eq :
    ¬∀ cs cs' : List (Command (Table.Call Unit UInt64 UInt64) UInt64),
      Admits Table.Call.next (fun t c ↦ c.Keeps (Table.SameKey id) t)
          (fun _ ↦ Table.SameKey id) (fresh id fun _ ↦ .colliding UInt64) cs →
        Admits Table.Call.next (fun t c ↦ c.Keeps (Table.SameKey id) t)
            (fun _ ↦ Table.SameKey id) (fresh id fun _ ↦ .colliding UInt64) cs' →
          (collidingTable cs).Alike (collidingTable cs') →
            (∀ k, (collidingTable cs').contains k = (collidingTable cs).contains k) →
              (collidingTable cs).SameLayout (collidingTable cs') := by
  intro h
  -- the second item was put in through the entry of another key
  let once : List (Command (Table.Call Unit UInt64 UInt64) UInt64) := overfilling.take 1
  have hcs := admits_overfilling
  have honce : Admits Table.Call.next (fun t c ↦ c.Keeps (Table.SameKey id) t)
    (fun _ ↦ Table.SameKey id) (fresh id fun _ ↦ .colliding UInt64) once := ⟨rfl, trivial⟩
  have hcs' := Admits.sameHash hcs
  have honce' := Admits.sameHash honce
  have hrun : (collidingTable once).capacity = (collidingTable overfilling).capacity ∧
      (collidingTable overfilling).toList = [2, 2] ∧ (collidingTable once).toList = [2] ∧
      (collidingTable once).probeHistogram ≠ (collidingTable overfilling).probeHistogram := by
    decide +kernel
  obtain ⟨hcapacity, htwice, honly, hne⟩ := hrun
  have halike := alike_run (fun _ c ht hc ↦ ht.next c hc) hcs' honce' hcapacity
  have hkeys : ∀ k, (collidingTable once).contains k = (collidingTable overfilling).contains k := by
    intro k
    have hsound : (collidingTable overfilling).Sound := Table.sound_run hcs' 0
    have hsound' : (collidingTable once).Sound := Table.sound_run honce' 0
    rw [hsound.contains_eq, hsound'.contains_eq, htwice, honly]
    cases hk : id (2 : UInt64) == k <;> simp only [lookup, List.find?_cons, hk]
  exact hne (h overfilling once hcs honce halike hkeys).probeHistogram_eq

end ProbeWindow
