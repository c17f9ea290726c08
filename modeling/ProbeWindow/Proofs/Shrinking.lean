import ProbeWindow.Proofs.LoadFactor
import ProbeWindow.Proofs.Table.Reseating

/-!
# Shrinking takes the first capacity of the chain at which the items fit

Shrinking asks for the capacity that the load factor needs for the items, and goes on from there by
doubling until the items fit. That is all that it does (`Sound.rehash_first_fitting`): the present
capacity, at which they fit as well, plays no part in it. Two things that one would expect depend on
the chain and on the order of the items, and here is what is true of them.

* **It need not shrink.** Powers of two come to the present capacity, so with them the call does not
  grow the table. The chain of `modulo` may step over it, and then the table has more slots than
  before (`Sound.shrinks`).
* **It need not reach what it could.** The items come in the order of the old slots, which the call
  changes: they may jam in one order at a capacity at which they fit in the other. A second call
  does not grow the table, under any policy, and it may shrink it further (`Sound.reshrinks`).

That the capacity asked for is not above the present one rests on the arithmetic of load factors,
which rounds twice on both ways (`LoadFactor.exists_slotsFor?`).
-/

namespace ProbeWindow

universe u v w x

namespace Table

variable {α : Type u} {κ : Type v} [BEq κ] {key : α → κ} {t : Table key} {count : Nat}

/-! ### Where a rehash ends -/

/-- The target of a table with items is not zero. -/
theorem rehashTarget_ne_zero (h : 0 < t.size) (count : Nat) : t.rehashTarget count ≠ 0 :=
  fun hzero ↦ Nat.ne_of_gt h
    (Nat.le_zero.mp (size_le_rehashTarget (Nat.le_of_eq hzero) (by decide)))

/-- Without items nothing is needed. -/
theorem rehashTarget_zero (h : t.size = 0) : t.rehashTarget 0 = 0 := by
  rw [rehashTarget, h, LoadFactor.slotsFor?, if_pos rfl]
  rfl

/-- What a rehash that returns has done. -/
theorem rehash_ok_cases (hok : (t.rehash count).result = .ok ()) :
    (t.rehashTarget count = 0 ∧
      t.rehash count = .done { t with slots := .unallocated, rehashPending := false } ()) ∨
    t.rehashTarget count ≠ 0 ∧
      ∃ first, t.setup.policy.capacityFor (t.rehashTarget count) = .ok first ∧
        (first = t.capacity ∧ t.rehash count = .done t () ∨
          first ≠ t.capacity ∧ ∃ slots events, t.relocate first = .ok (.ok slots) ∧
            t.rehash count =
              ⟨{ t with slots := slots, rehashPending := false }, events, .ok ()⟩) := by
  rcases t.rehash_cases count with
    hbare | ⟨hne, ⟨fault, -, heq⟩ | ⟨first, hfirst, hstays | ⟨hother, heq⟩⟩⟩
  · exact .inl hbare
  · rw [heq] at hok
    cases hok
  · exact .inr ⟨hne, first, hfirst, .inl hstays⟩
  · rcases t.resizeOrFail_cases first .rehash with ⟨fault, hfail⟩ | ⟨slots, hslots, hmoved⟩
    · rw [heq, hfail] at hok
      cases hok
    · exact .inr ⟨hne, first, hfirst, .inr ⟨hother, slots, _, hslots, heq.trans hmoved⟩⟩

/-- **A rehash that returns ends at the first capacity of the chain at which the items fit.** -/
theorem Sound.rehash_first_fitting (h : t.Sound) (hne : t.rehashTarget count ≠ 0)
    (hok : (t.rehash count).result = .ok ()) :
    ∃ first n, t.setup.policy.capacityFor (t.rehashTarget count) = .ok first ∧
      t.setup.policy.chain first n = some (t.rehash count).state.capacity ∧
      t.FitsAt (t.rehash count).state.capacity ∧
      t.setup.policy.AllOfFirst first n (¬ t.FitsAt ·) := by
  rcases rehash_ok_cases hok with
    ⟨hzero, -⟩ | ⟨-, first, hfirst, ⟨rfl, heq⟩ | ⟨-, slots, events, hslots, heq⟩⟩
  · exact absurd hzero hne
  -- the items are in slots of this capacity
  · have hpos : 0 < t.capacity :=
      Nat.lt_of_lt_of_le (by decide) (t.setup.policy.le_of_capacityFor hfirst).2
    rw [heq]
    exact ⟨t.capacity, 0, hfirst, rfl, fitsAt_capacity (h.furnished hpos).ordered,
      GrowthPolicy.allOfFirst_zero⟩
  · obtain ⟨n, hn, hfits, hbefore, -⟩ := exists_chain_of_relocate hslots
    rw [heq]
    exact ⟨first, n, hfirst, hn, hfits, hbefore⟩

/-- A table that admits its items by its load factor asks for no larger capacity. -/
theorem Sound.first_le {first : Nat} (h : t.Sound) (hpos : 0 < t.size) (hsize : t.size ≤ t.maxSize)
    (hpolicy : t.setup.policy = .powerOfTwo ∨ t.setup.policy = .modulo ∧ t.capacity < 2 ^ 52)
    (hfirst : t.setup.policy.capacityFor (t.rehashTarget 0) = .ok first) : first ≤ t.capacity := by
  have hfur := h.furnished (Nat.lt_of_lt_of_le hpos h.size_le)
  obtain ⟨size, hoff⟩ := hfur.offered
  have hmin := (t.setup.policy.le_of_capacityFor hoff).2
  have hword : t.capacity < Word.bound := Nat.lt_of_le_of_lt (Nat.le_add_right _ _) hfur.slots_lt
  have htarget {slots : Nat} (hslots : t.maxLoad.slotsFor? t.size = some slots) :
      t.rehashTarget 0 = slots := by
    rw [rehashTarget, hslots, Option.getD_some, Nat.max_eq_left (Nat.zero_le _)]
  rcases hpolicy with hpolicy | ⟨hpolicy, hshort⟩
  · obtain ⟨k, hk⟩ := (GrowthPolicy.restricts_of_eq hpolicy).isPowerOfTwo hoff
    obtain ⟨slots, hle, hslots⟩ := t.maxLoad.exists_slotsFor? hsize hword (.inl ⟨k, hk⟩)
    rw [htarget hslots, hpolicy] at hfirst
    rw [hk] at hle hmin ⊢
    exact GrowthPolicy.le_two_pow_of_capacityFor hfirst (Nat.max_le.mpr ⟨hle, hmin⟩)
  · obtain ⟨slots, hle, hslots⟩ := t.maxLoad.exists_slotsFor? hsize hword (.inr hshort)
    rw [htarget hslots, hpolicy] at hfirst
    cases hfirst
    exact Nat.max_le.mpr ⟨hle, hmin⟩

/-! ### Shrinking once -/

/-- **What shrinking does to the capacity**, when there is room for the items by the load factor. -/
structure Shrinks (t t' : Table key) : Prop where
  /-- Without items the slots are given back. -/
  of_size_eq_zero : t.size = 0 → t'.capacity = 0
  /-- With items the capacity is the first one of the chain at which they fit. -/
  first_fitting : 0 < t.size → ∃ first n,
    t.setup.policy.capacityFor (t.rehashTarget 0) = .ok first ∧
      t.setup.policy.chain first n = some t'.capacity ∧ t.FitsAt t'.capacity ∧
      t.setup.policy.AllOfFirst first n (¬ t.FitsAt ·)
  /-- The capacity that is asked for is not above the present one. -/
  first_le : 0 < t.size → t.setup.policy = .powerOfTwo ∨ t.capacity < 2 ^ 52 →
    ∀ first, t.setup.policy.capacityFor (t.rehashTarget 0) = .ok first → first ≤ t.capacity
  /-- With powers of two the capacity does not grow. -/
  of_powerOfTwo : t.setup.policy = .powerOfTwo → t'.capacity ≤ t.capacity
  /-- **The capacity grows if and only if the items, in the order of the old slots, fit at none of
  the capacities of the chain that are not above the present one.** -/
  lt_iff : t.capacity < t'.capacity ↔ 0 < t.size ∧
    ∀ first, t.setup.policy.capacityFor (t.rehashTarget 0) = .ok first → ∀ n c,
      t.setup.policy.chain first n = some c → c ≤ t.capacity → ¬ t.FitsAt c

theorem shrinkToFit_of_size_eq_zero (h : t.size = 0) :
    t.shrinkToFit = .done { t with slots := .unallocated, rehashPending := false } () := by
  rw [shrinkToFit, rehash]
  exact if_pos (rehashTarget_zero h)

/-- With powers of two a shrinking that returns does not grow the table. -/
theorem Sound.capacity_shrinkToFit_le (h : t.Sound) (hpolicy : t.setup.policy = .powerOfTwo)
    (hsize : t.size ≤ t.maxSize) (hok : t.shrinkToFit.result = .ok ()) :
    t.shrinkToFit.state.capacity ≤ t.capacity := by
  rcases rehash_ok_cases hok with
    ⟨-, heq⟩ | ⟨hne, first, hfirst, ⟨-, heq⟩ | ⟨-, slots, events, hslots, heq⟩⟩ <;>
    rw [Table.shrinkToFit, heq]
  · exact Nat.zero_le _
  · exact Nat.le_refl _
  · have hpos : 0 < t.size := Nat.pos_of_ne_zero fun hzero ↦ hne (rehashTarget_zero hzero)
    have hfur := h.furnished (Nat.lt_of_lt_of_le hpos h.size_le)
    have hle := h.first_le hpos hsize (.inl hpolicy) hfirst
    exact capacity_relocate_le hfur.ordered hpolicy hfur.offered ⟨_, hfirst⟩ hle hslots

/-- **Shrinking, under the policies of the library.** -/
theorem Sound.shrinks (h : t.Sound)
    (hpolicy : t.setup.policy = .powerOfTwo ∨ t.setup.policy = .modulo)
    (hsize : t.size ≤ t.maxSize) (hok : t.shrinkToFit.result = .ok ()) :
    Shrinks t t.shrinkToFit.state where
  of_size_eq_zero hzero := by
    rw [shrinkToFit_of_size_eq_zero hzero]
    rfl
  first_fitting hpos := h.rehash_first_fitting (rehashTarget_ne_zero hpos 0) hok
  first_le hpos hcapacity first hfirst := by
    refine h.first_le hpos hsize ?_ hfirst
    rcases hpolicy with hpolicy | hpolicy
    · exact .inl hpolicy
    · refine .inr ⟨hpolicy, hcapacity.resolve_left fun hpow ↦ ?_⟩
      exact absurd (congrArg GrowthPolicy.name (hpolicy.symm.trans hpow)) (by decide)
  of_powerOfTwo hpow := h.capacity_shrinkToFit_le hpow hsize hok
  lt_iff := by
    rcases Nat.eq_zero_or_pos t.size with hzero | hpos
    · rw [shrinkToFit_of_size_eq_zero hzero]
      exact iff_of_false (Nat.not_lt_zero _) fun hgrows ↦ Nat.ne_of_gt hgrows.1 hzero
    obtain ⟨first, n, hfirst, hn, hfits, hbefore⟩ :=
      h.rehash_first_fitting (rehashTarget_ne_zero hpos 0) hok
    constructor
    · refine fun hlt ↦ ⟨hpos, fun first' hfirst' m c hc hle hfit ↦ ?_⟩
      cases hfirst.symm.trans hfirst'
      exact Nat.not_le_of_lt hlt (Nat.le_trans (hbefore.le_of_chain hn hc hfit) hle)
    · rintro ⟨-, hnone⟩
      exact Nat.lt_of_not_le fun hle ↦ hnone first hfirst n _ hn hle hfits

/-! ### Shrinking again -/

/-- **What shrinking does to a table that has just been shrunk.** -/
structure Reshrinks (t : Table key) : Prop where
  /-- The call returns. -/
  returns : t.shrinkToFit.result = .ok ()
  /-- The capacity does not grow. -/
  capacity_le : t.shrinkToFit.state.capacity ≤ t.capacity
  /-- **The capacity stays if and only if the items, in the order that they have now, fit at none of
  the capacities of the chain before it.** -/
  capacity_eq_iff : t.shrinkToFit.state.capacity = t.capacity ↔ t.size = 0 ∨ ∃ first n,
    t.setup.policy.capacityFor (t.rehashTarget 0) = .ok first ∧
      t.setup.policy.chain first n = some t.capacity ∧
      t.setup.policy.AllOfFirst first n (¬ t.FitsAt ·)
  /-- Nothing changes when the capacity is the one that is asked for. -/
  of_capacityFor : 0 < t.size → t.setup.policy.capacityFor (t.rehashTarget 0) = .ok t.capacity →
    t.shrinkToFit = .done t ()

theorem rehash_of_capacityFor (hne : t.rehashTarget count ≠ 0)
    (h : t.setup.policy.capacityFor (t.rehashTarget count) = .ok t.capacity) :
    t.rehash count = .done t () := by
  simp only [rehash, if_neg hne, h, if_true]

/-- A relocation that has moved the items can be made again from where they are now: the items fit
there, and there was a block for each attempt before. -/
theorem exists_relocate_again {first : Nat} {slots : SlotArray α} (hoff : t.setup.Offers first)
    (h : t.relocate first = .ok (.ok slots)) :
    ∃ slots', ({ t with slots := slots, rehashPending := false } : Table key).relocate first =
      .ok (.ok slots') := by
  obtain ⟨n, hn, -, -, hblocks⟩ := exists_chain_of_relocate h
  have hfits : ({ t with slots := slots, rehashPending := false } : Table key).FitsAt
      slots.capacity := fitsAt_capacity (relocate_spec hoff h).1
  exact Attainable.exists_relocate ⟨n, slots.capacity, hn, hfits, hblocks⟩

/-- **A rehash that has returned returns again.** -/
theorem rehash_returns (hok : (t.rehash count).result = .ok ()) :
    ((t.rehash count).state.rehash count).result = .ok () := by
  rcases rehash_ok_cases hok with
    ⟨hzero, heq⟩ | ⟨hne, first, hfirst, ⟨-, heq⟩ | ⟨-, slots, events, hslots, heq⟩⟩
  · rw [heq, Table.rehash]
    exact congrArg Outcome.result (if_pos hzero)
  · have hstate : (t.rehash count).state = t := congrArg Outcome.state heq
    rwa [hstate]
  · obtain ⟨slots', hslots'⟩ := exists_relocate_again ⟨_, hfirst⟩ hslots
    rw [heq]
    show (rehash { t with slots := slots, rehashPending := false } count).result = .ok ()
    -- the target is what it was, so the relocation is asked for again, unless it is there
    rcases ({ t with slots := slots, rehashPending := false } : Table key).rehash_cases count with
      ⟨hzero, -⟩ | ⟨-, ⟨fault, hfault, -⟩ | ⟨first', hfirst', ⟨-, hagain⟩ | ⟨-, hagain⟩⟩⟩
    · exact absurd hzero hne
    · cases hfirst.symm.trans hfault
    · rw [hagain]
      rfl
    · cases hfirst.symm.trans hfirst'
      rw [hagain, resizeOrFail_of_relocate hslots']

theorem Rehoused.rehashTarget_eq {t' : Table key} (h : Rehoused t t') (hs : t.Sound) (count : Nat) :
    t'.rehashTarget count = t.rehashTarget count := by
  rw [rehashTarget, rehashTarget, h.maxLoad_eq, h.size_eq hs]

/-- **What shrinking again does to a capacity of the chain.** -/
theorem Sound.reshrinks_of_chain (h : t.Sound) (hok : t.shrinkToFit.result = .ok ())
    (hchain : 0 < t.size → ∃ first n, t.setup.policy.capacityFor (t.rehashTarget 0) = .ok first ∧
      t.setup.policy.chain first n = some t.capacity)
    (hbare : t.size = 0 → t.capacity = 0) : Reshrinks t := by
  rcases Nat.eq_zero_or_pos t.size with hzero | hpos
  · have hcapacity : t.shrinkToFit.state.capacity = 0 := by
      rw [shrinkToFit_of_size_eq_zero hzero]
      rfl
    refine ⟨hok, ?_, iff_of_true ?_ (.inl hzero), fun hpos ↦ absurd hzero (Nat.ne_of_gt hpos)⟩
    · rw [hcapacity]
      exact Nat.zero_le _
    · rw [hcapacity, hbare hzero]
  · have hne := rehashTarget_ne_zero hpos 0
    have hord := (h.furnished (Nat.lt_of_lt_of_le hpos h.size_le)).ordered
    obtain ⟨first, n, hfirst, hn⟩ := hchain hpos
    obtain ⟨first', m, hfirst', hm, hfits, hbefore⟩ := h.rehash_first_fitting hne hok
    cases hfirst.symm.trans hfirst'
    have hle : t.shrinkToFit.state.capacity ≤ t.capacity :=
      hbefore.le_of_chain hm hn (fitsAt_capacity hord)
    refine ⟨hok, hle, ⟨fun heq ↦ ?_, ?_⟩, fun _ ↦ rehash_of_capacityFor hne⟩
    · exact .inr ⟨first, m, hfirst, heq ▸ hm, hbefore⟩
    · rintro (hzero | ⟨first', n', hfirst', hn', hnone⟩)
      · exact absurd hzero (Nat.ne_of_gt hpos)
      · cases hfirst.symm.trans hfirst'
        exact Nat.le_antisymm hle (hnone.le_of_chain hn' hm hfits)

/-- **A table that has been shrunk, shrunk again**, under any policy. -/
theorem Sound.reshrinks (h : t.Sound) (hok : t.shrinkToFit.result = .ok ()) :
    Reshrinks t.shrinkToFit.state := by
  have hrehoused : Rehoused t t.shrinkToFit.state := h.shrinkToFit
  have hsize := hrehoused.size_eq h
  refine hrehoused.sound.reshrinks_of_chain (rehash_returns hok) (fun hpos ↦ ?_) fun hzero ↦ ?_
  · obtain ⟨first, n, hfirst, hn, -, -⟩ :=
      h.rehash_first_fitting (rehashTarget_ne_zero (hsize ▸ hpos) 0) hok
    rw [hrehoused.setup_eq, hrehoused.rehashTarget_eq h]
    exact ⟨first, n, hfirst, hn⟩
  · rw [shrinkToFit_of_size_eq_zero (hsize.symm.trans hzero)]
    rfl

end Table

/-! ### Runs -/

open Table

variable {α : Type u} {κ : Type v} {ν : Type x} {σ : Type w} [BEq κ]

/-- **What shrinking does, wherever a run leads to.** Under the policies of the library a table, map
or set that is not above its load threshold ends at the first capacity of the chain at which its
items fit, if the call returns. With powers of two this is never above the present capacity. With
`modulo` the call grows the table exactly when the items fit at no capacity of the chain up to the
present one: the chain may step over the present capacity, at which the items do fit. -/
theorem shrinks_of_run (setups : Nat → Setup κ)
    (hpolicy : ∀ r, (setups r).policy = .powerOfTwo ∨ (setups r).policy = .modulo) (r : Nat) :
    (∀ (key : α → κ) (cs : List (Bank.Command (Table.Call σ α κ) α)),
      Bank.Admits Table.Call.next (fun t c ↦ c.Keeps t.SameHash t) SameHash
          (Bank.fresh key setups) cs →
        let t := Bank.run Table.Call.next (Bank.fresh key setups) cs r
        t.size ≤ t.maxSize → t.shrinkToFit.result = .ok () → Shrinks t t.shrinkToFit.state) ∧
    (∀ cs : List (Bank.Command (HashMap.Call σ κ ν) (κ × ν)),
      Bank.Admits HashMap.Call.next (fun _ _ ↦ True) SameHash (Bank.fresh Prod.fst setups) cs →
        let m := Bank.run HashMap.Call.next (Bank.fresh Prod.fst setups) cs r
        m.size ≤ m.maxSize → m.shrinkToFit.result = .ok () → Shrinks m m.shrinkToFit.state) ∧
    ∀ cs : List (Bank.Command (HashSet.Call σ κ) κ),
      Bank.Admits HashSet.Call.next (fun _ _ ↦ True) SameHash (Bank.fresh id setups) cs →
        let s := Bank.run HashSet.Call.next (Bank.fresh id setups) cs r
        s.size ≤ s.maxSize → s.shrinkToFit.result = .ok () → Shrinks s s.shrinkToFit.state := by
  let P : Setup κ → Prop := fun setup ↦ setup.policy = .powerOfTwo ∨ setup.policy = .modulo
  refine ⟨fun key cs hcs ↦ ?_, fun cs hcs ↦ ?_, fun cs hcs ↦ ?_⟩
  · obtain ⟨hsound, hsetup⟩ :=
      Bank.kept_run (P := P) (fun t c ht hkeep ↦ ht.next c hkeep) hpolicy hcs r
    exact hsound.shrinks hsetup
  · obtain ⟨hsound, hsetup⟩ :=
      Bank.kept_run (P := P) (fun m c hm _ ↦ (hm.fulfils_map c).kept) hpolicy hcs r
    exact hsound.shrinks hsetup
  · obtain ⟨hsound, hsetup⟩ :=
      Bank.kept_run (P := P) (fun s c hs _ ↦ (hs.fulfils_set c).kept) hpolicy hcs r
    exact hsound.shrinks hsetup

/-- **What shrinking does to a table that has just been shrunk**, wherever a run leads to, under any
policy: the call returns and does not grow the table. It leaves the capacity exactly when the items,
in the order in which the first call has put them, fit at no smaller capacity of the chain. -/
theorem reshrinks_of_run (setups : Nat → Setup κ) (r : Nat) :
    (∀ (key : α → κ) (cs : List (Bank.Command (Table.Call σ α κ) α)),
      Bank.Admits Table.Call.next (fun t c ↦ c.Keeps t.SameHash t) SameHash
          (Bank.fresh key setups) cs →
        let t := Bank.run Table.Call.next (Bank.fresh key setups) cs r
        t.shrinkToFit.result = .ok () → Reshrinks t.shrinkToFit.state) ∧
    (∀ cs : List (Bank.Command (HashMap.Call σ κ ν) (κ × ν)),
      Bank.Admits HashMap.Call.next (fun _ _ ↦ True) SameHash (Bank.fresh Prod.fst setups) cs →
        let m := Bank.run HashMap.Call.next (Bank.fresh Prod.fst setups) cs r
        m.shrinkToFit.result = .ok () → Reshrinks m.shrinkToFit.state) ∧
    ∀ cs : List (Bank.Command (HashSet.Call σ κ) κ),
      Bank.Admits HashSet.Call.next (fun _ _ ↦ True) SameHash (Bank.fresh id setups) cs →
        let s := Bank.run HashSet.Call.next (Bank.fresh id setups) cs r
        s.shrinkToFit.result = .ok () → Reshrinks s.shrinkToFit.state :=
  ⟨fun _ _ hcs ↦ (Table.sound_run hcs r).reshrinks, fun _ hcs ↦ (HashMap.sound_run hcs r).reshrinks,
    fun _ hcs ↦ (HashSet.sound_run hcs r).reshrinks⟩

namespace Bank

/-- Keys that have one home when there are twenty homes, so that only sixteen of them fit. -/
def alignedKeys : List UInt64 :=
  [0, 8, 9, 41, 51, 52, 72, 73, 82, 94, 104, 125, 136, 144, 145, 146, 167]

/-- Room is reserved in a map, and keys are inserted. -/
def insertingMap (room : Nat) (ks : List UInt64) :
    List (Command (HashMap.Call Unit UInt64 Nat) (UInt64 × Nat)) :=
  [.call 0 (.upkeep (.reserve room)), .call 0 (.extend (ks.map (·, 0)) ks.length)]

/-- The same with a set. -/
def insertingSet (room : Nat) (ks : List UInt64) :
    List (Command (HashSet.Call Unit UInt64) UInt64) :=
  [.call 0 (.upkeep (.reserve room)), .call 0 (.insertMany ks ks.length)]

/-- The map with the keys. -/
def insertedMap (policy : GrowthPolicy) (room : Nat) (ks : List UInt64) : HashMap UInt64 Nat :=
  run HashMap.Call.next (fresh Prod.fst fun _ ↦ .scattered UInt64 policy) (insertingMap room ks) 0

/-- The set with the keys. -/
def insertedSet (policy : GrowthPolicy) (room : Nat) (ks : List UInt64) : HashSet UInt64 :=
  run HashSet.Call.next (fresh id fun _ ↦ .scattered UInt64 policy) (insertingSet room ks) 0

/-- The set with keys of one home. -/
def alignedSet : HashSet UInt64 := insertedSet .modulo 18 alignedKeys

/-- The set with keys that come in another order at half of the capacity. -/
def interleavedSet : HashSet UInt64 := insertedSet .powerOfTwo 100 interleavedKeys

theorem shrink_alignedSet :
    alignedSet.capacity = 21 ∧ alignedSet.size ≤ alignedSet.maxSize ∧
      alignedSet.shrinkToFit.result = .ok () ∧ alignedSet.shrinkToFit.state.capacity = 40 := by
  decide +kernel

theorem shrink_interleavedSet :
    interleavedSet.shrinkToFit.result = .ok () ∧ interleavedSet.shrinkToFit.state.capacity = 64 ∧
      interleavedSet.shrinkToFit.state.shrinkToFit.result = .ok () ∧
      interleavedSet.shrinkToFit.state.shrinkToFit.state.capacity = 32 := by
  decide +kernel

end Bank

open Bank in
/-- A table and a map with few keys end at the smallest capacity. In the set, the keys fit at its 21
slots, and not at 20, which are enough by the load factor: it ends at 40. -/
theorem shrinks_of_run_aligned :
    ((insertedTable .modulo 18 [1, 2, 3]).shrinkToFit.state.capacity = 8 ∧
      Shrinks (insertedTable .modulo 18 [1, 2, 3])
        (insertedTable .modulo 18 [1, 2, 3]).shrinkToFit.state) ∧
    ((insertedMap .modulo 18 [1, 2, 3]).shrinkToFit.state.capacity = 8 ∧
      Shrinks (insertedMap .modulo 18 [1, 2, 3])
        (insertedMap .modulo 18 [1, 2, 3]).shrinkToFit.state) ∧
    alignedSet.capacity = 21 ∧ alignedSet.shrinkToFit.state.capacity = 40 ∧
      Shrinks alignedSet alignedSet.shrinkToFit.state := by
  obtain ⟨htables, hmaps, hsets⟩ := shrinks_of_run (α := UInt64) (ν := Nat) (σ := Unit)
    (fun _ ↦ .scattered UInt64 .modulo) (fun _ ↦ .inr rfl) 0
  obtain ⟨hroom, hok, ht⟩ :
      (insertedTable .modulo 18 [1, 2, 3]).size ≤ (insertedTable .modulo 18 [1, 2, 3]).maxSize ∧
      (insertedTable .modulo 18 [1, 2, 3]).shrinkToFit.result = .ok () ∧
      (insertedTable .modulo 18 [1, 2, 3]).shrinkToFit.state.capacity = 8 := by decide +kernel
  obtain ⟨hroom', hok', hm⟩ :
      (insertedMap .modulo 18 [1, 2, 3]).size ≤ (insertedMap .modulo 18 [1, 2, 3]).maxSize ∧
      (insertedMap .modulo 18 [1, 2, 3]).shrinkToFit.result = .ok () ∧
      (insertedMap .modulo 18 [1, 2, 3]).shrinkToFit.state.capacity = 8 := by decide +kernel
  obtain ⟨hcapacity, hroom'', hok'', hs⟩ := shrink_alignedSet
  refine ⟨⟨ht, ?_⟩, ⟨hm, ?_⟩, hcapacity, hs, ?_⟩
  · exact htables id _ (admits_insertingTable _ 18 [1, 2, 3]) hroom hok
  · exact hmaps (insertingMap 18 [1, 2, 3]) ⟨trivial, trivial, trivial⟩ hroom' hok'
  · exact hsets (insertingSet 18 alignedKeys) ⟨trivial, trivial, trivial⟩ hroom'' hok''

open Bank in
/-- **Shrinking may grow a table** that has room for its items. -/
theorem not_forall_shrink_le :
    ¬∀ (policy : GrowthPolicy) (cs : List (Command (HashSet.Call Unit UInt64) UInt64)),
      policy = .powerOfTwo ∨ policy = .modulo →
        Admits HashSet.Call.next (fun _ _ ↦ True) SameHash
            (fresh id fun _ ↦ .scattered UInt64 policy) cs →
          let s := run HashSet.Call.next (fresh id fun _ ↦ .scattered UInt64 policy) cs 0
          s.size ≤ s.maxSize → s.shrinkToFit.result = .ok () →
            s.shrinkToFit.state.capacity ≤ s.capacity := by
  intro h
  obtain ⟨hcapacity, hroom, hok, hshrunk⟩ := shrink_alignedSet
  have hle : alignedSet.shrinkToFit.state.capacity ≤ alignedSet.capacity :=
    h .modulo (insertingSet 18 alignedKeys) (.inr rfl) ⟨trivial, trivial, trivial⟩ hroom hok
  rw [hshrunk, hcapacity] at hle
  exact absurd hle (by decide)

open Bank in
/-- A table and a map with few keys are at the smallest capacity after the first call. The set is at
64 then, and at 32 after the second one. -/
theorem reshrinks_of_run_interleaved :
    ((insertedTable .powerOfTwo 100 [1, 2, 3]).shrinkToFit.state.capacity = 8 ∧
      Reshrinks (insertedTable .powerOfTwo 100 [1, 2, 3]).shrinkToFit.state) ∧
    ((insertedMap .powerOfTwo 100 [1, 2, 3]).shrinkToFit.state.capacity = 8 ∧
      Reshrinks (insertedMap .powerOfTwo 100 [1, 2, 3]).shrinkToFit.state) ∧
    interleavedSet.shrinkToFit.state.capacity = 64 ∧
      interleavedSet.shrinkToFit.state.shrinkToFit.state.capacity = 32 ∧
      Reshrinks interleavedSet.shrinkToFit.state := by
  obtain ⟨htables, hmaps, hsets⟩ := reshrinks_of_run (α := UInt64) (ν := Nat) (σ := Unit)
    (fun _ ↦ .scattered UInt64 .powerOfTwo) 0
  obtain ⟨hok, ht⟩ : (insertedTable .powerOfTwo 100 [1, 2, 3]).shrinkToFit.result = .ok () ∧
      (insertedTable .powerOfTwo 100 [1, 2, 3]).shrinkToFit.state.capacity = 8 := by decide +kernel
  obtain ⟨hok', hm⟩ : (insertedMap .powerOfTwo 100 [1, 2, 3]).shrinkToFit.result = .ok () ∧
      (insertedMap .powerOfTwo 100 [1, 2, 3]).shrinkToFit.state.capacity = 8 := by decide +kernel
  obtain ⟨hok'', hfirst, -, hsecond⟩ := shrink_interleavedSet
  refine ⟨⟨ht, ?_⟩, ⟨hm, ?_⟩, hfirst, hsecond, ?_⟩
  · exact htables id _ (admits_insertingTable _ 100 [1, 2, 3]) hok
  · exact hmaps (insertingMap 100 [1, 2, 3]) ⟨trivial, trivial, trivial⟩ hok'
  · exact hsets (insertingSet 100 interleavedKeys) ⟨trivial, trivial, trivial⟩ hok''

open Bank in
/-- **Shrinking may leave a table that can be shrunk further** by the same call. -/
theorem not_forall_shrink_idempotent :
    ¬∀ (policy : GrowthPolicy) (cs : List (Command (HashSet.Call Unit UInt64) UInt64)),
      policy = .powerOfTwo ∨ policy = .modulo →
        Admits HashSet.Call.next (fun _ _ ↦ True) SameHash
            (fresh id fun _ ↦ .scattered UInt64 policy) cs →
          let s := run HashSet.Call.next (fresh id fun _ ↦ .scattered UInt64 policy) cs 0
          s.shrinkToFit.result = .ok () → s.shrinkToFit.state.shrinkToFit.result = .ok () →
            s.shrinkToFit.state.shrinkToFit.state.capacity = s.shrinkToFit.state.capacity := by
  intro h
  obtain ⟨hok, hfirst, hok', hsecond⟩ := shrink_interleavedSet
  have heq : interleavedSet.shrinkToFit.state.shrinkToFit.state.capacity =
      interleavedSet.shrinkToFit.state.capacity :=
    h .powerOfTwo (insertingSet 100 interleavedKeys) (.inl rfl) ⟨trivial, trivial, trivial⟩ hok hok'
  rw [hfirst, hsecond] at heq
  exact absurd heq (by decide)

end ProbeWindow
