import ProbeWindow.Proofs.Table.Attempts
import ProbeWindow.Proofs.Table.Relocation

/-!
# The search for a seat, pass by pass

Two loops stand behind every insertion, and neither has a bound of its own. An insertion makes
**passes**: in each it grows if it must, and looks for a vacancy; without one it marks the table, so
that the next pass grows. And each growth relocates the items, with **retries** at larger capacities
while some window is full. When more keys than a window can hold have one hash, no capacity helps.

What ends both loops is that capacities double and have to fit a word. Each retry is at twice the
capacity of the attempt before, for which there was a block (`retriesEnd`). Each pass but the first
one grows, because the one before has left a mark, and a growth that returns has doubled the
capacity (`Passed.succ`). So neither loop goes round more than 61 times, and then it has found what
it was looking for, or it ends with a fault for which there is a reason (`Sound.secureEnds`).
-/

namespace ProbeWindow

universe u v

namespace GrowthPolicy

variable {policy : GrowthPolicy} {first n : Nat}

/-- The chain goes on with the next capacity of its last one. -/
theorem chain_add_one (first n : Nat) :
    policy.chain first (n + 1) = (policy.chain first n).bind policy.next? := by
  induction n generalizing first with
  | zero =>
    rw [chain, chain, Option.bind_some]
    exact Option.bind_fun_some _
  | succ n ih =>
    rcases hnext : policy.next? first with - | larger
    · rw [chain, chain, hnext]
      rfl
    · rw [chain_succ hnext, chain_succ hnext, ih]

end GrowthPolicy

namespace Table

variable {α : Type u} {κ : Type v} [BEq κ] {key : α → κ} {t : Table key} {first : Nat}

/-! ### The retries of a relocation -/

/-- An attempt of a relocation is dropped: there is a block for it, and a window is full. -/
def Drops (t : Table key) (capacity : Nat) : Prop := t.HasBlock capacity ∧ ¬ t.FitsAt capacity

/-- The attempts are made along the chain, after so many others that were dropped. -/
theorem Attempts.exists_chain {capacity : Nat} (h : Attempts t first capacity) :
    ∃ n, t.setup.policy.chain first n = some capacity ∧
      t.setup.policy.AllOfFirst first n t.Drops := by
  induction h with
  | first => exact ⟨0, rfl, GrowthPolicy.allOfFirst_zero⟩
  | retry h hblock hfull hdouble hlarger ih =>
    obtain ⟨n, hn, hdrops⟩ := ih
    refine ⟨n + 1, ?_, fun m hm c hc ↦ ?_⟩
    · rw [GrowthPolicy.chain_add_one, hn]
      exact GrowthPolicy.next?_eq_some_iff.mpr ⟨hdouble, hlarger⟩
    · rcases Nat.lt_succ_iff_lt_or_eq.mp hm with hlt | rfl
      · exact hdrops m hlt c hc
      · cases hn.symm.trans hc
        refine ⟨hblock, ?_⟩
        rw [fitsAt_iff, hfull]
        exact Bool.false_ne_true

/-- **How the retries of a relocation end.** -/
structure RetriesEnd (t : Table key) (first : Nat) : Prop where
  /-- After so many dropped attempts there is a last one, and the relocation ends with it. -/
  ends : ∃ n last, t.setup.policy.chain first n = some last ∧
    t.setup.policy.AllOfFirst first n t.Drops ∧ Ends t last (t.relocate first)
  /-- Every retry is at twice the capacity at least. -/
  doubles : ∀ n capacity larger, t.setup.policy.chain first n = some capacity →
    t.setup.policy.chain first (n + 1) = some larger → capacity * 2 ≤ larger
  /-- There are no more than 61 retries. -/
  retries_le : ∀ n last, t.setup.policy.chain first n = some last →
    t.setup.policy.AllOfFirst first n t.Drops → n ≤ 61

/-- Eight doubled so often that it still fits a word. -/
theorem le_of_mul_two_pow_lt {n c : Nat} (h : minCapacity * 2 ^ n ≤ c) (hlt : c < Word.bound) :
    n ≤ 60 := by
  have hpow : 2 ^ (3 + n) < 2 ^ 64 := by
    rw [Nat.pow_add]
    exact Nat.lt_of_le_of_lt h hlt
  have := (Nat.pow_lt_pow_iff_right (by decide)).mp hpow
  omega

/-- **The retries of a relocation end**, from every capacity of the policy. -/
theorem retriesEnd (hoff : t.setup.Offers first) : RetriesEnd t first where
  ends := by
    obtain ⟨last, hlast, hends⟩ := Attempts.exists_ends (.first : Attempts t first first)
    obtain ⟨n, hn, hdrops⟩ := hlast.exists_chain
    exact ⟨n, last, hn, hdrops, hends⟩
  doubles n capacity larger hcapacity hlarger := by
    rw [GrowthPolicy.chain_add_one, hcapacity] at hlarger
    exact GrowthPolicy.two_mul_le_of_next? hlarger
  retries_le n last hlast hdrops := by
    rcases n with - | n
    · exact Nat.zero_le _
    · -- the attempt before the last one had a block, so its capacity fits a word
      rw [GrowthPolicy.chain_add_one] at hlast
      obtain ⟨capacity, hcapacity, -⟩ := Option.bind_eq_some_iff.mp hlast
      obtain ⟨block, hblock⟩ := (hdrops n n.lt_succ_self capacity hcapacity).1
      obtain ⟨size, hfirst⟩ := hoff
      have hmin := (t.setup.policy.le_of_capacityFor hfirst).2
      have hchain := GrowthPolicy.mul_two_pow_le_of_chain hcapacity
      have hword := Setup.lt_of_block hblock
      refine Nat.succ_le_succ (le_of_mul_two_pow_lt (c := capacity) ?_ (by omega))
      exact Nat.le_trans (Nat.mul_le_mul_right _ hmin) hchain

/-! ### Growth -/

/-- Why a growth fails. -/
inductive GrowthFault (setup : Setup κ) : Fault → Prop where
  /-- A capacity or the size of its block is out of range. -/
  | overflow : GrowthFault setup .capacityOverflow
  /-- The policy refuses a capacity. -/
  | declined {size : Nat} {fault : Fault} (h : setup.policy.capacityFor size = .error fault) :
    GrowthFault setup fault
  /-- The allocator refuses the block for a capacity. -/
  | refused {capacity : Nat} {layout : Layout}
    (h : Layout.slotBlock? setup.storage.slot capacity = some layout)
    (hrefused : setup.allocator.grants layout = false) : GrowthFault setup (.outOfMemory layout)

theorem growthFault_of_resizeOrFail {reason : ResizeReason} {fault : Fault}
    (h : (t.resizeOrFail first reason).result = .error fault) : GrowthFault t.setup fault := by
  obtain ⟨last, -, hends⟩ := Attempts.exists_ends (.first : Attempts t first first)
  generalize hrelocate : t.relocate first = answer at hends
  simp only [resizeOrFail, resize, hrelocate] at h
  cases hends with
  | seated => cases h
  | outOfRange | overflow =>
    cases h
    exact .overflow
  | refused hlayout hrefused =>
    cases h
    exact .refused hlayout hrefused
  | declined hfull hdouble hdeclined =>
    cases h
    exact .declined hdeclined

theorem growthFault_of_grow {fault : Fault} (h : t.grow.result = .error fault) :
    GrowthFault t.setup fault := by
  unfold grow at h
  split at h
  · cases h
    exact .overflow
  · split at h
    · next hdeclined =>
      cases h
      exact .declined hdeclined
    · exact growthFault_of_resizeOrFail h

/-! ### Passes -/

/-- A vacancy is looked for. Without one the table is marked, and this is told. -/
def look (t : Table key) (hash : UInt64) : Outcome (Table key) (Option Seat) :=
  match t.slots.vacancy? (t.home hash) with
  | some v => .done t (some ⟨hash, t.home hash, v⟩)
  | none => ⟨t.markSaturated, [t.saturatedEvent (t.home hash)], .ok none⟩

/-- One pass of the loop that looks for a seat: the table grows if it must, and a vacancy is looked
for. Without one there is another pass. -/
def pass (t : Table key) (hash : UInt64) : Outcome (Table key) (Option Seat) :=
  (if t.mustGrow then t.grow else .done t ()).andThen fun t () ↦ t.look hash

/-- So many passes that end without a seat, with what they leave and what they tell. -/
inductive Passes (t : Table key) (hash : UInt64) : Nat → Table key → List Event → Prop where
  /-- No pass is made. -/
  | zero : Passes t hash 0 t []
  /-- There is one more pass. -/
  | succ {n : Nat} {t' t'' : Table key} {events later : List Event} (h : Passes t hash n t' events)
    (hpass : t'.pass hash = ⟨t'', later, .ok none⟩) : Passes t hash (n + 1) t'' (events ++ later)

/-- The seat that a pass has found, or what further passes find. -/
def orSecure (hash : UInt64) (t : Table key) : Option Seat → Outcome (Table key) Seat
  | some seat => .done t seat
  | none => t.secure hash

theorem settle_eq_look (t : Table key) (hash : UInt64) :
    t.settle hash = (t.look hash).andThen (orSecure hash) := by
  rw [settle_eq, look]
  cases t.slots.vacancy? (t.home hash) <;> rfl

/-- **Securing a seat is the loop of these passes.** -/
theorem secure_eq_pass (t : Table key) (hash : UInt64) :
    t.secure hash = (t.pass hash).andThen (orSecure hash) := by
  rw [pass, Outcome.andThen_assoc, secure]
  simp only [← settle_eq_look]
  split <;> rfl

theorem Passes.secure_eq {hash : UInt64} {n : Nat} {t' : Table key} {events : List Event}
    (h : Passes t hash n t' events) : t.secure hash = (t'.secure hash).after events := by
  induction h with
  | zero => rfl
  | @succ n t' t'' events later h hpass ih =>
    rw [ih, secure_eq_pass t', hpass]
    show ((t''.secure hash).after later).after events = _
    simp only [Outcome.after, List.append_assoc]

/-- What a pass does: it fails to grow; or it looks for a vacancy, in the table itself or after a
growth. -/
theorem pass_cases (t : Table key) (hash : UInt64) :
    (∃ fault, t.grow.result = .error fault ∧ t.pass hash = .fail t fault) ∨
    ∃ t' events, (t.mustGrow = false ∧ t' = t ∨ t.grow.result = .ok () ∧ t.grow.state = t') ∧
      t.pass hash = (t'.look hash).after events := by
  rw [pass]
  split
  · rcases t.grow_outcomes with ⟨fault, heq⟩ | ⟨_, slots, -, -, -, heq⟩
    · refine .inl ⟨fault, ?_, ?_⟩ <;> rw [heq]
      · rfl
      · rfl
    · refine .inr ⟨t.grow.state, t.grow.events, .inr ⟨?_, rfl⟩, ?_⟩
      · rw [heq]
      · exact Outcome.andThen_of_ok _ (by rw [heq])
  · next hmust => exact .inr ⟨t, [], .inl ⟨Bool.eq_false_of_not_eq_true hmust, rfl⟩, rfl⟩

theorem look_cases (t : Table key) (hash : UInt64) :
    (∃ v, t.slots.vacancy? (t.home hash) = some v ∧
      t.look hash = .done t (some ⟨hash, t.home hash, v⟩)) ∨
    t.slots.vacancy? (t.home hash) = none ∧
      t.look hash = ⟨t.markSaturated, [t.saturatedEvent (t.home hash)], .ok none⟩ := by
  rw [look]
  cases t.slots.vacancy? (t.home hash) with
  | some v => exact .inl ⟨v, rfl, rfl⟩
  | none => exact .inr ⟨rfl, rfl⟩

/-- What holds after so many passes. -/
structure Passed (t : Table key) (n : Nat) (t' : Table key) : Prop extends Rehoused t t' where
  /-- After the first pass the table is marked. -/
  marked : 0 < n → t'.rehashPending = true
  /-- After the first pass the capacity is not below the smallest one, and every further pass has
  doubled it. -/
  le_capacity : ∀ m, n = m + 1 → minCapacity * 2 ^ m ≤ t'.capacity

section Passed

variable {hash : UInt64} {n : Nat} {t' t'' : Table key} {events later : List Event}

/-- **One more pass**: only the first one can do without a growth. -/
theorem Passed.succ (h : Passed t n t') (hpass : t'.pass hash = ⟨t'', later, .ok none⟩) :
    Passed t (n + 1) t'' := by
  rcases t'.pass_cases hash with ⟨fault, -, heq⟩ | ⟨grown, events, hgrown, heq⟩
  · cases heq.symm.trans hpass
  rcases grown.look_cases hash with ⟨v, -, hlook⟩ | ⟨-, hlook⟩ <;> rw [hlook] at heq <;>
    cases heq.symm.trans hpass
  have hrehoused : Rehoused t' grown := by
    rcases hgrown with ⟨-, rfl⟩ | ⟨-, rfl⟩
    · exact h.sound.rehoused
    · exact h.sound.grow.1
  refine ⟨(h.toRehoused.trans hrehoused).trans hrehoused.sound.rehoused_markSaturated,
    fun _ ↦ rfl, fun m hm ↦ ?_⟩
  cases hm
  show minCapacity * 2 ^ n ≤ grown.capacity
  rcases hgrown with ⟨hmust, rfl⟩ | ⟨hok, rfl⟩
  · -- a table that need not grow is not marked, so no pass has been made, and it has slots
    have hzero : n = 0 := Nat.eq_zero_of_not_pos fun hpos ↦ by
      cases (mustGrow_eq_false_iff.mp hmust).1.symm.trans (h.marked hpos)
    have hpos : 0 < grown.capacity := Nat.zero_lt_of_lt (size_lt_of_mustGrow hmust)
    obtain ⟨size, hsize⟩ := (h.sound.furnished hpos).offered
    rw [hzero]
    exact (grown.setup.policy.le_of_capacityFor hsize).2
  · obtain ⟨hdouble, hmin⟩ := two_mul_le_capacity_grow hok
    rcases n with - | n
    · exact hmin
    · have hle := h.le_capacity n rfl
      rw [Nat.pow_succ, ← Nat.mul_assoc]
      exact Nat.le_trans (Nat.mul_le_mul_right 2 hle) hdouble

theorem Passes.passed (h : Passes t hash n t' events) (hs : t.Sound) : Passed t n t' := by
  induction h with
  | zero => exact ⟨hs.rehoused, nofun, nofun⟩
  | succ h hpass ih => exact ih.succ hpass

/-- **There are no more than 61 passes without a seat**: the capacity that they have led to fits a
word. -/
theorem Passes.le (h : Passes t hash n t' events) (hs : t.Sound) : n ≤ 61 := by
  rcases n with - | n
  · exact Nat.zero_le _
  · have hpassed := h.passed hs
    have hle := hpassed.le_capacity n rfl
    have hpos : 0 < t'.capacity := Nat.lt_of_lt_of_le (Nat.mul_pos (by decide) n.two_pow_pos) hle
    have hword := (hpassed.sound.furnished hpos).slots_lt
    exact Nat.succ_le_succ (le_of_mul_two_pow_lt hle (by omega))

/-- So there is a pass that ends the loop. -/
theorem Sound.exists_last_pass (h : t.Sound) (hash : UInt64) :
    ∃ n t' events, Passes t hash n t' events ∧ (t'.pass hash).result ≠ .ok none := by
  suffices hrest : ∀ k n t' events, n + k = 61 → Passes t hash n t' events →
      ∃ n t' events, Passes t hash n t' events ∧ (t'.pass hash).result ≠ .ok none from
    hrest 61 0 t [] rfl .zero
  intro k
  -- the induction is on the number of passes that may still follow
  induction k with
  | zero =>
    intro n t' events hn hpasses
    refine ⟨n, t', events, hpasses, fun hnone ↦ ?_⟩
    rcases hpass : t'.pass hash with ⟨t'', later, result⟩
    rw [hpass] at hnone
    cases hnone
    have hle := (hpasses.succ hpass).le h
    omega
  | succ k ih =>
    intro n t' events hn hpasses
    rcases hpass : t'.pass hash with ⟨t'', later, result⟩
    by_cases hnone : result = .ok none
    · subst hnone
      exact ih (n + 1) t'' _ (by omega) (hpasses.succ hpass)
    · exact ⟨n, t', events, hpasses, by rwa [hpass]⟩

end Passed

/-! ### How the loop ends -/

/-- Every item is in a slot from its home to `maxOffset` behind it. -/
def Near (t : Table key) : Prop :=
  ∀ i a, t.slots.item? i = some a →
    t.home (t.setup.hash (key a)) ≤ i ∧ i ≤ t.home (t.setup.hash (key a)) + maxOffset

theorem Sound.near (h : t.Sound) : t.Near := fun i a ha ↦
  have hord := (h.furnished_of_item ha).ordered
  ⟨hord.home_le i a ha, hord.le_home_add i a ha⟩

/-- The last pass has found a seat, or has failed to grow. -/
theorem Sound.exists_end (h : t.Sound) (hash : UInt64) :
    ∃ n t' events, Passes t hash n t' events ∧
      ((∃ t'' later seat, t'.pass hash = ⟨t'', later, .ok (some seat)⟩ ∧
        t.secure hash = ⟨t'', events ++ later, .ok seat⟩) ∨
      ∃ fault, t'.grow.result = .error fault ∧ t'.pass hash = .fail t' fault ∧
        t.secure hash = ⟨t', events, .error fault⟩) := by
  obtain ⟨n, t', events, hpasses, hlast⟩ := h.exists_last_pass hash
  have hsecure := hpasses.secure_eq
  rw [secure_eq_pass t'] at hsecure
  refine ⟨n, t', events, hpasses, ?_⟩
  rcases t'.pass_cases hash with ⟨fault, hfault, heq⟩ | ⟨grown, later, -, heq⟩
  · rw [heq] at hsecure
    refine .inr ⟨fault, hfault, heq, hsecure.trans ?_⟩
    exact congrArg (Outcome.mk t' · (.error fault)) (List.append_nil events)
  · rcases grown.look_cases hash with ⟨v, -, hlook⟩ | ⟨-, hlook⟩ <;> rw [hlook] at heq
    · rw [heq] at hsecure
      refine .inl ⟨grown, later ++ [], _, heq, hsecure.trans ?_⟩
      exact congrArg (Outcome.mk grown · _) (congrArg (events ++ ·) (List.append_nil _))
    · exact absurd (congrArg Outcome.result heq) hlast

/-- **How the search for a seat ends.** -/
structure SecureEnds (t : Table key) (hash : UInt64) : Prop where
  /-- Before, all items are near their homes. -/
  near : t.Near
  /-- After so many passes without a seat there is a last one, with a seat or with a fault of a
  growth, and this is what securing a seat gives. -/
  ends : ∃ n t' events, Passes t hash n t' events ∧
    ((∃ t'' later seat, t'.pass hash = ⟨t'', later, .ok (some seat)⟩ ∧
      t.secure hash = ⟨t'', events ++ later, .ok seat⟩) ∨
    ∃ fault, t'.grow.result = .error fault ∧ t'.pass hash = .fail t' fault ∧
      t.secure hash = ⟨t', events, .error fault⟩)
  /-- There are no more than 61 passes without a seat. -/
  passes_le : ∀ n t' events, Passes t hash n t' events → n ≤ 61
  /-- A growth that is made in a pass and returns has at least doubled the capacity, and has not
  ended below the smallest one. -/
  grows : ∀ n t' events, Passes t hash n t' events → t'.grow.result = .ok () →
    t'.capacity * 2 ≤ t'.grow.state.capacity ∧ minCapacity ≤ t'.grow.state.capacity
  /-- The retries of every relocation that may be made in a pass end. -/
  retries : ∀ n t' events size first, Passes t hash n t' events →
    t'.setup.policy.capacityFor size = .ok first → RetriesEnd t' first
  /-- A seat that is found is in the window of the hash. When an item of the hash is put into it,
  neither this item nor another one is farther from its home than the window reaches. -/
  of_ok : ∀ seat, (t.secure hash).result = .ok seat → (t.secure hash).state.Fits hash seat ∧
    ∀ item, t.setup.hash (key item) = hash → ((t.secure hash).state.sit seat item).1.Near
  /-- A fault has one of three reasons, and leaves all items near their homes. -/
  of_error : ∀ fault, (t.secure hash).result = .error fault →
    GrowthFault t.setup fault ∧ (t.secure hash).state.Near

/-- **The search for a seat ends.** -/
theorem Sound.secureEnds (h : t.Sound) (hash : UInt64) : SecureEnds t hash where
  near := h.near
  ends := h.exists_end hash
  passes_le _ _ _ hpasses := hpasses.le h
  grows _ _ _ _ := two_mul_le_capacity_grow
  retries _ _ _ _ _ _ hfirst := retriesEnd ⟨_, hfirst⟩
  of_ok seat hseat := by
    rcases h.secure_cases hash with
      ⟨t', events, seat', heq, hrehoused, hfits⟩ | ⟨t', events, fault, heq, -⟩
    · rw [heq] at hseat ⊢
      cases hseat
      refine ⟨hfits, fun item hitem ↦ (hfits.added hrehoused.sound item ?_).sound.near⟩
      rwa [hrehoused.setup_eq]
    · rw [heq] at hseat
      cases hseat
  of_error fault hfault := by
    obtain ⟨n, t', events, hpasses, hend⟩ := h.exists_end hash
    have hpassed := hpasses.passed h
    rcases hend with ⟨t'', later, seat, -, heq⟩ | ⟨fault', hgrow, -, heq⟩
    · rw [heq] at hfault
      cases hfault
    · rw [heq] at hfault ⊢
      cases hfault
      exact ⟨hpassed.setup_eq ▸ growthFault_of_grow hgrow, hpassed.sound.near⟩

end Table

end ProbeWindow
