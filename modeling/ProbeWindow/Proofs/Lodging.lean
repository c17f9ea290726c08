import ProbeWindow.Proofs.Invariance

/-!
# Items have their blocks

An item of a table may need a block besides its slot, and the table takes it only when the block is
granted. Tables keep their setup along a run, and with it the allocator. So a table that a run leads
to has no items when blocks for them are refused (`Table.Lodged`): where there is an item, further
ones get their blocks as well.
-/

namespace ProbeWindow

universe u v w x

open Table

/-! ### Calls -/

namespace Table

variable {α : Type u} {κ : Type v} {ρ : Type x} {σ : Type w} [BEq κ] {key : α → κ} {t t' : Table key}

/-- Inserting items one by one adds none without a block. -/
theorem Sound.lodged_emplaceEach (h : t.Sound) (hl : t.Lodged) (count : Nat) (items : List α) :
    (t.emplaceEach count items).state.Lodged := by
  induction items generalizing t count with
  | nil => exact hl
  | cons a items ih =>
    rw [Table.emplaceEach]
    rcases h.emplace_cases a with ⟨o, heq, -⟩ |
      ⟨-, hhouse, t', events, o, heq, -, hadded⟩ | ⟨t', events, fault, heq, hrehoused, -⟩ <;> rw [heq]
    · exact ih h hl count
    · exact ih hadded.sound (.inl (hadded.setup_eq ▸ hhouse)) (count + 1)
    · exact hrehoused.lodged hl

/-- What is done after room was made adds nothing without a block. -/
theorem Sound.lodged_reserve_andThen (h : t.Sound) (hl : t.Lodged) {additional : Nat}
    (next : Table key → Unit → Outcome (Table key) ρ)
    (hnext : ∀ t', t'.Sound → t'.Lodged → (next t' ()).state.Lodged) :
    ((t.reserve additional).andThen next).state.Lodged := by
  rcases h.reserve_andThen_cases additional next with
    ⟨-, -, hrehoused⟩ | ⟨t', hrehoused, hstate, -⟩
  · exact hrehoused.lodged hl
  · rw [hstate]
    exact hnext t' hrehoused.sound (hrehoused.lodged hl)

/-- **No call of a table adds an item without a block.** -/
theorem Sound.lodged_next (h : t.Sound) (hl : t.Lodged) (c : Call σ α κ)
    (hkeep : c.Keeps t.SameHash t) : (c.next t).Lodged := by
  cases c with
  | access a => exact (h.handles a hkeep).lodged hl
  | iterMut change n =>
    obtain ⟨-, hsetup, hlist, -⟩ := h.walkUpdating n hkeep
    refine hl.of_nil hsetup fun hnil ↦ ?_
    show (t.walkUpdating change n).1.toList = []
    rw [hlist, hnil, List.take_nil, List.map_nil, List.drop_nil, List.append_nil]
  | retain visit state =>
    obtain ⟨-, hsetup, hlist, -⟩ := h.retain state hkeep
    refine hl.of_nil hsetup fun hnil ↦ ?_
    show (t.retain visit state).1.toList = []
    rw [hlist, hnil]
    rfl
  | upkeep u =>
    have hupkept := h.upkept_exec u
    exact hl.of_nil hupkept.setup_eq fun hnil ↦ List.subperm_nil.mp (hnil ▸ hupkept.subperm)

theorem Sound.lodged_copyWith {copy : α → Except Fault α} (h : t.Sound) (hl : t.Lodged)
    (hcopy : t.copyWith copy = .ok t')
    (hkeep : ∀ a ∈ t.toList, ∀ b, copy a = .ok b → t.SameHash a b) : t'.Lodged := by
  obtain ⟨-, hsetup, hitems⟩ := h.copyWith hcopy hkeep
  exact hl.of_nil hsetup fun hnil ↦ List.forall₂_nil_left_iff.mp (hnil ▸ hitems)

end Table

namespace HashMap

variable {κ : Type u} {ν : Type v} {σ : Type w} [BEq κ] {m : HashMap κ ν}

theorem lodged_insertEach (h : m.Sound) (hl : m.Lodged) (count : Nat) (pairs : List (κ × ν)) :
    (insertEach m count pairs).state.Lodged := by
  induction pairs generalizing m count with
  | nil => exact hl
  | cons p pairs ih =>
    have hinsert := h.handles_insert p
    rw [insertEach]
    rcases Outcome.andThen_cases (insert m p.1 p.2) _ with ⟨fault, -, heq⟩ | ⟨old, -, heq⟩ <;> rw [heq]
    · exact hinsert.lodged hl
    · exact ih hinsert.sound.1 (hinsert.lodged hl) _

/-- **No call of a map adds a pair without a block.** -/
theorem lodged_next (h : m.Sound) (hl : m.Lodged) (c : Call σ κ ν) : (c.next m).Lodged := by
  cases c with
  | access a => exact (h.handles_map a).lodged hl
  | insertMany pairs hint =>
    exact h.lodged_reserve_andThen hl _ fun m' hm' hl' ↦ hm'.lodged_emplaceEach hl' 0 pairs
  | extend pairs hint =>
    exact h.lodged_reserve_andThen hl (fun m () ↦ (insertEach m 0 pairs).map fun _ ↦ ())
      fun m' hm' hl' ↦ lodged_insertEach hm' hl' 0 pairs
  | iterMut change n =>
    exact h.lodged_next hl (.iterMut (σ := σ) (changeValue change) n) fun _ _ ↦ rfl
  | retain visit state =>
    exact h.lodged_next hl (.retain (visitValue visit) state)
      (visitsKeep_visitValue (fun _ _ ↦ rfl) visit state m.toList)
  | upkeep u => exact h.lodged_next hl (.upkeep (σ := σ) u) trivial

end HashMap

namespace HashSet

variable {κ : Type u} {σ : Type w} [BEq κ] {s : HashSet κ}

/-- **No call of a set adds an item without a block.** -/
theorem lodged_next (h : s.Sound) (hl : s.Lodged) (c : Call σ κ) : (c.next s).Lodged := by
  cases c with
  | access a => exact (h.handles_set a).lodged hl
  | insertMany items hint =>
    exact h.lodged_reserve_andThen hl _ fun s' hs' hl' ↦ hs'.lodged_emplaceEach hl' 0 items
  | extend items hint =>
    exact h.lodged_reserve_andThen hl (fun s () ↦ (s.emplaceEach 0 items).map fun _ ↦ ())
      fun s' hs' hl' ↦ hs'.lodged_emplaceEach hl' 0 items
  | retain keep state =>
    exact h.lodged_next hl (.retain (visitItem keep) state)
      (visitsKeep_visitItem (R := SameHash s) (fun _ ↦ rfl) keep state s.toList)
  | upkeep u => exact h.lodged_next hl (.upkeep (σ := σ) u) trivial

end HashSet

/-! ### Runs -/

namespace Bank

variable {α : Type u} {κ : Type v} {γ : Type w} [BEq κ] {key : α → κ}
  {next : Table key → γ → Table key} {keeps : Table key → γ → Prop}

/-- **When no call adds an item without a block, no run does.** -/
theorem lodged_run (hsound : ∀ t c, t.Sound → keeps t c → (next t c).Sound)
    (hlodged : ∀ t c, t.Sound → t.Lodged → keeps t c → (next t c).Lodged)
    {setups : Nat → Setup κ} {cs : List (Command γ α)}
    (hcs : Admits next keeps SameHash (fresh key setups) cs) (r : Nat) :
    (run next (fresh key setups) cs r).Lodged := by
  refine (run_preserves (P := fun t ↦ t.Sound ∧ t.Lodged) (fun t c ht hc ↦ ?_)
    (fun t t' copy ht hcopy hkeep ↦ ?_) hcs
    (fun r ↦ ⟨sound_empty (setups r), lodged_empty (setups r)⟩) r).2
  · exact ⟨hsound t c ht.1 hc, hlodged t c ht.1 ht.2 hc⟩
  · exact ⟨(ht.1.copyWith hcopy hkeep).1, ht.1.lodged_copyWith ht.2 hcopy hkeep⟩

end Bank

section Lodged

variable {α : Type u} {κ : Type v} {ν : Type x} {σ : Type w} [BEq κ] {setups : Nat → Setup κ}

theorem Table.lodged_run {key : α → κ} {cs : List (Bank.Command (Table.Call σ α κ) α)}
    (hcs : Bank.Admits Table.Call.next (fun t c ↦ c.Keeps t.SameHash t) SameHash
      (Bank.fresh key setups) cs) (r : Nat) :
    (Bank.run Table.Call.next (Bank.fresh key setups) cs r).Lodged :=
  Bank.lodged_run (fun _ c ht hkeep ↦ (ht.next c hkeep).1)
    (fun _ c ht hl hkeep ↦ ht.lodged_next hl c hkeep) hcs r

theorem HashMap.lodged_run {cs : List (Bank.Command (HashMap.Call σ κ ν) (κ × ν))}
    (hcs : Bank.Admits HashMap.Call.next (fun _ _ ↦ True) SameHash
      (Bank.fresh Prod.fst setups) cs) (r : Nat) :
    (Bank.run HashMap.Call.next (Bank.fresh Prod.fst setups) cs r).Lodged :=
  Bank.lodged_run (fun _ c hm _ ↦ (hm.fulfils_map c).sound)
    (fun _ c hm hl _ ↦ HashMap.lodged_next hm hl c) hcs r

theorem HashSet.lodged_run {cs : List (Bank.Command (HashSet.Call σ κ) κ)}
    (hcs : Bank.Admits HashSet.Call.next (fun _ _ ↦ True) SameHash (Bank.fresh id setups) cs)
    (r : Nat) : (Bank.run HashSet.Call.next (Bank.fresh id setups) cs r).Lodged :=
  Bank.lodged_run (fun _ c hs _ ↦ (hs.fulfils_set c).sound)
    (fun _ c hs hl _ ↦ HashSet.lodged_next hs hl c) hcs r

end Lodged

end ProbeWindow
