import ProbeWindow.Proofs.Run
import ProbeWindow.Proofs.Set.Calls
import ProbeWindow.Proofs.Table.Refinement

/-!
# A set refines a set of representatives

The meaning of every call of a set (`HashSet.Call.meaning`): a finite set of classes of equal items,
each with the one that is stored. Every call of a sound set does what it means
(`Sound.fulfils_set`), so a run of a set shows what a run of such a finite set would have shown
(`HashSet.run_refines_finite_set`). Exchanging a stored item for an equal one moves nothing
(`Sound.replacesInPlace`).
-/

namespace ProbeWindow

universe u w

variable {κ : Type u} {σ : Type w}

open Contents Table

namespace HashSet

/-! ### Meanings -/

/-- **What a call of a set means.** -/
def Call.meaning [BEq κ] : Call σ κ → Meaning σ κ κ (Reply σ κ)
  | access a => .one a.keyOf a.act
  | insertMany items _ => .many (fun old _ ↦ old) items .count
  | extend items _ => .many (fun old _ ↦ old) items fun _ ↦ .unit
  | retain keep state => .sift (visitItem keep) state .state
  | upkeep u => .upkeep u .report

section Keys

variable [BEq κ]

/-- **The item that a call leaves is its own, or an equal one**: what holds of those, and of the one
that was there, holds of it. -/
theorem Access.key_act_of {P : κ → Prop} (a : Access κ) (hk : P a.keyOf)
    (hequal : ∀ b, (b == a.keyOf) = true → P b) {old : Option κ} (hold : ∀ b ∈ old, P b) {b : κ}
    (hb : b ∈ (a.act (σ := σ) old).1) : P b := by
  cases a with
  | contains | count | get => exact hold b hb
  | remove | take => cases hb
  | replace k => cases hb; exact hk
  | insert k | emplace k | getOrInsert k =>
    cases old with
    | none => cases hb; exact hk
    | some c => cases hb; exact hold _ rfl
  | getOrInsertWith k make =>
    cases old with
    | some c => exact hold b hb
    | none =>
      rw [Access.act] at hb
      cases hbuilt : built id k fun () ↦ make k with
      | error fault => rw [hbuilt] at hb; cases hb
      | ok c => rw [hbuilt] at hb; cases hb; exact hequal _ (key_of_built hbuilt)

variable [ReflBEq κ]

/-- **A call on one item leaves an equal item**, or none. -/
theorem Access.key_act (a : Access κ) {old : Option κ}
    (hold : ∀ b ∈ old, (b == a.keyOf) = true) {b : κ} (hb : b ∈ (a.act (σ := σ) old).1) :
    (b == a.keyOf) = true :=
  a.key_act_of (P := fun j ↦ (j == a.keyOf) = true) BEq.rfl (fun _ h ↦ h) hold hb

/-- **Every call of a set keeps keys.** -/
theorem Call.keepsKeys_meaning (c : Call σ κ) : c.meaning.KeepsKeys id := by
  cases c with
  | access a => exact fun _ hold _ hb ↦ a.key_act hold hb
  | insertMany | extend => exact fun _ _ h ↦ h
  | retain => exact fun _ _ ↦ rfl
  | upkeep => trivial

end Keys

end HashSet

/-! ### Every call -/

namespace HashSet

/-- An equal item takes the place of a stored one, which is handed back, and nothing moves. -/
structure ReplacesInPlace [BEq κ] (s : HashSet κ) (k old : κ) : Prop where
  /-- The stored item is handed back. -/
  result_eq : (HashSet.replace s k).result = .ok (some old)
  /-- The size is the same. -/
  size_eq : (HashSet.replace s k).state.size = s.size
  /-- The tags are the same, and so are all slots but the one that had the stored item. -/
  slot : ∃ i, s.slots.item? i = some old ∧ ∀ j,
    (HashSet.replace s k).state.slots.tag j = s.slots.tag j ∧
    (HashSet.replace s k).state.slots.item? j = if j = i then some k else s.slots.item? j

end HashSet

namespace Table

variable [BEq κ] {s : HashSet κ}

open HashSet

/-- **An equal item takes the place of the stored one.** -/
theorem Sound.replacesInPlace (h : s.Sound) {k old : κ} (hold : lookup id s.toList k = some old) :
    ReplacesInPlace s k old := by
  rcases h.entry_cases k with ⟨o, heq, hfound⟩ | ⟨hnone, -⟩
  · have hitem : o.item = old := Option.some.inj (hfound.lookup_eq.symm.trans hold)
    have hlt := s.slots.lt_slotCount_of_item? hfound.item
    have hreplace : HashSet.replace s k = .done (s.update o fun _ ↦ k).1 (some o.item) := by
      rw [HashSet.replace, heq]
      rfl
    subst hitem
    refine ⟨?_, ?_, o.index, hfound.item, fun j ↦ ⟨?_, ?_⟩⟩
    · rw [hreplace, Outcome.result_done]
    · rw [hreplace]
      rfl
    · rw [hreplace]
      exact SlotArray.tag_setItem ..
    · rw [hreplace]
      exact (SlotArray.item?_setItem ..).trans (if_congr (and_iff_left hlt) rfl rfl)
  · rw [hold] at hnone
    cases hnone

omit [BEq κ] in
/-- Visits that leave items as they are keep to every reflexive relation. -/
theorem visitsKeep_visitItem {R : κ → κ → Prop} (hR : ∀ a, R a a)
    (keep : σ → κ → σ × Except Fault Bool) (state : σ) (items : List κ) :
    VisitsKeep R (visitItem keep) state items := by
  induction items generalizing state with
  | nil => exact trivial
  | cons a items ih => exact ⟨hR a, fun _ ↦ ih _⟩

/-- **Every call of a set does what it means.** -/
theorem Sound.fulfils_set (h : s.Sound) (c : HashSet.Call σ κ) :
    Fulfils s (c.exec s) c.meaning := by
  cases c with
  | access a => exact (h.handles_set a).fulfils
  | insertMany items hint => exact h.fulfils_emplaceMany hint items Reply.count
  | extend items hint =>
    rw [HashSet.Call.exec, HashSet.extend, Outcome.andThen_map, Outcome.map_map]
    exact h.fulfils_emplaceMany _ items fun _ ↦ Reply.unit
  | retain keep state =>
    have hvisit := visitsKeep_visitItem (R := fun a b ↦ s.setup.hash b = s.setup.hash a)
      (fun _ ↦ rfl) keep state s.toList
    exact h.fulfils_retain state hvisit Reply.state
  | upkeep u => exact h.fulfils_upkeep u Reply.report

end Table

/-! ### Runs -/

namespace HashSet

/-- **A set refines a finite set of representatives**: what a user sees of a run of calls that
return is what that finite set would have shown, a walk at the end yields the representatives, each
once, and an equal item takes the place of a representative without moving anything. -/
theorem run_refines_finite_set [BEq κ] [EquivBEq κ] (setup : Setup κ) {s : HashSet κ}
    {log : List (Exchange (Call σ κ) (Reply σ κ))}
    (h : Run (Returns Call.exec) (Table.empty id setup) log s) :
    ∃ contents, Run (Specified id Call.meaning) [] log contents ∧ Distinct id contents ∧
      (∀ n, s.size ≤ n → (s.walk n s.cursor).1.Perm contents) ∧
      ∀ k old, lookup id contents k = some old → ReplacesInPlace s k old := by
  obtain ⟨contents, hrun, hrefines⟩ :=
    exists_run_specified (fun _ c hs ↦ hs.fulfils_set c) Call.keepsKeys_meaning h
  refine ⟨contents, hrun, hrefines.distinct, fun n hn ↦ hrefines.walk_perm hn, fun k old hold ↦ ?_⟩
  rw [← (hrefines.distinct.perm hrefines.perm.symm).lookup_perm hrefines.perm] at hold
  exact hrefines.sound.replacesInPlace hold

/-- A run in which equal items with other labels come back: the label that came first stays, until
it is replaced. -/
def relabelled : List (Exchange (Call Unit Labelled) (Reply Unit Labelled)) :=
  [⟨.access (.insert ⟨1, "first"⟩), .flag true, 1⟩,
    ⟨.access (.emplace ⟨1, "second"⟩), .placed ⟨1, "first"⟩ false, 1⟩,
    ⟨.extend [⟨2, "other"⟩, ⟨1, "third"⟩] 2, .unit, 2⟩,
    ⟨.access (.getOrInsertWith ⟨1, "fourth"⟩ .ok), .item ⟨1, "first"⟩, 2⟩,
    ⟨.access (.replace ⟨1, "fifth"⟩), .item? (some ⟨1, "first"⟩), 2⟩,
    ⟨.access (.take ⟨1, "sixth"⟩), .item? (some ⟨1, "fifth"⟩), 1⟩]

theorem exists_run_relabelled : ∃ s : HashSet Labelled,
    Run (Returns Call.exec) (Table.empty id (.colliding Labelled)) relabelled s := by
  refine ⟨_, .cons ⟨rfl, ?_, ?_⟩ (.cons ⟨rfl, ?_, ?_⟩ (.cons ⟨rfl, ?_, ?_⟩
    (.cons ⟨rfl, ?_, ?_⟩ (.cons ⟨rfl, ?_, ?_⟩ (.cons ⟨rfl, ?_, ?_⟩ (.nil _))))))⟩
  all_goals decide +kernel

theorem run_refines_finite_set_relabelled : ∃ s : HashSet Labelled,
    Run (Returns Call.exec) (Table.empty id (.colliding Labelled)) relabelled s ∧
      ∃ contents, Run (Specified id Call.meaning) [] relabelled contents ∧ Distinct id contents ∧
        (∀ n, s.size ≤ n → (s.walk n s.cursor).1.Perm contents) ∧
        ∀ k old, lookup id contents k = some old → ReplacesInPlace s k old := by
  obtain ⟨s, h⟩ := exists_run_relabelled
  exact ⟨s, h, run_refines_finite_set _ h⟩

end HashSet

end ProbeWindow
