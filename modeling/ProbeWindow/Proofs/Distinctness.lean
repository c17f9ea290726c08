import ProbeWindow.Proofs.Map.Refinement
import ProbeWindow.Proofs.Set.Refinement
import ProbeWindow.Proofs.Table.Bank
import ProbeWindow.Proofs.Table.Uniqueness

/-!
# Maps and sets have distinct keys

Every insertion into a map or a set looks up the key that it inserts, and the changes that a user
makes never reach a key. So maps and sets are **proper** all along a run, that is sound and with
distinct keys, and also when calls end with a fault halfway: what a fault interrupts is a sequence
of single insertions, each of which leaves a proper map. Only copies need an assumption, since a
user makes them.
-/

namespace ProbeWindow

universe u v w x

variable {α : Type x} {κ : Type u} {ν : Type v} {σ ρ : Type w} [BEq κ] [EquivBEq κ]

open Contents

namespace Table

variable {key : α → κ} {t t' : Table key}

/-- The table is sound, and its keys are distinct. -/
structure Proper (t : Table key) : Prop where
  /-- The table is sound. -/
  sound : t.Sound
  /-- The keys are distinct. -/
  distinct : Distinct key t.toList

omit [EquivBEq κ] in
theorem proper_empty (key : α → κ) (setup : Setup κ) : (empty key setup).Proper :=
  ⟨sound_empty setup, by rw [(bare_empty setup).toList_eq]; exact distinct_nil⟩

theorem Proper.rehoused (h : t.Proper) (h' : Rehoused t t') : t'.Proper :=
  ⟨h'.sound, h.distinct.perm h'.perm.symm⟩

/-- An item is added for an absent key. -/
theorem Proper.added (h : t.Proper) {o : Occupant α} (h' : Added t t' o)
    (hnone : lookup key t.toList (key o.item) = none) : t'.Proper :=
  ⟨h'.sound, (h.distinct.cons hnone).perm h'.perm.symm⟩

/-- A call on one key that leaves an item of that key, or none. -/
theorem Proper.handled (h : t.Proper) {k : κ} {act : Act α ρ} {out : Outcome (Table key) ρ}
    (h' : Handles t k act out)
    (hkey : ∀ a ∈ (act (lookup key t.toList k)).1, (key a == k) = true) : out.state.Proper := by
  rcases h' with hserves | hrefused
  · exact ⟨hserves.sound, (h.distinct.revise hkey).perm hserves.perm.symm⟩
  · exact h.rehoused hrefused.rehoused

/-- Insertions one by one leave a proper table, also when one of them ends with a fault. -/
theorem Proper.emplaceEach (h : t.Proper) (count : Nat) (items : List α) :
    (t.emplaceEach count items).state.Proper := by
  induction items generalizing t count with
  | nil => exact h
  | cons a items ih =>
    rw [Table.emplaceEach]
    rcases h.sound.emplace_cases a with ⟨o, heq, -⟩ |
      ⟨hnone, -, t', events, o, heq, hitem, hadded⟩ | ⟨t', events, fault, heq, hrehoused, -⟩ <;>
      rw [heq]
    · exact ih h count
    · exact ih (h.added hadded (hitem ▸ hnone)) (count + 1)
    · exact h.rehoused hrehoused

/-- A call that makes room before it goes on. -/
theorem Proper.reserve_andThen (h : t.Proper) (additional : Nat)
    {next : Table key → Unit → Outcome (Table key) ρ}
    (hnext : ∀ t', t'.Proper → (next t' ()).state.Proper) :
    ((t.reserve additional).andThen next).state.Proper := by
  rcases h.sound.reserve_andThen_cases additional next with
    ⟨-, -, hrehoused⟩ | ⟨t', hrehoused, hstate, -⟩
  · exact h.rehoused hrehoused
  · rw [hstate]
    exact hnext t' (h.rehoused hrehoused)

theorem Proper.emplaceMany (h : t.Proper) (hint : Nat) (items : List α) :
    ((t.reserve hint).andThen fun t () ↦ t.emplaceEach 0 items).state.Proper :=
  h.reserve_andThen hint fun _ ht' ↦ ht'.emplaceEach 0 items

omit [EquivBEq κ] in
/-- A retention whose visits leave the keys as they are. -/
theorem Proper.retain (h : t.Proper) {visit : σ → α → Visit σ α}
    (hvisit : ∀ s a, key (visit s a).item = key a) (state : σ)
    (hkeep : VisitsKeep t.SameHash visit state t.toList) : (t.retain visit state).1.Proper := by
  obtain ⟨hsound, -, hlist, -⟩ := h.sound.retain state hkeep
  exact ⟨hsound, hlist ▸ h.distinct.of_map_key (Meaning.map_key_sieve_sublist hvisit state _)⟩

theorem Proper.upkeep (h : t.Proper) (u : Upkeep) : (u.exec t).state.Proper :=
  ⟨(h.sound.upkept_exec u).sound, h.distinct.subperm (h.sound.upkept_exec u).subperm⟩

/-- A copy in which items have the keys of those that they are copies of. -/
theorem Proper.copyWith (h : t.Proper) {copy : α → Except Fault α}
    (hcopy : t.copyWith copy = .ok t')
    (hkeep : ∀ a ∈ t.toList, ∀ b, copy a = .ok b → SameKey key a b) : t'.Proper :=
  ⟨(h.sound.copyWith hcopy fun a ha b hb ↦ t.setup.hash_congr (hkeep a ha b hb)).1,
    h.sound.distinct_copyWith h.distinct hcopy hkeep⟩

end Table

/-! ### Calls -/

namespace HashMap

open Table

variable {m : HashMap κ ν}

/-- Values are set one by one. -/
theorem proper_insertEach (h : m.Proper) (count : Nat) (pairs : List (κ × ν)) :
    (HashMap.insertEach m count pairs).state.Proper := by
  induction pairs generalizing m count with
  | nil => exact h
  | cons p pairs ih =>
    have hinserted : (HashMap.insert m p.1 p.2).state.Proper :=
      h.handled (h.sound.handles_insert p) fun q hq ↦ by
        cases hold : lookup Prod.fst m.toList p.1 with
        | none =>
          rw [hold] at hq
          cases hq
          exact BEq.rfl
        | some old =>
          rw [hold] at hq
          cases hq
          have hkey : (old.1 == p.1) = true := key_of_lookup hold
          exact hkey
    rw [HashMap.insertEach]
    rcases Outcome.andThen_cases (HashMap.insert m p.1 p.2) _ with ⟨fault, -, heq⟩ | ⟨old, -, heq⟩
    · rw [heq]
      exact hinserted
    · rw [heq]
      exact ih hinserted _

/-- **Every call of a map leaves its keys distinct.** -/
theorem proper_next (h : m.Proper) (c : Call σ κ ν) : (c.next m).Proper := by
  cases c with
  | access a =>
    exact h.handled (h.sound.handles_map a) fun q hq ↦ a.key_act (fun _ hp ↦ key_of_lookup hp) hq
  | insertMany pairs hint => exact h.emplaceMany hint pairs
  | extend pairs hint =>
    rw [Call.next, Call.exec, Outcome.state_map, HashMap.extend]
    exact h.reserve_andThen _ fun _ hm' ↦ proper_insertEach hm' 0 pairs
  | iterMut change n =>
    obtain ⟨hsound, -, hlist, -⟩ := h.sound.walkUpdating (f := changeValue change) n fun _ _ ↦ rfl
    refine ⟨hsound, ?_⟩
    have hkeys : (((m.toList.take n).map (changeValue change) ++ m.toList.drop n).map Prod.fst) =
        m.toList.map Prod.fst := by
      rw [List.map_append, List.map_map,
        show Prod.fst ∘ changeValue change = Prod.fst from rfl, ← List.map_append,
        List.take_append_drop]
    exact h.distinct.of_map_key (hlist ▸ hkeys ▸ .refl _)
  | retain visit state =>
    exact h.retain (fun _ _ ↦ rfl) state
      (visitsKeep_visitValue (fun _ _ ↦ rfl) visit state m.toList)
  | upkeep u => exact h.upkeep u

end HashMap

namespace HashSet

open Table

variable {s : HashSet κ}

/-- **Every call of a set leaves its items distinct.** -/
theorem proper_next (h : s.Proper) (c : Call σ κ) : (c.next s).Proper := by
  cases c with
  | access a =>
    exact h.handled (h.sound.handles_set a) fun b hb ↦ a.key_act (fun _ hc ↦ key_of_lookup hc) hb
  | insertMany items hint => exact h.emplaceMany hint items
  | extend items hint =>
    rw [Call.next, Call.exec, Outcome.state_map, HashSet.extend]
    exact h.reserve_andThen _ fun _ hs' ↦ hs'.emplaceEach 0 items
  | retain keep state =>
    exact h.retain (fun _ _ ↦ rfl) state
      (visitsKeep_visitItem (R := s.SameHash) (fun _ ↦ rfl) keep state s.toList)
  | upkeep u => exact h.upkeep u

end HashSet

/-! ### Runs -/

section Run

variable {setups : Nat → Setup κ}

/-- **Maps are proper all along a run**, when copies keep keys. -/
theorem HashMap.proper_run {cs : List (Bank.Command (HashMap.Call σ κ ν) (κ × ν))}
    (hcs : Bank.Admits HashMap.Call.next (fun _ _ ↦ True) (fun _ ↦ Table.SameKey Prod.fst)
      (Bank.fresh Prod.fst setups) cs) (r : Nat) :
    (Bank.run HashMap.Call.next (Bank.fresh Prod.fst setups) cs r).Proper :=
  Bank.run_preserves (fun _ c hm _ ↦ HashMap.proper_next hm c)
    (fun _ _ _ hm hcopy hkeep ↦ hm.copyWith hcopy hkeep) hcs
    (fun r ↦ Table.proper_empty Prod.fst (setups r)) r

/-- **Sets are proper all along a run**, when copies keep keys. -/
theorem HashSet.proper_run {cs : List (Bank.Command (HashSet.Call σ κ) κ)}
    (hcs : Bank.Admits HashSet.Call.next (fun _ _ ↦ True) (fun _ ↦ Table.SameKey id)
      (Bank.fresh id setups) cs) (r : Nat) :
    (Bank.run HashSet.Call.next (Bank.fresh id setups) cs r).Proper :=
  Bank.run_preserves (fun _ c hs _ ↦ HashSet.proper_next hs c)
    (fun _ _ _ hs hcopy hkeep ↦ hs.copyWith hcopy hkeep) hcs
    (fun r ↦ Table.proper_empty id (setups r)) r

end Run

end ProbeWindow
