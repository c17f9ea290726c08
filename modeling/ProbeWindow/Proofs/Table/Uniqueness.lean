import ProbeWindow.Proofs.Run
import ProbeWindow.Proofs.Table.Bank
import ProbeWindow.Proofs.Table.Calls
import Mathlib.Data.List.GetD

/-!
# Uniqueness of keys

When two slots of a table can have items with equal keys. The calls that insert look the key up
first, with one exception: a vacant entry is filled with any item that has the hash of its key, and
what is known to be absent is the key of the entry, not that of the item. So a call may **overfill**
the table (`Access.Overfills`), and this is the only way: along a run in which changes and copies
keep keys, the keys are unique for as long as no call overfills its table
(`keysUnique_run_iff`).
-/

namespace ProbeWindow

universe u v w

variable {α : Type u} {κ : Type v} {σ : Type w} [BEq κ] {key : α → κ}

open Contents

namespace Table

/-- Two items have equal keys. -/
abbrev SameKey (key : α → κ) (a b : α) : Prop := (key b == key a) = true

/-- No two slots have items with equal keys. -/
def KeysUnique (t : Table key) : Prop :=
  ∀ i j a b, t.slots.item? i = some a → t.slots.item? j = some b → (key a == key b) = true → i = j

theorem keysUnique_iff [EquivBEq κ] {t : Table key} :
    t.KeysUnique ↔ Distinct key t.toList := by
  rw [toList, SlotArray.toList, Distinct, List.pairwise_filterMap, List.pairwise_iff_getElem]
  have hget : ∀ (i : Nat) (hi : i < t.slots.items.toList.length) (a : α),
      t.slots.items.toList[i] = some a ↔ t.slots.item? i = some a := by
    intro i hi a
    rw [SlotArray.item?_eq_getD_toList, List.getD_eq_getElem _ _ hi]
  constructor
  · intro h i j hi hj hij a ha b hb
    by_contra hne
    have heq := h i j a b ((hget i hi a).mp ha) ((hget j hj b).mp hb) (Bool.not_eq_false _ ▸ hne)
    exact Nat.ne_of_lt hij heq
  · intro h
    have hlt : ∀ i j a b, i < j → t.slots.item? i = some a → t.slots.item? j = some b →
        (key a == key b) = false := by
      intro i j a b hij ha hb
      have hi : i < t.slots.items.toList.length := t.slots.lt_slotCount_of_item? ha
      have hj : j < t.slots.items.toList.length := t.slots.lt_slotCount_of_item? hb
      exact h i j hi hj hij a ((hget i hi a).mpr ha) b ((hget j hj b).mpr hb)
    intro i j a b ha hb hab
    rcases Nat.lt_trichotomy i j with hij | rfl | hji
    · rw [hlt i j a b hij ha hb] at hab
      cases hab
    · rfl
    · rw [BEq.comm, hlt j i b a hji hb ha] at hab
      cases hab

/-! ### One call -/

/-- A vacant entry takes an item whose key is there. -/
def Access.Overfills (t : Table key) : Access α κ → Prop
  | entry k use => lookup key t.toList k = none ∧ ∃ item change r,
      use.offer = .ok (some (item, change)) ∧ (lookup key t.toList (key item)).isSome = true ∧
        ((Access.entry k use).exec t).result = .ok r
  | _ => False

/-- A call on one key fills a vacant entry with an item whose key is there. -/
def Call.Overfills (t : Table key) : Call σ α κ → Prop
  | access a => a.Overfills t
  | _ => False

theorem Access.Overfills.exists_entry {t : Table key} {a : Access α κ} (h : a.Overfills t) :
    ∃ k use, a = .entry k use ∧ lookup key t.toList k = none := by
  cases a with
  | entry k use => exact ⟨k, use, rfl, h.1⟩
  | _ => exact h.elim

section Call

variable [EquivBEq κ] {t : Table key}

/-- **A call on one key leaves an item of that key**, or none, unless it fills a vacant entry. -/
theorem Access.key_act {setup : Setup κ} {a : Access α κ} {old : Option α}
    (hold : ∀ b ∈ old, (key b == a.keyOf key) = true) (hkeep : a.Keeps setup key (SameKey key) old)
    (hentry : ∀ k use, a = .entry k use → old ≠ none) {b : α}
    (hb : b ∈ (a.act setup key old).1) : (key b == a.keyOf key) = true := by
  cases old with
  | some c => exact BEq.trans (a.keeps_act_some (fun _ ↦ BEq.rfl) hkeep hb) (hold c rfl)
  | none =>
    cases a with
    | find | contains | erase | modify => cases hb
    | emplace item change => cases hb; exact hkeep
    | tryEmplaceWith k make change =>
      rw [Access.act] at hb
      cases hbuilt : built key k make with
      | error fault => rw [hbuilt] at hb; cases hb
      | ok item =>
        rw [hbuilt] at hb
        cases hb
        exact BEq.trans (hkeep item hbuilt) (key_of_built hbuilt)
    | entry k use => exact absurd rfl (hentry k use rfl)

/-- **A vacant entry that is used keeps keys distinct** unless it takes an item whose key is
there. -/
theorem Serves.distinct_vacant_iff (hdistinct : Distinct key t.toList) {k : κ}
    (hnone : lookup key t.toList k = none) {use : EntryUse α} {out : Outcome (Table key) (Answer α)}
    (h : Serves t k (use.act t.setup key k) out)
    (hkeep : use.Keeps t.setup key (SameKey key) k none) :
    Distinct key out.state.toList ↔ ¬ ∃ item change r, use.offer = .ok (some (item, change)) ∧
      (lookup key t.toList (key item)).isSome = true ∧ out.result = .ok r := by
  have hperm := h.perm
  have hresult := h.result_eq
  rw [hnone, revise_of_lookup_none hnone] at hperm
  rw [hnone] at hresult
  rw [distinct_perm_iff hperm]
  cases hoffer : use.offer with
  | error fault =>
    simp only [EntryUse.act, hoffer]
    refine iff_of_true hdistinct ?_
    rintro ⟨_, _, _, hnot, -⟩
    cases hnot
  | ok offer =>
    cases offer with
    | none =>
      simp only [EntryUse.act, hoffer]
      refine iff_of_true hdistinct ?_
      rintro ⟨_, _, _, hnot, -⟩
      cases hnot
    | some p =>
      simp only [EntryUse.act, hoffer, fillAct] at hresult ⊢
      by_cases hhash : t.setup.hash (key p.1) = t.setup.hash k
      · have hkey : (key (p.2 p.1) == key p.1) = true := hkeep p.1 p.2 hoffer hhash
        rw [if_pos hhash] at hresult ⊢
        rw [Option.toList_some, List.singleton_append, hdistinct.cons_iff, lookup_congr hkey,
          ← Option.not_isSome_iff_eq_none, not_iff_not]
        constructor
        · exact fun hsome ↦ ⟨p.1, p.2, _, rfl, hsome, hresult⟩
        · rintro ⟨item, change, r, heq, hsome, -⟩
          cases heq
          exact hsome
      -- an item of another hash is refused, so nothing is taken
      · rw [if_neg hhash] at hresult ⊢
        refine iff_of_true hdistinct ?_
        rintro ⟨-, -, r, -, -, hr⟩
        rw [hresult] at hr
        cases hr

/-- A call on one key keeps keys distinct unless it overfills the table. -/
theorem Sound.distinct_access_iff (h : t.Sound) (hdistinct : Distinct key t.toList)
    {a : Access α κ}
    (hkeep : a.Keeps t.setup key (SameKey key) (lookup key t.toList (a.keyOf key))) :
    Distinct key (a.exec t).state.toList ↔ ¬a.Overfills t := by
  have hhandles := h.handles a (hkeep.mono fun _ _ ↦ t.setup.hash_congr)
  -- all other calls leave an item of the key that they looked up
  by_cases hvacant : ∃ k use, a = .entry k use ∧ lookup key t.toList k = none
  · obtain ⟨k, use, rfl, hnone⟩ := hvacant
    rcases hhandles with hserves | hrefused
    · have hkeep' : use.Keeps t.setup key (SameKey key) k none := hnone ▸ hkeep
      rw [hserves.distinct_vacant_iff hdistinct hnone hkeep']
      exact not_congr (and_iff_right hnone).symm
    · refine iff_of_true (hdistinct.perm hrefused.rehoused.perm.symm) ?_
      rintro ⟨-, -, -, r, -, -, hr⟩
      obtain ⟨fault, hfault⟩ := hrefused.failed
      rw [hfault] at hr
      cases hr
  · refine iff_of_true ?_ fun hover ↦ hvacant hover.exists_entry
    rcases hhandles with hserves | hrefused
    · refine (hdistinct.revise fun b hb ↦ ?_).perm hserves.perm.symm
      exact Access.key_act (fun c hc ↦ key_of_lookup hc) hkeep
        (fun k use heq hnone ↦ hvacant ⟨k, use, heq, by subst heq; exact hnone⟩) hb
    · exact hdistinct.perm hrefused.rehoused.perm.symm

/-- **A call keeps keys distinct unless it overfills the table.** -/
theorem Sound.distinct_next_iff (h : t.Sound) (hdistinct : Distinct key t.toList)
    {c : Call σ α κ} (hkeep : c.Keeps (SameKey key) t) :
    Distinct key (c.next t).toList ↔ ¬c.Overfills t := by
  cases c with
  | access a => exact h.distinct_access_iff hdistinct hkeep
  | iterMut change n =>
    refine iff_of_true ?_ not_false
    obtain ⟨-, -, hlist, -⟩ := h.walkUpdating n fun a ha ↦ t.setup.hash_congr (hkeep a ha)
    have hchanged : List.Forall₂ (SameKey key) (t.toList.take n) ((t.toList.take n).map change) :=
      List.forall₂_map_right_iff.mpr (List.forall₂_same.mpr hkeep)
    have hrest : List.Forall₂ (SameKey key) (t.toList.drop n) (t.toList.drop n) :=
      List.forall₂_same.mpr fun _ _ ↦ BEq.rfl
    have hall : List.Forall₂ (SameKey key) (t.toList.take n ++ t.toList.drop n)
        ((t.toList.take n).map change ++ t.toList.drop n) := List.rel_append hchanged hrest
    rw [List.take_append_drop, ← hlist] at hall
    exact hdistinct.of_forall₂ hall
  | retain visit state =>
    refine iff_of_true ?_ not_false
    obtain ⟨-, -, hlist, -⟩ := h.retain state (hkeep.mono fun _ _ ↦ t.setup.hash_congr)
    obtain ⟨kept, hsub, hkept⟩ := hkeep.exists_sublist fun _ ↦ BEq.rfl
    rw [← hlist] at hkept
    exact Distinct.of_forall₂ (hdistinct.sublist hsub) hkept
  | upkeep u => exact iff_of_true (hdistinct.subperm (h.upkept_exec u).subperm) not_false

/-- A copy has distinct keys when copying keeps keys. -/
theorem Sound.distinct_copyWith (h : t.Sound) (hdistinct : Distinct key t.toList) {t' : Table key}
    {copy : α → Except Fault α} (hcopy : t.copyWith copy = .ok t')
    (hkeep : ∀ a ∈ t.toList, ∀ b, copy a = .ok b → SameKey key a b) : Distinct key t'.toList := by
  obtain ⟨-, -, hcopies⟩ :=
    h.copyWith hcopy fun a ha b hb ↦ t.setup.hash_congr (hkeep a ha b hb)
  refine hdistinct.of_forall₂ (List.forall₂_iff_get.mpr ⟨hcopies.length_eq, fun i hi hi' ↦ ?_⟩)
  exact hkeep _ (List.get_mem _ _) _ (hcopies.get hi hi')

end Call

end Table

/-! ### Runs -/

namespace Bank

/-- A command has a call overfill its table. -/
def Command.Overfills (bank : Bank key) : Command (Table.Call σ α κ) α → Prop
  | .call r c => c.Overfills (bank r)
  | _ => False

/-- **A command keeps keys distinct in all tables of a bank unless it overfills one.** -/
theorem distinct_exec_iff [EquivBEq κ] {bank : Bank key} {c : Command (Table.Call σ α κ) α}
    (hsound : ∀ r, (bank r).Sound) (hdistinct : ∀ r, Distinct key (bank r).toList)
    (hc : Keeps (fun t c ↦ c.Keeps (Table.SameKey key) t) (fun _ ↦ Table.SameKey key) bank c) :
    (∀ r, Distinct key (exec Table.Call.next bank c r).toList) ↔ ¬c.Overfills bank := by
  -- the other registers are as they were
  have hupdate : ∀ s t, (∀ r, Distinct key (Function.update bank s t r).toList) ↔
      Distinct key t.toList :=
    forall_update_iff (P := fun t ↦ Distinct key t.toList) hdistinct
  cases c with
  | call r c => exact (hupdate r _).trans ((hsound r).distinct_next_iff (hdistinct r) hc)
  | clone source target copy =>
    refine iff_of_true ?_ not_false
    cases ht : (bank source).copyWith copy with
    | error fault => simpa only [exec, ht] using hdistinct
    | ok t =>
      simp only [exec, ht]
      exact (hupdate target t).mpr
        ((hsound source).distinct_copyWith (hdistinct source) ht hc)
  | swap r s => exact iff_of_true (fun r' ↦ hdistinct _) not_false

end Bank

/-- **Keys are unique all along a run if and only if no call of it overfills its table**, when
changes and copies keep keys. -/
theorem keysUnique_run_iff [EquivBEq κ] (setups : Nat → Setup κ)
    {cs : List (Bank.Command (Table.Call σ α κ) α)}
    (hcs : Bank.Admits Table.Call.next (fun t c ↦ c.Keeps (Table.SameKey key) t)
      (fun _ ↦ Table.SameKey key) (Bank.fresh key setups) cs) :
    (∀ n r, (Bank.run Table.Call.next (Bank.fresh key setups) (cs.take n) r).KeysUnique) ↔
      ∀ (n : Nat) (c : Bank.Command (Table.Call σ α κ) α), cs[n]? = some c →
        ¬c.Overfills (Bank.run Table.Call.next (Bank.fresh key setups) (cs.take n)) := by
  simp only [Table.keysUnique_iff]
  refine Bank.forall_run_take_iff (S := fun bank ↦ ∀ r, (bank r).Sound)
    (D := fun bank ↦ ∀ r, Distinct key (bank r).toList) ?_
    (fun bank c hsound hdistinct hc ↦ Bank.distinct_exec_iff hsound hdistinct hc) hcs
    (fun r ↦ Table.sound_empty (setups r)) fun r ↦ ?_
  · refine fun bank c hsound hc ↦ Bank.exec_preserves ?_ ?_ hc hsound
    · intro t c ht hkeep
      exact (ht.next c (Table.Call.Keeps.mono (fun _ _ ↦ t.setup.hash_congr) hkeep)).1
    · intro t t' copy ht hcopy hkeep
      exact (ht.copyWith hcopy fun a ha b hb ↦ t.setup.hash_congr (hkeep a ha b hb)).1
  · rw [Bank.fresh, (Table.bare_empty (setups r)).toList_eq]
    exact distinct_nil

/-- A vacant entry of one key is filled with an item of another key that is there already. The two
keys have the same hash, so the item is accepted. -/
def Bank.overfilling : List (Bank.Command (Table.Call Unit UInt64 UInt64) UInt64) :=
  [.call 0 (.access (.emplace 2 id)), .call 0 (.access (.entry 1 (.matched (some (2, id)) none)))]

theorem admits_overfilling :
    Bank.Admits Table.Call.next (fun t c ↦ c.Keeps (Table.SameKey id) t)
      (fun _ ↦ Table.SameKey id) (Bank.fresh id fun _ ↦ .colliding UInt64) Bank.overfilling := by
  have hkeep : ∀ setup old, (Table.EntryUse.matched (some (2, id)) none).Keeps setup id
      (Table.SameKey (id : UInt64 → UInt64)) 1 old := by
    rintro setup (- | a)
    · intro item change hoffer _
      cases hoffer
      rfl
    · trivial
  exact ⟨rfl, hkeep _ _, trivial⟩

theorem keysUnique_run_iff_overfilling :
    Bank.Admits Table.Call.next (fun t c ↦ c.Keeps (Table.SameKey id) t)
      (fun _ ↦ Table.SameKey id) (Bank.fresh id fun _ ↦ .colliding UInt64) Bank.overfilling ∧
    ((∀ n r, (Bank.run Table.Call.next (Bank.fresh id fun _ ↦ .colliding UInt64)
        (Bank.overfilling.take n) r).KeysUnique) ↔
      ∀ (n : Nat) (c : Bank.Command (Table.Call Unit UInt64 UInt64) UInt64),
        Bank.overfilling[n]? = some c →
          ¬c.Overfills (Bank.run Table.Call.next (Bank.fresh id fun _ ↦ .colliding UInt64)
            (Bank.overfilling.take n))) :=
  ⟨admits_overfilling, keysUnique_run_iff _ admits_overfilling⟩

/-- **Not every run keeps keys unique.** -/
theorem not_forall_keysUnique_run :
    ¬∀ cs : List (Bank.Command (Table.Call Unit UInt64 UInt64) UInt64),
      Bank.Admits Table.Call.next (fun t c ↦ c.Keeps (Table.SameKey id) t)
          (fun _ ↦ Table.SameKey id) (Bank.fresh id fun _ ↦ .colliding UInt64) cs →
        ∀ r, (Bank.run Table.Call.next (Bank.fresh id fun _ ↦ .colliding UInt64)
          cs r).KeysUnique := by
  intro h
  have hunique := h Bank.overfilling admits_overfilling 0
  have heq := hunique 0 1 2 2 (by decide +kernel) (by decide +kernel) (by decide)
  cases heq

end ProbeWindow
