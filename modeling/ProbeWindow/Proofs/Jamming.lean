import ProbeWindow.Proofs.Table.Securing

/-!
# A failed insertion fails all later ones

An insertion that finds its window full marks the table before it grows. When that growth fails, the
mark stays: the table is **jammed**. The next insertion of an absent key grows before it looks for a
vacancy, by the same request as the growth that failed, and fails with the same fault. So a key
that would have found a vacancy without growth is refused as well, for as long as the table is not
resized or cleared.

An insertion also fails when its item does not get a block, but then the next one does not either.

Nothing else is lost: what the failed insertion leaves holds the same items and answers every
look-up as before.
-/

namespace ProbeWindow

universe u v w x

open Table

namespace Table

variable {α : Type u} {κ : Type v} [BEq κ] {key : α → κ} {t : Table key} {fault : Fault}

/-- The next insertion grows first, and the growth fails. -/
structure Jammed (t : Table key) (fault : Fault) : Prop where
  /-- The next insertion grows first. -/
  mustGrow : t.mustGrow = true
  /-- The growth fails. -/
  grow_eq : t.grow = .fail t fault

/-! ### How a table is jammed -/

/-- Settling marks the table before the growth that fails. -/
theorem jammed_settle {hash : UInt64} (h : (t.settle hash).result = .error fault) :
    Jammed (t.settle hash).state fault := by
  fun_induction Table.settle t hash with
  | case1 => cases h
  | case2 t home hv grown events fault' hfault =>
    cases h
    have hgrow := grow_eq_fail hfault
    have hstate : grown.state = t.markSaturated := congrArg Outcome.state hgrow
    simp only [hstate]
    exact ⟨rfl, hgrow⟩
  | case3 t home hv grown events hgrown ih => exact ih h

/-- **A seat that cannot be secured jams the table.** -/
theorem jammed_secure {hash : UInt64} (h : (t.secure hash).result = .error fault) :
    Jammed (t.secure hash).state fault := by
  rcases t.secure_outcomes hash with ⟨fault', hmust, hgrow, heq⟩ | ⟨-, -, heq⟩ | ⟨-, heq⟩ <;>
    rw [heq] at h ⊢
  · cases h
    exact ⟨hmust, hgrow⟩
  · exact jammed_settle h
  · exact jammed_settle h

/-! ### What a jammed table refuses -/

theorem setup_entry (t : Table key) (k : κ) : (t.entry k).state.setup = t.setup := by
  rcases t.state_entry k with heq | heq <;> rw [heq]
  exact (t.secure_hash _).1

theorem Jammed.secure_eq (h : Jammed t fault) (hash : UInt64) : t.secure hash = .fail t fault := by
  rw [secure, if_pos h.mustGrow, h.grow_eq]
  rfl

theorem locate?_of_not_contains {k : κ} (h : t.contains k = false) :
    t.locate? (t.setup.hash k) k = none := by
  rwa [contains, occupant?, Option.isSome_eq_false_iff, Option.isNone_iff_eq_none] at h

theorem Enlarged.contains_eq {t' : Table key} (h : Enlarged t t') (hs : t.Sound) (k : κ) :
    t'.contains k = t.contains k := by
  rw [h.sound.contains_eq, hs.contains_eq, ← h.sound.find?_eq, ← hs.find?_eq, h.find?_eq hs]

/-- **A jammed table has no entry for an absent key.** -/
theorem Jammed.entry_eq (h : Jammed t fault) {k : κ} (hk : t.contains k = false) :
    t.entry k = .fail t fault := by
  simp only [entry, locate?_of_not_contains hk, h.secure_eq]
  rfl

/-- **A jammed table takes no item with an absent key**, even if the item gets its block. -/
theorem Jammed.emplace_eq (h : Jammed t fault) (hhouse : t.setup.house = .ok ()) {item : α}
    (hk : t.contains (key item) = false) : t.emplace item = .fail t fault := by
  simp only [emplace, hhouse, accept, locate?_of_not_contains hk, h.secure_eq]
  rfl

/-! ### Insertions that fail -/

/-- **After an insertion that fails, every insertion of an absent key fails** with the same fault,
and changes nothing: no item gets its block, or the table is jammed. -/
theorem Sound.emplace_after_fault (hs : t.Sound) {a b : α}
    (ha : (t.emplace a).result = .error fault) (hb : t.contains (key b) = false) :
    (t.emplace a).state.emplace b = .fail (t.emplace a).state fault := by
  rcases t.emplace_outcomes a with ⟨fault', hhouse, heq⟩ | ⟨hhouse, heq⟩ <;> rw [heq] at ha ⊢
  · cases ha
    exact t.emplace_of_refused b hhouse
  · obtain ⟨hsecure, hstate⟩ := secure_of_accept_error ha
    have henlarged := hs.enlarged_secure (t.setup.hash (key a))
    rw [hstate]
    exact (jammed_secure hsecure).emplace_eq (by rw [henlarged.setup_eq, hhouse])
      ((henlarged.contains_eq hs _).trans hb)

/-- **After an entry that cannot be had, no entry of an absent key can be had.** -/
theorem Sound.entry_after_fault (hs : t.Sound) {j k : κ} (hj : (t.entry j).result = .error fault)
    (hk : t.contains k = false) : (t.entry j).state.entry k = .fail (t.entry j).state fault := by
  cases hfound : t.locate? (t.setup.hash j) j with
  | some o =>
    simp only [entry, hfound] at hj
    cases hj
  | none =>
    have hentry : t.entry j = (t.secure (t.setup.hash j)).map .vacant := by
      simp only [entry, hfound]
    rw [hentry] at hj ⊢
    have henlarged := hs.enlarged_secure (t.setup.hash j)
    exact (jammed_secure (Outcome.error_of_result_map hj)).entry_eq
      ((henlarged.contains_eq hs _).trans hk)

end Table

namespace HashMap

variable {κ : Type u} {ν : Type v} [BEq κ] {m : HashMap κ ν} {k : κ} {v : ν} {fault : Fault}

/-- **To set a value fails** when the entry of the key cannot be had; or the entry is vacant, and the
pair does not get its block. -/
theorem insert_error_cases (h : (insert m k v).result = .error fault) :
    (insert m k v).state = (Table.entry m k).state ∧
      ((Table.entry m k).result = .error fault ∨
        m.setup.house = .error fault ∧ ∃ seat, (Table.entry m k).result = .ok (.vacant seat)) := by
  rw [insert] at h ⊢
  rcases Outcome.andThen_cases (Table.entry m k) _ with ⟨fault', hfault, heq⟩ | ⟨e, he, heq⟩ <;>
    rw [heq] at h ⊢
  · cases h
    exact ⟨rfl, .inl hfault⟩
  · cases e with
    | occupied o => cases h
    | vacant seat =>
      rcases Table.fill_outcomes (Table.entry m k).state seat (k, v) with
        ⟨fault', hhouse, hfill⟩ | ⟨-, hfill⟩ <;> simp only [hfill] at h ⊢ <;> cases h
      exact ⟨rfl, .inr ⟨Table.setup_entry m k ▸ hhouse, seat, he⟩⟩

/-- **After a pair that could not be inserted, no pair of an absent key can be**: the map is jammed, or
pairs do not get their blocks. In that case there are none, so every key has a vacant entry. -/
theorem insert_after_fault (hm : m.Sound) (hl : m.Lodged) {a b : κ × ν}
    (ha : (insert m a.1 a.2).result = .error fault) (hb : Table.contains m b.1 = false) :
    insert (insert m a.1 a.2).state b.1 b.2 = .fail (insert m a.1 a.2).state fault := by
  obtain ⟨hstate, hentry | ⟨hhouse, seat, hseat⟩⟩ := insert_error_cases ha <;> rw [hstate, insert]
  · rw [hm.entry_after_fault hentry hb]
    rfl
  · have hnil : m.toList = [] := hl.resolve_left fun hok ↦ by rw [hok] at hhouse; cases hhouse
    obtain ⟨seat', hagain⟩ := hm.entry_of_nil hnil hseat b.1
    rw [hagain, Outcome.andThen_of_ok _ (Outcome.result_done _ _)]
    simp only [Outcome.state_done, Table.fill, Table.setup_entry, hhouse]
    rfl

end HashMap

variable {α : Type u} {κ : Type v} {ν : Type x} {σ : Type w} [BEq κ]

/-- **An insertion that ends with a fault makes every later insertion of an absent key end with that
fault**, in every table, map and set that a run leads to. -/
theorem insertion_after_fault (setups : Nat → Setup κ) (r : Nat) (fault : Fault) :
    (∀ (key : α → κ) (cs : List (Bank.Command (Table.Call σ α κ) α)),
      Bank.Admits Table.Call.next (fun t c ↦ c.Keeps t.SameHash t) SameHash
          (Bank.fresh key setups) cs →
        let t := Bank.run Table.Call.next (Bank.fresh key setups) cs r
        ∀ a b : α, (t.emplace a).result = .error fault → t.contains (key b) = false →
          (t.emplace a).state.emplace b = .fail (t.emplace a).state fault) ∧
    (∀ cs : List (Bank.Command (HashMap.Call σ κ ν) (κ × ν)),
      Bank.Admits HashMap.Call.next (fun _ _ ↦ True) SameHash (Bank.fresh Prod.fst setups) cs →
        let m := Bank.run HashMap.Call.next (Bank.fresh Prod.fst setups) cs r
        ∀ a b : κ × ν, (HashMap.insert m a.1 a.2).result = .error fault →
          Table.contains m b.1 = false →
            HashMap.insert (HashMap.insert m a.1 a.2).state b.1 b.2 =
              .fail (HashMap.insert m a.1 a.2).state fault) ∧
    ∀ cs : List (Bank.Command (HashSet.Call σ κ) κ),
      Bank.Admits HashSet.Call.next (fun _ _ ↦ True) SameHash (Bank.fresh id setups) cs →
        let s := Bank.run HashSet.Call.next (Bank.fresh id setups) cs r
        ∀ a b : κ, (HashSet.insert s a).result = .error fault → s.contains b = false →
          HashSet.insert (HashSet.insert s a).state b =
            .fail (HashSet.insert s a).state fault := by
  refine ⟨?_, ?_, ?_⟩
  · intro key cs hcs t a b ha hb
    exact (Table.sound_run hcs r).emplace_after_fault ha hb
  · intro cs hcs m a b ha hb
    exact HashMap.insert_after_fault (HashMap.sound_run hcs r) (HashMap.lodged_run hcs r) ha hb
  · intro cs hcs s a b ha hb
    have ha' : (Table.emplace s a).result = .error fault := Outcome.error_of_result_map ha
    have hsound : s.Sound := HashSet.sound_run hcs r
    have hfail := hsound.emplace_after_fault (b := b) ha' hb
    show (Table.emplace (Table.emplace s a).state b).map Prod.snd = _
    rw [hfail]
    rfl

open Bank in
/-- A further key of a full home is refused, and then a key of another home, for which there would
have been a slot. -/
theorem insertion_after_fault_crowded :
    (((filledTable 32).emplace 16).result = .error .growthLimit ∧
      ((filledTable 32).emplace 16).state.emplace 32 =
        .fail ((filledTable 32).emplace 16).state .growthLimit) ∧
    ((HashMap.insert (filledMap 32) 16 0).result = .error .growthLimit ∧
      HashMap.insert (HashMap.insert (filledMap 32) 16 0).state 32 0 =
        .fail (HashMap.insert (filledMap 32) 16 0).state .growthLimit) ∧
    (HashSet.insert (filledSet 32) 16).result = .error .growthLimit ∧
      HashSet.insert (HashSet.insert (filledSet 32) 16).state 32 =
        .fail (HashSet.insert (filledSet 32) 16).state .growthLimit := by
  obtain ⟨htables, hmaps, hsets⟩ := insertion_after_fault (α := UInt64) (ν := Nat) (σ := Unit)
    (fun _ ↦ .crowded UInt64 32 32) 0 .growthLimit
  have ht : (((filledTable 32).emplace 16).map fun _ ↦ ()).result = .error .growthLimit ∧
      (filledTable 32).contains 32 = false := by decide +kernel
  have hm : (HashMap.insert (filledMap 32) 16 0).result = .error .growthLimit ∧
      (filledMap 32).contains 32 = false := by decide +kernel
  have hs : (HashSet.insert (filledSet 32) 16).result = .error .growthLimit ∧
      (filledSet 32).contains 32 = false := by decide +kernel
  have ht' := Outcome.error_of_result_map ht.1
  exact ⟨⟨ht', htables id _ (admits_fillingTable _) 16 32 ht' ht.2⟩,
    ⟨hm.1, hmaps _ (admits_fillingMap _) (16, 0) (32, 0) hm.1 hm.2⟩,
    hs.1, hsets _ (admits_fillingSet _) 16 32 hs.1 hs.2⟩

open Bank in
/-- **A failed insertion may disable a later one**, which would have returned without it. -/
theorem not_forall_insert_after_fault :
    ¬∀ (cs : List (Command (HashSet.Call Unit UInt64) UInt64)) (a b : UInt64),
      Admits HashSet.Call.next (fun _ _ ↦ True) SameHash
          (fresh id fun _ ↦ .crowded UInt64 32 32) cs →
        let s := run HashSet.Call.next (fresh id fun _ ↦ .crowded UInt64 32 32) cs 0
        s.contains a = false → s.contains b = false → a ≠ b →
          (HashSet.insert s b).result = .ok true →
            (HashSet.insert s a).result = .error .growthLimit →
              (HashSet.insert (HashSet.insert s a).state b).result = .ok true ∧
                (HashSet.insert (HashSet.insert s a).state b).state.contains b = true := by
  intro h
  have hrun : (filledSet 32).contains 16 = false ∧ (filledSet 32).contains 32 = false ∧
      (HashSet.insert (filledSet 32) 32).result = .ok true ∧
      (HashSet.insert (filledSet 32) 16).result = .error .growthLimit ∧
      (HashSet.insert (HashSet.insert (filledSet 32) 16).state 32).result =
        .error .growthLimit := by decide +kernel
  obtain ⟨h16, h32, hok, hfault, hafter⟩ := hrun
  have hinsert := (h fillingSet 16 32 (admits_fillingSet _) h16 h32 (by decide) hok hfault).1
  cases hafter.symm.trans hinsert

end ProbeWindow
