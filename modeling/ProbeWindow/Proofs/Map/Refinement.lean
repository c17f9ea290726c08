import ProbeWindow.Proofs.Run
import ProbeWindow.Proofs.Map.Meaning
import ProbeWindow.Proofs.Map.Service
import ProbeWindow.Proofs.Table.Refinement

/-!
# A map refines a finite map

Every call of a sound map does what it means (`Sound.fulfils_map`), so a run of a map shows what a
run of a finite map would have shown (`HashMap.run_refines_finite_map`).
-/

namespace ProbeWindow

universe u v w

variable {κ : Type u} {ν : Type v} {σ : Type w} [BEq κ]

open Contents Table

namespace Table

variable {m : HashMap κ ν}

open HashMap

/-- Setting values one by one keeps a map sound, also when a call ends with a fault. -/
theorem Sound.insertEach (h : m.Sound) (count : Nat) (pairs : List (κ × ν)) :
    (HashMap.insertEach m count pairs).state.Sound ∧
      (HashMap.insertEach m count pairs).state.setup = m.setup := by
  induction pairs generalizing m count with
  | nil => exact ⟨h, rfl⟩
  | cons p pairs ih =>
    obtain ⟨hsound, hsetup⟩ := (h.handles_insert p).sound
    rw [HashMap.insertEach]
    rcases Outcome.andThen_cases (HashMap.insert m p.1 p.2) _ with ⟨fault, -, heq⟩ | ⟨old, -, heq⟩
    · rw [heq]
      exact ⟨hsound, hsetup⟩
    · rw [heq]
      obtain ⟨hsound', hsetup'⟩ := ih hsound _
      exact ⟨hsound', hsetup'.trans hsetup⟩

/-- **Values are set one by one**, and the absent keys are counted. -/
theorem Sound.insertEach_perm [EquivBEq κ] (h : m.Sound) (hdistinct : Distinct Prod.fst m.toList)
    {count n : Nat} {pairs : List (κ × ν)}
    (hn : (HashMap.insertEach m count pairs).result = .ok n) :
    (HashMap.insertEach m count pairs).state.toList.Perm
        (insertAll Prod.fst mergePair m.toList pairs).1 ∧
      n = count + (insertAll Prod.fst mergePair m.toList pairs).2 := by
  induction pairs generalizing m count with
  | nil =>
    cases hn
    exact ⟨.refl _, rfl⟩
  | cons p pairs ih =>
    rw [HashMap.insertEach] at hn ⊢
    rcases Outcome.andThen_cases (HashMap.insert m p.1 p.2) _ with
      ⟨fault, -, heq⟩ | ⟨old, hold, heq⟩
    · rw [heq] at hn
      cases hn
    · have hserves := (h.handles_insert p).serves hold
      rw [heq] at hn ⊢
      obtain ⟨hdistinct', hall, hcount⟩ :=
        hdistinct.insertAll_cons mergePair (fun _ _ h ↦ h) hserves.perm pairs
      obtain ⟨hperm, hn'⟩ := ih hserves.sound hdistinct' hn
      have hold' : old = (lookup Prod.fst m.toList p.1).map Prod.snd :=
        Except.ok.inj (hold.symm.trans hserves.result_eq)
      refine ⟨hperm.trans hall, ?_⟩
      rw [hn', hcount, hold', Option.isNone_map]
      split <;> omega

/-- Extending a map keeps it sound, also when it ends with a fault. -/
theorem Sound.extend (h : m.Sound) (pairs : List (κ × ν)) (hint : Nat) :
    (HashMap.extend m pairs hint).state.Sound ∧
      (HashMap.extend m pairs hint).state.setup = m.setup := by
  rw [HashMap.extend]
  exact h.sound_reserve_andThen fun m' hm' ↦ hm'.sound.insertEach 0 pairs

/-- **Extending a map** sets values one by one, after room is made for them. -/
theorem Sound.fulfils_extend (h : m.Sound) (pairs : List (κ × ν)) (hint : Nat) :
    Fulfils m ((HashMap.extend m pairs hint).map fun () ↦ (.unit : Reply σ κ ν))
      (.many mergePair pairs fun _ ↦ .unit : Meaning σ (κ × ν) κ (Reply σ κ ν)) := by
  obtain ⟨hsound, hsetup⟩ := h.extend pairs hint
  refine ⟨hsound, hsetup, fun _ hdistinct reply hreply ↦ ?_⟩
  rw [HashMap.extend] at hreply ⊢
  obtain ⟨u, hdone, rfl⟩ := Outcome.of_result_map hreply
  obtain ⟨m', hm', hstate, hresult⟩ := h.of_reserve_andThen hdone
  obtain ⟨n, hn, -⟩ := Outcome.of_result_map hresult
  have hdistinct' : Distinct Prod.fst m'.toList := hdistinct.perm hm'.perm.symm
  obtain ⟨hperm, -⟩ := hm'.sound.insertEach_perm hdistinct' hn
  refine ⟨rfl, ?_⟩
  rw [Outcome.state_map, hstate]
  exact hperm.trans (hdistinct'.insertAll_perm mergePair (fun _ _ h ↦ h) hm'.perm pairs).1

omit [BEq κ] in
/-- Visits of values keep to a relation that looks at keys only. -/
theorem visitsKeep_visitValue {R : κ × ν → κ × ν → Prop} (hR : ∀ p v, R p (p.1, v))
    (visit : σ → κ → ν → Visit σ ν) (state : σ) (items : List (κ × ν)) :
    VisitsKeep R (visitValue visit) state items := by
  induction items generalizing state with
  | nil => exact trivial
  | cons p items ih => exact ⟨hR p _, fun _ ↦ ih _⟩

/-- **Every call of a map does what it means.** The keys are out of reach of the user, so there is
nothing to assume of the changes. -/
theorem Sound.fulfils_map (h : m.Sound) (c : HashMap.Call σ κ ν) :
    Fulfils m (c.exec m) c.meaning := by
  cases c with
  | access a => exact (h.handles_map a).fulfils
  | insertMany pairs hint => exact h.fulfils_emplaceMany hint pairs Reply.count
  | extend pairs hint => exact h.fulfils_extend pairs hint
  | iterMut change n =>
    exact h.fulfils_walk (changeValue change) n (fun _ _ ↦ rfl) fun items ↦
      Reply.report (.items items)
  | retain visit state =>
    exact h.fulfils_retain state (visitsKeep_visitValue (fun _ _ ↦ rfl) visit state m.toList)
      Reply.state
  | upkeep u => exact h.fulfils_upkeep u Reply.report

end Table

/-! ### Runs -/

namespace HashMap

/-- **A map refines a finite map**: what a user sees of a run of calls that return, the replies and
the sizes, is what a finite map would have shown, and a walk at the end yields the pairs of that
finite map, each once. -/
theorem run_refines_finite_map [EquivBEq κ] (setup : Setup κ) {m : HashMap κ ν}
    {log : List (Exchange (Call σ κ ν) (Reply σ κ ν))}
    (h : Run (Returns Call.exec) (Table.empty Prod.fst setup) log m) :
    ∃ contents, Run (Specified Prod.fst Call.meaning) [] log contents ∧
      Distinct Prod.fst contents ∧ ∀ n, m.size ≤ n → (m.walk n m.cursor).1.Perm contents := by
  obtain ⟨contents, hrun, hrefines⟩ :=
    exists_run_specified (fun _ c hm ↦ hm.fulfils_map c) Call.keepsKeys_meaning h
  exact ⟨contents, hrun, hrefines.distinct, fun n hn ↦ hrefines.walk_perm hn⟩

/-- A run in which equal keys with other labels come back: the label that came first stays. -/
def relabelled : List (Exchange (Call Unit Labelled Nat) (Reply Unit Labelled Nat)) :=
  [⟨.access (.insert ⟨1, "first"⟩ 10), .value? none, 1⟩,
    ⟨.access (.insert ⟨2, "other"⟩ 20), .value? none, 2⟩,
    ⟨.access (.insert ⟨1, "second"⟩ 11), .value? (some 10), 2⟩,
    ⟨.extend [(⟨2, "third"⟩, 21), (⟨3, "new"⟩, 30)] 2, .unit, 3⟩,
    ⟨.access (.removeEntry ⟨1, "fourth"⟩), .pair? (some (⟨1, "first"⟩, 11)), 2⟩]

theorem exists_run_relabelled : ∃ m : HashMap Labelled Nat,
    Run (Returns Call.exec) (Table.empty Prod.fst (.colliding Labelled)) relabelled m := by
  refine ⟨_, .cons ⟨rfl, ?_, ?_⟩ (.cons ⟨rfl, ?_, ?_⟩ (.cons ⟨rfl, ?_, ?_⟩
    (.cons ⟨rfl, ?_, ?_⟩ (.cons ⟨rfl, ?_, ?_⟩ (.nil _)))))⟩
  all_goals decide +kernel

theorem run_refines_finite_map_relabelled : ∃ m : HashMap Labelled Nat,
    Run (Returns Call.exec) (Table.empty Prod.fst (.colliding Labelled)) relabelled m ∧
      ∃ contents, Run (Specified Prod.fst Call.meaning) [] relabelled contents ∧
        Distinct Prod.fst contents ∧ ∀ n, m.size ≤ n → (m.walk n m.cursor).1.Perm contents := by
  obtain ⟨m, h⟩ := exists_run_relabelled
  exact ⟨m, h, run_refines_finite_map _ h⟩

end HashMap

end ProbeWindow
