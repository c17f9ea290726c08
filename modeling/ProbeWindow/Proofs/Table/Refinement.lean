import ProbeWindow.Proofs.Run
import ProbeWindow.Proofs.Table.Meaning

/-!
# Tables refine finite maps

A call **fulfils** its meaning when it leaves a sound table in any case, and does to the items what
it means when it returns (`Fulfils`). When every call fulfils its meaning, the relation between a
table and a list that rearranges its items is a simulation (`Refines.step`): what a user sees of a
run of calls is what a finite map would have shown (`exists_run_specified`).
-/

namespace ProbeWindow.Table

universe u v w x y

variable {σ : Type w} {α : Type u} {κ : Type v} {ρ : Type x} {γ : Type y} [BEq κ] {key : α → κ}
  {t t' : Table key}

open Contents

/-! ### Calls that do what they mean -/

/-- A call on a table leaves a sound table, and does what it means when it returns. -/
structure Fulfils (t : Table key) (out : Outcome (Table key) ρ) (c : Meaning σ α κ ρ) : Prop where
  /-- The table is sound. -/
  sound : out.state.Sound
  /-- The setup is the same. -/
  setup_eq : out.state.setup = t.setup
  /-- The items are what they should be. -/
  meets : EquivBEq κ → Distinct key t.toList → ∀ reply, out.result = .ok reply →
    c.Meets key t.toList reply out.state.toList

theorem Fulfils.kept {out : Outcome (Table key) ρ} {c : Meaning σ α κ ρ} (h : Fulfils t out c) :
    out.state.Sound ∧ out.state.setup = t.setup :=
  ⟨h.sound, h.setup_eq⟩

theorem Handles.fulfils {k : κ} {act : Act α ρ} {out : Outcome (Table key) ρ}
    (h : Handles t k act out) : Fulfils t out (.one k act : Meaning σ α κ ρ) := by
  refine ⟨h.sound.1, h.sound.2, fun _ _ reply hreply ↦ ?_⟩
  have hserves := h.serves hreply
  exact ⟨hserves.result_eq.symm.trans hreply, hserves.perm⟩

section Sound

variable (h : t.Sound)
include h

theorem Sound.fulfils_emplaceMany (hint : Nat) (items : List α) (tell : Nat → ρ) :
    Fulfils t (((t.reserve hint).andThen fun t () ↦ t.emplaceEach 0 items).map tell)
      (.many (fun old _ ↦ old) items tell : Meaning σ α κ ρ) := by
  obtain ⟨hsound, hsetup⟩ := h.emplaceMany hint items
  refine ⟨hsound, hsetup, fun _ hdistinct reply hreply ↦ ?_⟩
  obtain ⟨n, hn, rfl⟩ := Outcome.of_result_map hreply
  obtain ⟨hperm, rfl⟩ := h.emplaceMany_perm hdistinct hn
  exact ⟨rfl, hperm⟩

theorem Sound.fulfils_walk (change : α → α) (n : Nat)
    (hchange : ∀ a ∈ t.toList.take n, t.setup.hash (key (change a)) = t.setup.hash (key a))
    (tell : List α → ρ) :
    Fulfils t (.done (t.walkUpdating change n).1 (tell (t.walkUpdating change n).2.1))
      (.walk change n tell : Meaning σ α κ ρ) := by
  obtain ⟨hsound, hsetup, hlist, hitems⟩ := h.walkUpdating n hchange
  refine ⟨hsound, hsetup, fun _ _ reply hreply ↦ ?_⟩
  cases hreply
  exact ⟨t.toList, .refl _, congrArg tell hitems, hlist ▸ .refl _⟩

theorem Sound.fulfils_retain {visit : σ → α → Visit σ α} (state : σ)
    (hvisit : VisitsKeep t.SameHash visit state
      t.toList) (tell : σ → ρ) :
    Fulfils t ⟨(t.retain visit state).1, [],
        (t.retain visit state).2.2.map fun () ↦ tell (t.retain visit state).2.1⟩
      (.sift visit state tell) := by
  obtain ⟨hsound, hsetup, hlist, hsieve⟩ := h.retain state hvisit
  refine ⟨hsound, hsetup, fun _ _ reply hreply ↦ ?_⟩
  refine ⟨t.toList, (t.retain visit state).2.1, .refl _, ?_, ?_, hlist ▸ .refl _⟩
  · rw [← hsieve]
    refine Prod.ext rfl ?_
    cases hverdict : (t.retain visit state).2.2 with
    | error fault =>
      simp only [hverdict] at hreply
      cases hreply
    | ok _ => rfl
  · cases hverdict : (t.retain visit state).2.2 with
    | error fault =>
      simp only [hverdict] at hreply
      cases hreply
    | ok _ =>
      simp only [hverdict] at hreply
      exact (Except.ok.inj hreply).symm

theorem Sound.fulfils_upkeep (u : Upkeep) (tell : Report α → ρ) :
    Fulfils t ((u.exec t).map tell) (.upkeep u tell : Meaning σ α κ ρ) := by
  refine ⟨(h.upkept_exec u).sound, (h.upkept_exec u).setup_eq, fun _ _ reply hreply ↦ ?_⟩
  obtain ⟨r, hr, rfl⟩ := Outcome.of_result_map hreply
  exact ⟨r, rfl, h.meets_exec u hr⟩

end Sound

/-! ### Simulation -/

/-- A call returns. -/
def Returns (exec : Table key → γ → Outcome (Table key) ρ) (t : Table key) (x : Exchange γ ρ)
    (t' : Table key) : Prop :=
  (exec t x.call).state = t' ∧ (exec t x.call).result = .ok x.reply ∧ x.size = t'.size

/-- A finite map answers a call. -/
def Specified (key : α → κ) (meaning : γ → Meaning σ α κ ρ) (before : List α) (x : Exchange γ ρ)
    (after : List α) : Prop :=
  (meaning x.call).Meets key before x.reply after ∧ x.size = after.length

/-- A table holds the items of a finite map. -/
structure Refines (t : Table key) (contents : List α) : Prop where
  /-- The table is sound. -/
  sound : t.Sound
  /-- The keys are distinct. -/
  distinct : Distinct key contents
  /-- The items are those of the table, in some order. -/
  perm : t.toList.Perm contents

theorem refines_empty (key : α → κ) (setup : Setup κ) : Refines (empty key setup) [] :=
  ⟨sound_empty setup, distinct_nil, by rw [(bare_empty setup).toList_eq]⟩

variable {contents : List α} {exec : Table key → γ → Outcome (Table key) ρ}
  {meaning : γ → Meaning σ α κ ρ}

/-- **A call of a table is a call of the finite map that it refines.** -/
theorem Refines.step [EquivBEq κ] (h : Refines t contents) {x : Exchange γ ρ}
    (hx : Returns exec t x t') (hexec : Fulfils t (exec t x.call) (meaning x.call))
    (hkeys : (meaning x.call).KeepsKeys key) :
    ∃ contents', Specified key meaning contents x contents' ∧ Refines t' contents' := by
  obtain ⟨rfl, hreply, hsize⟩ := hx
  have hdistinct : Distinct key t.toList := h.distinct.perm h.perm.symm
  have hmeets := hexec.meets inferInstance hdistinct _ hreply
  -- the finite map goes on with the items in the order of the slots
  refine ⟨_, ⟨hmeets.of_perm hkeys hdistinct h.perm, ?_⟩, hexec.sound,
    hmeets.distinct hkeys hdistinct, .refl _⟩
  rw [hsize, hexec.sound.size_eq_length]

/-- A complete walk yields the items of the finite map, each once. -/
theorem Refines.walk_perm (h : Refines t contents) {n : Nat} (hn : t.size ≤ n) :
    (t.walk n t.cursor).1.Perm contents := by
  rw [h.sound.walk, List.take_of_length_le (h.sound.size_eq_length ▸ hn)]
  exact h.perm

/-- **What a user sees of a run of calls that return is what a finite map would have shown.** -/
theorem exists_run_specified [EquivBEq κ]
    (hexec : ∀ (t : Table key) c, t.Sound → Fulfils t (exec t c) (meaning c))
    (hkeys : ∀ c, (meaning c).KeepsKeys key) {setup : Setup κ} {log : List (Exchange γ ρ)}
    (h : Run (Returns exec) (empty key setup) log t) :
    ∃ contents, Run (Specified key meaning) [] log contents ∧ Refines t contents :=
  h.simulate (fun _ _ _ _ hR hx ↦ hR.step hx (hexec _ _ hR.sound) (hkeys _))
    (refines_empty key setup)

end ProbeWindow.Table
