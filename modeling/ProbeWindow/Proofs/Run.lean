import ProbeWindow.Key
import ProbeWindow.Setup

/-!
# Runs

A **run** of a transition relation is a sequence of steps, each with a label. The label of a call
is what a user sees of it: the call, its reply, and the size afterwards (`Exchange`). One relation
refines another when a simulation carries every run of the first to a run of the second with the
same labels (`Run.simulate`).

Concrete runs are in a setup in which all keys have the same hash, so that a table is as crowded as
it can be: all items have one home, and no more than a window of them fit; with labelled keys where
it matters which of several equal keys a table holds. Others let keys have hashes of their own, in
part or altogether.
-/

namespace ProbeWindow

universe u v w

/-- What a user sees of a call that returns. -/
structure Exchange (γ : Type u) (ρ : Type v) where
  /-- The call. -/
  call : γ
  /-- What it answers. -/
  reply : ρ
  /-- The number of items afterwards. -/
  size : Nat

/-- The runs of a transition relation, with the labels of their steps. -/
inductive Run {σ : Type u} {ε : Type v} (step : σ → ε → σ → Prop) : σ → List ε → σ → Prop where
  /-- The run without steps. -/
  | nil (s : σ) : Run step s [] s
  /-- A step, and a run from where it leads. -/
  | cons {s t u : σ} {e : ε} {es : List ε} (head : step s e t) (tail : Run step t es u) :
    Run step s (e :: es) u

namespace Run

variable {σ : Type u} {τ : Type w} {ε : Type v} {step : σ → ε → σ → Prop}
  {step' : τ → ε → τ → Prop}

/-- **A simulation carries runs to runs with the same labels.** -/
theorem simulate {R : σ → τ → Prop}
    (hstep : ∀ s e t s', R s s' → step s e t → ∃ t', step' s' e t' ∧ R t t')
    {s t : σ} {es : List ε} {s' : τ} (h : Run step s es t) (hs : R s s') :
    ∃ t', Run step' s' es t' ∧ R t t' := by
  induction h generalizing s' with
  | nil s => exact ⟨s', .nil s', hs⟩
  | cons head tail ih =>
    obtain ⟨m', hhead, hm⟩ := hstep _ _ _ _ hs head
    obtain ⟨t', htail, ht⟩ := ih hm
    exact ⟨t', .cons hhead htail, ht⟩

end Run

/-! ### Setups of concrete runs -/

/-- The setup in which all keys have the same hash. -/
def Setup.colliding (κ : Type) [Key κ] : Setup κ where
  hasher := (Key.hasher κ).folded (.constant 0)
  policy := .powerOfTwo
  storage := ⟨.inline, Key.layout κ⟩
  allocator := .upTo "system" 0x4000000

/-- The setup in which keys collide when their hashes have the same quotient by a number, and in
which no capacity above a limit is granted. -/
def Setup.crowded (κ : Type) [Key κ] (n : UInt64) (limit : Nat) : Setup κ :=
  { Setup.colliding κ with
    hasher := (Key.hasher κ).folded (.div n)
    policy := GrowthPolicy.powerOfTwo.limited limit }

/-- The setup in which keys have hashes of their own, with a policy. -/
def Setup.scattered (κ : Type) [Key κ] (policy : GrowthPolicy) : Setup κ :=
  { Setup.colliding κ with hasher := Key.hasher κ, policy := policy }

/-- Equality of labelled keys is that of their identifiers. -/
instance : EquivBEq Labelled where
  rfl := BEq.refl (α := UInt64) _
  symm h := BEq.symm (α := UInt64) h
  trans h h' := BEq.trans (α := UInt64) h h'

end ProbeWindow
