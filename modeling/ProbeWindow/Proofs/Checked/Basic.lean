import ProbeWindow.Proofs.Outcome

/-!
# Checked computations

The slots of a table are a block of memory, and a step may access it only under conditions: an index
is in range, a slot that is read has an item, a slot that an item is moved to has none. The program
does not test these conditions, or tests them in debug builds only. The functions of this library
are total, so they do not fail either when such a condition does not hold: they go on with some
value.

A **checked computation** has the conditions next to the value: `safe` says that every step that is
taken is allowed, and `value` is what the steps compute. Checked versions of all operations are made
from steps by `require`, `andThen` and `proceed`. That an operation is safe, and that its steps
compute what the operation computes, is one statement about its checked version (`Yields`).
-/

namespace ProbeWindow

universe u v w

/-- A computation, with the conditions of the steps that it takes. -/
structure Checked (ρ : Type u) where
  /-- Every step is allowed. -/
  safe : Prop
  /-- What is computed. -/
  value : ρ

namespace Checked

variable {ρ : Type u} {τ : Type v} {σ : Type w}

/-- A computation without a step that needs a condition. -/
def pure (r : ρ) : Checked ρ := ⟨True, r⟩

/-- A computation that is allowed under a condition. -/
def require (p : Prop) (c : Checked ρ) : Checked ρ := ⟨p ∧ c.safe, c.value⟩

/-- A computation followed by another one on its value. -/
def andThen (c : Checked ρ) (next : ρ → Checked τ) : Checked τ :=
  ⟨c.safe ∧ (next c.value).safe, (next c.value).value⟩

/-- A computation with its value changed. -/
def map (f : ρ → τ) (c : Checked ρ) : Checked τ := ⟨c.safe, f c.value⟩

/-- A loop that has not ended after the steps that it was given, which is not allowed. -/
def endless (r : ρ) : Checked ρ := ⟨False, r⟩

/-- A call followed by another one on the state that it left; a fault ends both. -/
def proceed (c : Checked (Outcome σ ρ)) (next : σ → ρ → Checked (Outcome σ τ)) :
    Checked (Outcome σ τ) :=
  c.andThen fun o ↦
    match o with
    | ⟨state, events, .error fault⟩ => pure ⟨state, events, .error fault⟩
    | ⟨state, events, .ok result⟩ => (next state result).map (Outcome.after events)

/-- **A checked computation is safe, and computes a value.** -/
structure Yields (c : Checked ρ) (r : ρ) : Prop where
  /-- Every step is allowed. -/
  safe : c.safe
  /-- The value. -/
  value_eq : c.value = r

namespace Yields

variable {c : Checked ρ} {r : ρ}

theorem pure (r : ρ) : (pure r).Yields r := ⟨trivial, rfl⟩

theorem require {p : Prop} (hp : p) (h : c.Yields r) : (c.require p).Yields r :=
  ⟨⟨hp, h.safe⟩, h.value_eq⟩

theorem andThen (h : c.Yields r) {next : ρ → Checked τ} {r' : τ} (hnext : (next r).Yields r') :
    (c.andThen next).Yields r' := by
  obtain ⟨hsafe, rfl⟩ := h
  exact ⟨⟨hsafe, hnext.safe⟩, hnext.value_eq⟩

theorem map (h : c.Yields r) (f : ρ → τ) : (c.map f).Yields (f r) :=
  ⟨h.safe, congrArg f h.value_eq⟩

/-- The value of a safe computation may be given in another way. -/
theorem trans (h : c.Yields r) {r' : ρ} (heq : r = r') : c.Yields r' := heq ▸ h

theorem proceed {c : Checked (Outcome σ ρ)} {o : Outcome σ ρ} (h : c.Yields o)
    {next : σ → ρ → Checked (Outcome σ τ)} {next' : σ → ρ → Outcome σ τ}
    (hnext : ∀ r, o.result = .ok r → (next o.state r).Yields (next' o.state r)) :
    (c.proceed next).Yields (o.andThen next') := by
  refine h.andThen ?_
  obtain ⟨state, events, fault | result⟩ := o
  · exact .pure _
  · exact (hnext result rfl).map (Outcome.after events)

end Yields

end Checked

end ProbeWindow
