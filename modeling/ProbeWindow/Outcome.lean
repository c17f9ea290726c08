import ProbeWindow.Fault

/-!
# Outcomes

A call that may fail, or that reports what it did on the way, answers with an **outcome**: the
state as the call left it, the events it emitted, and its result or the fault that ended it. The
state and the events are there in both cases: a fault undoes nothing.
-/

namespace ProbeWindow

universe u v w

/-- Why a table was resized. -/
inductive ResizeReason where
  /-- An insertion found its window full. -/
  | windowSaturated
  /-- An insertion found the table at its load threshold. -/
  | loadFactorReached
  /-- Room for more items was reserved. -/
  | reserve
  /-- The table was asked to rehash or to shrink. -/
  | rehash
deriving DecidableEq, Repr

/-- The text of a reason. -/
def ResizeReason.text : ResizeReason → String
  | .windowSaturated => "probe window saturated"
  | .loadFactorReached => "load factor reached"
  | .reserve => "reserve"
  | .rehash => "rehash"

/-- What a table reports while it works. -/
inductive Event where
  /-- The items moved to slots of another capacity. -/
  | resized (oldCapacity newCapacity size : Nat) (reason : ResizeReason)
  /-- A window had no room for an item homed at `home`, so the table will grow. -/
  | saturated (capacity size home : Nat)
deriving DecidableEq, Repr

/-- The text of an event. -/
def Event.message : Event → String
  | .resized .. => "resized hash table"
  | .saturated .. => "probe window saturated, rehash pending"

/-- What a call did. -/
structure Outcome (σ : Type u) (ρ : Type v) where
  /-- The state as the call left it. -/
  state : σ
  /-- The events of the call, in order. -/
  events : List Event
  /-- The result, or the fault that ended the call. -/
  result : Except Fault ρ

namespace Outcome

variable {σ : Type u} {ρ : Type v} {τ : Type w}

/-- A call that ended with a result and reported nothing. -/
def done (state : σ) (result : ρ) : Outcome σ ρ := ⟨state, [], .ok result⟩

/-- A call that ended with a fault and reported nothing. -/
def fail (state : σ) (fault : Fault) : Outcome σ ρ := ⟨state, [], .error fault⟩

/-- A call followed by another one on the state that it left; a fault ends both. -/
def andThen (o : Outcome σ ρ) (next : σ → ρ → Outcome σ τ) : Outcome σ τ :=
  match o with
  | ⟨state, events, .error fault⟩ => ⟨state, events, .error fault⟩
  | ⟨state, events, .ok result⟩ =>
    match next state result with
    | ⟨state, later, result⟩ => ⟨state, events ++ later, result⟩

/-- A call with its result changed. -/
def map (o : Outcome σ ρ) (f : ρ → τ) : Outcome σ τ :=
  match o with
  | ⟨state, events, result⟩ => ⟨state, events, result.map f⟩

/-- A call that stands for a step after the given events. -/
def after (events : List Event) (o : Outcome σ ρ) : Outcome σ ρ :=
  match o with
  | ⟨state, later, result⟩ => ⟨state, events ++ later, result⟩

end Outcome

end ProbeWindow
