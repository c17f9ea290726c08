import ProbeWindow.Outcome

/-!
# Outcomes part by part

How the ways to build an outcome act on its state and its result. A call that is followed by
another one ended with a fault, and then nothing followed, or with a result, and then it is the
other call that counts (`andThen_cases`).
-/

namespace ProbeWindow.Outcome

universe u v w x

variable {σ : Type u} {ρ : Type v} {τ : Type w}

section Parts

variable (s : σ) (r : ρ) (fault : Fault) (events : List Event) (o : Outcome σ ρ)

@[simp]
theorem state_done : (done s r : Outcome σ ρ).state = s := rfl

@[simp]
theorem result_done : (done s r : Outcome σ ρ).result = .ok r := rfl

@[simp]
theorem state_fail : (fail s fault : Outcome σ ρ).state = s := rfl

@[simp]
theorem result_after : (o.after events).result = o.result := rfl

@[simp]
theorem state_map (f : ρ → τ) : (o.map f).state = o.state := rfl

@[simp]
theorem result_map (f : ρ → τ) : (o.map f).result = o.result.map f := rfl

end Parts

theorem map_map {υ : Type x} (o : Outcome σ ρ) (f : ρ → τ) (g : τ → υ) :
    (o.map f).map g = o.map (g ∘ f) := by
  obtain ⟨s, events, result⟩ := o
  cases result <;> rfl

@[simp]
theorem map_id' (o : Outcome σ ρ) : o.map (fun r ↦ r) = o := by
  obtain ⟨s, events, result⟩ := o
  cases result <;> rfl

theorem of_result_map {o : Outcome σ ρ} {f : ρ → τ} {r' : τ} (h : (o.map f).result = .ok r') :
    ∃ r, o.result = .ok r ∧ f r = r' := by
  rw [result_map] at h
  cases hr : o.result with
  | error fault => rw [hr] at h; cases h
  | ok r =>
    rw [hr] at h
    exact ⟨r, rfl, Except.ok.inj h⟩

variable {o : Outcome σ ρ} (next : σ → ρ → Outcome σ τ)

theorem andThen_of_error {fault : Fault} (h : o.result = .error fault) :
    o.andThen next = ⟨o.state, o.events, .error fault⟩ := by
  obtain ⟨s, events, result⟩ := o
  cases h
  rfl

theorem andThen_of_ok {r : ρ} (h : o.result = .ok r) :
    o.andThen next = (next o.state r).after o.events := by
  obtain ⟨s, events, result⟩ := o
  cases h
  rfl

/-- Only what follows a result matters. -/
theorem andThen_congr {next next' : σ → ρ → Outcome σ τ}
    (h : ∀ r, o.result = .ok r → next o.state r = next' o.state r) :
    o.andThen next = o.andThen next' := by
  cases hr : o.result with
  | error fault => rw [andThen_of_error _ hr, andThen_of_error _ hr]
  | ok r => rw [andThen_of_ok _ hr, andThen_of_ok _ hr, h r hr]

theorem andThen_map {υ : Type x} (o : Outcome σ ρ) (next : σ → ρ → Outcome σ τ) (f : τ → υ) :
    (o.andThen fun s r ↦ (next s r).map f) = (o.andThen next).map f := by
  obtain ⟨s, events, result⟩ := o
  cases result <;> rfl

theorem map_andThen {υ : Type x} (o : Outcome σ ρ) (f : ρ → τ) (next : σ → τ → Outcome σ υ) :
    (o.map f).andThen next = o.andThen fun s r ↦ next s (f r) := by
  obtain ⟨s, events, result⟩ := o
  cases result <;> rfl

/-- Calls one after the other may be put together in either way. -/
theorem andThen_assoc {υ : Type x} (o : Outcome σ ρ) (next : σ → ρ → Outcome σ τ)
    (last : σ → τ → Outcome σ υ) :
    (o.andThen next).andThen last = o.andThen fun s r ↦ (next s r).andThen last := by
  obtain ⟨s, events, fault | r⟩ := o
  · rfl
  · simp only [andThen]
    rcases next s r with ⟨s', later, fault | r'⟩
    · rfl
    · simp only [List.append_assoc]

/-- A call followed by another one is cut short by a fault, or goes on. -/
theorem andThen_cases (o : Outcome σ ρ) (next : σ → ρ → Outcome σ τ) :
    (∃ fault, o.result = .error fault ∧
      o.andThen next = ⟨o.state, o.events, .error fault⟩) ∨
    ∃ r, o.result = .ok r ∧ o.andThen next = (next o.state r).after o.events := by
  cases h : o.result with
  | error fault => exact .inl ⟨fault, rfl, andThen_of_error next h⟩
  | ok r => exact .inr ⟨r, rfl, andThen_of_ok next h⟩

end ProbeWindow.Outcome
