import ProbeWindow.Proofs.Table.Growth

/-!
# Growth climbs

A table reports every change of its capacity, and every window that it finds full. Events account
for a change of capacity when each one starts where the one before it has led to (`Event.Chain`).

Securing a seat **climbs** (`Climbs`): each resize is to a larger capacity, and a full window is
followed by a resize for that reason, unless the growth fails and ends the call. This holds for any
number of growths, and whether or not the table was marked at the start.
-/

namespace ProbeWindow

universe u v w x

/-! ### Events -/

namespace Event

/-- The number of items that an event tells. -/
def size : Event → Nat
  | resized _ _ n _ => n
  | saturated _ n _ => n

/-- **Events account for a change of capacity**: each of them starts at the capacity that the
resizes before it have led to, and the last resize leads to the capacity at the end. -/
def Chain : Nat → List Event → Nat → Prop
  | c, [], c' => c' = c
  | c, resized old new _ _ :: events, c' => old = c ∧ Chain new events c'
  | c, saturated now _ _ :: events, c' => now = c ∧ Chain c events c'

theorem Chain.append {c c' c'' : Nat} {events events' : List Event} (h : Chain c events c')
    (h' : Chain c' events' c'') : Chain c (events ++ events') c'' := by
  induction events generalizing c with
  | nil =>
    cases h
    exact h'
  | cons e events ih =>
    cases e with
    | resized => exact ⟨h.1, ih h.2⟩
    | saturated => exact ⟨h.1, ih h.2⟩

/-- The events before a full window lead to the capacity that it tells. -/
theorem Chain.front {c c' now n home : Nat} {front back : List Event}
    (h : Chain c (front ++ saturated now n home :: back) c') : Chain c front now := by
  induction front generalizing c with
  | nil => exact h.1
  | cons e front ih =>
    cases e with
    | resized => exact ⟨h.1, ih h.2⟩
    | saturated => exact ⟨h.1, ih h.2⟩

/-- **Without a resize the capacity is what it was.** -/
theorem Chain.eq_of_unresized {c c' : Nat} {events : List Event} (h : Chain c events c')
    (hnone : ∀ old new n reason, resized old new n reason ∉ events) : c' = c := by
  induction events generalizing c with
  | nil => exact h
  | cons e events ih =>
    cases e with
    | resized old new n reason => exact absurd List.mem_cons_self (hnone old new n reason)
    | saturated =>
      exact ih h.2 fun old new n reason hmem ↦
        hnone old new n reason (List.mem_cons_of_mem _ hmem)

end Event

/-- The events of a climb from one capacity to another, with so many items: `homeAt` is the home
under a capacity, and a full window that no resize follows was the end of a call that failed. -/
inductive Climbs (homeAt : Nat → Nat) (n : Nat) (failed : Prop) :
    Nat → List Event → Nat → Prop where
  /-- Nothing more is reported. -/
  | stop (c : Nat) : Climbs homeAt n failed c [] c
  /-- The table is resized. -/
  | resized {c c' c'' : Nat} {events : List Event} (reason : ResizeReason) (hlt : c < c')
    (rest : Climbs homeAt n failed c' events c'') :
    Climbs homeAt n failed c (.resized c c' n reason :: events) c''
  /-- A window is full, and the call fails. -/
  | stuck (c : Nat) (hfailed : failed) : Climbs homeAt n failed c [.saturated c n (homeAt c)] c
  /-- A window is full, and the table is resized. -/
  | saturated {c c' c'' : Nat} {events : List Event} (hlt : c < c')
    (rest : Climbs homeAt n failed c' events c'') :
    Climbs homeAt n failed c
      (.saturated c n (homeAt c) :: .resized c c' n .windowSaturated :: events) c''

namespace Climbs

variable {homeAt : Nat → Nat} {n c c' : Nat} {failed : Prop} {events : List Event}

theorem chain (h : Climbs homeAt n failed c events c') : Event.Chain c events c' := by
  induction h with
  | stop => exact rfl
  | resized reason hlt rest ih => exact ⟨rfl, ih⟩
  | stuck => exact ⟨rfl, rfl⟩
  | saturated hlt rest ih => exact ⟨rfl, rfl, ih⟩

theorem size_eq (h : Climbs homeAt n failed c events c') : ∀ e ∈ events, e.size = n := by
  induction h with
  | stop => exact fun _ he ↦ absurd he List.not_mem_nil
  | resized reason hlt rest ih => exact List.forall_mem_cons.mpr ⟨rfl, ih⟩
  | stuck => exact List.forall_mem_cons.mpr ⟨rfl, fun _ he ↦ absurd he List.not_mem_nil⟩
  | saturated hlt rest ih =>
    exact List.forall_mem_cons.mpr ⟨rfl, List.forall_mem_cons.mpr ⟨rfl, ih⟩⟩

/-- Another reason to have failed. -/
theorem imp {failed' : Prop} (h : Climbs homeAt n failed c events c') (himp : failed → failed') :
    Climbs homeAt n failed' c events c' := by
  induction h with
  | stop c => exact .stop c
  | resized reason hlt rest ih => exact .resized reason hlt ih
  | stuck c hfailed => exact .stuck c (himp hfailed)
  | saturated hlt rest ih => exact .saturated hlt ih

/-- Every resize of a climb is to a larger capacity. -/
theorem lt_of_mem (h : Climbs homeAt n failed c events c') {old new m : Nat}
    {reason : ResizeReason} (he : .resized old new m reason ∈ events) : old < new := by
  induction h with
  | stop => exact absurd he List.not_mem_nil
  | resized reason' hlt rest ih =>
    rcases List.mem_cons.mp he with heq | he
    · cases heq
      exact hlt
    · exact ih he
  | stuck => cases List.mem_singleton.mp he
  | saturated hlt rest ih =>
    have he := List.mem_of_ne_of_mem Event.noConfusion he
    rcases List.mem_cons.mp he with heq | he
    · cases heq
      exact hlt
    · exact ih he

/-- **A full window is that of the home, and the next event is a resize** for its reason; or it is
the last event of a call that failed. -/
theorem of_saturated (h : Climbs homeAt n failed c events c') {front back : List Event}
    {now m home : Nat} (heq : events = front ++ .saturated now m home :: back) :
    home = homeAt now ∧
      ((∃ new rest, back = .resized now new m .windowSaturated :: rest) ∨ back = [] ∧ failed) := by
  induction h generalizing front with
  | stop => cases front <;> cases heq
  | resized reason hlt rest ih =>
    rcases front with _ | ⟨e, front⟩
    · cases heq
    · cases heq
      exact ih rfl
  | stuck c hfailed =>
    rcases front with _ | ⟨e, front⟩
    · cases heq
      exact ⟨rfl, .inr ⟨rfl, hfailed⟩⟩
    · cases front <;> cases heq
  | saturated hlt rest ih =>
    rcases front with _ | ⟨e, _ | ⟨e', front⟩⟩
    · cases heq
      exact ⟨rfl, .inl ⟨_, _, rfl⟩⟩
    · cases heq
    · cases heq
      exact ih rfl

end Climbs

namespace Table

variable {α : Type u} {κ : Type v} {ρ : Type w} {τ : Type x} [BEq κ] {key : α → κ}
  {t : Table key}

/-! ### Securing a seat -/

/-- **A growth that returns reports one resize**, to a larger capacity, and clears the mark; one
that fails reports nothing and changes nothing. -/
theorem grow_reports (t : Table key) :
    (∃ fault, t.grow = .fail t fault) ∨
      ∃ slots, t.grow = ⟨{ t with slots := slots, rehashPending := false },
          [.resized t.capacity slots.capacity t.size
            (if t.rehashPending then .windowSaturated else .loadFactorReached)], .ok ()⟩ ∧
        t.capacity < slots.capacity := by
  rcases t.grow_outcomes with hfail | ⟨capacity, slots, -, -, -, heq⟩
  · exact .inl hfail
  · have hlarger := t.capacity_lt_grow (congrArg Outcome.result heq)
    rw [heq] at hlarger
    exact .inr ⟨slots, heq, hlarger.1⟩

/-- The mark is clear when a call returns, if it was clear. -/
def KeepsClear (t : Table key) (out : Outcome (Table key) ρ) : Prop :=
  t.rehashPending = false → (∃ r, out.result = .ok r) → out.state.rehashPending = false

theorem KeepsClear.map {out : Outcome (Table key) ρ} (h : KeepsClear t out) (f : ρ → τ) :
    KeepsClear t (out.map f) := by
  rintro hclear ⟨r, hr⟩
  obtain ⟨r', hr', -⟩ := Outcome.of_result_map hr
  exact h hclear ⟨r', hr'⟩

theorem KeepsClear.andThen {out : Outcome (Table key) ρ} (h : KeepsClear t out)
    {next : Table key → ρ → Outcome (Table key) τ}
    (hnext : ∀ r, out.result = .ok r → KeepsClear out.state (next out.state r)) :
    KeepsClear t (out.andThen next) := by
  rintro hclear ⟨r', hr'⟩
  rcases out.andThen_cases next with ⟨fault, -, heq⟩ | ⟨r, hr, heq⟩
  · rw [heq] at hr'
    cases hr'
  · rw [heq] at hr' ⊢
    exact hnext r hr (h hclear ⟨r, hr⟩) ⟨r', hr'⟩

/-- What securing a seat for a hash reports and does to the mark. -/
structure Secures (t : Table key) (hash : UInt64) (out : Outcome (Table key) ρ) : Prop where
  /-- The events are those of a climb. -/
  climbs : Climbs (t.setup.policy.index hash) t.size (∃ fault, out.result = .error fault)
    t.capacity out.events out.state.capacity
  /-- The mark is clear when the call returns, if it was clear. -/
  mark : KeepsClear t out

/-- **Settling climbs**: every full window on the way is reported, and then the growth. -/
theorem secures_settle (t : Table key) (hash : UInt64) : Secures t hash (t.settle hash) := by
  fun_induction Table.settle t hash with
  | case1 t home hv => exact ⟨.stop _, fun hclear _ ↦ hclear⟩
  | case2 t home hv grown events fault hfault =>
    rcases t.markSaturated.grow_reports with ⟨fault', heq⟩ | ⟨slots, heq, -⟩
    · have hgrown : grown = .fail t.markSaturated fault' := heq
      refine ⟨?_, fun _ hok ↦ ?_⟩
      · simp only [events, hgrown]
        exact .stuck _ ⟨fault, rfl⟩
      · obtain ⟨r, hr⟩ := hok
        cases hr
    · have hok : grown.result = .ok () := congrArg Outcome.result heq
      rw [hok] at hfault
      cases hfault
  | case3 t home hv grown events hgrown ih =>
    rcases t.markSaturated.grow_reports with ⟨fault', heq⟩ | ⟨slots, heq, hlt⟩
    · have hfail : grown.result = .error fault' := congrArg Outcome.result heq
      rw [hfail] at hgrown
      cases hgrown
    · have hgrown' : grown = ⟨_, _, _⟩ := heq
      refine ⟨?_, fun hclear hok ↦ ih.mark ?_ hok⟩
      · have hclimbs := ih.climbs
        simp only [events, hgrown'] at hclimbs ⊢
        exact .saturated hlt hclimbs
      · rw [hgrown']

/-- **Securing a seat climbs.** -/
theorem secures_secure (t : Table key) (hash : UInt64) : Secures t hash (t.secure hash) := by
  rw [secure]
  split
  · rcases t.grow_reports with ⟨fault, heq⟩ | ⟨slots, heq, hlt⟩
    · rw [heq]
      exact ⟨.stop _, fun hclear _ ↦ hclear⟩
    · rw [heq, Outcome.andThen_of_ok _ rfl]
      have hsettled :=
        secures_settle ({ t with slots := slots, rehashPending := false } : Table key) hash
      exact ⟨.resized _ hlt hsettled.climbs, fun _ hok ↦ hsettled.mark rfl hok⟩
  · exact t.secures_settle hash

end Table

end ProbeWindow
