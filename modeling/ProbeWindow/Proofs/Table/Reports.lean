import ProbeWindow.Proofs.Run
import ProbeWindow.Proofs.Table.Seats

/-!
# What a table reports is what it does

The events of a call account for the capacities that the table went through, when the call returns
and when it fails. A call on one key reports what securing its seat reports, since what comes after
it is quiet (`Quiet`). A call that inserts many items is a run of calls that make room or insert one
item, and reports what they report (`ReportsBulk`).
-/

namespace ProbeWindow

universe u v w x y z

namespace Table

variable {α : Type u} {κ : Type v} {ρ : Type w} {τ : Type x} {ι : Type y} [BEq κ] {key : α → κ}
  {t t' : Table key}

/-! ### Calls on one key -/

/-- **What a call on one key tells of growth**, when it returns and when it fails. -/
structure ReportsGrowth (t : Table key) (k : κ) (out : Outcome (Table key) ρ) : Prop where
  /-- The events account for the capacity. -/
  chain : Event.Chain t.capacity out.events out.state.capacity
  /-- Without a resize the capacity is the same. -/
  unresized : (∀ old new n reason, Event.resized old new n reason ∉ out.events) →
    out.state.capacity = t.capacity
  /-- Every event tells the number of items. -/
  size_eq : ∀ e ∈ out.events, e.size = t.toList.length
  /-- Every resize is to a larger capacity. -/
  larger : ∀ old new n reason, Event.resized old new n reason ∈ out.events → old < new
  /-- A full window is that of the key's home under the capacity at that moment, and the next event
  is a resize for its reason, unless the call fails there. -/
  saturated : ∀ front now n home back, out.events = front ++ .saturated now n home :: back →
    Event.Chain t.capacity front now ∧ home = t.setup.home k now ∧
      ((∃ new rest, back = .resized now new n .windowSaturated :: rest) ∨
        back = [] ∧ ∃ fault, out.result = .error fault)
  /-- The mark is clear when the call returns, if it was clear. -/
  mark : KeepsClear t out

/-- **A climb tells of growth.** -/
theorem Sound.reportsGrowth_of_climbs (h : t.Sound) {k : κ} {out : Outcome (Table key) ρ}
    (hclimbs : Climbs (t.setup.home k) t.size (∃ fault, out.result = .error fault) t.capacity
      out.events out.state.capacity) (hmark : KeepsClear t out) : ReportsGrowth t k out where
  chain := hclimbs.chain
  unresized := hclimbs.chain.eq_of_unresized
  size_eq := h.size_eq_length ▸ hclimbs.size_eq
  larger _ _ _ _ := hclimbs.lt_of_mem
  saturated front now n home back heq := by
    obtain ⟨hhome, hnext⟩ := hclimbs.of_saturated heq
    have hchain := hclimbs.chain
    rw [heq] at hchain
    exact ⟨hchain.front, hhome, hnext⟩
  mark := hmark

/-- A quiet call tells of no growth. -/
theorem Sound.reportsGrowth_of_quietAfter (h : t.Sound) {k : κ} {out : Outcome (Table key) ρ}
    (hquiet : QuietAfter t [] out) : ReportsGrowth t k out := by
  refine h.reportsGrowth_of_climbs ?_ fun hclear _ ↦ hquiet.rehashPending_eq.trans hclear
  rw [hquiet.events_eq, hquiet.capacity_eq]
  exact .stop _

/-- **A call that asks for a seat tells of growth** what securing the seat tells. -/
theorem Sound.reportsGrowth (hs : t.Sound) {k : κ} {out : Outcome (Table key) ρ}
    (h : Seats t k out) : ReportsGrowth t k out := by
  have hsecures := t.secures_secure (t.setup.hash k)
  cases h with
  | present hkey h => exact hs.reportsGrowth_of_quietAfter h
  | seated hkey hseat h =>
    refine hs.reportsGrowth_of_climbs ?_ fun hclear _ ↦ ?_
    · rw [h.events_eq, h.capacity_eq]
      refine hsecures.climbs.imp ?_
      rintro ⟨fault, hfault⟩
      cases hseat.symm.trans hfault
    · exact h.rehashPending_eq.trans (hsecures.mark hclear ⟨_, hseat⟩)
  | barred hhouse hstate hevents =>
    exact hs.reportsGrowth_of_quietAfter ⟨by rw [hstate]; exact .refl t, by rw [hstate], hevents⟩
  | refused hkey hfault hstate hevents hresult =>
    refine hs.reportsGrowth_of_climbs ?_ fun _ ⟨r, hr⟩ ↦ ?_
    · rw [hevents, hstate]
      exact hsecures.climbs.imp fun _ ↦ ⟨_, hresult⟩
    · cases hresult.symm.trans hr

/-- **Every call on one key tells of growth.** -/
theorem Sound.reports_access (h : t.Sound) (a : Access α κ) :
    ReportsGrowth t (a.keyOf key) (a.exec t) := by
  rcases t.seats_access a with hseats | ⟨-, hidle⟩
  · exact h.reportsGrowth hseats
  · exact h.reportsGrowth_of_quietAfter hidle.quietAfter

/-! ### Calls that resize -/

/-- Events account for the capacity, and tell the number of items. -/
structure Told (t : Table key) (events : List Event) (t' : Table key) : Prop where
  /-- The events account for the capacity. -/
  chain : Event.Chain t.capacity events t'.capacity
  /-- Every event tells the number of items. -/
  size_eq : ∀ e ∈ events, e.size = t.toList.length

/-- A call tells what it does to the capacity, and leaves a clear mark clear. -/
structure Tells (t : Table key) (out : Outcome (Table key) ρ) : Prop extends
    Told t out.events out.state where
  /-- The mark is clear when the call returns, if it was clear. -/
  mark : KeepsClear t out

/-- **What a call that resizes reports**, when it returns and when it fails. -/
structure ReportsResize (t : Table key) (out : Outcome (Table key) ρ) : Prop where
  /-- The events tell what happened; or an empty table has given its slots back, silently. -/
  told : Told t out.events out.state ∨ t.toList = [] ∧ out.events = [] ∧ out.state.capacity = 0
  /-- Without a resize the capacity is the same, or an empty table has given its slots back. -/
  unresized : (∀ old new n reason, Event.resized old new n reason ∉ out.events) →
    out.state.capacity = t.capacity ∨ t.toList = [] ∧ out.state.capacity = 0
  /-- The mark is clear when the call returns, if it was clear. -/
  mark : KeepsClear t out

/-- A call on the whole table may resize it. -/
def Upkeep.Resizes : Upkeep → Prop
  | reserve _ | tryReserve _ | rehash _ | shrinkToFit => True
  | clear | setMaxLoadFactor _ | iter _ | drain _ _ => False

section Resize

variable {k : κ} {out : Outcome (Table key) ρ}

theorem ReportsGrowth.tells (h : ReportsGrowth t k out) : Tells t out :=
  ⟨⟨h.chain, h.size_eq⟩, h.mark⟩

/-- A call that changes nothing. -/
theorem Tells.refl {result : Except Fault ρ} : Tells t (⟨t, [], result⟩ : Outcome (Table key) ρ) :=
  ⟨⟨rfl, fun _ he ↦ absurd he List.not_mem_nil⟩, fun hclear _ ↦ hclear⟩

/-- What follows changes nothing. -/
theorem Tells.andThen (h : Tells t out) {next : Table key → ρ → Outcome (Table key) τ}
    (hnext : ∀ r, (next out.state r).state = out.state ∧ (next out.state r).events = []) :
    Tells t (out.andThen next) := by
  refine ⟨?_, h.mark.andThen fun r _ hclear _ ↦ by rwa [(hnext r).1]⟩
  rcases out.andThen_cases next with ⟨fault, -, heq⟩ | ⟨r, -, heq⟩
  · rw [heq]
    exact h.toTold
  · obtain ⟨hstate, hevents⟩ := hnext r
    rw [heq]
    show Told t (out.events ++ (next out.state r).events) (next out.state r).state
    rw [hstate, hevents, List.append_nil]
    exact h.toTold

theorem Tells.reportsResize (h : Tells t out) : ReportsResize t out :=
  ⟨.inl h.toTold, fun hnone ↦ .inl (h.chain.eq_of_unresized hnone), h.mark⟩

theorem ReportsResize.map (h : ReportsResize t out) (f : ρ → τ) : ReportsResize t (out.map f) :=
  ⟨h.told, h.unresized, h.mark.map f⟩

/-- **A resize tells what it does.** -/
theorem Sound.tells_resize (h : t.Sound) (capacity : Nat) (reason : ResizeReason) :
    Tells t (t.resize capacity reason) := by
  rcases t.resize_cases capacity reason with ⟨fault, heq⟩ | ⟨e, heq⟩ | ⟨slots, -, heq⟩ <;> rw [heq]
  · exact .refl
  · exact .refl
  · refine ⟨⟨⟨rfl, rfl⟩, ?_⟩, fun _ _ ↦ rfl⟩
    exact List.forall_mem_singleton.mpr h.size_eq_length

theorem Sound.tells_tryReserve (h : t.Sound) (additional : Nat) :
    Tells t (t.tryReserve additional) := by
  rcases t.tryReserve_cases additional with
    ⟨-, heq⟩ | ⟨-, heq⟩ | ⟨-, ⟨-, heq⟩ | ⟨slots, -, -, ⟨fault, -, heq⟩ | ⟨first, -, heq⟩⟩⟩ <;>
    rw [heq]
  · exact .refl
  · exact .refl
  · exact .refl
  · exact .refl
  · exact h.tells_resize _ _

theorem Sound.tells_reserve (h : t.Sound) (additional : Nat) : Tells t (t.reserve additional) := by
  refine (h.tells_tryReserve additional).andThen fun result ↦ ?_
  rcases result with e | _ <;> exact ⟨rfl, rfl⟩

theorem Sound.reports_rehash (h : t.Sound) (count : Nat) : ReportsResize t (t.rehash count) := by
  rcases t.rehash_cases count with
    ⟨hzero, heq⟩ | ⟨-, ⟨fault, -, heq⟩ | ⟨first, -, ⟨-, heq⟩ | ⟨-, heq⟩⟩⟩ <;> rw [heq]
  · have hsize : t.size = 0 :=
      Nat.le_zero.mp (size_le_rehashTarget (Nat.le_of_eq hzero) (by decide))
    have hnil := List.eq_nil_of_length_eq_zero (h.size_eq_length.symm.trans hsize)
    exact ⟨.inr ⟨hnil, rfl, rfl⟩, fun _ ↦ .inr ⟨hnil, rfl⟩, fun _ _ ↦ rfl⟩
  · exact Tells.refl.reportsResize
  · exact Tells.refl.reportsResize
  · refine ((h.tells_resize _ _).andThen fun result ↦ ?_).reportsResize
    rcases result with e | _ <;> exact ⟨rfl, rfl⟩

/-- **Every call that may resize a table reports what it does.** -/
theorem Sound.reports_upkeep (h : t.Sound) {u : Upkeep} (hu : u.Resizes) :
    ReportsResize t (u.exec t) := by
  cases u with
  | clear | setMaxLoadFactor | iter | drain => exact hu.elim
  | reserve additional => exact (h.tells_reserve additional).reportsResize.map _
  | tryReserve additional => exact (h.tells_tryReserve additional).reportsResize.map _
  | rehash count => exact (h.reports_rehash count).map _
  | shrinkToFit => exact (h.reports_rehash 0).map _

end Resize

/-! ### Calls that insert many items -/

/-- A step of a call that inserts many items: room is made, or one item is inserted. -/
inductive BulkStep (one : Table key → ι → Outcome (Table key) ρ) (keyOf : ι → κ) :
    Table key → List Event → Table key → Prop where
  /-- Room is made. -/
  | reserve {t : Table key} (n : Nat) (h : Tells t (t.reserve n)) :
    BulkStep one keyOf t (t.reserve n).events (t.reserve n).state
  /-- An item is inserted. -/
  | insert {t : Table key} (i : ι) (h : ReportsGrowth t (keyOf i) (one t i)) :
    BulkStep one keyOf t (one t i).events (one t i).state

/-- **What a call that inserts many items reports**, when it returns and when it fails. -/
structure ReportsBulk (one : Table key → ι → Outcome (Table key) ρ) (keyOf : ι → κ) (t : Table key)
    (out : Outcome (Table key) τ) : Prop where
  /-- The call is a run of steps, and reports what they report. -/
  run : ∃ log, Run (BulkStep one keyOf) t log out.state ∧ out.events = log.flatten
  /-- The events account for the capacity. -/
  chain : Event.Chain t.capacity out.events out.state.capacity
  /-- Without a resize the capacity is the same. -/
  unresized : (∀ old new n reason, Event.resized old new n reason ∉ out.events) →
    out.state.capacity = t.capacity
  /-- The mark is clear when the call returns, if it was clear. -/
  mark : KeepsClear t out

section Bulk

variable {one : Table key → ι → Outcome (Table key) ρ} {keyOf : ι → κ}

theorem BulkStep.told {events : List Event} (h : BulkStep one keyOf t events t') :
    Told t events t' := by
  cases h with
  | reserve n h => exact h.toTold
  | insert i h => exact h.tells.toTold

/-- **A run of steps accounts for the capacity**, since every step does. -/
theorem BulkStep.chain_run {log : List (List Event)} (h : Run (BulkStep one keyOf) t log t') :
    Event.Chain t.capacity log.flatten t'.capacity := by
  induction h with
  | nil t => exact rfl
  | cons head tail ih => exact head.told.chain.append ih

/-- **What every step keeps, a run of steps keeps.** -/
theorem BulkStep.preserves_run {P : Table key → Prop}
    (hreserve : ∀ t n, P t → P (t.reserve n).state) (hone : ∀ t i, P t → P (one t i).state)
    {log : List (List Event)} (h : Run (BulkStep one keyOf) t log t') (hP : P t) : P t' := by
  induction h with
  | nil => exact hP
  | cons head tail ih =>
    rcases head with ⟨n, -⟩ | ⟨i, -⟩
    · exact ih (hreserve _ n hP)
    · exact ih (hone _ i hP)

theorem ReportsBulk.of_run {out : Outcome (Table key) τ}
    (h : ∃ log, Run (BulkStep one keyOf) t log out.state ∧ out.events = log.flatten)
    (hmark : KeepsClear t out) : ReportsBulk one keyOf t out := by
  have hchain : Event.Chain t.capacity out.events out.state.capacity := by
    obtain ⟨log, hrun, hevents⟩ := h
    rw [hevents]
    exact BulkStep.chain_run hrun
  exact ⟨h, hchain, hchain.eq_of_unresized, hmark⟩

/-- The call without steps. -/
theorem ReportsBulk.refl (t : Table key) (r : τ) : ReportsBulk one keyOf t (.done t r) :=
  .of_run ⟨[], .nil t, rfl⟩ fun hclear _ ↦ hclear

theorem ReportsBulk.map {υ : Type z} {out : Outcome (Table key) τ} (h : ReportsBulk one keyOf t out)
    (f : τ → υ) : ReportsBulk one keyOf t (out.map f) :=
  ⟨h.run, h.chain, h.unresized, h.mark.map f⟩

/-- **A step comes before the steps of a call.** A step that fails is the last one. -/
theorem ReportsBulk.cons {υ : Type z} {first : Outcome (Table key) υ}
    {next : Table key → υ → Outcome (Table key) τ}
    (hstep : BulkStep one keyOf t first.events first.state) (hmark : KeepsClear t first)
    (hnext : ∀ r, ReportsBulk one keyOf first.state (next first.state r)) :
    ReportsBulk one keyOf t (first.andThen next) := by
  refine .of_run ?_ (hmark.andThen fun r _ ↦ (hnext r).mark)
  rcases first.andThen_cases next with ⟨fault, -, heq⟩ | ⟨r, -, heq⟩
  · rw [heq]
    exact ⟨[first.events], .cons hstep (.nil _), (List.flatten_singleton).symm⟩
  · obtain ⟨log, hrun, hevents⟩ := (hnext r).run
    rw [heq]
    refine ⟨first.events :: log, .cons hstep hrun, ?_⟩
    show first.events ++ (next first.state r).events = _
    rw [hevents, List.flatten_cons]

end Bulk

theorem Sound.sound_emplace (h : t.Sound) (item : α) : (t.emplace item).state.Sound := by
  rcases h.emplace_cases item with ⟨o, heq, -⟩ |
    ⟨-, -, t', events, o, heq, -, hadded⟩ | ⟨t', events, fault, heq, hrehoused, -⟩ <;> rw [heq]
  · exact h
  · exact hadded.sound
  · exact hrehoused.sound

/-- Inserting items one by one, also when an insertion fails. -/
theorem Sound.reports_emplaceEach (h : t.Sound) (count : Nat) (items : List α) :
    ReportsBulk Table.emplace key t (t.emplaceEach count items) := by
  induction items generalizing t count with
  | nil => exact .refl t count
  | cons a items ih =>
    have hgrowth := h.reportsGrowth (t.seats_emplace a)
    rw [Table.emplaceEach]
    exact .cons (.insert a hgrowth) hgrowth.mark fun p ↦ ih (h.sound_emplace a) _

/-- **Inserting items after room is made for them**, also when this fails. -/
theorem Sound.reports_emplaceMany (h : t.Sound) (hint : Nat) (items : List α) :
    ReportsBulk Table.emplace key t
      ((t.reserve hint).andThen fun t () ↦ t.emplaceEach 0 items) :=
  .cons (.reserve hint (h.tells_reserve hint)) (h.tells_reserve hint).mark fun _ ↦
    (h.reserve hint).sound.reports_emplaceEach 0 items

end Table

end ProbeWindow
