import ProbeWindow.Proofs.Table.Calls

/-!
# What a fault leaves behind

A call on one key may end with a fault before its item is in the table, and never after. All that
it may have done by then is to secure a seat for the key, so it **backs out**: the table is as it
was, or as securing the seat has left it. A call on the whole table that ends with a fault has done
nothing at all (`Upkeep.state_of_error`).

This is a matter of how the calls are put together, and needs no invariant. A step that cannot fail
after it has changed the table is called **steady**.
-/

namespace ProbeWindow

universe u v w x y

namespace Outcome

variable {σ : Type u} {ρ : Type v} {τ : Type w}

theorem error_of_result_map {o : Outcome σ ρ} {f : ρ → τ} {fault : Fault}
    (h : (o.map f).result = .error fault) : o.result = .error fault := by
  rw [result_map] at h
  cases ho : o.result with
  | error fault' => rw [ho] at h; cases h; rfl
  | ok r => rw [ho] at h; cases h

/-- A fault comes from the first call when the one that follows cannot fail. -/
theorem of_error_andThen {o : Outcome σ ρ} {next : σ → ρ → Outcome σ τ}
    (hnext : ∀ s r, ∃ r', (next s r).result = .ok r') {fault : Fault}
    (h : (o.andThen next).result = .error fault) :
    o.result = .error fault ∧ (o.andThen next).state = o.state := by
  rcases o.andThen_cases next with ⟨fault', hfault, heq⟩ | ⟨r, -, heq⟩
  · rw [heq] at h ⊢
    cases h
    exact ⟨hfault, rfl⟩
  · obtain ⟨r', hr'⟩ := hnext o.state r
    rw [heq, result_after, hr'] at h
    cases h

end Outcome

namespace Table

variable {α : Type u} {κ : Type v} {ρ : Type w} {τ : Type x} {ι : Type y} [BEq κ] {key : α → κ}
  {t : Table key}

/-! ### Steps -/

/-- A call for a key that ends with a fault has left the table as it was, or as securing a seat for
the key left it. -/
def BacksOut (t : Table key) (k : κ) (out : Outcome (Table key) ρ) : Prop :=
  ∀ fault, out.result = .error fault →
    out.state = t ∨ out.state = (t.secure (t.setup.hash k)).state

/-- A call that returns has nothing to back out of. -/
theorem BacksOut.of_ok {k : κ} {out : Outcome (Table key) ρ} {r : ρ} (h : out.result = .ok r) :
    BacksOut t k out := by
  intro fault hfault
  rw [h] at hfault
  cases hfault

theorem BacksOut.map {k : κ} {out : Outcome (Table key) ρ} (h : BacksOut t k out) (f : ρ → τ) :
    BacksOut t k (out.map f) :=
  fun fault hfault ↦ h fault (Outcome.error_of_result_map hfault)

/-- What follows cannot fail. -/
theorem BacksOut.andThen {k : κ} {out : Outcome (Table key) ρ} (h : BacksOut t k out)
    {next : Table key → ρ → Outcome (Table key) τ}
    (hnext : ∀ t r, ∃ r', (next t r).result = .ok r') : BacksOut t k (out.andThen next) := by
  rcases out.andThen_cases next with ⟨fault, hfault, heq⟩ | ⟨r, -, heq⟩
  · rw [heq]
    exact fun _ _ ↦ h fault hfault
  · obtain ⟨r', hr'⟩ := hnext out.state r
    rw [heq]
    exact .of_ok hr'

/-! ### Entries and insertions -/

theorem state_entry (t : Table key) (k : κ) :
    (t.entry k).state = t ∨ (t.entry k).state = (t.secure (t.setup.hash k)).state := by
  rw [entry]
  split
  · exact .inl rfl
  · exact .inr rfl

/-- An item is refused before its seat is touched. -/
theorem state_fill_of_error {seat : Seat} {item : α} {fault : Fault}
    (h : (t.fill seat item).result = .error fault) : (t.fill seat item).state = t := by
  rcases t.fill_outcomes seat item with ⟨fault', -, heq⟩ | ⟨-, heq⟩ <;> rw [heq] at h ⊢
  · rfl
  · cases h

theorem state_fill_andThen_of_error {seat : Seat} {item : α}
    {next : Table key → Occupant α → Outcome (Table key) ρ}
    (hnext : ∀ t o, ∃ r, (next t o).result = .ok r) {fault : Fault}
    (h : ((t.fill seat item).andThen next).result = .error fault) :
    ((t.fill seat item).andThen next).state = t := by
  obtain ⟨hfill, hstate⟩ := Outcome.of_error_andThen hnext h
  rw [hstate, state_fill_of_error hfill]

/-- An insertion of an item that has its block fails only when no seat can be secured. -/
theorem secure_of_accept_error {item : α} {fault : Fault}
    (h : (t.accept item).result = .error fault) :
    (t.secure (t.setup.hash (key item))).result = .error fault ∧
      (t.accept item).state = (t.secure (t.setup.hash (key item))).state := by
  simp only [accept] at h ⊢
  split at h
  · cases h
  · have hnext : ∀ (t : Table key) seat, ∃ r, (Outcome.done (t.sit seat item).1
        ((t.sit seat item).2, true)).result = .ok r := fun _ _ ↦ ⟨_, rfl⟩
    exact Outcome.of_error_andThen hnext h

/-- A resize that does not succeed has changed nothing. -/
theorem state_resize (t : Table key) (capacity : Nat) (reason : ResizeReason) :
    (t.resize capacity reason).state = t ∨ (t.resize capacity reason).result = .ok (.ok ()) := by
  rcases t.resize_cases capacity reason with ⟨fault, heq⟩ | ⟨e, heq⟩ | ⟨slots, -, heq⟩ <;> rw [heq]
  · exact .inl rfl
  · exact .inl rfl
  · exact .inr rfl

/-- A reservation that does not succeed has changed nothing. -/
theorem state_tryReserve (t : Table key) (additional : Nat) :
    (t.tryReserve additional).state = t ∨ (t.tryReserve additional).result = .ok (.ok ()) := by
  rcases t.tryReserve_cases additional with
    ⟨-, heq⟩ | ⟨-, heq⟩ | ⟨-, ⟨-, heq⟩ | ⟨slots, -, -, ⟨fault, -, heq⟩ | ⟨first, -, heq⟩⟩⟩ <;>
    rw [heq]
  · exact .inl rfl
  · exact .inr rfl
  · exact .inl rfl
  · exact .inl rfl
  · exact t.state_resize _ _

/-- A failure of a resize leaves the table as it is; one that is reported is turned into a fault. -/
theorem state_of_error_andThen {o : Outcome (Table key) (Except ReserveError Unit)}
    (h : o.state = t ∨ o.result = .ok (.ok ())) {fault : Fault}
    (hfault : (o.andThen fun t result ↦
      match result with
      | .ok () => .done t ()
      | .error e => .fail t e.toFault).result = .error fault) :
    (o.andThen fun t result ↦
      match result with
      | .ok () => .done t ()
      | .error e => .fail t e.toFault).state = t := by
  obtain ⟨s, events, result⟩ := o
  rcases h with rfl | rfl
  · rcases result with _ | _ | ⟨⟨⟩⟩ <;> rfl
  · cases hfault

theorem state_reserve_of_error {additional : Nat} {fault : Fault}
    (h : (t.reserve additional).result = .error fault) : (t.reserve additional).state = t :=
  state_of_error_andThen (t.state_tryReserve additional) h

theorem state_rehash_of_error {count : Nat} {fault : Fault}
    (h : (t.rehash count).result = .error fault) : (t.rehash count).state = t := by
  rcases t.rehash_cases count with
    ⟨-, heq⟩ | ⟨-, ⟨fault', -, heq⟩ | ⟨first, -, ⟨-, heq⟩ | ⟨-, heq⟩⟩⟩ <;> rw [heq] at h ⊢
  · cases h
  · rfl
  · cases h
  · exact state_of_error_andThen (t.state_resize _ _) h

/-- **A call on a whole table that ends with a fault has left the table as it was.** -/
theorem Upkeep.state_of_error {u : Upkeep} {fault : Fault}
    (h : (u.exec t).result = .error fault) : (u.exec t).state = t := by
  cases u with
  | clear | iter | drain => cases h
  | reserve additional => exact state_reserve_of_error (Outcome.error_of_result_map h)
  | rehash count => exact state_rehash_of_error (Outcome.error_of_result_map h)
  | shrinkToFit => exact state_rehash_of_error (Outcome.error_of_result_map h)
  | tryReserve additional =>
    rcases t.state_tryReserve additional with hstate | hok
    · exact hstate
    · have herror : (t.tryReserve additional).result = .error fault :=
        Outcome.error_of_result_map h
      rw [hok] at herror
      cases herror
  | setMaxLoadFactor bits =>
    have herror : (t.setMaxLoadFactor bits).result = .error fault := Outcome.error_of_result_map h
    show (t.setMaxLoadFactor bits).state = t
    rw [Table.setMaxLoadFactor] at herror ⊢
    split at herror
    · cases herror
    · rfl

end Table

end ProbeWindow
