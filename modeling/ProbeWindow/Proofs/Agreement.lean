import ProbeWindow.Map.Entry
import ProbeWindow.Proofs.Lodging
import ProbeWindow.Proofs.Rollback
import ProbeWindow.Proofs.Table.Joining

/-!
# Ways to insert what is absent

An item is inserted unless its key is there in several ways: at once, with a function that builds
it, or through the entry of its key. They look up and secure a seat in the same order, but they fill
the seat by different calls: a table checks that a built item has the key that was looked up, an
entry of a table that the item has the hash of its seat, and an entry of a map checks nothing.

All ways but one are one look-up followed by one way to use the entry (`Table.insertVia`), and the
checks pass when the item is the one whose key was looked up. The one that is left, `emplace`, is
given its item, and gets a block for it before the table is looked at; the others do so when they
have a seat. As long as the block is granted the order makes no difference (`Table.emplace_eq`), and
the outcomes of all ways are the same, events and faults included.

When the block is refused the fault is fatal: the program ends, at once in `emplace` and after a
seat is secured, which may fail before, in the others. No way returns then, and nobody sees the
table that is left, which has grown or has not. In a table that a run leads to the key is absent,
since there are no items (`Table.Lodged`). All of this is in `Table.WaysAgree`.
-/

namespace ProbeWindow

universe u v w

variable {α : Type u} {κ : Type v} {ν : Type w} [BEq κ]

namespace Table

variable {key : α → κ} (t : Table key) (item : α)

/-- A way to insert an item into a table unless its key is there. -/
inductive Way where
  /-- The item is given. -/
  | emplace
  /-- The item is built, for its own key. -/
  | tryEmplaceWith
  /-- The entry of its key is filled with the item. -/
  | orInsert
  /-- The entry of its key is filled with the item, which is built. -/
  | orInsertWith
deriving DecidableEq

/-- Inserts an item in some way unless its key is there; the result is the stored item. -/
def insertBy : Way → Outcome (Table key) (Occupant α)
  | .emplace => (t.emplace item).map Prod.fst
  | .tryEmplaceWith => (t.tryEmplaceWith (key item) fun () ↦ .ok item).map Prod.fst
  | .orInsert => (t.entry (key item)).andThen fun t e ↦ t.orInsert e item
  | .orInsertWith => (t.entry (key item)).andThen fun t e ↦ t.orInsertWith e fun () ↦ .ok item

/-- An item is inserted at an entry: its seat is filled when there is one. -/
def insertAt : Entry α → Outcome (Table key) (Occupant α × Bool)
  | .occupied o => .done t (o, false)
  | .vacant seat => (t.fill seat item).map (·, true)

/-- The stored item of a vacant entry is that of its seat. -/
theorem insertAt_vacant_fst (seat : Seat) :
    (t.insertAt item (.vacant seat)).map Prod.fst = t.fill seat item := by
  rw [insertAt, Outcome.map_map]
  exact Outcome.map_id' _

/-- An item is inserted by way of the entry of its key. -/
def insertVia : Outcome (Table key) (Occupant α × Bool) :=
  (t.entry (key item)).andThen fun t e ↦ t.insertAt item e

theorem setup_grow : t.grow.state.setup = t.setup := by
  rcases t.grow_outcomes with ⟨fault, heq⟩ | ⟨_, slots, -, -, -, heq⟩
  · rw [heq, Outcome.state_fail]
  · rw [heq]

/-- Settling keeps the setup, and a seat that it finds is one for the hash. -/
theorem settle_hash (hash : UInt64) :
    (t.settle hash).state.setup = t.setup ∧
      ∀ seat, (t.settle hash).result = .ok seat → seat.hash = hash := by
  fun_induction Table.settle t hash with
  | case1 =>
    refine ⟨rfl, fun seat hseat ↦ ?_⟩
    cases hseat
    rfl
  | case2 t =>
    refine ⟨t.markSaturated.setup_grow, fun seat hseat ↦ ?_⟩
    cases hseat
  | case3 t home hv grown events hgrown ih => exact ⟨ih.1.trans t.markSaturated.setup_grow, ih.2⟩

/-- Securing keeps the setup, and a seat that it returns is one for the hash. -/
theorem secure_hash (hash : UInt64) :
    (t.secure hash).state.setup = t.setup ∧
      ∀ seat, (t.secure hash).result = .ok seat → seat.hash = hash := by
  rcases t.secure_outcomes hash with ⟨fault, -, -, heq⟩ | ⟨-, -, heq⟩ | ⟨-, heq⟩ <;> rw [heq]
  · exact ⟨rfl, nofun⟩
  · obtain ⟨hsetup, hseat⟩ := t.grow.state.settle_hash hash
    exact ⟨hsetup.trans t.setup_grow, hseat⟩
  · exact t.settle_hash hash

/-- **A vacant entry has a seat for the hash of its key**, also in the table that it left. -/
theorem hash_of_vacant {k : κ} {seat : Seat} (h : (t.entry k).result = .ok (.vacant seat)) :
    (t.entry k).state.setup.hash k = seat.hash := by
  unfold entry at h ⊢
  cases hfound : t.locate? (t.setup.hash k) k with
  | some o =>
    simp only [hfound] at h
    cases h
  | none =>
    simp only [hfound] at h ⊢
    obtain ⟨seat', hseat', heq⟩ := Outcome.of_result_map h
    cases heq
    obtain ⟨hsetup, hseat⟩ := t.secure_hash (t.setup.hash k)
    rw [Outcome.state_map, hsetup, hseat seat hseat']

/-! #### The ways -/

/-- **An insertion is a look-up, and then the entry is used**, when the item gets its block. -/
theorem emplace_eq (hhouse : t.setup.house = .ok ()) : t.emplace item = t.insertVia item := by
  rw [emplace, hhouse, insertVia]
  cases hfound : t.locate? (t.setup.hash (key item)) (key item) with
  | some o =>
    simp only [accept, entry, hfound]
    rfl
  | none =>
    simp only [accept, entry, hfound, Outcome.map_andThen]
    refine Outcome.andThen_congr fun seat _ ↦ ?_
    rw [insertAt, fill, (t.secure_hash _).1, hhouse]
    rfl

/-- An insertion whose item does not get its block fails at once. -/
theorem emplace_of_refused {fault : Fault} (hhouse : t.setup.house = .error fault) :
    t.emplace item = .fail t fault := by
  rw [emplace, hhouse]

/-- The check of a built item passes when it is built for its own key. -/
theorem tryEmplaceWith_eq [ReflBEq κ] :
    t.tryEmplaceWith (key item) (fun () ↦ .ok item) = t.insertVia item := by
  refine Outcome.andThen_congr fun e _ ↦ ?_
  cases e with
  | occupied o => rfl
  | vacant seat => exact if_pos BEq.rfl

/-- The check of an entry passes when it is filled with an item of its key. -/
theorem orInsert_eq :
    ((t.entry (key item)).andThen fun t e ↦ t.orInsert e item) =
      (t.insertVia item).map Prod.fst := by
  rw [insertVia, ← Outcome.andThen_map]
  refine Outcome.andThen_congr fun e he ↦ ?_
  cases e with
  | occupied o => rfl
  | vacant seat =>
    rw [insertAt_vacant_fst]
    exact if_pos (t.hash_of_vacant he)

/-- **All ways to insert an item but one go by its entry.** -/
theorem insertBy_eq [ReflBEq κ] {way : Way} (hway : way ≠ .emplace) :
    t.insertBy item way = (t.insertVia item).map Prod.fst := by
  cases way with
  | emplace => exact absurd rfl hway
  | tryEmplaceWith => rw [insertBy, tryEmplaceWith_eq]
  | orInsert => exact t.orInsert_eq item
  | orInsertWith =>
    rw [← t.orInsert_eq item]
    refine Outcome.andThen_congr fun e _ ↦ ?_
    cases e <;> rfl

variable {t}

end Table

/-! ### Maps -/

namespace HashMap

variable (m : HashMap κ ν) (k : κ) (v : ν)

/-- A way to insert a value into a map unless its key is there. -/
inductive Way where
  /-- The value is given. -/
  | emplace
  /-- The value is built. -/
  | tryEmplace
  /-- The entry of the key is filled with the value. -/
  | orInsert
  /-- The entry of the key is filled with the value, which is built. -/
  | orInsertWith
  /-- The entry of the key is filled with the value, which is built from the key. -/
  | orInsertWithKey
  /-- The entry of the key is told apart, and filled when it is vacant. -/
  | matched
deriving DecidableEq

/-- Inserts a value in some way unless its key is there; the result is the stored pair. -/
def insertBy : Way → Outcome (HashMap κ ν) (Occupant (κ × ν))
  | .emplace => (emplace m k v).map Prod.fst
  | .tryEmplace => (tryEmplace m k fun () ↦ .ok v).map Prod.fst
  | .orInsert => (entry m k).andThen fun m e ↦ orInsert m e v
  | .orInsertWith => (entry m k).andThen fun m e ↦ orInsertWith m e fun () ↦ .ok v
  | .orInsertWithKey => (entry m k).andThen fun m e ↦ orInsertWithKey m e fun _ ↦ .ok v
  | .matched => (entry m k).andThen fun m e ↦
    match e.place with
    | .occupied o => .done m o
    | .vacant seat => m.fill seat (e.key, v)

/-- Building the value changes nothing. -/
theorem tryEmplace_eq : tryEmplace m k (fun () ↦ .ok v) = m.insertVia (k, v) :=
  Outcome.andThen_congr fun e _ ↦ by cases e <;> rfl

/-- **A use of an entry is an insertion** when it fills a vacant entry with the value, and leaves an
occupied one. -/
theorem entry_andThen_eq
    {use : HashMap κ ν → MapEntry κ ν → Outcome (HashMap κ ν) (Occupant (κ × ν))}
    (huse : ∀ m e, use m ⟨k, e⟩ = (m.insertAt (k, v) e).map Prod.fst) :
    (entry m k).andThen use = (m.insertVia (k, v)).map Prod.fst := by
  rw [Table.insertVia, entry, Outcome.map_andThen, ← Outcome.andThen_map]
  exact Outcome.andThen_congr fun e _ ↦ huse _ e

/-- **All ways to insert a value but one go by the entry of the key.** -/
theorem insertBy_eq {way : Way} (hway : way ≠ .emplace) :
    insertBy m k v way = (m.insertVia (k, v)).map Prod.fst := by
  cases way with
  | emplace => exact absurd rfl hway
  | tryEmplace => rw [insertBy, tryEmplace_eq]
  | orInsert | orInsertWith | orInsertWithKey | matched =>
    rw [insertBy]
    refine entry_andThen_eq m k v fun m e ↦ ?_
    cases e with
    | occupied o => rfl
    | vacant seat => exact (Table.insertAt_vacant_fst m (k, v) seat).symm

end HashMap

end ProbeWindow
