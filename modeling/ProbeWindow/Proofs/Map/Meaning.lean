import ProbeWindow.Proofs.Map.Calls
import ProbeWindow.Proofs.Table.Meaning

/-!
# What the calls of a map mean

The meaning of every call of a map (`HashMap.Call.meaning`): a map is a finite map from classes of
equal keys to the stored key and its value. `insert` and `extend` exchange the value and keep the
stored key, `emplace`, `tryEmplace` and `insertMany` keep both. Every call keeps keys, since a user
gets hold of values only (`HashMap.Call.keepsKeys_meaning`).
-/

namespace ProbeWindow.HashMap

universe u v w

variable {κ : Type u} {ν : Type v} {σ : Type w}

/-! ### Acts -/

/-- What the use of a vacant entry does. -/
def VacantUse.act (k : κ) : VacantUse ν → Option (κ × ν) × List (Answer κ ν)
  | drop => (none, [])
  | key next => ((next.act k).1, .key k :: (next.act k).2)
  | intoKey => (none, [.key k])
  | insert v change => (some (k, change v), [.value (change v)])

/-- What the end of an occupied entry does. -/
def OccupiedEnd.act (p : κ × ν) : OccupiedEnd ν → Option (κ × ν) × List (Answer κ ν)
  | drop => (some p, [])
  | intoMut change => (some (mapValue change p), [.value (change p.2)])
  | remove => (none, [.value p.2])
  | removeEntry => (none, [.pair p])

/-- What the use of an occupied entry does. -/
def occupiedAct (last : OccupiedEnd ν) (p : κ × ν) :
    List (OccupiedStep ν) → Option (κ × ν) × List (Answer κ ν)
  | [] => last.act p
  | .key :: steps => ((occupiedAct last p steps).1, .key p.1 :: (occupiedAct last p steps).2)
  | .get :: steps => ((occupiedAct last p steps).1, .value p.2 :: (occupiedAct last p steps).2)
  | .getMut change :: steps =>
    ((occupiedAct last (mapValue change p) steps).1,
      .value (change p.2) :: (occupiedAct last (mapValue change p) steps).2)
  | .insert v :: steps =>
    ((occupiedAct last (p.1, v) steps).1, .value p.2 :: (occupiedAct last (p.1, v) steps).2)

/-- The value of an entry, or else one that is built, is changed. -/
def orInsertAct (k : κ) (make : Unit → Except Fault ν) (change : ν → ν) :
    Act (κ × ν) (List (Answer κ ν))
  | some p => (some (mapValue change p), .ok [.value (change p.2)])
  | none =>
    match make () with
    | .error fault => (none, .error fault)
    | .ok v => (some (k, change v), .ok [.value (change v)])

/-- What the use of an entry does. -/
def EntryUse.act (k : κ) : EntryUse κ ν → Act (κ × ν) (List (Answer κ ν))
  | drop, old => (old, .ok [])
  | key next, old =>
    ((next.act k old).1, (next.act k old).2.map (.key ((old.map Prod.fst).getD k) :: ·))
  | andModify change next, old => next.act k (old.map (mapValue change))
  | orInsert v change, old => orInsertAct k (fun () ↦ .ok v) change old
  | orInsertWith make change, old => orInsertAct k make change old
  | orInsertWithKey make change, old => orInsertAct k (fun () ↦ make k) change old
  | orDefault change, old => orInsertAct k (fun () ↦ .ok default) change old
  | matched vacant _ _, none => ((vacant.act k).1, .ok (vacant.act k).2)
  | matched _ steps last, some p =>
    ((occupiedAct last p steps).1, .ok (occupiedAct last p steps).2)

/-- Pairs with equal keys are merged by the value of the new one and the key of the old one. -/
def mergePair (old new : κ × ν) : κ × ν := (old.1, new.2)

/-- What setting a value does: the new pair is merged with the one that is there. -/
def insertAct (p : κ × ν) : Act (κ × ν) (Option ν) := fun old ↦
  (some ((old.map (mergePair · p)).getD p), .ok (old.map Prod.snd))

/-- **What a call on one key does** to a finite map. -/
def Access.act : Access κ ν → Act (κ × ν) (Reply σ κ ν)
  | get _, old => (old, .ok (.value? (old.map Prod.snd)))
  | getKeyValue _, old => (old, .ok (.pair? old))
  | getMut _ change, old =>
    (old.map (mapValue change), .ok (.value? ((old.map (mapValue change)).map Prod.snd)))
  | contains _, old => (old, .ok (.flag old.isSome))
  | count _, old => (old, .ok (.count old.toList.length))
  | index _, none => (none, .error .keyNotFound)
  | index _, some p => (some p, .ok (.value p.2))
  | insert k v, old => ((insertAct (k, v) old).1, (insertAct (k, v) old).2.map .value?)
  | emplace k v change, none => (some (k, change v), .ok (.placed (change v) true))
  | emplace _ _ change, some p => (some (mapValue change p), .ok (.placed (change p.2) false))
  | tryEmplace k make change, none =>
    match make () with
    | .error fault => (none, .error fault)
    | .ok v => (some (k, change v), .ok (.placed (change v) true))
  | tryEmplace _ _ change, some p =>
    (some (mapValue change p), .ok (.placed (change p.2) false))
  | remove _, old => (none, .ok (.value? (old.map Prod.snd)))
  | removeEntry _, old => (none, .ok (.pair? old))
  | entry k use, old => ((use.act k old).1, (use.act k old).2.map .answers)

/-! ### All calls -/

/-- **What a call of a map means.** -/
def Call.meaning : Call σ κ ν → Meaning σ (κ × ν) κ (Reply σ κ ν)
  | access a => .one a.keyOf a.act
  | insertMany pairs _ => .many (fun old _ ↦ old) pairs .count
  | extend pairs _ => .many mergePair pairs fun _ ↦ .unit
  | iterMut change n => .walk (changeValue change) n fun items ↦ .report (.items items)
  | retain visit state => .sift (visitValue visit) state .state
  | upkeep u => .upkeep u .report

/-! ### Keys -/

section Keys

variable {P : κ → Prop} {k : κ}

theorem VacantUse.key_act_of (hk : P k) (use : VacantUse ν) {q : κ × ν} (hq : q ∈ (use.act k).1) :
    P q.1 := by
  induction use with
  | drop | intoKey => cases hq
  | key next ih => exact ih hq
  | insert v change =>
    cases hq
    exact hk

theorem key_occupiedAct (last : OccupiedEnd ν) (steps : List (OccupiedStep ν)) {p q : κ × ν}
    (hp : P p.1) (hq : q ∈ (occupiedAct last p steps).1) : P q.1 := by
  induction steps generalizing p with
  | nil =>
    cases last with
    | drop | intoMut => cases hq; exact hp
    | remove | removeEntry => cases hq
  | cons step steps ih =>
    cases step with
    | key | get => exact ih hp hq
    | getMut change => exact ih (p := mapValue change p) hp hq
    | insert v => exact ih (p := (p.1, v)) hp hq

theorem key_orInsertAct (hk : P k) {make : Unit → Except Fault ν} {change : ν → ν}
    {old : Option (κ × ν)} (hold : ∀ p ∈ old, P p.1) {q : κ × ν}
    (hq : q ∈ (orInsertAct k make change old).1) : P q.1 := by
  cases old with
  | some p => cases hq; exact hold p rfl
  | none =>
    rw [orInsertAct] at hq
    cases hmake : make () with
    | error fault => rw [hmake] at hq; cases hq
    | ok v => rw [hmake] at hq; cases hq; exact hk

theorem EntryUse.key_act_of (hk : P k) (use : EntryUse κ ν) {old : Option (κ × ν)}
    (hold : ∀ p ∈ old, P p.1) {q : κ × ν} (hq : q ∈ (use.act k old).1) : P q.1 := by
  induction use generalizing old with
  | drop => exact hold q hq
  | key next ih => exact ih hold hq
  | andModify change next ih =>
    refine ih (fun p hp ↦ ?_) hq
    obtain ⟨p', hp', rfl⟩ := Option.map_eq_some_iff.mp hp
    exact hold p' hp'
  | orInsert | orInsertWith | orInsertWithKey | orDefault => exact key_orInsertAct hk hold hq
  | matched vacant steps last =>
    cases old with
    | none => exact vacant.key_act_of hk hq
    | some p => exact key_occupiedAct last steps (hold p rfl) hq

/-- **The key that a call leaves is its own, or the one that was there**: what holds of both holds
of it. -/
theorem Access.key_act_of (a : Access κ ν) (hk : P a.keyOf) {old : Option (κ × ν)}
    (hold : ∀ p ∈ old, P p.1) {q : κ × ν} (hq : q ∈ (a.act (σ := σ) old).1) : P q.1 := by
  cases a with
  | get | getKeyValue | contains | count => exact hold q hq
  | remove | removeEntry => cases hq
  | entry k use => exact use.key_act_of hk hold hq
  | getMut k change =>
    obtain ⟨p, hp, rfl⟩ := Option.map_eq_some_iff.mp hq
    exact hold p hp
  | index k =>
    cases old with
    | none => cases hq
    | some p => exact hold q hq
  | insert k v | emplace k v change =>
    cases old with
    | none => cases hq; exact hk
    | some p => cases hq; exact hold p rfl
  | tryEmplace k make change =>
    cases old with
    | some p => cases hq; exact hold p rfl
    | none =>
      rw [Access.act] at hq
      cases hmake : make () with
      | error fault => rw [hmake] at hq; cases hq
      | ok v => rw [hmake] at hq; cases hq; exact hk

/-- **A call on one key leaves a pair of that key**, or none. -/
theorem Access.key_act [BEq κ] [ReflBEq κ] (a : Access κ ν) {old : Option (κ × ν)}
    (hold : ∀ p ∈ old, (p.1 == a.keyOf) = true) {q : κ × ν}
    (hq : q ∈ (a.act (σ := σ) old).1) : (q.1 == a.keyOf) = true :=
  a.key_act_of (P := fun j ↦ (j == a.keyOf) = true) BEq.rfl hold hq

end Keys

/-- **Every call of a map keeps keys.** -/
theorem Call.keepsKeys_meaning [BEq κ] [ReflBEq κ] (c : Call σ κ ν) :
    c.meaning.KeepsKeys Prod.fst := by
  cases c with
  | access a => exact fun _ hold _ hq ↦ a.key_act hold hq
  | insertMany | extend => exact fun _ _ h ↦ h
  | iterMut => exact fun _ ↦ rfl
  | retain => exact fun _ _ ↦ rfl
  | upkeep => trivial

end ProbeWindow.HashMap
