import ProbeWindow.Proofs.Table.Copy
import ProbeWindow.Proofs.Table.Soundness
import Mathlib.Logic.Equiv.Basic
import Mathlib.Logic.Function.Basic

/-!
# Banks of tables

Some operations are about two tables: a table is cloned, two tables are swapped. A **bank** has
tables in numbered registers, each with a setup of its own, and a program for a bank is a list of
commands: a call on a register, a clone, or a swap.

The calls are a parameter, with the table that a call leaves (`next`): tables, maps and sets have
banks, and what holds of every call holds of every run.
-/

namespace ProbeWindow

universe u v w

/-- Tables in numbered registers. -/
abbrev Bank {α : Type u} {κ : Type v} [BEq κ] (key : α → κ) := Nat → Table key

namespace Bank

variable {α : Type u} {κ : Type v} {γ : Type w} [BEq κ] {key : α → κ}

/-- A command for a bank of tables. -/
inductive Command (γ : Type w) (α : Type u) where
  /-- A call on the table of a register. -/
  | call (r : Nat) (c : γ)
  /-- A clone of the table of a register, which goes to another register. -/
  | clone (source target : Nat) (copy : α → Except Fault α)
  /-- Two registers exchange their tables. -/
  | swap (r s : Nat)

/-- The bank in which every register has an empty table. -/
def fresh (key : α → κ) (setup : Nat → Setup κ) : Bank key := fun r ↦ .empty key (setup r)

section Run

variable (next : Table key → γ → Table key) (keeps : Table key → γ → Prop)
  (R : Table key → α → α → Prop)

/-- The bank after a command. A clone that fails changes nothing. -/
def exec (bank : Bank key) : Command γ α → Bank key
  | .call r c => Function.update bank r (next (bank r) c)
  | .clone source target copy =>
    match (bank source).copyWith copy with
    | .error _ => bank
    | .ok t => Function.update bank target t
  | .swap r s => bank ∘ Equiv.swap r s

/-- The bank after a list of commands. -/
def run (bank : Bank key) (cs : List (Command γ α)) : Bank key := cs.foldl (exec next) bank

/-- A command keeps to the rules: a call to those for calls, and a copied item is related to the
item that it is a copy of. -/
def Keeps (bank : Bank key) : Command γ α → Prop
  | .call r c => keeps (bank r) c
  | .clone source _ copy =>
    ∀ a ∈ (bank source).toList, ∀ b, copy a = .ok b → R (bank source) a b
  | .swap _ _ => True

/-- Every command of a list keeps to the rules when its turn comes. -/
def Admits (bank : Bank key) : List (Command γ α) → Prop
  | [] => True
  | c :: cs => Keeps keeps R bank c ∧ Admits (exec next bank c) cs

end Run

variable {next : Table key → γ → Table key} {keeps keeps' : Table key → γ → Prop}
  {R R' : Table key → α → α → Prop} {P : Table key → Prop}

/-- Commands that keep to the rules keep to weaker ones. -/
theorem Admits.mono (hkeeps : ∀ t c, keeps t c → keeps' t c)
    (hR : ∀ t a b, R t a b → R' t a b) {bank : Bank key} {cs : List (Command γ α)}
    (h : Admits next keeps R bank cs) : Admits next keeps' R' bank cs := by
  induction cs generalizing bank with
  | nil => trivial
  | cons c cs ih =>
    refine ⟨?_, ih h.2⟩
    cases c with
    | call r c => exact hkeeps _ c h.1
    | clone source target copy => exact fun a ha b hb ↦ hR _ a b (h.1 a ha b hb)
    | swap r s => trivial

/-- What holds of all tables of a bank holds of all when one is replaced, if and only if it holds of
the new one. -/
theorem forall_update_iff {bank : Bank key} (hbank : ∀ r, P (bank r)) (s : Nat) (t : Table key) :
    (∀ r, P (Function.update bank s t r)) ↔ P t :=
  (Function.forall_update_iff bank fun _ ↦ P).trans (and_iff_left fun r _ ↦ hbank r)

/-- **What every call and every copy preserves, a command preserves** in all registers. -/
theorem exec_preserves (hcall : ∀ t c, P t → keeps t c → P (next t c))
    (hcopy : ∀ t t' copy, P t → t.copyWith copy = .ok t' →
      (∀ a ∈ t.toList, ∀ b, copy a = .ok b → R t a b) → P t')
    {bank : Bank key} {c : Command γ α} (hc : Keeps keeps R bank c) (hbank : ∀ r, P (bank r))
    (r : Nat) : P (exec next bank c r) := by
  have hupdate : ∀ s t, P t → P (Function.update bank s t r) := fun s t ht ↦
    (forall_update_iff hbank s t).mpr ht r
  cases c with
  | call s c => exact hupdate s _ (hcall _ c (hbank s) hc)
  | clone source target copy =>
    cases ht : (bank source).copyWith copy with
    | error fault =>
      simp only [exec, ht]
      exact hbank r
    | ok t =>
      simp only [exec, ht]
      exact hupdate target t (hcopy _ t copy (hbank source) ht hc)
  | swap s s' => exact hbank _

/-- **What every call and every copy preserves holds along every run.** -/
theorem run_preserves (hcall : ∀ t c, P t → keeps t c → P (next t c))
    (hcopy : ∀ t t' copy, P t → t.copyWith copy = .ok t' →
      (∀ a ∈ t.toList, ∀ b, copy a = .ok b → R t a b) → P t')
    {bank : Bank key} {cs : List (Command γ α)} (hcs : Admits next keeps R bank cs)
    (hbank : ∀ r, P (bank r)) (r : Nat) : P (run next bank cs r) := by
  induction cs generalizing bank with
  | nil => exact hbank r
  | cons c cs ih => exact ih hcs.2 fun s ↦ exec_preserves hcall hcopy hcs.1 hbank s

/-- **A property that a command keeps unless it is a bad one** holds all along a run if and only if
no command of the run is bad when its turn comes. -/
theorem forall_run_take_iff {S D : Bank key → Prop} {bad : Bank key → Command γ α → Prop}
    (hS : ∀ bank c, S bank → Keeps keeps R bank c → S (exec next bank c))
    (hD : ∀ bank c, S bank → D bank → Keeps keeps R bank c → (D (exec next bank c) ↔ ¬bad bank c))
    {bank : Bank key} {cs : List (Command γ α)} (hcs : Admits next keeps R bank cs)
    (hbank : S bank) (hdone : D bank) :
    (∀ n, D (run next bank (cs.take n))) ↔
      ∀ n c, cs[n]? = some c → ¬bad (run next bank (cs.take n)) c := by
  induction cs generalizing bank with
  | nil =>
    refine iff_of_true (fun n ↦ ?_) fun n c hc ↦ ?_
    · rw [List.take_nil]
      exact hdone
    · cases hc
  | cons c cs ih =>
    obtain ⟨hc, hcs⟩ := hcs
    -- the first command decides about the next bank, and the induction goes on from there
    have hstep := hD bank c hbank hdone hc
    constructor
    · intro h n
      have hnext := h 1
      cases n with
      | zero =>
        intro c' hc'
        cases hc'
        exact hstep.mp hnext
      | succ n => exact (ih hcs (hS bank c hbank hc) hnext).mp (fun m ↦ h (m + 1)) n
    · intro h n
      have hnext := hstep.mpr (h 0 c rfl)
      cases n with
      | zero => exact hdone
      | succ n =>
        exact (ih hcs (hS bank c hbank hc) hnext).mpr (fun m c' hc' ↦ h (m + 1) c' hc') n

end Bank

end ProbeWindow
