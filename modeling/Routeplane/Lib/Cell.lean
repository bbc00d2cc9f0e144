import Mathlib.Data.List.Basic
import Mathlib.Logic.Function.Basic
import Mathlib.Logic.Relation
import Mathlib.Tactic.Common

/-!
# A cell updated by compare-and-swap loops

Callers share one cell. An operation `act a` looks at the value a caller has loaded and either
answers without writing or proposes a new value with its answer; the new value is installed only
if the cell still holds what was loaded, otherwise the caller loads again. A swap may also fail
for no reason.

* `Step.serial`: whatever the callers' steps are interleaved as, the cell and the answers are
  those of the completed operations carried out one after the other, in completion order.
* `Serial.invariant`: what every operation preserves holds after any number of them.
-/

namespace Cell

variable {ι α σ ρ : Type*}

/-- One operation on the value of the cell: what it would write, and its answer. -/
def next (act : α → σ → Option σ × ρ) (a : α) (c : σ) : σ := (act a c).1.getD c

/-- Operations one after the other, each with its answer. -/
inductive Serial (act : α → σ → Option σ × ρ) (c : σ) : List (α × ρ) → σ → Prop
  | nil : Serial act c [] c
  | snoc {log : List (α × ρ)} {d : σ} (h : Serial act c log d) (a : α) :
      Serial act c (log ++ [(a, (act a d).2)]) (next act a d)

/-- The cell, the operation each caller is in and the value it has loaded, and the operations
completed so far. -/
structure State (ι α σ ρ : Type*) where
  cell : σ
  busy : ι → Option (α × Option σ)
  log : List (α × ρ) := []

def start (c : σ) : State ι α σ ρ := ⟨c, fun _ => none, []⟩

variable [DecidableEq ι]

def State.set (s : State ι α σ ρ) (i : ι) (b : Option (α × Option σ)) : State ι α σ ρ :=
  { s with busy := Function.update s.busy i b }

inductive Step (act : α → σ → Option σ × ρ) : State ι α σ ρ → State ι α σ ρ → Prop
  | call {s : State ι α σ ρ} {i : ι} (a : α) (hb : s.busy i = none) :
      Step act s (s.set i (some (a, none)))
  | answer {s : State ι α σ ρ} {i : ι} {a : α} (hb : s.busy i = some (a, none))
      (hn : (act a s.cell).1 = none) :
      Step act s { s.set i none with log := s.log ++ [(a, (act a s.cell).2)] }
  | load {s : State ι α σ ρ} {i : ι} {a : α} (hb : s.busy i = some (a, none))
      (hw : (act a s.cell).1 ≠ none) : Step act s (s.set i (some (a, some s.cell)))
  | swap {s : State ι α σ ρ} {i : ι} {a : α} {w : σ} (hb : s.busy i = some (a, some s.cell))
      (hw : (act a s.cell).1 = some w) :
      Step act s { s.set i none with cell := w, log := s.log ++ [(a, (act a s.cell).2)] }
  | retry {s : State ι α σ ρ} {i : ι} {a : α} {c : σ} (hb : s.busy i = some (a, some c)) :
      Step act s (s.set i (some (a, none)))

variable {act : α → σ → Option σ × ρ} {s s' : State ι α σ ρ} {c d : σ} {log : List (α × ρ)}

@[simp] theorem set_cell (s : State ι α σ ρ) (i : ι) (b : Option (α × Option σ)) :
    (s.set i b).cell = s.cell := rfl

@[simp] theorem set_log (s : State ι α σ ρ) (i : ι) (b : Option (α × Option σ)) :
    (s.set i b).log = s.log := rfl

/-- A step leaves the cell and the log, or completes one operation. -/
theorem Step.completes (h : Step act s s') : (s'.cell = s.cell ∧ s'.log = s.log) ∨
    ∃ a, s'.cell = next act a s.cell ∧ s'.log = s.log ++ [(a, (act a s.cell).2)] := by
  cases h with
  | call a hb => exact Or.inl ⟨rfl, rfl⟩
  | answer hb hn =>
    rename_i i a
    refine Or.inr ⟨a, ?_, rfl⟩
    rw [next, hn]
    rfl
  | load hb hw => exact Or.inl ⟨rfl, rfl⟩
  | swap hb hw =>
    rename_i i a w
    refine Or.inr ⟨a, ?_, rfl⟩
    rw [next, hw]
    rfl
  | retry hb => exact Or.inl ⟨rfl, rfl⟩

/-- A caller that is not interrupted installs what it proposes. -/
theorem alone {i : ι} {a : α} {w : σ} (hb : s.busy i = none) (hw : (act a s.cell).1 = some w) :
    Relation.ReflTransGen (Step act) s
      { s with cell := w, log := s.log ++ [(a, (act a s.cell).2)] } := by
  have hcall : Step act s (s.set i (some (a, none))) := .call a hb
  have hload : Step act (s.set i (some (a, none)))
      ((s.set i (some (a, none))).set i (some (a, some s.cell))) :=
    .load (Function.update_self ..) (by rw [set_cell, hw]; simp)
  have hswap : Step act ((s.set i (some (a, none))).set i (some (a, some s.cell))) _ :=
    .swap (Function.update_self ..) hw
  have hdone : ((s.set i (some (a, none))).set i (some (a, some s.cell))).set i none = s := by
    unfold State.set
    simp only [Function.update_idem]
    rw [← hb, Function.update_eq_self]
  rw [hdone] at hswap
  exact ((Relation.ReflTransGen.single hcall).tail hload).tail hswap

/-- A step completes at most one operation, on the value the cell has there and then. -/
theorem Step.serial_step (h : Step act s s') (hs : Serial act c s.log s.cell) :
    Serial act c s'.log s'.cell := by
  rcases h.completes with ⟨hcell, hlog⟩ | ⟨a, hcell, hlog⟩
  · rw [hcell, hlog]
    exact hs
  · rw [hcell, hlog]
    exact hs.snoc a

/-- **Every interleaving is a serial run of the completed operations.** -/
theorem Step.serial (h : Relation.ReflTransGen (Step act) (start (ι := ι) c) s) :
    Serial act c s.log s.cell := by
  induction h with
  | refl => exact .nil
  | tail _ hstep ih => exact hstep.serial_step ih

/-- What every operation preserves, with its answer added to the log, holds after any run. -/
theorem Serial.invariant {p : List (α × ρ) → σ → Prop} (h0 : p [] c)
    (hstep : ∀ log d a, p log d → p (log ++ [(a, (act a d).2)]) (next act a d))
    (h : Serial act c log d) : p log d := by
  induction h with
  | nil => exact h0
  | snoc _ a ih => exact hstep _ _ a ih

/-- The operations before a point of the log are themselves a serial run, and the operation at
that point answered for the value they left. -/
theorem Serial.split {before after : List (α × ρ)} {a : α} {r : ρ}
    (h : Serial act c log d) (heq : log = before ++ (a, r) :: after) :
    ∃ e, Serial act c before e ∧ r = (act a e).2 := by
  induction h generalizing after with
  | nil => simp at heq
  | snoc h a' ih =>
    rename_i log' d'
    rcases List.eq_nil_or_concat after with rfl | ⟨after', x, rfl⟩
    · -- the point is the last operation
      have hinj := List.append_inj' heq rfl
      obtain ⟨rfl, hlast⟩ := hinj
      simp only [List.cons.injEq, Prod.mk.injEq, and_true] at hlast
      obtain ⟨rfl, rfl⟩ := hlast
      exact ⟨d', h, rfl⟩
    · have hpre : log' = before ++ (a, r) :: after' := by
        have heq' : log' ++ [(a', (act a' d').2)] = (before ++ (a, r) :: after') ++ [x] := by
          rw [heq]; simp
        exact (List.append_inj' heq' rfl).1
      exact ih hpre

end Cell
