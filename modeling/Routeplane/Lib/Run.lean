import Mathlib.Data.List.Basic

/-!
# Runs of a step function

A run carries out events one after the other. `Steps P` says that every event of a run meets `P` in
the state it finds, `States P` that every state of a run meets `P`, `Occurs P` that some event does,
and `count P` is how many do.

* `steps_iff`, `states_iff`: the same by position.
* `Steps.states`, `Steps.imp`: an invariant that conditions on the events carry.
* `exists_run_of_simulates`: a run seen as a run of another system.
* `add_count_le`: events that are paid for are no more than what pays for them.
-/

namespace Run

variable {σ ε : Type*} (step : σ → ε → σ)

def run (s : σ) (es : List ε) : σ := es.foldl step s

def Steps (P : σ → ε → Prop) : σ → List ε → Prop
  | _, [] => True
  | s, e :: es => P s e ∧ Steps P (step s e) es

def States (P : σ → Prop) : σ → List ε → Prop
  | s, [] => P s
  | s, e :: es => P s ∧ States P (step s e) es

def Occurs (P : σ → ε → Prop) : σ → List ε → Prop
  | _, [] => False
  | s, e :: es => P s e ∨ Occurs P (step s e) es

def count (P : σ → ε → Prop) [∀ s e, Decidable (P s e)] : σ → List ε → ℕ
  | _, [] => 0
  | s, e :: es => (if P s e then 1 else 0) + count P (step s e) es

instance Steps.decidable (P : σ → ε → Prop) [∀ s e, Decidable (P s e)] :
    ∀ s es, Decidable (Steps step P s es)
  | _, [] => isTrue trivial
  | s, e :: es => @instDecidableAnd _ _ _ (Steps.decidable P (step s e) es)

instance Occurs.decidable (P : σ → ε → Prop) [∀ s e, Decidable (P s e)] :
    ∀ s es, Decidable (Occurs step P s es)
  | _, [] => isFalse id
  | s, e :: es => @instDecidableOr _ _ _ (Occurs.decidable P (step s e) es)

variable {step} {s : σ} {e : ε} {es : List ε} {P Q C : σ → ε → Prop} {I J : σ → Prop}

theorem run_append {es' : List ε} :
    run step s (es ++ es') = run step (run step s es) es' := List.foldl_append ..

theorem run_snoc : run step s (es ++ [e]) = step (run step s es) e := by
  unfold run
  rw [List.foldl_append]
  rfl

/-- By induction on the events. -/
theorem steps_iff : Steps step P s es ↔
    ∀ n, (h : n < es.length) → P (run step s (es.take n)) es[n] := by
  induction es generalizing s with
  | nil => exact ⟨fun _ n h => absurd h (Nat.not_lt_zero n), fun _ => trivial⟩
  | cons e es ih =>
    constructor
    · rintro ⟨hfirst, hrest⟩ n h
      cases n with
      | zero => exact hfirst
      | succ n => exact ih.1 hrest n (Nat.lt_of_succ_lt_succ h)
    · intro h
      exact ⟨h 0 (Nat.zero_lt_succ _), ih.2 fun n hn => h (n + 1) (Nat.succ_lt_succ hn)⟩

/-- By induction on the events. -/
theorem states_iff : States step I s es ↔ ∀ n ≤ es.length, I (run step s (es.take n)) := by
  induction es generalizing s with
  | nil =>
    constructor
    · intro h n _
      rw [List.take_nil]
      exact h
    · exact fun h => h 0 (Nat.le_refl _)
  | cons e es ih =>
    constructor
    · rintro ⟨hfirst, hrest⟩ n hn
      cases n with
      | zero => exact hfirst
      | succ n => exact ih.1 hrest n (Nat.le_of_succ_le_succ hn)
    · intro h
      exact ⟨h 0 (Nat.zero_le _), ih.2 fun n hn => h (n + 1) (Nat.succ_le_succ hn)⟩

/-- **An invariant that the events' conditions carry holds in every state.** -/
theorem Steps.states (hstep : ∀ s e, I s → C s e → I (step s e)) (h0 : I s)
    (h : Steps step C s es) : States step I s es := by
  induction es generalizing s with
  | nil => exact h0
  | cons e es ih => exact ⟨h0, ih (hstep s e h0 h.1) h.2⟩

/-- **What the conditions give where the invariant holds.** -/
theorem Steps.imp (hstep : ∀ s e, I s → C s e → I (step s e))
    (himp : ∀ s e, I s → C s e → P s e) (h0 : I s) (h : Steps step C s es) :
    Steps step P s es := by
  induction es generalizing s with
  | nil => trivial
  | cons e es ih => exact ⟨himp s e h0 h.1, ih (hstep s e h0 h.1) h.2⟩

theorem Steps.true : Steps step (fun _ _ => True) s es := by
  induction es generalizing s with
  | nil => trivial
  | cons e es ih => exact ⟨trivial, ih⟩

theorem Steps.mono (himp : ∀ s e, P s e → Q s e) (h : Steps step P s es) : Steps step Q s es := by
  induction es generalizing s with
  | nil => trivial
  | cons e es ih => exact ⟨himp s e h.1, ih h.2⟩

theorem States.mono (himp : ∀ s, I s → J s) (h : States step I s es) : States step J s es := by
  induction es generalizing s with
  | nil => exact himp s h
  | cons e es ih => exact ⟨himp s h.1, ih h.2⟩

/-! ## Some events -/

theorem Occurs.mono (himp : ∀ s e, P s e → Q s e) (h : Occurs step P s es) : Occurs step Q s es := by
  induction es generalizing s with
  | nil => exact h
  | cons e es ih => exact h.imp (himp s e) ih

theorem occurs_append {es' : List ε} : Occurs step P s (es ++ es') ↔
    Occurs step P s es ∨ Occurs step P (run step s es) es' := by
  induction es generalizing s with
  | nil => exact (or_iff_right id).symm
  | cons e es ih =>
    rw [List.cons_append, Occurs, ih, ← or_assoc]
    rfl

theorem Occurs.or (h : Occurs step (fun s e => P s e ∨ Q s e) s es) :
    Occurs step P s es ∨ Occurs step Q s es := by
  induction es generalizing s with
  | nil => exact .inl h
  | cons e es ih =>
    rcases h with (hp | hq) | hrest
    · exact .inl (.inl hp)
    · exact .inr (.inl hq)
    · exact (ih hrest).imp .inr .inr

/-- **A run seen as another system's**, whose steps are each seen as some of that system's. -/
theorem exists_run_of_simulates {σ' ε' : Type*} {step' : σ' → ε' → σ'} (view : σ → σ')
    (hstep : ∀ s e, ∃ es', view (step s e) = run step' (view s) es') (s : σ) (es : List ε) :
    ∃ es', view (run step s es) = run step' (view s) es' := by
  induction es generalizing s with
  | nil => exact ⟨[], rfl⟩
  | cons e es ih =>
    obtain ⟨first, hfirst⟩ := hstep s e
    obtain ⟨rest, hrest⟩ := ih (step s e)
    refine ⟨first ++ rest, ?_⟩
    rw [run_append, ← hfirst]
    exact hrest

section Count

variable [∀ s e, Decidable (P s e)]

theorem count_append {es' : List ε} :
    count step P s (es ++ es') = count step P s es + count step P (run step s es) es' := by
  induction es generalizing s with
  | nil => exact (Nat.zero_add _).symm
  | cons e es ih =>
    simp only [List.cons_append, count, ih, Nat.add_assoc]
    rfl

theorem occurs_iff_count_pos : Occurs step P s es ↔ 0 < count step P s es := by
  induction es generalizing s with
  | nil => exact iff_of_false id (Nat.lt_irrefl 0)
  | cons e es ih =>
    rw [Occurs, count, ih]
    split
    · rename_i h
      exact iff_of_true (.inl h) (by omega)
    · rename_i h
      rw [or_iff_right h, Nat.zero_add]

/-- **A potential bounds the count**: it pays for the events that meet `P`, and grows by the events
that pay for it only. By induction on the events. -/
theorem add_count_le {potential : σ → ℕ} {pays : ε → Bool}
    (hstep : ∀ s e, I s → C s e → I (step s e))
    (hpaid : ∀ s e, I s → C s e →
      potential (step s e) + (if P s e then 1 else 0) ≤ potential s + (if pays e then 1 else 0))
    (h0 : I s) (h : Steps step C s es) :
    potential (run step s es) + count step P s es ≤ potential s + es.countP pays := by
  induction es generalizing s with
  | nil => exact Nat.le_refl _
  | cons e es ih =>
    have hrest := ih (hstep s e h0 h.1) h.2
    have hfirst := hpaid s e h0 h.1
    rw [List.countP_cons, count]
    have hrun : run step s (e :: es) = run step (step s e) es := rfl
    rw [hrun]
    omega

end Count

end Run
