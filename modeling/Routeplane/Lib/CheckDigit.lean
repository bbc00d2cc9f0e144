import Mathlib.Algebra.BigOperators.Group.List.Basic
import Mathlib.Algebra.Group.Units.Equiv
import Mathlib.Algebra.Ring.Defs
import Mathlib.Data.List.Enum
import Mathlib.Tactic.Abel
import Mathlib.Tactic.Common

/-!
# Check digits

A word with a check digit carries an automaton from its start to a fixed state. Where every symbol
permutes the states, whatever its position, what comes after an error cannot undo it: a symbol that is
read for another goes unnoticed iff the two act alike on the state before it, and two neighbours the
wrong way round iff the two orders do.

* `run_substitute_iff`, `run_swap_iff`: what goes unnoticed.
* `ofGroup`, `weighted`, `affine`: the symbols are factors of a group, weights of a sum, or digits in a
  positional system.
* `run_of_fold`, `weighted_run`: a loop over the symbols runs the automaton.
-/

namespace CheckDigit

/-- Every symbol, at every position, permutes the states. -/
structure Automaton (σ α : Type*) where
  act : ℕ → α → Equiv.Perm σ

namespace Automaton

variable {σ τ α : Type*} (A : Automaton σ α)

/-- The state after a word, the first symbol of which is at position `i`. -/
def run : ℕ → σ → List α → σ
  | _, s, [] => s
  | i, s, d :: ds => run (i + 1) (A.act i d s) ds

@[simp] theorem run_nil (i : ℕ) (s : σ) : A.run i s [] = s := rfl

@[simp] theorem run_cons (i : ℕ) (s : σ) (d : α) (ds : List α) :
    A.run i s (d :: ds) = A.run (i + 1) (A.act i d s) ds := rfl

theorem run_append (i : ℕ) (s : σ) (xs ys : List α) :
    A.run i s (xs ++ ys) = A.run (i + xs.length) (A.run i s xs) ys := by
  induction xs generalizing i s with
  | nil => rfl
  | cons x xs ih =>
    have hpos : i + 1 + xs.length = i + (x :: xs).length := by
      simp only [List.length_cons]
      omega
    rw [List.cons_append, run_cons, run_cons, ih, hpos]

/-- **What comes after an error cannot undo it.** -/
theorem run_injective (i : ℕ) (ds : List α) : Function.Injective fun s => A.run i s ds := by
  intro s t h
  induction ds generalizing i s t with
  | nil => exact h
  | cons d ds ih => exact (A.act i d).injective (ih (i + 1) h)

/-- **One symbol read for another.** -/
theorem run_substitute_iff {i : ℕ} {s : σ} {pre post : List α} {a b : α} :
    A.run i s (pre ++ a :: post) = A.run i s (pre ++ b :: post) ↔
      A.act (i + pre.length) a (A.run i s pre) = A.act (i + pre.length) b (A.run i s pre) := by
  rw [run_append, run_append, run_cons, run_cons]
  exact (A.run_injective _ post).eq_iff

/-- **Two neighbours the wrong way round.** -/
theorem run_swap_iff {i : ℕ} {s : σ} {pre post : List α} {a b : α} :
    A.run i s (pre ++ a :: b :: post) = A.run i s (pre ++ b :: a :: post) ↔
      A.act (i + pre.length + 1) b (A.act (i + pre.length) a (A.run i s pre)) =
        A.act (i + pre.length + 1) a (A.act (i + pre.length) b (A.run i s pre)) := by
  rw [run_append, run_append, run_cons, run_cons, run_cons, run_cons]
  exact (A.run_injective _ post).eq_iff

/-- **A loop runs the automaton** if its body does, in the states it keeps to. -/
theorem run_of_fold (view : τ → σ) (step : τ → α × ℕ → τ) (Ok : τ → Prop) {ds : List α}
    (hstep : ∀ t i, ∀ d ∈ ds, Ok t → Ok (step t (d, i)) ∧ view (step t (d, i)) = A.act i d (view t))
    {t : τ} (ht : Ok t) (i : ℕ) :
    Ok ((ds.zipIdx i).foldl step t) ∧ view ((ds.zipIdx i).foldl step t) = A.run i (view t) ds := by
  induction ds generalizing i t with
  | nil => exact ⟨ht, rfl⟩
  | cons d ds ih =>
    obtain ⟨hok, hview⟩ := hstep t i d List.mem_cons_self ht
    have hrest := ih (fun t i d hd => hstep t i d (List.mem_cons_of_mem _ hd)) hok (i + 1)
    rw [List.zipIdx_cons, List.foldl_cons, run_cons, ← hview]
    exact hrest

end Automaton

section

variable {α G R : Type*}

/-- The symbols are factors. -/
def ofGroup [Group G] (f : ℕ → α → G) : Automaton G α := ⟨fun i d => Equiv.mulRight (f i d)⟩

/-- The symbols are summands. -/
def weighted [AddGroup G] (f : ℕ → α → G) : Automaton G α := ⟨fun i d => Equiv.addRight (f i d)⟩

/-- The symbols are digits: what is read so far is moved on, and the digit added. -/
def affine [Ring R] (w : α → Rˣ) (v : α → R) : Automaton R α :=
  ⟨fun _ d => (w d).mulLeft.trans (Equiv.addRight (v d))⟩

@[simp] theorem ofGroup_act [Group G] (f : ℕ → α → G) (i : ℕ) (d : α) (s : G) :
    (ofGroup f).act i d s = s * f i d := rfl

@[simp] theorem weighted_act [AddGroup G] (f : ℕ → α → G) (i : ℕ) (d : α) (s : G) :
    (weighted f).act i d s = s + f i d := rfl

@[simp] theorem affine_act [Ring R] (w : α → Rˣ) (v : α → R) (i : ℕ) (d : α) (s : R) :
    (affine w v).act i d s = w d * s + v d := rfl

variable {pre post : List α} {a b : α} {i : ℕ}

theorem ofGroup_substitute_iff [Group G] {f : ℕ → α → G} {s : G} :
    (ofGroup f).run i s (pre ++ a :: post) = (ofGroup f).run i s (pre ++ b :: post) ↔
      f (i + pre.length) a = f (i + pre.length) b := by
  rw [Automaton.run_substitute_iff, ofGroup_act, ofGroup_act]
  exact mul_right_inj _

/-- **Neighbours that do not commute.** -/
theorem ofGroup_swap_iff [Group G] {f : ℕ → α → G} {s : G} :
    (ofGroup f).run i s (pre ++ a :: b :: post) = (ofGroup f).run i s (pre ++ b :: a :: post) ↔
      f (i + pre.length) a * f (i + pre.length + 1) b =
        f (i + pre.length) b * f (i + pre.length + 1) a := by
  rw [Automaton.run_swap_iff]
  simp only [ofGroup_act, mul_assoc]
  exact mul_right_inj _

theorem weighted_substitute_iff [AddGroup G] {f : ℕ → α → G} {s : G} :
    (weighted f).run i s (pre ++ a :: post) = (weighted f).run i s (pre ++ b :: post) ↔
      f (i + pre.length) a = f (i + pre.length) b := by
  rw [Automaton.run_substitute_iff, weighted_act, weighted_act]
  exact add_right_inj _

theorem weighted_swap_iff [AddGroup G] {f : ℕ → α → G} {s : G} :
    (weighted f).run i s (pre ++ a :: b :: post) = (weighted f).run i s (pre ++ b :: a :: post) ↔
      f (i + pre.length) a + f (i + pre.length + 1) b =
        f (i + pre.length) b + f (i + pre.length + 1) a := by
  rw [Automaton.run_swap_iff]
  simp only [weighted_act, add_assoc]
  exact add_right_inj _

/-- Digits of one width. -/
theorem affine_substitute_iff [Ring R] {w : α → Rˣ} {v : α → R} {s : R} (hw : w a = w b) :
    (affine w v).run i s (pre ++ a :: post) = (affine w v).run i s (pre ++ b :: post) ↔
      v a = v b := by
  rw [Automaton.run_substitute_iff, affine_act, affine_act, hw]
  exact add_right_inj _

/-- **The state is the sum.** -/
theorem weighted_run [AddCommGroup G] (f : ℕ → α → G) (i : ℕ) (s : G) (ds : List α) :
    (weighted f).run i s ds = s + ((ds.zipIdx i).map fun d => f d.2 d.1).sum := by
  induction ds generalizing i s with
  | nil => simp
  | cons d ds ih =>
    rw [Automaton.run_cons, weighted_act, ih, List.zipIdx_cons, List.map_cons, List.sum_cons]
    abel

/-- Weights that stand in a list. -/
theorem sum_zipWith {f : α → ℕ → ℕ} {ds : List α} {ws : List ℕ} (hlen : ds.length ≤ ws.length)
    (i : ℕ) : (ds.zipWith f ws).sum =
      ((ds.zipIdx i).map fun d => f d.1 (ws.getD (d.2 - i) 0)).sum := by
  induction ds generalizing ws i with
  | nil => rfl
  | cons d ds ih =>
    cases ws with
    | nil => simp at hlen
    | cons w ws =>
      have hshift : ∀ x ∈ ds.zipIdx (i + 1), f x.1 ((w :: ws).getD (x.2 - i) 0) =
          f x.1 (ws.getD (x.2 - (i + 1)) 0) := by
        intro x hx
        have hle := List.le_snd_of_mem_zipIdx hx
        obtain ⟨n, hn⟩ : ∃ n, x.2 - i = n + 1 := ⟨x.2 - (i + 1), by omega⟩
        rw [hn, List.getD_cons_succ]
        congr 2
        omega
      rw [List.zipWith_cons_cons, List.sum_cons, List.zipIdx_cons, List.map_cons, List.sum_cons,
        ih (by simpa using hlen) (i + 1), List.map_congr_left hshift]
      simp

end

end CheckDigit
