import Mathlib.Data.List.Perm.Basic
import Mathlib.Data.List.Basic
import Mathlib.Logic.Relation
import Mathlib.Tactic.Common

/-!
# A windowed race

Tasks wait in a list and are started in list order; at most `window` run at once. A
running task may resolve at any time, in any order: the first win ends the race, a loss
lets the next waiting task in. While the window is not full, a waiting task may also be
started before anything resolves.

* `Inv.run`: what holds in every state of every race.
* `Step.cost_lt`: every race ends.
* `Inv.winner_iff`: a race that has ended has a winner iff some task wins.
-/

namespace Race

variable {τ : Type*}

structure State (τ : Type*) where
  waiting : List τ
  running : List τ
  lost : List τ := []
  winner : Option τ := none

namespace State

/-- Let the next waiting task in, if there is one. -/
def launch (s : State τ) : State τ :=
  match s.waiting with
  | [] => s
  | t :: ts => { s with waiting := ts, running := s.running ++ [t] }

/-- The running task at `i` has lost. -/
def lose (s : State τ) (i : ℕ) (t : τ) : State τ :=
  { s with running := s.running.eraseIdx i, lost := s.lost ++ [t] }

/-- Nothing can happen any more. -/
def Ended (s : State τ) : Prop := s.winner.isSome ∨ s.running = []

/-- An upper bound for the number of steps left. -/
def cost (s : State τ) : ℕ :=
  2 * s.waiting.length + s.running.length + if s.winner.isSome then 0 else 1

end State

def start (tasks : List τ) : State τ := State.launch ⟨tasks, [], [], none⟩

inductive Step (wins : τ → Prop) (window : ℕ) : State τ → State τ → Prop
  | hedge {s : State τ} (hw : s.winner = none) (hr : s.running ≠ [])
      (hlt : s.running.length < window) (hne : s.waiting ≠ []) : Step wins window s s.launch
  | won {s : State τ} {t : τ} (hw : s.winner = none) (ht : t ∈ s.running) (h : wins t) :
      Step wins window s { s with winner := some t }
  | lost {s : State τ} {i : ℕ} {t : τ} (hw : s.winner = none) (ht : s.running[i]? = some t)
      (h : ¬wins t) : Step wins window s (s.lose i t).launch

/-- What holds in every state of a race over `tasks`. -/
structure Inv (wins : τ → Prop) (window : ℕ) (tasks : List τ) (s : State τ) : Prop where
  /-- The tasks started are the first ones, and each of them runs or has lost. -/
  started : ∃ launched, launched ++ s.waiting = tasks ∧ (s.running ++ s.lost).Perm launched
  running_le : s.running.length ≤ window
  lost_loses : ∀ t ∈ s.lost, ¬wins t
  winner_wins : ∀ t, s.winner = some t → t ∈ s.running ∧ wins t
  /-- The race never idles while tasks wait. -/
  busy : s.running = [] → s.waiting = []

variable {wins : τ → Prop} {window : ℕ} {tasks : List τ} {s s' : State τ} {t : τ} {i : ℕ}

@[simp] theorem launch_lost : s.launch.lost = s.lost := by
  unfold State.launch; split <;> rfl

@[simp] theorem launch_winner : s.launch.winner = s.winner := by
  unfold State.launch; split <;> rfl

theorem launch_busy (h : s.launch.running = []) : s.launch.waiting = [] := by
  unfold State.launch at h ⊢
  split at h
  · assumption
  · simp at h

theorem launch_started
    (h : ∃ launched, launched ++ s.waiting = tasks ∧ (s.running ++ s.lost).Perm launched) :
    ∃ launched, launched ++ s.launch.waiting = tasks ∧
      (s.launch.running ++ s.launch.lost).Perm launched := by
  obtain ⟨launched, heq, hperm⟩ := h
  unfold State.launch
  split
  · exact ⟨launched, heq, hperm⟩
  · rename_i t ts hw
    refine ⟨launched ++ [t], by rw [← heq, hw]; simp, ?_⟩
    -- the new task goes to the end of the running ones, before those that lost
    have hmid : (s.running ++ [t] ++ s.lost).Perm (s.running ++ s.lost ++ [t]) := by
      rw [List.append_assoc, List.append_assoc]
      exact List.Perm.append_left _ List.perm_append_comm
    exact hmid.trans (hperm.append_right _)

theorem launch_running_le (h : s.running.length < window) : s.launch.running.length ≤ window := by
  unfold State.launch
  split
  · omega
  · simp only [List.length_append, List.length_singleton]; omega

theorem length_lose (ht : s.running[i]? = some t) :
    (s.lose i t).running.length + 1 = s.running.length := by
  obtain ⟨hi, -⟩ := List.getElem?_eq_some_iff.1 ht
  have := List.length_eraseIdx_of_lt hi
  simp only [State.lose]
  omega

/-- Losing moves a task from the running ones to the lost ones. -/
theorem lose_perm (ht : s.running[i]? = some t) :
    ((s.lose i t).running ++ (s.lose i t).lost).Perm (s.running ++ s.lost) := by
  obtain ⟨hi, rfl⟩ := List.getElem?_eq_some_iff.1 ht
  have hback : (s.running[i] :: s.running.eraseIdx i).Perm s.running :=
    List.getElem_cons_eraseIdx_perm hi
  simp only [State.lose]
  rw [← List.append_assoc]
  refine List.perm_append_comm.trans ?_
  simp only [List.singleton_append]
  rw [← List.cons_append]
  exact hback.append_right _

theorem Inv.start (tasks : List τ) (hw : 1 ≤ window) : Inv wins window tasks (start tasks) where
  started := launch_started ⟨[], rfl, .refl _⟩
  running_le := by
    unfold Race.start State.launch
    cases tasks with
    | nil => exact Nat.zero_le _
    | cons t ts => simpa using hw
  lost_loses := by simp [Race.start]
  winner_wins := by simp [Race.start]
  busy := launch_busy

/-- **One step keeps the invariant.** -/
theorem Inv.step (hs : Inv wins window tasks s) (h : Step wins window s s') :
    Inv wins window tasks s' := by
  cases h with
  | hedge hw hr hlt hne =>
    exact
      { started := launch_started hs.started
        running_le := launch_running_le hlt
        lost_loses := by simpa using hs.lost_loses
        winner_wins := by simp [hw]
        busy := launch_busy }
  | won hw ht h =>
    refine ⟨hs.started, hs.running_le, hs.lost_loses, ?_, hs.busy⟩
    intro u hu
    obtain rfl := Option.some.inj hu
    exact ⟨ht, h⟩
  | @lost i t hw ht h =>
    have hlen := length_lose ht
    have hle := hs.running_le
    obtain ⟨launched, heq, hperm⟩ := hs.started
    exact
      { started := launch_started ⟨launched, heq, (lose_perm ht).trans hperm⟩
        running_le := launch_running_le (by omega)
        lost_loses := by
          intro u hu
          simp only [launch_lost, State.lose, List.mem_append, List.mem_singleton] at hu
          rcases hu with hu | rfl
          · exact hs.lost_loses u hu
          · exact h
        winner_wins := by simp [State.lose, hw]
        busy := launch_busy }

/-- **Every state of every race satisfies the invariant.** -/
theorem Inv.run (hw : 1 ≤ window) (h : Relation.ReflTransGen (Step wins window) (Race.start tasks) s) :
    Inv wins window tasks s := by
  induction h with
  | refl => exact .start tasks hw
  | tail _ hstep ih => exact ih.step hstep

/-- Every step uses up some of the race. -/
theorem Step.cost_lt (h : Step wins window s s') : s'.cost < s.cost := by
  cases h with
  | hedge hw hr hlt hne =>
    unfold State.cost State.launch
    cases hq : s.waiting with
    | nil => exact absurd hq hne
    | cons t ts =>
      simp only [List.length_cons, List.length_append, List.length_nil]
      omega
  | won hw ht h => simp [State.cost, hw]
  | @lost i t hw ht h =>
    have hlen := length_lose ht
    unfold State.cost State.launch
    split
    · rename_i hq
      simp only [State.lose] at hlen hq
      simp only [State.lose, hw, Option.isSome_none]
      omega
    · rename_i u us hq
      simp only [State.lose] at hlen hq
      simp only [State.lose, hq, hw, Option.isSome_none, List.length_cons, List.length_append,
        List.length_nil]
      omega

/-- A race that ended without a winner has started every task, and each has lost. -/
theorem Inv.lost_perm (hs : Inv wins window tasks s) (he : s.Ended) (hw : s.winner = none) :
    s.lost.Perm tasks := by
  rcases he with he | hr
  · simp [hw] at he
  · obtain ⟨launched, heq, hperm⟩ := hs.started
    rw [hs.busy hr, List.append_nil] at heq
    rw [hr, List.nil_append, heq] at hperm
    exact hperm

/-- **A race that has ended has a winner iff some task wins.** -/
theorem Inv.winner_iff (hs : Inv wins window tasks s) (he : s.Ended) :
    s.winner.isSome ↔ ∃ t ∈ tasks, wins t := by
  constructor
  · intro h
    obtain ⟨t, ht⟩ := Option.isSome_iff_exists.1 h
    obtain ⟨hrun, hwin⟩ := hs.winner_wins t ht
    obtain ⟨launched, heq, hperm⟩ := hs.started
    have hl : t ∈ launched := hperm.subset (List.mem_append_left _ hrun)
    exact ⟨t, heq ▸ List.mem_append_left _ hl, hwin⟩
  · rintro ⟨t, ht, hwin⟩
    by_contra hn
    have hnone : s.winner = none := by simpa using hn
    have hlost := (hs.lost_perm he hnone).symm.subset ht
    exact hs.lost_loses t hlost hwin

end Race
