import Mathlib.Data.List.Basic

/-!
# The best of a list

A fold that keeps the best element seen so far. `better a b` says that `b` beats `a`; where the
relation is transitive and nothing beats itself, nothing in the list beats what is kept.

* `best_spec`: what is kept is in the list and is not beaten.
-/

namespace Best

variable {α : Type*}

/-- What is kept of `a` and the list after it. -/
def keep (better : α → α → Bool) (a : α) (l : List α) : α :=
  l.foldl (fun a b => if better a b then b else a) a

def best (better : α → α → Bool) (l : List α) : Option α :=
  l.foldl (fun best b =>
    match best with
    | none => some b
    | some a => if better a b then some b else some a) none

variable {better : α → α → Bool} {l : List α} {a x : α}

theorem best_cons (a : α) (l : List α) : best better (a :: l) = some (keep better a l) := by
  have hfold : ∀ a, l.foldl (fun best b =>
      match best with
      | none => some b
      | some a => if better a b then some b else some a) (some a) = some (keep better a l) := by
    unfold keep
    induction l with
    | nil => exact fun _ => rfl
    | cons b l ih =>
      intro a
      rw [List.foldl_cons, List.foldl_cons]
      simp only
      split <;> exact ih _
  exact hfold a

theorem best_eq_none_iff : best better l = none ↔ l = [] := by
  cases l with
  | nil => exact ⟨fun _ => rfl, fun _ => rfl⟩
  | cons a l =>
    rw [best_cons]
    exact iff_of_false (fun h => by cases h) fun h => by cases h

/-- What the first does not lose to, what is kept does not lose to either. By induction on the
list. -/
theorem keep_unbeaten
    (trans : ∀ a b c, better a b = true → better b c = true → better a c = true) {y : α}
    (h : better a y = false) : better (keep better a l) y = false := by
  induction l generalizing a with
  | nil => exact h
  | cons b l ih =>
    unfold keep
    rw [List.foldl_cons]
    refine ih ?_
    split
    · rename_i hab
      by_contra hby
      rw [trans a b y hab (by simpa using hby)] at h
      cases h
    · exact h

/-- By induction on the list: what is kept is not beaten, and neither by what was beaten before. -/
theorem keep_spec (irrefl : ∀ a, better a a = false)
    (trans : ∀ a b c, better a b = true → better b c = true → better a c = true) :
    keep better a l ∈ a :: l ∧ ∀ y ∈ a :: l, better (keep better a l) y = false := by
  induction l generalizing a with
  | nil =>
    refine ⟨List.mem_singleton.2 rfl, fun y hy => ?_⟩
    rw [List.mem_singleton.1 hy]
    exact irrefl a
  | cons b l ih =>
    have hkeep : keep better a (b :: l) = keep better (if better a b then b else a) l := rfl
    rw [hkeep]
    obtain ⟨hmem, hbest⟩ := ih (a := if better a b then b else a)
    constructor
    · rcases List.mem_cons.1 hmem with heq | hmem
      · rw [heq]
        split
        · exact List.mem_cons_of_mem _ List.mem_cons_self
        · exact List.mem_cons_self
      · exact List.mem_cons_of_mem _ (List.mem_cons_of_mem _ hmem)
    · intro y hy
      rcases List.mem_cons.1 hy with rfl | hy
      · refine keep_unbeaten trans ?_
        split
        · rename_i hab
          by_contra hba
          have hcycle := trans y b y hab (by simpa using hba)
          rw [irrefl] at hcycle
          cases hcycle
        · exact irrefl y
      · rcases List.mem_cons.1 hy with rfl | hy
        · refine keep_unbeaten trans ?_
          split
          · exact irrefl y
          · rename_i hab
            simpa using hab
        · exact hbest y (List.mem_cons_of_mem _ hy)

/-- **What is kept is in the list and is not beaten.** -/
theorem best_spec (irrefl : ∀ a, better a a = false)
    (trans : ∀ a b c, better a b = true → better b c = true → better a c = true)
    (h : best better l = some x) : x ∈ l ∧ ∀ y ∈ l, better x y = false := by
  cases l with
  | nil => cases h
  | cons a l =>
    rw [best_cons] at h
    cases h
    exact keep_spec irrefl trans

end Best
