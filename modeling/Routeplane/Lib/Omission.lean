import Mathlib.Algebra.BigOperators.Group.List.Basic
import Mathlib.Algebra.GroupWithZero.Nat
import Mathlib.Data.Nat.Notation
import Mathlib.Tactic.Common

/-!
# Lists with runs left out

What is left of a list when some of its runs are each replaced by a marker that states how many
items the run had. The items and the runs follow each other as in the list, and a run is as long as
it can be: the next thing after a marker is an item.

* `Covers`: the pieces stand for the list.
* `sum_size`: nothing is lost or counted twice.
* `covers_kept_iff`, `covers_flush_kept_iff`: what the first pieces have to be.
* `forRuns_append_cons_iff`: what holds of every longest run, run by run.
-/

namespace Omission

variable {α μ : Type*}

inductive Piece (α μ : Type*)
  | kept (a : α)
  | omitted (m : μ) (n : ℕ)
  deriving DecidableEq

namespace Piece

/-- How many items a piece stands for. -/
def size : Piece α μ → ℕ
  | kept _ => 1
  | omitted _ n => n

def isKept : Piece α μ → Bool
  | kept _ => true
  | omitted _ _ => false

end Piece

/-- The pieces stand for the items, in order; no marker follows another. -/
inductive Covers : List (Piece α μ) → List α → Prop
  | nil : Covers [] []
  | kept {ps : List (Piece α μ)} {as : List α} (a : α) (h : Covers ps as) :
    Covers (.kept a :: ps) (a :: as)
  | omitted {ps : List (Piece α μ)} {as : List α} (m : μ) (run : List α) (hne : run ≠ [])
      (hnext : ∀ p ∈ ps.head?, p.isKept = true) (h : Covers ps as) :
    Covers (.omitted m run.length :: ps) (run ++ as)

variable {ps qs : List (Piece α μ)} {as bs run : List α} {a b : α} {m : μ} {n : ℕ}

/-- **The items kept and the counts add up.** -/
theorem sum_size (h : Covers ps as) : (ps.map Piece.size).sum = as.length := by
  induction h with
  | nil => rfl
  | kept a _ ih =>
    rw [List.map_cons, List.sum_cons, List.length_cons, ih]
    exact Nat.add_comm _ _
  | omitted m run _ _ _ ih =>
    rw [List.map_cons, List.sum_cons, List.length_append, ih]
    rfl

theorem covers_kept_iff : Covers (.kept a :: ps : List (Piece α μ)) (b :: as) ↔
    a = b ∧ Covers ps as := by
  constructor
  · intro h
    cases h with
    | kept a h => exact ⟨rfl, h⟩
  · rintro ⟨rfl, h⟩
    exact .kept a h

theorem covers_map_kept_append : Covers (as.map .kept ++ ps : List (Piece α μ)) (as ++ bs) ↔
    Covers ps bs := by
  induction as with
  | nil => exact Iff.rfl
  | cons a as ih =>
    rw [List.map_cons, List.cons_append, List.cons_append, covers_kept_iff]
    exact ⟨fun h => ih.1 h.2, fun h => ⟨rfl, ih.2 h⟩⟩

theorem covers_map_kept (as : List α) : Covers (as.map .kept : List (Piece α μ)) as := by
  have h : Covers (as.map .kept ++ [] : List (Piece α μ)) (as ++ []) := covers_map_kept_append.2 .nil
  rwa [List.append_nil, List.append_nil] at h

/-- Copies of one item stand for a run of it. -/
theorem covers_replicate_append_iff :
    Covers (List.replicate run.length (.kept a) ++ ps : List (Piece α μ)) (run ++ as) ↔
      (∀ x ∈ run, x = a) ∧ Covers ps as := by
  induction run with
  | nil => exact ⟨fun h => ⟨fun x hx => absurd hx List.not_mem_nil, h⟩, fun h => h.2⟩
  | cons r run ih =>
    rw [List.length_cons, List.replicate_succ, List.cons_append, List.cons_append, covers_kept_iff, ih,
      List.forall_mem_cons]
    constructor
    · rintro ⟨rfl, hrun, h⟩
      exact ⟨⟨rfl, hrun⟩, h⟩
    · rintro ⟨⟨rfl, hrun⟩, h⟩
      exact ⟨rfl, hrun, h⟩

theorem covers_omitted_iff (hne : run ≠ []) (hnext : ∀ p ∈ ps.head?, p.isKept = true) :
    Covers (.omitted m run.length :: ps) (run ++ as) ↔ Covers ps as := by
  constructor
  · intro h
    generalize hlist : run ++ as = list at h
    generalize hlen : run.length = len at h
    cases h with
    | omitted m run' _ _ h =>
      obtain ⟨rfl, rfl⟩ := List.append_inj hlist hlen
      exact h
  · exact .omitted m run hne hnext

/-- The marker of a run, if there is a run. -/
def flush (m : μ) (n : ℕ) : List (Piece α μ) := if 0 < n then [.omitted m n] else []

theorem covers_flush_iff (hnext : ∀ p ∈ ps.head?, p.isKept = true) :
    Covers (flush m run.length ++ ps) (run ++ as) ↔ Covers ps as := by
  cases run with
  | nil => exact Iff.rfl
  | cons r run =>
    have hpos : 0 < (r :: run).length := Nat.succ_pos _
    unfold flush
    rw [if_pos hpos]
    exact covers_omitted_iff (List.cons_ne_nil r run) hnext

theorem covers_flush_kept_iff :
    Covers (flush m run.length ++ .kept a :: ps) (run ++ b :: as) ↔ a = b ∧ Covers ps as := by
  have hnext : ∀ p ∈ (Piece.kept a :: ps : List (Piece α μ)).head?, p.isKept = true := by
    intro p hp
    rw [← Option.some.inj hp]
    rfl
  rw [covers_flush_iff hnext, covers_kept_iff]

theorem covers_flush (m : μ) (run : List α) : Covers (flush m run.length) run := by
  have hnext : ∀ p ∈ ([] : List (Piece α μ)).head?, p.isKept = true := by
    intro p hp
    cases hp
  have h : Covers (flush m run.length ++ []) (run ++ []) := (covers_flush_iff hnext).2 .nil
  rwa [List.append_nil, List.append_nil] at h

/-! ## Longest runs -/

/-- The items of the list between `pre` and `post` are a longest run of items with `p`. -/
structure IsRun (p : α → Bool) (pre run post : List α) : Prop where
  all : ∀ x ∈ run, p x = true
  before : ∀ x ∈ pre.getLast?, p x = false
  after : ∀ x ∈ post.head?, p x = false

section Runs

variable {p : α → Bool} {pre run' post : List α} {list : List α}

/-- A property of every longest run, told whether the list ends with it. -/
def ForRuns (p : α → Bool) (P : List α → Bool → Prop) (list : List α) : Prop :=
  ∀ pre run post, list = pre ++ run ++ post → IsRun p pre run post → P run post.isEmpty

variable {P : List α → Bool → Prop}

/-- A run at the front that an item ends is the longest one. -/
theorem eq_of_front (hrun : ∀ x ∈ run, p x = true) (ha : p a = false)
    (hrun' : ∀ x ∈ run', p x = true) (hpost : ∀ x ∈ post.head?, p x = false)
    (heq : run ++ a :: as = run' ++ post) : run' = run ∧ post = a :: as := by
  have hfront : (run ++ a :: as).takeWhile p = run := by
    rw [List.takeWhile_append_of_pos hrun, List.takeWhile_cons_of_neg (by simp [ha]),
      List.append_nil]
  have hfront' : (run' ++ post).takeWhile p = run' := by
    rw [List.takeWhile_append_of_pos hrun']
    cases post with
    | nil => exact List.append_nil _
    | cons x post =>
      rw [List.takeWhile_cons_of_neg (by simp [hpost x rfl]), List.append_nil]
  have hsame : run' = run := by rw [← hfront', ← heq, hfront]
  subst hsame
  exact ⟨rfl, (List.append_cancel_left heq).symm⟩

/-- **The first run, then the others.** -/
theorem forRuns_append_cons_iff (hnil : ∀ b, P [] b) (hrun : ∀ x ∈ run, p x = true)
    (ha : p a = false) : ForRuns p P (run ++ a :: as) ↔ P run false ∧ ForRuns p P as := by
  constructor
  · intro h
    refine ⟨h [] run (a :: as) rfl ⟨hrun, ?_, ?_⟩, ?_⟩
    · intro x hx
      cases hx
    · intro x hx
      rw [← Option.some.inj hx]
      exact ha
    · intro pre run' post heq his
      refine h (run ++ a :: pre) run' post ?_ ⟨his.all, ?_, his.after⟩
      · rw [heq]
        simp only [List.append_assoc, List.cons_append]
      · intro x hx
        rw [List.getLast?_append, List.getLast?_cons] at hx
        cases hpre : pre.getLast? with
        | none =>
          rw [hpre] at hx
          rw [← Option.some.inj hx]
          exact ha
        | some y =>
          rw [hpre] at hx
          rw [← Option.some.inj hx]
          exact his.before y hpre
  · rintro ⟨hfirst, hrest⟩ pre run' post heq his
    rw [List.append_assoc] at heq
    rcases List.append_eq_append_iff.1 heq with ⟨mid, hpre, hmid⟩ | ⟨mid, hrun', hmid⟩
    · -- the run starts after the first one
      cases mid with
      | nil =>
        cases run' with
        | nil => exact hnil _
        | cons x run' =>
          have hx : a = x := (List.cons.inj hmid).1
          have hall := his.all x List.mem_cons_self
          rw [← hx, ha] at hall
          cases hall
      | cons x mid =>
        obtain ⟨rfl, has⟩ := List.cons.inj hmid
        refine hrest mid run' post (has.trans (List.append_assoc _ _ _).symm) ⟨his.all, ?_, his.after⟩
        intro y hy
        refine his.before y ?_
        rw [hpre, List.getLast?_append, List.getLast?_cons, Option.mem_def.1 hy]
        rfl
    · -- the run is the first one
      cases pre with
      | nil =>
        have hsame : run ++ a :: as = run' ++ post := heq
        obtain ⟨rfl, rfl⟩ := eq_of_front hrun ha his.all his.after hsame
        exact hfirst
      | cons x pre =>
        have hlast : ∃ y, (x :: pre).getLast? = some y := ⟨_, List.getLast?_cons⟩
        obtain ⟨y, hy⟩ := hlast
        have hmem : y ∈ run := by
          rw [hrun']
          exact List.mem_append_left _ (List.mem_of_getLast? hy)
        have hfalse := his.before y hy
        rw [hrun y hmem] at hfalse
        cases hfalse

/-- A list that is one run. -/
theorem forRuns_iff_of_all (hrun : ∀ x ∈ run, p x = true) :
    ForRuns p P run ↔ P run true := by
  constructor
  · intro h
    refine h [] run [] (List.append_nil _).symm ⟨hrun, ?_, ?_⟩ <;>
    · intro x hx
      cases hx
  · intro h pre run' post heq his
    have hpre : pre = [] := by
      cases hlast : pre.getLast? with
      | none => exact List.getLast?_eq_none_iff.1 hlast
      | some y =>
        have hmem : y ∈ run := by
          rw [heq]
          exact List.mem_append_left _ (List.mem_append_left _ (List.mem_of_getLast? hlast))
        have hfalse := his.before y hlast
        rw [hrun y hmem] at hfalse
        cases hfalse
    have hpost : post = [] := by
      cases post with
      | nil => rfl
      | cons y post =>
        have hmem : y ∈ run := by
          rw [heq]
          exact List.mem_append_right _ List.mem_cons_self
        have hfalse := his.after y rfl
        rw [hrun y hmem] at hfalse
        cases hfalse
    subst hpre
    subst hpost
    rw [List.nil_append, List.append_nil] at heq
    rw [← heq]
    exact h

end Runs

end Omission
