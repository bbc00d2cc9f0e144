import Mathlib.Algebra.Ring.Basic
import Mathlib.Data.List.Basic
import Mathlib.Data.List.Infix
import Mathlib.Data.Nat.Notation
import Mathlib.Tactic.Ring

/-!
# Rolling hashes of windows

The hash of a list is a polynomial in a base, so it can follow a window along a longer list: one item
comes in, the one that leaves is taken out with its weight.

* `poly_push`, `poly_leave`: one item comes in, one leaves.
* `window`: the last items before a place; the runs of a length are the windows of that length.
* `Shared`: a run that two lists have in common, and `shared_iff`, by windows.
-/

namespace RollingHash

/-! ## The hash -/

section Poly

variable {R : Type} [CommRing R] (b : R)

def poly (w : List R) : R := w.foldl (fun h t => h * b + t) 0

theorem poly_push (w : List R) (t : R) : poly b (w ++ [t]) = poly b w * b + t := by
  unfold poly
  rw [List.foldl_append]
  rfl

theorem foldl_eq (h : R) (w : List R) :
    w.foldl (fun h t => h * b + t) h = h * b ^ w.length + poly b w := by
  induction w generalizing h with
  | nil =>
    show h = h * b ^ 0 + 0
    ring
  | cons t w ih =>
    have hw : poly b (t :: w) = w.foldl (fun h t => h * b + t) (0 * b + t) := rfl
    rw [List.foldl_cons, ih, hw, ih, List.length_cons]
    ring

/-- **The first item leaves**, with its weight. -/
theorem poly_leave (x : R) (w : List R) : poly b (x :: w) - x * b ^ w.length = poly b w := by
  have hfirst : poly b (x :: w) = w.foldl (fun h t => h * b + t) (0 * b + x) := rfl
  rw [hfirst, foldl_eq]
  ring

end Poly

/-! ## Windows -/

variable {α β : Type} {s t l w : List α} {m n k : ℕ}

/-- The last `n` of the first `k` items. -/
def window (l : List α) (n k : ℕ) : List α := (l.take k).drop (k - n)

theorem length_window (hn : n ≤ k) (hk : k ≤ l.length) : (window l n k).length = n := by
  unfold window
  rw [List.length_drop, List.length_take]
  omega

theorem window_infix (l : List α) (n k : ℕ) : window l n k <:+: l :=
  (List.drop_suffix _ _).isInfix.trans (List.take_prefix _ _).isInfix

theorem map_window (f : α → β) (l : List α) (n k : ℕ) :
    (window l n k).map f = window (l.map f) n k := by
  unfold window
  rw [List.map_drop, List.map_take]

/-- The runs of a list are its windows. -/
theorem infix_iff_window : w <:+: l ↔ ∃ k, w.length ≤ k ∧ k ≤ l.length ∧ window l w.length k = w := by
  constructor
  · rintro ⟨u, v, rfl⟩
    refine ⟨(u ++ w).length, by simp, by simp, ?_⟩
    unfold window
    rw [List.take_left, List.length_append, Nat.add_sub_cancel, List.drop_left]
  · rintro ⟨k, -, -, hw⟩
    rw [← hw]
    exact window_infix _ _ _

/-- One more item comes into a window that is one short. -/
theorem window_succ (hn : n ≤ k) (hk : k < l.length) :
    window l (n + 1) (k + 1) = window l n k ++ [l[k]] := by
  unfold window
  rw [← List.take_append_getElem hk, List.drop_append_of_le_length
    (by rw [List.length_take]; omega)]
  congr 2
  omega

/-- The first item of a window leaves. -/
theorem window_leave (hn : n < k) (hk : k ≤ l.length) :
    window l (n + 1) k = l[k - (n + 1)] :: window l n k := by
  have hlt : k - (n + 1) < (l.take k).length := by
    rw [List.length_take]
    omega
  unfold window
  rw [List.drop_eq_getElem_cons hlt, List.getElem_take]
  congr 2
  omega

/-! ## Shared runs -/

/-- The two lists have a run of `n` items in common. -/
def Shared (s t : List α) (n : ℕ) : Prop := ∃ w, w.length = n ∧ w <:+: s ∧ w <:+: t

theorem shared_iff : Shared s t n ↔ ∃ j k, (n ≤ j ∧ j ≤ s.length) ∧ (n ≤ k ∧ k ≤ t.length) ∧
    window s n j = window t n k := by
  constructor
  · rintro ⟨w, rfl, hs, ht⟩
    obtain ⟨j, hj, hj', hws⟩ := infix_iff_window.1 hs
    obtain ⟨k, hk, hk', hwt⟩ := infix_iff_window.1 ht
    exact ⟨j, k, ⟨hj, hj'⟩, ⟨hk, hk'⟩, hws.trans hwt.symm⟩
  · rintro ⟨j, k, ⟨hj, hj'⟩, -, heq⟩
    exact ⟨window s n j, length_window hj hj', window_infix _ _ _, heq ▸ window_infix _ _ _⟩

/-- A shorter run is shared as well. -/
theorem Shared.mono (h : Shared s t n) (hmn : m ≤ n) : Shared s t m := by
  obtain ⟨w, rfl, hs, ht⟩ := h
  have hpre : w.take m <:+: w := (List.take_prefix m w).isInfix
  exact ⟨w.take m, List.length_take_of_le hmn, hpre.trans hs, hpre.trans ht⟩

theorem Shared.le_left (h : Shared s t n) : n ≤ s.length := by
  obtain ⟨w, rfl, hs, -⟩ := h
  exact hs.length_le

theorem Shared.le_right (h : Shared s t n) : n ≤ t.length := by
  obtain ⟨w, rfl, -, ht⟩ := h
  exact ht.length_le

end RollingHash
