import Mathlib.Data.Int.CardIntervalMod
import Mathlib.Tactic.LinearCombination
import Mathlib.Tactic.Linarith

/-!
# Taking turns by a wrapping counter

`n` members take turns: each caller reads a counter that is kept modulo `W` and serves
the member at the value modulo `n`. Over `N` calls in a row every member is served
`⌊N/n⌋` or `⌈N/n⌉` times as long as the counter does not wrap on the way, or `n` divides
`W`. Across a wrap the sequence of turns jumps, and the shares stay even only when the jump
falls well.

* `turns_add`: how often a member is served, in closed form.
* `shares_iff_fair`: exactly when every member gets its share.
-/

namespace Turns

/-- The member the `k`-th caller is given, from a counter that stands at `start`. -/
def turn (W n start k : ℕ) : ℕ := (start + k) % W % n

/-- How many of the first `N` callers are given member `j`. -/
def turns (W n start N j : ℕ) : ℕ := Nat.count (fun k => turn W n start k = j) N

/-- An even share of `N` calls among `n`: the quotient rounded down or up. -/
def Share (N n d : ℕ) : Prop := d = N / n ∨ d = (N + n - 1) / n

/-- The window of `N` calls does not carry the counter past its wrap, or `n` divides `W`,
or the turns before the last wrap and those after it do not pile up on one member. -/
def Fair (W n start N : ℕ) : Prop :=
  let wraps := (start + N) / W
  let last := (start + N) % W % n
  wraps = 0 ∨ W % n = 0 ∨
    (wraps = 1 ∧ (last = 0 ∨ (min (W % n) last ≤ start % n ∧ start % n ≤ max (W % n) last))) ∨
    (wraps = 2 ∧ last = 0 ∧ start % n = W % n)

instance (W n start N : ℕ) : Decidable (Fair W n start N) := by unfold Fair; infer_instance

instance (N n d : ℕ) : Decidable (Share N n d) := by unfold Share; infer_instance

theorem share_iff {N n d : ℕ} (hn : 0 < n) : Share N n d ↔ n * d < N + n ∧ N < n * d + n := by
  have hdown : d = N / n ↔ n * d ≤ N ∧ N < n * d + n := by
    constructor
    · rintro rfl
      have hlt := Nat.lt_mul_div_succ N hn
      rw [Nat.mul_succ] at hlt
      exact ⟨Nat.mul_div_le N n, hlt⟩
    · rintro ⟨hle, hlt⟩
      refine (Nat.div_eq_of_lt_le ?_ ?_).symm
      · rwa [Nat.mul_comm]
      · rw [Nat.succ_mul, Nat.mul_comm]; exact hlt
  have hup : d = (N + n - 1) / n ↔ n * d ≤ N + n - 1 ∧ N + n - 1 < n * d + n := by
    constructor
    · rintro rfl
      have hlt := Nat.lt_mul_div_succ (N + n - 1) hn
      rw [Nat.mul_succ] at hlt
      exact ⟨Nat.mul_div_le _ n, hlt⟩
    · rintro ⟨hle, hlt⟩
      refine (Nat.div_eq_of_lt_le ?_ ?_).symm
      · rwa [Nat.mul_comm]
      · rw [Nat.succ_mul, Nat.mul_comm]; exact hlt
  rw [Share, hdown, hup]
  omega

section Count

variable {W n : ℕ} {p : ℕ → Prop} [DecidablePred p]

/-- A predicate of period `W` holds as often below `q * W + s` as `q` times below `W` and
once below `s`. -/
theorem count_periodic (hp : ∀ y, p (W + y) ↔ p y) (q s : ℕ) :
    Nat.count p (q * W + s) = q * Nat.count p W + Nat.count p s := by
  induction q with
  | zero => simp
  | succ q ih =>
    have hsplit : (q + 1) * W + s = W + (q * W + s) := by ring
    have hshift : Nat.count (fun y => p (W + y)) (q * W + s) = Nat.count p (q * W + s) := by
      congr 1
      funext y
      exact propext (hp y)
    rw [hsplit, Nat.count_add, hshift, ih]
    ring

/-- Below the wrap the counter is read as it stands. -/
theorem count_below {j s : ℕ} (hn : 0 < n) (hj : j < n) (hs : s ≤ W) :
    Nat.count (fun y => y % W % n = j) s = s / n + if j < s % n then 1 else 0 := by
  have hmod := Nat.count_modEq_card s hn j
  rw [Nat.mod_eq_of_lt hj] at hmod
  rw [← hmod, Nat.count_eq_card_filter_range, Nat.count_eq_card_filter_range]
  congr 1
  refine Finset.filter_congr fun y hy => ?_
  have hy' : y < W := by
    have := Finset.mem_range.1 hy
    omega
  rw [Nat.mod_eq_of_lt hy', Nat.ModEq, Nat.mod_eq_of_lt hj]

end Count

/-- **How often a member is served**: one full round of the counter for each wrap, and what
lies below the counter at the end, less what lay below it at the start. -/
theorem turns_add {W n start N j : ℕ} (hj : j < n) (hs : start < W) :
    turns W n start N j + (start / n + if j < start % n then 1 else 0) =
      (start + N) / W * (W / n + if j < W % n then 1 else 0) +
        ((start + N) % W / n + if j < (start + N) % W % n then 1 else 0) := by
  have hn : 0 < n := by omega
  have hperiod : ∀ y, (W + y) % W % n = j ↔ y % W % n = j := by
    intro y
    rw [Nat.add_mod_left]
  have hend := count_periodic (p := fun y => y % W % n = j) hperiod ((start + N) / W)
    ((start + N) % W)
  rw [Nat.div_add_mod', Nat.count_add, count_below hn hj hs.le, count_below hn hj le_rfl,
    count_below hn hj (Nat.mod_lt _ (by omega)).le] at hend
  rw [turns, Nat.add_comm]
  exact hend

/-- How far a remainder `m` is from what member `j` takes of it, in `n`ths. -/
def lag (n m j : ℕ) : ℤ := m - n * if j < m then 1 else 0

theorem lag_of_lt {n m j : ℕ} (h : j < m) : lag n m j = m - n := by simp [lag, h]

theorem lag_of_le {n m j : ℕ} (h : m ≤ j) : lag n m j = m := by simp [lag, Nat.not_lt.2 h]

/-- **A member's share is even iff its lags cancel to less than one round.** -/
theorem share_iff_lag {W n start N j : ℕ} (hj : j < n) (hs : start < W) :
    Share N n (turns W n start N j) ↔
      |((start + N) / W : ℕ) * lag n (W % n) j + lag n ((start + N) % W % n) j
        - lag n (start % n) j| < (n : ℤ) := by
  have hn : 0 < n := by omega
  have hserved := congrArg (fun x : ℕ => (x : ℤ)) (turns_add (N := N) hj hs)
  have hend := congrArg (fun x : ℕ => (x : ℤ)) (Nat.div_add_mod' (start + N) W)
  have hW := congrArg (fun x : ℕ => (x : ℤ)) (Nat.div_add_mod W n)
  have hstart := congrArg (fun x : ℕ => (x : ℤ)) (Nat.div_add_mod start n)
  have hlast := congrArg (fun x : ℕ => (x : ℤ)) (Nat.div_add_mod ((start + N) % W) n)
  simp only [Nat.cast_add, Nat.cast_mul, Nat.cast_ite, Nat.cast_one, Nat.cast_zero]
    at hserved hend hW hstart hlast
  have hdiff : (N : ℤ) - n * (turns W n start N j : ℕ) =
      ((start + N) / W : ℕ) * lag n (W % n) j + lag n ((start + N) % W % n) j
        - lag n (start % n) j := by
    simp only [lag]
    linear_combination -hend + hstart - n * hserved - hlast - ((start + N) / W : ℕ) * hW
  rw [share_iff hn, ← hdiff, abs_lt]
  zify
  constructor
  · rintro ⟨h1, h2⟩
    constructor <;> linarith
  · rintro ⟨h1, h2⟩
    constructor <;> linarith

/-- A pool whose size divides the counter's range never notices the wrap, and neither does a
window without one: the lags of the two ends alone stay below one round. -/
theorem lag_sub_lag_lt {n B C j : ℕ} (hB : B < n) (hC : C < n) :
    |lag n B j - lag n C j| < (n : ℤ) := by
  rw [abs_lt, lag, lag]
  split <;> split <;> omega

/-- With one wrap the remainder of the range and the two ends must interleave. -/
theorem lags_once {n M B C : ℕ} (hM : M < n) (hB : B < n) (hC : C < n) :
    (∀ j < n, |lag n M j + lag n B j - lag n C j| < (n : ℤ)) ↔
      M = 0 ∨ B = 0 ∨ (min M B ≤ C ∧ C ≤ max M B) := by
  constructor
  · intro h
    by_contra hcon
    obtain ⟨hM0, hB0, hout⟩ : 0 < M ∧ 0 < B ∧ (C < min M B ∨ max M B < C) := by omega
    rcases hout with hlow | hhigh
    · -- member `C` is served on both sides of the wrap, the last member on neither
      have hlast := h (n - 1) (by omega)
      have hserved := h C hC
      rw [lag_of_le (by omega), lag_of_le (by omega), lag_of_le (by omega), abs_lt] at hlast
      rw [lag_of_lt (by omega), lag_of_lt (by omega), lag_of_le le_rfl, abs_lt] at hserved
      omega
    · -- the first member is served once too often or the member after the gap once too rarely
      have hfirst := h 0 (by omega)
      have hgap := h (max M B) (by omega)
      rw [lag_of_lt hM0, lag_of_lt hB0, lag_of_lt (by omega), abs_lt] at hfirst
      rw [lag_of_le (by omega), lag_of_le (by omega), lag_of_lt hhigh, abs_lt] at hgap
      omega
  · intro h j hj
    simp only [lag, abs_lt]
    split <;> split <;> split <;> omega

/-- With two wraps only one arrangement stays even. -/
theorem lags_twice {n M B C : ℕ} (hM : M < n) (hB : B < n) (hC : C < n) :
    (∀ j < n, |2 * lag n M j + lag n B j - lag n C j| < (n : ℤ)) ↔ M = 0 ∨ (B = 0 ∧ C = M) := by
  constructor
  · intro h
    rcases Nat.eq_zero_or_pos M with hM0 | hM0
    · exact .inl hM0
    have hlast := h (n - 1) (by omega)
    have hfirst := h 0 (by omega)
    rw [lag_of_le (by omega), lag_of_le (by omega), lag_of_le (by omega), abs_lt] at hlast
    rw [lag_of_lt hM0, abs_lt] at hfirst
    have hB0 : B = 0 := by
      by_contra hB0
      rw [lag_of_lt (Nat.pos_of_ne_zero hB0)] at hfirst
      simp only [lag] at hfirst
      split at hfirst <;> omega
    refine .inr ⟨hB0, ?_⟩
    rcases Nat.lt_trichotomy C M with hlt | heq | hgt
    · have hC' := h C hC
      rw [lag_of_lt hlt, lag_of_le (by omega), lag_of_le le_rfl, abs_lt] at hC'
      omega
    · exact heq
    · have hM' := h M hM
      rw [lag_of_le le_rfl, lag_of_le (by omega), lag_of_lt hgt, abs_lt] at hM'
      rw [lag_of_le (by omega), lag_of_lt (by omega)] at hfirst
      omega
  · intro h j hj
    simp only [lag, abs_lt]
    split <;> split <;> split <;> omega

/-- From three wraps on the first member is ahead of the last by more than one turn. -/
theorem lags_often {n w M B C : ℕ} (hw : 3 ≤ w) (hM : 0 < M) (hMn : M < n) (hB : B < n) :
    ¬∀ j < n, |(w : ℤ) * lag n M j + lag n B j - lag n C j| < (n : ℤ) := by
  intro h
  have hfirst := h 0 (by omega)
  have hlast := h (n - 1) (by omega)
  have hround : (3 * n : ℤ) ≤ w * n := by
    have := Nat.mul_le_mul_right n hw
    exact_mod_cast this
  rw [lag_of_lt hM, mul_sub] at hfirst
  rw [lag_of_le (by omega : M ≤ n - 1)] at hlast
  simp only [lag, abs_lt] at hfirst hlast
  split_ifs at * <;> omega

/-- **Every member gets an even share exactly when the window is fair.** -/
theorem shares_iff_fair {W n start N : ℕ} (hn : 0 < n) (hs : start < W) :
    (∀ j < n, Share N n (turns W n start N j)) ↔ Fair W n start N := by
  have hM : W % n < n := Nat.mod_lt _ hn
  have hB : (start + N) % W % n < n := Nat.mod_lt _ hn
  have hC : start % n < n := Nat.mod_lt _ hn
  have hlags : (∀ j < n, Share N n (turns W n start N j)) ↔
      ∀ j < n, |((start + N) / W : ℕ) * lag n (W % n) j + lag n ((start + N) % W % n) j
        - lag n (start % n) j| < (n : ℤ) :=
    forall₂_congr fun j hj => share_iff_lag hj hs
  rw [hlags, Fair]
  rcases Nat.eq_zero_or_pos (W % n) with hzero | hpos
  · simp only [hzero, true_or, or_true, iff_true]
    intro j _
    have := lag_sub_lag_lt (j := j) hB hC
    rwa [lag_of_le (Nat.zero_le j), Nat.cast_zero, mul_zero, zero_add]
  · generalize (start + N) / W = wraps
    match wraps with
    | 0 =>
      simp only [true_or, iff_true]
      intro j _
      have := lag_sub_lag_lt (j := j) hB hC
      rwa [Nat.cast_zero, zero_mul, zero_add]
    | 1 =>
      have := lags_once hM hB hC
      simp only [Nat.cast_one, one_mul, this, hpos.ne', false_or, one_ne_zero, true_and,
        OfNat.one_ne_ofNat, false_and, or_false]
    | 2 =>
      have := lags_twice hM hB hC
      simp only [Nat.cast_ofNat, this, hpos.ne', false_or, OfNat.ofNat_ne_zero, true_and,
        OfNat.ofNat_ne_one, false_and]
    | w + 3 =>
      have := lags_often (w := w + 3) (by omega) hpos hM hB (C := start % n)
      constructor
      · intro h
        exact absurd h this
      · omega

end Turns
