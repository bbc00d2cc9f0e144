import Mathlib.Algebra.Order.Group.Int
import Mathlib.Data.Int.ConditionallyCompleteOrder
import Mathlib.Data.Int.Notation
import Mathlib.Order.ConditionallyCompleteLattice.Basic
import Mathlib.Order.Monotone.Basic

/-!
# Months of the Gregorian calendar

Months counted from the March of year 0, so that a leap day ends its year, and days counted from
the first of them: where a month starts, and which month a day is in.

* `start_le_iff`: a month starts by a day iff it is the day's month or an earlier one.
-/

namespace Calendar

/-- The day the `y`-th year starts on. -/
def yearStart (y : ℤ) : ℤ := 365 * y + y / 4 - y / 100 + y / 400

/-- The day of its year the `m`-th month starts on. -/
def monthOffset (m : ℤ) : ℤ := (153 * m + 2) / 5

/-- The day the `n`-th month starts on. -/
def start (n : ℤ) : ℤ := yearStart (n / 12) + monthOffset (n % 12)

/-- The year, counted in its 400 years, of a day counted in them. -/
def yearOfEra (d : ℤ) : ℤ := (d - d / 1460 + d / 36524 - d / 146096) / 365

/-- The year of a day. -/
def year (d : ℤ) : ℤ := yearOfEra (d - d / 146097 * 146097) + d / 146097 * 400

/-- The month a day is in. -/
def month (d : ℤ) : ℤ := 12 * year d + (5 * (d - yearStart (year d)) + 2) / 153

/-! ## Years -/

theorem yearOfEra_succ (d : ℤ) : yearOfEra d ≤ yearOfEra (d + 1) := by
  -- 146096 days are four times 36524: a step of the last term is one of the term before
  have hnest : ∀ x : ℤ, x / 146096 = x / 36524 / 4 := by
    intro x
    rw [Int.ediv_ediv_of_nonneg (by decide)]
    rfl
  have hleap : (d + 1) / 1460 ≤ d / 1460 + 1 := by omega
  have hcentury : d / 36524 ≤ (d + 1) / 36524 := by omega
  unfold yearOfEra
  rw [hnest, hnest]
  exact Int.ediv_le_ediv (by decide) (by omega)

theorem yearOfEra_mono : Monotone yearOfEra := monotone_int_of_le_succ yearOfEra_succ

/-- The first and the last day of each of the 400 years are in it. -/
theorem yearOfEra_ends : ∀ y ∈ List.range 400, yearOfEra (yearStart y) = y ∧
    yearOfEra (yearStart (y + 1) - 1) = y := by decide +kernel

theorem yearOfEra_spec {d : ℤ} (h0 : 0 ≤ d) (h1 : d < 146097) :
    0 ≤ yearOfEra d ∧ yearOfEra d < 400 ∧
      yearStart (yearOfEra d) ≤ d ∧ d < yearStart (yearOfEra d + 1) := by
  have hlow : yearOfEra 0 ≤ yearOfEra d := yearOfEra_mono h0
  have hhigh : yearOfEra d ≤ yearOfEra 146096 := yearOfEra_mono (by omega)
  have hzero : yearOfEra 0 = 0 := by decide
  have hlast : yearOfEra 146096 = 399 := by decide
  have hends : ∀ y : ℤ, 0 ≤ y → y < 400 → yearOfEra (yearStart y) = y ∧
      yearOfEra (yearStart (y + 1) - 1) = y := by
    intro y hy0 hy1
    obtain ⟨n, rfl⟩ := Int.eq_ofNat_of_zero_le hy0
    exact yearOfEra_ends n (List.mem_range.2 (by omega))
  refine ⟨by omega, by omega, ?_, ?_⟩
  · -- a day before the year's first is at most the last of the year before
    by_contra hlt
    rcases lt_or_ge 0 (yearOfEra d) with hpos | hneg
    · have hprev := (hends (yearOfEra d - 1) (by omega) (by omega)).2
      rw [Int.sub_add_cancel] at hprev
      have hle := yearOfEra_mono (show d ≤ yearStart (yearOfEra d) - 1 by omega)
      omega
    · have hy : yearOfEra d = 0 := by omega
      rw [hy] at hlt
      exact hlt h0
  · by_contra hge
    rcases lt_or_ge (yearOfEra d) 399 with hlt | hlt
    · have hnext := (hends (yearOfEra d + 1) (by omega) (by omega)).1
      have hle := yearOfEra_mono (show yearStart (yearOfEra d + 1) ≤ d by omega)
      omega
    · have hy : yearOfEra d = 399 := by omega
      rw [hy] at hge
      exact hge (by unfold yearStart; omega)

theorem yearStart_add_era (y e : ℤ) : yearStart (y + e * 400) = yearStart y + e * 146097 := by
  unfold yearStart
  omega

/-- A day is in its year. -/
theorem year_spec (d : ℤ) : yearStart (year d) ≤ d ∧ d < yearStart (year d + 1) := by
  obtain ⟨-, -, hfirst, hlast⟩ :=
    yearOfEra_spec (d := d - d / 146097 * 146097) (by omega) (by omega)
  have hnext : year d + 1 = yearOfEra (d - d / 146097 * 146097) + 1 + d / 146097 * 400 := by
    unfold year
    omega
  rw [hnext]
  unfold year
  rw [yearStart_add_era, yearStart_add_era]
  omega

/-! ## Months -/

theorem yearStart_succ (y : ℤ) :
    yearStart y + 365 ≤ yearStart (y + 1) ∧ yearStart (y + 1) ≤ yearStart y + 366 := by
  unfold yearStart
  omega

theorem start_lt_succ (n : ℤ) : start n < start (n + 1) := by
  have hyear := yearStart_succ (n / 12)
  unfold start
  rcases lt_or_ge (n % 12) 11 with hlt | hge
  · have hdiv : (n + 1) / 12 = n / 12 := by omega
    have hmod : (n + 1) % 12 = n % 12 + 1 := by omega
    rw [hdiv, hmod]
    unfold monthOffset
    omega
  · have hdiv : (n + 1) / 12 = n / 12 + 1 := by omega
    have hmod : (n + 1) % 12 = 0 := by omega
    have hlast : n % 12 = 11 := by omega
    rw [hdiv, hmod, hlast]
    unfold monthOffset
    omega

theorem start_strictMono : StrictMono start := strictMono_int_of_lt_succ start_lt_succ

/-- The month of a day within its year. -/
theorem month_parts (d : ℤ) : month d / 12 = year d ∧
    month d % 12 = (5 * (d - yearStart (year d)) + 2) / 153 := by
  have hyear := year_spec d
  have hlen := yearStart_succ (year d)
  have h0 : 0 ≤ (5 * (d - yearStart (year d)) + 2) / 153 := by omega
  have h1 : (5 * (d - yearStart (year d)) + 2) / 153 < 12 := by omega
  unfold month
  omega

theorem start_month_le (d : ℤ) : start (month d) ≤ d := by
  have hyear := year_spec d
  obtain ⟨hdiv, hmod⟩ := month_parts d
  unfold start
  rw [hdiv, hmod]
  unfold monthOffset
  omega

theorem lt_start_month_succ (d : ℤ) : d < start (month d + 1) := by
  obtain ⟨hfirst, hlast⟩ := year_spec d
  obtain ⟨hdiv, hmod⟩ := month_parts d
  unfold start
  rcases lt_or_ge (month d % 12) 11 with hlt | hge
  · have hdiv' : (month d + 1) / 12 = year d := by omega
    have hmod' : (month d + 1) % 12 = (5 * (d - yearStart (year d)) + 2) / 153 + 1 := by omega
    rw [hdiv', hmod']
    unfold monthOffset
    omega
  · have hdiv' : (month d + 1) / 12 = year d + 1 := by omega
    have hmod' : (month d + 1) % 12 = 0 := by omega
    rw [hdiv', hmod']
    unfold monthOffset
    omega

/-- **A month starts by a day iff it is the day's month or an earlier one.** -/
theorem start_le_iff {n d : ℤ} : start n ≤ d ↔ n ≤ month d := by
  constructor
  · intro hle
    have hlt : start n < start (month d + 1) := lt_of_le_of_lt hle (lt_start_month_succ d)
    have hn := start_strictMono.lt_iff_lt.1 hlt
    omega
  · intro hle
    exact le_trans (start_strictMono.monotone hle) (start_month_le d)

end Calendar
