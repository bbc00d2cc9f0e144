import Routeplane.Lib.Calendar
import Routeplane.Limits.Window
import Mathlib.Order.Bounds.Basic

/-!
# Where windows end

The reset announced for a window is the first moment of the next one: of a minute, of a day on the
clock of a budget's anchor, and of a month on that clock, for as long as the calendar goes.

* `civilMonth_index`, `monthStart_eq`: the two conversions between days and months, as one calendar.
* `minute_ends`, `day_ends`, `month_ends`: each reset ends its window.
-/

namespace Routeplane.Limits

/-! ## The calendar -/

/-- The first of January 1970, counted from the first of March of year 0. -/
def unixDay : ℤ := 719468

/-- The month of a day is the calendar's, counted from another January. -/
theorem civilMonth_index (d : ℤ) :
    1 ≤ (civilMonth d).2 ∧ (civilMonth d).2 ≤ 12 ∧
      (civilMonth d).1 * 12 + (civilMonth d).2 = Calendar.month (d + unixDay) + 3 := by
  unfold civilMonth unixDay
  generalize d + 719468 = z
  obtain ⟨hfirst, hlast⟩ := Calendar.year_spec z
  have hlen := Calendar.yearStart_succ (Calendar.year z)
  have hmonth : Calendar.month z =
      12 * Calendar.year z + (5 * (z - Calendar.yearStart (Calendar.year z)) + 2) / 153 := rfl
  have hyear : Calendar.year z =
      Calendar.yearOfEra (z - z / 146097 * 146097) + z / 146097 * 400 := rfl
  have hera := Calendar.yearStart_add_era (Calendar.yearOfEra (z - z / 146097 * 146097)) (z / 146097)
  rw [← hyear] at hera
  have hspec := Calendar.yearOfEra_spec (d := z - z / 146097 * 146097) (by omega) (by omega)
  generalize hdoe : z - z / 146097 * 146097 = doe at *
  have hyoe : (doe - doe / 1460 + doe / 36524 - doe / 146096) / 365 = Calendar.yearOfEra doe := rfl
  simp only [hdoe, hyoe]
  rw [hmonth]
  generalize Calendar.yearOfEra doe = yoe at *
  -- the day of the year is counted in the 400 years here and from year 0 there
  have hstart : 365 * yoe + yoe / 4 - yoe / 100 = Calendar.yearStart yoe := by
    unfold Calendar.yearStart
    omega
  have hdoy : doe - Calendar.yearStart yoe = z - Calendar.yearStart (Calendar.year z) := by omega
  rw [hstart, hdoy]
  generalize Calendar.yearStart (Calendar.year z) = first at *
  generalize hmp : (5 * (z - first) + 2) / 153 = mp
  have hmp0 : 0 ≤ mp := by omega
  have hmp12 : mp < 12 := by omega
  rcases lt_or_ge mp 10 with hlt | hge
  · rw [if_pos hlt]
    split <;> omega
  · rw [if_neg (by omega)]
    split <;> omega

theorem monthStart_eq (y : ℤ) {m : ℕ} (h1 : 1 ≤ m) (h12 : m ≤ 12) :
    monthStart y m = Calendar.start (y * 12 + m - 3) - unixDay := by
  unfold monthStart Calendar.start Calendar.yearStart Calendar.monthOffset unixDay
  by_cases hm : m ≤ 2
  · have hdiv : (y * 12 + m - 3) / 12 = y - 1 := by omega
    have hmod : (y * 12 + (m : ℤ) - 3) % 12 = m + 9 := by omega
    have hmp : ¬m > 2 := by omega
    simp only [hm, hmp, hdiv, hmod, if_true, if_false]
    omega
  · have hdiv : (y * 12 + m - 3) / 12 = y := by omega
    have hmod : (y * 12 + (m : ℤ) - 3) % 12 = m - 3 := by omega
    have hmp : m > 2 := by omega
    simp only [hm, hmp, hdiv, hmod, if_true, if_false]
    omega

/-- The month of a moment, counted from the March of year 0. -/
def monthIndex (nowMs : ℕ) (offsetMin : ℤ) : ℤ :=
  Calendar.month (shifted nowMs offsetMin / dayMs + unixDay)

/-- The last month the calendar represents. -/
def lastMonth : ℤ := maxYear * 12 + 9

section Month

variable {nowMs t : ℕ} {offsetMin : ℤ}

/-- The first month of 1970 is the first of a moment that is not before it. -/
theorem le_monthIndex (h : 0 ≤ shifted nowMs offsetMin) : 23638 ≤ monthIndex nowMs offsetMin := by
  have hfirst : Calendar.start 23638 ≤ 719468 := by decide
  have hday : 0 ≤ shifted nowMs offsetMin / dayMs := Int.ediv_nonneg h (by decide)
  exact Calendar.start_le_iff.1 (by unfold unixDay; omega)

theorem monthParts_eq (h0 : 0 ≤ shifted nowMs offsetMin)
    (h1 : monthIndex nowMs offsetMin ≤ lastMonth) :
    monthParts nowMs offsetMin = civilMonth (shifted nowMs offsetMin / dayMs) := by
  obtain ⟨hm1, hm12, hindex⟩ := civilMonth_index (shifted nowMs offsetMin / dayMs)
  have hlow := le_monthIndex h0
  unfold monthIndex at h1 hlow
  unfold monthParts
  dsimp only
  rw [if_pos ?_]
  unfold minYear
  unfold lastMonth at h1
  omega

/-- The month epoch counts months from the January of year 0. -/
theorem monthEpoch_eq (h0 : 0 ≤ shifted nowMs offsetMin)
    (h1 : monthIndex nowMs offsetMin ≤ lastMonth) :
    monthEpoch nowMs offsetMin = (monthIndex nowMs offsetMin + 2).toNat := by
  obtain ⟨hm1, -, hindex⟩ := civilMonth_index (shifted nowMs offsetMin / dayMs)
  unfold monthEpoch
  rw [monthParts_eq h0 h1]
  unfold monthIndex
  dsimp only
  congr 1
  omega

/-- The month after one the calendar represents starts where the calendar says. -/
theorem monthResetMs_eq (h0 : 0 ≤ shifted nowMs offsetMin)
    (h1 : monthIndex nowMs offsetMin < lastMonth) :
    monthResetMs nowMs offsetMin =
      ((Calendar.start (monthIndex nowMs offsetMin + 1) - unixDay) * dayMs -
        offsetMin * minuteMs).toNat := by
  obtain ⟨hm1, hm12, hindex⟩ := civilMonth_index (shifted nowMs offsetMin / dayMs)
  have hlow := le_monthIndex h0
  unfold monthResetMs
  rw [monthParts_eq h0 (by omega)]
  unfold monthIndex at h1 hlow ⊢
  unfold lastMonth at h1
  generalize civilMonth (shifted nowMs offsetMin / dayMs) = parts at *
  obtain ⟨y, m⟩ := parts
  dsimp only at *
  by_cases hdec : 12 ≤ m
  · have hyear : minYear ≤ y + 1 ∧ y + 1 ≤ maxYear := by unfold minYear; omega
    have hnext : (y + 1) * 12 + ((1 : ℕ) : ℤ) - 3 =
        Calendar.month (shifted nowMs offsetMin / dayMs + unixDay) + 1 := by omega
    rw [if_pos hdec]
    dsimp only
    rw [if_pos hyear, monthStart_eq _ (by decide) (by decide), hnext]
  · have hyear : minYear ≤ y ∧ y ≤ maxYear := by unfold minYear; omega
    have hnext : y * 12 + ((m + 1 : ℕ) : ℤ) - 3 =
        Calendar.month (shifted nowMs offsetMin / dayMs + unixDay) + 1 := by omega
    rw [if_neg hdec]
    dsimp only
    rw [if_pos hyear, monthStart_eq _ (by omega) (by omega), hnext]

end Month

/-! ## Where a window ends -/

/-- `r` is where the window of `nowMs` ends and the next one starts, which lasts over a second. -/
structure Ends (epoch : ℕ → ℕ) (nowMs r : ℕ) : Prop where
  lt : nowMs < r
  before : ∀ t, nowMs ≤ t → t < r → epoch t = epoch nowMs
  after : ∀ t, r ≤ t → t < r + 1000 → epoch t = epoch nowMs + 1

/-- The end of a window is the first moment after which its epoch is another. -/
theorem Ends.isLeast {epoch : ℕ → ℕ} {nowMs r : ℕ} (h : Ends epoch nowMs r) :
    IsLeast {t | nowMs < t ∧ epoch t ≠ epoch nowMs} r := by
  constructor
  · have hafter := h.after r (le_refl r) (by omega)
    exact ⟨h.lt, by omega⟩
  · rintro t ⟨hlt, hne⟩
    by_contra hbefore
    exact hne (h.before t (by omega) (by omega))

theorem minute_ends (nowMs : ℕ) : Ends minuteEpoch nowMs (minuteResetMs nowMs) := by
  refine ⟨lt_minuteResetMs nowMs, ?_, ?_⟩ <;> intro t h1 h2 <;>
    unfold minuteResetMs minuteEpoch minuteMs at * <;> omega

theorem day_ends {nowMs : ℕ} {offsetMin : ℤ} (h : 0 ≤ shifted nowMs offsetMin) :
    Ends (dayEpoch · offsetMin) nowMs (dayResetMs nowMs offsetMin) := by
  unfold dayResetMs dayEpoch
  unfold shifted dayMs minuteMs at *
  dsimp only
  refine ⟨?_, ?_, ?_⟩
  · omega
  · intro t h1 h2
    omega
  · intro t h1 h2
    omega

/-- The next month has begun once the reset is reached. -/
theorem monthResetMs_le_iff {nowMs t : ℕ} {offsetMin : ℤ} (h0 : 0 ≤ shifted nowMs offsetMin)
    (h1 : monthIndex nowMs offsetMin < lastMonth) :
    monthResetMs nowMs offsetMin ≤ t ↔ monthIndex nowMs offsetMin < monthIndex t offsetMin := by
  have hstart : monthIndex nowMs offsetMin < monthIndex t offsetMin ↔
      Calendar.start (monthIndex nowMs offsetMin + 1) ≤ shifted t offsetMin / dayMs + unixDay :=
    Calendar.start_le_iff.symm
  rw [hstart, monthResetMs_eq h0 h1]
  unfold shifted unixDay dayMs minuteMs
  omega

theorem month_ends {nowMs : ℕ} {offsetMin : ℤ} (h0 : 0 ≤ shifted nowMs offsetMin)
    (h1 : monthIndex nowMs offsetMin < lastMonth) :
    Ends (monthEpoch · offsetMin) nowMs (monthResetMs nowMs offsetMin) := by
  have hlow := le_monthIndex h0
  have hlater : ∀ t, nowMs ≤ t → 0 ≤ shifted t offsetMin ∧
      monthIndex nowMs offsetMin ≤ monthIndex t offsetMin := by
    intro t hle
    have hshift : shifted nowMs offsetMin ≤ shifted t offsetMin := by
      unfold shifted
      omega
    have hday := Int.ediv_le_ediv (show (0 : ℤ) < dayMs by decide) hshift
    refine ⟨le_trans h0 hshift, Calendar.start_le_iff.1 ?_⟩
    exact le_trans (Calendar.start_month_le _) (by omega)
  have hnow := monthEpoch_eq h0 (le_of_lt h1)
  have hlt : nowMs < monthResetMs nowMs offsetMin := by
    by_contra hge
    exact lt_irrefl _ ((monthResetMs_le_iff h0 h1).1 (by omega))
  refine ⟨hlt, ?_, ?_⟩
  · intro t hle hbefore
    obtain ⟨hshift, hge⟩ := hlater t hle
    have hsame : ¬monthIndex nowMs offsetMin < monthIndex t offsetMin := by
      rw [← monthResetMs_le_iff h0 h1]
      omega
    show monthEpoch t offsetMin = monthEpoch nowMs offsetMin
    rw [hnow, monthEpoch_eq hshift (by omega)]
    omega
  · intro t hreset hsecond
    have hle : nowMs ≤ t := by omega
    obtain ⟨hshift, -⟩ := hlater t hle
    have hpast := (monthResetMs_le_iff h0 h1).1 hreset
    -- the first day of a month is before the second month after
    have hshort : ¬monthIndex nowMs offsetMin + 1 + 1 ≤ monthIndex t offsetMin := by
      have hlen := Calendar.start_lt_succ (monthIndex nowMs offsetMin + 1)
      have heq := monthResetMs_eq h0 h1
      have hpos : 0 < monthResetMs nowMs offsetMin := by omega
      rw [monthIndex.eq_def t, ← Calendar.start_le_iff]
      unfold shifted unixDay dayMs minuteMs
      unfold unixDay dayMs minuteMs at heq
      omega
    show monthEpoch t offsetMin = monthEpoch nowMs offsetMin + 1
    rw [hnow, monthEpoch_eq hshift (by omega)]
    omega

/-- The seconds to wait reach the reset, and no more than a second past it. -/
theorem resetSecs_spec {nowMs r : ℕ} (h : nowMs < r) :
    r ≤ nowMs + 1000 * resetSecs r nowMs ∧ nowMs + 1000 * resetSecs r nowMs < r + 1000 := by
  unfold resetSecs
  omega

end Routeplane.Limits
