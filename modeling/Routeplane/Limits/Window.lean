import Routeplane.Lib.Cell
import Mathlib.Algebra.Ring.Nat
import Mathlib.Data.Int.Notation
import Mathlib.Order.MinMax

/-!
# Window counters

A fixed-window counter packs the window it counts in and the count into one 64-bit word,
`(epoch:24 | count:40)`; a word of another window reads as zero, and the first operation in a
new window starts its count afresh. Each operation is the body of a compare-and-swap loop on the
word (`Cell`): what it writes for the word it loaded, and its answer.

* `unpack_pack`: the two halves of a packed word.
* `peek_tryConsume`, `peek_debit`: what an operation leaves to be read in a window.
-/

namespace Routeplane.Limits

def u64Max : ℕ := 2 ^ 64 - 1

/-- `u64::saturating_add`. -/
def satAdd (a b : ℕ) : ℕ := min (a + b) u64Max

/-- `u64::saturating_mul`. -/
def satMul (a b : ℕ) : ℕ := min (a * b) u64Max

/-! ## The packed word -/

def epochBits : ℕ := 24
def countBits : ℕ := 40
def countMask : ℕ := (1 <<< countBits) - 1
def epochMask : ℕ := (1 <<< epochBits) - 1

def pack (epoch count : ℕ) : ℕ := ((epoch &&& epochMask) <<< countBits) ||| (count &&& countMask)

def unpack (p : ℕ) : ℕ × ℕ := (p >>> countBits, p &&& countMask)

theorem countMask_eq : countMask = 2 ^ 40 - 1 := rfl

theorem and_countMask (n : ℕ) : n &&& countMask = n % 2 ^ 40 :=
  Nat.and_two_pow_sub_one_eq_mod n 40

theorem and_epochMask (n : ℕ) : n &&& epochMask = n % 2 ^ 24 :=
  Nat.and_two_pow_sub_one_eq_mod n 24

theorem pack_eq (epoch count : ℕ) :
    pack epoch count = epoch % 2 ^ 24 * 2 ^ 40 + count % 2 ^ 40 := by
  have hlow : count % 2 ^ 40 < 2 ^ 40 := Nat.mod_lt _ (Nat.two_pow_pos _)
  have hor := Nat.shiftLeft_add_eq_or_of_lt hlow (epoch % 2 ^ 24)
  rw [pack, and_epochMask, and_countMask, show countBits = 40 from rfl, ← hor,
    Nat.shiftLeft_eq]

/-- A packed word holds the truncated epoch and the count it was packed from. -/
theorem unpack_pack {epoch count : ℕ} (hc : count ≤ countMask) :
    unpack (pack epoch count) = (epoch % 2 ^ 24, count) := by
  rw [countMask_eq] at hc
  have hlt : count < 2 ^ 40 := by omega
  rw [unpack, and_countMask, pack_eq, show countBits = 40 from rfl, Nat.shiftRight_eq_div_pow,
    Nat.mod_eq_of_lt hlt]
  refine Prod.ext ?_ ?_
  · show (epoch % 2 ^ 24 * 2 ^ 40 + count) / 2 ^ 40 = epoch % 2 ^ 24
    omega
  · show (epoch % 2 ^ 24 * 2 ^ 40 + count) % 2 ^ 40 = count
    omega

/-- A packed word is a 64-bit word. -/
theorem pack_lt (epoch count : ℕ) : pack epoch count < 2 ^ 64 := by
  rw [pack_eq]
  have he : epoch % 2 ^ 24 < 2 ^ 24 := Nat.mod_lt _ (Nat.two_pow_pos _)
  have hc : count % 2 ^ 40 < 2 ^ 40 := Nat.mod_lt _ (Nat.two_pow_pos _)
  omega

/-! ## The counter -/

/-- The count `p` holds for the window `epoch`: nothing if `p` is of another window. -/
def peek (epoch p : ℕ) : ℕ :=
  let (e, c) := unpack p
  if e = (epoch &&& epochMask) then c else 0

/-- `WindowCounter::try_consume`: refused at or over the limit. -/
def tryConsume (amount limit epoch cur : ℕ) : Option ℕ × Except ℕ ℕ :=
  let et := epoch &&& epochMask
  let (e, c) := unpack cur
  let base := if e = et then c else 0
  if limit ≤ base then (none, .error base)
  else
    let next := min (satAdd base amount) countMask
    (some (pack et next), .ok next)

/-- `WindowCounter::debit`: added whatever the count. -/
def debit (amount epoch cur : ℕ) : Option ℕ × Unit :=
  let et := epoch &&& epochMask
  let (e, c) := unpack cur
  let base := if e = et then c else 0
  let next := min (satAdd base amount) countMask
  (some (pack et next), ())

/-- `AlertFlag::try_fire`: true for the first caller of a window. -/
def tryFire (epoch cur : ℕ) : Option ℕ × Bool :=
  let et := epoch &&& epochMask
  let (e, fired) := unpack cur
  if e = et ∧ fired ≠ 0 then (none, false) else (some (pack et 1), true)

/-- The words two windows share: the packed epoch cannot tell them apart. -/
def SameEpoch (a b : ℕ) : Prop := a % 2 ^ 24 = b % 2 ^ 24

instance (a b : ℕ) : Decidable (SameEpoch a b) := inferInstanceAs (Decidable (_ = _))

variable {epoch e amount limit p c : ℕ}

theorem peek_le (epoch p : ℕ) : peek epoch p ≤ countMask := by
  unfold peek unpack
  simp only
  split
  · rw [and_countMask, countMask_eq]
    have hlt : p % 2 ^ 40 < 2 ^ 40 := Nat.mod_lt _ (Nat.two_pow_pos _)
    omega
  · exact Nat.zero_le _

/-- A fresh counter reads zero in every window. -/
@[simp] theorem peek_zero (epoch : ℕ) : peek epoch 0 = 0 := by
  unfold peek unpack
  simp

theorem peek_pack (hc : c ≤ countMask) :
    peek e (pack (epoch &&& epochMask) c) = if SameEpoch epoch e then c else 0 := by
  unfold peek
  rw [unpack_pack hc, and_epochMask, and_epochMask, Nat.mod_mod]
  rfl

variable (amount) in
theorem tryConsume_refused (h : limit ≤ peek epoch p) :
    tryConsume amount limit epoch p = (none, .error (peek epoch p)) := by
  unfold tryConsume
  unfold peek at h ⊢
  simp only at h ⊢
  rw [if_pos h]

variable (amount) in
theorem tryConsume_granted (h : peek epoch p < limit) :
    tryConsume amount limit epoch p =
      (some (pack (epoch &&& epochMask) (min (peek epoch p + amount) countMask)),
        .ok (min (peek epoch p + amount) countMask)) := by
  have hsat : min (satAdd (peek epoch p) amount) countMask =
      min (peek epoch p + amount) countMask := by
    unfold satAdd
    rw [min_assoc, min_eq_right (show countMask ≤ u64Max by decide)]
  unfold tryConsume
  unfold peek at h hsat ⊢
  simp only at h hsat ⊢
  rw [if_neg (by omega), hsat]

theorem debit_eq (amount epoch p : ℕ) :
    debit amount epoch p =
      (some (pack (epoch &&& epochMask) (min (peek epoch p + amount) countMask)), ()) := by
  have hsat : min (satAdd (peek epoch p) amount) countMask =
      min (peek epoch p + amount) countMask := by
    unfold satAdd
    rw [min_assoc, min_eq_right (show countMask ≤ u64Max by decide)]
  unfold debit
  unfold peek at hsat ⊢
  simp only at hsat ⊢
  rw [hsat]

theorem peek_tryConsume (h : peek epoch p < limit) :
    peek e (Cell.next (tryConsume amount limit) epoch p) =
      if SameEpoch epoch e then min (peek epoch p + amount) countMask else 0 := by
  rw [Cell.next, tryConsume_granted amount h]
  exact peek_pack (min_le_right _ _)

theorem peek_debit (amount epoch p e : ℕ) :
    peek e (Cell.next (debit amount) epoch p) =
      if SameEpoch epoch e then min (peek epoch p + amount) countMask else 0 := by
  rw [Cell.next, debit_eq]
  exact peek_pack (min_le_right _ _)

/-- Windows of one truncated epoch read the same count. -/
theorem peek_congr (h : SameEpoch epoch e) (p : ℕ) : peek epoch p = peek e p := by
  unfold peek
  rw [and_epochMask, and_epochMask, h]

/-! ## Alerts -/

/-- An alert fires for the first caller of a window and not again in it. -/
theorem tryFire_once (epoch p : ℕ) :
    (tryFire epoch (Cell.next tryFire epoch p)).2 = false := by
  unfold Cell.next
  by_cases h : (unpack p).1 = (epoch &&& epochMask) ∧ (unpack p).2 ≠ 0
  · have hn : tryFire epoch p = (none, false) := by
      unfold tryFire
      simp only
      rw [if_pos h]
    rw [hn]
    show (tryFire epoch p).2 = false
    rw [hn]
  · have hs : tryFire epoch p = (some (pack (epoch &&& epochMask) 1), true) := by
      unfold tryFire
      simp only
      rw [if_neg h]
    rw [hs]
    show (tryFire epoch (pack (epoch &&& epochMask) 1)).2 = false
    unfold tryFire
    rw [unpack_pack (by decide), and_epochMask, Nat.mod_mod]
    simp

/-- The consumed share of a budget in permille, capped; a zero budget is fully consumed. -/
def consumedPermille (consumed budget : ℕ) : ℕ :=
  if budget = 0 then 1000 else min (satMul consumed 1000 / budget) 1000

/-! ## Windows of a moment -/

def minuteMs : ℕ := 60000
def dayMs : ℕ := 86400000

def minuteEpoch (nowMs : ℕ) : ℕ := nowMs / minuteMs

def minuteResetMs (nowMs : ℕ) : ℕ := (minuteEpoch nowMs + 1) * minuteMs

/-- A moment on the clock of a budget's anchor. -/
def shifted (nowMs : ℕ) (offsetMin : ℤ) : ℤ := nowMs + offsetMin * minuteMs

def dayEpoch (nowMs : ℕ) (offsetMin : ℤ) : ℕ := (shifted nowMs offsetMin / dayMs).toNat

def dayResetMs (nowMs : ℕ) (offsetMin : ℤ) : ℕ :=
  let off := offsetMin * minuteMs
  let nextLocalMidnight := (shifted nowMs offsetMin / dayMs + 1) * dayMs
  (nextLocalMidnight - off).toNat

/-- The proleptic Gregorian year and month of a day counted from 1970-01-01. -/
def civilMonth (days : ℤ) : ℤ × ℕ :=
  let z := days + 719468
  let era := z / 146097
  let doe := z - era * 146097
  let yoe := (doe - doe / 1460 + doe / 36524 - doe / 146096) / 365
  let doy := doe - (365 * yoe + yoe / 4 - yoe / 100)
  let mp := (5 * doy + 2) / 153
  let m := if mp < 10 then mp + 3 else mp - 9
  let y := yoe + era * 400
  (if m ≤ 2 then y + 1 else y, m.toNat)

/-- The day, counted from 1970-01-01, a month starts on. -/
def monthStart (year : ℤ) (month : ℕ) : ℤ :=
  let y := if month ≤ 2 then year - 1 else year
  let era := y / 400
  let yoe := y - era * 400
  let mp : ℤ := if month > 2 then month - 3 else month + 9
  let doy := (153 * mp + 2) / 5
  let doe := yoe * 365 + yoe / 4 - yoe / 100 + doy
  era * 146097 + doe - 719468

/-- The years the calendar represents. -/
def minYear : ℤ := -262143
def maxYear : ℤ := 262142

def monthParts (nowMs : ℕ) (offsetMin : ℤ) : ℤ × ℕ :=
  let parts := civilMonth (shifted nowMs offsetMin / dayMs)
  if minYear ≤ parts.1 ∧ parts.1 ≤ maxYear then parts else (1970, 1)

def monthEpoch (nowMs : ℕ) (offsetMin : ℤ) : ℕ :=
  let (y, m) := monthParts nowMs offsetMin
  (y * 12 + (m - 1)).toNat

def monthResetMs (nowMs : ℕ) (offsetMin : ℤ) : ℕ :=
  let (y, m) := monthParts nowMs offsetMin
  let (ny, nm) := if 12 ≤ m then (y + 1, 1) else (y, m + 1)
  if minYear ≤ ny ∧ ny ≤ maxYear then
    (monthStart ny nm * dayMs - offsetMin * minuteMs).toNat
  else satAdd nowMs (31 * dayMs)

def resetSecs (resetMs nowMs : ℕ) : ℕ := max ((resetMs - nowMs + 999) / 1000) 1

/-- The minute a request is stamped with ends after it. -/
theorem lt_minuteResetMs (nowMs : ℕ) : nowMs < minuteResetMs nowMs := by
  unfold minuteResetMs minuteEpoch
  have h := Nat.div_add_mod nowMs minuteMs
  have hm : nowMs % minuteMs < minuteMs := Nat.mod_lt _ (by decide)
  rw [Nat.add_mul, Nat.mul_comm (nowMs / minuteMs) minuteMs]
  omega

/-- 2024-02-29T23:59:59Z is in February in London and in March in Delhi. -/
example : monthParts 1709251199000 0 = (2024, 2) ∧ monthParts 1709251199000 330 = (2024, 3) ∧
    monthResetMs 1709251199000 0 = 1709251200000 := by decide

end Routeplane.Limits
