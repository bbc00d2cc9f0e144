import Routeplane.Limits.Window

/-!
# Limit policies

The limits an operator writes: per-minute rates, and budgets on calendar periods whose cost caps
are given in micro-USD or in a display currency with a pinned exchange rate.

* `BudgetLimits.resolvedCostCaps`: the caps of both periods in micro-USD.
* `LimitPolicy.isEmpty`: whether a policy limits nothing, as the compile step asks.
-/

namespace Routeplane.Limits

/-- `hard` rejects; `soft` counts and never blocks. -/
inductive LimitMode
  | hard
  | soft
  deriving DecidableEq, Repr, Inhabited

def LimitMode.isHard : LimitMode → Bool
  | .hard => true
  | .soft => false

structure RateLimits where
  requestsPerMin : Option ℕ := none
  tokensPerMin : Option ℕ := none
  mode : LimitMode := .hard
  deriving DecidableEq, Repr, Inhabited

def RateLimits.isEmpty (r : RateLimits) : Bool := r.requestsPerMin.isNone && r.tokensPerMin.isNone

structure BudgetLimits where
  costMicroUsdDaily : Option ℕ := none
  costMicroUsdMonthly : Option ℕ := none
  tokensDaily : Option ℕ := none
  tokensMonthly : Option ℕ := none
  anchorOffsetMinutes : ℤ := 0
  mode : LimitMode := .hard
  softThresholdPermille : Option ℕ := none
  /-- The caps in whole units of a display currency. -/
  authoredCostDaily : Option ℕ := none
  authoredCostMonthly : Option ℕ := none
  /-- Units of that currency per US dollar. -/
  fxUnitsPerUsd : Option ℕ := none
  deriving DecidableEq, Repr, Inhabited

inductive BudgetConfigError
  | costCapAuthoredTwice
  | authoredCostWithoutFxRate
  | zeroFxRate
  deriving DecidableEq, Repr

def BudgetConfigError.display : BudgetConfigError → String
  | .costCapAuthoredTwice => "a window declares both a micro-USD and an authored cost cap"
  | .authoredCostWithoutFxRate => "an authored cost cap requires a pinned fx_units_per_usd"
  | .zeroFxRate => "fx_units_per_usd must be non-zero"

namespace BudgetLimits

variable (b : BudgetLimits)

/-- An authored cap in micro-USD, floored. -/
def convert (authored : ℕ) : Except BudgetConfigError ℕ :=
  match b.fxUnitsPerUsd with
  | none => .error .authoredCostWithoutFxRate
  | some 0 => .error .zeroFxRate
  | some rate => .ok (satMul authored 1000000 / rate)

def resolveWindow (micro authored : Option ℕ) : Except BudgetConfigError (Option ℕ) :=
  match micro, authored with
  | some _, some _ => .error .costCapAuthoredTwice
  | some m, none => .ok (some m)
  | none, some a => do return some (← b.convert a)
  | none, none => .ok none

/-- The daily and the monthly cap in micro-USD. -/
def resolvedCostCaps : Except BudgetConfigError (Option ℕ × Option ℕ) := do
  let daily ← b.resolveWindow b.costMicroUsdDaily b.authoredCostDaily
  let monthly ← b.resolveWindow b.costMicroUsdMonthly b.authoredCostMonthly
  return (daily, monthly)

def isEmpty : Bool :=
  b.costMicroUsdDaily.isNone && b.costMicroUsdMonthly.isNone && b.tokensDaily.isNone &&
    b.tokensMonthly.isNone

end BudgetLimits

structure LimitPolicy where
  policyId : Option String := none
  rate : Option RateLimits := none
  budget : Option BudgetLimits := none
  deriving DecidableEq, Repr, Inhabited

def LimitPolicy.isEmpty (p : LimitPolicy) : Bool :=
  p.rate.all RateLimits.isEmpty && p.budget.all BudgetLimits.isEmpty

/-- The limits of a virtual key: its own, its tenant's, and one policy for each model pattern,
in the order the map lists them. -/
structure KeyLimits where
  key : Option LimitPolicy := none
  tenant : Option LimitPolicy := none
  modelLimits : List (String × LimitPolicy) := []
  deriving DecidableEq, Repr, Inhabited

namespace KeyLimits

variable (k : KeyLimits)

def modelLimitsIsEmpty : Bool := k.modelLimits.isEmpty || k.modelLimits.all (·.2.isEmpty)

def isEmpty : Bool :=
  k.key.all LimitPolicy.isEmpty && k.tenant.all LimitPolicy.isEmpty && k.modelLimitsIsEmpty

end KeyLimits

/-! ## Resolved caps -/

namespace BudgetLimits

variable {b : BudgetLimits} {micro authored : Option ℕ}

/-- A window resolves to a cap iff one is written for it. -/
theorem resolveWindow_isSome {cap : Option ℕ} (h : b.resolveWindow micro authored = .ok cap) :
    cap.isSome = (micro.isSome || authored.isSome) := by
  unfold resolveWindow at h
  cases micro with
  | some m =>
    cases authored with
    | some a => simp at h
    | none =>
      simp only [Except.ok.injEq] at h
      rw [← h]
      rfl
  | none =>
    cases authored with
    | none =>
      simp only [Except.ok.injEq] at h
      rw [← h]
      rfl
    | some a =>
      simp only at h
      cases hc : b.convert a with
      | error e => rw [hc] at h; cases h
      | ok v =>
        rw [hc] at h
        cases h
        rfl

theorem resolvedCostCaps_ok {daily monthly : Option ℕ}
    (h : b.resolvedCostCaps = .ok (daily, monthly)) :
    b.resolveWindow b.costMicroUsdDaily b.authoredCostDaily = .ok daily ∧
      b.resolveWindow b.costMicroUsdMonthly b.authoredCostMonthly = .ok monthly := by
  unfold resolvedCostCaps at h
  cases hd : b.resolveWindow b.costMicroUsdDaily b.authoredCostDaily with
  | error e => rw [hd] at h; cases h
  | ok d =>
    cases hm : b.resolveWindow b.costMicroUsdMonthly b.authoredCostMonthly with
    | error e => rw [hd, hm] at h; cases h
    | ok m =>
      rw [hd, hm] at h
      cases h
      exact ⟨rfl, rfl⟩

/-- The same budget with its cost caps written in micro-USD. -/
def inMicroUsd (b : BudgetLimits) (caps : Option ℕ × Option ℕ) : BudgetLimits :=
  { b with
    costMicroUsdDaily := caps.1, costMicroUsdMonthly := caps.2
    authoredCostDaily := none, authoredCostMonthly := none, fxUnitsPerUsd := none }

theorem resolvedCostCaps_inMicroUsd (b : BudgetLimits) (caps : Option ℕ × Option ℕ) :
    (b.inMicroUsd caps).resolvedCostCaps = .ok caps := by
  obtain ⟨d, m⟩ := caps
  cases d <;> cases m <;> rfl

end BudgetLimits

end Routeplane.Limits
