import Routeplane.Limits.Policy

/-!
# Compiled scopes

A policy compiled for one scope: the limits, clamped to a replica's share and to what a counter
can hold, over the window counters that enforce them.

* `ScopePolicy.fromPolicy`: the compile step; nothing for an empty policy.
* `ScopePolicy.check`, `consumeRequest`, `settle`: the three things a request does to a scope.
* `samePolicy_iff`: two scopes have the same policy iff they differ in identity at most.
-/

namespace Routeplane.Limits

inductive LimitKind
  | rateRequests
  | rateTokens
  | budgetCost
  | budgetTokens
  deriving DecidableEq, Repr

def LimitKind.header : LimitKind → String
  | .rateRequests => "rate_limit_requests"
  | .rateTokens => "rate_limit_tokens"
  | .budgetCost => "budget_cost"
  | .budgetTokens => "budget_tokens"

def LimitKind.isBudget : LimitKind → Bool
  | .budgetCost | .budgetTokens => true
  | .rateRequests | .rateTokens => false

inductive LimitScope
  | key
  | tenant
  | model
  deriving DecidableEq, Repr

def LimitScope.header : LimitScope → String
  | .key => "key"
  | .tenant => "tenant"
  | .model => "model"

structure Breach where
  kind : LimitKind
  scope : LimitScope
  policyId : String
  limit : ℕ
  resetMs : Option ℕ
  nowMs : ℕ
  deriving DecidableEq, Repr

namespace Breach

def retryAfterSecs (b : Breach) : Option ℕ := b.resetMs.map fun r => resetSecs r b.nowMs

def message (b : Breach) : String :=
  match b.kind with
  | .rateRequests => "Rate limit exceeded: request limit of " ++ toString b.limit ++
      " per minute reached for the " ++ b.scope.header ++ " scope (policy '" ++ b.policyId ++ "')"
  | .rateTokens => "Rate limit exceeded: token limit of " ++ toString b.limit ++
      " per minute reached for the " ++ b.scope.header ++ " scope (policy '" ++ b.policyId ++ "')"
  | .budgetCost => "Budget exceeded: spend cap reached for the " ++ b.scope.header ++
      " scope (policy '" ++ b.policyId ++ "')"
  | .budgetTokens => "Budget exceeded: token cap of " ++ toString b.limit ++
      " reached for the " ++ b.scope.header ++ " scope (policy '" ++ b.policyId ++ "')"

def distributedRate (scope : LimitScope) (policyId : String) (limit nowMs : ℕ) : Breach :=
  ⟨.rateRequests, scope, policyId, limit, some (minuteResetMs nowMs), nowMs⟩

def distributedUnavailable (nowMs : ℕ) : Breach :=
  ⟨.rateRequests, .key, "distributed_unavailable", 0, some (minuteResetMs nowMs), nowMs⟩

end Breach

structure Advisory where
  limitRequests : Option ℕ := none
  remainingRequests : Option ℕ := none
  resetRequestsSecs : Option ℕ := none
  limitTokens : Option ℕ := none
  remainingTokens : Option ℕ := none
  budgetRemainingMicroUsd : Option ℕ := none
  deriving DecidableEq, Repr, Inhabited

inductive Admission
  | allowed (a : Advisory)
  | denied (b : Breach)
  deriving DecidableEq, Repr

def Admission.isAllowed : Admission → Bool
  | .allowed _ => true
  | .denied _ => false

inductive BudgetPeriod
  | daily
  | monthly
  deriving DecidableEq, Repr

structure SpendAlert where
  scope : LimitScope
  period : BudgetPeriod
  thresholdPermille : ℕ
  consumedPermille : ℕ
  deriving DecidableEq, Repr

structure BudgetWarning where
  scope : LimitScope
  period : BudgetPeriod
  thresholdPermille : ℕ
  consumedPermille : ℕ
  deriving DecidableEq, Repr

/-- The fixed part of a scope's slot. -/
structure ScopePolicy where
  scope : LimitScope
  policyId : String
  /-- The owner of the counters, whatever the policy is called. -/
  identity : String
  requestsPerMin : Option ℕ
  /-- The limit of the whole fleet, without the replica's share. -/
  reqPerMinGlobal : Option ℕ
  tokensPerMin : Option ℕ
  rateMode : LimitMode
  costDaily : Option ℕ
  costMonthly : Option ℕ
  tokensDaily : Option ℕ
  tokensMonthly : Option ℕ
  anchorOffsetMinutes : ℤ
  budgetMode : LimitMode
  softThresholdPermille : Option ℕ
  deriving DecidableEq, Repr

/-- The words of a scope's slot, all of no window at first. -/
structure Counters where
  req : ℕ := 0
  tokRate : ℕ := 0
  costDaily : ℕ := 0
  costMonthly : ℕ := 0
  tokDaily : ℕ := 0
  tokMonthly : ℕ := 0
  softAlertedCostDaily : ℕ := 0
  softAlertedCostMonthly : ℕ := 0
  deriving DecidableEq, Repr, Inhabited

/-- A replica's share of a limit, rounded up. -/
def sharePerReplica (v : Option ℕ) (maxReplicas : ℕ) : Option ℕ :=
  v.map fun x => if maxReplicas ≤ 1 then x else (x + maxReplicas - 1) / maxReplicas

/-- A share as a counter can hold it: a limit above the mask could never be reached. -/
def clampLimit (maxReplicas : ℕ) (v : Option ℕ) : Option ℕ :=
  (sharePerReplica v maxReplicas).map (min · countMask)

namespace ScopePolicy

def fromPolicy (scope : LimitScope) (policy : LimitPolicy) (fallbackId : String)
    (maxReplicas : ℕ) : Option ScopePolicy :=
  if policy.isEmpty then none
  else
    let rate := policy.rate.getD {}
    let budget := policy.budget.getD {}
    let clamp := clampLimit maxReplicas
    -- an invalid budget denies everything rather than nothing
    let (costDaily, costMonthly) := budget.resolvedCostCaps.toOption.getD (some 0, some 0)
    some
      { scope := scope
        policyId := policy.policyId.getD fallbackId
        identity := fallbackId
        requestsPerMin := clamp rate.requestsPerMin
        reqPerMinGlobal := rate.requestsPerMin.map (min · countMask)
        tokensPerMin := clamp rate.tokensPerMin
        rateMode := rate.mode
        costDaily := clamp costDaily
        costMonthly := clamp costMonthly
        tokensDaily := clamp budget.tokensDaily
        tokensMonthly := clamp budget.tokensMonthly
        anchorOffsetMinutes := budget.anchorOffsetMinutes
        budgetMode := budget.mode
        softThresholdPermille := budget.softThresholdPermille.map (min · 1000) }

/-- Every limit of the two slots is the same; who owns them is not compared. -/
def samePolicy (s t : ScopePolicy) : Bool :=
  s.scope == t.scope && s.policyId == t.policyId && s.requestsPerMin == t.requestsPerMin &&
    s.reqPerMinGlobal == t.reqPerMinGlobal && s.tokensPerMin == t.tokensPerMin &&
    s.rateMode == t.rateMode && s.costDaily == t.costDaily && s.costMonthly == t.costMonthly &&
    s.tokensDaily == t.tokensDaily && s.tokensMonthly == t.tokensMonthly &&
    s.anchorOffsetMinutes == t.anchorOffsetMinutes && s.budgetMode == t.budgetMode &&
    s.softThresholdPermille == t.softThresholdPermille

variable (s : ScopePolicy) (c : Counters) (nowMs : ℕ)

def rateBreach (kind : LimitKind) (limit : ℕ) : Breach :=
  ⟨kind, s.scope, s.policyId, limit, some (minuteResetMs nowMs), nowMs⟩

def budgetBreach (kind : LimitKind) (monthly : Bool) (limit : ℕ) : Breach :=
  let reset :=
    if monthly then monthResetMs nowMs s.anchorOffsetMinutes
    else dayResetMs nowMs s.anchorOffsetMinutes
  ⟨kind, s.scope, s.policyId, limit, some reset, nowMs⟩

/-- A breach if the limit is set and the count has reached it. -/
def reached (limit : Option ℕ) (count : ℕ) (breach : ℕ → Breach) : Option Breach :=
  match limit with
  | some l => if l ≤ count then some (breach l) else none
  | none => none

/-- The read-only check: token rate, then every budget; the first hard breach. -/
def check : Option Breach :=
  let day := dayEpoch nowMs s.anchorOffsetMinutes
  let month := monthEpoch nowMs s.anchorOffsetMinutes
  let rate :=
    if s.rateMode.isHard then
      reached s.tokensPerMin (peek (minuteEpoch nowMs) c.tokRate) (s.rateBreach nowMs .rateTokens)
    else none
  let budget :=
    if s.budgetMode.isHard then
      (reached s.costDaily (peek day c.costDaily) (s.budgetBreach nowMs .budgetCost false)).orElse
        fun _ => (reached s.costMonthly (peek month c.costMonthly)
          (s.budgetBreach nowMs .budgetCost true)).orElse
        fun _ => (reached s.tokensDaily (peek day c.tokDaily)
          (s.budgetBreach nowMs .budgetTokens false)).orElse
        fun _ => reached s.tokensMonthly (peek month c.tokMonthly)
          (s.budgetBreach nowMs .budgetTokens true)
    else none
  rate.orElse fun _ => budget

/-- One request slot on the word of the request window; soft limits count past the limit. -/
def consumeWord (word : ℕ) : Option ℕ × Option Breach :=
  match s.requestsPerMin with
  | none => (none, none)
  | some limit =>
    let ep := minuteEpoch nowMs
    if s.rateMode.isHard then
      match tryConsume 1 limit ep word with
      | (w, .ok _) => (w, none)
      | (w, .error _) => (w, some (s.rateBreach nowMs .rateRequests limit))
    else ((debit 1 ep word).1, none)

def consumeRequest : Option Breach × Counters :=
  let (w, b) := s.consumeWord nowMs c.req
  (b, { c with req := w.getD c.req })

/-- The one-shot alert of a cost budget, and its flag. -/
def maybeSpendAlert (limit consumed : ℕ) (period : BudgetPeriod) (flag epoch : ℕ) :
    Option SpendAlert × ℕ :=
  match s.softThresholdPermille with
  | none => (none, flag)
  | some threshold =>
    let permille := consumedPermille consumed limit
    if permille < threshold then (none, flag)
    else
      match tryFire epoch flag with
      | (_, false) => (none, flag)
      | (w, true) => (some ⟨s.scope, period, threshold, permille⟩, w.getD flag)

/-- Add to a window that is configured. -/
def debitIf (limit : Option ℕ) (amount epoch word : ℕ) : ℕ :=
  match limit with
  | some _ => Cell.next (debit amount) epoch word
  | none => word

/-- Record the usage of a request; an alert if this is what carries the spend over the soft
threshold, the daily one first. -/
def settle (totalTokens costMicroUsd : ℕ) : Option SpendAlert × Counters :=
  let off := s.anchorOffsetMinutes
  let day := dayEpoch nowMs off
  let month := monthEpoch nowMs off
  let tokRate := debitIf s.tokensPerMin totalTokens (minuteEpoch nowMs) c.tokRate
  let costDaily := debitIf s.costDaily costMicroUsd day c.costDaily
  let (alert, flagDaily) :=
    match s.costDaily with
    | some limit => s.maybeSpendAlert limit (peek day costDaily) .daily c.softAlertedCostDaily day
    | none => (none, c.softAlertedCostDaily)
  let costMonthly := debitIf s.costMonthly costMicroUsd month c.costMonthly
  let (alert, flagMonthly) :=
    match alert, s.costMonthly with
    | none, some limit =>
      s.maybeSpendAlert limit (peek month costMonthly) .monthly c.softAlertedCostMonthly month
    | _, _ => (alert, c.softAlertedCostMonthly)
  (alert,
    { c with
      tokRate := tokRate
      costDaily := costDaily
      costMonthly := costMonthly
      tokDaily := debitIf s.tokensDaily totalTokens day c.tokDaily
      tokMonthly := debitIf s.tokensMonthly totalTokens month c.tokMonthly
      softAlertedCostDaily := flagDaily
      softAlertedCostMonthly := flagMonthly })

/-- A budget in its warning zone, if it is deeper in it than the best so far. -/
def considerWarning (threshold : ℕ) (limit : Option ℕ) (consumed : ℕ) (period : BudgetPeriod)
    (best : Option BudgetWarning) : Option BudgetWarning :=
  match limit with
  | none => best
  | some l =>
    let permille := consumedPermille consumed l
    if permille < threshold then best
    else if best.all (·.consumedPermille < permille) then
      some ⟨s.scope, period, threshold, permille⟩
    else best

def warning : Option BudgetWarning :=
  match s.softThresholdPermille with
  | none => none
  | some threshold =>
    let off := s.anchorOffsetMinutes
    let daily := s.considerWarning threshold s.costDaily
      (peek (dayEpoch nowMs off) c.costDaily) .daily none
    s.considerWarning threshold s.costMonthly (peek (monthEpoch nowMs off) c.costMonthly)
      .monthly daily

/-- Whether a headroom is tighter than the one on record. -/
def tighter (rem : ℕ) (best : Option ℕ) : Bool := best.all (rem < ·)

def contributeAdvisory (a : Advisory) : Advisory :=
  let a := match s.requestsPerMin with
    | some limit =>
      let rem := limit - peek (minuteEpoch nowMs) c.req
      if tighter rem a.remainingRequests then
        { a with
          remainingRequests := some rem, limitRequests := some limit
          resetRequestsSecs := some (resetSecs (minuteResetMs nowMs) nowMs) }
      else a
    | none => a
  let a := match s.tokensPerMin with
    | some limit =>
      let rem := limit - peek (minuteEpoch nowMs) c.tokRate
      if tighter rem a.remainingTokens then
        { a with remainingTokens := some rem, limitTokens := some limit }
      else a
    | none => a
  let budget (limit : Option ℕ) (consumed : ℕ) (a : Advisory) : Advisory :=
    match limit with
    | some l =>
      if tighter (l - consumed) a.budgetRemainingMicroUsd then
        { a with budgetRemainingMicroUsd := some (l - consumed) }
      else a
    | none => a
  let off := s.anchorOffsetMinutes
  let a := budget s.costDaily (peek (dayEpoch nowMs off) c.costDaily) a
  budget s.costMonthly (peek (monthEpoch nowMs off) c.costMonthly) a

variable {s t : ScopePolicy} {c} {nowMs}

/-- **Two slots have the same policy iff they differ in their owner at most.** -/
theorem samePolicy_iff : s.samePolicy t = true ↔ { s with identity := t.identity } = t := by
  obtain ⟨⟩ := s
  obtain ⟨⟩ := t
  simp only [samePolicy, Bool.and_eq_true, beq_iff_eq, ScopePolicy.mk.injEq, true_and]
  tauto

theorem samePolicy_refl (s : ScopePolicy) : s.samePolicy s = true := samePolicy_iff.2 rfl

theorem samePolicy_symm (h : s.samePolicy t = true) : t.samePolicy s = true := by
  rw [samePolicy_iff] at h ⊢
  rw [← h]

theorem samePolicy_trans {u : ScopePolicy} (h : s.samePolicy t = true)
    (h' : t.samePolicy u = true) : s.samePolicy u = true := by
  rw [samePolicy_iff] at h h' ⊢
  rw [← h', ← h]

theorem fromPolicy_eq_none {scope : LimitScope} {policy : LimitPolicy} {fallbackId : String}
    {maxReplicas : ℕ} :
    fromPolicy scope policy fallbackId maxReplicas = none ↔ policy.isEmpty = true := by
  unfold fromPolicy
  split <;> simp [*]

/-- A compiled slot belongs to the owner it was compiled for. -/
theorem fromPolicy_identity {scope : LimitScope} {policy : LimitPolicy} {fallbackId : String}
    {maxReplicas : ℕ} (h : fromPolicy scope policy fallbackId maxReplicas = some s) :
    s.scope = scope ∧ s.policyId = policy.policyId.getD fallbackId ∧ s.identity = fallbackId := by
  unfold fromPolicy at h
  split at h
  · simp at h
  · simp only [Option.some.injEq] at h
    rw [← h]
    exact ⟨rfl, rfl, rfl⟩

/-- What a rate block compiles to. -/
theorem fromPolicy_rate {scope : LimitScope} {policy : LimitPolicy} {fallbackId : String}
    {maxReplicas : ℕ} {rate : RateLimits} (hr : policy.rate = some rate)
    (h : fromPolicy scope policy fallbackId maxReplicas = some s) :
    s.requestsPerMin = clampLimit maxReplicas rate.requestsPerMin ∧
      s.reqPerMinGlobal = rate.requestsPerMin.map (min · countMask) ∧ s.rateMode = rate.mode := by
  unfold fromPolicy at h
  split at h
  · simp at h
  · simp only [Option.some.injEq] at h
    rw [← h, hr]
    exact ⟨rfl, rfl, rfl⟩

/-- A policy with a request limit compiles to a slot. -/
theorem fromPolicy_exists (scope : LimitScope) (fallbackId : String) (maxReplicas : ℕ)
    {policy : LimitPolicy} {rate : RateLimits} {limit : ℕ} (hr : policy.rate = some rate)
    (hl : rate.requestsPerMin = some limit) :
    ∃ s, fromPolicy scope policy fallbackId maxReplicas = some s := by
  refine Option.ne_none_iff_exists'.1 fun hnone => ?_
  have hempty := fromPolicy_eq_none.1 hnone
  simp [LimitPolicy.isEmpty, RateLimits.isEmpty, hr, hl] at hempty

/-- Every limit a scope is compiled to can be reached by its counter. -/
theorem clampLimit_le {maxReplicas l : ℕ} {v : Option ℕ} (h : clampLimit maxReplicas v = some l) :
    l ≤ countMask := by
  unfold clampLimit at h
  obtain ⟨x, -, rfl⟩ := Option.map_eq_some_iff.1 h
  exact min_le_right _ _

theorem fromPolicy_compiled {scope : LimitScope} {policy : LimitPolicy} {fallbackId : String}
    {maxReplicas : ℕ} (h : fromPolicy scope policy fallbackId maxReplicas = some s) :
    ∀ l ∈ s.requestsPerMin, l ≤ countMask := by
  intro l hl
  unfold fromPolicy at h
  split at h
  · simp at h
  · simp only [Option.some.injEq] at h
    rw [← h] at hl
    exact clampLimit_le hl

/-! ## What the operations touch -/

/-- Whether the request window is full: a hard limit the count has reached. -/
def Full (s : ScopePolicy) (c : Counters) (nowMs : ℕ) : Prop :=
  s.rateMode = .hard ∧ ∃ limit ∈ s.requestsPerMin, limit ≤ peek (minuteEpoch nowMs) c.req

instance (s : ScopePolicy) (c : Counters) (nowMs : ℕ) : Decidable (s.Full c nowMs) :=
  inferInstanceAs (Decidable (_ ∧ _))

/-- A full window refuses and stays as it is. -/
theorem consumeRequest_full (h : s.Full c nowMs) :
    ∃ limit ∈ s.requestsPerMin,
      s.consumeRequest c nowMs = (some (s.rateBreach nowMs .rateRequests limit), c) := by
  obtain ⟨hmode, limit, hlimit, hle⟩ := h
  refine ⟨limit, hlimit, ?_⟩
  have hl : s.requestsPerMin = some limit := hlimit
  unfold consumeRequest consumeWord
  rw [hl, hmode]
  simp only [LimitMode.isHard, if_true, tryConsume_refused 1 hle, Option.getD_none]

/-- A scope with no request limit lets every request pass and counts none. -/
theorem consumeRequest_none (h : s.requestsPerMin = none) :
    s.consumeRequest c nowMs = (none, c) := by
  unfold consumeRequest consumeWord
  rw [h]
  rfl

/-- A window that is not full takes the request. -/
theorem consumeRequest_some {limit : ℕ} (hl : s.requestsPerMin = some limit)
    (h : ¬s.Full c nowMs) :
    s.consumeRequest c nowMs =
      (none,
        { c with
          req := pack (minuteEpoch nowMs &&& epochMask)
            (min (peek (minuteEpoch nowMs) c.req + 1) countMask) }) := by
  unfold consumeRequest consumeWord
  rw [hl]
  simp only
  cases hmode : s.rateMode with
  | hard =>
    have hlt : peek (minuteEpoch nowMs) c.req < limit := by
      by_contra hge
      exact h ⟨hmode, limit, hl, by omega⟩
    simp only [LimitMode.isHard, if_true, tryConsume_granted 1 hlt, Option.getD_some]
  | soft => simp only [LimitMode.isHard, Bool.false_eq_true, if_false, debit_eq, Option.getD_some]

/-- Settling leaves the request window alone. -/
@[simp] theorem settle_req (s : ScopePolicy) (c : Counters) (nowMs totalTokens cost : ℕ) :
    (s.settle c nowMs totalTokens cost).2.req = c.req := by
  unfold settle
  simp only

end ScopePolicy

end Routeplane.Limits
