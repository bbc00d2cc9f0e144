import Routeplane.Limits.Scope
import Mathlib.Logic.Relation

/-!
# Settlements side by side

Requests settle their usage on one scope at the same time: each takes one atomic step after the
other on the words they share, and any other may take steps in between.

* `SettlePhase.next`: the next step of a settlement.
* `SettlePhase.alone_settle`: undisturbed, its steps are those of `ScopePolicy.settle`.
* `Settling.apply`: a settlement starts, at a moment no earlier than those before it, or takes a
  step.
-/

namespace Routeplane.Limits

/-! ## One period of a budget -/

def BudgetPeriod.epoch (nowMs : ℕ) (offsetMin : ℤ) : BudgetPeriod → ℕ
  | .daily => dayEpoch nowMs offsetMin
  | .monthly => monthEpoch nowMs offsetMin

def ScopePolicy.costLimit (s : ScopePolicy) : BudgetPeriod → Option ℕ
  | .daily => s.costDaily
  | .monthly => s.costMonthly

namespace Counters

def spend (c : Counters) : BudgetPeriod → ℕ
  | .daily => c.costDaily
  | .monthly => c.costMonthly

def setSpend (c : Counters) (w : ℕ) : BudgetPeriod → Counters
  | .daily => { c with costDaily := w }
  | .monthly => { c with costMonthly := w }

def flag (c : Counters) : BudgetPeriod → ℕ
  | .daily => c.softAlertedCostDaily
  | .monthly => c.softAlertedCostMonthly

def setFlag (c : Counters) (w : ℕ) : BudgetPeriod → Counters
  | .daily => { c with softAlertedCostDaily := w }
  | .monthly => { c with softAlertedCostMonthly := w }

variable (c : Counters) (w : ℕ) (p q : BudgetPeriod)

@[simp] theorem spend_setSpend : (c.setSpend w p).spend q = if p = q then w else c.spend q := by
  cases p <;> cases q <;> rfl

@[simp] theorem flag_setSpend : (c.setSpend w p).flag q = c.flag q := by
  cases p <;> cases q <;> rfl

@[simp] theorem spend_setFlag : (c.setFlag w p).spend q = c.spend q := by
  cases p <;> cases q <;> rfl

@[simp] theorem setFlag_flag : c.setFlag (c.flag p) p = c := by
  cases p with
  | daily => exact rfl
  | monthly => exact rfl

@[simp] theorem flag_setFlag : (c.setFlag w p).flag q = if p = q then w else c.flag q := by
  cases p <;> cases q <;> rfl

end Counters

/-- The flag says that the window has had its alert. -/
def Fired (epoch w : ℕ) : Prop := (unpack w).1 = (epoch &&& epochMask) ∧ (unpack w).2 ≠ 0

theorem tryFire_cases (epoch w : ℕ) :
    (tryFire epoch w = (none, false) ∧ Fired epoch w) ∨
      (tryFire epoch w = (some (pack (epoch &&& epochMask) 1), true) ∧ ¬Fired epoch w) := by
  unfold tryFire
  dsimp only
  by_cases h : Fired epoch w
  · exact Or.inl ⟨if_pos h, h⟩
  · exact Or.inr ⟨if_neg h, h⟩

/-! ## The steps of a settlement -/

/-- How far a settlement is: the step it takes next, with the alert it will return. -/
inductive SettlePhase
  | debitRate
  | debitCost (p : BudgetPeriod) (alert : Option SpendAlert)
  | readCost (p : BudgetPeriod)
  | fireAlert (p : BudgetPeriod) (threshold permille : ℕ)
  | debitTokens (p : BudgetPeriod) (alert : Option SpendAlert)
  | done (alert : Option SpendAlert)
  deriving DecidableEq, Repr

namespace SettlePhase

/-- What follows the cost budget of a period. -/
def past (alert : Option SpendAlert) : BudgetPeriod → SettlePhase
  | .daily => .debitCost .monthly alert
  | .monthly => .debitTokens .daily alert

variable (s : ScopePolicy) (nowMs totalTokens costMicroUsd : ℕ)

def next : SettlePhase → Counters → SettlePhase × Counters
  | .debitRate, c =>
    let ep := minuteEpoch nowMs
    (.debitCost .daily none,
      { c with tokRate := ScopePolicy.debitIf s.tokensPerMin totalTokens ep c.tokRate })
  | .debitCost p alert, c =>
    let ep := p.epoch nowMs s.anchorOffsetMinutes
    -- a settlement that has an alert to return does not look for another
    let after := if (s.costLimit p).isSome ∧ alert = none then .readCost p else past alert p
    (after, c.setSpend (ScopePolicy.debitIf (s.costLimit p) costMicroUsd ep (c.spend p)) p)
  | .readCost p, c =>
    match s.costLimit p, s.softThresholdPermille with
    | some limit, some threshold =>
      let consumed := peek (p.epoch nowMs s.anchorOffsetMinutes) (c.spend p)
      let permille := consumedPermille consumed limit
      (if permille < threshold then past none p else .fireAlert p threshold permille, c)
    | _, _ => (past none p, c)
  | .fireAlert p threshold permille, c =>
    match tryFire (p.epoch nowMs s.anchorOffsetMinutes) (c.flag p) with
    | (_, false) => (past none p, c)
    | (w, true) =>
      (past (some ⟨s.scope, p, threshold, permille⟩) p, c.setFlag (w.getD (c.flag p)) p)
  | .debitTokens .daily alert, c =>
    let day := dayEpoch nowMs s.anchorOffsetMinutes
    (.debitTokens .monthly alert,
      { c with tokDaily := ScopePolicy.debitIf s.tokensDaily totalTokens day c.tokDaily })
  | .debitTokens .monthly alert, c =>
    let month := monthEpoch nowMs s.anchorOffsetMinutes
    (.done alert,
      { c with tokMonthly := ScopePolicy.debitIf s.tokensMonthly totalTokens month c.tokMonthly })
  | .done alert, c => (.done alert, c)

/-- The alert a settlement has claimed. -/
def alert : SettlePhase → Option SpendAlert
  | .debitCost _ a | .debitTokens _ a | .done a => a
  | .debitRate | .readCost _ | .fireAlert _ _ _ => none

def rank : SettlePhase → ℕ
  | .debitRate => 0
  | .debitCost .daily _ => 1
  | .readCost .daily => 2
  | .fireAlert .daily _ _ => 3
  | .debitCost .monthly _ => 4
  | .readCost .monthly => 5
  | .fireAlert .monthly _ _ => 6
  | .debitTokens .daily _ => 7
  | .debitTokens .monthly _ => 8
  | .done _ => 9

/-- The settlement has added its cost to the spend of the period. -/
def Debited (p : BudgetPeriod) (ph : SettlePhase) : Prop := (debitCost p none).rank < ph.rank

instance (p : BudgetPeriod) (ph : SettlePhase) : Decidable (ph.Debited p) :=
  inferInstanceAs (Decidable (_ < _))

/-- The next step is on the cost words of the period. -/
def ActsOn (p : BudgetPeriod) : SettlePhase → Prop
  | .debitCost q _ | .readCost q | .fireAlert q _ _ => q = p
  | .debitRate | .debitTokens _ _ | .done _ => False

instance (p : BudgetPeriod) : DecidablePred (ActsOn p) := by
  intro ph
  cases ph <;> unfold ActsOn <;> infer_instance

section Next

variable {s nowMs totalTokens costMicroUsd} {c : Counters} {p : BudgetPeriod}
  {limit threshold permille : ℕ}

theorem next_readCost_none (hth : s.softThresholdPermille = none) :
    next s nowMs totalTokens costMicroUsd (.readCost p) c = (past none p, c) := by
  unfold next
  dsimp only
  rw [hth]
  cases s.costLimit p with
  | none => exact rfl
  | some limit => exact rfl

theorem next_readCost (hl : s.costLimit p = some limit)
    (hth : s.softThresholdPermille = some threshold) :
    next s nowMs totalTokens costMicroUsd (.readCost p) c =
      (if consumedPermille (peek (p.epoch nowMs s.anchorOffsetMinutes) (c.spend p)) limit < threshold
        then past none p
        else .fireAlert p threshold
          (consumedPermille (peek (p.epoch nowMs s.anchorOffsetMinutes) (c.spend p)) limit), c) := by
  unfold next
  dsimp only
  rw [hl, hth]

theorem next_fireAlert_again (h : Fired (p.epoch nowMs s.anchorOffsetMinutes) (c.flag p)) :
    next s nowMs totalTokens costMicroUsd (.fireAlert p threshold permille) c = (past none p, c) := by
  rcases tryFire_cases (p.epoch nowMs s.anchorOffsetMinutes) (c.flag p) with ⟨heq, -⟩ | ⟨-, hno⟩
  · unfold next
    dsimp only
    rw [heq]
  · exact absurd h hno

theorem next_fireAlert_first (h : ¬Fired (p.epoch nowMs s.anchorOffsetMinutes) (c.flag p)) :
    next s nowMs totalTokens costMicroUsd (.fireAlert p threshold permille) c =
      (past (some ⟨s.scope, p, threshold, permille⟩) p,
        c.setFlag (pack (p.epoch nowMs s.anchorOffsetMinutes &&& epochMask) 1) p) := by
  rcases tryFire_cases (p.epoch nowMs s.anchorOffsetMinutes) (c.flag p) with ⟨-, hyes⟩ | ⟨heq, -⟩
  · exact absurd hyes h
  · unfold next
    dsimp only
    rw [heq]
    exact rfl

end Next

/-! ### Undisturbed -/

/-- One state is reached from another in steps with no other settlement in between. -/
def Alone (s : ScopePolicy) (nowMs totalTokens costMicroUsd : ℕ) :
    SettlePhase × Counters → SettlePhase × Counters → Prop :=
  Relation.ReflTransGen fun x y => y = next s nowMs totalTokens costMicroUsd x.1 x.2

/-- The cost budget of one period in one go. -/
def settleCost (p : BudgetPeriod) (alert : Option SpendAlert) (c : Counters) :
    Option SpendAlert × Counters :=
  let ep := p.epoch nowMs s.anchorOffsetMinutes
  let c' := c.setSpend (ScopePolicy.debitIf (s.costLimit p) costMicroUsd ep (c.spend p)) p
  match s.costLimit p, alert with
  | some limit, none =>
    let (alert, flag) := s.maybeSpendAlert limit (peek ep (c'.spend p)) p (c.flag p) ep
    (alert, c'.setFlag flag p)
  | _, _ => (alert, c')

variable {s nowMs totalTokens costMicroUsd} {c : Counters}

theorem Alone.one (x : SettlePhase × Counters) : Alone s nowMs totalTokens costMicroUsd x
    (next s nowMs totalTokens costMicroUsd x.1 x.2) := .single rfl

/-- The look at a soft threshold in one go. -/
theorem alone_readCost (nowMs totalTokens costMicroUsd : ℕ) {p : BudgetPeriod} {limit : ℕ}
    (hl : s.costLimit p = some limit) (c : Counters) :
    Alone s nowMs totalTokens costMicroUsd (.readCost p, c)
      (past (s.maybeSpendAlert limit (peek (p.epoch nowMs s.anchorOffsetMinutes) (c.spend p)) p
          (c.flag p) (p.epoch nowMs s.anchorOffsetMinutes)).1 p,
        c.setFlag (s.maybeSpendAlert limit (peek (p.epoch nowMs s.anchorOffsetMinutes) (c.spend p)) p
          (c.flag p) (p.epoch nowMs s.anchorOffsetMinutes)).2 p) := by
  have hread : Alone s nowMs totalTokens costMicroUsd (.readCost p, c)
      (next s nowMs totalTokens costMicroUsd (.readCost p) c) := Alone.one (.readCost p, c)
  unfold ScopePolicy.maybeSpendAlert
  cases hth : s.softThresholdPermille with
  | none =>
    rw [next_readCost_none hth] at hread
    dsimp only
    rw [c.setFlag_flag]
    exact hread
  | some threshold =>
    rw [next_readCost hl hth] at hread
    dsimp only
    generalize consumedPermille (peek (p.epoch nowMs s.anchorOffsetMinutes) (c.spend p)) limit =
      permille at hread ⊢
    by_cases hlow : permille < threshold
    · rw [if_pos hlow] at hread ⊢
      rw [c.setFlag_flag]
      exact hread
    · rw [if_neg hlow] at hread ⊢
      refine hread.trans ?_
      have hfire : Alone s nowMs totalTokens costMicroUsd (.fireAlert p threshold permille, c)
          (next s nowMs totalTokens costMicroUsd (.fireAlert p threshold permille) c) :=
        Alone.one (.fireAlert p threshold permille, c)
      rcases tryFire_cases (p.epoch nowMs s.anchorOffsetMinutes) (c.flag p) with
        ⟨heq, hset⟩ | ⟨heq, hset⟩
      · rw [next_fireAlert_again hset] at hfire
        rw [heq]
        dsimp only
        rw [c.setFlag_flag]
        exact hfire
      · rw [next_fireAlert_first hset] at hfire
        rw [heq]
        exact hfire

theorem alone_settleCost (p : BudgetPeriod) (alert : Option SpendAlert) (c : Counters) :
    Alone s nowMs totalTokens costMicroUsd (.debitCost p alert, c)
      (past (settleCost s nowMs costMicroUsd p alert c).1 p,
        (settleCost s nowMs costMicroUsd p alert c).2) := by
  have hdebit : Alone s nowMs totalTokens costMicroUsd (.debitCost p alert, c)
      (next s nowMs totalTokens costMicroUsd (.debitCost p alert) c) :=
    Alone.one (.debitCost p alert, c)
  unfold next at hdebit
  dsimp only at hdebit
  refine hdebit.trans ?_
  unfold settleCost
  cases hl : s.costLimit p with
  | none => exact .refl
  | some limit =>
    cases alert with
    | some a => exact .refl
    | none =>
      have hread := alone_readCost nowMs totalTokens costMicroUsd hl
        (c.setSpend (ScopePolicy.debitIf (some limit) costMicroUsd
          (p.epoch nowMs s.anchorOffsetMinutes) (c.spend p)) p)
      rw [Counters.flag_setSpend] at hread
      exact hread

/-- A settlement in one go: the token rate, the two cost budgets, the token budgets. -/
theorem settle_eq (s : ScopePolicy) (c : Counters) (nowMs totalTokens costMicroUsd : ℕ) :
    let rate := ScopePolicy.debitIf s.tokensPerMin totalTokens (minuteEpoch nowMs) c.tokRate
    let daily := settleCost s nowMs costMicroUsd .daily none { c with tokRate := rate }
    let monthly := settleCost s nowMs costMicroUsd .monthly daily.1 daily.2
    s.settle c nowMs totalTokens costMicroUsd =
      (monthly.1,
        { monthly.2 with
          tokDaily := ScopePolicy.debitIf s.tokensDaily totalTokens
            (dayEpoch nowMs s.anchorOffsetMinutes) monthly.2.tokDaily
          tokMonthly := ScopePolicy.debitIf s.tokensMonthly totalTokens
            (monthEpoch nowMs s.anchorOffsetMinutes) monthly.2.tokMonthly }) := by
  obtain ⟨req, tokRate, costDaily, costMonthly, tokDaily, tokMonthly, flagDaily, flagMonthly⟩ := c
  unfold ScopePolicy.settle settleCost ScopePolicy.costLimit BudgetPeriod.epoch Counters.setSpend
    Counters.setFlag Counters.spend Counters.flag
  dsimp only
  cases hd : s.costDaily with
  | none =>
    cases hm : s.costMonthly with
    | none => exact rfl
    | some lm => exact rfl
  | some ld =>
    dsimp only
    generalize s.maybeSpendAlert ld _ _ _ _ = daily
    obtain ⟨alert, flag⟩ := daily
    cases hm : s.costMonthly with
    | none =>
      cases alert with
      | none => exact rfl
      | some a => exact rfl
    | some lm =>
      cases alert with
      | none => exact rfl
      | some a => exact rfl

/-- **Undisturbed, the steps of a settlement are those of `settle`.** -/
theorem alone_settle (s : ScopePolicy) (c : Counters) (nowMs totalTokens costMicroUsd : ℕ) :
    Alone s nowMs totalTokens costMicroUsd (.debitRate, c)
      (.done (s.settle c nowMs totalTokens costMicroUsd).1,
        (s.settle c nowMs totalTokens costMicroUsd).2) := by
  rw [settle_eq]
  refine (Alone.one (.debitRate, c)).trans ?_
  refine (alone_settleCost .daily none _).trans ?_
  refine (alone_settleCost .monthly _ _).trans ?_
  refine (Alone.one (.debitTokens .daily _, _)).trans ?_
  exact Alone.one (.debitTokens .monthly _, _)

end SettlePhase

/-! ## Any number of settlements -/

structure Settlement where
  nowMs : ℕ
  totalTokens : ℕ
  costMicroUsd : ℕ
  phase : SettlePhase := .debitRate
  deriving DecidableEq, Repr

/-- The words of a scope, the moment of the last settlement to start, and all settlements. -/
structure Settling where
  counters : Counters := {}
  clock : ℕ := 0
  calls : List Settlement := []
  deriving DecidableEq, Repr

inductive SettlingEvent
  | call (nowMs totalTokens costMicroUsd : ℕ)
  /-- The settlement at a place of the list takes a step. -/
  | act (i : ℕ)
  deriving DecidableEq, Repr

namespace Settling

variable (s : ScopePolicy) (σ : Settling)

def apply : SettlingEvent → Settling
  | .call nowMs totalTokens costMicroUsd =>
    { σ with clock := nowMs, calls := σ.calls ++ [⟨nowMs, totalTokens, costMicroUsd, .debitRate⟩] }
  | .act i =>
    match σ.calls[i]? with
    | none => σ
    | some x =>
      let (phase, c) := x.phase.next s x.nowMs x.totalTokens x.costMicroUsd σ.counters
      { σ with counters := c, calls := σ.calls.set i { x with phase := phase } }

/-- The clock does not go back. -/
def Enabled : SettlingEvent → Prop
  | .call nowMs _ _ => σ.clock ≤ nowMs
  | .act _ => True

instance : DecidablePred σ.Enabled
  | .call _ _ _ => inferInstanceAs (Decidable (_ ≤ _))
  | .act _ => isTrue trivial

def run (events : List SettlingEvent) : Settling := events.foldl (apply s) σ

def Runs : Settling → List SettlingEvent → Prop
  | _, [] => True
  | σ, e :: events => σ.Enabled e ∧ Runs (σ.apply s e) events

instance decidableRuns : (events : List SettlingEvent) → (σ : Settling) → Decidable (σ.Runs s events)
  | [], _ => isTrue trivial
  | e :: events, σ => @instDecidableAnd _ _ _ (decidableRuns events (σ.apply s e))

end Settling

end Routeplane.Limits
