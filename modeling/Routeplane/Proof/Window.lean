import Routeplane.Limits.Registry
import Mathlib.Data.List.Induction

/-!
# What a window counter counts

Two results about one packed word under any traffic.

A policy whose cost cap is authored in a display currency should limit exactly as the policy with
the resolved micro-USD caps does.

* `consumeRequest_bounded`: within a minute a hard request limit is never exceeded, whatever the
  callers' loads and swaps are interleaved as, and is refused only when it is reached; the
  shares of the replicas add up to the limit, rounded up to one more for each replica.
* `run_right_iff`: the count of the newest window is what was stamped with it exactly as long
  as no operation stamped with an older window writes over it.
* `fromPolicy_inMicroUsd`: the two compile to the same slot as soon as both compile to one.
* `authored_enforced_iff`: a policy is enforced as its micro-USD equivalent iff it also has a
  limit that the emptiness test looks at.
-/

namespace Routeplane.Limits

/-! ## Requests in one minute -/

/-- A moment of the minute `w`. -/
def InMinute (w : ℕ) := { nowMs : ℕ // minuteEpoch nowMs = w }

/-- The loop body of `consume_request` at a moment of the minute. -/
def ScopePolicy.consumeAt (s : ScopePolicy) (w : ℕ) (now : InMinute w) (word : ℕ) :
    Option ℕ × Option Breach :=
  s.consumeWord now.1 word

/-- The requests a log of answers lets pass. -/
def grants {w : ℕ} (log : List (InMinute w × Option Breach)) : ℕ := log.countP (·.2.isNone)

section Requests

variable {s : ScopePolicy} {share w p d : ℕ} {log : List (InMinute w × Option Breach)}

theorem grants_snoc (log : List (InMinute w × Option Breach)) (now : InMinute w)
    (b : Option Breach) : grants (log ++ [(now, b)]) = grants log + if b.isNone then 1 else 0 := by
  unfold grants
  rw [List.countP_append]
  cases b <;> simp

theorem consumeAt_refused (hl : s.requestsPerMin = some share) (hm : s.rateMode = .hard)
    (now : InMinute w) (h : share ≤ peek w d) :
    s.consumeAt w now d = (none, some (s.rateBreach now.1 .rateRequests share)) := by
  have hle : share ≤ peek (minuteEpoch now.1) d := by rw [now.2]; exact h
  unfold ScopePolicy.consumeAt ScopePolicy.consumeWord
  rw [hl, hm]
  simp only [LimitMode.isHard, if_true, tryConsume_refused 1 hle]

theorem consumeAt_granted (hl : s.requestsPerMin = some share) (hm : s.rateMode = .hard)
    (now : InMinute w) (h : peek w d < share) :
    (s.consumeAt w now d).2 = none ∧
      peek w (Cell.next (s.consumeAt w) now d) = min (peek w d + 1) countMask := by
  have hlt : peek (minuteEpoch now.1) d < share := by rw [now.2]; exact h
  have hact : s.consumeAt w now d = ((tryConsume 1 share (minuteEpoch now.1) d).1, none) := by
    unfold ScopePolicy.consumeAt ScopePolicy.consumeWord
    rw [hl, hm]
    simp only [LimitMode.isHard, if_true, tryConsume_granted 1 hlt]
  refine ⟨by rw [hact], ?_⟩
  have hnext : Cell.next (s.consumeAt w) now d =
      Cell.next (tryConsume 1 share) (minuteEpoch now.1) d := by
    unfold Cell.next
    rw [hact]
  rw [hnext, peek_tryConsume hlt, now.2]
  exact if_pos rfl

/-- The count is what was there and what was granted, and grants stop at the limit. -/
def Exact (share w p : ℕ) (log : List (InMinute w × Option Breach)) (d : ℕ) : Prop :=
  peek w d = peek w p + grants log ∧ (grants log = 0 ∨ peek w d ≤ share)

theorem serial_exact (hl : s.requestsPerMin = some share) (hm : s.rateMode = .hard)
    (hmask : share ≤ countMask) (h : Cell.Serial (s.consumeAt w) p log d) :
    Exact share w p log d := by
  refine h.invariant ⟨rfl, Or.inl rfl⟩ ?_
  rintro log d now ⟨hcount, hle⟩
  rcases Nat.lt_or_ge (peek w d) share with hlt | hge
  · obtain ⟨hans, hpeek⟩ := consumeAt_granted hl hm now hlt
    unfold Exact
    rw [grants_snoc, hpeek, hans]
    simp only [Option.isNone_none, if_true]
    omega
  · have hact := consumeAt_refused hl hm now hge
    have hnext : Cell.next (s.consumeAt w) now d = d := by rw [Cell.next, hact]; rfl
    unfold Exact
    rw [grants_snoc, hnext, hact]
    simp only [Option.isNone_some, Bool.false_eq_true, if_false, Nat.add_zero]
    exact ⟨hcount, hle⟩

end Requests

/-- The replicas a share is computed for. -/
def replicaCount (maxReplicas : ℕ) : ℕ := max maxReplicas 1

theorem share_sum {limit maxReplicas share : ℕ} (hle : limit ≤ countMask)
    (h : clampLimit maxReplicas (some limit) = some share) :
    limit ≤ replicaCount maxReplicas * share ∧
      replicaCount maxReplicas * share ≤ limit + replicaCount maxReplicas - 1 := by
  unfold clampLimit sharePerReplica at h
  simp only [Option.map_some, Option.some.injEq] at h
  by_cases hr : maxReplicas ≤ 1
  · have hone : replicaCount maxReplicas = 1 := by unfold replicaCount; omega
    rw [if_pos hr, min_eq_left hle] at h
    rw [hone, ← h]
    omega
  · have hcount : replicaCount maxReplicas = maxReplicas := by unfold replicaCount; omega
    have hpos : 0 < maxReplicas := by omega
    have hmod := Nat.div_add_mod (limit + maxReplicas - 1) maxReplicas
    have hlt := Nat.mod_lt (limit + maxReplicas - 1) hpos
    have hdiv : (limit + maxReplicas - 1) / maxReplicas ≤ limit := by
      rcases Nat.eq_zero_or_pos limit with rfl | hl
      · rw [Nat.div_eq_of_lt (by omega)]
      · refine Nat.div_le_of_le_mul ?_
        have hmul : limit + maxReplicas ≤ limit * maxReplicas + 1 := by
          obtain ⟨a, rfl⟩ : ∃ a, limit = a + 1 := ⟨limit - 1, by omega⟩
          obtain ⟨b, rfl⟩ : ∃ b, maxReplicas = b + 1 := ⟨maxReplicas - 1, by omega⟩
          have hab := Nat.zero_le (a * b)
          have hexp : (a + 1) * (b + 1) = a * b + a + b + 1 := by
            rw [Nat.add_mul, Nat.mul_add]
            omega
          omega
        rw [Nat.mul_comm]
        omega
    rw [if_neg hr, min_eq_left (by omega)] at h
    rw [hcount, ← h]
    omega

/-- **No over-admission.** Whatever number of callers consume in one minute, and whatever their
loads and swaps are interleaved as, a compiled hard request limit grants no more than the
replica's share, refuses only once the share is reached, and the shares add up to the limit. -/
theorem consumeRequest_bounded {ι : Type} [DecidableEq ι] (scope : LimitScope)
    (policyId : Option String) (tokens : Option ℕ) (budget : Option BudgetLimits)
    (fallbackId : String) (maxReplicas limit : ℕ) :
    ∃ s share,
      ScopePolicy.fromPolicy scope ⟨policyId, some ⟨some limit, tokens, .hard⟩, budget⟩ fallbackId
        maxReplicas = some s ∧ s.requestsPerMin = some share ∧
      (∀ (w p : ℕ) (m : Cell.State ι (InMinute w) ℕ (Option Breach)),
        Relation.ReflTransGen (Cell.Step (s.consumeAt w)) (Cell.start p) m →
          grants m.log ≤ share - peek w p ∧
          ∀ before after now b, m.log = before ++ (now, some b) :: after →
            share ≤ peek w p + grants before) ∧
      (limit ≤ countMask →
        limit ≤ replicaCount maxReplicas * share ∧
          replicaCount maxReplicas * share ≤ limit + replicaCount maxReplicas - 1) := by
  obtain ⟨s, hs⟩ : ∃ s, ScopePolicy.fromPolicy scope
      ⟨policyId, some ⟨some limit, tokens, .hard⟩, budget⟩ fallbackId maxReplicas = some s :=
    ScopePolicy.fromPolicy_exists scope fallbackId maxReplicas rfl rfl
  obtain ⟨hreq, -, hmode⟩ := ScopePolicy.fromPolicy_rate rfl hs
  obtain ⟨share, hshare⟩ : ∃ share, clampLimit maxReplicas (some limit) = some share := ⟨_, rfl⟩
  have hl : s.requestsPerMin = some share := hreq.trans hshare
  have hmask := ScopePolicy.clampLimit_le hshare
  refine ⟨s, share, hs, hl, ?_, fun hle => share_sum hle hshare⟩
  intro w p m hrun
  have hserial := Cell.Step.serial hrun
  constructor
  · obtain ⟨hcount, hle⟩ := serial_exact hl hmode hmask hserial
    omega
  · intro before after now b heq
    obtain ⟨e, hbefore, hans⟩ := hserial.split heq
    obtain ⟨hcount, -⟩ := serial_exact hl hmode hmask hbefore
    by_contra hlt
    have hgranted := consumeAt_granted hl hmode now (show peek w e < share by omega)
    rw [hgranted.1] at hans
    simp at hans

/-! ## Operations of any window -/

/-- An operation on one window counter. -/
inductive WindowOp
  | consume (amount limit epoch : ℕ)
  | debit (amount epoch : ℕ)
  deriving DecidableEq, Repr

namespace WindowOp

def epoch : WindowOp → ℕ
  | consume _ _ e => e
  | debit _ e => e

def amount : WindowOp → ℕ
  | consume a _ _ => a
  | debit a _ => a

/-- The loop body of the operation; the answer says whether it was refused. -/
def act : WindowOp → ℕ → Option ℕ × Bool
  | consume a l e, p =>
    match tryConsume a l e p with
    | (w, .ok _) => (w, false)
    | (w, .error _) => (w, true)
  | debit a e, p => ((Limits.debit a e p).1, false)

/-- Only a consume at or over its limit is refused. -/
def Refused : WindowOp → ℕ → Prop
  | consume _ l e, p => l ≤ peek e p
  | debit _ _, _ => False

instance (op : WindowOp) (p : ℕ) : Decidable (op.Refused p) :=
  match op with
  | consume _ l e => inferInstanceAs (Decidable (l ≤ peek e p))
  | debit _ _ => inferInstanceAs (Decidable False)

/-- The word after the operation. -/
def apply (p : ℕ) (op : WindowOp) : ℕ := Cell.next act op p

def run (ops : List WindowOp) : ℕ := ops.foldl apply 0

/-- The latest window seen. -/
def newest (ops : List WindowOp) : ℕ := ops.foldl (fun w op => max w op.epoch) 0

/-- What the operations stamped with `w` have added, from the word `p` on. -/
def counted (w : ℕ) (p : ℕ) : List WindowOp → ℕ
  | [] => 0
  | op :: ops =>
    (if op.epoch = w ∧ ¬op.Refused p then op.amount else 0) + counted w (apply p op) ops

/-- The newest window's count is what was stamped with it, saturating. -/
def Right (ops : List WindowOp) : Prop :=
  peek (newest ops) (run ops) = min (counted (newest ops) 0 ops) countMask

instance (ops : List WindowOp) : Decidable (Right ops) := inferInstanceAs (Decidable (_ = _))

/-- What keeps the count right: an operation of an older window writes nothing, or has nothing
to write over (in a window of the same 24 bits: adds nothing); and a new window does not find
the count of another one under its 24 bits. -/
def Fits (w p : ℕ) (op : WindowOp) : Prop :=
  if op.epoch < w then
    op.Refused p ∨
      if SameEpoch op.epoch w then op.amount = 0 ∨ peek w p = countMask else peek w p = 0
  else if w < op.epoch then peek op.epoch p = 0 ∨ (¬op.Refused p ∧ countMask ≤ op.amount)
  else True

variable {ops pre : List WindowOp} {op : WindowOp} {w p : ℕ}

theorem apply_refused (h : op.Refused p) : apply p op = p := by
  cases op with
  | consume a l e =>
    have hr := tryConsume_refused a h
    unfold apply Cell.next act
    simp only [hr, Option.getD_none]
  | debit a e => exact h.elim

theorem peek_apply (h : ¬op.Refused p) (w : ℕ) :
    peek w (apply p op) =
      if SameEpoch op.epoch w then min (peek op.epoch p + op.amount) countMask else 0 := by
  cases op with
  | consume a l e =>
    have hlt : peek e p < l := Nat.lt_of_not_le h
    have hg := tryConsume_granted a hlt
    unfold apply Cell.next act
    simp only [hg, Option.getD_some]
    exact peek_pack (min_le_right _ _)
  | debit a e => exact peek_debit a e p w

theorem run_snoc (pre : List WindowOp) (op : WindowOp) :
    run (pre ++ [op]) = apply (run pre) op := by
  unfold run
  rw [List.foldl_append]
  rfl

theorem newest_snoc (pre : List WindowOp) (op : WindowOp) :
    newest (pre ++ [op]) = max (newest pre) op.epoch := by
  unfold newest
  rw [List.foldl_append]
  rfl

theorem counted_snoc (w p : ℕ) (pre : List WindowOp) (op : WindowOp) :
    counted w p (pre ++ [op]) = counted w p pre +
      if op.epoch = w ∧ ¬op.Refused (pre.foldl apply p) then op.amount else 0 := by
  induction pre generalizing p with
  | nil =>
    simp only [List.nil_append, counted, List.foldl_nil, Nat.add_zero, Nat.zero_add]
    rfl
  | cons o pre ih =>
    rw [List.cons_append, counted, counted, ih, List.foldl_cons]
    omega

/-- Nothing was stamped with a window later than the newest. -/
theorem counted_eq_zero (h : newest ops < w) (p : ℕ) : counted w p ops = 0 := by
  induction ops using List.reverseRecOn generalizing p with
  | nil => rfl
  | append_singleton pre o ih =>
    rw [newest_snoc] at h
    have hne : ¬(o.epoch = w ∧ ¬o.Refused (pre.foldl apply p)) := by omega
    rw [counted_snoc, ih (by omega) p, if_neg hne]

/-- What a run has added for the newest window, after one more operation. -/
theorem counted_newest_snoc (pre : List WindowOp) (op : WindowOp) :
    counted (newest (pre ++ [op])) 0 (pre ++ [op]) =
      counted (max (newest pre) op.epoch) 0 pre +
        if newest pre ≤ op.epoch ∧ ¬op.Refused (run pre) then op.amount else 0 := by
  have hiff : op.epoch = max (newest pre) op.epoch ↔ newest pre ≤ op.epoch := by omega
  rw [newest_snoc, counted_snoc]
  simp only [hiff]
  rfl

theorem fits_of_lt (h : op.epoch < w) :
    Fits w p op ↔ op.Refused p ∨
      if SameEpoch op.epoch w then op.amount = 0 ∨ peek w p = countMask else peek w p = 0 := by
  unfold Fits
  rw [if_pos h]

theorem fits_of_eq (h : op.epoch = w) : Fits w p op := by
  unfold Fits
  rw [if_neg (by omega), if_neg (by omega)]
  trivial

theorem fits_of_gt (h : w < op.epoch) :
    Fits w p op ↔ peek op.epoch p = 0 ∨ (¬op.Refused p ∧ countMask ≤ op.amount) := by
  unfold Fits
  rw [if_neg (by omega), if_pos h]

/-- One more operation leaves the count right iff it fits. -/
theorem right_snoc (h : Right pre) :
    Right (pre ++ [op]) ↔ Fits (newest pre) (run pre) op := by
  have hle := peek_le (newest pre) (run pre)
  unfold Right at h ⊢
  rw [counted_newest_snoc, newest_snoc, run_snoc]
  rcases Nat.lt_trichotomy op.epoch (newest pre) with hlt | heq | hgt
  · -- an operation of an older window
    have hout : ¬(newest pre ≤ op.epoch ∧ ¬op.Refused (run pre)) := by omega
    rw [if_neg hout, Nat.add_zero, max_eq_left hlt.le, ← h, fits_of_lt hlt]
    by_cases hr : op.Refused (run pre)
    · simp only [apply_refused hr, hr, true_or]
    · rw [peek_apply hr]
      simp only [hr, false_or]
      by_cases hs : SameEpoch op.epoch (newest pre)
      · rw [if_pos hs, if_pos hs, peek_congr hs]
        omega
      · rw [if_neg hs, if_neg hs]
        exact eq_comm
  · -- one of the newest window adds to its count
    refine iff_of_true ?_ (fits_of_eq heq)
    rw [heq, max_self]
    by_cases hr : op.Refused (run pre)
    · rw [apply_refused hr, if_neg (fun hn => hn.2 hr), Nat.add_zero, h]
    · have hsame : SameEpoch op.epoch (newest pre) := by rw [heq]; rfl
      rw [peek_apply hr, if_pos hsame, if_pos ⟨le_refl _, hr⟩, heq, h]
      omega
  · -- the first of a new window
    have hle' := peek_le op.epoch (run pre)
    rw [max_eq_right hgt.le, counted_eq_zero hgt, Nat.zero_add, fits_of_gt hgt]
    by_cases hr : op.Refused (run pre)
    · rw [apply_refused hr, if_neg (fun hn => hn.2 hr)]
      simp only [hr, not_true_eq_false, false_and, or_false, Nat.zero_min]
    · have hsame : SameEpoch op.epoch op.epoch := rfl
      rw [peek_apply hr, if_pos hsame, if_pos ⟨hgt.le, hr⟩]
      simp only [hr, not_false_eq_true, true_and]
      omega

/-- **The newest window's count is right throughout a run iff every operation fits.** -/
theorem run_right_iff (ops : List WindowOp) :
    (∀ pre, pre <+: ops → Right pre) ↔
      ∀ pre op, pre ++ [op] <+: ops → Fits (newest pre) (run pre) op := by
  constructor
  · intro h pre op hpre
    have hshort : pre <+: ops := (List.prefix_append pre [op]).trans hpre
    exact (right_snoc (h pre hshort)).1 (h _ hpre)
  · intro h pre
    induction pre using List.reverseRecOn with
    | nil => intro _; rfl
    | append_singleton pre op ih =>
      intro hpre
      have hshort : pre <+: ops := (List.prefix_append pre [op]).trans hpre
      exact (right_snoc (ih hshort)).2 (h pre op hpre)

/-- A settlement of one minute recorded after one of the next erases the next one's count. -/
theorem run_not_right : ¬∀ ops : List WindowOp, Right ops := by
  intro h
  have hlate := h [.debit 700 29000001, .debit 5 29000000]
  revert hlate
  decide

end WindowOp

/-! ## Cost caps in a display currency -/

/-- The policy with its cost caps written in micro-USD. -/
def LimitPolicy.inMicroUsd (p : LimitPolicy) (caps : Option ℕ × Option ℕ) : LimitPolicy :=
  { p with budget := p.budget.map (·.inMicroUsd caps) }

/-! ## A limiter in use -/

/-- The guards of a request that one scope limits. -/
def guardsOf : (k : LimitScope) → Option (Scoped k) → LimitGuards
  | .key, slot => ⟨slot, none, none⟩
  | .tenant, slot => ⟨none, slot, none⟩
  | .model, slot => ⟨none, none, slot⟩

/-- What happens to a limiter. -/
inductive Use
  | admitRequest (nowMs : ℕ)
  | settle (nowMs totalTokens costMicroUsd : ℕ)
  deriving DecidableEq, Repr

/-- The requests of a sequence that are denied, in order. -/
def denials (g : LimitGuards) : Heap → List Use → List Bool
  | _, [] => []
  | h, .admitRequest nowMs :: uses =>
    let (a, h) := g.admitRequest nowMs h
    (!a.isAllowed) :: denials g h uses
  | h, .settle nowMs totalTokens costMicroUsd :: uses =>
    denials g (g.settle nowMs h totalTokens costMicroUsd).2 uses

/-- The limiter built from a policy: the guards it gives a request, and its fresh counters. -/
def limiter (k : LimitScope) (policy : LimitPolicy) (fallbackId : String) (maxReplicas : ℕ) :
    LimitGuards × Heap :=
  let (slot, h) := newSlot k policy fallbackId maxReplicas {}
  (guardsOf k slot, h)

/-- The policy limits as the one with the given micro-USD caps does, and is no empty one. -/
def EnforcedAs (policy : LimitPolicy) (caps : Option ℕ × Option ℕ) : Prop :=
  policy.isEmpty = false ∧
    ∀ (k : LimitScope) (fallbackId : String) (maxReplicas : ℕ),
      (ScopePolicy.fromPolicy k policy fallbackId maxReplicas).isSome ∧
      ∀ uses : List Use,
        denials (limiter k policy fallbackId maxReplicas).1
            (limiter k policy fallbackId maxReplicas).2 uses =
          denials (limiter k (policy.inMicroUsd caps) fallbackId maxReplicas).1
            (limiter k (policy.inMicroUsd caps) fallbackId maxReplicas).2 uses

/-- A limit other than an authored cost cap. -/
def LimitPolicy.LimitsBeside (p : LimitPolicy) : Prop :=
  (∃ r ∈ p.rate, r.requestsPerMin.isSome ∨ r.tokensPerMin.isSome) ∨
    ∃ b ∈ p.budget, b.costMicroUsdDaily.isSome ∨ b.costMicroUsdMonthly.isSome ∨
      b.tokensDaily.isSome ∨ b.tokensMonthly.isSome

variable {p : LimitPolicy} {b : BudgetLimits} {caps : Option ℕ × Option ℕ}

/-! ## The emptiness test -/

/-- The emptiness test asks for every limit but the authored caps. -/
theorem isEmpty_eq_false_iff : p.isEmpty = false ↔ p.LimitsBeside := by
  obtain ⟨policyId, rate, budget⟩ := p
  unfold LimitPolicy.isEmpty LimitPolicy.LimitsBeside
  rw [Bool.and_eq_false_iff]
  refine or_congr ?_ ?_
  · cases rate with
    | none => simp
    | some r => cases hr : r.requestsPerMin <;> simp [RateLimits.isEmpty, hr]
  · cases budget with
    | none => simp
    | some b =>
      cases hd : b.costMicroUsdDaily <;> cases hm : b.costMicroUsdMonthly <;>
        cases ht : b.tokensDaily <;> simp [BudgetLimits.isEmpty, hd, hm, ht]

/-- With an authored cap, the micro-USD equivalent is no empty policy. -/
theorem inMicroUsd_isEmpty (hb : p.budget = some b) (hok : b.resolvedCostCaps = .ok caps)
    (hauth : b.authoredCostDaily.isSome ∨ b.authoredCostMonthly.isSome) :
    (p.inMicroUsd caps).isEmpty = false := by
  obtain ⟨d, m⟩ := caps
  obtain ⟨hd, hm⟩ := BudgetLimits.resolvedCostCaps_ok hok
  have hdsome := BudgetLimits.resolveWindow_isSome hd
  have hmsome := BudgetLimits.resolveWindow_isSome hm
  rw [isEmpty_eq_false_iff]
  refine Or.inr ⟨b.inMicroUsd (d, m), by simp [LimitPolicy.inMicroUsd, hb], ?_⟩
  rcases hauth with h | h
  · rw [h, Bool.or_true] at hdsome
    exact Or.inl hdsome
  · rw [h, Bool.or_true] at hmsome
    exact Or.inr (Or.inl hmsome)

/-! ## The compile step -/

/-- Two policies that are no empty ones compile alike when one is the other in micro-USD. -/
theorem fromPolicy_inMicroUsd (hb : p.budget = some b) (hok : b.resolvedCostCaps = .ok caps)
    (hp : p.isEmpty = false) (hq : (p.inMicroUsd caps).isEmpty = false) (k : LimitScope)
    (fallbackId : String) (maxReplicas : ℕ) :
    ScopePolicy.fromPolicy k p fallbackId maxReplicas =
      ScopePolicy.fromPolicy k (p.inMicroUsd caps) fallbackId maxReplicas := by
  have hbud : (p.inMicroUsd caps).budget = some (b.inMicroUsd caps) := by
    simp [LimitPolicy.inMicroUsd, hb]
  unfold ScopePolicy.fromPolicy
  rw [hp, hq, hb, hbud]
  simp only [Bool.false_eq_true, if_false, Option.getD_some, hok,
    BudgetLimits.resolvedCostCaps_inMicroUsd]
  rfl

theorem newSlot_congr {k : LimitScope} {q : LimitPolicy} {fallbackId : String} {maxReplicas : ℕ}
    (h : ScopePolicy.fromPolicy k p fallbackId maxReplicas =
      ScopePolicy.fromPolicy k q fallbackId maxReplicas) (heap : Heap) :
    newSlot k p fallbackId maxReplicas heap = newSlot k q fallbackId maxReplicas heap := by
  unfold newSlot
  split
  · rename_i hp
    split
    · rfl
    · rename_i s hq
      rw [hp, hq] at h
      simp at h
  · rename_i s hp
    split
    · rename_i hq
      rw [hp, hq] at h
      simp at h
    · rename_i t hq
      rw [hp, hq, Option.some.injEq] at h
      subst h
      rfl

/-- **Authored caps are enforced iff the policy also has a limit the emptiness test sees.** -/
theorem authored_enforced_iff (hb : p.budget = some b)
    (hauth : b.authoredCostDaily.isSome ∨ b.authoredCostMonthly.isSome)
    (hok : b.resolvedCostCaps = .ok caps) :
    EnforcedAs p caps ↔ p.LimitsBeside := by
  rw [← isEmpty_eq_false_iff]
  constructor
  · intro h
    exact h.1
  · intro hp
    have hq := inMicroUsd_isEmpty hb hok hauth
    refine ⟨hp, fun k fallbackId maxReplicas => ?_⟩
    have hsame := fromPolicy_inMicroUsd hb hok hp hq k fallbackId maxReplicas
    constructor
    · rw [Option.isSome_iff_ne_none, Ne, ScopePolicy.fromPolicy_eq_none, hp]
      simp
    · intro uses
      unfold limiter
      rw [newSlot_congr hsame]

/-- A policy with a rate limit beside a monthly cap of 100 rupees at 83 to the dollar. -/
theorem authored_enforced_beside_rate :
    EnforcedAs ⟨none, some { requestsPerMin := some 60 },
      some { authoredCostMonthly := some 100, fxUnitsPerUsd := some 83 }⟩ (none, some 1204819) :=
  (authored_enforced_iff rfl (Or.inr rfl) rfl).2 (Or.inl ⟨_, rfl, Or.inl rfl⟩)

/-- The same cap alone compiles to no limiter: after two dollars are spent the micro-USD limiter
denies and this one does not. -/
theorem authored_not_enforced :
    ¬∀ (p : LimitPolicy) (b : BudgetLimits) (caps : Option ℕ × Option ℕ), p.budget = some b →
      (b.authoredCostDaily.isSome ∨ b.authoredCostMonthly.isSome) →
      b.resolvedCostCaps = .ok caps → EnforcedAs p caps := by
  intro h
  have hcap := h ⟨none, none, some { authoredCostMonthly := some 100, fxUnitsPerUsd := some 83 }⟩
    _ (none, some 1204819) rfl (Or.inr rfl) rfl
  have hruns := (hcap.2 .key "key:k" 1).2 [.settle 1709251200000 0 2000000, .admitRequest 1709251200000]
  revert hruns
  decide

end Routeplane.Limits
