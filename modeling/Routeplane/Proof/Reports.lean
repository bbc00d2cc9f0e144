import Routeplane.Observability.Reports
import Routeplane.Proof.HitCounts
import Mathlib.Algebra.Order.BigOperators.Group.List

/-!
# Chargebacks add up

The reports are folds of their own over the same events, each with its own test of what it counts.
What they count is stated once, by the attempts of the tenant, and the reports are compared by it.

* `chargeback_adds_up`: every breakdown of a chargeback is by its label and adds up, for every
  measure, saturated sums included.
* `chargebacks_add_up`: the tenants together are charged for the calls the operator's summary counts.
* `currencies_reconcile`: the totals in a currency are those in micro-USD at the rates of the day,
  short of less than one minor unit a request.
-/

namespace Routeplane.Usage

open Limits (satAdd u64Max)
open Rollup

/-! ## The attempts of a tenant -/

section Attempts

variable (r : PricedRings) (tenantId : Option String)

/-- The events that stand for a call of a provider. -/
def PricedRings.attempts : List PricedUsage :=
  (r.recentEventsOwned tenantId).filter fun e => !e.isPseudo

/-- The latencies of the attempts that were timed. -/
def timings (events : List PricedUsage) : List ℕ := events.flatMap PricedUsage.samples

/-- A fold that skips the pseudo-providers is one over the attempts. -/
theorem foldl_attempts {σ : Type*} (step : σ → PricedUsage → σ) (s : σ) :
    (r.recentEventsOwned tenantId).foldl (fun s e => if e.isPseudo then s else step s e) s =
      (r.attempts tenantId).foldl step s := by
  rw [PricedRings.attempts, List.foldl_filter]
  congr 1
  funext s e
  cases e.isPseudo <;> rfl

theorem length_events_le (r : PricedRings) (tenantId : Option String) :
    (r.recentEventsOwned tenantId).length ≤ maxRetainedEvents := by
  unfold PricedRings.recentEventsOwned
  split
  · exact Nat.zero_le _
  · rename_i ring _
    have hfilter := List.length_filter_le (fun e : PricedUsage => e.tenantId = ring.tenantId)
      (ring.stored.map (·.2))
    have hbounded := ring.bounded
    rw [List.length_map] at hfilter
    omega

theorem length_attempts_le : (r.attempts tenantId).length ≤ maxRetainedEvents :=
  (List.length_filter_le _ _).trans (length_events_le r tenantId)

end Attempts

/-! ## Chargeback -/

section Chargeback

/-- The totals of some events. -/
def totalsOf (events : List PricedUsage) : ChargebackTotals :=
  events.foldl ChargebackTotals.accumulate {}

/-- What a total counts. -/
inductive Measure
  | requests
  | successfulRequests
  | promptTokens
  | completionTokens
  | totalTokens
  | costMicroUsd
  | currency (code : String)
  deriving DecidableEq, Repr

namespace Measure

def ofTotals (t : ChargebackTotals) : Measure → ℕ
  | requests => t.requests
  | successfulRequests => t.successfulRequests
  | promptTokens => t.promptTokens
  | completionTokens => t.completionTokens
  | totalTokens => t.totalTokens
  | costMicroUsd => t.costMicroUsd
  | currency code => (t.costByCurrency.get code).getD 0

/-- What one event adds to it. -/
def weight (e : PricedUsage) : Measure → ℕ
  | requests => 1
  | successfulRequests => if e.success then 1 else 0
  | promptTokens => e.promptTokens.toNat
  | completionTokens => e.completionTokens.toNat
  | totalTokens => e.totalTokens.toNat
  | costMicroUsd => e.cost.elim 0 fun cost => cost.microUsd
  | currency code => e.cost.elim 0 fun cost => if cost.currency = code then cost.minorUnits else 0

end Measure

/-- One event adds what it weighs, up to the bound of a counter. -/
theorem ofTotals_accumulate (m : Measure) (t : ChargebackTotals) (e : PricedUsage)
    (h : m.ofTotals t ≤ u64Max) :
    m.ofTotals (t.accumulate e) = min (m.ofTotals t + m.weight e) u64Max := by
  unfold ChargebackTotals.accumulate ChargebackTotals.addCost
  cases hcost : e.cost with
  | none =>
    cases m with
    | requests | promptTokens | completionTokens | totalTokens => rfl
    | successfulRequests =>
      simp only [Measure.ofTotals, Measure.weight, satAdd] at h ⊢
      split <;> omega
    | costMicroUsd | currency code =>
      simp only [Measure.ofTotals, Measure.weight, hcost, Option.elim_none] at h ⊢
      omega
  | some cost =>
    cases m with
    | requests | promptTokens | completionTokens | totalTokens => rfl
    | successfulRequests =>
      simp only [Measure.ofTotals, Measure.weight, satAdd] at h ⊢
      split <;> omega
    | costMicroUsd =>
      simp only [Measure.ofTotals, Measure.weight, hcost, Option.elim_some, satAdd]
    | currency code =>
      simp only [Measure.ofTotals, Measure.weight, hcost, Option.elim_some, satAdd] at h ⊢
      rw [Assoc.get_insert]
      by_cases hcode : cost.currency = code
      · subst hcode
        rw [if_pos rfl, if_pos rfl, Option.getD_some]
      · rw [if_neg hcode, if_neg hcode]
        omega

theorem ofTotals_empty (m : Measure) : m.ofTotals {} = 0 := by cases m <;> rfl

/-- **A total is the saturated sum over its events.** -/
theorem ofTotals_totalsOf (m : Measure) (events : List PricedUsage) :
    m.ofTotals (totalsOf events) = min (events.map m.weight).sum u64Max := by
  have hempty : m.ofTotals {} ≤ u64Max := by
    rw [ofTotals_empty]
    exact Nat.zero_le _
  rw [totalsOf, weight_foldl (fun t => m.ofTotals t) m.weight (ofTotals_accumulate m) events hempty,
    ofTotals_empty, Nat.zero_add]

/-- Groups by a label: each has the totals of its own events, and for every measure they add up to
the totals of all events that have a label. -/
structure Breakdown (label : PricedUsage → Option String) (events : List PricedUsage)
    (groups : Assoc String ChargebackTotals) : Prop where
  distinct : groups.Distinct
  totals : ∀ k, groups.get k =
    if itemsOf label k events = [] then none else some (totalsOf (itemsOf label k events))
  adds : ∀ m : Measure, min (groups.map fun g => m.ofTotals g.2).sum u64Max =
    m.ofTotals (totalsOf (events.filter fun e => (label e).isSome))

theorem breakdown_rollup (label : PricedUsage → Option String) (events : List PricedUsage) :
    Breakdown label events (rollup label ChargebackTotals.accumulate {} events) where
  distinct := distinct_rollup events
  totals k := get_rollup events k
  adds m := by
    rw [satSum_rollup (fun t => m.ofTotals t) m.weight (ofTotals_empty m) (ofTotals_accumulate m),
      ofTotals_totalsOf]

/-- A breakdown by a label every event has is one of all events. -/
theorem Breakdown.all {label : PricedUsage → Option String} {events : List PricedUsage}
    {groups : Assoc String ChargebackTotals} (h : Breakdown label events groups)
    (hlabel : ∀ e ∈ events, (label e).isSome) (m : Measure) :
    min (groups.map fun g => m.ofTotals g.2).sum u64Max = m.ofTotals (totalsOf events) := by
  rw [h.adds m, List.filter_eq_self.2 hlabel]

/-- The groups never add up to more than all events. -/
theorem Breakdown.le {label : PricedUsage → Option String} {events : List PricedUsage}
    {groups : Assoc String ChargebackTotals} (h : Breakdown label events groups) (m : Measure) :
    min (groups.map fun g => m.ofTotals g.2).sum u64Max ≤ m.ofTotals (totalsOf events) := by
  have hsublist := (List.filter_sublist (p := fun e => (label e).isSome) (l := events)).map m.weight
  have hsum := hsublist.sum_le_sum fun n _ => Nat.zero_le n
  rw [h.adds m, ofTotals_totalsOf, ofTotals_totalsOf]
  omega

variable (r : PricedRings) (tenantId : Option String)

/-- The fold of a chargeback, part by part. -/
theorem chargeback_eq :
    r.chargeback tenantId =
      { window := (r.recentEventsOwned tenantId).length
        eventsMatched := (r.attempts tenantId).length
        totals := totalsOf (r.attempts tenantId)
        byModel := rollup (fun e => some e.model) ChargebackTotals.accumulate {} (r.attempts tenantId)
        byKey := rollup (fun e => some e.virtualKeyName) ChargebackTotals.accumulate {}
          (r.attempts tenantId)
        byUseCase := rollup (fun e => e.useCase) ChargebackTotals.accumulate {} (r.attempts tenantId)
        latency := .fromSamples (timings (r.attempts tenantId)) } := by
  have hfold : ∀ (events : List PricedUsage) (report : ChargebackReport) (latencies : List ℕ),
      events.foldl (fun (acc : ChargebackReport × List ℕ) e => (acc.1.add e, acc.2 ++ e.samples))
          (report, latencies) =
        ({ report with
            eventsMatched := report.eventsMatched + events.length
            totals := events.foldl ChargebackTotals.accumulate report.totals
            byModel := events.foldl (addTo fun e => some e.model) report.byModel
            byKey := events.foldl (addTo fun e => some e.virtualKeyName) report.byKey
            byUseCase := events.foldl (addTo fun e => e.useCase) report.byUseCase },
          latencies ++ timings events) := by
    intro events
    induction events with
    | nil => exact fun _ latencies => by simp [timings]
    | cons e events ih =>
      intro report latencies
      have hcount : report.eventsMatched + 1 + events.length =
          report.eventsMatched + (events.length + 1) := by omega
      have htimings : timings (e :: events) = e.samples ++ timings events := List.flatMap_cons
      rw [List.foldl_cons, ih, htimings, ← List.append_assoc]
      simp only [ChargebackReport.add, List.foldl_cons, List.length_cons, hcount]
  unfold PricedRings.chargeback
  simp only [foldl_attempts r tenantId
    (fun (acc : ChargebackReport × List ℕ) e => (acc.1.add e, acc.2 ++ e.samples)), hfold,
    Nat.zero_add, List.nil_append]
  rfl

theorem matched_eq : (r.chargeback tenantId).eventsMatched = (r.attempts tenantId).length := by
  rw [chargeback_eq]

theorem totals_eq (m : Measure) : m.ofTotals (r.chargeback tenantId).totals =
    min ((r.attempts tenantId).map m.weight).sum u64Max := by
  rw [chargeback_eq]
  exact ofTotals_totalsOf m _

/-- **A chargeback adds up.** It is of the attempts of the tenant; by model and by key its groups
account for the totals, by use case for no more than them. -/
theorem chargeback_adds_up :
    (r.chargeback tenantId).eventsMatched = (r.attempts tenantId).length ∧
      (∀ m : Measure, m.ofTotals (r.chargeback tenantId).totals =
        min ((r.attempts tenantId).map m.weight).sum u64Max) ∧
      Breakdown (fun e => some e.model) (r.attempts tenantId) (r.chargeback tenantId).byModel ∧
      Breakdown (fun e => some e.virtualKeyName) (r.attempts tenantId)
        (r.chargeback tenantId).byKey ∧
      Breakdown (fun e => e.useCase) (r.attempts tenantId) (r.chargeback tenantId).byUseCase ∧
      ∀ m : Measure,
        min ((r.chargeback tenantId).byModel.map fun g => m.ofTotals g.2).sum u64Max =
            m.ofTotals (r.chargeback tenantId).totals ∧
          min ((r.chargeback tenantId).byKey.map fun g => m.ofTotals g.2).sum u64Max =
            m.ofTotals (r.chargeback tenantId).totals ∧
          min ((r.chargeback tenantId).byUseCase.map fun g => m.ofTotals g.2).sum u64Max ≤
            m.ofTotals (r.chargeback tenantId).totals := by
  rw [chargeback_eq]
  have hmodel := breakdown_rollup (fun e => some e.model) (r.attempts tenantId)
  have hkey := breakdown_rollup (fun e => some e.virtualKeyName) (r.attempts tenantId)
  have huse := breakdown_rollup (fun e => e.useCase) (r.attempts tenantId)
  refine ⟨rfl, fun m => ofTotals_totalsOf m _, hmodel, hkey, huse, fun m => ⟨?_, ?_, huse.le m⟩⟩
  · exact hmodel.all (fun _ _ => rfl) m
  · exact hkey.all (fun _ _ => rfl) m

end Chargeback

/-! ## The tenants and the summary -/

section Tenants

variable {r : PricedRings}

/-- A tenant owns what is in its ring. -/
theorem events_ring {ring : PricedRing} (hring : ring ∈ r.rings) :
    r.recentEventsOwned (some ring.tenantId) = ring.stored.map (·.2) := by
  have hfind : r.rings.find? (fun other => other.tenantId = ring.tenantId) = some ring := by
    cases hfind : r.rings.find? fun other => other.tenantId = ring.tenantId with
    | none => exact absurd (by simp) (List.find?_eq_none.1 hfind ring hring)
    | some other =>
      have hsame : other.tenantId = ring.tenantId := by simpa using List.find?_some hfind
      rw [List.inj_on_of_nodup_map r.distinct (List.mem_of_find?_eq_some hfind) hring hsame]
  simp only [PricedRings.recentEventsOwned, Option.bind_some, hfind]
  rw [List.filter_eq_self]
  intro e he
  obtain ⟨entry, hentry, rfl⟩ := List.mem_map.1 he
  exact decide_eq_true (ring.stamped entry hentry)

/-- A counter of the summary, by what one event adds to it. -/
theorem usageSummary_count {f : UsageSummary → ℕ} {p : UsageRecord → Bool}
    (hadd : ∀ s e, f (s.add e) = f s + if p e then 1 else 0) (hrates : ∀ s, f s.withRates = f s)
    (rings : Rings) (hzero : f { window := rings.getRecentEvents.length } = 0) :
    f rings.usageSummary = rings.getRecentEvents.countP p := by
  have hfold : ∀ (es : List UsageRecord) (s : UsageSummary),
      f (es.foldl UsageSummary.add s) = f s + es.countP p := by
    intro es
    induction es with
    | nil => exact fun _ => rfl
    | cons e es ih =>
      intro s
      rw [List.foldl_cons, ih, hadd, List.countP_cons]
      omega
  rw [Rings.usageSummary, hrates, hfold, hzero, Nat.zero_add]

theorem addBlock_calls (s : UsageSummary) (e : UsageRecord) :
    (s.addBlock e).successCount = s.successCount ∧ (s.addBlock e).failureCount = s.failureCount ∧
      (s.addBlock e).byProvider = s.byProvider := by
  unfold UsageSummary.addBlock
  split
  · exact ⟨rfl, rfl, rfl⟩
  · split <;> exact ⟨rfl, rfl, rfl⟩

/-- The calls the summary counts: those that succeeded, those that failed, and those of a provider. -/
theorem usageSummary_calls (rings : Rings) :
    rings.usageSummary.successCount =
        rings.getRecentEvents.countP (fun e => !e.isPseudo && e.success) ∧
      rings.usageSummary.failureCount =
        rings.getRecentEvents.countP (fun e => !e.isPseudo && !e.success) ∧
      ∀ provider, (rings.usageSummary.byProvider.get provider).getD 0 =
        rings.getRecentEvents.countP (fun e => !e.isPseudo && e.provider = provider) := by
  refine ⟨?_, ?_, fun provider => ?_⟩
  · refine usageSummary_count (fun s e => ?_) (fun _ => rfl) rings rfl
    unfold UsageSummary.add
    cases e.isPseudo with
    | true => simpa using (addBlock_calls s e).1
    | false => cases hs : e.success <;> simp [UsageSummary.addCall, hs, (addBlock_calls s e).1]
  · refine usageSummary_count (fun s e => ?_) (fun _ => rfl) rings rfl
    unfold UsageSummary.add
    cases e.isPseudo with
    | true => simpa using (addBlock_calls s e).2.1
    | false => cases hs : e.success <;> simp [UsageSummary.addCall, hs, (addBlock_calls s e).2.1]
  · refine usageSummary_count (f := fun s => (s.byProvider.get provider).getD 0) (fun s e => ?_)
      (fun _ => rfl) rings rfl
    unfold UsageSummary.add
    cases e.isPseudo with
    | true => simp [(addBlock_calls s e).2.2]
    | false =>
      simp only [UsageSummary.addCall, (addBlock_calls s e).2.2, Bool.false_eq_true, if_false,
        Bool.not_false, Bool.true_and, decide_eq_true_eq, Assoc.get_insert]
      by_cases hp : e.provider = provider
      · rw [if_pos hp, if_pos hp, Option.getD_some, hp]
      · rw [if_neg hp, if_neg hp]
        rfl

/-- What the tenants' rings count together, the operator's view of all rings counts. -/
theorem sum_countP_rings (p : UsageRecord → Bool) :
    (r.rings.map fun ring =>
        (r.recentEventsOwned (some ring.tenantId)).countP fun e => p e.toUsageRecord).sum =
      r.toRings.getRecentEvents.countP p := by
  rw [(recentEvents_perm r.toRings).countP_eq, List.countP_flatMap]
  show _ = ((r.rings.map PricedRing.toRing).map _).sum
  rw [List.map_map]
  refine congrArg List.sum (List.map_congr_left fun ring hring => ?_)
  show _ = (((ring.stored.map fun e => (e.1, e.2.toUsageRecord)).map (·.2)).countP p)
  rw [events_ring hring, List.map_map, List.countP_map, List.countP_map]
  rfl

theorem length_attempts (tenantId : Option String) :
    (r.attempts tenantId).length = (r.recentEventsOwned tenantId).countP fun e => !e.isPseudo :=
  List.countP_eq_length_filter.symm

/-- A counter of successes is within its bound. -/
theorem successes_eq (tenantId : Option String) :
    (r.chargeback tenantId).totals.successfulRequests =
      (r.recentEventsOwned tenantId).countP fun e => !e.isPseudo && e.success := by
  have htotal := totals_eq r tenantId .successfulRequests
  have hsum : ∀ events : List PricedUsage,
      (events.map fun e => Measure.weight e .successfulRequests).sum =
        events.countP fun e => e.success := by
    intro events
    induction events with
    | nil => rfl
    | cons e events ih =>
      rw [List.map_cons, List.sum_cons, ih, List.countP_cons]
      exact Nat.add_comm _ _
  have hle := (List.countP_le_length (p := fun e : PricedUsage => e.success)
    (l := r.attempts tenantId)).trans (length_attempts_le r tenantId)
  unfold maxRetainedEvents at hle
  have hfilter : (r.attempts tenantId).countP (fun e => e.success) =
      (r.recentEventsOwned tenantId).countP fun e => !e.isPseudo && e.success := by
    rw [PricedRings.attempts, List.countP_filter]
    exact List.countP_congr fun e _ => by rw [Bool.and_comm]
  rw [hsum, hfilter] at htotal
  rw [hfilter] at hle
  refine htotal.trans (Nat.min_eq_left ?_)
  unfold u64Max
  omega

/-- **The tenants together are charged for the calls the operator's summary counts**, no more and no
fewer. -/
theorem chargebacks_add_up (r : PricedRings) :
    ((r.rings.map fun ring => (r.chargeback (some ring.tenantId)).eventsMatched).sum =
        r.toRings.usageSummary.successCount + r.toRings.usageSummary.failureCount) ∧
      ((r.rings.map fun ring => (r.chargeback (some ring.tenantId)).totals.successfulRequests).sum =
        r.toRings.usageSummary.successCount) ∧
      ∀ provider,
        ((r.rings.map fun ring =>
            ((r.attempts (some ring.tenantId)).countP fun e => e.provider = provider)).sum =
          (r.toRings.usageSummary.byProvider.get provider).getD 0) := by
  obtain ⟨hsuccess, hfailure, hprovider⟩ := usageSummary_calls r.toRings
  refine ⟨?_, ?_, fun provider => ?_⟩
  · have hmatched : (r.rings.map fun ring => (r.chargeback (some ring.tenantId)).eventsMatched) =
        r.rings.map fun ring => (r.recentEventsOwned (some ring.tenantId)).countP
          fun e => !e.isPseudo :=
      List.map_congr_left fun ring _ =>
        (matched_eq r (some ring.tenantId)).trans (length_attempts _)
    have hsplit : ∀ es : List UsageRecord, es.countP (fun e => !e.isPseudo) =
        es.countP (fun e => !e.isPseudo && e.success) +
          es.countP (fun e => !e.isPseudo && !e.success) := by
      intro es
      induction es with
      | nil => rfl
      | cons e es ih =>
        rw [List.countP_cons, List.countP_cons, List.countP_cons, ih]
        cases e.isPseudo <;> cases e.success <;> simp <;> omega
    rw [hmatched, sum_countP_rings (r := r) fun e => !e.isPseudo, hsplit, hsuccess, hfailure]
  · rw [hsuccess, ← sum_countP_rings]
    exact congrArg List.sum (List.map_congr_left fun ring _ => successes_eq _)
  · rw [hprovider, ← sum_countP_rings]
    refine congrArg List.sum (List.map_congr_left fun ring _ => ?_)
    rw [PricedRings.attempts, List.countP_filter]
    exact List.countP_congr fun e _ => by rw [Bool.and_comm]

end Tenants

/-! ## Currencies -/

section Currencies

variable {fold : String → String} {r : PricedRings}

/-- The cost of an event was worked out by the table. -/
def PricedAt (fold : String → String) (e : PricedUsage) (table : FxRates) : Prop :=
  ∀ cost, e.cost = some cost → ∃ display model region promptTokens completionTokens,
    cost = costBreakdownWith fold table display model region promptTokens completionTokens

/-- The micro-USD of an event at the table's rate, in millionths of a minor unit. -/
def dueIn (code : String) (e : PricedUsage) (table : FxRates) : ℕ :=
  match e.cost with
  | none => 0
  | some cost =>
    if cost.currency = code then
      cost.microUsd * (table.rates.get code).elim 0 CurrencyRate.minorPerUsd
    else 0

/-- The attempts paid for in a currency. -/
def paidIn (code : String) (events : List PricedUsage) : ℕ :=
  events.countP fun e => e.cost.any fun cost => cost.currency = code

/-- One event, against its micro-USD at the rate: it loses less than one minor unit, unless the
product is held to the bound of a counter. -/
theorem weight_bounds (code : String) {e : PricedUsage} {table : FxRates}
    (hpriced : PricedAt fold e table) :
    Measure.weight e (.currency code) ≤ u64Max / 1000000 ∧
      Measure.weight e (.currency code) * 1000000 ≤ dueIn code e table ∧
      (dueIn code e table ≤ u64Max →
        dueIn code e table ≤ Measure.weight e (.currency code) * 1000000 +
          (if e.cost.any fun cost => cost.currency = code then 1 else 0) * 999999) := by
  cases hc : e.cost with
  | none => simp [Measure.weight, dueIn, hc]
  | some cost =>
    obtain ⟨display, model, region, promptTokens, completionTokens, hcost⟩ := hpriced cost hc
    -- whatever it was worked out from, the cost is at the table's rate
    obtain ⟨rate, hrate, hminor⟩ : ∃ rate, table.rates.get cost.currency = some rate ∧
        cost.minorUnits = Limits.satMul cost.microUsd rate.minorPerUsd / 1000000 := by
      rw [hcost]
      exact ⟨_, table.resolve_mem fold display region, rfl⟩
    by_cases hcode : cost.currency = code
    · subst hcode
      simp only [Measure.weight, dueIn, hc, hrate, Option.elim_some, Option.any_some, if_true,
        decide_true, hminor]
      unfold Limits.satMul
      generalize cost.microUsd * rate.minorPerUsd = product
      -- rounding loses a remainder, and the bound whatever is beyond it
      have hround := Nat.div_add_mod (min product u64Max) 1000000
      have hmod := Nat.mod_lt (min product u64Max) (by omega : 0 < 1000000)
      have hbound : min product u64Max / 1000000 ≤ u64Max / 1000000 :=
        Nat.div_le_div_right (Nat.min_le_right _ _)
      refine ⟨hbound, ?_, ?_⟩
      · have hle := Nat.min_le_left product u64Max
        omega
      · intro hfits
        have hsame := Nat.min_eq_left hfits
        omega
    · simp [Measure.weight, dueIn, hc, hcode]

/-- The minor units of some events, against their micro-USD. By induction on the events, each with
its table. -/
theorem minor_bounds (code : String) {events : List PricedUsage} {tables : List FxRates}
    (hpriced : List.Forall₂ (PricedAt fold) events tables) :
    let minor := (events.map fun e => Measure.weight e (.currency code)).sum
    let due := List.zipWith (dueIn code) events tables
    minor ≤ events.length * (u64Max / 1000000) ∧ minor * 1000000 ≤ due.sum ∧
      ((∀ n ∈ due, n ≤ u64Max) → due.sum ≤ minor * 1000000 + paidIn code events * 999999) := by
  intro minor due
  induction hpriced with
  | nil => simp [minor, due]
  | @cons e table events tables hhead _ ih =>
    obtain ⟨hmost, hunder, hshort⟩ := ih
    obtain ⟨hmost', hunder', hshort'⟩ := weight_bounds code hhead
    have hminor : minor = Measure.weight e (.currency code) +
        (events.map fun e => Measure.weight e (.currency code)).sum := List.sum_cons
    have hdue : due.sum = dueIn code e table + (List.zipWith (dueIn code) events tables).sum :=
      List.sum_cons
    have hpaid : paidIn code (e :: events) =
        paidIn code events + if e.cost.any fun cost => cost.currency = code then 1 else 0 :=
      List.countP_cons
    rw [hminor, hdue, hpaid, List.length_cons, Nat.add_mul events.length 1 _, Nat.one_mul]
    refine ⟨by omega, ?_, fun hfits => ?_⟩
    · rw [Nat.add_mul]
      exact Nat.add_le_add hunder' hunder
    have hone := hshort' (hfits _ List.mem_cons_self)
    have hrest := hshort fun n hn => hfits n (List.mem_cons_of_mem _ hn)
    rw [Nat.add_mul, Nat.add_mul]
    omega

/-- **A total in a currency is that in micro-USD at the rates of the day**, each attempt at the table
in force when it was priced, and never above it. It is short of less than one minor unit for each
attempt paid for in the currency, as long as none comes to more than a counter holds. A currency of
no table has no total. -/
theorem currencies_reconcile {tenantId : Option String} {tables : List FxRates}
    (hpriced : List.Forall₂ (PricedAt fold) (r.attempts tenantId) tables) (code : String) :
    let minor := Measure.ofTotals (r.chargeback tenantId).totals (.currency code)
    let due := List.zipWith (dueIn code) (r.attempts tenantId) tables
    minor * 1000000 ≤ due.sum ∧
      ((∀ n ∈ due, n ≤ u64Max) →
        due.sum ≤ minor * 1000000 + paidIn code (r.attempts tenantId) * 999999) ∧
      ((∀ table ∈ tables, table.rates.get code = none) → minor = 0) := by
  intro minor due
  obtain ⟨hmost, hunder, hshort⟩ := minor_bounds code hpriced
  -- a thousand costs do not reach the bound of a counter
  have hminor : minor =
      ((r.attempts tenantId).map fun e => Measure.weight e (.currency code)).sum := by
    refine (totals_eq r tenantId (.currency code)).trans (Nat.min_eq_left ?_)
    have hmul := Nat.mul_le_mul_right (u64Max / 1000000) (length_attempts_le r tenantId)
    have htotal : ((r.attempts tenantId).map fun e => Measure.weight e (.currency code)).sum ≤
        maxRetainedEvents * (u64Max / 1000000) := hmost.trans hmul
    unfold maxRetainedEvents u64Max at htotal
    unfold u64Max
    omega
  rw [hminor]
  refine ⟨hunder, hshort, fun hnone => ?_⟩
  have hzero : due.sum = 0 := by
    refine List.sum_eq_zero fun n hn => ?_
    have hzip : due = ((r.attempts tenantId).zip tables).map (Function.uncurry (dueIn code)) :=
      List.map_uncurry_zip_eq_zipWith.symm
    rw [hzip] at hn
    obtain ⟨⟨e, table⟩, hmem, rfl⟩ := List.mem_map.1 hn
    unfold Function.uncurry dueIn
    rw [hnone table (List.of_mem_zip hmem).2]
    cases e.cost with
    | none => rfl
    | some cost => exact ite_self _
  have hnothing := hunder.trans_eq hzero
  omega

/-- A call in India, paid for in paise at the rate of the table. -/
def paidInIndia (table : FxRates) : PricedUsage where
  toUsageEvent := .ofSuccess "acme" "prod" "openai" "gpt-4o" 1000 1000 2000 (some "IN") true
  cost := some (costBreakdownWith id table none "gpt-4o" (some "IN") 1000 1000)

/-- The built-in table with another rate for the rupee. -/
def repriced : FxRates := FxRates.builtIn.merged id { rates := [("INR", ⟨9000, 2⟩)] }

/-- One call before the table was replaced, and one after. -/
def twoCalls : PricedRings where
  rings := [{
    tenantId := "acme"
    stored := [(0, paidInIndia .builtIn), (1, paidInIndia repriced)]
    stamped := by simp [paidInIndia, UsageEvent.ofSuccess]
    settled := by simp [paidInIndia, UsageEvent.ofSuccess]
    bounded := by decide }]
  distinct := List.nodup_singleton _

theorem currencies_reconcile_paise :
    let minor := Measure.ofTotals (twoCalls.chargeback (some "acme")).totals (.currency "INR")
    let due :=
      List.zipWith (dueIn "INR") (twoCalls.attempts (some "acme")) [.builtIn, repriced]
    minor * 1000000 ≤ due.sum ∧
      ((∀ n ∈ due, n ≤ u64Max) →
        due.sum ≤ minor * 1000000 + paidIn "INR" (twoCalls.attempts (some "acme")) * 999999) ∧
      ((∀ table ∈ [.builtIn, repriced], table.rates.get "INR" = none) → minor = 0) := by
  have hpriced : ∀ table, PricedAt id (paidInIndia table) table := by
    intro table cost hcost
    exact ⟨none, "gpt-4o", some "IN", 1000, 1000, (Option.some.inj hcost).symm⟩
  have hattempts : twoCalls.attempts (some "acme") = [paidInIndia .builtIn, paidInIndia repriced] :=
    rfl
  have htables : List.Forall₂ (PricedAt id) (twoCalls.attempts (some "acme"))
      [.builtIn, repriced] := by
    rw [hattempts]
    exact .cons (hpriced _) (.cons (hpriced _) .nil)
  exact currencies_reconcile htables "INR"

end Currencies

end Routeplane.Usage
