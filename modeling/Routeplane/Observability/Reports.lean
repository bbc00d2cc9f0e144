import Routeplane.Lib.Rollup
import Routeplane.Limits.Pricing
import Routeplane.Observability.Lanes

/-!
# Reports on one tenant

The retained events of a tenant, folded into what it was charged and for what, a series over a
recent window, percentiles of the latency, rows of its log, and a summary and a ledger of where its
requests were kept. A report reads the tenant's own events only.

Events of pseudo-providers are no attempts of a provider and are left out, except in the log and in
the reports on residency, where a refusal counts.

* `PricedRings.chargeback`: the totals, by model, by key and by use case.
* `PricedRings.usageTimeseries`: the series, in buckets of one width.
* `LatencyPercentiles.fromSamples`: percentiles by nearest rank.
* `PricedRings.recentEvents`: the rows of the log.
* `PricedRings.residencyReport`: the summary and the ledger.
-/

namespace Routeplane.Usage

open Limits (satAdd)

inductive Verdict
  | pass
  | fail
  | error
  deriving DecidableEq, Repr

/-- The result of one guardrail check, with what a report shows of it. -/
structure CheckOutcome where
  id : String
  verdict : Verdict
  deriving DecidableEq, Repr

/-- An event with its cost, and the checks it passed through. -/
structure PricedUsage extends UsageRecord where
  cost : Option CostBreakdown := none
  guardrails : Option (List CheckOutcome) := none
  deriving DecidableEq

/-- The ring of a tenant, its events with their costs. No event is made as a success with an
error. -/
structure PricedRing where
  tenantId : String
  stored : List (ℕ × PricedUsage)
  stamped : ∀ e ∈ stored, e.2.tenantId = tenantId
  settled : ∀ e ∈ stored, e.2.success → e.2.error = none
  bounded : stored.length ≤ maxRetainedEvents

def PricedRing.toRing (ring : PricedRing) : Ring where
  tenantId := ring.tenantId
  stored := ring.stored.map fun e => (e.1, e.2.toUsageRecord)
  stamped e he := by
    obtain ⟨entry, hentry, rfl⟩ := List.mem_map.1 he
    exact ring.stamped entry hentry
  bounded := by
    rw [List.length_map]
    exact ring.bounded

structure PricedRings where
  rings : List PricedRing
  distinct : (rings.map PricedRing.tenantId).Nodup

def PricedRings.toRings (r : PricedRings) : Rings where
  rings := r.rings.map PricedRing.toRing
  distinct := by
    rw [List.map_map]
    exact r.distinct

/-- The events of one tenant, oldest first. -/
def PricedRings.recentEventsOwned (r : PricedRings) (tenantId : Option String) : List PricedUsage :=
  match tenantId.bind fun id => r.rings.find? fun ring => ring.tenantId = id with
  | none => []
  | some ring => (ring.stored.map (·.2)).filter fun e => e.tenantId = ring.tenantId

/-! ## Latency -/

structure LatencyPercentiles where
  count : ℕ := 0
  p50Ms : Option ℕ := none
  p95Ms : Option ℕ := none
  p99Ms : Option ℕ := none
  maxMs : Option ℕ := none
  deriving DecidableEq, Repr

/-- The rank of a percentile, from one to the number of samples. -/
def nearestRank (p count : ℕ) : ℕ := min (max ((p * count + 99) / 100) 1) count

def LatencyPercentiles.fromSamples (samples : List ℕ) : LatencyPercentiles :=
  let count := samples.length
  if count = 0 then {}
  else
    let sorted := samples.mergeSort (· ≤ ·)
    let nearest (p : ℕ) : ℕ := sorted.getD (nearestRank p count - 1) 0
    ⟨count, some (nearest 50), some (nearest 95), some (nearest 99), some (sorted.getD (count - 1) 0)⟩

/-- The sample an event gives, if it was timed. -/
def PricedUsage.samples (e : PricedUsage) : List ℕ := e.latencyMs.toList

/-- The sample of a timed event, added to those of its provider. -/
def addSamples : Assoc String (List ℕ) → PricedUsage → Assoc String (List ℕ) :=
  Rollup.put (fun e => e.latencyMs.map fun _ => e.provider) (fun samples e => samples ++ e.samples) []

structure LatencyReport where
  overall : LatencyPercentiles
  byProvider : Assoc String LatencyPercentiles
  deriving DecidableEq, Repr

/-! ## Chargeback -/

structure ChargebackTotals where
  requests : ℕ := 0
  successfulRequests : ℕ := 0
  promptTokens : ℕ := 0
  completionTokens : ℕ := 0
  totalTokens : ℕ := 0
  costMicroUsd : ℕ := 0
  costByCurrency : Assoc String ℕ := []
  deriving DecidableEq, Repr

namespace ChargebackTotals

def addCost (t : ChargebackTotals) (cost : CostBreakdown) : ChargebackTotals :=
  { t with
    costMicroUsd := satAdd t.costMicroUsd cost.microUsd
    costByCurrency := t.costByCurrency.insert cost.currency
      (satAdd ((t.costByCurrency.get cost.currency).getD 0) cost.minorUnits) }

def accumulate (t : ChargebackTotals) (e : PricedUsage) : ChargebackTotals :=
  let t := { t with
    requests := satAdd t.requests 1
    successfulRequests :=
      if e.success then satAdd t.successfulRequests 1 else t.successfulRequests
    promptTokens := satAdd t.promptTokens e.promptTokens.toNat
    completionTokens := satAdd t.completionTokens e.completionTokens.toNat
    totalTokens := satAdd t.totalTokens e.totalTokens.toNat }
  match e.cost with
  | some cost => t.addCost cost
  | none => t

end ChargebackTotals

structure ChargebackReport where
  window : ℕ
  eventsMatched : ℕ := 0
  totals : ChargebackTotals := {}
  byModel : Assoc String ChargebackTotals := []
  byKey : Assoc String ChargebackTotals := []
  byUseCase : Assoc String ChargebackTotals := []
  latency : LatencyPercentiles := {}
  deriving DecidableEq, Repr

/-- Fold an event into the group of its label. -/
def addTo (label : PricedUsage → Option String) :
    Assoc String ChargebackTotals → PricedUsage → Assoc String ChargebackTotals :=
  Rollup.put label ChargebackTotals.accumulate {}

def ChargebackReport.add (r : ChargebackReport) (e : PricedUsage) : ChargebackReport :=
  { r with
    eventsMatched := r.eventsMatched + 1
    totals := r.totals.accumulate e
    byModel := addTo (fun e => some e.model) r.byModel e
    byKey := addTo (fun e => some e.virtualKeyName) r.byKey e
    byUseCase := addTo (fun e => e.useCase) r.byUseCase e }

/-! ## Series -/

structure TimeseriesBucket where
  /-- When the bucket starts. -/
  ts : ℤ
  requests : ℕ := 0
  errors : ℕ := 0
  costMicroUsd : ℕ := 0
  tokens : ℕ := 0
  avgLatencyMs : ℕ := 0
  latencySumMs : ℕ := 0
  latencySamples : ℕ := 0
  deriving DecidableEq, Repr

namespace TimeseriesBucket

def add (b : TimeseriesBucket) (e : PricedUsage) : TimeseriesBucket :=
  let b := { b with
    requests := satAdd b.requests 1
    errors := if e.success then b.errors else satAdd b.errors 1
    tokens := satAdd b.tokens e.totalTokens.toNat
    costMicroUsd := match e.cost with
      | some cost => satAdd b.costMicroUsd cost.microUsd
      | none => b.costMicroUsd }
  match e.latencyMs with
  | some ms =>
    { b with latencySumMs := satAdd b.latencySumMs ms, latencySamples := satAdd b.latencySamples 1 }
  | none => b

def withAverage (b : TimeseriesBucket) : TimeseriesBucket :=
  { b with avgLatencyMs := b.latencySumMs / b.latencySamples }

end TimeseriesBucket

structure UsageTimeseries where
  windowSecs : ℤ
  bucketSecs : ℤ
  totalEventsInWindow : ℕ
  buckets : List TimeseriesBucket
  deriving DecidableEq, Repr

/-- Where the buckets of a series lie: they end now and are of one width, in whole seconds. -/
structure Grid where
  now : ℤ
  bucketSecs : ℤ
  bucketCount : ℕ

namespace Grid

def ofWindow (now window : ℤ) (bucketCount : ℕ) : Grid :=
  let bucketCount := max bucketCount 1
  ⟨now, max (windowSeconds window / bucketCount) 1, bucketCount⟩

variable (g : Grid)

def windowSecs : ℤ := g.bucketSecs * g.bucketCount

def start : ℤ := g.now - g.windowSecs * nanosPerSec

/-- When a bucket starts. -/
def tick (i : ℕ) : ℤ := g.start + g.bucketSecs * i * nanosPerSec

def covers (timestamp : ℤ) : Bool := g.start ≤ timestamp && timestamp < g.now

/-- The bucket of a time, before it is held to the buckets there are. -/
def rawIndex (timestamp : ℤ) : ℤ :=
  ((timestamp - g.start).tdiv nanosPerSec) / g.bucketSecs

def index (timestamp : ℤ) : ℕ := (max 0 (min (g.rawIndex timestamp) (g.bucketCount - 1))).toNat

def emptyBuckets : List TimeseriesBucket := (List.range g.bucketCount).map fun i => { ts := g.tick i }

end Grid

/-! ## Log -/

inductive LogOutcome
  | success
  | error
  | blocked
  deriving DecidableEq, Repr

structure GuardrailLabel where
  id : String
  verdict : String
  deriving DecidableEq, Repr

structure LogRow where
  id : String
  requestId : Option String
  timestamp : ℤ
  virtualKeyName : String
  provider : String
  model : String
  outcome : LogOutcome
  error : Option String
  promptTokens : UInt32
  completionTokens : UInt32
  totalTokens : UInt32
  latencyMs : Option ℕ
  costMicroUsd : Option ℕ
  region : Option String
  sovereignRouted : Bool
  cacheStatus : Option String
  guardrails : Option (List GuardrailLabel)
  useCase : Option String
  deriving DecidableEq, Repr

/-- FNV-1a. -/
def mix (hash : UInt64) (bytes : List UInt8) : UInt64 :=
  bytes.foldl (fun h b => (h ^^^ b.toUInt64) * 0x100000001b3) hash

/-- The eight bytes of a 64-bit word, the lowest first. -/
def leBytes (w : BitVec 64) : List UInt8 :=
  (List.range 8).map fun i => UInt8.ofBitVec ((w >>> (8 * i)).truncate 8)

/-- Sixteen digits. -/
def hexText (h : UInt64) : String :=
  String.ofList ((List.range 16).reverse.map fun i => Nat.digitChar (h.toNat / 16 ^ i % 16))

/-- The nanoseconds of a time as an `i64`, zero when they do not fit. -/
def timestampNanos (timestamp : ℤ) : ℤ :=
  if -2 ^ 63 ≤ timestamp ∧ timestamp < 2 ^ 63 then timestamp else 0

/-- What a row is told by: the ring keeps no id. -/
def synthesizeId (e : UsageRecord) : String :=
  let h := mix 0xcbf29ce484222325 (leBytes (BitVec.ofInt 64 (timestampNanos e.timestamp)))
  let h := mix h e.virtualKeyName.toUTF8.toList
  let h := mix h e.provider.toUTF8.toList
  "log_" ++ hexText (mix h e.model.toUTF8.toList)

namespace UsageRecord

/-- An event that joins others is no request. -/
def isLoggedAttempt (e : UsageRecord) : Bool :=
  e.provider ≠ "(prompt_render)" && e.provider ≠ "(feedback)"

def logOutcome (e : UsageRecord) : LogOutcome :=
  if e.success then .success
  else if e.error = some "sovereign_block" ∨ e.error = some "guardrails_denied" then .blocked
  else .error

end UsageRecord

def Verdict.label : Verdict → String
  | .pass => "pass"
  | .fail => "fail"
  | .error => "error"

/-- A row has the labels of the checks and no more of them. -/
def LogRow.fromEvent (e : PricedUsage) : LogRow where
  id := synthesizeId e.toUsageRecord
  requestId := e.requestId
  timestamp := e.timestamp
  virtualKeyName := e.virtualKeyName
  provider := e.provider
  model := e.model
  outcome := e.logOutcome
  error := e.error
  promptTokens := e.promptTokens
  completionTokens := e.completionTokens
  totalTokens := e.totalTokens
  latencyMs := e.latencyMs
  costMicroUsd := e.cost.map CostBreakdown.microUsd
  region := e.region
  sovereignRouted := e.sovereignRouted
  cacheStatus := e.cacheStatus
  guardrails := e.guardrails.map fun outs => outs.map fun o => ⟨o.id, o.verdict.label⟩
  useCase := e.useCase

/-! ## Residency -/

inductive ResidencyOutcome
  | residencyBlocked
  | allFailed
  | sovereignRouted
  | notRegulated
  deriving DecidableEq, Repr

def ResidencyOutcome.label : ResidencyOutcome → String
  | .residencyBlocked => "residency_blocked"
  | .allFailed => "all_failed"
  | .sovereignRouted => "sovereign_routed"
  | .notRegulated => "not_regulated"

namespace UsageRecord

def isRegulated (e : UsageRecord) : Bool := e.region.isSome || e.sovereignRouted

def residencyOutcome (e : UsageRecord) : ResidencyOutcome :=
  if e.error = some "sovereign_block" then .residencyBlocked
  else if e.success then if e.sovereignRouted then .sovereignRouted else .notRegulated
  else if e.isRegulated then .allFailed
  else .notRegulated

end UsageRecord

structure ResidencySummaryView where
  window : ℕ := 0
  total : ℕ := 0
  regulatedCount : ℕ := 0
  sovereignRoutedCount : ℕ := 0
  blockedCount : ℕ := 0
  allFailedCount : ℕ := 0
  regulatedPct : Float := 0
  sovereignRoutedPct : Float := 0
  blockedPct : Float := 0
  allFailedPct : Float := 0
  byRegion : Assoc String ℕ := []
  byOutcome : Assoc String ℕ := []

/-- Count an item under its key. -/
def countUnder {α : Type} (key : α → String) : Assoc String ℕ → α → Assoc String ℕ :=
  Rollup.put (fun a => some (key a)) (fun n _ => n + 1) 0

namespace ResidencySummaryView

def addOutcome (s : ResidencySummaryView) : ResidencyOutcome → ResidencySummaryView
  | .sovereignRouted => { s with sovereignRoutedCount := s.sovereignRoutedCount + 1 }
  | .residencyBlocked => { s with blockedCount := s.blockedCount + 1 }
  | .allFailed => { s with allFailedCount := s.allFailedCount + 1 }
  | .notRegulated => s

def add (s : ResidencySummaryView) (e : UsageRecord) : ResidencySummaryView :=
  let s := { s with
    total := s.total + 1
    regulatedCount := if e.isRegulated then s.regulatedCount + 1 else s.regulatedCount }
  let s := s.addOutcome e.residencyOutcome
  { s with
    byRegion := countUnder (fun e : UsageRecord => e.region.getD "none") s.byRegion e
    byOutcome := countUnder (fun e : UsageRecord => e.residencyOutcome.label) s.byOutcome e }

def finalize (s : ResidencySummaryView) : ResidencySummaryView :=
  { s with
    regulatedPct := rate s.regulatedCount s.total
    sovereignRoutedPct := rate s.sovereignRoutedCount s.total
    blockedPct := rate s.blockedCount s.total
    allFailedPct := rate s.allFailedCount s.total }

end ResidencySummaryView

structure ResidencyLedgerRow where
  id : String
  timestamp : ℤ
  /-- Residency applied to the request. -/
  regulated : Bool
  requiredRegion : Option String
  routedRegion : Option String
  outcome : ResidencyOutcome
  model : String
  virtualKeyName : String
  deriving DecidableEq, Repr

def ResidencyLedgerRow.ofEvent (e : UsageRecord) : ResidencyLedgerRow where
  id := synthesizeId e
  timestamp := e.timestamp
  regulated := e.isRegulated
  requiredRegion := e.region
  routedRegion := if e.sovereignRouted && e.success then e.region else none
  outcome := e.residencyOutcome
  model := e.model
  virtualKeyName := e.virtualKeyName

/-! ## The reports -/

namespace PricedRings

variable (r : PricedRings) (tenantId : Option String)

/-- Each timed attempt gives a sample, overall and to its provider. -/
def latencyStats : LatencyReport :=
  let (overall, perProvider) := (r.recentEventsOwned tenantId).foldl
    (fun (acc : List ℕ × Assoc String (List ℕ)) e =>
      if e.isPseudo then acc else (acc.1 ++ e.samples, addSamples acc.2 e))
    ([], [])
  ⟨.fromSamples overall, perProvider.map fun p => (p.1, .fromSamples p.2)⟩

def chargeback : ChargebackReport :=
  let events := r.recentEventsOwned tenantId
  let (report, latencies) := events.foldl
    (fun (acc : ChargebackReport × List ℕ) e =>
      if e.isPseudo then acc else (acc.1.add e, acc.2 ++ e.samples))
    ({ window := events.length }, [])
  { report with latency := .fromSamples latencies }

def usageTimeseries (now window : ℤ) (bucketCount : ℕ) : UsageTimeseries :=
  let g := Grid.ofWindow now window bucketCount
  let (buckets, total) := (r.recentEventsOwned tenantId).foldl
    (fun (acc : List TimeseriesBucket × ℕ) e =>
      if e.isPseudo then acc
      else if g.covers e.timestamp then
        (acc.1.modify (g.index e.timestamp) (·.add e), satAdd acc.2 1)
      else acc)
    (g.emptyBuckets, 0)
  ⟨g.windowSecs, g.bucketSecs, total, buckets.map TimeseriesBucket.withAverage⟩

/-- The newest rows first, not more than the limit. -/
def recentEvents (limit : ℕ) : List LogRow :=
  (((r.recentEventsOwned tenantId).reverse.filter fun e => e.isLoggedAttempt).take limit).map
    LogRow.fromEvent

def residencyReport (limit : ℕ) : ResidencySummaryView × List ResidencyLedgerRow :=
  let events := r.recentEventsOwned tenantId
  let (summary, rows) := events.reverse.foldl
    (fun (acc : ResidencySummaryView × List ResidencyLedgerRow) e =>
      if e.isLoggedAttempt then
        (acc.1.add e.toUsageRecord,
          if acc.2.length < limit then acc.2 ++ [.ofEvent e.toUsageRecord] else acc.2)
      else acc)
    ({ window := events.length }, [])
  (summary.finalize, rows)

end PricedRings

end Routeplane.Usage
