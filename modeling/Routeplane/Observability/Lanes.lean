import Routeplane.Cache.Capacity
import Routeplane.Lib.Assoc
import Routeplane.Limits.Window
import Routeplane.Observability.UsageEvent
import Mathlib.Data.Fintype.Basic

/-!
# The usage lanes

Requests put usage events into the lane of their tenant; one dispatcher serves the lanes in turn
and keeps the last events of each tenant in a ring. Every atomic operation is a step of its own, so
a run is a list of events in any order.

The retained events are folded into an operational summary of all tenants, and into one tenant's
cache savings over a recent window. The summary leaves the pseudo-providers out: their names start
with a parenthesis.

* `Registry`: the registered tenants and their shares.
* `stepProducer`: the next step of `record_usage`. `stepWriter`: the next step of the dispatcher.
* `apply`: these, `shutdown` and the abort of the dispatcher's task.
* `Rings.usageSummary`: the summary. `Rings.cacheSavings`: the savings of one tenant.
-/

namespace Routeplane.Usage

/-- `INGEST_CHANNEL_CAPACITY`. -/
def ingestChannelCapacity : ℕ := 4096

/-- `MAX_RETAINED_EVENTS`. -/
def maxRetainedEvents : ℕ := 1000

/-- The registered tenants in order, each once. -/
structure Registry where
  tenantIds : List String
  sorted : tenantIds.SortedLT

namespace Registry

def new (tenantIds : List String) : Registry where
  tenantIds := Cache.sortedIds tenantIds
  sorted := Cache.sortedLT_sortedIds tenantIds

variable (reg : Registry)

abbrev tenantCount : ℕ := reg.tenantIds.length

def tenantIndex (tenantId : String) : Option (Fin reg.tenantCount) :=
  reg.tenantIds.finIdxOf? tenantId

def tenantId (k : Fin reg.tenantCount) : String := reg.tenantIds.get k

def ingestShare : Fin reg.tenantCount → ℕ :=
  Cache.partition ingestChannelCapacity reg.tenantCount

def usageShare : Fin reg.tenantCount → ℕ := Cache.partition maxRetainedEvents reg.tenantCount

/-- Whether a tenant has a lane. -/
def active (k : Fin reg.tenantCount) : Bool := 0 < reg.ingestShare k && 0 < reg.usageShare k

/-- The lanes, by their tenants. -/
def writerLanes : List (Fin reg.tenantCount) := (List.finRange reg.tenantCount).filter reg.active

end Registry

/-! ## What is counted -/

inductive DropReason
  | unregisteredTenant
  | zeroShare
  | full
  | closed
  deriving DecidableEq

/-- The counters are 64-bit. -/
structure Counters where
  dropUnregistered : UInt64 := 0
  dropCapacity : UInt64 := 0
  dropClosed : UInt64 := 0
  admissionDrops : DropReason → UInt64 := fun _ => 0
  usageEvictions : UInt64 := 0

def Counters.recordDrop (c : Counters) (reason : DropReason) : Counters :=
  let c := { c with
    admissionDrops := Function.update c.admissionDrops reason (c.admissionDrops reason + 1) }
  match reason with
  | .unregisteredTenant => { c with dropUnregistered := c.dropUnregistered + 1 }
  | .zeroShare | .full => { c with dropCapacity := c.dropCapacity + 1 }
  | .closed => { c with dropClosed := c.dropClosed + 1 }

/-! ## The state -/

/-- An event on its way, with the number of the call that recorded it. -/
structure QueuedUsage where
  call : ℕ
  event : UsageEvent
  deriving DecidableEq

structure StoredUsage where
  sequence : UInt64
  call : ℕ
  event : UsageEvent
  deriving DecidableEq

/-- A tenant's lane with its ring. `history` is all that has been in the ring. -/
structure Lane where
  queue : List QueuedUsage := []
  closed : Bool := false
  /-- The free slots. -/
  slots : ℕ
  scheduled : Bool := false
  ring : List StoredUsage := []
  history : List StoredUsage := []

/-- The event goes into the ring, for the oldest one if there are `share`, and its slot is free. -/
def Lane.retain (lane : Lane) (share : ℕ) (stored : StoredUsage) : Lane :=
  { lane with
    ring := (if share ≤ lane.ring.length then lane.ring.tail else lane.ring) ++ [stored]
    history := lane.history ++ [stored]
    slots := lane.slots + 1 }

/-- What was dropped: the call, whose it was, and why. -/
structure Drop where
  call : ℕ
  tenantId : Option String
  reason : DropReason
  deriving DecidableEq

section

variable (reg : Registry)

/-- Where a call of `record_usage` is. -/
inductive ProducerPhase
  | idle
  /-- About to look whether events are accepted. -/
  | admitting (call : ℕ) (tenantId : Option String) (event : UsageEvent)
  /-- `record_drop`. -/
  | refusing (drop : Drop)
  | reserving (k : Fin reg.tenantCount) (queued : QueuedUsage)
  | sending (k : Fin reg.tenantCount) (queued : QueuedUsage)
  | scheduling (k : Fin reg.tenantCount)
  /-- It has set the flag and is about to send the token. -/
  | signalling (k : Fin reg.tenantCount)
  /-- The token was refused: the flag is about to be cleared. -/
  | unscheduling (k : Fin reg.tenantCount)
  deriving DecidableEq

/-- What an event is dispatched for: a token, or the drain at shutdown. -/
inductive Turn
  | token
  | drain (rest : List (Fin reg.tenantCount))
  deriving DecidableEq

/-- Where the dispatcher is. -/
inductive WriterPhase
  /-- In the `select!`. -/
  | waiting
  | taking (k : Fin reg.tenantCount)
  /-- The token was stale: the flag is about to be cleared. -/
  | stale (k : Fin reg.tenantCount)
  | dispatching (k : Fin reg.tenantCount) (queued : QueuedUsage) (turn : Turn reg)
  | retaining (k : Fin reg.tenantCount) (queued : QueuedUsage) (sequence : UInt64) (turn : Turn reg)
  | clearing (k : Fin reg.tenantCount)
  | rechecking (k : Fin reg.tenantCount)
  | rescheduling (k : Fin reg.tenantCount)
  | signalling (k : Fin reg.tenantCount)
  | unscheduling (k : Fin reg.tenantCount)
  /-- Shutdown: the lanes are closed ... -/
  | closing (rest : List (Fin reg.tenantCount))
  /-- ... and drained, an event of each a round. -/
  | draining (rest : List (Fin reg.tenantCount)) (progressed : Bool)
  | yielding (rest : List (Fin reg.tenantCount))
  /-- The task is over: its receivers are dropped, with what is left in them. -/
  | leaving (rest : List (Fin reg.tenantCount))
  | done
  deriving DecidableEq

end

/-- The shared state, and where each party is in its code. `calls` is how many there were, `dropped`
which of them were dropped. -/
structure State (ι : Type*) (reg : Registry) where
  accepting : Bool
  shutdown : Bool
  lane : Fin reg.tenantCount → Lane
  ready : List (Fin reg.tenantCount)
  readyClosed : Bool
  counters : Counters
  sequence : UInt64
  producer : ι → ProducerPhase reg
  writer : WriterPhase reg
  calls : ℕ
  dropped : List Drop

/-- `ObservabilityEngine::new`. -/
def start (ι : Type*) (reg : Registry) : State ι reg where
  accepting := true
  shutdown := false
  lane k := { slots := reg.ingestShare k }
  ready := []
  readyClosed := false
  counters := {}
  sequence := 0
  producer _ := .idle
  writer := .waiting
  calls := 0
  dropped := []

inductive Event (ι : Type*)
  /-- An idle producer calls `record_usage`. -/
  | record (i : ι) (tenantId : Option String) (event : UsageEvent)
  | step (i : ι)
  | write
  /-- The dispatcher's `select!` takes the change of the shutdown flag. -/
  | notice
  /-- The next store of `shutdown`. -/
  | shutdown
  /-- `shutdown` has waited long enough. -/
  | abort

section Steps

variable {ι : Type*} [DecidableEq ι] {reg : Registry}

namespace State

def goto (s : State ι reg) (i : ι) (phase : ProducerPhase reg) : State ι reg :=
  { s with producer := Function.update s.producer i phase }

omit [DecidableEq ι] in
def setLane (s : State ι reg) (k : Fin reg.tenantCount) (lane : Lane) : State ι reg :=
  { s with lane := Function.update s.lane k lane }

omit [DecidableEq ι] in
def recordDrop (s : State ι reg) (drop : Drop) : State ι reg :=
  { s with counters := s.counters.recordDrop drop.reason, dropped := s.dropped ++ [drop] }

omit [DecidableEq ι] in
/-- A token, if the ready queue takes it. -/
def sendReady (s : State ι reg) (k : Fin reg.tenantCount) : Option (State ι reg) :=
  if s.readyClosed = false ∧ s.ready.length < reg.writerLanes.length then
    some { s with ready := s.ready ++ [k] }
  else none

omit [DecidableEq ι] in
/-- A queued event is dropped: its slot is free again, and its settlement counts it. -/
def abandon (s : State ι reg) (k : Fin reg.tenantCount) (queued : QueuedUsage) : State ι reg :=
  (s.setLane k { s.lane k with slots := (s.lane k).slots + 1 }).recordDrop
    ⟨queued.call, some (reg.tenantId k), .closed⟩

omit [DecidableEq ι] in
/-- `try_retain_queued_usage`, once the ring is not locked. -/
def retain (s : State ι reg) (k : Fin reg.tenantCount) (queued : QueuedUsage) (sequence : UInt64) :
    State ι reg :=
  { s.setLane k ((s.lane k).retain (reg.usageShare k) ⟨sequence, queued.call, queued.event⟩) with
    counters :=
      if reg.usageShare k ≤ (s.lane k).ring.length then
        { s.counters with usageEvictions := s.counters.usageEvictions + 1 }
      else s.counters }

end State

/-- `admit_usage` up to the reservation: whose lane is it? -/
def admitEvent (reg : Registry) (call : ℕ) (tenantId : Option String) (event : UsageEvent) :
    ProducerPhase reg :=
  match tenantId with
  | none => .refusing ⟨call, none, .unregisteredTenant⟩
  | some t =>
    match reg.tenantIndex t with
    | none => .refusing ⟨call, some t, .unregisteredTenant⟩
    | some k =>
      if reg.active k then .reserving k ⟨call, { event with tenantId := t }⟩
      else .refusing ⟨call, some t, .zeroShare⟩

def stepProducer (s : State ι reg) (i : ι) : State ι reg :=
  match s.producer i with
  | .idle => s
  | .admitting call tenantId event =>
    if s.accepting then s.goto i (admitEvent reg call tenantId event)
    else s.goto i (.refusing ⟨call, tenantId, .closed⟩)
  | .refusing drop => (s.recordDrop drop).goto i .idle
  | .reserving k queued =>
    let lane := s.lane k
    if 0 < lane.slots then
      (s.setLane k { lane with slots := lane.slots - 1 }).goto i (.sending k queued)
    else s.goto i (.refusing ⟨queued.call, some (reg.tenantId k), .full⟩)
  | .sending k queued =>
    let lane := s.lane k
    if lane.closed = false ∧ lane.queue.length < reg.ingestShare k then
      (s.setLane k { lane with queue := lane.queue ++ [queued] }).goto i (.scheduling k)
    -- the refused event is dropped with its reservation
    else (s.abandon k queued).goto i .idle
  | .scheduling k =>
    let lane := s.lane k
    if lane.scheduled then s.goto i .idle
    else (s.setLane k { lane with scheduled := true }).goto i (.signalling k)
  | .signalling k =>
    match s.sendReady k with
    | some s => s.goto i .idle
    | none => s.goto i (.unscheduling k)
  | .unscheduling k => (s.setLane k { s.lane k with scheduled := false }).goto i .idle

def stepWriter (s : State ι reg) : State ι reg :=
  match s.writer with
  | .waiting =>
    match s.ready with
    | [] => s
    | k :: rest => { s with ready := rest, writer := .taking k }
  | .taking k =>
    match (s.lane k).queue with
    | [] => { s with writer := .stale k }
    | queued :: rest =>
      { s.setLane k { s.lane k with queue := rest } with writer := .dispatching k queued .token }
  | .stale k =>
    { s.setLane k { s.lane k with scheduled := false } with writer := .waiting }
  | .dispatching k queued turn =>
    { s with sequence := s.sequence + 1, writer := .retaining k queued s.sequence turn }
  | .retaining k queued sequence turn =>
    { s.retain k queued sequence with
      writer := match turn with
        | .token => .clearing k
        | .drain rest => .yielding rest }
  | .clearing k =>
    { s.setLane k { s.lane k with scheduled := false } with writer := .rechecking k }
  | .rechecking k =>
    if (s.lane k).queue.isEmpty then { s with writer := .waiting }
    else { s with writer := .rescheduling k }
  | .rescheduling k =>
    -- If a producer has set the flag in between, the token is the producer's.
    if (s.lane k).scheduled then { s with writer := .waiting }
    else { s.setLane k { s.lane k with scheduled := true } with writer := .signalling k }
  | .signalling k =>
    match s.sendReady k with
    | some s => { s with writer := .waiting }
    | none => { s with writer := .unscheduling k }
  | .unscheduling k =>
    { s.setLane k { s.lane k with scheduled := false } with writer := .waiting }
  | .closing [] => { s with writer := .draining reg.writerLanes false }
  | .closing (k :: rest) =>
    { s.setLane k { s.lane k with closed := true } with writer := .closing rest }
  | .draining [] progressed =>
    { s with
      writer := if progressed then .draining reg.writerLanes false else .leaving reg.writerLanes }
  | .draining (k :: rest) progressed =>
    match (s.lane k).queue with
    | [] => { s with writer := .draining rest progressed }
    | queued :: queue =>
      { s.setLane k { s.lane k with queue := queue } with
        writer := .dispatching k queued (.drain rest) }
  | .yielding rest => { s with writer := .draining rest true }
  | .leaving [] => { s with ready := [], readyClosed := true, writer := .done }
  | .leaving (k :: rest) =>
    let lane := s.lane k
    if lane.closed then
      match lane.queue with
      | [] => { s with writer := .leaving rest }
      | queued :: queue => (s.setLane k { lane with queue := queue }).abandon k queued
    else s.setLane k { lane with closed := true }
  | .done => s

/-- An abort takes effect where the task yields: it drops the event in hand. -/
def abortWriter (s : State ι reg) : State ι reg :=
  match s.writer with
  | .waiting | .yielding _ => { s with writer := .leaving reg.writerLanes }
  | .retaining k queued _ _ => { s.abandon k queued with writer := .leaving reg.writerLanes }
  | _ => s

/-- A call of a producer that is not idle, and a step of a party that is blocked, change nothing. -/
def apply (s : State ι reg) : Event ι → State ι reg
  | .record i tenantId event =>
    match s.producer i with
    | .idle => { s.goto i (.admitting s.calls tenantId event) with calls := s.calls + 1 }
    | _ => s
  | .step i => stepProducer s i
  | .write => stepWriter s
  | .notice =>
    match s.writer, s.shutdown with
    | .waiting, true => { s with writer := .closing reg.writerLanes }
    | _, _ => s
  | .shutdown => if s.accepting then { s with accepting := false } else { s with shutdown := true }
  | .abort => if s.shutdown then abortWriter s else s

end Steps

/-! ## Reports over the retained usage -/

open Limits (satAdd)

/-- What the reports read of an event beside its other fields; the time is in nanoseconds. -/
structure UsageRecord extends UsageEvent where
  timestamp : ℤ := 0
  cacheHit : Option Bool := none
  estimatedSavedCostMicroUsd : Option ℕ := none
  deriving DecidableEq

namespace UsageRecord

/-- An exact or semantic hit; the upstream cost avoided is an estimate. -/
def withCacheHit (e : UsageRecord) (cacheNamespace : Option String) (savedCostMicroUsd : ℕ) :
    UsageRecord :=
  { e with
    cacheHit := some true, cacheStatus := some "hit", cacheNamespace := cacheNamespace
    estimatedSavedCostMicroUsd := some savedCostMicroUsd }

/-- A sentinel in the place of a provider. -/
def isPseudo (e : UsageRecord) : Bool := e.provider.toList.head? = some '('

/-- The sentinel of a cache. -/
def isCacheSentinel (e : UsageRecord) : Bool :=
  e.provider = "(cache)" || e.provider = "(semantic-cache)"

def isHit (e : UsageRecord) : Bool := e.cacheHit = some true

def isServedHit (e : UsageRecord) : Bool := e.isHit || e.isCacheSentinel

/-- A cache verdict was recorded, of any kind. -/
def participated (e : UsageRecord) : Bool := e.cacheHit.isSome

end UsageRecord

/-- The ring of a tenant: a bounded number of events, each stamped with the tenant and numbered. -/
structure Ring where
  tenantId : String
  stored : List (ℕ × UsageRecord)
  stamped : ∀ e ∈ stored, e.2.tenantId = tenantId
  bounded : stored.length ≤ maxRetainedEvents

/-- The rings of the tenants, in the order of the tenants. -/
structure Rings where
  rings : List Ring
  distinct : (rings.map Ring.tenantId).Nodup

/-- A share as a fraction; of nothing it is none. -/
def rate (part whole : ℕ) : Float :=
  if 0 < whole then part.toUInt64.toFloat / whole.toUInt64.toFloat else 0

structure UsageSummary where
  window : ℕ := 0
  successCount : ℕ := 0
  failureCount : ℕ := 0
  successRate : Float := 0
  byProvider : Assoc String ℕ := []
  guardrailBlockCount : ℕ := 0
  sovereignBlockCount : ℕ := 0
  cacheHitCount : ℕ := 0
  cacheParticipatingCount : ℕ := 0
  cacheHitRate : Float := 0

namespace UsageSummary

/-- Blocks are told by their error, of whatever provider. -/
def addBlock (s : UsageSummary) (e : UsageRecord) : UsageSummary :=
  if e.error = some "guardrails_denied" then
    { s with guardrailBlockCount := s.guardrailBlockCount + 1 }
  else if e.error = some "sovereign_block" then
    { s with sovereignBlockCount := s.sovereignBlockCount + 1 }
  else s

def addCall (s : UsageSummary) (e : UsageRecord) : UsageSummary :=
  { s with
    byProvider := s.byProvider.insert e.provider ((s.byProvider.get e.provider).getD 0 + 1)
    successCount := if e.success then s.successCount + 1 else s.successCount
    failureCount := if e.success then s.failureCount else s.failureCount + 1
    cacheParticipatingCount :=
      if e.participated then s.cacheParticipatingCount + 1 else s.cacheParticipatingCount
    cacheHitCount := if e.isHit then s.cacheHitCount + 1 else s.cacheHitCount }

/-- A pseudo-provider's event is no call. -/
def add (s : UsageSummary) (e : UsageRecord) : UsageSummary :=
  let s := s.addBlock e
  if e.isPseudo then s else s.addCall e

def withRates (s : UsageSummary) : UsageSummary :=
  { s with
    successRate := rate s.successCount (s.successCount + s.failureCount)
    cacheHitRate := rate s.cacheHitCount s.cacheParticipatingCount }

end UsageSummary

structure CacheSavingsReport where
  windowSecs : ℤ
  cacheHits : ℕ := 0
  cacheableLookups : ℕ := 0
  savedCostMicroUsd : ℕ := 0
  savedTokens : ℕ := 0
  deriving DecidableEq, Repr

namespace CacheSavingsReport

def addHit (r : CacheSavingsReport) (e : UsageRecord) : CacheSavingsReport :=
  { r with
    cacheHits := satAdd r.cacheHits 1
    savedCostMicroUsd := satAdd r.savedCostMicroUsd (e.estimatedSavedCostMicroUsd.getD 0)
    savedTokens := satAdd (satAdd r.savedTokens e.totalTokens.toNat) (e.cachedTokens.getD 0).toNat }

def add (r : CacheSavingsReport) (e : UsageRecord) : CacheSavingsReport :=
  let r :=
    if e.participated then { r with cacheableLookups := satAdd r.cacheableLookups 1 } else r
  if e.isServedHit then r.addHit e else r

end CacheSavingsReport

def nanosPerSec : ℤ := 1000000000

/-- The seconds of a window, at least one. -/
def windowSeconds (window : ℤ) : ℤ := max (window.tdiv nanosPerSec) 1

/-- The recent window, its start included and its end not. -/
def inWindow (now window : ℤ) (e : UsageRecord) : Bool :=
  now - windowSeconds window * nanosPerSec ≤ e.timestamp && e.timestamp < now

namespace Rings

variable (r : Rings)

/-- All retained events, in the order they were numbered. -/
def getRecentEvents : List UsageRecord :=
  ((r.rings.flatMap Ring.stored).mergeSort fun a b => a.1 ≤ b.1).map (·.2)

/-- The events of one tenant, by their stamp. -/
def recentEventsOwned (tenantId : Option String) : List UsageRecord :=
  match tenantId.bind fun id => r.rings.find? fun ring => ring.tenantId = id with
  | none => []
  | some ring => (ring.stored.map (·.2)).filter fun e => e.tenantId = ring.tenantId

def usageSummary : UsageSummary :=
  (r.getRecentEvents.foldl UsageSummary.add { window := r.getRecentEvents.length }).withRates

def cacheSavings (tenantId : Option String) (now window : ℤ) : CacheSavingsReport :=
  ((r.recentEventsOwned tenantId).filter (inWindow now window)).foldl CacheSavingsReport.add
    { windowSecs := windowSeconds window }

end Rings

end Routeplane.Usage
