import Routeplane.Cache.Capacity
import Mathlib.Data.Fintype.Basic
import Mathlib.Data.PNat.Notation

/-!
# The writer lanes of the exact cache

Callers put inserts and flush barriers into the lane of a tenant; one writer serves the lanes in
turn. Every atomic operation on a lane, a flag, a counter or the ready queue is a step of its own,
so a run is a list of events in any order.

* `stepCaller`: the next step of `try_insert` or `flush`.
* `stepWriter`: the next step of the writer's loop.
-/

namespace Routeplane.Cache.Lanes

open Limits (satMul u64Max)

/-- What is asked to be inserted. -/
structure CacheWrite where
  key : CacheKey
  body : List UInt8
  ttlSeconds : ℕ
  model : String
  promptTokens : UInt32
  completionTokens : UInt32
  totalTokens : UInt32

def CacheWrite.entry (write : CacheWrite) (insertedAtMs : ℕ) : CacheEntry where
  body := write.body
  model := write.model
  promptTokens := write.promptTokens
  completionTokens := write.completionTokens
  totalTokens := write.totalTokens
  insertedAtMs := insertedAtMs
  ttlMs := satMul write.ttlSeconds 1000

/-- A barrier carries the acknowledgement channel of the caller that flushes. -/
inductive LaneOp (ι : Type*)
  | insert (key : CacheKey) (entry : CacheEntry)
  | barrier (caller : ι)
  deriving DecidableEq

/-- The bytes an operation holds of the lane's budget. -/
def LaneOp.cost {ι : Type*} : LaneOp ι → ℕ
  | insert _ entry => entry.cost
  | barrier _ => 0

/-- `fetch_sub` on a 64-bit counter: it wraps. -/
def fetchSub (counter n : ℕ) : ℕ := (counter + 2 ^ 64 - n) % 2 ^ 64

/-- What a caller schedules its lane for: the end of `try_insert`, or a lane of `flush`. -/
inductive Errand
  | insert
  | flush (next : ℕ)
  deriving DecidableEq

/-- Where a caller is. -/
inductive CallerPhase (plan : TenantCapacityPlan)
  | idle
  /-- `reserve_bytes` is about to load the counter ... -/
  | loading (k : Fin plan.tenantCount) (key : CacheKey) (entry : CacheEntry)
  /-- ... and to swap in the sum with what it has seen. -/
  | reserving (k : Fin plan.tenantCount) (key : CacheKey) (entry : CacheEntry) (current : ℕ)
  | sending (k : Fin plan.tenantCount) (key : CacheKey) (entry : CacheEntry)
  /-- The lane was full: the insert is about to be dropped. -/
  | refused (k : Fin plan.tenantCount) (key : CacheKey) (entry : CacheEntry)
  | scheduling (k : Fin plan.tenantCount) (errand : Errand)
  /-- It has set the flag and is about to send the token. -/
  | signalling (k : Fin plan.tenantCount) (errand : Errand)
  /-- The ready queue was full: the flag is about to be cleared. -/
  | unscheduling (k : Fin plan.tenantCount) (errand : Errand)
  /-- `flush` has put a barrier into the lanes before `next`. -/
  | flushing (next : ℕ)
  | waiting (remaining : ℕ)
  deriving DecidableEq

/-- Where the writer is: in `try_next`, or at the lane of its turn. -/
inductive WriterPhase (ι : Type*) (plan : TenantCapacityPlan)
  /-- `collect_newly_ready`. -/
  | merging
  | choosing
  /-- Blocked on the ready queue. -/
  | waiting
  /-- `take_ready`. -/
  | taking (k : Fin plan.tenantCount)
  /-- The token was stale: the flag is about to be cleared. -/
  | stale (k : Fin plan.tenantCount)
  | applying (k : Fin plan.tenantCount) (op : LaneOp ι)
  | dropping (k : Fin plan.tenantCount) (op : LaneOp ι)
  /-- `finish_turn`: is there more in the lane? -/
  | finishing (k : Fin plan.tenantCount)
  | clearing (k : Fin plan.tenantCount)
  | rechecking (k : Fin plan.tenantCount)
  | rescheduling (k : Fin plan.tenantCount)
  deriving DecidableEq

/-- The shared state, and where each party is in its code. The last three fields are the history of
each lane: what it accepted, what the writer applied, and what it has let go. -/
structure State (ι : Type*) (plan : TenantCapacityPlan) where
  lanes : Fin plan.tenantCount → List (LaneOp ι)
  scheduled : Fin plan.tenantCount → Bool
  queuedBytes : Fin plan.tenantCount → ℕ
  ready : List (Fin plan.tenantCount)
  localReady : List (Fin plan.tenantCount)
  pending : Fin plan.tenantCount → Option (LaneOp ι)
  core : CacheCore plan
  acks : ι → ℕ
  caller : ι → CallerPhase plan
  writer : WriterPhase ι plan
  accepted : Fin plan.tenantCount → List (LaneOp ι)
  applied : Fin plan.tenantCount → List (LaneOp ι)
  finished : Fin plan.tenantCount → List (LaneOp ι)

/-- `WriteAdmission::new`. -/
def start (ι : Type*) (plan : TenantCapacityPlan) : State ι plan where
  lanes _ := []
  scheduled _ := false
  queuedBytes _ := 0
  ready := []
  localReady := []
  pending _ := none
  core := .withCapacity plan
  acks _ := 0
  caller _ := .idle
  writer := .merging
  accepted _ := []
  applied _ := []
  finished _ := []

inductive Event (ι : Type*)
  /-- An idle caller calls `insert`. -/
  | insert (i : ι) (write : CacheWrite) (now : ℕ)
  /-- An idle caller calls `flush`. -/
  | flush (i : ι)
  | step (i : ι)
  | write (now : ℕ)

section Steps

variable {ι : Type*} [DecidableEq ι] {plan : TenantCapacityPlan}

def State.goto (s : State ι plan) (i : ι) (phase : CallerPhase plan) : State ι plan :=
  { s with caller := Function.update s.caller i phase }

/-- A lane takes an operation at its end. -/
def State.send (s : State ι plan) (k : Fin plan.tenantCount) (op : LaneOp ι) : State ι plan :=
  { s with
    lanes := Function.update s.lanes k (s.lanes k ++ [op])
    accepted := Function.update s.accepted k (s.accepted k ++ [op]) }

def State.dropWrite (s : State ι plan) : State ι plan :=
  { s with core := { s.core with writeDrops := s.core.writeDrops + 1 } }

/-- Where a caller goes from `schedule`. -/
def Errand.next : Errand → CallerPhase plan
  | insert => .idle
  | flush next => .flushing (next + 1)

/-- `try_insert` up to the reservation. -/
def beginInsert (s : State ι plan) (i : ι) (write : CacheWrite) (now : ℕ) : State ι plan :=
  match plan.tenantIndex write.key.tenantId with
  | none => s.dropWrite
  | some k =>
    let entry := write.entry now
    if maxEntryBytes < entry.body.length ∨
        min (plan.storageBudgets k) (plan.writerBudgets k) < entry.cost then
      { s with core := { s.core with oversizeDrops := s.core.oversizeDrops + 1 } }
    else s.goto i (.loading k write.key entry)

variable (laneCapacity : ℕ+)

def stepCaller (s : State ι plan) (i : ι) : State ι plan :=
  match s.caller i with
  | .idle => s
  | .loading k key entry => s.goto i (.reserving k key entry (s.queuedBytes k))
  | .reserving k key entry current =>
    if u64Max < current + entry.cost ∨ plan.writerBudgets k < current + entry.cost then
      s.dropWrite.goto i .idle
    else if s.queuedBytes k = current then
      { s with
        queuedBytes := Function.update s.queuedBytes k (current + entry.cost) }.goto i
          (.sending k key entry)
    -- A swap that fails spuriously observes `current` again and changes nothing.
    else s.goto i (.reserving k key entry (s.queuedBytes k))
  | .sending k key entry =>
    if (s.lanes k).length < laneCapacity then
      (s.send k (.insert key entry)).goto i (.scheduling k .insert)
    else s.goto i (.refused k key entry)
  | .refused k _ entry =>
    { s with
      queuedBytes := Function.update s.queuedBytes k
        (fetchSub (s.queuedBytes k) entry.cost) }.dropWrite.goto i .idle
  | .scheduling k errand =>
    if s.scheduled k then s.goto i errand.next
    else
      { s with scheduled := Function.update s.scheduled k true }.goto i (.signalling k errand)
  | .signalling k errand =>
    if s.ready.length < plan.tenantCount + 1 then
      { s with ready := s.ready ++ [k] }.goto i errand.next
    else s.goto i (.unscheduling k errand)
  | .unscheduling k errand =>
    { s with scheduled := Function.update s.scheduled k false }.goto i errand.next
  | .flushing next =>
    if h : next < plan.tenantCount then
      -- A full lane blocks the caller.
      if (s.lanes ⟨next, h⟩).length < laneCapacity then
        (s.send ⟨next, h⟩ (.barrier i)).goto i (.scheduling ⟨next, h⟩ (.flush next))
      else s
    else s.goto i (.waiting plan.tenantCount)
  | .waiting remaining =>
    if remaining = 0 then s.goto i .idle
    else if s.acks i = 0 then s
    else
      { s with acks := Function.update s.acks i (s.acks i - 1) }.goto i (.waiting (remaining - 1))

variable (shard : CacheKey → Fin cacheShardCount)

def LaneOp.applyTo (now : ℕ) : LaneOp ι → CacheCore plan → CacheCore plan
  | insert key entry, core => core.applyInsert shard key entry now
  | barrier _, core => core

omit [DecidableEq ι] in
/-- `ReservedInsert::drop`; a barrier holds nothing. -/
def LaneOp.dropFrom : LaneOp ι → ℕ → ℕ
  | insert _ entry, counter => fetchSub counter entry.cost
  | barrier _, counter => counter

/-- The acknowledgement channel has room for every lane, so the writer never waits for a caller. -/
def LaneOp.ack : LaneOp ι → (ι → ℕ) → ι → ℕ
  | insert _ _, acks => acks
  | barrier i, acks => Function.update acks i (acks i + 1)

def stepWriter (now : ℕ) (s : State ι plan) : State ι plan :=
  match s.writer with
  | .merging =>
    match s.ready with
    | [] => { s with writer := .choosing }
    | k :: rest => { s with ready := rest, localReady := s.localReady ++ [k] }
  | .choosing =>
    match s.localReady with
    | [] => { s with writer := .waiting }
    | k :: rest => { s with localReady := rest, writer := .taking k }
  | .waiting =>
    match s.ready with
    | [] => s
    | k :: rest =>
      { s with ready := rest, localReady := s.localReady ++ [k], writer := .merging }
  | .taking k =>
    match s.pending k with
    | some op =>
      { s with pending := Function.update s.pending k none, writer := .applying k op }
    | none =>
      match s.lanes k with
      | [] => { s with writer := .stale k }
      | op :: rest =>
        { s with lanes := Function.update s.lanes k rest, writer := .applying k op }
  | .stale k =>
    { s with scheduled := Function.update s.scheduled k false, writer := .merging }
  | .applying k op =>
    { s with
      core := op.applyTo shard now s.core
      acks := op.ack s.acks
      applied := Function.update s.applied k (s.applied k ++ [op])
      writer := .dropping k op }
  | .dropping k op =>
    { s with
      queuedBytes := Function.update s.queuedBytes k (op.dropFrom (s.queuedBytes k))
      finished := Function.update s.finished k (s.finished k ++ [op])
      writer := .finishing k }
  | .finishing k =>
    match s.lanes k with
    | [] => { s with writer := .clearing k }
    | op :: rest =>
      { s with
        lanes := Function.update s.lanes k rest
        pending := Function.update s.pending k (some op)
        localReady := s.localReady ++ [k]
        writer := .merging }
  | .clearing k =>
    { s with scheduled := Function.update s.scheduled k false, writer := .rechecking k }
  | .rechecking k =>
    match s.lanes k with
    | [] => { s with writer := .merging }
    | op :: rest =>
      { s with
        lanes := Function.update s.lanes k rest
        pending := Function.update s.pending k (some op)
        writer := .rescheduling k }
  | .rescheduling k =>
    -- If a producer has set the flag in between, the token is the producer's.
    if s.scheduled k then { s with writer := .merging }
    else
      { s with
        scheduled := Function.update s.scheduled k true
        localReady := s.localReady ++ [k]
        writer := .merging }

/-- A call of a caller that is not idle, and a step of a party that is blocked, change nothing. -/
def apply (s : State ι plan) : Event ι → State ι plan
  | .insert i write now =>
    match s.caller i with
    | .idle => beginInsert s i write now
    | _ => s
  | .flush i =>
    match s.caller i with
    | .idle => s.goto i (.flushing 0)
    | _ => s
  | .step i => stepCaller laneCapacity s i
  | .write now => stepWriter shard now s

end Steps

end Routeplane.Cache.Lanes
