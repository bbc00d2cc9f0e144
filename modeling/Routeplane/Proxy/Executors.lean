import Routeplane.Proxy.Hedge
import Routeplane.Proxy.Walk

/-!
# The three executors

The streaming path resolves each target when it is reached, and tries its keys until one
gives a first chunk. The loop over retries is written out a second time, with the health
verdict of a pool carried in a flag of the target instead of in the outcome of each key.

A planned request is driven by the buffered walk, the hedged walk or the stream
establishment, under one deadline folded from the server's configuration, the routing
config's `request_timeout_ms` and the caller's `x-routeplane-timeout-ms`.

* `establishLoop`: the retry loop of a key. `streamWalk`: the walk.
* `Service.record`: what serving a request leaves behind, whichever executor serves it.
-/

namespace Routeplane

section

variable {ρ : Type} (env : Env ρ) (st : AppState) (k : VirtualKey) (caller : Caller)
  (deadline : Deadline)

/-- What one round of the establishment loop leads to. -/
inductive StreamRound (ρ : Type)
  | established (first : ρ) (elapsedMs : ℕ)
  | gaveUp
  | failed (retryable : Bool) (hint : Option ℕ)

/-- The usage event of a failed establishment. -/
def streamFailureEvent (rt : ReadyTarget) (error : String) : UsageEvent :=
  (UsageEvent.failure caller.tenantId caller.keyName rt.target.provider rt.shaped.model
    caller.region caller.sovereign error).withRequestId caller.requestId

variable (rt : ReadyTarget) (key : PoolKey)

/-- The bookkeeping of a failed establishment; the verdict is the pool's so far. -/
def recordEstablishFailure (e : ProviderError) (clientBounded : Bool) (elapsed : ℕ) (verdict : Bool)
    (w : World) : Bool × World :=
  let tenant := caller.tenantId
  let provider := rt.target.provider
  let clientDeadlineTimeout := isClientDeadlineTimeout e clientBounded
  let h := if clientDeadlineTimeout then w.health
    else w.health.recordLatency tenant provider elapsed
  let healthFailure := countsAsHealthFailure e && !clientDeadlineTimeout
  match key.1 with
  | some _ =>
    let h := coolKeyFor st.cooldownWindows h tenant provider key e w.now
    (verdict || healthFailure, { w with health := h }.log
      [.failed ⟨rt.idx, key, .error e, clientBounded, w.now - elapsed, w.health, h⟩,
        .usage (streamFailureEvent caller rt e.display)])
  | none =>
    let h := if healthFailure then h.recordFailure tenant provider w.now else h
    (verdict, { w with health := h }.log
      ([Event.failed ⟨rt.idx, key, .error e, clientBounded, w.now - elapsed, w.health, h⟩] ++
        (if healthFailure then [Event.fed rt.idx provider] else []) ++
        [Event.usage (streamFailureEvent caller rt e.display)]))

/-- The bookkeeping of an establishment that timed out. -/
def recordEstablishTimeout (error : String) (clientBounded : Bool) (elapsed : ℕ) (verdict : Bool)
    (w : World) : Bool × World :=
  let tenant := caller.tenantId
  let provider := rt.target.provider
  let h := if clientBounded then w.health else w.health.recordLatency tenant provider elapsed
  match key.1 with
  | some poolIdx =>
    let h := h.coolKey tenant provider poolIdx
      (w.now + keyCooldownMs st.cooldownWindows (some 500) none)
    (verdict || !clientBounded, { w with health := h }.log
      [.failed ⟨rt.idx, key, .elapsed, clientBounded, w.now - elapsed, w.health, h⟩,
        .usage (streamFailureEvent caller rt error)])
  | none =>
    let h := if clientBounded then h else h.recordFailure tenant provider w.now
    (verdict, { w with health := h }.log
      ([Event.failed ⟨rt.idx, key, .elapsed, clientBounded, w.now - elapsed, w.health, h⟩] ++
        (if clientBounded then [] else [Event.fed rt.idx provider]) ++
        [Event.usage (streamFailureEvent caller rt error)]))

/-- One round: wait, check, open the stream and read its first chunk. -/
def establishRound (attempt : ℕ) (hint : Option ℕ) (verdict : Bool) (notes : Notes) (w : World) :
    StreamRound ρ × Bool × Notes × World :=
  let provider := rt.target.provider
  match backOff env ("request deadline exceeded before retrying stream for " ++ provider)
      rt.target.retry deadline attempt hint w with
  | .error e => (.gaveUp, verdict, { notes with lastError := e }, w.log [.skipped rt.idx key])
  | .ok w =>
    match admitTry "request deadline exceeded before stream could be established" caller.tenantId
        rt.target deadline w with
    | (.stop e, w) => (.gaveUp, verdict, { notes with lastError := e }, w.log [.skipped rt.idx key])
    | (.go attemptTimeout clientBounded probe, w) =>
      match callProvider env ⟨rt.idx, provider, key, rt.shaped⟩ attemptTimeout probe w with
      | (some (.ok first), elapsed, w) => (.established first elapsed, verdict, notes, w)
      | (some (.error e), elapsed, w) =>
        let (verdict, w) := recordEstablishFailure st caller rt key e clientBounded elapsed verdict w
        (.failed (isRetryable e rt.target.retry) (retryAfterHint e), verdict,
          notes.exhausted e.display (upstreamClientStatus e), w)
      | (none, elapsed, w) =>
        let error := "provider " ++ provider ++ " timed out establishing stream after " ++
          toString attemptTimeout ++ "ms"
        let (verdict, w) :=
          recordEstablishTimeout st caller rt key error clientBounded elapsed verdict w
        (.failed true none, verdict, notes.exhausted error none, w)

/-- The loop with `left` retries to go. -/
def establishLoop (left attempt : ℕ) (hint : Option ℕ) (verdict : Bool) (notes : Notes)
    (w : World) : Option (ρ × ℕ) × Bool × Notes × World :=
  match establishRound env st caller deadline rt key attempt hint verdict notes w with
  | (.established first elapsedMs, verdict, notes, w) => (some (first, elapsedMs), verdict, notes, w)
  | (.gaveUp, verdict, notes, w) => (none, verdict, notes, w)
  | (.failed retryable hint, verdict, notes, w) =>
    match left with
    | 0 => (none, verdict, notes, w)
    | left + 1 =>
      if retryable && deadline.remaining w.now != 0 then
        establishLoop left (attempt + 1) hint verdict notes w
      else (none, verdict, notes, w)

omit key in
/-- Try the keys in order; the first to establish the stream is cleared of its cooldown. -/
def establishKeys : List PoolKey → Bool → Notes → World → Option (ρ × ℕ) × Bool × Notes × World
  | [], verdict, notes, w => (none, verdict, notes, w)
  | key :: keys, verdict, notes, w =>
    match establishLoop env st caller deadline rt key rt.target.retry.attempts 0 none verdict
        notes w with
    | (some established, verdict, notes, w) =>
      let w := match key.1 with
        | some poolIdx =>
          { w with health := w.health.clearKey caller.tenantId rt.target.provider poolIdx }
        | none => w
      (some established, verdict, notes, w)
    | (none, verdict, notes, w) => establishKeys keys verdict notes w

omit rt key in
/-- Walk the targets from position `idx` on. A target is resolved, and its keys ordered, when
it is reached: by the health state of that moment and the time `nowMs` of the start. -/
def streamTargets (payload : ChatCompletionRequest) (backoffSeed : ℕ → BitVec 64) (nowMs : ℕ) :
    List TargetPlan → ℕ → Notes → World → Option (Winner ρ) × Notes × World
  | [], _, notes, w => (none, notes, w)
  | target :: rest, idx, notes, w =>
    let provider := target.provider
    let tenant := caller.tenantId
    match readyTarget st k tenant payload (backoffSeed idx) w.health nowMs target idx with
    | .error e =>
      streamTargets payload backoffSeed nowMs rest (idx + 1) { notes with lastError := e } w
    | .ok rt =>
      match establishKeys env st caller deadline rt rt.keys false notes w with
      | (some (first, elapsedMs), _, notes, w) =>
        let h := (w.health.recordLatency tenant provider elapsedMs).recordSuccess tenant provider
        (some ⟨idx, first, elapsedMs, false⟩, notes, { w with health := h })
      | (none, verdict, notes, w) =>
        let w := if targetIsPool k provider && verdict then feedPool caller rt w else w
        streamTargets payload backoffSeed nowMs rest (idx + 1) notes w

end

/-- The establishment of a stream over the ordered targets. -/
def streamWalk {ρ : Type} (env : Env ρ) (st : AppState) (k : VirtualKey) (caller : Caller)
    (deadline : Deadline) (payload : ChatCompletionRequest) (backoffSeed : ℕ → BitVec 64)
    (targets : List TargetPlan) (w : World) : Option (Winner ρ) × Notes × World :=
  streamTargets env st k caller deadline payload backoffSeed w.now targets 0 {} w

end Routeplane

namespace Routeplane

/-- A request as the executors get it. -/
structure PlannedRequest where
  key : VirtualKey
  caller : Caller
  payload : ChatCompletionRequest
  requestSeed : BitVec 64 := 0
  /-- The seeds the streaming path draws, by target. -/
  backoffSeed : ℕ → BitVec 64 := fun _ => 0
  targets : List TargetPlan
  requestTimeoutMs : Option ℕ := none
  headerTimeoutMs : Option ℕ := none
  /-- When the deadline was started, and when the two caps were folded into it. -/
  startedAt : ℕ := 0
  cappedAt : ℕ := 0
  clientCappedAt : ℕ := 0

/-- The deadline before the caller's own cap: all of it is server-owned. -/
def PlannedRequest.serverDeadline (r : PlannedRequest) (cfg : DeadlineConfig) : Deadline :=
  (Deadline.start cfg r.startedAt).withRequestCap r.requestTimeoutMs r.cappedAt

def PlannedRequest.deadline (r : PlannedRequest) (cfg : DeadlineConfig) : Deadline :=
  (r.serverDeadline cfg).withClientRequestCap r.headerTimeoutMs r.clientCappedAt

/-- The circumstances of one hedged attempt: when and in what health state it is launched, what
happens meanwhile, and how much of it happens before it is dropped. -/
structure Strand (ρ : Type) where
  env : Env ρ
  now : ℕ := 0
  health : HealthTracker
  kept : ℕ

/-- An executor with everything a request does not decide. -/
inductive Execution (ρ : Type)
  | buffered (env : Env ρ)
  | streaming (env : Env ρ)
  /-- The race is looked at after `steps` iterations. -/
  | hedged (policy : HedgePolicy) (pick : List (Flight ρ) → ℕ) (strands : ReadyTarget → Strand ρ)
      (steps : ℕ)

/-- A request, and how it is served. The state it starts in is whatever other requests left. -/
structure Service (ρ : Type) where
  request : PlannedRequest
  execution : Execution ρ
  now : ℕ := 0
  health : HealthTracker

section

variable {ρ : Type} (st : AppState) (cfg : DeadlineConfig)

/-- A hedged attempt: the first key, passed on as if it were a single one. -/
def hedgedAttempt (caller : Caller) (deadline : Deadline) (rt : ReadyTarget) (strand : Strand ρ) :
    TargetOutcome ρ × World :=
  attemptTarget strand.env st caller deadline rt (none, rt.firstKey.2)
    (.start strand.now strand.health)

/-- What a race leaves behind, attempt by attempt. -/
def hedgedRecord (caller : Caller) (deadline : Deadline) (policy : HedgePolicy)
    (pick : List (Flight ρ) → ℕ) (strands : ReadyTarget → Strand ρ) (ready : List ReadyTarget)
    (now : ℕ) (notes : Notes) (steps : ℕ) : List Event :=
  let attempt rt : Attempt ρ :=
    let (outcome, w) := hedgedAttempt st caller deadline rt (strands rt)
    ⟨outcome, w.now - (strands rt).now⟩
  (runHedgedTargets pick attempt policy deadline ready now notes steps).launched.flatMap fun rt =>
    (hedgedAttempt st caller deadline rt (strands rt)).2.record.take (strands rt).kept

/-- What serving a request leaves behind. -/
def Service.record (s : Service ρ) : List Event :=
  let r := s.request
  let deadline := r.deadline cfg
  match s.execution with
  | .buffered env =>
    (bufferedRun env st r.key r.caller deadline r.payload r.requestSeed r.targets
      (.start s.now s.health)).2.2.record
  | .streaming env =>
    (streamWalk env st r.key r.caller deadline r.payload r.backoffSeed r.targets
      (.start s.now s.health)).2.2.record
  | .hedged policy pick strands steps =>
    let tenant := r.caller.tenantId
    hedgedRecord st r.caller deadline policy pick strands
      (readyTargets st r.key tenant r.payload r.requestSeed s.health s.now r.targets) s.now
      (readyNotes st r.key tenant r.payload r.requestSeed s.health s.now r.targets) steps

/-- The attempt that won, if one did. -/
def Service.winner (s : Service ρ) : Option (Winner ρ) :=
  let r := s.request
  let deadline := r.deadline cfg
  match s.execution with
  | .buffered env =>
    (bufferedRun env st r.key r.caller deadline r.payload r.requestSeed r.targets
      (.start s.now s.health)).1
  | .streaming env =>
    (streamWalk env st r.key r.caller deadline r.payload r.backoffSeed r.targets
      (.start s.now s.health)).1
  | .hedged policy pick strands steps =>
    let tenant := r.caller.tenantId
    let attempt rt : Attempt ρ :=
      let (outcome, w) := hedgedAttempt st r.caller deadline rt (strands rt)
      ⟨outcome, w.now - (strands rt).now⟩
    (runHedgedTargets pick attempt policy deadline
      (readyTargets st r.key tenant r.payload r.requestSeed s.health s.now r.targets) s.now
      (readyNotes st r.key tenant r.payload r.requestSeed s.health s.now r.targets) steps).returned.join

end

end Routeplane
