import Routeplane.Observability.UsageEvent
import Routeplane.Proxy.Keys
import Mathlib.Data.Nat.Notation
import Mathlib.Tactic.Common

/-!
# One target, one key: the attempt loop

What the buffered path does with one key of one target: check the breaker and the
deadline, take a probe slot, call the provider under a timeout, record the outcome and
retry. Everything outside the loop is the environment: the replies to the calls, the words
the backoff generator draws, and what other requests do to the shared health state while
this one waits.

One deadline is shared by every attempt of a request. Server caps and the caller's
`x-routeplane-timeout-ms` fold into it by minimum; the deadline remembers when the budget
in force is the caller's own. Instants and durations are milliseconds.

* `bounded_of_tighter`: an attempt under a caller's budget tighter than every server-owned
  bound is recognised as such.
* `not_bounded_of_no_cap`: without the caller's cap no attempt is.
* `attemptRound`: one try. `attemptTarget`: the loop of a key.
-/

namespace Routeplane

structure DeadlineConfig where
  requestDeadline : ℕ := 120000
  perAttemptTimeout : ℕ := 60000
  deriving DecidableEq, Repr, Inhabited

structure Deadline where
  expiresAt : ℕ
  perAttempt : ℕ
  clientCapped : Bool := false
  deriving DecidableEq, Repr, Inhabited

namespace Deadline

def start (cfg : DeadlineConfig) (now : ℕ) : Deadline where
  expiresAt := now + cfg.requestDeadline
  perAttempt := cfg.perAttemptTimeout

/-- Narrow the budget by a server-owned cap. -/
def withRequestCap (d : Deadline) (cap : Option ℕ) (now : ℕ) : Deadline :=
  match cap with
  | some ms => if now + ms < d.expiresAt then { d with expiresAt := now + ms } else d
  | none => d

/-- Narrow the budget by the caller's cap, remembering whose budget is in force. -/
def withClientRequestCap (d : Deadline) (cap : Option ℕ) (now : ℕ) : Deadline :=
  match cap with
  | some ms =>
    if now + ms < d.expiresAt then { d with expiresAt := now + ms, clientCapped := true } else d
  | none => d

def remaining (d : Deadline) (now : ℕ) : ℕ := d.expiresAt - now

def nextAttemptTimeout (d : Deadline) (now : ℕ) : Option ℕ :=
  if d.remaining now = 0 then none else some (min (d.remaining now) d.perAttempt)

/-- The attempt timeout, narrowed by a target's own cap. -/
def nextAttemptTimeoutCapped (d : Deadline) (cap : Option ℕ) (now : ℕ) : Option ℕ :=
  (d.nextAttemptTimeout now).map fun base =>
    match cap with
    | some ms => min base ms
    | none => base

/-- The server-owned bound on one attempt; no clock is read. -/
def serverAttemptBound (d : Deadline) (cap : Option ℕ) : ℕ :=
  match cap with
  | some ms => min d.perAttempt ms
  | none => d.perAttempt

def attemptBoundedByClient (d : Deadline) (attemptTimeout : ℕ) (cap : Option ℕ) : Bool :=
  d.clientCapped && decide (attemptTimeout < d.serverAttemptBound cap)

variable {d : Deadline} {cap : Option ℕ} {now t : ℕ}

/-- An attempt runs for what is left of the budget, or for the server's bound. -/
theorem nextAttemptTimeoutCapped_eq (h : d.nextAttemptTimeoutCapped cap now = some t) :
    0 < d.remaining now ∧ t = min (d.remaining now) (d.serverAttemptBound cap) := by
  unfold nextAttemptTimeoutCapped nextAttemptTimeout at h
  unfold serverAttemptBound
  split at h
  · simp at h
  · rename_i hr
    refine ⟨by omega, ?_⟩
    cases cap with
    | none => simpa using h.symm
    | some ms =>
      have ht : t = min (min (d.remaining now) d.perAttempt) ms := by simpa using h.symm
      rw [ht, Nat.min_assoc]

/-- **A budget of the caller's own is recognised** whenever it is tighter than the server's
bound on the attempt. -/
theorem bounded_of_tighter (hc : d.clientCapped = true)
    (ht : d.nextAttemptTimeoutCapped cap now = some t)
    (hlt : d.remaining now < d.serverAttemptBound cap) : d.attemptBoundedByClient t cap = true := by
  obtain ⟨-, rfl⟩ := nextAttemptTimeoutCapped_eq ht
  unfold attemptBoundedByClient
  rw [hc, Bool.true_and, decide_eq_true_eq]
  omega

theorem not_bounded_of_no_cap (hc : d.clientCapped = false) :
    d.attemptBoundedByClient t cap = false := by
  simp [attemptBoundedByClient, hc]

end Deadline

/-! ## One target, one key: the attempt loop -/

/-- A provider's answer to a call, and how long it takes. -/
structure Reply (ρ : Type) where
  outcome : Except ProviderError ρ
  takes : ℕ

/-- What the attempts of a request cannot influence; all of it is indexed by the number of
calls the request has made. -/
structure Env (ρ : Type) where
  reply : ℕ → Reply ρ
  /-- The word the backoff generator draws. -/
  word : ℕ → ℕ := fun _ => 0
  /-- What other requests do to the health state while a call runs. -/
  during : ℕ → HealthTracker → HealthTracker := fun _ h => h
  /-- And while a backoff sleeps. -/
  between : ℕ → HealthTracker → HealthTracker := fun _ h => h

/-- A request handed to a provider. -/
structure Dispatch where
  target : ℕ
  provider : String
  key : PoolKey
  request : ChatCompletionRequest

/-- Why a try failed: the provider's own error, or the attempt timeout. -/
inductive Fault
  | error (e : ProviderError)
  | elapsed
  deriving DecidableEq, Repr

/-- A try that failed: when its call was started, and the health state before and after its
bookkeeping. -/
structure FailedTry where
  target : ℕ
  key : PoolKey
  fault : Fault
  clientBounded : Bool
  startedAt : ℕ
  before : HealthTracker
  after : HealthTracker

inductive Event
  | dispatched (d : Dispatch)
  /-- A try was given up before the provider was called. -/
  | skipped (target : ℕ) (key : PoolKey)
  | failed (t : FailedTry)
  /-- A failure was counted against a target's provider. -/
  | fed (target : ℕ) (provider : String)
  | usage (e : UsageEvent)

/-- The world a request runs in, and the record of what it did. -/
structure World where
  now : ℕ
  health : HealthTracker
  calls : ℕ := 0
  events : List Event := []
  deriving Inhabited

/-- The world a request starts in. -/
def World.start (now : ℕ) (health : HealthTracker) : World where
  now := now
  health := health

def World.log (w : World) (es : List Event) : World := { w with events := w.events ++ es }

def Event.isUsage : Event → Bool
  | .usage _ => true
  | _ => false

/-- What happened, without the usage events. -/
def World.record (w : World) : List Event := w.events.filter fun e => !e.isUsage

/-- The provider calls made so far. -/
def World.dispatches (w : World) : List Dispatch :=
  w.events.filterMap fun
    | .dispatched d => some d
    | _ => none

/-- What the usage events of a request are stamped with. -/
structure Caller where
  tenantId : String
  keyName : String
  requestId : String
  region : Option String := none
  sovereign : Bool := false
  configRef : Option String := none
  configMatched : Option String := none
  deriving DecidableEq, Repr, Inhabited

/-- A target with its shaped request and the keys to try, in order. -/
structure ReadyTarget where
  idx : ℕ
  target : TargetPlan
  shaped : ChatCompletionRequest
  keys : List PoolKey
  keys_ne : keys ≠ []
  keys_nodup : keys.Nodup
  keys_uniform : ∀ a ∈ keys, ∀ b ∈ keys, a.1.isSome = b.1.isSome

/-- A target is ready when it has a key. -/
def ReadyTarget.of? (idx : ℕ) (target : TargetPlan) (shaped : ChatCompletionRequest)
    (keys : KeyList) : Option ReadyTarget :=
  if h : keys.keys = [] then none
  else some ⟨idx, target, shaped, keys.keys, h, keys.nodup, keys.uniform⟩

/-- The key an executor without pool failover uses. -/
def ReadyTarget.firstKey (rt : ReadyTarget) : PoolKey := rt.keys.head rt.keys_ne

inductive TargetOutcome (ρ : Type)
  | won (response : ρ) (elapsedMs : ℕ)
  /-- Every try failed or was skipped. `healthFailure` is the verdict on the last error. -/
  | exhausted (lastError : String) (healthFailure : Bool) (terminalClientStatus : Option ℕ)

/-- Is an error retryable under a policy? -/
def isRetryable (e : ProviderError) (retry : RetryPolicy) : Bool :=
  match e.retryClass with
  | .always => true
  | .status code => retry.onStatus.contains code
  | .never => false

/-- A throttle and a client-class 4xx say nothing about the provider. -/
def countsAsHealthFailure : ProviderError → Bool
  | .rateLimited .. | .badRequest .. => false
  | _ => true

/-- Did the caller's own budget run out, rather than the provider fail? -/
def isClientDeadlineTimeout (e : ProviderError) (clientBounded : Bool) : Bool :=
  clientBounded && match e with
    | .timeout .. => true
    | _ => false

/-- The 4xx to show the client: only that of a request the provider rejected. -/
def upstreamClientStatus : ProviderError → Option ℕ
  | .badRequest _ status _ => if 400 ≤ status ∧ status < 500 then some status else none
  | _ => none

/-- The pause a throttled provider asks for. -/
def retryAfterHint : ProviderError → Option ℕ
  | .rateLimited _ retryAfterMs _ => retryAfterMs
  | _ => none

/-- Cool a pool key for an error that is the key's fault. -/
def coolKeyFor (windows : CooldownWindows) (h : HealthTracker) (tenant provider : String)
    (key : PoolKey) (e : ProviderError) (now : ℕ) : HealthTracker :=
  match key.1, keyCooldownForError windows e with
  | some poolIdx, some coolMs => h.coolKey tenant provider poolIdx (now + coolMs)
  | _, _ => h

/-- The pause before try `attempt`, at least what the provider asked for. -/
def retryDelay (retry : RetryPolicy) (attempt word : ℕ) (hint : Option ℕ) : ℕ :=
  let delay := retry.backoff.delayOf (attempt - 1) word
  match hint with
  | some ra => max delay ra
  | none => delay

/-- Wait before a retry; the text when the pause does not fit the deadline. -/
def backOff {ρ : Type} (env : Env ρ) (tooLate : String) (retry : RetryPolicy) (deadline : Deadline)
    (attempt : ℕ) (hint : Option ℕ) (w : World) : Except String World :=
  if attempt = 0 then .ok w
  else
    let delay := retryDelay retry attempt (env.word w.calls) hint
    if deadline.remaining w.now ≤ delay then .error tooLate
    else if delay = 0 then .ok w
    else .ok { w with now := w.now + delay, health := env.between w.calls w.health }

/-- What the checks before a call decide. -/
inductive Admission
  | stop (error : String)
  | go (timeout : ℕ) (clientBounded : Bool) (probe : ProbeAdmission)

/-- The checks before a call: the breaker, the deadline, the probe slot. -/
def admitTry (tooLate tenant : String) (target : TargetPlan) (deadline : Deadline) (w : World) :
    Admission × World :=
  let provider := target.provider
  let (available, health) := w.health.isAvailable tenant provider w.now
  let w := { w with health := health }
  if !available then (.stop ("circuit breaker open for " ++ provider), w)
  else
    match deadline.nextAttemptTimeoutCapped target.timeoutMs w.now with
    | none => (.stop tooLate, w)
    | some attemptTimeout =>
      let clientBounded := deadline.attemptBoundedByClient attemptTimeout target.timeoutMs
      let (probe, health) := w.health.tryEnterProbe tenant provider w.now
      let w := { w with health := health }
      match probe with
      | .rejected => (.stop ("half-open probe cap saturated for " ++ provider), w)
      | probe => (.go attemptTimeout clientBounded probe, w)

/-- Call the provider under a timeout: its answer, unless the timeout comes first, and the
time that took. The probe slot is given back before anything is recorded. -/
def callProvider {ρ : Type} (env : Env ρ) (d : Dispatch) (timeout : ℕ) (probe : ProbeAdmission)
    (w : World) : Option (Except ProviderError ρ) × ℕ × World :=
  let reply := env.reply w.calls
  let elapsed := min reply.takes timeout
  let health := (env.during w.calls w.health).leave probe d.provider
  let w := { w with now := w.now + elapsed, health := health, calls := w.calls + 1 }
  (if reply.takes ≤ timeout then some reply.outcome else none, elapsed, w.log [.dispatched d])

/-! ## The buffered loop -/

/-- One round of the loop. -/
inductive Round (ρ : Type)
  | settled (o : TargetOutcome ρ)
  | failed (e : ProviderError) (healthFailure : Bool)

section

variable {ρ : Type} (env : Env ρ) (st : AppState) (caller : Caller) (deadline : Deadline)
  (rt : ReadyTarget) (key : PoolKey)

/-- The bookkeeping of a failed try; whether the error speaks against the provider. -/
def recordAttemptFailure (e : ProviderError) (fault : Fault) (clientBounded : Bool) (elapsed : ℕ)
    (w : World) : Bool × World :=
  let tenant := caller.tenantId
  let provider := rt.target.provider
  let clientDeadlineTimeout := isClientDeadlineTimeout e clientBounded
  let h := if clientDeadlineTimeout then w.health
    else w.health.recordLatency tenant provider elapsed
  let healthFailure := countsAsHealthFailure e && !clientDeadlineTimeout
  -- a pool key feeds the breaker once its pool is exhausted, not here
  let feeds := key.1.isNone && healthFailure
  let h := if feeds then h.recordFailure tenant provider w.now else h
  let h := coolKeyFor st.cooldownWindows h tenant provider key e w.now
  let event := ((UsageEvent.failure tenant caller.keyName provider rt.shaped.model caller.region
    caller.sovereign e.display).withRequestId caller.requestId).withConfig caller.configRef
      caller.configMatched
  (healthFailure, { w with health := h }.log
    ([Event.failed ⟨rt.idx, key, fault, clientBounded, w.now - elapsed, w.health, h⟩] ++
      (if feeds then [Event.fed rt.idx provider] else []) ++ [Event.usage event]))

/-- What a winning try records. -/
def recordAttemptSuccess (elapsed : ℕ) (w : World) : World :=
  let tenant := caller.tenantId
  let provider := rt.target.provider
  let h := (w.health.recordLatency tenant provider elapsed).recordSuccess tenant provider
  match key.1 with
  | some poolIdx => { w with health := h.clearKey tenant provider poolIdx }
  | none => { w with health := h }

/-- One round: wait, check, call, record. -/
def attemptRound (attempt : ℕ) (hint : Option ℕ) (w : World) : Round ρ × World :=
  let provider := rt.target.provider
  match backOff env ("request deadline exceeded before retrying " ++ provider) rt.target.retry
      deadline attempt hint w with
  | .error e => (.settled (.exhausted e false none), w.log [.skipped rt.idx key])
  | .ok w =>
    match admitTry "request deadline exceeded before all providers were tried" caller.tenantId
        rt.target deadline w with
    | (.stop e, w) => (.settled (.exhausted e false none), w.log [.skipped rt.idx key])
    | (.go attemptTimeout clientBounded probe, w) =>
      match callProvider env ⟨rt.idx, provider, key, rt.shaped⟩ attemptTimeout probe w with
      | (some (.ok response), elapsed, w) =>
        (.settled (.won response elapsed), recordAttemptSuccess caller rt key elapsed w)
      | (some (.error e), elapsed, w) =>
        let (healthFailure, w) :=
          recordAttemptFailure st caller rt key e (.error e) clientBounded elapsed w
        (.failed e healthFailure, w)
      | (none, elapsed, w) =>
        let e := ProviderError.timeout provider
          ("timed out after " ++ toString attemptTimeout ++ "ms")
        let (healthFailure, w) :=
          recordAttemptFailure st caller rt key e .elapsed clientBounded elapsed w
        (.failed e healthFailure, w)

/-- The loop with `left` retries to go. -/
def attemptLoop (left attempt : ℕ) (hint : Option ℕ) (w : World) : TargetOutcome ρ × World :=
  match attemptRound env st caller deadline rt key attempt hint w with
  | (.settled o, w) => (o, w)
  | (.failed e healthFailure, w) =>
    let exhausted : TargetOutcome ρ := .exhausted e.display healthFailure (upstreamClientStatus e)
    match left with
    | 0 => (exhausted, w)
    | left + 1 =>
      if isRetryable e rt.target.retry && deadline.remaining w.now != 0 then
        attemptLoop left (attempt + 1) (retryAfterHint e) w
      else (exhausted, w)

/-- Drive one key of one target to its end. -/
def attemptTarget (w : World) : TargetOutcome ρ × World :=
  match st.resolveProvider caller.tenantId rt.target.provider with
  | none => (.exhausted ("Unsupported provider: " ++ rt.target.provider) false none, w)
  | some _ => attemptLoop env st caller deadline rt key rt.target.retry.attempts 0 none w

end

/-! ## What a loop preserves -/

section

variable {ρ : Type} {env : Env ρ} {st : AppState} {caller : Caller} {deadline : Deadline}
  {rt : ReadyTarget} {key : PoolKey} {P : World → Prop}

/-- What each round preserves the loop preserves. By induction on the retries left. -/
theorem attemptLoop_preserves
    (hround : ∀ attempt hint w, P w → P (attemptRound env st caller deadline rt key attempt hint w).2)
    (left attempt : ℕ) (hint : Option ℕ) (w : World) (hw : P w) :
    P (attemptLoop env st caller deadline rt key left attempt hint w).2 := by
  induction left generalizing attempt hint w with
  | zero =>
    have hr := hround attempt hint w hw
    unfold attemptLoop
    split <;> simp_all
  | succ left ih =>
    have hr := hround attempt hint w hw
    unfold attemptLoop
    split
    · simp_all
    · rename_i e hf v heq
      rw [heq] at hr
      simp only
      split
      · exact ih _ _ _ hr
      · exact hr

theorem attemptTarget_preserves
    (hround : ∀ attempt hint w, P w → P (attemptRound env st caller deadline rt key attempt hint w).2)
    (w : World) (hw : P w) : P (attemptTarget env st caller deadline rt key w).2 := by
  unfold attemptTarget
  split
  · exact hw
  · exact attemptLoop_preserves hround _ _ _ w hw

end

end Routeplane
