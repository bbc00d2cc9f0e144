import Routeplane.Ledger.Entry
import Routeplane.Limits.Pricing
import Routeplane.Limits.Registry
import Routeplane.Proxy.ApiError
import Routeplane.Proxy.Attempt
import Routeplane.Router.Strategy

/-!
# The pipeline slice of the other endpoints

Embeddings, rerank, image generation and audio run one slice of the chat pipeline: eligibility
under the required region, ordering, admission, and a walk over the ordered providers that ends
with the first answer. What a handler decides for itself (the payload it hands out, the
text it classifies, the default chain, the bill of a response) is a `Slice`.

* `Slice.eligible`: the resident providers if a region is required, else the caller's chain.
* `attemptProvider`, `attemptAll`: the walk. `Slice.run`: the whole slice.
-/

namespace Routeplane

/-- The names of the built-in providers resident in a region. -/
def residentNames (st : AppState) (region : String) : List String :=
  ((st.providers.map Prod.fst).filter fun name =>
    (st.providers.lookup name).any (·.isResidentIn region)).insertionSort fun a b => a ≤ b

/-- Order plain names, with no target's overrides. -/
def Router.orderCandidates (r : Router) (owner : String) (eligible : List String)
    (strategy : RoutingStrategy) (h : HealthTracker) (now : ℕ) (nanos : BitVec 64) :
    List String × Router × HealthTracker :=
  r.orderCandidatesWithSpecs owner (eligible.map fun name => { name := name }) strategy h now nanos

namespace Endpoint

open Limits (LimitGuards LimitRegistry Heap SpendAlert Advisory BudgetWarning)

/-- The process state the handlers read. The classifier and the masking engine are functions on
texts. -/
structure Site where
  app : AppState
  limits : LimitRegistry := {}
  deadlineConfig : DeadlineConfig := {}
  maxEmbeddingInputs : ℕ := 2048
  classify : String → Classification
  processText : String → String
  isBuiltinModel : String → Bool := fun _ => false

/-- What a handler is called with, beside the request: the authenticated key and tenant, and the
routing headers. The provider header may be present and not be text. -/
structure Call where
  key : VirtualKey
  routeplaneKey : String
  tenant : TenantContext
  requestId : String := ""
  residency : Option String := none
  provider : Option (Option String) := none
  strategy : Option String := none
  deriving Inhabited

namespace Call

variable (call : Call)

def tenantId : String := call.tenant.tenantId

def requestedRegion : Option Region :=
  (call.key.effectiveRequestedRegion call.residency).map Region.mk

/-- The provider header, if it is text. -/
def requested : Option String := call.provider.bind id

def routingStrategy : RoutingStrategy := (call.strategy.map RoutingStrategy.parse).getD .priority

end Call

/-- A payload handed to a provider. -/
structure Handed (π : Type) where
  provider : String
  adapter : Provider
  apiKey : String
  payload : π

/-- What a request does, in order. -/
inductive Event (π : Type)
  | admitted (guards : LimitGuards) (admission : Limits.Admission)
  | handed (h : Handed π)
  | settled (guards : LimitGuards) (totalTokens costMicroUsd : ℕ)
  | usage (e : UsageEvent)
  | decision (d : DecisionDraft)
  | alert (a : SpendAlert)

def Event.handed? {π : Type} : Event π → Option (Handed π)
  | .handed h => some h
  | _ => none

structure World (π : Type) where
  now : ℕ
  health : HealthTracker
  router : Router := {}
  heap : Heap := {}
  calls : ℕ := 0
  events : List (Event π) := []

/-- What a request cannot influence: the replies to its calls, the word the router draws, and what
other requests do to the shared state while a call runs. -/
structure Env (ρ : Type) where
  reply : ℕ → Reply ρ
  nanos : BitVec 64 := 0
  health : ℕ → HealthTracker → HealthTracker := fun _ h => h
  heap : ℕ → Heap → Heap := fun _ h => h

structure LimitHeaders where
  advisory : Advisory
  warning : Option BudgetWarning
  deriving DecidableEq, Repr

inductive Answer (ρ : Type)
  | ok (provider : String) (response : ρ) (limits : Option LimitHeaders)
  | error (e : ApiError)
  | text (status : ℕ) (body : String)

/-- What a response is billed as. -/
structure Bill where
  model : String
  promptTokens : UInt32 := 0
  totalTokens : UInt32 := 0
  costMicroUsd : ℕ := 0
  deriving DecidableEq, Repr

/-- What a handler decides for itself. -/
structure Slice (π ρ : Type) where
  payload : π
  /-- The model in the records of a request no provider has answered. -/
  modelLabel : String
  /-- The text the classifier reads, if there is a text. -/
  classified : Option String
  /-- The providers of a request that is bound to no region. -/
  chain : List String
  /-- Whether a name may mean a provider registered at runtime. -/
  custom : Bool
  sovereignBlock : String → Answer ρ
  /-- The answer when the last provider lacks the endpoint; adapters report it under its code. -/
  notSupported : ApiError
  bill : ρ → Bill

namespace World

variable {π : Type} (w : World π)

def start (now : ℕ) (health : HealthTracker) (router : Router := {}) (heap : Heap := {}) :
    World π where
  now := now
  health := health
  router := router
  heap := heap

def log (es : List (Event π)) : World π := { w with events := w.events ++ es }

/-- The payloads handed out so far. -/
def handed : List (Handed π) := w.events.filterMap Event.handed?

end World

/-! ## Chains -/

/-- The comma chain of the provider header; an empty one means the endpoint's default. -/
def splitChain (fallback requested : String) : List String :=
  let chain := ((splitText ',' requested).map trimText).filter fun s => !s.isEmpty
  if chain.isEmpty then [fallback] else chain

/-- Without a provider header, a model registered on a runtime provider is routed there, unless it
is a built-in one. -/
def chainForModel (site : Site) (call : Call) (fallback : String) (model : Option String) :
    List String :=
  match call.requested with
  | some requested => splitChain fallback requested
  | none =>
    match model.bind fun m =>
        (site.app.customProviders.providerForModel call.tenantId m).filter fun _ =>
          !site.isBuiltinModel m with
    | some custom => [custom]
    | none => [fallback]

/-! ## The walk -/

/-- What one provider of the chain comes to. -/
inductive Step (ρ : Type)
  | skip (lastError : String)
  | stop (lastError : String)
  | won (answer : Answer ρ)
  | failed (notSupported : Bool) (lastError : String)

structure Notes where
  lastError : String := "No providers available"
  lastNotSupported : Bool := false
  deriving DecidableEq, Repr, Inhabited

section

variable {π ρ : Type} (site : Site) (call : Call) (s : Slice π ρ)

namespace Slice

/-- What is known of a request; without a text, nothing. -/
def classification : Classification :=
  match s.classified with
  | some text => site.classify text
  | none => ⟨false, []⟩

def requiredRegion : Option Region :=
  Routeplane.requiredRegion call.requestedRegion (s.classification site)

def resolve (name : String) : Option Provider :=
  if s.custom then site.app.resolveProvider call.tenantId name else site.app.providers.lookup name

/-- The key of the virtual key for a provider, else the one a runtime provider came with. -/
def apiKey (name : String) : Option String :=
  (site.app.resolveApiKey call.key name).or
    (if s.custom then site.app.customProviders.apiKey call.tenantId name else none)

/-- The providers a request may go to, or the region none is resident in. -/
def eligible : Except Region (List String) :=
  match s.requiredRegion site call with
  | some region =>
    let names := residentNames site.app region.code
    if names.isEmpty then .error region else .ok names
  | none => .ok s.chain

/-- A capability gap says nothing about a provider's health. -/
def isNotSupported : ProviderError → Bool
  | .badRequest _ 422 body => (dropHead? s.notSupported.code body).isSome
  | _ => false

def decision (model : String) (provider routeRegion : Option String) (outcome : Outcome)
    (usage : UsageTotals) : DecisionDraft :=
  decisionDraft call.tenantId call.requestId model provider routeRegion
    (s.classification site) ((s.requiredRegion site call).map (·.code))
    (s.requiredRegion site call).isSome call.provider.isSome outcome usage

def failureEvent (provider error : String) : UsageEvent :=
  (UsageEvent.failure call.tenantId call.key.name provider s.modelLabel
    ((s.requiredRegion site call).map (·.code)) (s.requiredRegion site call).isSome
    error).withRequestId call.requestId

end Slice

/-- The scopes a request is held to, whatever its model. -/
def guards : LimitGuards := site.limits.resolve call.routeplaneKey call.tenantId

/-- The bookkeeping of an answered call, and the answer to the client. -/
def recordSuccess (name : String) (adapter : Provider) (response : ρ) (elapsedMs : ℕ)
    (w : World π) : Answer ρ × World π :=
  let tenant := call.tenantId
  let h := (w.health.recordLatency tenant name elapsedMs).recordSuccess tenant name
  let bill := s.bill response
  let decision := s.decision site call bill.model (some name) adapter.residentRegions.head? .ok
    ⟨bill.promptTokens, 0, bill.totalTokens⟩
  let usage := (UsageEvent.ofSuccess tenant call.key.name name bill.model bill.promptTokens 0
    bill.totalTokens ((s.requiredRegion site call).map (·.code))
    (s.requiredRegion site call).isSome).withRequestId call.requestId
  let scopes := guards site call
  let (alerts, heap) := scopes.settle w.now w.heap bill.totalTokens.toNat bill.costMicroUsd
  let limits :=
    if scopes.isUnlimited then none
    else some ⟨scopes.advisory w.now heap, scopes.warning w.now heap⟩
  let events : List (Event π) := [.decision decision, .usage usage,
    .settled scopes bill.totalTokens.toNat bill.costMicroUsd]
  (.ok name response limits,
    { w with health := h, heap := heap }.log (events ++ alerts.map Event.alert))

/-- The bookkeeping of a failed call; a capability gap leaves the health alone. -/
def recordFailure (name : String) (e : ProviderError) (elapsedMs : ℕ) (w : World π) :
    Step ρ × World π :=
  let tenant := call.tenantId
  let notSupported := s.isNotSupported e
  let h :=
    if notSupported then w.health
    else
      let h := w.health.recordLatency tenant name elapsedMs
      if countsAsHealthFailure e then h.recordFailure tenant name w.now else h
  (.failed notSupported e.display,
    { w with health := h }.log [.usage (s.failureEvent site call name e.display)])

/-- Call a provider under a timeout: its answer, unless the timeout comes first. -/
def callProvider (env : Env ρ) (h : Handed π) (timeout : ℕ) (w : World π) :
    Except ProviderError ρ × ℕ × World π :=
  let reply := env.reply w.calls
  let elapsed := min reply.takes timeout
  let outcome :=
    if reply.takes ≤ timeout then reply.outcome
    else .error (.timeout h.provider ("timed out after " ++ toString timeout ++ "ms"))
  (outcome, elapsed,
    { w with
        now := w.now + elapsed
        health := env.health w.calls w.health
        heap := env.heap w.calls w.heap
        calls := w.calls + 1 }.log [.handed h])

/-- One provider of the ordered chain. -/
def attemptProvider (env : Env ρ) (deadline : Deadline) (name : String) (w : World π) :
    Step ρ × World π :=
  match s.resolve site call name with
  | none => (.skip ("Unsupported provider: " ++ name), w)
  | some adapter =>
    let (available, health) := w.health.isAvailable call.tenantId name w.now
    let w := { w with health := health }
    if !available then (.skip ("circuit breaker open for " ++ name), w)
    else
      match s.apiKey site call name with
      | none => (.skip ("API key for " ++ name ++ " not configured"), w)
      | some apiKey =>
        match deadline.nextAttemptTimeout w.now with
        | none => (.stop "request deadline exceeded before all providers were tried", w)
        | some timeout =>
          match callProvider env ⟨name, adapter, apiKey, s.payload⟩ timeout w with
          | (.ok response, elapsed, w) =>
            let (answer, w) := recordSuccess site call s name adapter response elapsed w
            (.won answer, w)
          | (.error e, elapsed, w) => recordFailure site call s name e elapsed w

/-- The ordered chain, up to the first answer. -/
def attemptAll (env : Env ρ) (deadline : Deadline) :
    List String → Notes → World π → Option (Answer ρ) × Notes × World π
  | [], notes, w => (none, notes, w)
  | name :: names, notes, w =>
    match attemptProvider site call s env deadline name w with
    | (.won answer, w) => (some answer, notes, w)
    | (.stop e, w) => (none, { notes with lastError := e }, w)
    | (.skip e, w) => attemptAll env deadline names { notes with lastError := e } w
    | (.failed notSupported e, w) => attemptAll env deadline names ⟨e, notSupported⟩ w

/-! ## The slice -/

/-- The answer when no provider of the required region is there. -/
def blockSovereign (region : Region) (w : World π) : Answer ρ × World π :=
  let usage : UsageEvent :=
    { UsageEvent.failure call.tenantId call.key.name "(sovereign_block)" s.modelLabel
        (some region.code) true "sovereign_block" with
      requestId := some call.requestId }
  (s.sovereignBlock region.code,
    w.log [.usage usage,
      .decision (s.decision site call s.modelLabel none none .residencyBlocked ⟨0, 0, 0⟩)])

/-- The walk over an ordered chain, and its answer. -/
def runAttempts (env : Env ρ) (deadline : Deadline) (ordered : List String) (w : World π) :
    Answer ρ × World π :=
  match attemptAll site call s env deadline ordered {} w with
  | (some answer, _, w) => (answer, w)
  | (none, notes, w) =>
    if notes.lastNotSupported then (.error s.notSupported, w)
    else
      (.error upstreamAllFailed,
        w.log [.decision (s.decision site call s.modelLabel none none .allFailed ⟨0, 0, 0⟩)])

/-- Order, admit and walk. -/
def runEligible (env : Env ρ) (deadline : Deadline) (names : List String) (w : World π) :
    Answer ρ × World π :=
  let (ordered, router, health) := w.router.orderCandidates call.tenantId names
    call.routingStrategy w.health w.now env.nanos
  let scopes := guards site call
  let (admission, heap) := scopes.admitRequest w.now w.heap
  let w := { w with router := router, health := health, heap := heap }.log
    [.admitted scopes admission]
  match admission with
  | .denied breach =>
    let error := if breach.kind.isBudget then "budget_exceeded" else "rate_limit_exceeded"
    (.error (limitRejection breach),
      w.log [.usage (s.failureEvent site call ("(" ++ breach.kind.header ++ ")") error)])
  | .allowed _ => runAttempts site call s env deadline ordered w

/-- What an endpoint does with a request it has read. -/
def Slice.run (env : Env ρ) (w : World π) : Answer ρ × World π :=
  let deadline := Deadline.start site.deadlineConfig w.now
  match s.eligible site call with
  | .error region => blockSovereign site call s region w
  | .ok names => runEligible site call s env deadline names w

end

end Endpoint

end Routeplane
