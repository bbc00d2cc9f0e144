import Routeplane.Endpoints.Slice
import Routeplane.Limits.Distributed
import Routeplane.Proxy.CachePlan
import Routeplane.Proxy.Executors
import Routeplane.Proxy.Gates
import Routeplane.Proxy.Masking
import Routeplane.Proxy.Order

/-!
# The chat pipeline

A chat request on its way to the executors: the model gates, the input caps, the residency
classification, the routing config that wins, the cache, masking, the residency filter, the order
and the admission.

* `Gateway.routingConfig`: an explicit config, else the combo. `Gateway.flatTargets`: its plan, or
  the chain of the headers.
* `Gateway.attemptTargets`: the hard residency filter.
* `chatCompletionsPipeline`, `chatCompletionsCore`: a request's run, and its record.
-/

namespace Routeplane

open Limits (LimitGuards DistributedLimiter Heap Redis Trip)

/-- The process state of the chat path. -/
structure Gateway where
  site : Endpoint.Site
  parsers : HeaderParsers
  policies : PolicyRegistry := {}
  overlay : ConfigOverlay := {}
  limiter : Option DistributedLimiter := none
  cache : ResponseCache
  maxMessages : ℕ := 2048
  maxMessageChars : ℕ := 1500000
  /-- The compression of tool results. -/
  compress : String → String := id
  /-- Whether the semantic cache is built in. -/
  semanticCache : Bool := false

/-- What a chat request comes with, beside its body. -/
structure ChatCall extends Endpoint.Call where
  config : Option String := none
  metadata : Option String := none
  timeoutMs : Option String := none
  cacheControl : Option String := none
  deriving Inhabited

/-- What a chat request cannot influence: the clock and the draws, the state other requests have
left, the limiter's trips, what the caches hold, and what the providers reply. -/
structure Circumstances (ρ : Type) where
  env : Env ρ
  health : HealthTracker
  seed : BitVec 64 := 0
  nanos : BitVec 64 := 0
  backoffSeed : ℕ → BitVec 64 := fun _ => 0
  startedAt : ℕ := 0
  cappedAt : ℕ := 0
  clientCappedAt : ℕ := 0
  orderedAt : ℕ := 0
  admittedAt : ℕ := 0
  servedAt : ℕ := 0
  router : Router := {}
  heap : Heap := {}
  redis : Redis := fun _ => none
  trips : ℕ → Trip := fun _ => ⟨0, none⟩
  /-- What other requests do to the health state before the first attempt. -/
  meanwhile : HealthTracker → HealthTracker := id
  pick : List (Flight ρ) → ℕ := fun _ => 0
  strands : ReadyTarget → Strand ρ := fun _ => ⟨env, 0, health, 0⟩
  steps : ℕ := 0
  cached : CacheKey → Bool := fun _ => false
  embeds : String → Bool := fun _ => false
  semanticHit : SemanticKey → Bool := fun _ => false

/-- What a chat request does, in order. -/
inductive ChatEvent
  /-- Its text is embedded for the semantic cache. -/
  | embedded (provider : String)
  | admitted (guards : LimitGuards) (limiter : Option DistributedLimiter)
      (admission : Limits.Admission)
  | tried (e : Event)
  /-- The usage of its answer; of a stream, when its body ends. -/
  | settled (guards : LimitGuards)

inductive ChatAnswer (ρ : Type)
  | error (e : ApiError)
  | cached
  | semanticCached
  | served (s : Service ρ)

structure ChatRun (ρ : Type) where
  answer : ChatAnswer ρ
  events : List ChatEvent := []
  /-- The frameworks named in the compliance-warning header. -/
  warning : Option String := none

def ChatRun.refuse {ρ : Type} (e : ApiError) (events : List ChatEvent := []) : ChatRun ρ where
  answer := .error e
  events := events

/-! ## Refusals and headers -/

def configErrorResponse (e : ConfigError) : ApiError :=
  ⟨400, e.code.asStr, e.message, "invalid_request_error", some e.param⟩

def inputLimitExceeded (message : String) : ApiError :=
  ⟨400, "routeplane_input_limit_exceeded", message, "invalid_request_error", some "messages"⟩

/-- `str::parse::<u64>`. -/
def parseU64 (s : String) : Option ℕ :=
  let digits := match s.toList with
    | '+' :: cs => cs
    | cs => cs
  if digits.isEmpty || !digits.all Char.isDigit then none
  else
    let n := digits.foldl (fun n c => 10 * n + (c.toNat - '0'.toNat)) 0
    if n < 2 ^ 64 then some n else none

namespace ChatCall

variable (call : ChatCall)

def requestTimeout : Option ℕ :=
  (call.timeoutMs.bind fun s => parseU64 (trimText s)).filter (0 < ·)

def noStore : Bool := call.cacheControl.any fun v => eqIgnoreCase (trimText v) "no-store"

/-- The label of the config source. -/
def configRefLabel : String :=
  if (dropHead? "cfg_" (trimText (call.config.getD ""))).isSome then "saved" else "inline"

end ChatCall

/-- A target of the provider header: no retry, no shaping. -/
def defaultTargetPlan (provider : String) : TargetPlan where
  provider := provider

def providerResident (st : AppState) (name : String) (region : Region) : Bool :=
  (st.providers.lookup name).any (·.isResidentIn region.code)

/-- The providers an embedding is asked of, in turn, and whether one of them gave it. -/
def embedForSemanticCache (st : AppState) (tenant : String) (k : VirtualKey) (now : ℕ)
    (embeds : String → Bool) : List String → HealthTracker → List String × Bool
  | [], _ => ([], false)
  | name :: chain, h =>
    match st.resolveProvider tenant name with
    | none => embedForSemanticCache st tenant k now embeds chain h
    | some _ =>
      let (available, h) := h.isAvailable tenant name now
      if !available then embedForSemanticCache st tenant k now embeds chain h
      else
        match (st.resolveApiKey k name).or (st.customProviders.apiKey tenant name) with
        | none => embedForSemanticCache st tenant k now embeds chain h
        | some _ =>
          if embeds name then ([name], true)
          else
            let (names, got) := embedForSemanticCache st tenant k now embeds chain h
            (name :: names, got)

namespace Gateway

variable (gw : Gateway) (call : ChatCall) (payload : ChatCompletionRequest)

def checkChatInput : Option ApiError :=
  let count := payload.messages.length
  let totalChars := (payload.messages.map fun m => m.content.asText.utf8ByteSize).sum
  if gw.maxMessages < count then
    some (inputLimitExceeded ("too many messages: " ++ toString count ++
      " exceeds the per-request limit of " ++ toString gw.maxMessages))
  else if gw.maxMessageChars < totalChars then
    some (inputLimitExceeded ("message content too large: " ++ toString totalChars ++
      " characters exceeds the per-request limit of " ++ toString gw.maxMessageChars))
  else none

/-- The slots a request is held to, its model's included. -/
def guards : LimitGuards :=
  gw.site.limits.resolveForModel call.routeplaneKey call.tenantId payload.model

/-- Classified as it came, before masking. -/
def classification : Classification :=
  gw.site.classify (residencyClassifierText payload.messages)

def required : Option Region :=
  requiredRegion call.requestedRegion (gw.classification payload)

/-- The config that routes a request: an explicit one, if the tenant may bring it, else the combo. -/
def routingConfig (combo : Option RoutingConfig) : Except ConfigError (Option RoutingConfig) :=
  if call.tenant.active .routingPolicy then
    (resolveRoutingConfig gw.parsers gw.policies call.config).map fun explicit => explicit.or combo
  else .ok combo

/-- The chain of the provider header; without it, a runtime provider's model goes there, unless it
is a built-in one. -/
def headerTargets : List TargetPlan :=
  match call.requested with
  | some requested => (splitText ',' requested).map fun s => defaultTargetPlan (trimText s)
  | none =>
    match (gw.site.app.customProviders.providerForModel call.tenantId payload.model).filter
        fun _ => !gw.site.isBuiltinModel payload.model with
    | some custom => [defaultTargetPlan custom]
    | none => [defaultTargetPlan "openai"]

/-- The plan of a request before anything is filtered or ordered. -/
structure Flat where
  targets : List TargetPlan
  strategy : RoutingStrategy
  configMatched : Option String := none
  hedge : Option HedgePolicy := none

def flatTargets (config : Option RoutingConfig) (metadata : Metadata) (seed : BitVec 64) : Flat :=
  match config with
  | some cfg =>
    let plan := cfg.evaluate metadata payload (.seeded seed)
    ⟨plan.targets, RoutingStrategy.parse plan.strategy.asRouterStr, some plan.matchedLabel, plan.hedge⟩
  | none => { targets := gw.headerTargets call payload, strategy := call.routingStrategy }

/-- The targets a request may go to, or the region none is resident in. Without a config, every
resident provider is one. -/
def attemptTargets (required : Option Region) (configured : Bool) (targets : List TargetPlan) :
    Except Region (List TargetPlan) :=
  match required with
  | none => .ok targets
  | some region =>
    let resident :=
      if configured then targets.filter fun t => providerResident gw.site.app t.provider region
      else (residentNames gw.site.app region.code).map defaultTargetPlan
    if resident.isEmpty then .error region else .ok resident

/-- The request that is forwarded. -/
def forwarded : ChatCompletionRequest :=
  maskRequest gw.site.processText gw.compress (call.tenant.active .tokenCompression) payload

/-- The limiter in charge admits. -/
def admitRequest (guards : LimitGuards) (nowMs : ℕ) (trips : ℕ → Trip) (hr : Heap × Redis) :
    Limits.Admission :=
  match gw.limiter with
  | some d => (d.admitRequest guards nowMs trips hr).1
  | none => (guards.admitRequest nowMs hr.1).1

end Gateway

/-! ## The run -/

section

variable {ρ : Type} (gw : Gateway) (call : ChatCall) (c : Circumstances ρ)

/-- The executor of a planned request. -/
def Circumstances.execution (isStream : Bool) (hedge : Option HedgePolicy) : Execution ρ :=
  if isStream then .streaming c.env
  else
    match hedge with
    | none => .buffered c.env
    | some policy => .hedged policy c.pick c.strands c.steps

/-- A request as the executors get it, once its plan is ordered. -/
def plannedRequest (payload : ChatCompletionRequest) (config : Option RoutingConfig)
    (flat : Gateway.Flat) (targets : List TargetPlan) : PlannedRequest where
  key := call.key
  caller :=
    { tenantId := call.tenantId
      keyName := call.key.name
      requestId := call.requestId
      region := (gw.required call payload).map (·.code)
      sovereign := (gw.required call payload).isSome
      configRef := config.map fun _ => call.configRefLabel
      configMatched := flat.configMatched }
  payload := gw.forwarded call payload
  requestSeed := c.seed
  backoffSeed := c.backoffSeed
  targets := targets
  requestTimeoutMs := config.bind (·.timeoutMs)
  headerTimeoutMs := call.requestTimeout
  startedAt := c.startedAt
  cappedAt := c.cappedAt
  clientCappedAt := c.clientCappedAt

/-- The request in its executor's hands: the targets ordered, the executor chosen. -/
def plannedService (payload : ChatCompletionRequest) (config : Option RoutingConfig)
    (flat : Gateway.Flat) (targets : List TargetPlan) : Service ρ :=
  let (ordered, _, health) := orderTargets c.router call.tenantId flat.strategy c.health c.orderedAt
    c.nanos targets
  { request := plannedRequest gw call c payload config flat ordered
    execution := c.execution (payload.stream.getD false) flat.hedge
    now := c.servedAt
    health := c.meanwhile health }

/-- Admit and serve. -/
def serveTargets (payload : ChatCompletionRequest) (config : Option RoutingConfig)
    (flat : Gateway.Flat) (targets : List TargetPlan) : ChatRun ρ :=
  let service := plannedService gw call c payload config flat targets
  let guards := gw.guards call payload
  let admission := gw.admitRequest guards c.admittedAt c.trips (c.heap, c.redis)
  let admitted : ChatEvent := .admitted guards gw.limiter admission
  match admission with
  | .denied breach => .refuse (limitRejection breach) [admitted]
  | .allowed _ =>
    let tried := (service.record gw.site.app gw.site.deadlineConfig).map ChatEvent.tried
    let won := (service.winner gw.site.app gw.site.deadlineConfig).isSome
    { answer := .served service
      events := admitted :: tried ++ if won then [.settled guards] else [] }

/-- The semantic cache: the providers asked for an embedding, and whether it had an answer. -/
def semanticLookup (plan : SemanticPlan) (targets : List TargetPlan) : List ChatEvent × Bool :=
  match plan with
  | .off => ([], false)
  | .active key refresh _ _ _ =>
    let (asked, got) := embedForSemanticCache gw.site.app call.tenantId call.key c.orderedAt c.embeds
      (planChain targets) c.health
    (asked.map ChatEvent.embedded, got && !refresh && c.semanticHit key)

/-- The plan made and the caches asked: filter by residency, then order, admit and serve. -/
def serveFlat (payload : ChatCompletionRequest) (config : Option RoutingConfig)
    (flat : Gateway.Flat) : ChatRun ρ :=
  match gw.attemptTargets (gw.required call payload) config.isSome flat.targets with
  | .error region => .refuse (sovereignBlock region.code)
  | .ok targets => serveTargets gw call c payload config flat targets

/-- The exact cache answers. -/
def exactHit (plan : CachePlan) : Bool :=
  match plan with
  | .active key false _ _ => c.cached key
  | _ => false

def chatCompletionsPipeline (payload : ChatCompletionRequest) (combo : Option RoutingConfig) :
    ChatRun ρ :=
  match gw.checkChatInput payload with
  | some e => .refuse e
  | none =>
    match gw.routingConfig call combo with
    | .error e => .refuse (configErrorResponse e)
    | .ok config =>
      match parseMetadata gw.parsers call.metadata with
      | .error e => .refuse (configErrorResponse e)
      | .ok metadata =>
        let flat := gw.flatTargets call payload config metadata c.seed
        let directive := config.bind (·.cache)
        let regulated := (gw.classification payload).containsPersonalData ||
          (gw.required call payload).isSome
        let plan := cachePlan gw.cache call.key directive call.noStore regulated
          (payload.stream.getD false) flat.targets payload
        let semantic := semanticPlan (gw.semanticCache && call.tenant.active .semanticCache) plan
          directive flat.targets payload
        if exactHit c plan then { answer := .cached }
        else
          let (asked, hit) := semanticLookup gw call c semantic flat.targets
          if hit then { answer := .semanticCached, events := asked }
          else
            let run := serveFlat gw call c payload config flat
            { run with events := asked ++ run.events }

/-- The gates, then the pipeline. Between them the idempotency layer runs it or replays it. -/
def chatCompletionsCore (payload : ChatCompletionRequest) : ChatRun ρ :=
  match coreGates gw.overlay call.key call.tenant gw.policies payload with
  | .error e => .refuse e
  | .ok g => { chatCompletionsPipeline gw call c g.payload g.combo with warning := g.warning }

end

end Routeplane
