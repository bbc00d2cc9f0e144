import Routeplane.Adapters.Provider
import Routeplane.Ledger.Entry
import Routeplane.Limits.Pricing
import Routeplane.Observability.UsageEvent

/-!
# The streaming response body

Once a provider has produced its first chunk the request is committed and its body is a
generator: each poll of the body runs it to its next suspension. Accounting (the budget
settlement, the ledger decision, the usage event) happens inline after the terminal frame,
or from the drop of a guard when the generator is cancelled before that.

* `Gen`: the suspension points of the generator.
* `poll`, `dropBody`: what one poll and the drop of the body do.
* `runBody`: a whole life of the body: some polls, then the drop.
-/

namespace Routeplane

/-- What the generator captured when the stream was committed. -/
structure StreamContext where
  tenantId : String
  requestId : String
  provider : String
  vkName : String
  modelHint : String
  region : Option String
  routeRegion : Option String
  classification : Classification
  sovereign : Bool
  clientProviderRequested : Bool
  ttfcMs : ℕ
  cacheStatus : Option String
  cacheNamespace : Option String
  useCase : Option String
  outputMasked : Option String
  /-- The liveness bound between chunks; `0` disables it. -/
  idleMs : ℕ
  /-- The egress masking pass over one text. -/
  mask : String → String
  /-- `serde_json::to_string` of a chunk. -/
  serialize : ChatCompletionChunk → Option String

/-- A frame handed to the client. -/
inductive Frame
  | chunk (c : ChatCompletionChunk) (json : String)
  | error (message : String)
  | done
  deriving Inhabited

structure Settlement where
  totalTokens : ℕ
  costMicroUsd : ℕ
  deriving DecidableEq, Repr

/-- Everything the body has put out so far. -/
structure BodyLog where
  frames : List Frame := []
  settlements : List Settlement := []
  decisions : List DecisionDraft := []
  events : List UsageEvent := []

/-- The fail-safe guard: what it settles when dropped while armed. -/
structure StreamAbortAccounting where
  armed : Bool
  model : String
  usage : Option Usage

def StreamAbortAccounting.observe (g : StreamAbortAccounting) (chunk : ChatCompletionChunk) :
    StreamAbortAccounting where
  armed := g.armed
  model := if chunk.model.isEmpty then g.model else chunk.model
  usage := chunk.usage.or g.usage

/-- The generator's locals. -/
structure StreamLocals where
  abortAcct : StreamAbortAccounting
  modelSeen : String
  accUsage : Option Usage

/-- The points the generator can be suspended at, or cancelled. -/
inductive Gen
  | created
  | awaiting (s : StreamLocals)
  | yielded (s : StreamLocals)
  | terminal (s : StreamLocals) (streamError : Option String)
  | finished

/-- What the await of the next item gives within one poll. -/
inductive NextItem
  | pending
  | item (r : Except ProviderError ChatCompletionChunk)
  | ended
  | elapsed

structure Body where
  gen : Gen
  log : BodyLog := {}

def zeroUsage : Usage where
  promptTokens := 0
  completionTokens := 0
  totalTokens := 0

/-! ## Accounting -/

def settlementOf (model : String) (usage : Usage) : Settlement where
  totalTokens := usage.totalTokens.toNat
  costMicroUsd := estimateCostMicroUsd model usage.promptTokens usage.completionTokens

def decisionOf (ctx : StreamContext) (model : String) (usage : Usage) (outcome : Outcome) :
    DecisionDraft :=
  decisionDraft ctx.tenantId ctx.requestId model (some ctx.provider) ctx.routeRegion
    ctx.classification ctx.region ctx.sovereign ctx.clientProviderRequested outcome
    ⟨usage.promptTokens, usage.completionTokens, usage.totalTokens⟩

/-- The usage event both accounting paths start from. -/
def eventOf (ctx : StreamContext) (model : String) (usage : Usage) : UsageEvent :=
  { UsageEvent.ofSuccess ctx.tenantId ctx.vkName ctx.provider model usage.promptTokens
      usage.completionTokens usage.totalTokens ctx.region ctx.sovereign with
    latencyMs := some ctx.ttfcMs
    cachedTokens := usage.cachedTokens
    requestId := some ctx.requestId }

/-- The guard's accounting on an early drop. -/
def StreamAbortAccounting.run (ctx : StreamContext) (g : StreamAbortAccounting) (log : BodyLog) :
    BodyLog :=
  let usage := g.usage.getD zeroUsage
  { log with
    settlements := log.settlements ++ [settlementOf g.model usage]
    decisions := log.decisions ++ [decisionOf ctx g.model usage .ok]
    events := log.events ++ [eventOf ctx g.model usage] }

/-- The inline accounting after the terminal frame. -/
def inlineAccounting (ctx : StreamContext) (s : StreamLocals) (streamError : Option String)
    (log : BodyLog) : BodyLog :=
  let usage := s.accUsage.getD zeroUsage
  let outcome := if streamError.isSome then .streamTruncated else .ok
  { log with
    settlements := log.settlements ++ [settlementOf s.modelSeen usage]
    decisions := log.decisions ++ [decisionOf ctx s.modelSeen usage outcome]
    events := log.events ++ [{ (eventOf ctx s.modelSeen usage).withStreamError streamError with
      cacheStatus := ctx.cacheStatus
      cacheNamespace := ctx.cacheNamespace
      useCase := ctx.useCase
      outputMasked := ctx.outputMasked }] }

/-! ## The generator -/

/-- Mask the texts of a chunk: `content`, and the passthrough deltas `reasoning_content` and
`refusal`. -/
def maskChunk (mask : String → String) (chunk : ChatCompletionChunk) : ChatCompletionChunk :=
  { chunk with choices := chunk.choices.map fun c =>
      { c with delta := { c.delta with
          content := c.delta.content.map mask
          reasoningContent := c.delta.reasoningContent.map mask
          refusal := c.delta.refusal.map mask } } }

/-- The terminal frame: the truth about how the stream ended. -/
def terminalFrame : Option String → Frame
  | some err => .error ("stream truncated: " ++ err)
  | none => .done

def toTerminal (s : StreamLocals) (streamError : Option String) (log : BodyLog) : Body :=
  ⟨.terminal s streamError, { log with frames := log.frames ++ [terminalFrame streamError] }⟩

/-- Fold a received chunk into the locals and the guard. -/
def StreamLocals.receive (s : StreamLocals) (chunk : ChatCompletionChunk) : StreamLocals where
  abortAcct := s.abortAcct.observe chunk
  modelSeen := if chunk.model.isEmpty then s.modelSeen else chunk.model
  accUsage := chunk.usage.or s.accUsage

/-- The loop body for one received chunk: up to its yield, or to the terminal frame when it
does not serialise. -/
def forwardChunk (ctx : StreamContext) (s : StreamLocals) (chunk : ChatCompletionChunk)
    (log : BodyLog) : Body :=
  let s := s.receive chunk
  let masked := maskChunk ctx.mask chunk
  match ctx.serialize masked with
  | some json => ⟨.yielded s, { log with frames := log.frames ++ [.chunk masked json] }⟩
  | none => toTerminal s (some "internal chunk serialization failure") log

/-- The loop from its await on, within one poll. -/
def continueLoop (ctx : StreamContext) (s : StreamLocals) (next : NextItem) (log : BodyLog) : Body :=
  match next with
  | .pending => ⟨.awaiting s, log⟩
  | .item (.ok chunk) => forwardChunk ctx s chunk log
  | .item (.error e) => toTerminal s (some e.display) log
  | .ended => toTerminal s none log
  | .elapsed =>
    if ctx.idleMs = 0 then ⟨.awaiting s, log⟩
    else toTerminal s
      (some ("no data from upstream provider for " ++ toString ctx.idleMs ++ "ms")) log

/-- The locals when the generator starts: the guard is built armed. -/
def startLocals (ctx : StreamContext) : StreamLocals where
  abortAcct := ⟨true, ctx.modelHint, none⟩
  modelSeen := ctx.modelHint
  accUsage := none

/-- One poll of the body. The first chunk is in hand, so the first poll needs no await. -/
def poll (ctx : StreamContext) (first : ChatCompletionChunk) (b : Body) (next : NextItem) : Body :=
  match b.gen with
  | .created => forwardChunk ctx (startLocals ctx) first b.log
  | .awaiting s | .yielded s => continueLoop ctx s next b.log
  | .terminal s streamError =>
    -- the guard is disarmed before the inline accounting, in the same poll
    ⟨.finished, inlineAccounting ctx s streamError b.log⟩
  | .finished => b

/-- The drop of the body: a live guard still armed accounts for the request. -/
def dropBody (ctx : StreamContext) (b : Body) : BodyLog :=
  match b.gen with
  | .created => b.log
  | .awaiting s | .yielded s | .terminal s _ =>
    if s.abortAcct.armed then s.abortAcct.run ctx b.log else b.log
  | .finished => b.log

/-- The body after some polls. -/
def runPolls (ctx : StreamContext) (first : ChatCompletionChunk) (polls : List NextItem) : Body :=
  polls.foldl (poll ctx first) ⟨.created, {}⟩

/-- A whole life of the body: polls, then the drop. -/
def runBody (ctx : StreamContext) (first : ChatCompletionChunk) (polls : List NextItem) : BodyLog :=
  dropBody ctx (runPolls ctx first polls)

end Routeplane
