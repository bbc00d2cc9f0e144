import Routeplane.Endpoints.Handlers
import Routeplane.Policy.RequestJson
import Routeplane.Proxy.Pipeline
import Mathlib.Data.Set.Defs

/-!
# The Messages endpoint, and every serving endpoint

A native Anthropic request is translated to the canonical chat request and goes through the same
core as a chat completion.

The chat completions and the messages endpoint run the chat core; the others run a slice of it.
Side by side, what each of them does about limits and dispatches.

* `toCanonicalRequest`: the translation. `toAnthropicResponse`: the way back.
* `messages`: the handler; the chain defaults to `anthropic` unless a runtime provider serves the
  model.
* `ServingRequest.traces`: what a request can leave on record.
* `ServingRequest.model?`: the model it is for.
-/

namespace Routeplane

/-- `Value::get` with a key. -/
def Value.field (v : Value) (key : String) : Option Value :=
  v.asObject.bind fun fields => Fields.get fields key

/-- Bare text, or blocks that are kept as they are. -/
inductive AnthropicInboundContent
  | text (s : String)
  | blocks (bs : List Value)
  deriving Inhabited

structure AnthropicInboundMessage where
  role : String
  content : AnthropicInboundContent
  deriving Inhabited

structure AnthropicMessagesRequest where
  model : String
  maxTokens : Option UInt32 := none
  system : Option Value := none
  messages : List AnthropicInboundMessage := []
  temperature : Option Float32 := none
  topP : Option Float32 := none
  stopSequences : Option (List String) := none
  stream : Option Bool := none
  deriving Inhabited

/-- The system prompt as one text. -/
def flattenSystem : Value → Option String
  | .str s => some s
  | .arr blocks =>
    some ("\n\n".intercalate (blocks.filterMap fun b => (b.field "text").bind Value.asStr))
  | _ => none

/-- The URL of an image source: inline data, or a link. -/
def anthropicImageToUrl (source : Option Value) : Option String :=
  match source.bind fun s => (s.field "type").bind Value.asStr with
  | some "base64" => do
    let mediaType ← (source.bind (·.field "media_type")).bind Value.asStr
    let data ← (source.bind (·.field "data")).bind Value.asStr
    some ("data:" ++ mediaType ++ ";base64," ++ data)
  | some "url" => (source.bind (·.field "url")).bind Value.asStr
  | _ => none

/-- A block that can be represented; the others are skipped. -/
def toCanonicalPart (block : Value) : Option ContentPart :=
  match (block.field "type").bind Value.asStr with
  | some "text" => ((block.field "text").bind Value.asStr).map fun t => .text t none
  | some "image" => (anthropicImageToUrl (block.field "source")).map fun url => .imageUrl ⟨url, none⟩
  | _ => none

/-- Blocks without an image collapse to one text. -/
def toCanonicalContent : AnthropicInboundContent → MessageContent
  | .text s => .text s
  | .blocks bs =>
    let content : MessageContent := .parts (bs.filterMap toCanonicalPart)
    if content.hasImages then content else .text content.asText

def toCanonicalRequest (req : AnthropicMessagesRequest) : ChatCompletionRequest where
  model := req.model
  messages :=
    (((req.system.bind flattenSystem).filter fun t => !t.isEmpty).toList.map fun t =>
      { role := "system", content := .text t }) ++
    req.messages.map fun m => { role := m.role, content := toCanonicalContent m.content }
  temperature := req.temperature
  topP := req.topP
  maxTokens := req.maxTokens
  stop := req.stopSequences

/-- The finish reason as a stop reason; the native ones may have flowed through. -/
def mapFinishReason (finish : String) : String :=
  if finish = "stop" then "end_turn"
  else if finish = "length" then "max_tokens"
  else if finish = "tool_calls" then "tool_use"
  else if finish = "content_filter" then "end_turn"
  else if finish = "end_turn" ∨ finish = "max_tokens" ∨ finish = "stop_sequence" ∨
      finish = "tool_use" then finish
  else "end_turn"

/-- The usage block; a cache count is there if the canonical usage has it. -/
def usageBlock (u : Usage) : Value :=
  .obj (omitNone [("input_tokens", some (u32Json u.promptTokens)),
    ("output_tokens", some (u32Json u.completionTokens)),
    ("cache_read_input_tokens", u.cachedTokens.map u32Json),
    ("cache_creation_input_tokens", u.cacheCreationTokens.map u32Json)])

/-- The first choice as one text block. -/
def toAnthropicResponse (resp : ChatCompletionResponse) : Value :=
  let text := (resp.choices.head?.map fun c => c.message.content.asText).getD ""
  let stopReason := (resp.choices.head?.map fun c => mapFinishReason c.finishReason).getD "end_turn"
  .obj [("id", .str resp.id), ("type", .str "message"), ("role", .str "assistant"),
    ("model", .str resp.model),
    ("content", .arr [.obj [("type", .str "text"), ("text", .str text)]]),
    ("stop_reason", .str stopReason), ("stop_sequence", .null), ("usage", usageBlock resp.usage)]

/-- An error in the shape of the endpoint. -/
def anthropicError (message : String) : ApiError :=
  ⟨400, "", message, "invalid_request_error", none⟩

/-- The call as the core gets it. -/
def messagesCall (gw : Gateway) (call : ChatCall) (model : String) : ChatCall :=
  let toCustom := !gw.site.isBuiltinModel model &&
    (gw.site.app.customProviders.providerForModel call.tenantId model).isSome
  if call.provider.isNone && !toCustom then { call with provider := some (some "anthropic") }
  else call

def messages {ρ : Type} (gw : Gateway) (call : ChatCall) (c : Circumstances ρ)
    (req : AnthropicMessagesRequest) : ChatRun ρ :=
  if req.maxTokens.isNone then
    .refuse (anthropicError "`max_tokens` is required for /v1/messages.")
  else if req.stream.getD false then
    .refuse (anthropicError ("Streaming is not yet supported on /v1/messages. Use POST " ++
      "/v1/chat/completions with \"stream\": true (OpenAI-compatible SSE)."))
  else chatCompletionsCore gw (messagesCall gw call req.model) c (toCanonicalRequest req)

end Routeplane

namespace Routeplane

open Limits (LimitGuards DistributedLimiter)

/-- What bears on the limits in a request's record. -/
inductive Control
  /-- An admission, by the local engine or a shared limiter. -/
  | admitted (guards : LimitGuards) (limiter : Option DistributedLimiter)
  | dispatched
  | settled (guards : LimitGuards)

def ChatEvent.control? : ChatEvent → Option Control
  | .admitted guards limiter (.allowed _) => some (.admitted guards limiter)
  | .tried (.dispatched _) => some .dispatched
  | .settled guards => some (.settled guards)
  | _ => none

/-- The slices admit by the local engine alone. -/
def Endpoint.Event.control? {π : Type} : Endpoint.Event π → Option Control
  | .admitted guards (.allowed _) => some (.admitted guards none)
  | .handed _ => some .dispatched
  | .settled guards .. => some (.settled guards)
  | _ => none

/-- The model a payload names. -/
def Endpoint.Request.model : (r : Endpoint.Request) → r.Payload → Option String
  | .embeddings _, (p : EmbeddingRequest) => some p.model
  | .rerank _, (p : RerankRequest) => some p.model
  | .imageGeneration _, (p : ImageGenerationRequest) => p.model
  | .speech _, (p : SpeechRequest) => p.model
  | .audio .., (p : TranscriptionInput) => some p.params.model

/-- The state a request finds. -/
structure Moment where
  now : ℕ
  health : HealthTracker
  router : Router := {}
  heap : Limits.Heap := {}

inductive ServingRequest
  | chatCompletions (payload : ChatCompletionRequest)
  | messages (req : AnthropicMessagesRequest)
  | other (r : Endpoint.Request)

/-- The model a chat request's model field stands for: a catalog address is resolved, if the
catalog is active; a combo's name is left alone. -/
def Gateway.addressedModel (gw : Gateway) (k : VirtualKey) (tenant : TenantContext)
    (requested : String) : String :=
  if (gw.policies.combo requested).isNone && tenant.active .modelCatalog then
    match k.resolveSlug requested with
    | .resolved _ bare => bare
    | _ => requested
  else requested

namespace ServingRequest

variable (gw : Gateway) (call : ChatCall) (at_ : Moment)

/-- The records a request can leave: of the chat core, in all circumstances; of a slice, from the
state it finds, whatever the providers reply. -/
def traces : ServingRequest → Set (List Control)
  | chatCompletions payload =>
    {t | ∃ (ρ : Type) (c : Circumstances ρ),
      t = (chatCompletionsCore gw call c payload).events.filterMap ChatEvent.control?}
  | messages req =>
    {t | ∃ (ρ : Type) (c : Circumstances ρ),
      t = (Routeplane.messages gw call c req).events.filterMap ChatEvent.control?}
  | other r =>
    {t | ∃ env, t = (r.handle gw.site call.toCall env
      (.start at_.now at_.health at_.router at_.heap)).2.events.filterMap Endpoint.Event.control?}

/-- The model a request is for. -/
def model? : ServingRequest → Option String
  | chatCompletions payload => some (gw.addressedModel call.key call.tenant payload.model)
  | messages req => some (gw.addressedModel call.key call.tenant req.model)
  | other r =>
    match r.read gw.site with
    | .ok payload => r.model payload
    | .error _ => none

end ServingRequest

end Routeplane
