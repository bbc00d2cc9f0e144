import Routeplane.Adapters.OpenAi
import Routeplane.Adapters.Sse
import Routeplane.Providers.Registry

/-!
# The adapters of the OpenAI wire

What an adapter sends, what comes back, and the errors for what is not an answer. Eleven adapters
send the canonical request as it is, a few fields aside, and read the canonical response. They differ
in where they send it, how they authenticate, and in three habits.

* `sanitizeTransportError`, `errorFromResponse`: the typed error of a failed call.
* `WireAdapter`: what they differ in. `WireAdapter.chatCompletion`,
  `WireAdapter.chatCompletionStream`: their two calls.
* `openaiWireProviders`: the eleven, as the registry builds them.
-/

namespace Routeplane

/-! ## The upstream call -/

structure HttpRequest where
  url : String
  headers : List (String × String)
  body : Value
  deriving Inhabited

/-- An upstream's answer. `text` is its body as a whole, `reads` as it arrives. -/
structure HttpResponse where
  status : ℕ
  /-- `Retry-After` in its seconds form. -/
  retryAfter : Option ℕ := none
  text : String
  reads : List Read := []

def HttpResponse.isSuccess (resp : HttpResponse) : Bool := 200 ≤ resp.status ∧ resp.status < 300

/-- What went wrong with a call, as the client tells it apart. -/
inductive TransportError
  | timeout
  | connect
  | request
  | decode
  | body
  | other
  deriving DecidableEq, Repr

/-- The call itself. -/
abbrev Send := HttpRequest → Except TransportError HttpResponse

/-- Fixed texts: the client's own would show the URL, which may carry a key. -/
def sanitizeTransportError (provider : String) : TransportError → ProviderError
  | .timeout => .timeout provider "request timed out"
  | .connect => .network provider "connection failed"
  | .request => .network provider "request error"
  | .decode => .translation (provider ++ ": response decode error")
  | .body => .translation (provider ++ ": request/response body error")
  | .other => .network provider "upstream transport error"

def maxErrorBodyBytes : ℕ := 2048

/-- The longest beginning of at most `n` bytes that splits no character. -/
def headWithin (n : ℕ) : List Char → List Char
  | [] => []
  | c :: cs => if c.utf8Size ≤ n then c :: headWithin (n - c.utf8Size) cs else []

def truncateBody (body : String) : String :=
  if maxErrorBodyBytes < body.utf8ByteSize then
    String.ofList (headWithin maxErrorBodyBytes body.toList) ++ "…[truncated]"
  else body

def classifyStatus (provider : String) (status : ℕ) (retryAfter : Option ℕ) (body : String) :
    ProviderError :=
  if status = 401 ∨ status = 403 then .auth provider status body
  else if status = 408 then
    .timeout provider (if body.isEmpty then "upstream returned 408" else "upstream 408: " ++ body)
  else if status = 429 then .rateLimited provider (retryAfter.map (· * 1000)) body
  else if 500 ≤ status ∧ status ≤ 599 then .upstream5xx provider status body
  else .badRequest provider status body

def errorFromResponse (provider : String) (resp : HttpResponse) : ProviderError :=
  classifyStatus provider resp.status resp.retryAfter (truncateBody resp.text)

/-! ## The adapters -/

open Custom (trimEndSlashes SelfHostedProvider)

/-- An adapter of the OpenAI wire. -/
structure WireAdapter where
  name : String
  /-- Where a request goes; an error if it may go nowhere. -/
  url : ChatCompletionRequest → Except ProviderError String
  headers : String → List (String × String)
  /-- Newer models get their limit under its new name. -/
  remaps : Bool := false
  /-- A stream is asked for its usage. -/
  streamUsage : Bool := true
  /-- A buffered response is read as JSON first, to lift the nested count of cached tokens. -/
  lifts : Bool := false

/-- `value[key] = x` of an object. -/
def Value.setKey (v : Value) (key : String) (x : Value) : Value :=
  match v with
  | .obj fs => .obj (Fields.insert fs key x)
  | v => v

namespace WireAdapter

variable (a : WireAdapter)

/-- What both modes change in a request. -/
def outbound (body : Value) (model : String) : Value :=
  let body := stripCacheControlForOpenai body
  if a.remaps then remapMaxTokensForReasoningModels body model else body

def body (request : ChatCompletionRequest) : Value := a.outbound (.obj request.toJson) request.model

def streamBody (request : ChatCompletionRequest) : Value :=
  let body := (Value.obj request.toJson).setKey "stream" (.bool true)
  let body :=
    if a.streamUsage then body.setKey "stream_options" (.obj [("include_usage", .bool true)])
    else body
  a.outbound body request.model

/-- The response of an answer's text. What is no JSON is the transport's error in any case, and what
is no response is if the text is read at once. -/
def readResponse (serde : WireSerde) (text : String) : Except ProviderError ChatCompletionResponse :=
  match serde.fromStr text with
  | .error _ => .error (sanitizeTransportError a.name .decode)
  | .ok v =>
    if a.lifts then
      match serde.responseFromValue (liftOpenaiCachedTokens v) with
      | .error e => .error (.translation (a.name ++ " response parse error: " ++ e))
      | .ok response => .ok response
    else
      match serde.responseFromValue v with
      | .error _ => .error (sanitizeTransportError a.name .decode)
      | .ok response => .ok response

/-- Send a body, and keep an answer that is a success. -/
def exchange (send : Send) (request : ChatCompletionRequest) (apiKey : String) (body : Value) :
    Except ProviderError HttpResponse := do
  let url ← a.url request
  match send { url, headers := a.headers apiKey, body } with
  | .error e => .error (sanitizeTransportError a.name e)
  | .ok resp => if resp.isSuccess then .ok resp else .error (errorFromResponse a.name resp)

def chatCompletion (serde : WireSerde) (send : Send) (request : ChatCompletionRequest)
    (apiKey : String) : Except ProviderError ChatCompletionResponse := do
  let resp ← a.exchange send request apiKey (a.body request)
  a.readResponse serde resp.text

def chatCompletionStream (serde : WireSerde) (send : Send) (request : ChatCompletionRequest)
    (apiKey : String) : Except ProviderError (List StreamItem) := do
  let resp ← a.exchange send request apiKey (a.streamBody request)
  return openaiSseToChunks serde.toSerde resp.reads

end WireAdapter

/-! ## The eleven -/

def bearer (apiKey : String) : List (String × String) :=
  [("Authorization", "Bearer " ++ apiKey)]

/-- A base URL with a path after it. -/
def urlAt (baseUrl path : String) : ChatCompletionRequest → Except ProviderError String :=
  fun _ => .ok (baseUrl ++ path)

/-- The same where the base may not be configured. -/
def urlIfSet (baseUrl path missing : String) : ChatCompletionRequest → Except ProviderError String :=
  fun _ => if baseUrl.isEmpty then .error (.translation missing) else .ok (baseUrl ++ path)

def openAiProvider (baseUrl : String) : WireAdapter where
  name := "openai"
  url := urlAt baseUrl "/v1/chat/completions"
  headers := bearer
  remaps := true
  lifts := true

/-- Azure routes by deployment: `deployments` selects one by the model where it is configured. -/
structure AzureOpenAiProvider where
  endpoint : String
  deployment : String
  apiVersion : String
  region : String
  deployments : List (String × String) := []
  deriving DecidableEq, Repr, Inhabited

namespace AzureOpenAiProvider

variable (p : AzureOpenAiProvider)

def deploymentUnmapped (model : String) : ProviderError :=
  .badRequest "azure_openai" 422 ("azure_deployment_unmapped: model '" ++ model ++
    "' maps to no configured Azure deployment (set it in AZURE_OPENAI_DEPLOYMENTS)")

/-- A model the map does not name is refused; without a map all go to one deployment. -/
def resolveDeployment (model : String) : Except ProviderError String :=
  if p.deployments.isEmpty then .ok p.deployment
  else ((p.deployments.lookup model).map .ok).getD (.error (deploymentUnmapped model))

def chatUrl (deployment : String) : String :=
  trimEndSlashes p.endpoint ++ "/openai/deployments/" ++ deployment ++
    "/chat/completions?api-version=" ++ p.apiVersion

def adapter : WireAdapter where
  name := "azure_openai"
  url request := do
    if p.endpoint.isEmpty then
      .error (.translation "Azure OpenAI endpoint not configured (set AZURE_OPENAI_ENDPOINT)")
    else p.chatUrl <$> p.resolveDeployment request.model
  headers apiKey := [("api-key", apiKey), ("content-type", "application/json")]
  remaps := true
  lifts := true

/-- The map is read from a JSON object; what is none is ignored. -/
def fromEnv (serde : WireSerde) (env : EnvVars) : AzureOpenAiProvider where
  endpoint := (env "AZURE_OPENAI_ENDPOINT").getD ""
  deployment := (env "AZURE_OPENAI_DEPLOYMENT").getD ""
  apiVersion := (env "AZURE_OPENAI_API_VERSION").getD "2024-10-21"
  region := (env "AZURE_OPENAI_REGION").getD "IN"
  deployments :=
    let raw := (env "AZURE_OPENAI_DEPLOYMENTS").getD ""
    if (trimText raw).isEmpty then []
    else ((serde.fromStr raw).toOption.bind (readMap Value.asStr)).getD []

end AzureOpenAiProvider

/-- The habit of seven of them: the request is stripped, and the response read at once. -/
def plainAdapter (name baseUrl path : String) : WireAdapter where
  name := name
  url := urlAt baseUrl path
  headers := bearer

def mistralProvider (baseUrl : String) : WireAdapter :=
  plainAdapter "mistral" baseUrl "/v1/chat/completions"

def groqProvider (baseUrl : String) : WireAdapter :=
  plainAdapter "groq" baseUrl "/openai/v1/chat/completions"

def deepSeekProvider (baseUrl : String) : WireAdapter :=
  plainAdapter "deepseek" baseUrl "/chat/completions"

def togetherProvider (baseUrl : String) : WireAdapter :=
  plainAdapter "together" baseUrl "/chat/completions"

def fireworksProvider (baseUrl : String) : WireAdapter :=
  plainAdapter "fireworks" baseUrl "/chat/completions"

def xaiProvider (baseUrl : String) : WireAdapter := plainAdapter "xai" baseUrl "/chat/completions"

/-- It names the gateway to the aggregator beside. -/
def openRouterProvider (baseUrl : String) : WireAdapter :=
  { plainAdapter "openrouter" baseUrl "/api/v1/chat/completions" with
    headers := fun apiKey => bearer apiKey ++
      [("HTTP-Referer", "https://routeplane.ai"), ("X-Title", "Routeplane")] }

def bedrockProvider (baseUrl : String) : WireAdapter where
  name := "bedrock"
  url := urlIfSet baseUrl "/v1/chat/completions"
    "bedrock endpoint not configured (set BEDROCK_BASE_URL)"
  headers := bearer
  lifts := true

/-- Strict servers refuse the option, and are not asked for the usage. -/
def streamUsageDisabled (val : Option String) : Bool :=
  val.any fun v => ["0", "off", "false", "no"].contains (asciiLower (trimText v))

namespace Custom.SelfHostedProvider

def adapter (p : SelfHostedProvider) : WireAdapter where
  name := "self_hosted"
  url := urlIfSet p.baseUrl "/v1/chat/completions"
    "self-hosted endpoint not configured (set SELF_HOSTED_BASE_URL)"
  headers := bearer
  streamUsage := p.streamIncludeUsage
  lifts := true

def fromEnv (env : EnvVars) : SelfHostedProvider :=
  let p := new ((env "SELF_HOSTED_BASE_URL").getD "") ((env "SELF_HOSTED_REGION").getD "")
  if streamUsageDisabled (env "SELF_HOSTED_STREAM_INCLUDE_USAGE") then p.withoutStreamUsage else p

end Custom.SelfHostedProvider

/-- Those of the registry that speak the OpenAI wire. -/
def openaiWireProviders (serde : WireSerde) (env : EnvVars) : List WireAdapter :=
  [openAiProvider "https://api.openai.com", (AzureOpenAiProvider.fromEnv serde env).adapter,
    mistralProvider "https://api.mistral.ai",
    bedrockProvider (trimEndSlashes ((env "BEDROCK_BASE_URL").getD "")),
    groqProvider "https://api.groq.com", deepSeekProvider "https://api.deepseek.com",
    togetherProvider "https://api.together.ai/v1",
    fireworksProvider "https://api.fireworks.ai/inference/v1", xaiProvider "https://api.x.ai/v1",
    openRouterProvider "https://openrouter.ai", (SelfHostedProvider.fromEnv env).adapter]

/-- They are what the registry holds, in its order, but for the three with a wire of their own. -/
theorem openaiWireProviders_names (serde : WireSerde) (env : EnvVars) :
    (openaiWireProviders serde env).map (·.name) =
      builtinNames.filter (· ∉ ["anthropic", "gemini", "cohere"]) := by
  change ["openai", "azure_openai", "mistral", "bedrock", "groq", "deepseek", "together",
    "fireworks", "xai", "openrouter", "self_hosted"] = _
  decide

end Routeplane
