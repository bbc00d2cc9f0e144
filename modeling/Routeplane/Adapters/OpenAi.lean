import Routeplane.Adapters.Sse
import Routeplane.Policy.RequestJson

/-!
# The OpenAI wire

Responses and chunks are read from an upstream's JSON field by field. A field that is not named here
is passed over.

* `stripCacheControlForOpenai`, `remapMaxTokensForReasoningModels`: what is changed in a request.
* `liftOpenaiCachedTokens`: what is changed in a response or a chunk.
* `parseOpenaiSsePayload`: one payload, `none` for the sentinel. `openaiSseToChunks`: the stream.
* `Usage.ofJson`: a usage block. `ChatCompletionResponse.ofJson`, `ChatCompletionChunk.ofJson`:
  what carries one.
* `WireSerde`: `serde_json` at these types.
-/

namespace Routeplane

/-- Lift the nested count of cached tokens into the flat field. -/
def liftOpenaiCachedTokens (v : Value) : Value :=
  match ((v.idx "usage").idx "prompt_tokens_details").idx "cached_tokens" |>.asU64 with
  | none => v
  | some cached =>
    match v, v.idx "usage" with
    | .obj fs, .obj usage =>
      .obj (Fields.insert fs "usage" (.obj (Fields.insert usage "cached_tokens" (.num (.int cached)))))
    | _, _ => v

/-- Models that take `max_completion_tokens` for `max_tokens`; an aggregator's name before the first
slash does not count. -/
def rejectsMaxTokens (model : String) : Bool :=
  let m := asciiLower (trimText model)
  let base := (splitOnce '/' m).elim m (·.2)
  ["gpt-5", "o1", "o3", "o4"].any fun head => (dropHead? head base).isSome

/-- What is there already under the new name wins. -/
def remapMaxTokensForReasoningModels (body : Value) (model : String) : Value :=
  if rejectsMaxTokens model then
    match body with
    | .obj obj =>
      match Fields.get obj "max_tokens" with
      | some val => .obj ((Fields.remove obj "max_tokens").entry "max_completion_tokens" val)
      | none => body
    | _ => body
  else body

/-- A content part without the cache marker. -/
def stripPart : Value → Value
  | .obj part => .obj (Fields.remove part "cache_control")
  | part => part

/-- A message without the cache marker and the fields that only responses have. -/
def stripMessage : Value → Value
  | .obj msg =>
    let msg := ((Fields.remove msg "cache_control").remove "reasoning_content").remove "refusal"
    match msg.get "content" with
    | some (.arr parts) => .obj (msg.insert "content" (.arr (parts.map stripPart)))
    | _ => .obj msg
  | msg => msg

def stripCacheControlForOpenai : Value → Value
  | .obj body =>
    match Fields.get body "messages" with
    | some (.arr messages) => .obj (Fields.insert body "messages" (.arr (messages.map stripMessage)))
    | _ => .obj body
  | body => body

def openaiParseError (e payload : String) : ProviderError :=
  .translation ("OpenAI stream parse error: " ++ e ++ ": " ++ payload)

def parseOpenaiSsePayload (serde : Serde) (payload : String) :
    Except ProviderError (Option ChatCompletionChunk) :=
  if payload = "[DONE]" then .ok none
  else
    match serde.fromStr payload with
    | .error e => .error (openaiParseError e payload)
    | .ok v =>
      match serde.chunkFromValue (liftOpenaiCachedTokens v) with
      | .error e => .error (openaiParseError e payload)
      | .ok chunk => .ok (some chunk)

def openaiLoop (serde : Serde) : SseLoop Unit where
  start := ()
  transportError e := .translation ("OpenAI stream transport error: " ++ e)
  translate _ payload :=
    match parseOpenaiSsePayload serde payload with
    | .error e => .error e
    | .ok (some chunk) => .ok ([chunk], false, ())
    | .ok none => .ok ([], true, ())

def openaiSseToChunks (serde : Serde) (reads : List Read) : List StreamItem :=
  (openaiLoop serde).chunks serde reads

end Routeplane

namespace Routeplane

def Usage.ofJson (v : Value) : Option Usage := do
  let fs ← v.asObject
  let promptTokens ← (fs.get "prompt_tokens").bind Value.asU32
  let completionTokens ← (fs.get "completion_tokens").bind Value.asU32
  let totalTokens ← (fs.get "total_tokens").bind Value.asU32
  let cachedTokens ← readOption Value.asU32 (fs.get "cached_tokens")
  let cacheCreationTokens ← readOption Value.asU32 (fs.get "cache_creation_tokens")
  some { promptTokens, completionTokens, totalTokens, cachedTokens, cacheCreationTokens }

def Choice.ofJson (v : Value) : Option Choice := do
  let fs ← v.asObject
  let index ← (fs.get "index").bind Value.asU32
  let message ← (fs.get "message").bind Message.ofJson
  let finishReason ← (fs.get "finish_reason").bind Value.asStr
  let logprobs ← readOption some (fs.get "logprobs")
  some { index, message, finishReason, logprobs }

def ChatCompletionResponse.ofJson (v : Value) : Option ChatCompletionResponse := do
  let fs ← v.asObject
  let id ← (fs.get "id").bind Value.asStr
  let object ← (fs.get "object").bind Value.asStr
  let created ← (fs.get "created").bind Value.asU64
  let model ← (fs.get "model").bind Value.asStr
  let choices ← (fs.get "choices").bind (readList Choice.ofJson)
  let usage ← (fs.get "usage").bind Usage.ofJson
  let systemFingerprint ← readOption Value.asStr (fs.get "system_fingerprint")
  let serviceTier ← readOption Value.asStr (fs.get "service_tier")
  some { id, object, created, model, choices, usage, systemFingerprint, serviceTier }

def FunctionCallChunk.ofJson (v : Value) : Option FunctionCallChunk := do
  let fs ← v.asObject
  let name ← readOption Value.asStr (fs.get "name")
  let arguments ← readOption Value.asStr (fs.get "arguments")
  some { name, arguments }

def ToolCallChunk.ofJson (v : Value) : Option ToolCallChunk := do
  let fs ← v.asObject
  let index ← (fs.get "index").bind Value.asU32
  let id ← readOption Value.asStr (fs.get "id")
  let toolType ← readOption Value.asStr (fs.get "type")
  let function ← readOption FunctionCallChunk.ofJson (fs.get "function")
  some { index, id, toolType, function }

def Delta.ofJson (v : Value) : Option Delta := do
  let fs ← v.asObject
  let role ← readOption Value.asStr (fs.get "role")
  let content ← readOption Value.asStr (fs.get "content")
  let toolCalls ← readOption (readList ToolCallChunk.ofJson) (fs.get "tool_calls")
  let refusal ← readOption Value.asStr (fs.get "refusal")
  let reasoningContent ← readOption Value.asStr (fs.get "reasoning_content")
  some { role, content, toolCalls, refusal, reasoningContent }

def ChunkChoice.ofJson (v : Value) : Option ChunkChoice := do
  let fs ← v.asObject
  let index ← (fs.get "index").bind Value.asU32
  let delta ← (fs.get "delta").bind Delta.ofJson
  let finishReason ← readOption Value.asStr (fs.get "finish_reason")
  let logprobs ← readOption some (fs.get "logprobs")
  some { index, delta, finishReason, logprobs }

def ChatCompletionChunk.ofJson (v : Value) : Option ChatCompletionChunk := do
  let fs ← v.asObject
  let id ← (fs.get "id").bind Value.asStr
  let object ← (fs.get "object").bind Value.asStr
  let created ← (fs.get "created").bind Value.asU64
  let model ← (fs.get "model").bind Value.asStr
  let choices ← (fs.get "choices").bind (readList ChunkChoice.ofJson)
  let usage ← readOption Usage.ofJson (fs.get "usage")
  let systemFingerprint ← readOption Value.asStr (fs.get "system_fingerprint")
  let serviceTier ← readOption Value.asStr (fs.get "service_tier")
  some { id, object, created, model, choices, usage, systemFingerprint, serviceTier }

/-- `serde_json` at the types of the wire: what it reads, and what it says of a value that is not of
the type asked for. -/
structure WireSerde extends Serde where
  notResponse : Value → String
  notChunk : Value → String
  chunk_eq : ∀ v, chunkFromValue v = (ChatCompletionChunk.ofJson v).elim (.error (notChunk v)) .ok

namespace WireSerde

variable (serde : WireSerde)

def responseFromValue (v : Value) : Except String ChatCompletionResponse :=
  (ChatCompletionResponse.ofJson v).elim (.error (serde.notResponse v)) .ok

end WireSerde

end Routeplane
