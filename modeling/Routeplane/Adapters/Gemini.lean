import Routeplane.Adapters.Sse
import Routeplane.Adapters.Vision

/-!
# Gemini contents

Gemini gives no ids to its calls and reports `STOP` even for a turn that calls tools: both
translations synthesise the ids and the finish reason.

System messages become the system instruction, every other message a content of one of the two
roles. A call is correlated with its result by the name of the function, for which the id of the
call stands in.

* `GeminiResponse.translate`: the buffered translation.
* `GeminiStreamState.partialResponse`: one partial response. `geminiSseToChunks`: the stream.
* `geminiContentParts`: the parts of an ordinary message; an image must be inline.
* `buildGeminiRequest`: the whole request.
-/

namespace Routeplane

structure GeminiCandidate where
  parts : List Value
  finishReason : String

structure GeminiUsage where
  promptTokenCount : UInt32 := 0
  candidatesTokenCount : UInt32 := 0
  totalTokenCount : UInt32 := 0
  cachedContentTokenCount : Option UInt32 := none
  thoughtsTokenCount : Option UInt32 := none

structure GeminiResponse where
  candidates : List GeminiCandidate
  usageMetadata : Option GeminiUsage := none

def mapGeminiFinish (reason : String) : String :=
  if reason = "STOP" then "stop"
  else if reason = "MAX_TOKENS" then "length"
  else if reason = "SAFETY" ∨ reason = "RECITATION" then "content_filter"
  else reason

/-- The text of a part. -/
def geminiText (part : Value) : Option String := (part.get "text").bind Value.asStr

/-- The call of a part that is not a text. -/
def geminiCall (serde : Serde) (part : Value) : Option FunctionCall :=
  match geminiText part with
  | some _ => none
  | none => (part.get "functionCall").map fun fc =>
    ⟨((fc.get "name").bind Value.asStr).getD "", ((fc.get "args").bind serde.toString).getD "{}"⟩

namespace GeminiCandidate

def texts (c : GeminiCandidate) : List String := c.parts.filterMap geminiText

/-- The calls of the parts from position `i` on, each with an id of its position. -/
def toolCallsFrom (serde : Serde) : ℕ → List Value → List ToolCall
  | _, [] => []
  | i, part :: parts =>
    ((geminiCall serde part).map fun function =>
      (⟨"call_" ++ toString i, "function", function⟩ : ToolCall)).toList ++
      toolCallsFrom serde (i + 1) parts

def toolCalls (serde : Serde) (c : GeminiCandidate) : List ToolCall := toolCallsFrom serde 0 c.parts

def choice (serde : Serde) (index : ℕ) (c : GeminiCandidate) : Choice where
  index := index.toUInt32
  message := {
    role := "assistant"
    content := .text (String.join c.texts)
    toolCalls := if (c.toolCalls serde).isEmpty then none else some (c.toolCalls serde) }
  finishReason :=
    if (c.toolCalls serde).isEmpty then mapGeminiFinish c.finishReason else "tool_calls"

end GeminiCandidate

def GeminiUsage.canonical (u : GeminiUsage) : Usage where
  promptTokens := u.promptTokenCount
  completionTokens := u.candidatesTokenCount + u.thoughtsTokenCount.getD 0
  totalTokens := u.totalTokenCount
  cachedTokens := u.cachedContentTokenCount

def GeminiResponse.translate (id model : String) (created : ℕ) (serde : Serde)
    (r : GeminiResponse) : Except ProviderError ChatCompletionResponse :=
  if r.candidates.isEmpty then .error (.translation "No candidates in Gemini response")
  else .ok {
    id := id
    object := "chat.completion"
    created := created
    model := model
    choices := r.candidates.mapIdx fun i c => c.choice serde i
    usage := (r.usageMetadata.getD {}).canonical }

/-! ## The stream -/

structure GeminiStreamState where
  nextToolIndex : UInt32 := 0
  sawToolCall : Bool := false

/-- What the stream's chunks have in common. -/
structure GeminiStreamId where
  id : String
  model : String
  created : ℕ

namespace GeminiStreamState

variable (serde : Serde) (ident : GeminiStreamId) (st : GeminiStreamState)

def chunk (delta : Delta) (finishReason : Option String := none) (usage : Option Usage := none) :
    ChatCompletionChunk :=
  .ofDelta ident.id ident.model ident.created delta finishReason usage

/-- A text part is a content delta unless it is empty; a call comes whole, as one delta. -/
def part (p : Value) : List ChatCompletionChunk × GeminiStreamState :=
  match geminiText p with
  | some text =>
    (if text.isEmpty then [] else [.contentDelta ident.id ident.model ident.created text], st)
  | none =>
    match geminiCall serde p with
    | none => ([], st)
    | some function =>
      ([chunk ident { toolCalls := some [{
        index := st.nextToolIndex
        id := some ("call_" ++ toString st.nextToolIndex.toNat)
        toolType := some "function"
        function := some ⟨some function.name, some function.arguments⟩ }] }],
        { nextToolIndex := st.nextToolIndex + 1, sawToolCall := true })

def parts : GeminiStreamState → List Value → List ChatCompletionChunk × GeminiStreamState
  | st, [] => ([], st)
  | st, p :: ps =>
    ((st.part serde ident p).1 ++ (parts (st.part serde ident p).2 ps).1,
      (parts (st.part serde ident p).2 ps).2)

/-- The usage of the last partial response; counts that are not there read as zero. -/
def usage (u : Value) : Usage where
  promptTokens := (u.idx "promptTokenCount").asU64AsU32.getD 0
  completionTokens := ((u.idx "candidatesTokenCount").asU64.getD 0 +
    (u.idx "thoughtsTokenCount").asU64.getD 0).toUInt32
  totalTokens := (u.idx "totalTokenCount").asU64AsU32.getD 0
  cachedTokens := (u.idx "cachedContentTokenCount").asU64AsU32

def finish (v : Value) (reason : String) : ChatCompletionChunk :=
  chunk ident {} (some (if st.sawToolCall then "tool_calls" else mapGeminiFinish reason))
    ((v.get "usageMetadata").map usage)

/-- `v["candidates"].get(0)`. -/
def candidate (v : Value) : Option Value :=
  ((v.idx "candidates").asArray.getD []).head?

/-- One partial response. -/
def partialResponse (v : Value) : Except ProviderError (List ChatCompletionChunk × GeminiStreamState) :=
  match (v.get "error").bind fun e => e.asObject.map fun _ => e with
  | some err =>
    let status := (((err.get "status").bind Value.asStr).or
      (((err.get "code").bind Value.asU64).map toString)).getD "error"
    .error (.translation ("gemini stream error: " ++ status))
  | none =>
    match candidate v with
    | none => .ok ([], st)
    | some candidate =>
      let (out, st) := st.parts serde ident
        (((candidate.idx "content").idx "parts").asArray.getD [])
      .ok (out ++ ((candidate.idx "finishReason").asStr.map (st.finish ident v)).toList, st)

end GeminiStreamState

def translateGeminiChunk (serde : Serde) (ident : GeminiStreamId) (st : GeminiStreamState)
    (payload : String) : Except ProviderError (List ChatCompletionChunk × GeminiStreamState) :=
  match serde.fromStr payload with
  | .error e => .error (.translation ("Gemini stream parse error: " ++ e ++ ": " ++ payload))
  | .ok v => st.partialResponse serde ident v

/-- No payload ends the stream: it ends with its bytes. -/
def geminiLoop (serde : Serde) (ident : GeminiStreamId) : SseLoop GeminiStreamState where
  start := {}
  transportError e := .translation ("Gemini stream transport error: " ++ e)
  translate st payload :=
    match translateGeminiChunk serde ident st payload with
    | .error e => .error e
    | .ok (out, st) => .ok (out, false, st)

def geminiSseToChunks (serde : Serde) (ident : GeminiStreamId) (reads : List Read) :
    List StreamItem :=
  (geminiLoop serde ident).chunks serde reads

/-! ## The Gemini request -/

structure GeminiContent where
  role : String
  parts : List Value
  deriving Inhabited

structure GeminiGenerationConfig where
  maxOutputTokens : Option UInt32 := none
  temperature : Option Float32 := none
  topP : Option Float32 := none
  stopSequences : Option (List String) := none
  candidateCount : Option UInt32 := none
  seed : Option ℤ := none
  presencePenalty : Option Float32 := none
  frequencyPenalty : Option Float32 := none
  responseLogprobs : Option Bool := none
  logprobs : Option UInt32 := none
  responseMimeType : Option String := none
  responseSchema : Option Value := none

structure GeminiRequest where
  contents : List GeminiContent
  systemInstruction : Option GeminiContent
  generationConfig : Option GeminiGenerationConfig
  tools : Option (List Value)

/-! ## Parts -/

def geminiTextPart (text : String) : Value := .obj [("text", .str text)]

def geminiInlinePart (data : DataUrl) : Value :=
  .obj [("inlineData", .obj [("mimeType", .str data.mediaType), ("data", .str data.base64Payload)])]

/-- A link cannot be forwarded as inline bytes. -/
def geminiLinkRefused : ProviderError :=
  .badRequest "gemini" 422 ("gemini requires inline (data:) image URLs; a plain http(s) image URL " ++
    "cannot be forwarded as inline bytes")

def geminiContentPart : ContentPart → Except ProviderError Value
  | .text text _ => .ok (geminiTextPart text)
  | .imageUrl image =>
    match parseDataUrl image.url with
    | some data => .ok (geminiInlinePart data)
    | none => .error geminiLinkRefused

def geminiContentParts : MessageContent → Except ProviderError (List Value)
  | .text t => .ok [geminiTextPart t]
  | .parts ps => ps.mapM geminiContentPart

/-- The result of a tool under the id of its call, the best there is for a name. -/
def geminiResponsePart (m : Message) : Value :=
  .obj [("functionResponse", .obj [("name", .str (m.toolCallId.getD "")),
    ("response", .obj [("result", .str m.content.asText)])])]

/-- The arguments are a JSON text, the args are what it parses to; `{}` if it does not. -/
def geminiCallArgs (serde : Serde) (call : ToolCall) : Value :=
  (serde.fromStr call.function.arguments).toOption.getD (.obj [])

def geminiCallPart (serde : Serde) (call : ToolCall) : Value :=
  .obj [("functionCall", .obj [("name", .str call.function.name),
    ("args", geminiCallArgs serde call)])]

def geminiCallParts (serde : Serde) (m : Message) (calls : List ToolCall) : List Value :=
  let text := m.content.asText
  (if text.isEmpty then [] else [geminiTextPart text]) ++ calls.map (geminiCallPart serde)

/-! ## Contents -/

/-- The calls of an assistant's turn, if it is one. -/
def Message.turnCalls (m : Message) : Option (List ToolCall) :=
  if m.role = "assistant" then m.toolCalls else none

/-- A message that is no system message. -/
def geminiContent (serde : Serde) (m : Message) : Except ProviderError GeminiContent :=
  if m.role = "tool" then .ok ⟨"user", [geminiResponsePart m]⟩
  else
    let role := if m.role = "user" then "user" else "model"
    match m.turnCalls with
    | some calls => .ok ⟨role, geminiCallParts serde m calls⟩
    | none => do
      let parts ← geminiContentParts m.content
      .ok ⟨role, parts⟩

def geminiSystemInstruction (parts : List String) : Option GeminiContent :=
  if parts.isEmpty then none else some ⟨"user", [geminiTextPart ("\n\n".intercalate parts)]⟩

/-! ## The request -/

/-- The MIME type and the schema of a structured output. -/
def mapResponseFormat (format : Option Value) : Option String × Option Value :=
  match format.bind fun rf => (rf.get "type").bind Value.asStr with
  | some "json_object" => (some "application/json", none)
  | some "json_schema" =>
    (some "application/json", format.bind fun rf => (rf.get "json_schema").bind (·.get "schema"))
  | _ => (none, none)

/-- None when every field is empty. -/
def GeminiGenerationConfig.fromRequest (request : ChatCompletionRequest) :
    Option GeminiGenerationConfig :=
  let format := mapResponseFormat request.responseFormat
  let cfg : GeminiGenerationConfig := {
    maxOutputTokens := request.maxCompletionTokens.or request.maxTokens
    temperature := request.temperature
    topP := request.topP
    stopSequences := request.stop
    candidateCount := request.n
    seed := request.seed
    presencePenalty := request.presencePenalty
    frequencyPenalty := request.frequencyPenalty
    responseLogprobs := request.logprobs
    logprobs := request.topLogprobs
    responseMimeType := format.1
    responseSchema := format.2 }
  if cfg.maxOutputTokens.isNone && cfg.temperature.isNone && cfg.topP.isNone &&
      cfg.stopSequences.isNone && cfg.candidateCount.isNone && cfg.seed.isNone &&
      cfg.presencePenalty.isNone && cfg.frequencyPenalty.isNone && cfg.responseLogprobs.isNone &&
      cfg.logprobs.isNone && cfg.responseMimeType.isNone && cfg.responseSchema.isNone then none
  else some cfg

def geminiDeclaration (t : Tool) : Value :=
  .obj ([("name", .str t.function.name)] ++
    (t.function.description.map fun d => ("description", .str d)).toList ++
    (t.function.parameters.map fun p => ("parameters", p)).toList)

def buildGeminiTools : Option (List Tool) → Option (List Value)
  | some (t :: ts) =>
    some [.obj [("functionDeclarations", .arr ((t :: ts).map geminiDeclaration))]]
  | _ => none

def buildGeminiRequest (serde : Serde) (request : ChatCompletionRequest) :
    Except ProviderError GeminiRequest := do
  let contents ← (request.messages.filter fun m => m.role ≠ "system").mapM (geminiContent serde)
  .ok {
    contents
    systemInstruction := geminiSystemInstruction
      ((request.messages.filter fun m => m.role = "system").map fun m => m.content.asText)
    generationConfig := GeminiGenerationConfig.fromRequest request
    tools := buildGeminiTools request.tools }

end Routeplane
