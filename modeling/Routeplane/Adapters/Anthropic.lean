import Routeplane.Adapters.Sse
import Routeplane.Adapters.Vision

/-!
# Anthropic messages

A message comes back whole, or as a stream of typed events whose identity, content and usage are
spread over several kinds of event.

System messages are lifted to the top level, tool results are turned into user messages, and a
message is a bare text unless an image or a cache marker needs blocks.

* `AnthropicResponse.translate`: the buffered translation.
* `AnthropicStreamState.event`: one event. `anthropicSseToChunks`: the stream.
* `anthropicContent`: the content of one message.
* `buildAnthropicRequest`: the whole request.
-/

namespace Routeplane

structure AnthropicContent where
  contentType : String
  text : Option String := none
  id : Option String := none
  name : Option String := none
  input : Option Value := none

structure AnthropicUsage where
  inputTokens : UInt32
  outputTokens : UInt32
  cacheReadInputTokens : Option UInt32 := none
  cacheCreationInputTokens : Option UInt32 := none

structure AnthropicResponse where
  id : String
  model : String
  content : List AnthropicContent
  usage : AnthropicUsage
  stopReason : String

def mapStopReason (anthropic : String) : String :=
  if anthropic = "end_turn" ∨ anthropic = "stop_sequence" then "stop"
  else if anthropic = "max_tokens" then "length"
  else anthropic

/-- The counts are disjoint: the prompt is the fresh, the read and the written tokens. -/
def anthropicUsage (input output : UInt32) (cacheRead cacheCreation : Option UInt32) : Usage :=
  let promptTokens := input + cacheRead.getD 0 + cacheCreation.getD 0
  { promptTokens := promptTokens
    completionTokens := output
    totalTokens := promptTokens + output
    cachedTokens := cacheRead
    cacheCreationTokens := cacheCreation }

namespace AnthropicResponse

def texts (r : AnthropicResponse) : List String :=
  r.content.filterMap fun block => if block.contentType = "text" then block.text else none

/-- The input of a `tool_use` block is an object, the canonical arguments are its text. -/
def toolCalls (serde : Serde) (r : AnthropicResponse) : List ToolCall :=
  r.content.filterMap fun block =>
    if block.contentType = "tool_use" then
      some ⟨block.id.getD "", "function",
        ⟨block.name.getD "", (block.input.bind serde.toString).getD "{}"⟩⟩
    else none

def finishReason (r : AnthropicResponse) : String :=
  if r.stopReason = "tool_use" then "tool_calls" else mapStopReason r.stopReason

def translate (serde : Serde) (created : ℕ) (r : AnthropicResponse) : ChatCompletionResponse where
  id := r.id
  object := "chat.completion"
  created := created
  model := r.model
  choices := [{
    index := 0
    message := {
      role := "assistant"
      content := .text (String.join r.texts)
      toolCalls := if (r.toolCalls serde).isEmpty then none else some (r.toolCalls serde) }
    finishReason := r.finishReason }]
  usage := anthropicUsage r.usage.inputTokens r.usage.outputTokens r.usage.cacheReadInputTokens
    r.usage.cacheCreationInputTokens

end AnthropicResponse

/-! ## The stream -/

structure AnthropicStreamState where
  id : String := ""
  model : String := ""
  created : ℕ := 0
  inputTokens : UInt32 := 0
  cacheReadTokens : Option UInt32 := none
  cacheCreationTokens : Option UInt32 := none
  nextToolIndex : UInt32 := 0
  /-- The tool-call index of the open block; none for a text block. -/
  currentBlockToolIndex : Option UInt32 := none
  sawToolUse : Bool := false

namespace AnthropicStreamState

variable (st : AnthropicStreamState)

def chunk (delta : Delta) (finishReason : Option String := none) (usage : Option Usage := none) :
    ChatCompletionChunk :=
  .ofDelta st.id st.model st.created delta finishReason usage

def toolCallChunk (tc : ToolCallChunk) : ChatCompletionChunk := st.chunk { toolCalls := some [tc] }

/-- Identity and prompt counts, and a leading role delta. -/
def messageStart (now : ℕ) (v : Value) : List ChatCompletionChunk × AnthropicStreamState :=
  let msg := v.idx "message"
  let usage := msg.idx "usage"
  let st := { st with
    id := (msg.idx "id").asStr.getD "anthropic-stream"
    model := (msg.idx "model").asStr.getD ""
    created := now
    inputTokens := (usage.idx "input_tokens").asU64AsU32.getD 0
    cacheReadTokens := (usage.idx "cache_read_input_tokens").asU64AsU32
    cacheCreationTokens := (usage.idx "cache_creation_input_tokens").asU64AsU32 }
  ([st.chunk { role := some "assistant" }], st)

def contentBlockStart (v : Value) : List ChatCompletionChunk × AnthropicStreamState :=
  let block := v.idx "content_block"
  if (block.idx "type").asStr = some "tool_use" then
    let toolIndex := st.nextToolIndex
    let st := { st with
      nextToolIndex := toolIndex + 1, currentBlockToolIndex := some toolIndex, sawToolUse := true }
    ([st.toolCallChunk {
      index := toolIndex
      id := some ((block.idx "id").asStr.getD "")
      toolType := some "function"
      function := some ⟨some ((block.idx "name").asStr.getD ""), some ""⟩ }], st)
  else ([], { st with currentBlockToolIndex := none })

def contentBlockDelta (v : Value) : List ChatCompletionChunk :=
  let delta := v.idx "delta"
  if (delta.idx "type").asStr = some "text_delta" then
    (delta.idx "text").asStr.toList.map (.contentDelta st.id st.model st.created)
  else if (delta.idx "type").asStr = some "input_json_delta" then
    match st.currentBlockToolIndex, (delta.idx "partial_json").asStr with
    | some toolIndex, some partialJson => [st.toolCallChunk {
        index := toolIndex
        id := none
        toolType := none
        function := some ⟨none, some partialJson⟩ }]
    | _, _ => []
  else []

/-- The stop reason and the output tokens. -/
def messageDelta (v : Value) : List ChatCompletionChunk :=
  let stop := ((v.idx "delta").idx "stop_reason").asStr.map fun s =>
    if s = "tool_use" ∨ st.sawToolUse then "tool_calls" else mapStopReason s
  let outputTokens := ((v.idx "usage").idx "output_tokens").asU64AsU32.getD 0
  [st.chunk {} stop (some (anthropicUsage st.inputTokens outputTokens st.cacheReadTokens
    st.cacheCreationTokens))]

/-- One event: what is yielded, and whether the stream ends. -/
def event (now : ℕ) (v : Value) :
    Except ProviderError (List ChatCompletionChunk × Bool × AnthropicStreamState) :=
  match ((v.get "type").bind Value.asStr).getD "" with
  | "message_start" => .ok ((st.messageStart now v).1, false, (st.messageStart now v).2)
  | "content_block_start" => .ok ((st.contentBlockStart v).1, false, (st.contentBlockStart v).2)
  | "content_block_stop" => .ok ([], false, { st with currentBlockToolIndex := none })
  | "content_block_delta" => .ok (st.contentBlockDelta v, false, st)
  | "message_delta" => .ok (st.messageDelta v, false, st)
  | "message_stop" => .ok ([], true, st)
  | "error" => .error (.translation
      ("anthropic stream error: " ++ ((v.idx "error").idx "type").asStr.getD "error"))
  | _ => .ok ([], false, st)

attribute [local simp] event messageStart contentBlockStart contentBlockDelta messageDelta

/-- The stop of a block only closes it. -/
theorem event_stop {now : ℕ} {v : Value}
    (h : ((v.get "type").bind Value.asStr).getD "" = "content_block_stop") :
    st.event now v = .ok ([], false, { st with currentBlockToolIndex := none }) := by
  simp [h]

end AnthropicStreamState

def translateAnthropicEvent (serde : Serde) (now : ℕ) (st : AnthropicStreamState)
    (payload : String) :
    Except ProviderError (List ChatCompletionChunk × Bool × AnthropicStreamState) :=
  match serde.fromStr payload with
  | .error e => .error (.translation ("Anthropic stream parse error: " ++ e ++ ": " ++ payload))
  | .ok v => st.event now v

def anthropicLoop (serde : Serde) (now : ℕ) : SseLoop AnthropicStreamState where
  start := {}
  transportError e := .translation ("Anthropic stream transport error: " ++ e)
  translate := translateAnthropicEvent serde now

def anthropicSseToChunks (serde : Serde) (now : ℕ) (reads : List Read) : List StreamItem :=
  (anthropicLoop serde now).chunks serde reads

/-! ## The Anthropic request -/

/-- A bare text, or blocks where a system message asked for caching. -/
inductive AnthropicSystem
  | text (s : String)
  | blocks (bs : List Value)
  deriving Inhabited

inductive AnthropicMessageContent
  | text (s : String)
  | blocks (bs : List Value)
  deriving Inhabited

structure AnthropicMessage where
  role : String
  content : AnthropicMessageContent
  deriving Inhabited

structure AnthropicMetadata where
  userId : Option String

structure AnthropicRequest where
  model : String
  messages : List AnthropicMessage
  maxTokens : UInt32
  system : Option AnthropicSystem
  temperature : Option Float32
  topP : Option Float32
  stopSequences : Option (List String)
  tools : Option (List Value)
  toolChoice : Option Value
  metadata : Option AnthropicMetadata

def anthropicDefaultMaxTokens : UInt32 := 1024

/-! ## Contents -/

def anthropicTextBlock (text : String) : Value := .obj [("type", .str "text"), ("text", .str text)]

/-- The marker goes through as the caller wrote it. -/
def attachCacheControl (block : Value) (cacheControl : Option Value) : Value :=
  match block, cacheControl with
  | .obj fields, some marker => .obj (Fields.insert fields "cache_control" marker)
  | block, _ => block

/-- The breakpoint of a message is its last block. -/
def attachToLast (marker : Option Value) : List Value → List Value
  | [] => []
  | [block] => [attachCacheControl block marker]
  | block :: rest => block :: attachToLast marker rest

theorem attachToLast_none (blocks : List Value) : attachToLast none blocks = blocks := by
  have hblock : ∀ block, attachCacheControl block none = block := by
    intro block
    cases block <;> rfl
  induction blocks with
  | nil => rfl
  | cons block rest ih =>
    cases rest with
    | nil => rw [attachToLast, hblock]
    | cons next rest => rw [attachToLast, ih]; simp

def anthropicImage (source : Fields) : Value :=
  .obj [("type", .str "image"), ("source", .obj source)]

def anthropicInlineSource (data : DataUrl) : Fields :=
  [("type", .str "base64"), ("media_type", .str data.mediaType), ("data", .str data.base64Payload)]

def anthropicLinkSource (url : String) : Fields := [("type", .str "url"), ("url", .str url)]

/-- None for an inline image of a media type that is not accepted, and for any other URL. -/
def anthropicImageBlock (url : String) : Option Value :=
  match parseDataUrl url with
  | some data =>
    if isAnthropicSupportedMediaType data.mediaType then
      some (anthropicImage (anthropicInlineSource data))
    else none
  | none => if isHttpUrl url then some (anthropicImage (anthropicLinkSource url)) else none

def anthropicPart : ContentPart → Option Value
  | .text text cacheControl => some (attachCacheControl (anthropicTextBlock text) cacheControl)
  | .imageUrl image => anthropicImageBlock image.url

def ContentPart.cached : ContentPart → Bool
  | .text _ cacheControl => cacheControl.isSome
  | .imageUrl _ => false

def MessageContent.partCached : MessageContent → Bool
  | .text _ => false
  | .parts ps => ps.any ContentPart.cached

def anthropicContent (content : MessageContent) (marker : Option Value) :
    AnthropicMessageContent :=
  if content.hasImages || content.partCached || marker.isSome then
    .blocks (attachToLast marker (match content with
      | .text s => [anthropicTextBlock s]
      | .parts ps => ps.filterMap anthropicPart))
  else .text content.asText

/-! ## Messages -/

/-- The result of a tool goes back as a user message. -/
def anthropicToolResult (m : Message) : AnthropicMessage :=
  ⟨"user", .blocks [.obj [("type", .str "tool_result"),
    ("tool_use_id", .str (m.toolCallId.getD "")), ("content", .str m.content.asText)]]⟩

/-- The arguments are a JSON text, the input is what it parses to; `{}` if it does not. -/
def anthropicToolUse (serde : Serde) (call : ToolCall) : Value :=
  .obj [("type", .str "tool_use"), ("id", .str call.id), ("name", .str call.function.name),
    ("input", (serde.fromStr call.function.arguments).toOption.getD (.obj []))]

def anthropicToolTurn (serde : Serde) (m : Message) (calls : List ToolCall) : AnthropicMessage :=
  let text := m.content.asText
  ⟨"assistant", .blocks ((if text.isEmpty then [] else [anthropicTextBlock text]) ++
    calls.map (anthropicToolUse serde))⟩

/-- A message that is no system message. -/
def anthropicMessage (serde : Serde) (m : Message) : AnthropicMessage :=
  if m.role = "tool" then anthropicToolResult m
  else
    match (if m.role = "assistant" then m.toolCalls else none) with
    | some calls => anthropicToolTurn serde m calls
    | none => ⟨m.role, anthropicContent m.content m.cacheControl⟩

/-- The system texts and their cache markers. -/
def systemParts (messages : List Message) : List (String × Option Value) :=
  (messages.filter fun m => m.role = "system").map fun m => (m.content.asText, m.cacheControl)

/-- One text, unless a marker needs a block to ride on. -/
def buildAnthropicSystem (parts : List (String × Option Value)) : Option AnthropicSystem :=
  if parts.isEmpty then none
  else if parts.any fun p => p.2.isSome then
    some (.blocks (parts.map fun p => attachCacheControl (anthropicTextBlock p.1) p.2))
  else some (.text ("\n\n".intercalate (parts.map (·.1))))

/-! ## Tools -/

def anthropicTool (t : Tool) : Value :=
  .obj ([("name", .str t.function.name)] ++
    (t.function.description.map fun d => ("description", .str d)).toList ++
    [("input_schema", t.function.parameters.getD
      (.obj [("type", .str "object"), ("properties", .obj [])]))])

def buildAnthropicTools : Option (List Tool) → Option (List Value)
  | some (t :: ts) => some ((t :: ts).map anthropicTool)
  | _ => none

def mapAnthropicToolChoice (choice : Value) : Value :=
  match choice with
  | .str "required" => .obj [("type", .str "any")]
  | .str other => .obj [("type", .str other)]
  | .obj _ =>
    if (choice.get "type").bind Value.asStr = some "function" then
      match ((choice.get "function").bind (·.get "name")).bind Value.asStr with
      | some name => .obj [("type", .str "tool"), ("name", .str name)]
      | none => choice
    else choice
  | other => other

/-! ## The request -/

/-- `f32::clamp`. -/
def clampF32 (x low high : Float32) : Float32 :=
  let x := if x < low then low else x
  if x > high then high else x

/-- A canonical temperature goes up to 2, one here up to 1. -/
def buildAnthropicRequest (serde : Serde) (request : ChatCompletionRequest) : AnthropicRequest where
  model := request.model
  messages := (request.messages.filter fun m => m.role ≠ "system").map (anthropicMessage serde)
  maxTokens := (request.maxCompletionTokens.or request.maxTokens).getD anthropicDefaultMaxTokens
  system := buildAnthropicSystem (systemParts request.messages)
  temperature := request.temperature.map fun t => clampF32 t 0 1
  topP := request.topP
  stopSequences := request.stop
  tools := buildAnthropicTools request.tools
  toolChoice := request.toolChoice.map mapAnthropicToolChoice
  metadata := request.user.map fun u => ⟨some u⟩

end Routeplane
