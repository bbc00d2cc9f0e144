import Routeplane.Adapters.Sse

/-!
# Cohere chats

* `CohereChatResponse.translate`: the buffered translation.
* `CohereStreamState.event`: one event, told apart by its type or by the fields it has.
  `cohereSseToChunks`: the stream.
-/

namespace Routeplane

structure CohereTokenCounts where
  inputTokens : Option UInt32 := none
  outputTokens : Option UInt32 := none

structure CohereUsage where
  tokens : Option CohereTokenCounts := none
  promptTokens : Option UInt32 := none
  completionTokens : Option UInt32 := none
  totalTokens : Option UInt32 := none

structure CohereChatResponse where
  id : String
  content : Option Value := none
  toolCalls : Option (List ToolCall) := none
  usage : Option CohereUsage := none
  finishReason : Option String := none

/-- The text of one content block. -/
def cohereBlockText (block : Value) : Option String :=
  if (block.get "type").bind Value.asStr = some "text" then (block.get "text").bind Value.asStr
  else none

/-- A bare string, or the text blocks of an array. -/
def cohereContentText : Option Value → String
  | some (.str s) => s
  | some (.arr blocks) => String.join (blocks.filterMap cohereBlockText)
  | _ => ""

def cohereUsageToCanonical : Option CohereUsage → Usage
  | some u =>
    let (prompt, completion) := match u.tokens with
      | some tc => (tc.inputTokens.getD 0, tc.outputTokens.getD 0)
      | none => (u.promptTokens.getD 0, u.completionTokens.getD 0)
    { promptTokens := prompt
      completionTokens := completion
      totalTokens := u.totalTokens.getD (prompt + completion) }
  | none => { promptTokens := 0, completionTokens := 0, totalTokens := 0 }

/-- The finish reason of a turn without calls. -/
def mapCohereFinish (reason : String) : String :=
  if reason = "COMPLETE" ∨ reason = "STOP_SEQUENCE" then "stop"
  else if reason = "MAX_TOKENS" then "length"
  else if reason = "TOOL_CALL" then "tool_calls"
  else reason

namespace CohereChatResponse

/-- No calls is none. -/
def calls (r : CohereChatResponse) : Option (List ToolCall) :=
  r.toolCalls.filter fun calls => !calls.isEmpty

def translate (model : String) (created : ℕ) (r : CohereChatResponse) : ChatCompletionResponse where
  id := r.id
  object := "chat.completion"
  created := created
  model := model
  choices := [{
    index := 0
    message := {
      role := "assistant"
      content := .text (cohereContentText r.content)
      toolCalls := r.calls }
    finishReason :=
      if r.calls.isSome then "tool_calls" else (r.finishReason.map mapCohereFinish).getD "stop" }]
  usage := cohereUsageToCanonical r.usage

end CohereChatResponse

/-! ## The stream -/

/-- A field of an object that may be absent or `null`; a value of another kind is refused. -/
def optionalField {α : Type} (read : Value → Option α) (fs : Fields) (k : String) :
    Option (Option α) :=
  match Fields.get fs k with
  | none | some .null => some none
  | some v => (read v).map some

def CohereTokenCounts.fromValue : Value → Option CohereTokenCounts
  | .obj fs => do
    let input ← optionalField Value.asU32 fs "input_tokens"
    let output ← optionalField Value.asU32 fs "output_tokens"
    return ⟨input, output⟩
  | _ => none

def CohereUsage.fromValue : Value → Option CohereUsage
  | .obj fs => do
    let tokens ← optionalField CohereTokenCounts.fromValue fs "tokens"
    let prompt ← optionalField Value.asU32 fs "prompt_tokens"
    let completion ← optionalField Value.asU32 fs "completion_tokens"
    let total ← optionalField Value.asU32 fs "total_tokens"
    return ⟨tokens, prompt, completion, total⟩
  | _ => none

structure CohereStreamState where
  id : String
  model : String
  created : ℕ
  sawToolCall : Bool := false

namespace CohereStreamState

variable (st : CohereStreamState) (value : Value)

def chunk (delta : Delta) (finishReason : Option String := none) (usage : Option Usage := none) :
    ChatCompletionChunk :=
  .ofDelta st.id st.model st.created delta finishReason usage

def toolCallChunk (tc : ToolCallChunk) : ChatCompletionChunk := st.chunk { toolCalls := some [tc] }

/-- `delta.message`. -/
def message : Option Value := (value.get "delta").bind (·.get "message")

def index : UInt32 := ((value.get "index").bind Value.asU64AsU32).getD 0

/-- The first fragment of a call: id, type and name. -/
def toolCallStart : ToolCallChunk :=
  let tc := (message value).bind (·.get "tool_calls")
  let function := tc.bind (·.get "function")
  { index := index value
    id := (tc.bind (·.get "id")).bind Value.asStr
    toolType := some "function"
    function := some ⟨(function.bind (·.get "name")).bind Value.asStr,
      some (((function.bind (·.get "arguments")).bind Value.asStr).getD "")⟩ }

/-- A fragment of the arguments. -/
def toolCallDelta : Option ToolCallChunk :=
  ((((message value).bind (·.get "tool_calls")).bind (·.get "function")).bind
    (·.get "arguments")).bind Value.asStr |>.map fun arguments =>
      { index := index value, id := none, toolType := none, function := some ⟨none, some arguments⟩ }

def contentDelta : Option String :=
  (((message value).bind (·.get "content")).bind (·.get "text")).bind Value.asStr

/-- The finish reason, under `delta` or where older shapes have it. -/
def finish : Option String :=
  ((((value.get "delta").bind (·.get "finish_reason")).or (value.get "finish_reason")).or
    ((value.get "response").bind (·.get "finish_reason"))).bind Value.asStr

def usage : Option Usage :=
  ((((value.get "delta").bind (·.get "usage")).or (value.get "usage")).bind
    CohereUsage.fromValue).map fun u => cohereUsageToCanonical (some u)

/-- A bare `TOOL_CALL` reads as a stop. -/
def mapFinish (reason : String) : String :=
  if st.sawToolCall then "tool_calls"
  else if reason = "COMPLETE" ∨ reason = "STOP_SEQUENCE" ∨ reason = "TOOL_CALL" then "stop"
  else if reason = "MAX_TOKENS" then "length"
  else reason

/-- What an event without a type of its own is: a content delta, or the end. -/
def untyped : Option ChatCompletionChunk :=
  match contentDelta value with
  | some text =>
    if text.isEmpty then (finish value).map fun reason =>
      st.chunk {} (some (st.mapFinish reason)) (usage value)
    else some (.contentDelta st.id st.model st.created text)
  | none => (finish value).map fun reason =>
      st.chunk {} (some (st.mapFinish reason)) (usage value)

/-- One event. -/
def event : Option ChatCompletionChunk × CohereStreamState :=
  match (value.get "type").bind Value.asStr with
  | some "message-start" =>
    (none, { st with id := ((value.get "id").bind Value.asStr).getD st.id })
  | some "tool-call-start" =>
    (some (st.toolCallChunk (toolCallStart value)), { st with sawToolCall := true })
  | some "tool-call-delta" => ((toolCallDelta value).map st.toolCallChunk, st)
  | _ => (st.untyped value, st)

end CohereStreamState

def parseCohereStreamEvent (serde : Serde) (st : CohereStreamState) (line : String) :
    Except ProviderError (Option ChatCompletionChunk × CohereStreamState) :=
  match serde.fromStr line with
  | .error e => .error (.translation ("Cohere stream parse error: " ++ e ++ ": " ++ line))
  | .ok value => .ok (st.event value)

/-- No payload ends the stream: it ends with its bytes. -/
def cohereLoop (serde : Serde) (start : CohereStreamState) : SseLoop CohereStreamState where
  start := start
  transportError e := .network "cohere" e
  translate st payload :=
    match parseCohereStreamEvent serde st payload with
    | .error e => .error e
    | .ok (parsed, st) => .ok (parsed.toList, false, st)

def cohereSseToChunks (serde : Serde) (start : CohereStreamState) (reads : List Read) :
    List StreamItem :=
  (cohereLoop serde start).chunks serde reads

end Routeplane
