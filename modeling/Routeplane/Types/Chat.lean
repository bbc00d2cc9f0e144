import Routeplane.Types.Value

/-!
# Chat requests, responses and stream chunks

The canonical OpenAI-shaped types every adapter speaks.

* `MessageContent.asText`: the text-only view of a message.
* `MessageContent.mapText`: rewrite every text part, keep every image part.
-/

namespace Routeplane

/-- A data-residency jurisdiction code. -/
structure Region where
  code : String
  deriving DecidableEq, Repr, Inhabited

structure ImageUrlContent where
  url : String
  detail : Option String
  deriving Inhabited

inductive ContentPart
  | text (text : String) (cacheControl : Option Value)
  | imageUrl (imageUrl : ImageUrlContent)
  deriving Inhabited

inductive MessageContent
  | text (s : String)
  | parts (ps : List ContentPart)
  deriving Inhabited

namespace MessageContent

/-- The text parts, in order. -/
def texts : MessageContent → List String
  | .text s => [s]
  | .parts ps => ps.filterMap fun
    | .text t _ => some t
    | .imageUrl _ => none

/-- The concatenation of the text parts; image parts are skipped. -/
def asText (c : MessageContent) : String := String.join c.texts

def hasImages : MessageContent → Bool
  | .text _ => false
  | .parts ps => ps.any fun
    | .text _ _ => false
    | .imageUrl _ => true

/-- Transform each text part in place, cache marker kept. -/
def mapText (f : String → String) : MessageContent → MessageContent
  | .text s => .text (f s)
  | .parts ps => .parts (ps.map fun
    | .text t cc => .text (f t) cc
    | .imageUrl u => .imageUrl u)

theorem mapText_comp (f g : String → String) (c : MessageContent) :
    (c.mapText f).mapText g = c.mapText (g ∘ f) := by
  cases c with
  | text s => rfl
  | parts ps =>
    simp only [mapText, List.map_map]
    congr 1
    refine List.map_congr_left fun p _ => ?_
    cases p <;> rfl

/-- Images survive a transformation of the text. -/
@[simp] theorem hasImages_mapText (f : String → String) (c : MessageContent) :
    (c.mapText f).hasImages = c.hasImages := by
  cases c with
  | text s => rfl
  | parts ps =>
    simp only [mapText, hasImages]
    induction ps with
    | nil => rfl
    | cons p ps ih => cases p <;> simp [ih]

end MessageContent

structure FunctionCall where
  name : String
  arguments : String
  deriving DecidableEq, Repr, Inhabited

structure ToolCall where
  id : String
  toolType : String
  function : FunctionCall
  deriving DecidableEq, Repr, Inhabited

structure FunctionDef where
  name : String
  description : Option String
  parameters : Option Value
  deriving Inhabited

structure Tool where
  toolType : String
  function : FunctionDef
  deriving Inhabited

structure Message where
  role : String
  content : MessageContent
  name : Option String := none
  cacheControl : Option Value := none
  toolCalls : Option (List ToolCall) := none
  toolCallId : Option String := none
  refusal : Option String := none
  reasoningContent : Option String := none
  deriving Inhabited

/-- A chat request as deserialised from the wire. Its raw JSON fields are never `null`: a
wire `null` reads as an absent field. -/
structure ChatCompletionRequest where
  model : String
  messages : List Message
  temperature : Option Float32 := none
  topP : Option Float32 := none
  stream : Option Bool := none
  maxTokens : Option UInt32 := none
  maxCompletionTokens : Option UInt32 := none
  stop : Option (List String) := none
  n : Option UInt32 := none
  presencePenalty : Option Float32 := none
  frequencyPenalty : Option Float32 := none
  user : Option String := none
  tools : Option (List Tool) := none
  toolChoice : Option Value := none
  parallelToolCalls : Option Bool := none
  responseFormat : Option Value := none
  seed : Option ℤ := none
  logprobs : Option Bool := none
  topLogprobs : Option UInt32 := none
  logitBias : Option (List (String × Float32)) := none
  serviceTier : Option String := none
  reasoningEffort : Option String := none
  deriving Inhabited

structure Usage where
  promptTokens : UInt32
  completionTokens : UInt32
  totalTokens : UInt32
  cachedTokens : Option UInt32 := none
  cacheCreationTokens : Option UInt32 := none
  deriving DecidableEq, Repr, Inhabited

structure Choice where
  index : UInt32
  message : Message
  finishReason : String
  logprobs : Option Value := none
  deriving Inhabited

structure ChatCompletionResponse where
  id : String
  object : String
  created : ℕ
  model : String
  choices : List Choice
  usage : Usage
  systemFingerprint : Option String := none
  serviceTier : Option String := none
  deriving Inhabited

structure FunctionCallChunk where
  name : Option String
  arguments : Option String
  deriving DecidableEq, Repr, Inhabited

structure ToolCallChunk where
  index : UInt32
  id : Option String
  toolType : Option String
  function : Option FunctionCallChunk
  deriving DecidableEq, Repr, Inhabited

structure Delta where
  role : Option String := none
  content : Option String := none
  toolCalls : Option (List ToolCallChunk) := none
  refusal : Option String := none
  reasoningContent : Option String := none
  deriving DecidableEq, Repr, Inhabited

structure ChunkChoice where
  index : UInt32
  delta : Delta
  finishReason : Option String := none
  logprobs : Option Value := none
  deriving Inhabited

structure ChatCompletionChunk where
  id : String
  object : String
  created : ℕ
  model : String
  choices : List ChunkChoice
  usage : Option Usage := none
  systemFingerprint : Option String := none
  serviceTier : Option String := none
  deriving Inhabited

namespace ChatCompletionChunk

/-- A chunk of one choice. -/
def ofDelta (id model : String) (created : ℕ) (delta : Delta)
    (finishReason : Option String := none) (usage : Option Usage := none) :
    ChatCompletionChunk where
  id := id
  object := "chat.completion.chunk"
  created := created
  model := model
  choices := [{ index := 0, delta := delta, finishReason := finishReason }]
  usage := usage

def contentDelta (id model : String) (created : ℕ) (content : String) : ChatCompletionChunk :=
  ofDelta id model created { content := some content }

end ChatCompletionChunk

end Routeplane
