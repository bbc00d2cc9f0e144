import Routeplane.Types.Value

/-!
# The other endpoints' requests and responses

The OpenAI-shaped bodies of embeddings, rerank, image generation, transcription, translation and
speech. Image and speech requests carry every field the gateway does not know in a flattened
`extra` map, forwarded as it came.

* `Value.texts`: the text values of a node, at any depth.
-/

namespace Routeplane

mutual
/-- The text values of a node, at any depth. -/
def Value.texts : Value → List String
  | .str s => [s]
  | .arr xs => listTexts xs
  | .obj fs => fieldTexts fs
  | .null | .bool _ | .num _ => []

def listTexts : List Value → List String
  | [] => []
  | x :: xs => x.texts ++ listTexts xs

def fieldTexts : List (String × Value) → List String
  | [] => []
  | (_, x) :: fs => x.texts ++ fieldTexts fs
end

inductive EmbeddingInput
  | single (s : String)
  | batch (xs : List String)
  deriving DecidableEq, Repr, Inhabited

namespace EmbeddingInput

/-- The inputs in order. -/
def toVec : EmbeddingInput → List String
  | single s => [s]
  | batch xs => xs

def mapText (f : String → String) : EmbeddingInput → EmbeddingInput
  | single s => single (f s)
  | batch xs => batch (xs.map f)

@[simp] theorem toVec_mapText (f : String → String) (i : EmbeddingInput) :
    (i.mapText f).toVec = i.toVec.map f := by
  cases i <;> rfl

end EmbeddingInput

structure EmbeddingRequest where
  model : String
  input : EmbeddingInput
  encodingFormat : Option String := none
  dimensions : Option UInt32 := none
  user : Option String := none
  deriving DecidableEq, Repr, Inhabited

inductive EmbeddingVector
  | floats (xs : List Float32)
  | base64 (s : String)
  deriving Inhabited

structure EmbeddingData where
  object : String
  index : UInt32
  embedding : EmbeddingVector
  deriving Inhabited

structure EmbeddingResponse where
  object : String := "list"
  data : List EmbeddingData := []
  model : String
  promptTokens : UInt32
  totalTokens : UInt32
  deriving Inhabited

structure RerankRequest where
  model : String
  query : String
  documents : List String
  topN : Option UInt32 := none
  returnDocuments : Bool := false
  deriving DecidableEq, Repr, Inhabited

structure RerankResult where
  index : UInt32
  relevanceScore : Float
  document : Option String := none
  deriving Inhabited

structure RerankResponse where
  id : Option String := none
  model : String
  results : List RerankResult := []
  searchUnits : UInt32
  totalTokens : UInt32
  deriving Inhabited

structure ImageGenerationRequest where
  model : Option String := none
  prompt : String
  n : Option UInt32 := none
  size : Option String := none
  quality : Option String := none
  responseFormat : Option String := none
  /-- Every other field, forwarded as it came. -/
  extra : Fields := []
  deriving Inhabited

structure ImageData where
  url : Option String := none
  b64Json : Option String := none
  revisedPrompt : Option String := none
  deriving DecidableEq, Repr, Inhabited

structure ImageGenerationResponse where
  created : ℤ
  data : List ImageData
  usage : Option Value := none
  deriving Inhabited

structure TranscriptionParams where
  model : String := ""
  language : Option String := none
  prompt : Option String := none
  responseFormat : Option String := none
  temperature : Option Float32 := none
  deriving Inhabited

/-- The audio file with its form fields. -/
structure TranscriptionInput where
  fileBytes : List UInt8
  filename : String
  params : TranscriptionParams
  deriving Inhabited

structure TranscriptionResponse where
  text : String
  extra : Fields := []
  deriving Inhabited

structure SpeechRequest where
  model : Option String := none
  input : String
  voice : String
  responseFormat : Option String := none
  speed : Option Float32 := none
  /-- Every other field, forwarded as it came. -/
  extra : Fields := []
  deriving Inhabited

structure SpeechAudio where
  bytes : List UInt8
  contentType : String
  deriving DecidableEq, Repr, Inhabited

end Routeplane
