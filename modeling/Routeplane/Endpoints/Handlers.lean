import Routeplane.Endpoints.Slice
import Routeplane.Types.Endpoints

/-!
# Embeddings, rerank, images and speech

The four JSON endpoints beside chat: the check of the request, the text they classify, the fields
they mask and the slice they run. They classify the text as it came and hand out the request with
the masked text.

The two audio-to-text endpoints take a multipart form with a binary file. They share one handler:
the form is parsed, nothing of it is classified, and the slice is run.

The handlers side by side: a request to any of the endpoints, the slice its handler runs, and the
texts of its user.

* `embeddings`, `rerank`, `imageGeneration`, `speech`: the handlers.
* `parseMultipart`: the form.
* `runAudioText`: the handler of both endpoints.
* `Request.handle_eq`: a handler answers a refused request itself and runs its slice otherwise.
-/

namespace Routeplane.Endpoint

section

variable (site : Site) (call : Call)

/-! ## Embeddings -/

/-- The check of an embeddings request. -/
def embeddingsRefused (site : Site) (input : EmbeddingInput) : Option ApiError :=
  let (count, isEmpty) : ℕ × Bool := match input with
    | .single s => (1, s.isEmpty)
    | .batch xs => (xs.length, xs.isEmpty)
  if isEmpty then
    some (invalidRequest 422 "`input` must contain at least one non-empty string." (some "input"))
  else if site.maxEmbeddingInputs < count then
    some ⟨400, "routeplane_input_limit_exceeded",
      "too many inputs: " ++ toString count ++ " exceeds the per-request limit of " ++
        toString site.maxEmbeddingInputs, "invalid_request_error", some "input"⟩
  else none

def embeddingsSlice (payload : EmbeddingRequest) : Slice EmbeddingRequest EmbeddingResponse where
  payload := { payload with input := payload.input.mapText site.processText }
  modelLabel := payload.model
  classified := some ("\n".intercalate payload.input.toVec)
  chain := chainForModel site call "openai" (some payload.model)
  custom := true
  sovereignBlock region := .error (sovereignBlock region)
  notSupported := notSupported "embeddings_not_supported" ("The selected provider does not offer " ++
    "a first-party embeddings endpoint. Route /v1/embeddings to an embeddings-capable provider " ++
    "(openai, azure_openai, gemini) via x-routeplane-provider.")
  bill response :=
    { model := response.model
      promptTokens := response.promptTokens
      totalTokens := response.totalTokens
      costMicroUsd := estimateCostMicroUsd response.model response.promptTokens 0 }

def embeddings (payload : EmbeddingRequest) (env : Env EmbeddingResponse)
    (w : World EmbeddingRequest) : Answer EmbeddingResponse × World EmbeddingRequest :=
  match embeddingsRefused site payload.input with
  | some e => (.error e, w)
  | none => (embeddingsSlice site call payload).run site call env w

/-! ## Rerank -/

def rerankRefused (payload : RerankRequest) : Option ApiError :=
  if payload.documents.isEmpty then
    some (invalidRequest 422 "`documents` must contain at least one string." (some "documents"))
  else none

/-- The query and the documents, one to a line. -/
def rerankText (payload : RerankRequest) : String :=
  payload.documents.foldl (fun t d => t ++ "\n" ++ d) payload.query

def rerankSlice (payload : RerankRequest) : Slice RerankRequest RerankResponse where
  payload :=
    { payload with
      query := site.processText payload.query
      documents := payload.documents.map site.processText }
  modelLabel := payload.model
  classified := some (rerankText payload)
  chain := chainForModel site call "cohere" (some payload.model)
  custom := true
  sovereignBlock region := .error (sovereignBlock region)
  notSupported := notSupported "rerank_not_supported" ("The selected provider does not offer a " ++
    "first-party rerank endpoint. Route /v1/rerank to a rerank-capable provider (cohere) via " ++
    "x-routeplane-provider.")
  bill response :=
    -- rerank is billed in search units
    { model := response.model
      promptTokens := response.totalTokens
      totalTokens := response.totalTokens
      costMicroUsd := estimateCostMicroUsd response.model response.totalTokens 0 }

def rerank (payload : RerankRequest) (env : Env RerankResponse) (w : World RerankRequest) :
    Answer RerankResponse × World RerankRequest :=
  match rerankRefused payload with
  | some e => (.error e, w)
  | none => (rerankSlice site call payload).run site call env w

/-! ## Image generation -/

def imageGenerationRefused (payload : ImageGenerationRequest) : Option ApiError :=
  if (trimText payload.prompt).isEmpty then
    some (invalidRequest 422 "`prompt` must be a non-empty string." (some "prompt"))
  else none

def imageGenerationSlice (payload : ImageGenerationRequest) :
    Slice ImageGenerationRequest ImageGenerationResponse where
  payload := { payload with prompt := site.processText payload.prompt }
  modelLabel := payload.model.getD "gpt-image-1"
  classified := some payload.prompt
  chain := splitChain "openai" (call.requested.getD "openai")
  custom := false
  sovereignBlock region := .error (sovereignBlock region)
  notSupported := notSupported "image_generation_not_supported" ("The selected provider does not " ++
    "offer a first-party image-generation endpoint. Route /v1/images/generations to an " ++
    "image-capable provider (openai) via x-routeplane-provider.")
  bill response :=
    -- images are billed by their number
    { model := payload.model.getD "gpt-image-1"
      promptTokens := response.data.length.toUInt32
      totalTokens := response.data.length.toUInt32
      costMicroUsd :=
        estimateCostMicroUsd (payload.model.getD "gpt-image-1") response.data.length.toUInt32 0 }

def imageGeneration (payload : ImageGenerationRequest) (env : Env ImageGenerationResponse)
    (w : World ImageGenerationRequest) :
    Answer ImageGenerationResponse × World ImageGenerationRequest :=
  match imageGenerationRefused payload with
  | some e => (.error e, w)
  | none => (imageGenerationSlice site call payload).run site call env w

/-! ## Speech -/

def speechRefused (payload : SpeechRequest) : Option ApiError :=
  if (trimText payload.input).isEmpty then
    some (invalidRequest 422 "`input` must be a non-empty string." (some "input"))
  else if (trimText payload.voice).isEmpty then
    some (invalidRequest 422 "`voice` must be a non-empty string." (some "voice"))
  else none

def speechSlice (payload : SpeechRequest) : Slice SpeechRequest SpeechAudio where
  payload := { payload with input := site.processText payload.input }
  modelLabel := payload.model.getD "gpt-4o-mini-tts"
  classified := some payload.input
  chain := chainForModel site call "openai" payload.model
  custom := true
  -- the one block that is not an error envelope
  sovereignBlock region := .text 422 (sovereignMessage region)
  notSupported := notSupported "speech_not_supported" ("The selected provider does not offer a " ++
    "first-party text-to-speech endpoint. Route /v1/audio/speech to a speech-capable provider " ++
    "(openai) via x-routeplane-provider.")
  bill _ := { model := payload.model.getD "gpt-4o-mini-tts" }

def speech (payload : SpeechRequest) (env : Env SpeechAudio) (w : World SpeechRequest) :
    Answer SpeechAudio × World SpeechRequest :=
  match speechRefused payload with
  | some e => (.error e, w)
  | none => (speechSlice site call payload).run site call env w

end

/-! ## Transcriptions and translations -/

inductive AudioOp
  | transcribe
  | translate
  deriving DecidableEq, Repr

def AudioOp.notSupported : AudioOp → ApiError
  | .transcribe => Routeplane.notSupported "transcription_not_supported" ("The selected provider " ++
      "does not offer a first-party audio-transcription endpoint. Route " ++
      "/v1/audio/transcriptions to a transcription-capable provider (openai or groq) via " ++
      "x-routeplane-provider.")
  | .translate => Routeplane.notSupported "translation_not_supported" ("The selected provider does " ++
      "not offer a first-party audio-translation endpoint. Route /v1/audio/translations to a " ++
      "translation-capable provider (openai or groq) via x-routeplane-provider, using a Whisper " ++
      "model (whisper-1 or whisper-large-v3).")

/-! ## The form -/

def takeSign : List Char → Bool × List Char
  | '-' :: cs => (true, cs)
  | '+' :: cs => (false, cs)
  | cs => (false, cs)

/-- The exponent that ends a number. -/
def readExponent : List Char → Option ℤ
  | [] => some 0
  | e :: cs =>
    let (negative, digits) := takeSign cs
    if e.toLower != 'e' || digits.isEmpty || !digits.all Char.isDigit then none
    else
      let n : ℤ := (String.ofList digits).toNat?.getD 0
      some (if negative then -n else n)

/-- `str::parse::<f32>`. -/
def parseF32 (s : String) : Option Float32 :=
  let (negative, cs) := takeSign s.toList
  let word := asciiLower (String.ofList cs)
  let magnitude : Option Float32 :=
    if word == "inf" || word == "infinity" then some (1 / 0)
    else if word == "nan" then some (0 / 0)
    else
      let (whole, rest) := cs.span Char.isDigit
      let (fraction, rest) := match rest with
        | '.' :: rest => rest.span Char.isDigit
        | rest => ([], rest)
      if whole.isEmpty && fraction.isEmpty then none
      else (readExponent rest).map fun e =>
        let e : ℤ := e - fraction.length
        Float32.ofScientific ((String.ofList (whole ++ fraction)).toNat?.getD 0) (e < 0) e.natAbs
  magnitude.map fun m => if negative then -m else m

/-- Why a form cannot be read on. -/
inductive MultipartFault
  | tooLarge
  | malformed (detail : String)
  deriving DecidableEq, Repr

/-- A part of the form; its body is read as bytes or as text, and reading may fail. -/
structure Part where
  name : Option String
  fileName : Option String := none
  bytes : Except MultipartFault (List UInt8) := .ok []
  text : Except MultipartFault String := .ok ""

def badRequest (message : String) (param : Option String) : ApiError :=
  invalidRequest 400 message param

def multipartError : MultipartFault → ApiError
  | .tooLarge => ⟨413, "request_too_large", "The audio upload exceeds the maximum allowed size.",
      "invalid_request_error", some "file"⟩
  | .malformed detail => badRequest ("invalid multipart/form-data body: " ++ detail) none

/-- What has been read of a form. -/
structure Form where
  fileBytes : Option (List UInt8) := none
  filename : Option String := none
  params : TranscriptionParams := {}
  deriving Inhabited

def readPart (part : Part) (form : Form) : Except ApiError Form :=
  let read := part.text.mapError multipartError
  match part.name.getD "" with
  | "file" => do
    let data ← part.bytes.mapError multipartError
    pure { form with fileBytes := some data, filename := some (part.fileName.getD "audio.wav") }
  | "model" => do
    let model ← read
    pure { form with params := { form.params with model := model } }
  | "language" => do
    let language ← read
    pure { form with params := { form.params with language := some language } }
  | "prompt" => do
    let prompt ← read
    pure { form with params := { form.params with prompt := some prompt } }
  | "response_format" => do
    let format ← read
    pure { form with params := { form.params with responseFormat := some format } }
  | "temperature" => do
    let raw ← read
    match parseF32 (trimText raw) with
    | some t => pure { form with params := { form.params with temperature := some t } }
    | none => throw (badRequest "`temperature` must be a number." (some "temperature"))
  | _ => pure form

/-- Read the parts in order; the stream itself may fail. -/
def readParts : List (Except MultipartFault Part) → Form → Except ApiError Form
  | [], form => .ok form
  | .error fault :: _, _ => .error (multipartError fault)
  | .ok part :: parts, form => do
    let form ← readPart part form
    readParts parts form

/-- The file and the fields of a form that has both a file and a model. -/
def Form.finish (form : Form) : Except ApiError TranscriptionInput :=
  match form.fileBytes with
  | none => .error (badRequest "a `file` part (the audio file) is required." (some "file"))
  | some [] => .error (badRequest "the `file` part is empty." (some "file"))
  | some bytes =>
    if (trimText form.params.model).isEmpty then
      .error (badRequest "a `model` field is required." (some "model"))
    else .ok ⟨bytes, form.filename.getD "audio.wav", form.params⟩

def parseMultipart (parts : List (Except MultipartFault Part)) : Except ApiError TranscriptionInput := do
  let form ← readParts parts {}
  form.finish

/-! ## The handler -/

section

variable (op : AudioOp) (call : Call)

def audioSlice (input : TranscriptionInput) : Slice TranscriptionInput TranscriptionResponse where
  payload := input
  modelLabel := input.params.model
  -- the audio is not read, and neither are the fields beside it
  classified := none
  chain := splitChain "openai" (call.requested.getD "openai")
  custom := false
  sovereignBlock region := .error (sovereignBlock region)
  notSupported := op.notSupported
  bill _ := { model := input.params.model }

/-- The handler of both endpoints. -/
def runAudioText (site : Site) (parts : List (Except MultipartFault Part))
    (env : Env TranscriptionResponse) (w : World TranscriptionInput) :
    Answer TranscriptionResponse × World TranscriptionInput :=
  match parseMultipart parts with
  | .error e => (.error e, w)
  | .ok input => (audioSlice op call input).run site call env w

end

def transcriptions (call : Call) (site : Site) (parts : List (Except MultipartFault Part))
    (env : Env TranscriptionResponse) (w : World TranscriptionInput) :
    Answer TranscriptionResponse × World TranscriptionInput :=
  runAudioText .transcribe call site parts env w

def translations (call : Call) (site : Site) (parts : List (Except MultipartFault Part))
    (env : Env TranscriptionResponse) (w : World TranscriptionInput) :
    Answer TranscriptionResponse × World TranscriptionInput :=
  runAudioText .translate call site parts env w

/-! ## Requests to the other endpoints -/

inductive Request
  | embeddings (payload : EmbeddingRequest)
  | rerank (payload : RerankRequest)
  | imageGeneration (payload : ImageGenerationRequest)
  | speech (payload : SpeechRequest)
  | audio (op : AudioOp) (parts : List (Except MultipartFault Part))

namespace Request

/-- What a provider of the endpoint is handed. -/
def Payload : Request → Type
  | embeddings _ => EmbeddingRequest
  | rerank _ => RerankRequest
  | imageGeneration _ => ImageGenerationRequest
  | speech _ => SpeechRequest
  | audio .. => TranscriptionInput

def Response : Request → Type
  | embeddings _ => EmbeddingResponse
  | rerank _ => RerankResponse
  | imageGeneration _ => ImageGenerationResponse
  | speech _ => SpeechAudio
  | audio .. => TranscriptionResponse

/-- The request as its client sent it, unless it is refused. -/
def read (site : Site) : (r : Request) → Except ApiError r.Payload
  | embeddings p =>
    match embeddingsRefused site p.input with
    | some e => .error e
    | none => .ok p
  | rerank p =>
    match rerankRefused p with
    | some e => .error e
    | none => .ok p
  | imageGeneration p =>
    match imageGenerationRefused p with
    | some e => .error e
    | none => .ok p
  | speech p =>
    match speechRefused p with
    | some e => .error e
    | none => .ok p
  | audio _ parts => parseMultipart parts

/-- The slice of a request that was read. -/
def slice (site : Site) (call : Call) : (r : Request) → r.Payload → Slice r.Payload r.Response
  | embeddings _, p => embeddingsSlice site call p
  | rerank _, p => rerankSlice site call p
  | imageGeneration _, p => imageGenerationSlice site call p
  | speech _, p => speechSlice site call p
  | audio op _, input => audioSlice op call input

def handle (site : Site) (call : Call) : (r : Request) → Env r.Response → World r.Payload →
    Answer r.Response × World r.Payload
  | embeddings p, env, w => Endpoint.embeddings site call p env w
  | rerank p, env, w => Endpoint.rerank site call p env w
  | imageGeneration p, env, w => Endpoint.imageGeneration site call p env w
  | speech p, env, w => Endpoint.speech site call p env w
  | audio .transcribe parts, env, w => transcriptions call site parts env w
  | audio .translate parts, env, w => translations call site parts env w

/-- The texts of a payload's content. -/
def contentTexts : (r : Request) → r.Payload → List String
  | embeddings _, (p : EmbeddingRequest) => p.input.toVec
  | rerank _, (p : RerankRequest) => p.query :: p.documents
  | imageGeneration _, (p : ImageGenerationRequest) => p.prompt :: fieldTexts p.extra
  | speech _, (p : SpeechRequest) => p.input :: fieldTexts p.extra
  | audio .., (p : TranscriptionInput) => p.params.prompt.toList

/-- The texts a client writes freely: the content, and the name an embeddings request gives its
user. The names of a model, a voice, a language or a format are chosen from those of a provider, and
a recording's file name tells its codec. -/
def freeTexts : (r : Request) → r.Payload → List String
  | embeddings _, (p : EmbeddingRequest) => p.input.toVec ++ p.user.toList
  | r, p => r.contentTexts p

/-- The endpoints whose content cannot be read. -/
def isAudio : Request → Bool
  | audio .. => true
  | _ => false

variable {site : Site} {call : Call} {r : Request}

theorem handle_eq (env : Env r.Response) (w : World r.Payload) :
    r.handle site call env w =
      match r.read site with
      | .error e => (.error e, w)
      | .ok p => (r.slice site call p).run site call env w := by
  cases r with
  | embeddings p =>
    cases h : embeddingsRefused site p.input <;>
      simp only [handle, read, Endpoint.embeddings, h] <;> rfl
  | rerank p =>
    cases h : rerankRefused p <;> simp only [handle, read, Endpoint.rerank, h] <;> rfl
  | imageGeneration p =>
    cases h : imageGenerationRefused p <;>
      simp only [handle, read, Endpoint.imageGeneration, h] <;> rfl
  | speech p => cases h : speechRefused p <;> simp only [handle, read, Endpoint.speech, h] <;> rfl
  | audio op parts =>
    cases op <;> cases h : parseMultipart parts <;>
      simp only [handle, read, transcriptions, translations, runAudioText, h] <;> rfl

theorem handle_of_read {p : r.Payload} (hp : r.read site = .ok p) (env : Env r.Response)
    (w : World r.Payload) :
    r.handle site call env w = (r.slice site call p).run site call env w := by
  rw [handle_eq, hp]

end Request

end Routeplane.Endpoint
