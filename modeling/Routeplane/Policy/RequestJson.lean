import Routeplane.Policy.Shaping
import Routeplane.Lib.FloatFormats

/-!
# The request as JSON, and back

What serialising a chat request writes and what deserialising one reads, field by field.
An absent optional field is omitted, and an omitted or `null` one reads as absent; a
non-finite number is written as `null`. The raw JSON nodes of a request are copied, so that
an explicit `null` in one of them is the only thing the round trip can lose.

* `Carries`: what is written is no `null` and reads back in normal form.
* `ofJson_eq_some`: a parse succeeds iff every field reads.
* `ofJson_noNulls`: what was read from the wire holds no explicit `null`.
-/

namespace Routeplane

open FloatFormats

/-! ## Scalars -/

/-- An `f32` is written as a double; a non-finite one as `null`. -/
def f32Json (f : Float32) : Value := if f.isFinite then .num (.float (widen f)) else .null

/-- An `f32` field reads any number, rounded; what is out of range becomes infinite. -/
def readF32 : Value → Option Float32
  | .num (.int i) => some (intToFloat32 i)
  | .num (.float d) => some (narrow d)
  | _ => none

def u32Json (n : UInt32) : Value := .num (.int n.toNat)

def i64Json (i : ℤ) : Value := .num (.int i)

/-- An `i64` field reads an integer that fits. -/
def readI64 : Value → Option ℤ
  | .num (.int i) => if -2 ^ 63 ≤ i ∧ i < 2 ^ 63 then some i else none
  | _ => none

/-- A list, every entry of which reads. -/
def readList {α : Type} (read : Value → Option α) (v : Value) : Option (List α) :=
  v.asArray.bind fun xs => xs.mapM read

/-- A map in key order, every value of which reads. -/
def readMap {α : Type} (read : Value → Option α) (v : Value) : Option (List (String × α)) :=
  v.asObject.bind fun fs => fs.mapM fun f => (read f.2).map fun a => (f.1, a)

/-- The fields that are there, in order. -/
def omitNone (fields : List (String × Option Value)) : Fields :=
  fields.filterMap fun f => f.2.map fun v => (f.1, v)

/-! ## Messages and tools -/

def ImageUrlContent.toJson (i : ImageUrlContent) : Value :=
  .obj (omitNone [("url", some (.str i.url)), ("detail", i.detail.map .str)])

def ImageUrlContent.ofJson (v : Value) : Option ImageUrlContent := do
  let fs ← v.asObject
  let url ← (fs.get "url").bind Value.asStr
  let detail ← readOption Value.asStr (fs.get "detail")
  some { url, detail }

/-- A part carries its `type` beside its own fields. -/
def ContentPart.toJson : ContentPart → Value
  | .text body cacheControl =>
    .obj (omitNone [("type", some (.str "text")), ("text", some (.str body)),
      ("cache_control", cacheControl)])
  | .imageUrl image =>
    .obj (omitNone [("type", some (.str "image_url")), ("image_url", some image.toJson)])

def ContentPart.ofJson (v : Value) : Option ContentPart := do
  let fs ← v.asObject
  let tag ← (fs.get "type").bind Value.asStr
  match tag with
  | "text" =>
    let body ← (fs.get "text").bind Value.asStr
    let cacheControl ← readOption some (fs.get "cache_control")
    some (.text body cacheControl)
  | "image_url" =>
    let image ← (fs.get "image_url").bind ImageUrlContent.ofJson
    some (.imageUrl image)
  | _ => none

def MessageContent.toJson : MessageContent → Value
  | .text s => .str s
  | .parts ps => .arr (ps.map ContentPart.toJson)

/-- Untagged: a string is text, an array is a list of parts. -/
def MessageContent.ofJson : Value → Option MessageContent
  | .str s => some (.text s)
  | .arr xs => (xs.mapM ContentPart.ofJson).map .parts
  | _ => none

/-- `content` tolerates `null` and absence: the empty text. -/
def readContent (o : Option Value) : Option MessageContent :=
  (readOption MessageContent.ofJson o).map fun c => c.getD (.text "")

def FunctionCall.toJson (f : FunctionCall) : Value :=
  .obj (omitNone [("name", some (.str f.name)), ("arguments", some (.str f.arguments))])

def FunctionCall.ofJson (v : Value) : Option FunctionCall := do
  let fs ← v.asObject
  let name ← (fs.get "name").bind Value.asStr
  let arguments ← (fs.get "arguments").bind Value.asStr
  some { name, arguments }

def ToolCall.toJson (c : ToolCall) : Value :=
  .obj (omitNone [("id", some (.str c.id)), ("type", some (.str c.toolType)),
    ("function", some c.function.toJson)])

def ToolCall.ofJson (v : Value) : Option ToolCall := do
  let fs ← v.asObject
  let id ← (fs.get "id").bind Value.asStr
  let toolType ← (fs.get "type").bind Value.asStr
  let function ← (fs.get "function").bind FunctionCall.ofJson
  some { id, toolType, function }

def Message.toJson (m : Message) : Value :=
  .obj (omitNone [("role", some (.str m.role)), ("content", some m.content.toJson),
    ("name", m.name.map .str), ("cache_control", m.cacheControl),
    ("tool_calls", m.toolCalls.map fun cs => .arr (cs.map ToolCall.toJson)),
    ("tool_call_id", m.toolCallId.map .str), ("refusal", m.refusal.map .str),
    ("reasoning_content", m.reasoningContent.map .str)])

def Message.ofJson (v : Value) : Option Message := do
  let fs ← v.asObject
  let role ← (fs.get "role").bind Value.asStr
  let content ← readContent (fs.get "content")
  let name ← readOption Value.asStr (fs.get "name")
  let cacheControl ← readOption some (fs.get "cache_control")
  let toolCalls ← readOption (readList ToolCall.ofJson) (fs.get "tool_calls")
  let toolCallId ← readOption Value.asStr (fs.get "tool_call_id")
  let refusal ← readOption Value.asStr (fs.get "refusal")
  let reasoningContent ← readOption Value.asStr (fs.get "reasoning_content")
  some { role, content, name, cacheControl, toolCalls, toolCallId, refusal, reasoningContent }

def FunctionDef.toJson (f : FunctionDef) : Value :=
  .obj (omitNone [("name", some (.str f.name)), ("description", f.description.map .str),
    ("parameters", f.parameters)])

def FunctionDef.ofJson (v : Value) : Option FunctionDef := do
  let fs ← v.asObject
  let name ← (fs.get "name").bind Value.asStr
  let description ← readOption Value.asStr (fs.get "description")
  let parameters ← readOption some (fs.get "parameters")
  some { name, description, parameters }

def Tool.toJson (t : Tool) : Value :=
  .obj (omitNone [("type", some (.str t.toolType)), ("function", some t.function.toJson)])

def Tool.ofJson (v : Value) : Option Tool := do
  let fs ← v.asObject
  let toolType ← (fs.get "type").bind Value.asStr
  let function ← (fs.get "function").bind FunctionDef.ofJson
  some { toolType, function }

/-! ## Explicit nulls

No request read from the wire holds one, and the round trip takes them for absent. -/

/-- An explicit `null` for an absent node. -/
def noNull : Option Value → Option Value
  | some .null => none
  | o => o

def ContentPart.noNulls : ContentPart → ContentPart
  | .text body cacheControl => .text body (noNull cacheControl)
  | .imageUrl image => .imageUrl image

def MessageContent.noNulls : MessageContent → MessageContent
  | .text s => .text s
  | .parts ps => .parts (ps.map ContentPart.noNulls)

def Message.noNulls (m : Message) : Message :=
  { m with content := m.content.noNulls, cacheControl := noNull m.cacheControl }

def Tool.noNulls (t : Tool) : Tool :=
  { t with function := { t.function with parameters := noNull t.function.parameters } }

def ChatCompletionRequest.noNulls (req : ChatCompletionRequest) : ChatCompletionRequest :=
  { req with
    messages := req.messages.map Message.noNulls
    tools := req.tools.map fun ts => ts.map Tool.noNulls
    toolChoice := noNull req.toolChoice
    responseFormat := noNull req.responseFormat }

/-! ## The request -/

namespace ChatCompletionRequest

def toJson (req : ChatCompletionRequest) : Fields :=
  omitNone [("model", some (.str req.model)),
    ("messages", some (.arr (req.messages.map Message.toJson))),
    ("temperature", req.temperature.map f32Json), ("top_p", req.topP.map f32Json),
    ("stream", req.stream.map .bool), ("max_tokens", req.maxTokens.map u32Json),
    ("max_completion_tokens", req.maxCompletionTokens.map u32Json),
    ("stop", req.stop.map fun ss => .arr (ss.map .str)), ("n", req.n.map u32Json),
    ("presence_penalty", req.presencePenalty.map f32Json),
    ("frequency_penalty", req.frequencyPenalty.map f32Json), ("user", req.user.map .str),
    ("tools", req.tools.map fun ts => .arr (ts.map Tool.toJson)),
    ("tool_choice", req.toolChoice), ("parallel_tool_calls", req.parallelToolCalls.map .bool),
    ("response_format", req.responseFormat), ("seed", req.seed.map i64Json),
    ("logprobs", req.logprobs.map .bool), ("top_logprobs", req.topLogprobs.map u32Json),
    ("logit_bias", req.logitBias.map fun bs => .obj (bs.map fun b => (b.1, f32Json b.2))),
    ("service_tier", req.serviceTier.map .str),
    ("reasoning_effort", req.reasoningEffort.map .str)]

def ofJson (obj : Fields) : Option ChatCompletionRequest := do
  let model ← (obj.get "model").bind Value.asStr
  let messages ← (obj.get "messages").bind (readList Message.ofJson)
  let temperature ← readOption readF32 (obj.get "temperature")
  let topP ← readOption readF32 (obj.get "top_p")
  let stream ← readOption Value.asBool (obj.get "stream")
  let maxTokens ← readOption Value.asU32 (obj.get "max_tokens")
  let maxCompletionTokens ← readOption Value.asU32 (obj.get "max_completion_tokens")
  let stop ← readOption readStop (obj.get "stop")
  let n ← readOption Value.asU32 (obj.get "n")
  let presencePenalty ← readOption readF32 (obj.get "presence_penalty")
  let frequencyPenalty ← readOption readF32 (obj.get "frequency_penalty")
  let user ← readOption Value.asStr (obj.get "user")
  let tools ← readOption (readList Tool.ofJson) (obj.get "tools")
  let toolChoice ← readOption some (obj.get "tool_choice")
  let parallelToolCalls ← readOption Value.asBool (obj.get "parallel_tool_calls")
  let responseFormat ← readOption some (obj.get "response_format")
  let seed ← readOption readI64 (obj.get "seed")
  let logprobs ← readOption Value.asBool (obj.get "logprobs")
  let topLogprobs ← readOption Value.asU32 (obj.get "top_logprobs")
  let logitBias ← readOption (readMap readF32) (obj.get "logit_bias")
  let serviceTier ← readOption Value.asStr (obj.get "service_tier")
  let reasoningEffort ← readOption Value.asStr (obj.get "reasoning_effort")
  some {
    model, messages, temperature, topP, stream, maxTokens, maxCompletionTokens, stop, n,
    presencePenalty, frequencyPenalty, user, tools, toolChoice, parallelToolCalls,
    responseFormat, seed, logprobs, topLogprobs, logitBias, serviceTier, reasoningEffort }

/-- The parse of the shapeable fields of an object, one by one. -/
structure ReadsShaped (obj : Fields) (r : ChatCompletionRequest) : Prop where
  model : (obj.get "model").bind Value.asStr = some r.model
  temperature : readOption readF32 (obj.get "temperature") = some r.temperature
  topP : readOption readF32 (obj.get "top_p") = some r.topP
  maxTokens : readOption Value.asU32 (obj.get "max_tokens") = some r.maxTokens
  maxCompletionTokens :
    readOption Value.asU32 (obj.get "max_completion_tokens") = some r.maxCompletionTokens
  stop : readOption readStop (obj.get "stop") = some r.stop
  n : readOption Value.asU32 (obj.get "n") = some r.n
  presencePenalty : readOption readF32 (obj.get "presence_penalty") = some r.presencePenalty
  frequencyPenalty : readOption readF32 (obj.get "frequency_penalty") = some r.frequencyPenalty
  user : readOption Value.asStr (obj.get "user") = some r.user

/-- The parse of the other fields. -/
structure ReadsRest (obj : Fields) (r : ChatCompletionRequest) : Prop where
  messages : (obj.get "messages").bind (readList Message.ofJson) = some r.messages
  stream : readOption Value.asBool (obj.get "stream") = some r.stream
  tools : readOption (readList Tool.ofJson) (obj.get "tools") = some r.tools
  toolChoice : readOption some (obj.get "tool_choice") = some r.toolChoice
  parallelToolCalls :
    readOption Value.asBool (obj.get "parallel_tool_calls") = some r.parallelToolCalls
  responseFormat : readOption some (obj.get "response_format") = some r.responseFormat
  seed : readOption readI64 (obj.get "seed") = some r.seed
  logprobs : readOption Value.asBool (obj.get "logprobs") = some r.logprobs
  topLogprobs : readOption Value.asU32 (obj.get "top_logprobs") = some r.topLogprobs
  logitBias : readOption (readMap readF32) (obj.get "logit_bias") = some r.logitBias
  serviceTier : readOption Value.asStr (obj.get "service_tier") = some r.serviceTier
  reasoningEffort : readOption Value.asStr (obj.get "reasoning_effort") = some r.reasoningEffort

/-- The parse of an object, field by field. -/
structure Reads (obj : Fields) (r : ChatCompletionRequest) : Prop extends
  ReadsShaped obj r, ReadsRest obj r

/-- **A parse succeeds iff every field reads.** -/
theorem ofJson_eq_some {obj : Fields} {r : ChatCompletionRequest} :
    ofJson obj = some r ↔ Reads obj r := by
  constructor
  · intro h
    unfold ofJson at h
    obtain ⟨_, hmodel, h⟩ := Option.bind_eq_some_iff.1 h
    obtain ⟨_, hmessages, h⟩ := Option.bind_eq_some_iff.1 h
    obtain ⟨_, htemperature, h⟩ := Option.bind_eq_some_iff.1 h
    obtain ⟨_, htopP, h⟩ := Option.bind_eq_some_iff.1 h
    obtain ⟨_, hstream, h⟩ := Option.bind_eq_some_iff.1 h
    obtain ⟨_, hmaxTokens, h⟩ := Option.bind_eq_some_iff.1 h
    obtain ⟨_, hmaxCompletionTokens, h⟩ := Option.bind_eq_some_iff.1 h
    obtain ⟨_, hstop, h⟩ := Option.bind_eq_some_iff.1 h
    obtain ⟨_, hn, h⟩ := Option.bind_eq_some_iff.1 h
    obtain ⟨_, hpresencePenalty, h⟩ := Option.bind_eq_some_iff.1 h
    obtain ⟨_, hfrequencyPenalty, h⟩ := Option.bind_eq_some_iff.1 h
    obtain ⟨_, huser, h⟩ := Option.bind_eq_some_iff.1 h
    obtain ⟨_, htools, h⟩ := Option.bind_eq_some_iff.1 h
    obtain ⟨_, htoolChoice, h⟩ := Option.bind_eq_some_iff.1 h
    obtain ⟨_, hparallelToolCalls, h⟩ := Option.bind_eq_some_iff.1 h
    obtain ⟨_, hresponseFormat, h⟩ := Option.bind_eq_some_iff.1 h
    obtain ⟨_, hseed, h⟩ := Option.bind_eq_some_iff.1 h
    obtain ⟨_, hlogprobs, h⟩ := Option.bind_eq_some_iff.1 h
    obtain ⟨_, htopLogprobs, h⟩ := Option.bind_eq_some_iff.1 h
    obtain ⟨_, hlogitBias, h⟩ := Option.bind_eq_some_iff.1 h
    obtain ⟨_, hserviceTier, h⟩ := Option.bind_eq_some_iff.1 h
    obtain ⟨_, hreasoningEffort, h⟩ := Option.bind_eq_some_iff.1 h
    obtain rfl := Option.some.inj h
    exact ⟨⟨hmodel, htemperature, htopP, hmaxTokens, hmaxCompletionTokens, hstop, hn,
      hpresencePenalty, hfrequencyPenalty, huser⟩, ⟨hmessages, hstream, htools, htoolChoice,
        hparallelToolCalls, hresponseFormat, hseed, hlogprobs, htopLogprobs, hlogitBias,
        hserviceTier, hreasoningEffort⟩⟩
  · intro h
    simp only [ofJson, h.model, h.messages, h.temperature, h.topP, h.stream, h.maxTokens,
      h.maxCompletionTokens, h.stop, h.n, h.presencePenalty, h.frequencyPenalty, h.user, h.tools,
      h.toolChoice, h.parallelToolCalls, h.responseFormat, h.seed, h.logprobs, h.topLogprobs,
      h.logitBias, h.serviceTier, h.reasoningEffort, Option.bind_eq_bind, Option.bind_some]

end ChatCompletionRequest

/-! ## What is written reads back -/

section Carries

variable {α : Type}

/-- What `write` writes is no `null`, and `read` reads it back in normal form. -/
structure Carries (write : α → Value) (read : Value → Option α) (norm : α → α) : Prop where
  ne_null : ∀ a, write a ≠ .null
  read_write : ∀ a, read (write a) = some (norm a)

theorem readOption_of_ne_null {read : Value → Option α} {v : Value} (h : v ≠ .null) :
    readOption read (some v) = (read v).map some := by
  cases v with
  | null => exact absurd rfl h
  | bool b => rfl
  | num n => rfl
  | str s => rfl
  | arr xs => rfl
  | obj fs => rfl

/-- An optional field of such a kind reads back as well. -/
theorem Carries.readOption {write : α → Value} {read : Value → Option α} {norm : α → α}
    (h : Carries write read norm) (o : Option α) :
    readOption read (o.map write) = some (o.map norm) := by
  cases o with
  | none => rfl
  | some a =>
    rw [Option.map_some, readOption_of_ne_null (h.ne_null a), h.read_write]
    rfl

theorem mapM_map_of_read {write : α → Value} {read : Value → Option α} {norm : α → α}
    (h : ∀ a, read (write a) = some (norm a)) (as : List α) :
    (as.map write).mapM read = some (as.map norm) := by
  induction as with
  | nil => rfl
  | cons a as ih =>
    rw [List.map_cons, List.mapM_cons, h, ih]
    rfl

theorem Carries.list {write : α → Value} {read : Value → Option α} {norm : α → α}
    (h : Carries write read norm) :
    Carries (fun as : List α => .arr (as.map write)) (readList read) (List.map norm) where
  ne_null _ := Value.noConfusion
  read_write as := mapM_map_of_read h.read_write as

/-- Where reading may fail, what does read back is what was written. -/
theorem eq_of_readOption {write : α → Value} {read : Value → Option α}
    (hnull : ∀ a, write a ≠ .null) (hread : ∀ a b, read (write a) = some b → b = a)
    {o x : Option α} (h : readOption read (o.map write) = some x) : x = o := by
  cases o with
  | none => exact (Option.some.inj h).symm
  | some a =>
    rw [Option.map_some, readOption_of_ne_null (hnull a)] at h
    obtain ⟨b, hb, rfl⟩ := Option.map_eq_some_iff.1 h
    rw [hread a b hb]

/-- A raw node is copied; only an explicit `null` does not come back. -/
theorem readOption_raw (o : Option Value) : readOption some o = some (noNull o) := by
  rcases o with _ | v
  · rfl
  · cases v <;> rfl

end Carries

section Fields

/-- A field written under its own name is found there, whatever else is written after it. -/
@[simp] theorem get_omitNone_cons (k k' : String) (o : Option Value)
    (fields : List (String × Option Value)) :
    Fields.get (omitNone ((k', o) :: fields)) k =
      if k' = k then o.or (Fields.get (omitNone fields) k) else
        Fields.get (omitNone fields) k := by
  cases o with
  | none =>
    rw [Option.none_or, ite_self]
    rfl
  | some v => exact Fields.get_cons k k' v (omitNone fields)

@[simp] theorem get_omitNone_nil (k : String) : Fields.get (omitNone []) k = none := rfl

end Fields

theorem carries_str : Carries .str Value.asStr id where
  ne_null _ := Value.noConfusion
  read_write _ := rfl

theorem carries_bool : Carries .bool Value.asBool id where
  ne_null _ := Value.noConfusion
  read_write _ := rfl

theorem carries_u32 : Carries u32Json Value.asU32 id where
  ne_null _ := Value.noConfusion
  read_write n := by
    have hlt : (n.toNat : ℤ) < 2 ^ 32 := by exact_mod_cast n.toNat_lt
    rw [u32Json, Value.asU32, if_pos ⟨Int.natCast_nonneg _, hlt⟩, Int.toNat_natCast]
    simp

theorem carries_stop : Carries (fun ss : List String => .arr (ss.map .str)) readStop id where
  ne_null _ := Value.noConfusion
  read_write ss := by
    have hlist : (ss.map Value.str).mapM Value.asStr = some (ss.map id) :=
      mapM_map_of_read carries_str.read_write ss
    rw [List.map_id] at hlist
    exact hlist

theorem carries_imageUrl : Carries ImageUrlContent.toJson ImageUrlContent.ofJson id where
  ne_null _ := Value.noConfusion
  read_write i := by
    simp [ImageUrlContent.toJson, ImageUrlContent.ofJson, Value.asObject, Value.asStr,
      carries_str.readOption]

theorem carries_part : Carries ContentPart.toJson ContentPart.ofJson ContentPart.noNulls where
  ne_null p := by cases p <;> exact Value.noConfusion
  read_write p := by
    cases p with
    | text body cacheControl =>
      simp [ContentPart.toJson, ContentPart.ofJson, Value.asObject, Value.asStr, readOption_raw,
        ContentPart.noNulls]
    | imageUrl image =>
      simp [ContentPart.toJson, ContentPart.ofJson, Value.asObject, Value.asStr,
        carries_imageUrl.read_write, ContentPart.noNulls]

theorem carries_content :
    Carries MessageContent.toJson MessageContent.ofJson MessageContent.noNulls where
  ne_null c := by cases c <;> exact Value.noConfusion
  read_write c := by
    cases c with
    | text s => rfl
    | parts ps =>
      rw [MessageContent.toJson, MessageContent.ofJson, mapM_map_of_read carries_part.read_write]
      rfl

theorem carries_toolCall : Carries ToolCall.toJson ToolCall.ofJson id where
  ne_null _ := Value.noConfusion
  read_write c := by
    simp [ToolCall.toJson, ToolCall.ofJson, FunctionCall.toJson, FunctionCall.ofJson,
      Value.asObject, Value.asStr]

theorem carries_message : Carries Message.toJson Message.ofJson Message.noNulls where
  ne_null _ := Value.noConfusion
  read_write m := by
    have hcontent : readContent (some m.content.toJson) = some m.content.noNulls := by
      rw [readContent, readOption_of_ne_null (carries_content.ne_null _),
        carries_content.read_write]
      rfl
    have hcalls := carries_toolCall.list.readOption m.toolCalls
    simp [Message.toJson, Message.ofJson, Value.asObject, Value.asStr, hcontent, hcalls,
      carries_str.readOption, readOption_raw, Message.noNulls]

theorem carries_tool : Carries Tool.toJson Tool.ofJson Tool.noNulls where
  ne_null _ := Value.noConfusion
  read_write t := by
    simp [Tool.toJson, Tool.ofJson, FunctionDef.toJson, FunctionDef.ofJson, Value.asObject,
      Value.asStr, carries_str.readOption, readOption_raw, Tool.noNulls]

/-- The finite numbers of a bias read back; with any other the whole map does not read. -/
theorem read_bias {bs bs' : List (String × Float32)}
    (h : readMap readF32 (.obj (bs.map fun b => (b.1, f32Json b.2))) = some bs') : bs' = bs := by
  change (bs.map _).mapM _ = some bs' at h
  induction bs generalizing bs' with
  | nil => exact (Option.some.inj h).symm
  | cons b bs ih =>
    obtain ⟨k, f⟩ := b
    rw [List.map_cons, List.mapM_cons] at h
    obtain ⟨b', hb, h⟩ := Option.bind_eq_some_iff.1 h
    obtain ⟨bs'', hbs, h⟩ := Option.bind_eq_some_iff.1 h
    obtain rfl := Option.some.inj h
    obtain ⟨f', hf, rfl⟩ := Option.map_eq_some_iff.1 hb
    rw [ih hbs]
    dsimp only at hf
    rw [f32Json] at hf
    split at hf
    · rename_i hfinite
      have hback : some (narrow (widen f)) = some f' := hf
      rw [narrow_widen hfinite] at hback
      rw [Option.some.inj hback]
    · cases hf

theorem read_seed {i j : ℤ} (h : readI64 (i64Json i) = some j) : j = i := by
  rw [i64Json, readI64] at h
  split at h
  · exact (Option.some.inj h).symm
  · cases h

namespace ChatCompletionRequest

variable {req r : ChatCompletionRequest} {obj : Fields}

theorem noNull_noNull (o : Option Value) : noNull (noNull o) = noNull o := by
  rcases o with _ | v
  · rfl
  · cases v <;> rfl

/-- What a request writes under each name. -/
structure Writes (req : ChatCompletionRequest) (obj : Fields) : Prop where
  model : obj.get "model" = some (.str req.model)
  messages : obj.get "messages" = some (.arr (req.messages.map Message.toJson))
  temperature : obj.get "temperature" = req.temperature.map f32Json
  topP : obj.get "top_p" = req.topP.map f32Json
  stream : obj.get "stream" = req.stream.map .bool
  maxTokens : obj.get "max_tokens" = req.maxTokens.map u32Json
  maxCompletionTokens : obj.get "max_completion_tokens" = req.maxCompletionTokens.map u32Json
  stop : obj.get "stop" = req.stop.map fun ss => .arr (ss.map .str)
  n : obj.get "n" = req.n.map u32Json
  presencePenalty : obj.get "presence_penalty" = req.presencePenalty.map f32Json
  frequencyPenalty : obj.get "frequency_penalty" = req.frequencyPenalty.map f32Json
  user : obj.get "user" = req.user.map .str
  tools : obj.get "tools" = req.tools.map fun ts => .arr (ts.map Tool.toJson)
  toolChoice : obj.get "tool_choice" = req.toolChoice
  parallelToolCalls : obj.get "parallel_tool_calls" = req.parallelToolCalls.map .bool
  responseFormat : obj.get "response_format" = req.responseFormat
  seed : obj.get "seed" = req.seed.map i64Json
  logprobs : obj.get "logprobs" = req.logprobs.map .bool
  topLogprobs : obj.get "top_logprobs" = req.topLogprobs.map u32Json
  logitBias : obj.get "logit_bias" =
    req.logitBias.map fun bs => .obj (bs.map fun b => (b.1, f32Json b.2))
  serviceTier : obj.get "service_tier" = req.serviceTier.map .str
  reasoningEffort : obj.get "reasoning_effort" = req.reasoningEffort.map .str

theorem writes_toJson (req : ChatCompletionRequest) : Writes req req.toJson := by
  constructor <;> simp [toJson]

end ChatCompletionRequest

/-! ## What was read holds no explicit null -/

section Clean

variable {α : Type} {read : Value → Option α} {norm : α → α}

theorem noNull_of_readOption {o x : Option Value} (h : readOption some o = some x) :
    noNull x = x := by
  rw [readOption_raw] at h
  rw [← Option.some.inj h]
  exact ChatCompletionRequest.noNull_noNull o

theorem clean_mapM (h : ∀ v a, read v = some a → norm a = a) :
    ∀ (vs : List Value) (as : List α), vs.mapM read = some as → as.map norm = as
  | [], as, has => by
    rw [← Option.some.inj has]
    rfl
  | v :: vs, as, has => by
    rw [List.mapM_cons] at has
    obtain ⟨b, hb, has⟩ := Option.bind_eq_some_iff.1 has
    obtain ⟨bs, hbs, has⟩ := Option.bind_eq_some_iff.1 has
    rw [← Option.some.inj has, List.map_cons, h v b hb, clean_mapM h vs bs hbs]

theorem clean_readList (h : ∀ v a, read v = some a → norm a = a) {v : Value} {as : List α}
    (has : readList read v = some as) : as.map norm = as := by
  obtain ⟨xs, _, hxs⟩ := Option.bind_eq_some_iff.1 has
  exact clean_mapM h xs as hxs

theorem clean_part (v : Value) (p : ContentPart) (h : ContentPart.ofJson v = some p) :
    p.noNulls = p := by
  unfold ContentPart.ofJson at h
  obtain ⟨fs, _, h⟩ := Option.bind_eq_some_iff.1 h
  obtain ⟨tag, _, h⟩ := Option.bind_eq_some_iff.1 h
  split at h
  · obtain ⟨body, _, h⟩ := Option.bind_eq_some_iff.1 h
    obtain ⟨cacheControl, hraw, h⟩ := Option.bind_eq_some_iff.1 h
    rw [← Option.some.inj h, ContentPart.noNulls, noNull_of_readOption hraw]
  · obtain ⟨image, _, h⟩ := Option.bind_eq_some_iff.1 h
    rw [← Option.some.inj h, ContentPart.noNulls]
  · cases h

theorem clean_content (v : Value) (c : MessageContent) (h : MessageContent.ofJson v = some c) :
    c.noNulls = c := by
  unfold MessageContent.ofJson at h
  split at h
  · rw [← Option.some.inj h, MessageContent.noNulls]
  · obtain ⟨ps, hps, rfl⟩ := Option.map_eq_some_iff.1 h
    rw [MessageContent.noNulls, clean_mapM clean_part _ ps hps]
  · cases h

theorem clean_readContent {o : Option Value} {c : MessageContent} (h : readContent o = some c) :
    c.noNulls = c := by
  obtain ⟨c', hc', rfl⟩ := Option.map_eq_some_iff.1 h
  unfold readOption at hc'
  split at hc'
  · rw [← Option.some.inj hc']
    rfl
  · rw [← Option.some.inj hc']
    rfl
  · obtain ⟨c'', hc'', rfl⟩ := Option.map_eq_some_iff.1 hc'
    exact clean_content _ c'' hc''

theorem clean_message (v : Value) (m : Message) (h : Message.ofJson v = some m) :
    m.noNulls = m := by
  unfold Message.ofJson at h
  obtain ⟨fs, _, h⟩ := Option.bind_eq_some_iff.1 h
  obtain ⟨role, _, h⟩ := Option.bind_eq_some_iff.1 h
  obtain ⟨content, hcontent, h⟩ := Option.bind_eq_some_iff.1 h
  obtain ⟨name, _, h⟩ := Option.bind_eq_some_iff.1 h
  obtain ⟨cacheControl, hraw, h⟩ := Option.bind_eq_some_iff.1 h
  obtain ⟨toolCalls, _, h⟩ := Option.bind_eq_some_iff.1 h
  obtain ⟨toolCallId, _, h⟩ := Option.bind_eq_some_iff.1 h
  obtain ⟨refusal, _, h⟩ := Option.bind_eq_some_iff.1 h
  obtain ⟨reasoning, _, h⟩ := Option.bind_eq_some_iff.1 h
  rw [← Option.some.inj h, Message.noNulls, clean_readContent hcontent,
    noNull_of_readOption hraw]

theorem clean_tool (v : Value) (t : Tool) (h : Tool.ofJson v = some t) : t.noNulls = t := by
  unfold Tool.ofJson at h
  obtain ⟨fs, _, h⟩ := Option.bind_eq_some_iff.1 h
  obtain ⟨toolType, _, h⟩ := Option.bind_eq_some_iff.1 h
  obtain ⟨function, hfunction, h⟩ := Option.bind_eq_some_iff.1 h
  obtain ⟨w, _, hfunction⟩ := Option.bind_eq_some_iff.1 hfunction
  unfold FunctionDef.ofJson at hfunction
  obtain ⟨gs, _, hfunction⟩ := Option.bind_eq_some_iff.1 hfunction
  obtain ⟨name, _, hfunction⟩ := Option.bind_eq_some_iff.1 hfunction
  obtain ⟨description, _, hfunction⟩ := Option.bind_eq_some_iff.1 hfunction
  obtain ⟨parameters, hraw, hfunction⟩ := Option.bind_eq_some_iff.1 hfunction
  rw [← Option.some.inj h, Tool.noNulls, ← Option.some.inj hfunction, noNull_of_readOption hraw]

end Clean

/-- **What was read from the wire holds no explicit null.** -/
theorem ChatCompletionRequest.ofJson_noNulls {obj : Fields} {r : ChatCompletionRequest}
    (h : ofJson obj = some r) : r.noNulls = r := by
  have hr := ofJson_eq_some.1 h
  have hmessages : r.messages.map Message.noNulls = r.messages := by
    obtain ⟨v, _, hv⟩ := Option.bind_eq_some_iff.1 hr.messages
    exact clean_readList clean_message hv
  have htools : (r.tools.map fun ts => ts.map Tool.noNulls) = r.tools := by
    have htools := hr.tools
    unfold readOption at htools
    split at htools
    · rw [← Option.some.inj htools]
      rfl
    · rw [← Option.some.inj htools]
      rfl
    · obtain ⟨ts, hts, heq⟩ := Option.map_eq_some_iff.1 htools
      rw [← heq, Option.map_some, clean_readList clean_tool hts]
  rw [noNulls, hmessages, htools, noNull_of_readOption hr.toolChoice,
    noNull_of_readOption hr.responseFormat]

end Routeplane
