import Routeplane.Adapters.Gemini
import Routeplane.Lib.Fallible

/-!
# A conversation as Gemini contents

Each message but a system message becomes one content. What a content says is read off its parts:
texts, inline images, calls, results of calls. Results carry the id of their call where Gemini
expects the name of the function.

* `GeminiPart.ofJson`: a part as Gemini reads it.
* `TurnKept`: what of a message is in its content.
* `conversation_kept`: every message of a conversation with inline images has such a content.
* `result_misnamed`: a result under the id of its call.
-/

namespace Routeplane

open Fallible

inductive GeminiPart
  | text (text : String)
  | image (data : DataUrl)
  | call (name : String) (args : Value)
  | response (name result : String)

namespace GeminiPart

def textOfJson (v : Value) : Option GeminiPart := ((v.get "text").bind Value.asStr).map .text

def imageOfJson (v : Value) : Option GeminiPart := do
  let inline ← v.get "inlineData"
  let mimeType ← (inline.get "mimeType").bind Value.asStr
  let data ← (inline.get "data").bind Value.asStr
  some (.image ⟨mimeType, data⟩)

def callOfJson (v : Value) : Option GeminiPart := do
  let call ← v.get "functionCall"
  let name ← (call.get "name").bind Value.asStr
  let args ← call.get "args"
  some (.call name args)

def responseOfJson (v : Value) : Option GeminiPart := do
  let response ← v.get "functionResponse"
  let name ← (response.get "name").bind Value.asStr
  let result ← (response.get "response").bind fun r => (r.get "result").bind Value.asStr
  some (.response name result)

/-- A part says what it is by its one field. -/
def ofJson (v : Value) : Option GeminiPart :=
  (((textOfJson v).or (imageOfJson v)).or (callOfJson v)).or (responseOfJson v)

def text? : GeminiPart → Option String
  | .text t | .response _ t => some t
  | _ => none

def call? : GeminiPart → Option (String × Value)
  | .call name args => some (name, args)
  | _ => none

def response? : GeminiPart → Option String
  | .response name _ => some name
  | _ => none

end GeminiPart

/-! ## What a content must say -/

/-- A text, or an image of a data URL. -/
def ContentPart.geminiPart : ContentPart → Option GeminiPart
  | .text t _ => some (.text t)
  | .imageUrl image => (parseDataUrl image.url).map .image

/-- The texts and images of a content, in order; none if an image is not inline. -/
def MessageContent.geminiParts : MessageContent → Option (List GeminiPart)
  | .text t => some [.text t]
  | .parts ps => ps.mapM ContentPart.geminiPart

/-- The turns that carry neither a call nor the result of one. -/
def Message.Ordinary (m : Message) : Prop := m.role ≠ "tool" ∧ m.turnCalls = none

/-- What the parts of a content say of its message: all its text; its calls by name and
arguments, if it is an assistant's; the id of its call, if it is a result; and for an ordinary
message every text and every image in order. -/
structure TurnKept (serde : Serde) (m : Message) (ps : List GeminiPart) : Prop where
  text : String.join (ps.filterMap GeminiPart.text?) = m.content.asText
  calls : m.role ≠ "tool" → ps.filterMap GeminiPart.call? =
    (m.turnCalls.getD []).map fun call => (call.function.name, geminiCallArgs serde call)
  response : m.role = "tool" → ps.filterMap GeminiPart.response? = [m.toolCallId.getD ""]
  named : m.role = "tool" → ∀ call : ToolCall, m.toolCallId = some call.id →
    (ps.filterMap GeminiPart.response? = [call.function.name] ↔ call.id = call.function.name)
  parts : m.Ordinary → m.content.geminiParts = some ps

def Message.geminiRole (m : Message) : String :=
  if m.role = "user" ∨ m.role = "tool" then "user" else "model"

/-- The content of a message is its parts under its role. -/
def ContentKept (serde : Serde) (m : Message) (c : GeminiContent) : Prop :=
  c.role = m.geminiRole ∧ ∃ ps, c.parts.mapM GeminiPart.ofJson = some ps ∧ TurnKept serde m ps

/-- The instruction as Gemini reads it: the texts of the system messages, a blank line between. -/
def systemText (request : ChatCompletionRequest) : Option String :=
  let texts := (request.messages.filter fun m => m.role = "system").map fun m => m.content.asText
  if texts.isEmpty then none else some ("\n\n".intercalate texts)

/-! ## Parts -/

section Parts

theorem ofJson_inlinePart (data : DataUrl) :
    GeminiPart.ofJson (geminiInlinePart data) = some (.image data) := rfl

/-- An inline part is sent, and reads as what it was. -/
theorem geminiContentPart_of_inline {part : ContentPart} {p : GeminiPart}
    (h : part.geminiPart = some p) :
    ∃ v, geminiContentPart part = .ok v ∧ GeminiPart.ofJson v = some p := by
  cases part with
  | text t cacheControl =>
    rw [← Option.some.inj h]
    exact ⟨geminiTextPart t, rfl, rfl⟩
  | imageUrl image =>
    obtain ⟨data, hdata, rfl⟩ := Option.map_eq_some_iff.1 h
    refine ⟨geminiInlinePart data, ?_, ofJson_inlinePart data⟩
    simp only [geminiContentPart, hdata]

theorem geminiContentParts_of_inline {content : MessageContent} {ps : List GeminiPart}
    (h : content.geminiParts = some ps) :
    ∃ vs, geminiContentParts content = .ok vs ∧ vs.mapM GeminiPart.ofJson = some ps := by
  cases content with
  | text t =>
    rw [← Option.some.inj h]
    exact ⟨[geminiTextPart t], rfl, rfl⟩
  | parts parts =>
    have hread := mapM_eq_some_iff.1 h
    show ∃ vs, parts.mapM geminiContentPart = .ok vs ∧ _
    simp only [mapM_eq_ok_iff, mapM_eq_some_iff]
    clear h
    induction hread with
    | nil => exact ⟨[], .nil, .nil⟩
    | cons hp _ ih =>
      obtain ⟨v, hv, hp'⟩ := geminiContentPart_of_inline hp
      obtain ⟨vs, hvs, hps⟩ := ih
      exact ⟨v :: vs, .cons hv hvs, .cons hp' hps⟩

/-- The texts among the inline parts are those of the content. -/
theorem texts_geminiParts {content : MessageContent} {ps : List GeminiPart}
    (h : content.geminiParts = some ps) : ps.filterMap GeminiPart.text? = content.texts := by
  cases content with
  | text t =>
    rw [← Option.some.inj h]
    rfl
  | parts parts =>
    have hread := mapM_eq_some_iff.1 h
    clear h
    simp only [MessageContent.texts]
    induction hread with
    | nil => rfl
    | @cons part p _ _ hp _ ih =>
      cases part with
      | text t cacheControl =>
        cases Option.some.inj hp
        simp only [List.filterMap_cons, GeminiPart.text?, ih]
      | imageUrl image =>
        obtain ⟨data, hdata, rfl⟩ := Option.map_eq_some_iff.1 hp
        simp only [List.filterMap_cons, GeminiPart.text?, ih]

/-- No call is among the inline parts. -/
theorem calls_geminiParts {content : MessageContent} {ps : List GeminiPart}
    (h : content.geminiParts = some ps) : ps.filterMap GeminiPart.call? = [] := by
  cases content with
  | text t =>
    rw [← Option.some.inj h]
    rfl
  | parts parts =>
    have hread := mapM_eq_some_iff.1 h
    clear h
    induction hread with
    | nil => rfl
    | @cons part p _ _ hp _ ih =>
      cases part with
      | text t cacheControl =>
        cases Option.some.inj hp
        simp only [List.filterMap_cons, GeminiPart.call?, ih]
      | imageUrl image =>
        obtain ⟨data, hdata, rfl⟩ := Option.map_eq_some_iff.1 hp
        simp only [List.filterMap_cons, GeminiPart.call?, ih]

end Parts

/-! ## Contents -/

section Contents

variable (serde : Serde) {m : Message}

theorem contentKept_result (hrole : m.role = "tool") :
    ContentKept serde m ⟨"user", [geminiResponsePart m]⟩ := by
  refine ⟨by simp [Message.geminiRole, hrole],
    [.response (m.toolCallId.getD "") m.content.asText], rfl, ?_⟩
  refine ⟨by simp [GeminiPart.text?], fun h => absurd hrole h, fun _ => rfl, ?_, ?_⟩
  · intro _ call hcall
    rw [hcall]
    simp [GeminiPart.response?]
  · intro h
    exact absurd hrole h.1

def callPart (call : ToolCall) : GeminiPart :=
  .call call.function.name (geminiCallArgs serde call)

theorem geminiCallParts_read (m : Message) (calls : List ToolCall) :
    List.Forall₂ (fun v p => GeminiPart.ofJson v = some p) (geminiCallParts serde m calls)
      ((if m.content.asText.isEmpty then [] else [.text m.content.asText]) ++
        calls.map (callPart serde)) := by
  unfold geminiCallParts
  refine List.rel_append ?_ ?_
  · split
    · exact .nil
    · exact .cons rfl .nil
  · rw [List.forall₂_map_left_iff, List.forall₂_map_right_iff, List.forall₂_same]
    exact fun _ _ => rfl

theorem contentKept_calls {calls : List ToolCall} (hrole : m.role ≠ "tool")
    (hcalls : m.turnCalls = some calls) :
    ContentKept serde m ⟨if m.role = "user" then "user" else "model",
      geminiCallParts serde m calls⟩ := by
  have hread := mapM_eq_some_iff.2 (geminiCallParts_read serde m calls)
  refine ⟨by simp [Message.geminiRole, hrole], _, hread, ?_, ?_, fun h => absurd h hrole,
    fun h => absurd h hrole, ?_⟩
  · -- the calls hold no text, and no text part stands for the empty text
    have hnone : (calls.map (callPart serde)).filterMap GeminiPart.text? = [] := by
      rw [List.filterMap_map]
      exact List.filterMap_eq_nil_iff.2 fun _ _ => rfl
    rw [List.filterMap_append, hnone, List.append_nil]
    by_cases hempty : m.content.asText.isEmpty
    · rw [if_pos hempty]
      simpa using hempty.symm
    · rw [if_neg hempty]
      simp [GeminiPart.text?]
  · intro _
    have hsome : ∀ call ∈ calls, (GeminiPart.call? ∘ callPart serde) call =
        some (call.function.name, geminiCallArgs serde call) := fun _ _ => rfl
    have hhead : (if m.content.asText.isEmpty then []
        else [GeminiPart.text m.content.asText]).filterMap GeminiPart.call? = [] := by
      split <;> rfl
    rw [List.filterMap_append, hhead, List.nil_append, hcalls, List.filterMap_map,
      List.filterMap_congr hsome, List.filterMap_eq_map']
    rfl
  · rintro ⟨_, hnone⟩
    rw [hcalls] at hnone
    cases hnone

theorem contentKept_ordinary {vs : List Value} {ps : List GeminiPart} (hordinary : m.Ordinary)
    (hparts : m.content.geminiParts = some ps) (hread : vs.mapM GeminiPart.ofJson = some ps) :
    ContentKept serde m ⟨if m.role = "user" then "user" else "model", vs⟩ := by
  obtain ⟨hrole, hcalls⟩ := hordinary
  refine ⟨by simp [Message.geminiRole, hrole], ps, hread, ?_⟩
  refine ⟨?_, ?_, fun h => absurd h hrole, fun h => absurd h hrole, fun _ => hparts⟩
  · rw [texts_geminiParts hparts]
    rfl
  · intro _
    rw [hcalls, calls_geminiParts hparts]
    rfl

/-- **Every message with inline images has a content that keeps it.** -/
theorem geminiContent_kept (hinline : m.content.geminiParts.isSome) :
    ∃ c, geminiContent serde m = .ok c ∧ ContentKept serde m c := by
  obtain ⟨ps, hps⟩ := Option.isSome_iff_exists.1 hinline
  unfold geminiContent
  by_cases hrole : m.role = "tool"
  · rw [if_pos hrole]
    exact ⟨_, rfl, contentKept_result serde hrole⟩
  · rw [if_neg hrole]
    cases hcalls : m.turnCalls with
    | some calls => exact ⟨_, rfl, contentKept_calls serde hrole hcalls⟩
    | none =>
      obtain ⟨vs, hvs, hread⟩ := geminiContentParts_of_inline hps
      simp only [hvs]
      exact ⟨_, rfl, contentKept_ordinary serde ⟨hrole, hcalls⟩ hps hread⟩

end Contents

/-! ## Conversations -/

/-- **A conversation with inline images is translated**: a content for each message that is no
system message, in order, and the texts of the system messages as the instruction. -/
theorem conversation_kept (serde : Serde) (request : ChatCompletionRequest)
    (hinline : ∀ m ∈ request.messages, m.content.geminiParts.isSome) :
    ∃ gem, buildGeminiRequest serde request = .ok gem ∧
      List.Forall₂ (ContentKept serde) (request.messages.filter fun m => m.role ≠ "system")
        gem.contents ∧
      gem.systemInstruction.map (fun c => c.parts.filterMap geminiText) =
        (systemText request).map fun t => [t] := by
  have hcontents : ∀ m ∈ request.messages.filter fun m => m.role ≠ "system",
      ∃ c, geminiContent serde m = .ok c ∧ ContentKept serde m c := by
    intro m hm
    exact geminiContent_kept serde (hinline m (List.mem_filter.1 hm).1)
  obtain ⟨contents, hok, hkept⟩ := exists_mapM_ok hcontents
  have hsystem : ∀ texts : List String,
      (geminiSystemInstruction texts).map (fun c => c.parts.filterMap geminiText) =
        (if texts.isEmpty then none else some ("\n\n".intercalate texts)).map fun t => [t] := by
    intro texts
    unfold geminiSystemInstruction
    split <;> rfl
  unfold buildGeminiRequest
  rw [hok]
  exact ⟨_, rfl, hkept, hsystem _⟩

/-! ## Results under the ids of their calls -/

/-- The result at position `i` answers a call of an earlier turn. -/
def Answers (messages : List Message) (i : ℕ) (call : ToolCall) : Prop :=
  ∃ result, messages[i]? = some result ∧ result.role = "tool" ∧
    result.toolCallId = some call.id ∧
    ∃ turn ∈ messages.take i, ∃ calls, turn.turnCalls = some calls ∧ call ∈ calls

def weatherCall : ToolCall := ⟨"call_0", "function", ⟨"get_weather", "\x7b\x7d"⟩⟩

def weatherTalk : ChatCompletionRequest where
  model := "gemini-2.0-flash"
  messages := [
    { role := "user",
      content := .parts [.text "Is it raining?" none,
        .imageUrl ⟨"data:image/png;base64,iVBORw0KGgo=", none⟩] },
    { role := "assistant", content := .text "", toolCalls := some [weatherCall] },
    { role := "tool", content := .text "no", toolCallId := some "call_0" }]

/-- No text parses. -/
def noSerde : Serde where
  fromStr _ := .error "expected value"
  toString _ := none
  chunkFromValue _ := .error "no chunk"
  fromUtf8Lossy _ := ""

theorem weather_talk_kept : ∃ gem, buildGeminiRequest noSerde weatherTalk = .ok gem ∧
    List.Forall₂ (ContentKept noSerde) (weatherTalk.messages.filter fun m => m.role ≠ "system")
      gem.contents ∧
    gem.systemInstruction.map (fun c => c.parts.filterMap geminiText) =
      (systemText weatherTalk).map fun t => [t] :=
  conversation_kept noSerde weatherTalk (by decide)

/-- **The result is named after its call's id**, not after the function. -/
theorem result_misnamed :
    (∀ m ∈ weatherTalk.messages, m.content.geminiParts.isSome) ∧
      Answers weatherTalk.messages 2 weatherCall ∧
      ∃ gem content, buildGeminiRequest noSerde weatherTalk = .ok gem ∧
        gem.contents[2]? = some content ∧
        (content.parts.filterMap GeminiPart.ofJson).filterMap GeminiPart.response? = ["call_0"] ∧
        "call_0" ≠ weatherCall.function.name := by
  refine ⟨by decide, ⟨_, rfl, rfl, rfl, _, .tail _ (.head _), [weatherCall], rfl, .head _⟩,
    _, _, rfl, rfl, rfl, by decide⟩

end Routeplane
