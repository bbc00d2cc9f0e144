import Routeplane.Adapters.Anthropic
import Routeplane.Endpoints.Messages
import Routeplane.Lib.Fallible

/-!
# A native exchange through the canonical form

A request to the Messages endpoint becomes a canonical request and, at an Anthropic provider, a
native one again; the answer goes the other way. The adapter counts the whole prompt in
`prompt_tokens`, the cached tokens included, and the endpoint gives that number out as
`input_tokens`, beside the cache counts: what was read from or written to the cache is counted
twice.

* `usage_returned_iff`: the usage comes back iff nothing was cached.
* `SameMessage`: the role, the text, and with an image every block.
* `native_request_kept`: a native request of texts and images arrives as it was sent.
-/

namespace Routeplane

open FloatFormats Fallible

/-! ## The usage -/

/-- The reading of a usage block; the cache counts are optional. -/
def AnthropicUsage.ofJson (v : Value) : Option AnthropicUsage := do
  let inputTokens ← (v.field "input_tokens").bind Value.asU32
  let outputTokens ← (v.field "output_tokens").bind Value.asU32
  let cacheReadInputTokens ← readOption Value.asU32 (v.field "cache_read_input_tokens")
  let cacheCreationInputTokens ← readOption Value.asU32 (v.field "cache_creation_input_tokens")
  some { inputTokens, outputTokens, cacheReadInputTokens, cacheCreationInputTokens }

/-- The usage as a client of the endpoint reads it. -/
def usageSeen (response : Value) : Option AnthropicUsage :=
  (response.field "usage").bind AnthropicUsage.ofJson

theorem ofJson_usageBlock (u : Usage) :
    AnthropicUsage.ofJson (usageBlock u) =
      some ⟨u.promptTokens, u.completionTokens, u.cachedTokens, u.cacheCreationTokens⟩ := by
  have hu32 : ∀ n, Value.asU32 (u32Json n) = some n := carries_u32.read_write
  have hoption : ∀ o : Option UInt32, readOption Value.asU32 (o.map u32Json) = some o := by
    intro o
    rw [carries_u32.readOption, Option.map_id]
    rfl
  have hinput : (usageBlock u).field "input_tokens" = some (u32Json u.promptTokens) := by
    simp [usageBlock, Value.field, Value.asObject]
  have houtput : (usageBlock u).field "output_tokens" = some (u32Json u.completionTokens) := by
    simp [usageBlock, Value.field, Value.asObject]
  have hread : (usageBlock u).field "cache_read_input_tokens" = u.cachedTokens.map u32Json := by
    simp [usageBlock, Value.field, Value.asObject]
  have hwritten : (usageBlock u).field "cache_creation_input_tokens" =
      u.cacheCreationTokens.map u32Json := by
    simp [usageBlock, Value.field, Value.asObject]
  rw [AnthropicUsage.ofJson, hinput, houtput, hread, hwritten, hoption, hoption, Option.bind_some,
    Option.bind_some, hu32, hu32]
  rfl

theorem usageSeen_toAnthropicResponse (resp : ChatCompletionResponse) :
    usageSeen (toAnthropicResponse resp) =
      some ⟨resp.usage.promptTokens, resp.usage.completionTokens, resp.usage.cachedTokens,
        resp.usage.cacheCreationTokens⟩ := by
  have husage : (toAnthropicResponse resp).field "usage" = some (usageBlock resp.usage) := by
    simp [toAnthropicResponse, Value.field, Value.asObject]
  rw [usageSeen, husage, Option.bind_some, ofJson_usageBlock]

/-- The counts the provider reported fit a word together. -/
def AnthropicUsage.Fits (u : AnthropicUsage) : Prop :=
  u.inputTokens.toNat + u.outputTokens.toNat + (u.cacheReadInputTokens.getD 0).toNat +
    (u.cacheCreationInputTokens.getD 0).toNat < 2 ^ 32

/-- **The usage comes back iff no token was read from or written to the cache.** -/
theorem usage_returned_iff (serde : Serde) (created : ℕ) (r : AnthropicResponse)
    (hfits : r.usage.Fits) :
    usageSeen (toAnthropicResponse (r.translate serde created)) = some r.usage ↔
      r.usage.cacheReadInputTokens.getD 0 = 0 ∧ r.usage.cacheCreationInputTokens.getD 0 = 0 := by
  obtain ⟨id, model, content, ⟨input, output, read, written⟩, stopReason⟩ := r
  unfold AnthropicUsage.Fits at hfits
  dsimp only at hfits
  rw [usageSeen_toAnthropicResponse]
  -- the other three counts are copied
  have hinput : (some ⟨input + read.getD 0 + written.getD 0, output, read, written⟩ =
      some (⟨input, output, read, written⟩ : AnthropicUsage)) ↔
        input + read.getD 0 + written.getD 0 = input := by
    simp
  refine Iff.trans hinput ?_
  dsimp only
  rw [← UInt32.toNat_inj, UInt32.toNat_add, UInt32.toNat_add, ← UInt32.toNat_inj,
    ← UInt32.toNat_inj, UInt32.toNat_zero]
  omega

/-- No call of a tool is read. -/
def textSerde : Serde where
  fromStr _ := .error "no document"
  toString _ := none
  chunkFromValue _ := .error "no chunk"
  fromUtf8Lossy _ := ""

/-- Ten fresh tokens, and five more out of the cache. -/
def cachedReply : AnthropicResponse where
  id := "msg_1"
  model := "claude"
  content := []
  usage := ⟨10, 3, some 5, none⟩
  stopReason := "end_turn"

def uncachedReply : AnthropicResponse := { cachedReply with usage := ⟨10, 3, some 0, none⟩ }

theorem uncached_usage_returned :
    usageSeen (toAnthropicResponse (uncachedReply.translate textSerde 0)) =
      some uncachedReply.usage :=
  (usage_returned_iff textSerde 0 uncachedReply (by unfold AnthropicUsage.Fits; decide)).2 ⟨rfl, rfl⟩

/-- Fifteen fresh tokens are seen, and five more out of the cache. -/
theorem cached_tokens_counted_twice :
    cachedReply.usage.Fits ∧
      usageSeen (toAnthropicResponse (cachedReply.translate textSerde 0)) =
        some ⟨15, 3, some 5, none⟩ ∧
      usageSeen (toAnthropicResponse (cachedReply.translate textSerde 0)) ≠
        some cachedReply.usage := by
  have hseen : usageSeen (toAnthropicResponse (cachedReply.translate textSerde 0)) =
      some ⟨15, 3, some 5, none⟩ := usageSeen_toAnthropicResponse _
  refine ⟨by unfold AnthropicUsage.Fits; decide, hseen, ?_⟩
  rw [hseen]
  intro heq
  have hinput : (15 : UInt32) = 10 := congrArg AnthropicUsage.inputTokens (Option.some.inj heq)
  cases hinput

/-! ## The request -/

/-- Where an image of a native request comes from. -/
inductive ImageSource
  | base64 (mediaType data : String)
  | url (link : String)
  deriving DecidableEq, Repr

inductive NativeBlock
  | text (text : String)
  | image (source : ImageSource)
  deriving DecidableEq, Repr

def ImageSource.ofJson (source : Value) : Option ImageSource :=
  match (source.field "type").bind Value.asStr with
  | some "base64" => do
    let mediaType ← (source.field "media_type").bind Value.asStr
    let data ← (source.field "data").bind Value.asStr
    some (.base64 mediaType data)
  | some "url" => ((source.field "url").bind Value.asStr).map ImageSource.url
  | _ => none

/-- A text block or an image; any other fields of the block are not looked at. -/
def NativeBlock.ofJson (block : Value) : Option NativeBlock :=
  match (block.field "type").bind Value.asStr with
  | some "text" => ((block.field "text").bind Value.asStr).map .text
  | some "image" => ((block.field "source").bind ImageSource.ofJson).map .image
  | _ => none

/-- Inline data of an accepted media type, or an `http(s)` link. -/
def ImageSource.Supported : ImageSource → Prop
  | .base64 mediaType _ => isAnthropicSupportedMediaType mediaType = true
  | .url link => isHttpUrl link = true

def NativeBlock.Supported : NativeBlock → Prop
  | .text _ => True
  | .image source => source.Supported

def NativeBlock.text? : NativeBlock → Option String
  | .text t => some t
  | .image _ => none

def NativeBlock.isImage : NativeBlock → Bool
  | .text _ => false
  | .image _ => true

/-- The text of a list of blocks. -/
def blocksText (bs : List NativeBlock) : String := String.join (bs.filterMap NativeBlock.text?)

/-- A content as blocks: a bare text is one. -/
def AnthropicInboundContent.read : AnthropicInboundContent → Option (List NativeBlock)
  | .text s => some [.text s]
  | .blocks vs => vs.mapM NativeBlock.ofJson

def AnthropicMessageContent.read : AnthropicMessageContent → Option (List NativeBlock)
  | .text s => some [.text s]
  | .blocks vs => vs.mapM NativeBlock.ofJson

/-- A system prompt: a text, or text blocks with a blank line between them. -/
def readSystem : Value → Option String
  | .str s => some s
  | .arr vs => (vs.mapM fun v => (NativeBlock.ofJson v).bind NativeBlock.text?).map
      ("\n\n".intercalate ·)
  | _ => none

/-- A request of texts and supported images, with a non-empty system prompt if it has one. -/
structure AnthropicMessagesRequest.Plain (r : AnthropicMessagesRequest) : Prop where
  roles : ∀ m ∈ r.messages, m.role = "user" ∨ m.role = "assistant"
  contents : ∀ m ∈ r.messages, ∃ bs, m.content.read = some bs ∧ ∀ b ∈ bs, b.Supported
  system : ∀ v, r.system = some v → ∃ text, readSystem v = some text ∧ text ≠ ""
  maxTokens : r.maxTokens.isSome
  temperature : ∀ t, r.temperature = some t → 0 ≤ t ∧ t ≤ 1

/-- The same role and text, and if there is an image the same blocks in the same order. -/
structure SameMessage (m : AnthropicInboundMessage) (m' : AnthropicMessage) : Prop where
  role : m'.role = m.role
  content : ∃ bs bs', m.content.read = some bs ∧ m'.content.read = some bs' ∧
    blocksText bs' = blocksText bs ∧ (bs.any NativeBlock.isImage → bs' = bs)

/-! ## Contents there and back -/

section Contents

/-- The canonical URL of an image. -/
def ImageSource.link : ImageSource → String
  | .base64 mediaType data => dataUrl mediaType data
  | .url link => link

def NativeBlock.part : NativeBlock → ContentPart
  | .text t => .text t none
  | .image source => .imageUrl ⟨source.link, none⟩

/-- What a source block is read from. -/
theorem ImageSource.ofJson_eq_some {v : Value} {source : ImageSource}
    (h : ImageSource.ofJson v = some source) :
    ((v.field "type").bind Value.asStr = some "base64" ∧ ∃ mediaType data,
        (v.field "media_type").bind Value.asStr = some mediaType ∧
        (v.field "data").bind Value.asStr = some data ∧ source = .base64 mediaType data) ∨
      ((v.field "type").bind Value.asStr = some "url" ∧ ∃ link,
        (v.field "url").bind Value.asStr = some link ∧ source = .url link) := by
  unfold ImageSource.ofJson at h
  split at h
  · next htype =>
    obtain ⟨mediaType, hmedia, h⟩ := Option.bind_eq_some_iff.1 h
    obtain ⟨data, hdata, h⟩ := Option.bind_eq_some_iff.1 h
    exact .inl ⟨htype, mediaType, data, hmedia, hdata, (Option.some.inj h).symm⟩
  · next htype =>
    obtain ⟨link, hlink, rfl⟩ := Option.map_eq_some_iff.1 h
    exact .inr ⟨htype, link, hlink, rfl⟩
  · cases h

theorem anthropicImageToUrl_of_read {v : Value} {source : ImageSource}
    (h : ImageSource.ofJson v = some source) : anthropicImageToUrl (some v) = some source.link := by
  unfold anthropicImageToUrl
  rw [Option.bind_some]
  rcases ImageSource.ofJson_eq_some h with
    ⟨htype, mediaType, data, hmedia, hdata, rfl⟩ | ⟨htype, link, hlink, rfl⟩
  · rw [htype]
    simp only [Option.bind_some, hmedia, hdata]
    rfl
  · rw [htype]
    simp only [Option.bind_some, hlink]
    rfl

/-- What a native block is read from. -/
theorem NativeBlock.ofJson_eq_some {v : Value} {b : NativeBlock} (h : NativeBlock.ofJson v = some b) :
    ((v.field "type").bind Value.asStr = some "text" ∧ ∃ t,
        (v.field "text").bind Value.asStr = some t ∧ b = .text t) ∨
      ((v.field "type").bind Value.asStr = some "image" ∧ ∃ inner source,
        v.field "source" = some inner ∧ ImageSource.ofJson inner = some source ∧
        b = .image source) := by
  unfold NativeBlock.ofJson at h
  split at h
  · next htype =>
    obtain ⟨t, ht, rfl⟩ := Option.map_eq_some_iff.1 h
    exact .inl ⟨htype, t, ht, rfl⟩
  · next htype =>
    obtain ⟨source, hsource, rfl⟩ := Option.map_eq_some_iff.1 h
    obtain ⟨inner, hinner, hsource⟩ := Option.bind_eq_some_iff.1 hsource
    exact .inr ⟨htype, inner, source, hinner, hsource, rfl⟩
  · cases h

theorem toCanonicalPart_of_read {v : Value} {b : NativeBlock} (h : NativeBlock.ofJson v = some b) :
    toCanonicalPart v = some b.part := by
  unfold toCanonicalPart
  rcases NativeBlock.ofJson_eq_some h with
    ⟨htype, t, ht, rfl⟩ | ⟨htype, inner, source, hinner, hsource, rfl⟩
  · rw [htype]
    simp only [ht]
    rfl
  · rw [htype]
    simp only [hinner, anthropicImageToUrl_of_read hsource]
    rfl

/-- A supported image is sent as a block of the same source. -/
theorem anthropicImageBlock_link {source : ImageSource} (h : source.Supported) :
    ∃ v, anthropicImageBlock source.link = some v ∧
      NativeBlock.ofJson v = some (.image source) := by
  cases source with
  | base64 mediaType data =>
    obtain ⟨hne, hcomma⟩ := ne_and_no_comma_of_supported h
    refine ⟨anthropicImage (anthropicInlineSource ⟨mediaType, data⟩), ?_, rfl⟩
    unfold anthropicImageBlock ImageSource.link
    rw [parseDataUrl_dataUrl hne hcomma]
    exact if_pos h
  | url link =>
    refine ⟨anthropicImage (anthropicLinkSource link), ?_, rfl⟩
    unfold anthropicImageBlock ImageSource.link
    rw [parseDataUrl_link h]
    exact if_pos h

theorem anthropicPart_part {b : NativeBlock} (h : b.Supported) :
    ∃ v, anthropicPart b.part = some v ∧ NativeBlock.ofJson v = some b := by
  cases b with
  | text t => exact ⟨_, rfl, rfl⟩
  | image source => exact anthropicImageBlock_link h

theorem read_anthropicParts {bs : List NativeBlock} (h : ∀ b ∈ bs, b.Supported) :
    ((bs.map NativeBlock.part).filterMap anthropicPart).mapM NativeBlock.ofJson = some bs := by
  rw [mapM_eq_some_iff]
  induction bs with
  | nil => exact .nil
  | cons b bs ih =>
    obtain ⟨v, hv, hread⟩ := anthropicPart_part (h b (List.mem_cons_self ..))
    rw [List.map_cons, List.filterMap_cons_some hv]
    exact .cons hread (ih fun b hb => h b (List.mem_cons_of_mem _ hb))

theorem hasImages_parts (bs : List NativeBlock) :
    (MessageContent.parts (bs.map NativeBlock.part)).hasImages = bs.any NativeBlock.isImage := by
  induction bs with
  | nil => rfl
  | cons b bs ih => cases b <;> simp_all [MessageContent.hasImages, NativeBlock.part, NativeBlock.isImage]

theorem asText_parts (bs : List NativeBlock) :
    (MessageContent.parts (bs.map NativeBlock.part)).asText = blocksText bs := by
  simp only [MessageContent.asText, MessageContent.texts, blocksText, List.filterMap_map]
  congr 1
  refine List.filterMap_congr fun b _ => ?_
  cases b <;> rfl

/-- **The content of a message comes back**: block by block if it has an image, as one text if
it has none. -/
theorem read_anthropicContent {content : AnthropicInboundContent} {bs : List NativeBlock}
    (hread : content.read = some bs) (h : ∀ b ∈ bs, b.Supported) :
    ∃ bs', (anthropicContent (toCanonicalContent content) none).read = some bs' ∧
      blocksText bs' = blocksText bs ∧ (bs.any NativeBlock.isImage → bs' = bs) := by
  cases content with
  | text s =>
    cases Option.some.inj hread
    refine ⟨_, rfl, ?_, nofun⟩
    simp [blocksText, NativeBlock.text?, toCanonicalContent, MessageContent.asText,
      MessageContent.texts]
  | blocks vs =>
    have hparts : vs.filterMap toCanonicalPart = bs.map NativeBlock.part :=
      filterMap_of_mapM (fun _ _ => toCanonicalPart_of_read) hread
    simp only [toCanonicalContent, hparts]
    cases himages : bs.any NativeBlock.isImage with
    | false =>
      rw [hasImages_parts, himages, asText_parts]
      refine ⟨_, rfl, ?_, nofun⟩
      simp [blocksText, NativeBlock.text?, MessageContent.asText, MessageContent.texts]
    | true =>
      rw [hasImages_parts, himages, if_pos rfl]
      refine ⟨bs, ?_, rfl, fun _ => rfl⟩
      unfold anthropicContent
      rw [hasImages_parts, himages, attachToLast_none]
      exact read_anthropicParts h

end Contents

/-! ## The request there and back -/

section Request

variable (serde : Serde) {r : AnthropicMessagesRequest}

/-- The system prompt reads as one text, which becomes the leading system message. -/
theorem flattenSystem_of_read {v : Value} {text : String} (h : readSystem v = some text) :
    flattenSystem v = some text := by
  cases v with
  | str s => exact h
  | arr vs =>
    obtain ⟨texts, htexts, rfl⟩ := Option.map_eq_some_iff.1 h
    have hfield : ∀ b t, ((NativeBlock.ofJson b).bind NativeBlock.text?) = some t →
        ((b.field "text").bind Value.asStr) = some t := by
      intro b t hb
      obtain ⟨block, hblock, ht⟩ := Option.bind_eq_some_iff.1 hb
      cases block with
      | image source => cases ht
      | text t' =>
        cases Option.some.inj ht
        rcases NativeBlock.ofJson_eq_some hblock with ⟨_, t'', ht'', heq⟩ | ⟨_, _, _, _, _, heq⟩
        · rw [ht'', NativeBlock.text.inj heq]
        · cases heq
    rw [flattenSystem, filterMap_of_mapM (h := id) hfield htexts, List.map_id]
  | null | bool b | num n | obj fs => cases h

/-- The messages of the canonical request: the system text, then one for each message. -/
def systemMessage (text : String) : Message := { role := "system", content := .text text }

def canonicalMessage (m : AnthropicInboundMessage) : Message :=
  { role := m.role, content := toCanonicalContent m.content }

/-- A user's or an assistant's message is sent as it is. -/
theorem anthropicMessage_canonical {m : AnthropicInboundMessage}
    (hrole : m.role = "user" ∨ m.role = "assistant") :
    anthropicMessage serde (canonicalMessage m) =
      ⟨m.role, anthropicContent (toCanonicalContent m.content) none⟩ := by
  have htool : (canonicalMessage m).role ≠ "tool" := by
    show m.role ≠ "tool"
    obtain h | h := hrole <;> rw [h] <;> decide
  have hcalls : (if (canonicalMessage m).role = "assistant" then (canonicalMessage m).toolCalls
      else none) = none := ite_self none
  rw [anthropicMessage, if_neg htool, hcalls]
  rfl

theorem sameMessage_of_plain {m : AnthropicInboundMessage} {bs : List NativeBlock}
    (hrole : m.role = "user" ∨ m.role = "assistant") (hread : m.content.read = some bs)
    (hsupported : ∀ b ∈ bs, b.Supported) :
    SameMessage m (anthropicMessage serde (canonicalMessage m)) := by
  obtain ⟨bs', hread', htext, himages⟩ := read_anthropicContent hread hsupported
  rw [anthropicMessage_canonical serde hrole]
  exact ⟨rfl, bs, bs', hread, hread', htext, himages⟩

/-- The canonical messages of a system prompt, if there is one, and of the others. -/
def withSystem (system : Option String) (messages : List Message) : List Message :=
  system.toList.map systemMessage ++ messages

section System

variable {messages : List Message} (hmessages : ∀ m ∈ messages, m.role ≠ "system")
include hmessages

theorem filter_withSystem (system : Option String) :
    (withSystem system messages).filter (fun m => m.role ≠ "system") = messages := by
  have hself : messages.filter (fun m => m.role ≠ "system") = messages :=
    List.filter_eq_self.2 fun m hm => by simpa using hmessages m hm
  rw [withSystem, List.filter_append, hself]
  cases system <;> simp [systemMessage]

/-- Only the system prompt is lifted, as one text: nothing asks for caching. -/
theorem buildAnthropicSystem_withSystem (system : Option String) :
    buildAnthropicSystem (systemParts (withSystem system messages)) = system.map .text := by
  have hnone : messages.filter (fun m => m.role = "system") = [] :=
    List.filter_eq_nil_iff.2 fun m hm => by simpa using hmessages m hm
  rw [systemParts, withSystem, List.filter_append, hnone]
  cases system <;>
    simp [buildAnthropicSystem, systemMessage, MessageContent.asText, MessageContent.texts]

end System

theorem messages_toCanonicalRequest (hplain : r.Plain) :
    (toCanonicalRequest r).messages =
      withSystem (r.system.bind readSystem) (r.messages.map canonicalMessage) := by
  have hsystem : (r.system.bind flattenSystem).filter (fun t => !t.isEmpty) =
      r.system.bind readSystem := by
    cases hv : r.system with
    | none => rfl
    | some v =>
      obtain ⟨text, htext, hne⟩ := hplain.system v hv
      simp [htext, flattenSystem_of_read htext, hne]
  rw [toCanonicalRequest, hsystem]
  rfl

theorem clampF32_eq_self {x low high : Float32} (hlow : low ≤ x) (hhigh : x ≤ high) :
    clampF32 x low high = x := by
  unfold clampF32
  rw [if_neg (not_lt_of_le hlow)]
  exact if_neg (not_lt_of_le hhigh)

/-- **A native request of texts and images arrives as it was sent.** -/
theorem native_request_kept (hplain : r.Plain) :
    let sent := buildAnthropicRequest serde (toCanonicalRequest r)
    sent.model = r.model ∧ some sent.maxTokens = r.maxTokens ∧
      sent.temperature = r.temperature ∧ sent.topP = r.topP ∧
      sent.stopSequences = r.stopSequences ∧
      sent.system = (r.system.bind readSystem).map .text ∧
      List.Forall₂ SameMessage r.messages sent.messages := by
  intro sent
  have hroles : ∀ m ∈ r.messages.map canonicalMessage, m.role ≠ "system" := by
    intro m' hm'
    obtain ⟨m, hm, rfl⟩ := List.mem_map.1 hm'
    show m.role ≠ "system"
    obtain h | h := hplain.roles m hm <;> rw [h] <;> decide
  have hmessages := messages_toCanonicalRequest hplain
  refine ⟨rfl, ?_, ?_, rfl, rfl, ?_, ?_⟩
  · obtain ⟨n, hn⟩ := Option.isSome_iff_exists.1 hplain.maxTokens
    show some (((none : Option UInt32).or r.maxTokens).getD _) = _
    rw [hn]
    rfl
  · show r.temperature.map _ = r.temperature
    cases ht : r.temperature with
    | none => rfl
    | some t =>
      obtain ⟨hlow, hhigh⟩ := hplain.temperature t ht
      rw [Option.map_some, clampF32_eq_self hlow hhigh]
  · show buildAnthropicSystem (systemParts _) = _
    rw [hmessages, buildAnthropicSystem_withSystem hroles]
  · show List.Forall₂ SameMessage r.messages (List.map _ (List.filter _ _))
    rw [hmessages, filter_withSystem hroles, List.map_map, List.forall₂_map_right_iff,
      List.forall₂_same]
    intro m hm
    obtain ⟨bs, hread, hsupported⟩ := hplain.contents m hm
    exact sameMessage_of_plain serde (hplain.roles m hm) hread hsupported

/-- A question about an inline image, under a system prompt. -/
def imageQuestion : AnthropicMessagesRequest where
  model := "claude"
  maxTokens := some 64
  system := some (.str "Be brief.")
  messages := [⟨"user", .blocks [anthropicTextBlock "What is this?",
    anthropicImage (anthropicInlineSource ⟨"image/png", "iVBORw0K"⟩)]⟩]
  temperature := some 0.5

theorem imageQuestion_plain : imageQuestion.Plain where
  roles m hm := by
    rw [List.mem_singleton.1 hm]
    exact .inl rfl
  contents m hm := by
    rw [List.mem_singleton.1 hm]
    refine ⟨[.text "What is this?", .image (.base64 "image/png" "iVBORw0K")], rfl, ?_⟩
    intro b hb
    obtain rfl | hb := List.mem_cons.1 hb
    · trivial
    · rw [List.mem_singleton.1 hb]
      rfl
  system v hv := by
    cases Option.some.inj hv
    exact ⟨"Be brief.", rfl, by decide⟩
  maxTokens := rfl
  temperature t ht := by
    rw [← Option.some.inj ht]
    decide

theorem image_question_kept :
    List.Forall₂ SameMessage imageQuestion.messages
      (buildAnthropicRequest textSerde (toCanonicalRequest imageQuestion)).messages :=
  (native_request_kept textSerde imageQuestion_plain).2.2.2.2.2.2

end Request

end Routeplane
