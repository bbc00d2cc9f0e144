import Routeplane.Adapters.Compatible
import Routeplane.Proof.SseLoop

/-!
# The two modes of an adapter

An adapter of the OpenAI wire has its changes to a request written down twice, once for each
mode, and so has it those to an answer. The requests agree: the changes are the same, and the
fields of one mode are none of those changed. The answers do not: a stream's usage has the
nested count of cached tokens in any case, a response's only where the adapter lifts it.

* `sharedPart_streamBody`: one body, the fields of a mode aside. `stripped_outbound`: what is
  not in it.
* `usage_of_response`, `usage_of_chunk`: the usage of what carries a block is the block's.
* `modes_agree`: the bodies, and when the usage agrees.
-/

namespace Routeplane

namespace Fields

variable {fs : Fields} {k k' : String} {v : Value}

theorem remove_insert_self (fs : Fields) (k : String) (v : Value) :
    remove (insert fs k v) k = remove fs k := by
  induction fs with
  | nil => simp [insert, remove]
  | cons f fs ih =>
    obtain ⟨k₀, v₀⟩ := f
    by_cases h : k₀ = k
    · simp [insert, remove, h]
    · simpa [insert, remove, h] using ih

theorem remove_insert_of_ne (h : k' ≠ k) (fs : Fields) (v : Value) :
    remove (insert fs k' v) k = insert (remove fs k) k' v := by
  induction fs with
  | nil => simp [insert, remove, h]
  | cons f fs ih =>
    obtain ⟨k₀, v₀⟩ := f
    by_cases h' : k₀ = k'
    · subst h'
      simp [insert, remove, h]
    · by_cases h₀ : k₀ = k
      · subst h₀
        simpa [insert, remove, h'] using ih
      · simpa [insert, remove, h', h₀] using ih

theorem remove_comm (fs : Fields) (k k' : String) :
    remove (remove fs k) k' = remove (remove fs k') k :=
  List.filter_comm _ _ _

theorem remove_entry_of_ne (h : k' ≠ k) (fs : Fields) (v : Value) :
    remove (entry fs k' v) k = entry (remove fs k) k' v := by
  rw [entry, entry, get_remove_ne fs h]
  split
  · rfl
  · exact remove_insert_of_ne h fs v

theorem get_entry_of_ne (h : k' ≠ k) (fs : Fields) (v : Value) :
    get (entry fs k v) k' = get fs k' := by
  rw [entry]
  split
  · rfl
  · exact get_insert_ne fs h v

end Fields

namespace Value

/-- An object without a field. -/
def dropKey (v : Value) (k : String) : Value :=
  match v with
  | .obj fs => .obj (Fields.remove fs k)
  | v => v

/-- A body but for the fields that are a mode's own. -/
def sharedPart (v : Value) : Value := (v.dropKey "stream").dropKey "stream_options"

theorem dropKey_comm (v : Value) (k k' : String) :
    (v.dropKey k).dropKey k' = (v.dropKey k').dropKey k := by
  cases v <;> first | rfl | exact congrArg Value.obj (Fields.remove_comm _ k k')

theorem dropKey_setKey (v : Value) (k : String) (x : Value) :
    (v.setKey k x).dropKey k = v.dropKey k := by
  cases v <;> first | rfl | exact congrArg Value.obj (Fields.remove_insert_self _ k x)

theorem get_setKey_of_ne {k k' : String} (h : k' ≠ k) (v x : Value) :
    (v.setKey k x).get k' = v.get k' := by
  cases v <;> first | rfl | exact Fields.get_insert_ne _ h x

theorem sharedPart_setKey_stream (v x : Value) : (v.setKey "stream" x).sharedPart = v.sharedPart := by
  rw [sharedPart, dropKey_setKey, sharedPart]

theorem sharedPart_setKey_options (v x : Value) :
    (v.setKey "stream_options" x).sharedPart = v.sharedPart := by
  rw [sharedPart, dropKey_comm, dropKey_setKey, dropKey_comm, sharedPart]

end Value

/-! ## The bodies -/

section Body

variable {a : WireAdapter} {k : String}

theorem strip_dropKey (hk : k ≠ "messages") (v : Value) :
    stripCacheControlForOpenai (v.dropKey k) = (stripCacheControlForOpenai v).dropKey k := by
  cases v with
  | obj fs =>
    have hget : Fields.get (Fields.remove fs k) "messages" = Fields.get fs "messages" :=
      Fields.get_remove_ne fs hk.symm
    simp only [Value.dropKey, stripCacheControlForOpenai, hget]
    split
    · exact congrArg Value.obj (Fields.remove_insert_of_ne hk.symm _ _).symm
    · rfl
  | _ => rfl

theorem remap_dropKey (hold : k ≠ "max_tokens") (hnew : k ≠ "max_completion_tokens") (v : Value)
    (model : String) : remapMaxTokensForReasoningModels (v.dropKey k) model =
      (remapMaxTokensForReasoningModels v model).dropKey k := by
  unfold remapMaxTokensForReasoningModels
  split
  · cases v with
    | obj fs =>
      have hget : Fields.get (Fields.remove fs k) "max_tokens" = Fields.get fs "max_tokens" :=
        Fields.get_remove_ne fs hold.symm
      simp only [Value.dropKey, hget]
      split
      · refine congrArg Value.obj ?_
        rw [Fields.remove_entry_of_ne hnew.symm, Fields.remove_comm]
      · rfl
    | _ => rfl
  · rfl

theorem outbound_dropKey (hmessages : k ≠ "messages") (hold : k ≠ "max_tokens")
    (hnew : k ≠ "max_completion_tokens") (v : Value) (model : String) :
    a.outbound (v.dropKey k) model = (a.outbound v model).dropKey k := by
  unfold WireAdapter.outbound
  rw [strip_dropKey hmessages]
  split
  · exact remap_dropKey hold hnew _ model
  · rfl

/-- What is changed is nothing of a mode. -/
theorem outbound_sharedPart (v : Value) (model : String) :
    (a.outbound v model).sharedPart = a.outbound v.sharedPart model := by
  rw [Value.sharedPart, Value.sharedPart,
    outbound_dropKey (by decide) (by decide) (by decide),
    outbound_dropKey (by decide) (by decide) (by decide)]

/-- **The two modes send one body**, the fields of a mode aside. -/
theorem sharedPart_streamBody (request : ChatCompletionRequest) :
    (a.streamBody request).sharedPart = (a.body request).sharedPart := by
  rw [WireAdapter.streamBody, WireAdapter.body, outbound_sharedPart, outbound_sharedPart]
  congr 1
  split
  · rw [Value.sharedPart_setKey_options, Value.sharedPart_setKey_stream]
  · rw [Value.sharedPart_setKey_stream]

/-- The cache marker, and the fields that only responses have. -/
def refusedFields : List String := ["cache_control", "reasoning_content", "refusal"]

/-- The body has messages, and no message and no content part has a refused field. -/
def Stripped (body : Value) : Prop :=
  ∃ messages, body.get "messages" = some (.arr messages) ∧ ∀ msg ∈ messages, ∀ k ∈ refusedFields,
    msg.get k = none ∧
      ∀ parts, msg.get "content" = some (.arr parts) → ∀ part ∈ parts, part.get k = none

theorem get_stripMessage (hk : k ∈ refusedFields) (msg : Value) : (stripMessage msg).get k = none := by
  cases msg with
  | obj fs =>
    have hstripped : Fields.get (((Fields.remove fs "cache_control").remove
        "reasoning_content").remove "refusal") k = none := by
      simp only [refusedFields, List.mem_cons, List.not_mem_nil, or_false] at hk
      rcases hk with rfl | rfl | rfl
      · rw [Fields.get_remove_ne _ (by decide), Fields.get_remove_ne _ (by decide)]
        exact Fields.get_remove_self _ _
      · rw [Fields.get_remove_ne _ (by decide)]
        exact Fields.get_remove_self _ _
      · exact Fields.get_remove_self _ _
    have hcontent : k ≠ "content" := by
      rintro rfl
      exact absurd hk (by decide)
    rw [stripMessage]
    split
    · exact (Fields.get_insert_ne _ hcontent _).trans hstripped
    · exact hstripped
  | _ => rfl

/-- A part has no field but its own and, before it is stripped, the marker. -/
theorem get_stripPart (hk : k ∈ refusedFields) (part : ContentPart) :
    (stripPart part.toJson).get k = none := by
  have hget : ∀ fs : Fields, (k = "cache_control" ∨ Fields.get fs k = none) →
      Fields.get (Fields.remove fs "cache_control") k = none := by
    rintro fs (rfl | h)
    · exact Fields.get_remove_self _ _
    · by_cases heq : k = "cache_control"
      · rw [heq]
        exact Fields.get_remove_self _ _
      · rwa [Fields.get_remove_ne _ heq]
  simp only [refusedFields, List.mem_cons, List.not_mem_nil, or_false] at hk
  cases part with
  | text body cacheControl =>
    refine hget _ ?_
    rcases hk with rfl | rfl | rfl
    · exact .inl rfl
    · exact .inr (by simp)
    · exact .inr (by simp)
  | imageUrl image =>
    refine hget _ ?_
    rcases hk with rfl | rfl | rfl
    · exact .inl rfl
    · exact .inr (by simp)
    · exact .inr (by simp)

/-- The parts of a stripped message are its parts, stripped. -/
theorem parts_stripMessage {msg : Message} {parts : List Value}
    (h : (stripMessage msg.toJson).get "content" = some (.arr parts)) :
    ∃ ps : List ContentPart, parts = ps.map fun p => stripPart p.toJson := by
  have hcontent : ∀ fs : Fields, Fields.get (((Fields.remove fs "cache_control").remove
      "reasoning_content").remove "refusal") "content" = Fields.get fs "content" := by
    intro fs
    rw [Fields.get_remove_ne _ (by decide), Fields.get_remove_ne _ (by decide),
      Fields.get_remove_ne _ (by decide)]
  have hwritten : Fields.get (omitNone [("role", some (.str msg.role)),
      ("content", some msg.content.toJson), ("name", msg.name.map .str),
      ("cache_control", msg.cacheControl),
      ("tool_calls", msg.toolCalls.map fun cs => .arr (cs.map ToolCall.toJson)),
      ("tool_call_id", msg.toolCallId.map .str), ("refusal", msg.refusal.map .str),
      ("reasoning_content", msg.reasoningContent.map .str)]) "content" =
        some msg.content.toJson := by
    simp
  rw [Message.toJson, stripMessage, hcontent, hwritten] at h
  cases hc : msg.content with
  | text s =>
    rw [hc, MessageContent.toJson] at h hwritten
    have hstr : some (.str s) = some (Value.arr parts) := by
      rw [← h]
      exact ((hcontent _).trans hwritten).symm
    cases hstr
  | parts ps =>
    rw [hc, MessageContent.toJson] at h
    have harr := (Fields.get_insert_self _ _ _).symm.trans h
    refine ⟨ps, ?_⟩
    rw [← Value.arr.inj (Option.some.inj harr), List.map_map]
    rfl

/-- **Nothing goes out that upstreams refuse.** -/
theorem stripped_outbound {request : ChatCompletionRequest} {v : Value} {model : String}
    (hv : v.get "messages" = some (.arr (request.messages.map Message.toJson))) :
    Stripped (a.outbound v model) := by
  have hstrip : (stripCacheControlForOpenai v).get "messages" =
      some (.arr (request.messages.map fun msg => stripMessage msg.toJson)) := by
    cases v with
    | obj fs =>
      have hget : Fields.get fs "messages" = some (.arr (request.messages.map Message.toJson)) := hv
      rw [stripCacheControlForOpenai, hget]
      refine (Fields.get_insert_self _ _ _).trans ?_
      rw [List.map_map]
      rfl
    | _ => cases hv
  have hout : (a.outbound v model).get "messages" =
      some (.arr (request.messages.map fun msg => stripMessage msg.toJson)) := by
    rw [WireAdapter.outbound]
    split
    · unfold remapMaxTokensForReasoningModels
      split
      · split
        · rename_i obj hobj
          rw [hobj] at hstrip
          split
          · refine (Fields.get_entry_of_ne (by decide) _ _).trans ?_
            rw [Fields.get_remove_ne _ (by decide)]
            exact hstrip
          · rwa [hobj]
        · exact hstrip
      · exact hstrip
    · exact hstrip
  refine ⟨_, hout, fun msg hmsg k hk => ?_⟩
  obtain ⟨m, -, rfl⟩ := List.mem_map.1 hmsg
  refine ⟨get_stripMessage hk _, fun parts hparts part hpart => ?_⟩
  obtain ⟨ps, rfl⟩ := parts_stripMessage hparts
  obtain ⟨p, -, rfl⟩ := List.mem_map.1 hpart
  exact get_stripPart hk p

theorem get_messages_toJson (request : ChatCompletionRequest) :
    Fields.get request.toJson "messages" =
      some (.arr (request.messages.map Message.toJson)) := by
  simp [ChatCompletionRequest.toJson]

theorem stripped_body (request : ChatCompletionRequest) : Stripped (a.body request) :=
  stripped_outbound (get_messages_toJson request)

theorem stripped_streamBody (request : ChatCompletionRequest) : Stripped (a.streamBody request) := by
  refine @stripped_outbound a request _ _ ?_
  have hmessages : (Value.obj request.toJson).get "messages" =
      some (.arr (request.messages.map Message.toJson)) := get_messages_toJson request
  split
  · rw [Value.get_setKey_of_ne (by decide), Value.get_setKey_of_ne (by decide), hmessages]
  · rw [Value.get_setKey_of_ne (by decide), hmessages]

end Body

/-! ## The usage of an answer -/

section Usage

variable {block fs gs : Fields} {serde : WireSerde}

/-- The nested count of cached tokens. -/
def nestedCached (block : Fields) : Option ℕ :=
  (((Value.obj block).idx "prompt_tokens_details").idx "cached_tokens").asU64

/-- The block with its nested count lifted. -/
def liftedBlock (block : Fields) : Fields :=
  (nestedCached block).elim block fun cached => block.insert "cached_tokens" (.num (.int cached))

/-- **The lift is about the block alone.** -/
theorem lift_usage (h : fs.get "usage" = some (.obj block)) :
    ∃ fs' : Fields, liftOpenaiCachedTokens (.obj fs) = .obj fs' ∧
      fs'.get "usage" = some (.obj (liftedBlock block)) ∧ ∀ k ≠ "usage", fs'.get k = fs.get k := by
  have hidx : (Value.obj fs).idx "usage" = .obj block := by
    change (Fields.get fs "usage").getD .null = _
    rw [h]
    rfl
  unfold liftOpenaiCachedTokens liftedBlock nestedCached
  rw [hidx]
  cases (((Value.obj block).idx "prompt_tokens_details").idx "cached_tokens").asU64 with
  | none => exact ⟨fs, rfl, h, fun _ _ => rfl⟩
  | some cached =>
    exact ⟨_, rfl, Fields.get_insert_self _ _ _, fun k hk => Fields.get_insert_ne _ hk _⟩

/-- Some usage makes a response of the fields: all but the usage is one's. -/
def ResponseBeside (fs : Fields) : Prop :=
  ∃ gs : Fields, (∀ k ≠ "usage", gs.get k = fs.get k) ∧
    (ChatCompletionResponse.ofJson (.obj gs)).isSome

/-- The same of a chunk. -/
def ChunkBeside (fs : Fields) : Prop :=
  ∃ gs : Fields, (∀ k ≠ "usage", gs.get k = fs.get k) ∧
    (ChatCompletionChunk.ofJson (.obj gs)).isSome

/-- **The usage of a response is its block's.** -/
theorem usage_of_response (h : ResponseBeside fs) :
    (ChatCompletionResponse.ofJson (.obj fs)).map (·.usage) =
      (fs.get "usage").bind Usage.ofJson := by
  obtain ⟨gs, hsame, hsome⟩ := h
  obtain ⟨response, h⟩ := Option.isSome_iff_exists.1 hsome
  unfold ChatCompletionResponse.ofJson at h
  obtain ⟨_, hobject, h⟩ := Option.bind_eq_some_iff.1 h
  obtain rfl := Option.some.inj hobject
  obtain ⟨id, hid, h⟩ := Option.bind_eq_some_iff.1 h
  obtain ⟨object, hobject, h⟩ := Option.bind_eq_some_iff.1 h
  obtain ⟨created, hcreated, h⟩ := Option.bind_eq_some_iff.1 h
  obtain ⟨model, hmodel, h⟩ := Option.bind_eq_some_iff.1 h
  obtain ⟨choices, hchoices, h⟩ := Option.bind_eq_some_iff.1 h
  obtain ⟨_, -, h⟩ := Option.bind_eq_some_iff.1 h
  obtain ⟨fingerprint, hfingerprint, h⟩ := Option.bind_eq_some_iff.1 h
  obtain ⟨tier, htier, -⟩ := Option.bind_eq_some_iff.1 h
  rw [hsame _ (by decide)] at hid hobject hcreated hmodel hchoices hfingerprint htier
  simp only [ChatCompletionResponse.ofJson, Value.asObject, Option.bind_eq_bind, Option.bind_some,
    hid, hobject, hcreated, hmodel, hchoices, hfingerprint, htier]
  cases (fs.get "usage").bind Usage.ofJson <;> rfl

theorem usage_of_chunk (h : ChunkBeside fs) (husage : fs.get "usage" = some (.obj block)) :
    (ChatCompletionChunk.ofJson (.obj fs)).bind (·.usage) = Usage.ofJson (.obj block) := by
  obtain ⟨gs, hsame, hsome⟩ := h
  obtain ⟨chunk, h⟩ := Option.isSome_iff_exists.1 hsome
  unfold ChatCompletionChunk.ofJson at h
  obtain ⟨_, hobject, h⟩ := Option.bind_eq_some_iff.1 h
  obtain rfl := Option.some.inj hobject
  obtain ⟨id, hid, h⟩ := Option.bind_eq_some_iff.1 h
  obtain ⟨object, hobject, h⟩ := Option.bind_eq_some_iff.1 h
  obtain ⟨created, hcreated, h⟩ := Option.bind_eq_some_iff.1 h
  obtain ⟨model, hmodel, h⟩ := Option.bind_eq_some_iff.1 h
  obtain ⟨choices, hchoices, h⟩ := Option.bind_eq_some_iff.1 h
  obtain ⟨_, -, h⟩ := Option.bind_eq_some_iff.1 h
  obtain ⟨fingerprint, hfingerprint, h⟩ := Option.bind_eq_some_iff.1 h
  obtain ⟨tier, htier, -⟩ := Option.bind_eq_some_iff.1 h
  rw [hsame _ (by decide)] at hid hobject hcreated hmodel hchoices hfingerprint htier
  have hread : readOption Usage.ofJson (fs.get "usage") = (Usage.ofJson (.obj block)).map some := by
    rw [husage]
    rfl
  simp only [ChatCompletionChunk.ofJson, Value.asObject, Option.bind_eq_bind, Option.bind_some,
    hid, hobject, hcreated, hmodel, hchoices, hfingerprint, htier, hread]
  cases Usage.ofJson (.obj block) <;> rfl

/-- Where it is lifted first, it is the lifted block's. -/
theorem usage_of_lifted_response (h : ResponseBeside fs) (husage : fs.get "usage" = some (.obj block)) :
    (ChatCompletionResponse.ofJson (liftOpenaiCachedTokens (.obj fs))).map (·.usage) =
      Usage.ofJson (.obj (liftedBlock block)) := by
  obtain ⟨fs', hlift, husage', hsame⟩ := lift_usage husage
  obtain ⟨gs, hgs, hsome⟩ := h
  have hbeside : ResponseBeside fs' :=
    ⟨gs, fun k hk => (hgs k hk).trans (hsame k hk).symm, hsome⟩
  rw [hlift, usage_of_response hbeside, husage']
  rfl

theorem usage_of_lifted_chunk (h : ChunkBeside fs) (husage : fs.get "usage" = some (.obj block)) :
    (ChatCompletionChunk.ofJson (liftOpenaiCachedTokens (.obj fs))).bind (·.usage) =
      Usage.ofJson (.obj (liftedBlock block)) := by
  obtain ⟨fs', hlift, husage', hsame⟩ := lift_usage husage
  obtain ⟨gs, hgs, hsome⟩ := h
  have hbeside : ChunkBeside fs' :=
    ⟨gs, fun k hk => (hgs k hk).trans (hsame k hk).symm, hsome⟩
  rw [hlift, usage_of_chunk hbeside husage']

end Usage

/-! ## Both calls -/

section Calls

variable {a : WireAdapter} {serde : WireSerde} {send : Send} {request : ChatCompletionRequest}
  {apiKey payload : String} {block fs gs : Fields} {resp : HttpResponse} {reads : List Read}

/-- The usage that a buffered call gets. -/
def bufferedUsage (a : WireAdapter) (serde : WireSerde) (send : Send)
    (request : ChatCompletionRequest) (apiKey : String) : Option Usage :=
  (a.chatCompletion serde send request apiKey).toOption.map (·.usage)

/-- The usage that the last item of a stream brings. -/
def lastUsage (items : List StreamItem) : Option Usage :=
  items.getLast?.bind fun item => item.toOption.bind (·.usage)

/-- The usage that a streaming call gets. -/
def streamedUsage (a : WireAdapter) (serde : WireSerde) (send : Send)
    (request : ChatCompletionRequest) (apiKey : String) : Option Usage :=
  (a.chatCompletionStream serde send request apiKey).toOption.bind lastUsage

/-- The payloads are chunks, the last of them with these fields; then the sentinel, or the end. -/
def FinalChunk (serde : WireSerde) (reads : List Read) (fs : Fields) : Prop :=
  ∃ before payload after, receivedPayloads serde.toSerde reads = before ++ payload :: after ∧
    (∀ p ∈ before, ∃ chunk, parseOpenaiSsePayload serde.toSerde p = .ok (some chunk)) ∧
    payload ≠ "[DONE]" ∧ serde.fromStr payload = .ok (.obj fs) ∧
    (after.head? = some "[DONE]" ∨ (after = [] ∧ transportFailure reads = none))

theorem feed_chunks {before : List String}
    (h : ∀ p ∈ before, ∃ chunk, parseOpenaiSsePayload serde.toSerde p = .ok (some chunk)) :
    ((openaiLoop serde.toSerde).feed () before).2 = some () := by
  induction before with
  | nil => rfl
  | cons p before ih =>
    obtain ⟨chunk, hchunk⟩ := h p List.mem_cons_self
    have htranslate : (openaiLoop serde.toSerde).translate () p = .ok ([chunk], false, ()) := by
      simp only [openaiLoop, hchunk]
    rw [SseLoop.feed, htranslate]
    exact ih fun p hp => h p (List.mem_cons_of_mem _ hp)

theorem lastUsage_concat (items : List StreamItem) (item : StreamItem) :
    lastUsage (items ++ [item]) = item.toOption.bind (·.usage) := by
  rw [lastUsage, List.getLast?_concat]
  rfl

/-- The last of the chunks is the last item, whether it reads or not. -/
theorem chunks_of_finalChunk (h : FinalChunk serde reads fs) : ∃ items item,
    openaiSseToChunks serde.toSerde reads = items ++ [item] ∧
      item.toOption = ChatCompletionChunk.ofJson (liftOpenaiCachedTokens (.obj fs)) := by
  obtain ⟨before, payload, after, hpayloads, hbefore, hpayload, hjson, hafter⟩ := h
  have hfeed : (openaiLoop serde.toSerde).feed () (before ++ payload :: after) =
      (((openaiLoop serde.toSerde).feed () before).1 ++
        ((openaiLoop serde.toSerde).feed () (payload :: after)).1,
        ((openaiLoop serde.toSerde).feed () (payload :: after)).2) := by
    rw [SseLoop.feed_append, feed_chunks hbefore]
    rfl
  have hstart : (openaiLoop serde.toSerde).start = () := rfl
  rw [openaiSseToChunks, SseLoop.chunks_eq, hpayloads, hstart, hfeed, SseLoop.feed]
  cases hread : ChatCompletionChunk.ofJson (liftOpenaiCachedTokens (.obj fs)) with
  | none =>
    -- no chunk once it is lifted: the stream ends in the error
    have htranslate : (openaiLoop serde.toSerde).translate () payload =
        .error (openaiParseError (serde.notChunk (liftOpenaiCachedTokens (.obj fs))) payload) := by
      simp only [openaiLoop, parseOpenaiSsePayload, if_neg hpayload, hjson, serde.chunk_eq, hread,
        Option.elim_none]
    rw [htranslate]
    exact ⟨_, _, List.append_nil _, rfl⟩
  | some chunk =>
    have htranslate : (openaiLoop serde.toSerde).translate () payload = .ok ([chunk], false, ()) := by
      simp only [openaiLoop, parseOpenaiSsePayload, if_neg hpayload, hjson, serde.chunk_eq, hread,
        Option.elim_some]
    rw [htranslate]
    refine ⟨((openaiLoop serde.toSerde).feed () before).1, .ok chunk, ?_, rfl⟩
    rcases hafter with hafter | ⟨rfl, hfailure⟩
    · obtain ⟨rest, rfl⟩ := List.head?_eq_some_iff.1 hafter
      have hdone : (openaiLoop serde.toSerde).feed () ("[DONE]" :: rest) = ([], none) := rfl
      simp only [hdone, Bool.false_eq_true, if_false, List.map_cons, List.map_nil,
        List.append_nil, Option.isSome_none]
    · have hnone : (openaiLoop serde.toSerde).feed () [] = ([], some ()) := rfl
      simp only [hnone, hfailure, Bool.false_eq_true, if_false, List.map_cons, List.map_nil,
        List.append_nil, Option.toList_none, ite_self]

/-- **What a stream's last chunk brings is the lifted block's usage.** -/
theorem lastUsage_of_finalChunk (h : FinalChunk serde reads fs) (hbeside : ChunkBeside fs)
    (husage : fs.get "usage" = some (.obj block)) :
    lastUsage (openaiSseToChunks serde.toSerde reads) = Usage.ofJson (.obj (liftedBlock block)) := by
  obtain ⟨items, item, hchunks, hitem⟩ := chunks_of_finalChunk h
  rw [hchunks, lastUsage_concat, hitem]
  exact usage_of_lifted_chunk hbeside husage

/-- **What a response brings** is its block's usage, lifted where the adapter lifts. -/
theorem usage_of_readResponse {text : String} (hjson : serde.fromStr text = .ok (.obj fs))
    (hbeside : ResponseBeside fs) (husage : fs.get "usage" = some (.obj block)) :
    (a.readResponse serde text).toOption.map (·.usage) =
      Usage.ofJson (.obj (if a.lifts then liftedBlock block else block)) := by
  unfold WireAdapter.readResponse WireSerde.responseFromValue
  rw [hjson]
  cases a.lifts with
  | true =>
    have hlift := usage_of_lifted_response hbeside husage
    simp only [if_true]
    rw [← hlift]
    cases ChatCompletionResponse.ofJson (liftOpenaiCachedTokens (.obj fs)) <;> rfl
  | false =>
    have hread := usage_of_response hbeside
    rw [husage] at hread
    simp only [Bool.false_eq_true, if_false]
    refine Eq.trans ?_ hread
    cases ChatCompletionResponse.ofJson (.obj fs) <;> rfl

/-- Both calls of a request are answered, and the response and the last chunk have the one block. -/
structure Reports (a : WireAdapter) (serde : WireSerde) (send : Send)
    (request : ChatCompletionRequest) (apiKey : String) (block : Fields) : Prop where
  buffered : ∃ resp, ∃ fs : Fields, a.exchange send request apiKey (a.body request) = .ok resp ∧
    serde.fromStr resp.text = .ok (.obj fs) ∧ fs.get "usage" = some (.obj block) ∧ ResponseBeside fs
  streamed : ∃ resp, ∃ fs : Fields, a.exchange send request apiKey (a.streamBody request) = .ok resp ∧
    FinalChunk serde resp.reads fs ∧ fs.get "usage" = some (.obj block) ∧ ChunkBeside fs

theorem Reports.usages (h : Reports a serde send request apiKey block) :
    bufferedUsage a serde send request apiKey =
        Usage.ofJson (.obj (if a.lifts then liftedBlock block else block)) ∧
      streamedUsage a serde send request apiKey = Usage.ofJson (.obj (liftedBlock block)) := by
  obtain ⟨resp, fs, hexchange, hjson, husage, hbeside⟩ := h.buffered
  obtain ⟨resp', fs', hexchange', hfinal, husage', hbeside'⟩ := h.streamed
  constructor
  · rw [bufferedUsage, WireAdapter.chatCompletion, hexchange]
    exact usage_of_readResponse hjson hbeside husage
  · rw [streamedUsage, WireAdapter.chatCompletionStream, hexchange']
    exact lastUsage_of_finalChunk hfinal hbeside' husage'

end Calls

/-! ## When the modes agree -/

section Agree

variable {block : Fields}

/-- The counts of a block read, but for the cached one. -/
def OthersRead (block : Fields) : Prop :=
  ((block.get "prompt_tokens").bind Value.asU32).isSome ∧
    ((block.get "completion_tokens").bind Value.asU32).isSome ∧
    ((block.get "total_tokens").bind Value.asU32).isSome ∧
    (readOption Value.asU32 (block.get "cache_creation_tokens")).isSome

/-- A block with a nested count, whose other counts read, has a flat count that reads as the nested
one does. -/
def FlatSays (block : Fields) : Prop :=
  ∀ cached, nestedCached block = some cached → OthersRead block →
    readOption Value.asU32 (block.get "cached_tokens") =
      (Value.asU32 (.num (.int cached))).map some

/-- A block is read if its other counts are, and then with its flat count. -/
theorem usage_ofJson (block : Fields) :
    (¬OthersRead block → Usage.ofJson (.obj block) = none) ∧
      (OthersRead block → ∃ usage : Option UInt32 → Usage, Function.Injective usage ∧
        ∀ gs : Fields, (∀ k ≠ "cached_tokens", gs.get k = block.get k) →
          Usage.ofJson (.obj gs) =
            (readOption Value.asU32 (gs.get "cached_tokens")).map usage) := by
  constructor
  · intro hothers
    cases hread : Usage.ofJson (.obj block) with
    | none => rfl
    | some usage =>
      refine absurd ?_ hothers
      unfold Usage.ofJson at hread
      obtain ⟨_, hobject, hread⟩ := Option.bind_eq_some_iff.1 hread
      obtain rfl := Option.some.inj hobject
      obtain ⟨prompt, hprompt, hread⟩ := Option.bind_eq_some_iff.1 hread
      obtain ⟨completion, hcompletion, hread⟩ := Option.bind_eq_some_iff.1 hread
      obtain ⟨total, htotal, hread⟩ := Option.bind_eq_some_iff.1 hread
      obtain ⟨_, -, hread⟩ := Option.bind_eq_some_iff.1 hread
      obtain ⟨creation, hcreation, -⟩ := Option.bind_eq_some_iff.1 hread
      exact ⟨Option.isSome_of_eq_some hprompt, Option.isSome_of_eq_some hcompletion,
        Option.isSome_of_eq_some htotal, Option.isSome_of_eq_some hcreation⟩
  · rintro ⟨hprompt, hcompletion, htotal, hcreation⟩
    obtain ⟨prompt, hprompt⟩ := Option.isSome_iff_exists.1 hprompt
    obtain ⟨completion, hcompletion⟩ := Option.isSome_iff_exists.1 hcompletion
    obtain ⟨total, htotal⟩ := Option.isSome_iff_exists.1 htotal
    obtain ⟨creation, hcreation⟩ := Option.isSome_iff_exists.1 hcreation
    refine ⟨fun cached => ⟨prompt, completion, total, cached, creation⟩,
      fun c c' h => congrArg Usage.cachedTokens h, fun gs hsame => ?_⟩
    rw [← hsame _ (by decide)] at hprompt hcompletion htotal hcreation
    simp only [Usage.ofJson, Value.asObject, Option.bind_eq_bind, Option.bind_some, hprompt,
      hcompletion, htotal, hcreation]
    cases readOption Value.asU32 (Fields.get gs "cached_tokens") <;> rfl

/-- **The lift changes no usage exactly if the flat count says what the nested one does.** -/
theorem usage_liftedBlock_iff :
    Usage.ofJson (.obj block) = Usage.ofJson (.obj (liftedBlock block)) ↔ FlatSays block := by
  cases hnested : nestedCached block with
  | none =>
    rw [liftedBlock, hnested]
    refine iff_of_true rfl fun cached hcached => ?_
    rw [hnested] at hcached
    cases hcached
  | some cached =>
    have hlifted : liftedBlock block = block.insert "cached_tokens" (.num (.int cached)) := by
      rw [liftedBlock, hnested]
      rfl
    have hsame : ∀ k ≠ "cached_tokens", (liftedBlock block).get k = block.get k := by
      intro k hk
      rw [hlifted]
      exact Fields.get_insert_ne _ hk _
    have hflat : (liftedBlock block).get "cached_tokens" = some (.num (.int cached)) := by
      rw [hlifted]
      exact Fields.get_insert_self _ _ _
    by_cases hothers : OthersRead block
    · obtain ⟨usage, hinj, hread⟩ := (usage_ofJson block).2 hothers
      have hnum : readOption Value.asU32 (some (.num (.int cached))) =
          (Value.asU32 (.num (.int cached))).map some := rfl
      rw [hread block fun _ _ => rfl, hread _ hsame, hflat, hnum]
      constructor
      · intro h cached' hcached' _
        rw [hnested] at hcached'
        obtain rfl := Option.some.inj hcached'
        exact Option.map_injective hinj h
      · intro h
        rw [h cached hnested hothers]
    · have hothers' : ¬OthersRead (liftedBlock block) := by
        unfold OthersRead at hothers ⊢
        rwa [hsame _ (by decide), hsame _ (by decide), hsame _ (by decide), hsame _ (by decide)]
      rw [(usage_ofJson block).1 hothers, (usage_ofJson _).1 hothers']
      exact iff_of_true rfl fun _ _ h => absurd h hothers

/-- The adapters that lift. -/
def liftingProviders : List String := ["openai", "azure_openai", "bedrock", "self_hosted"]

theorem lifts_iff {serde : WireSerde} {env : EnvVars} :
    ∀ a ∈ openaiWireProviders serde env, (a.lifts = true ↔ a.name ∈ liftingProviders) := by
  have lifting : ∀ a : WireAdapter, a.lifts = true → a.name ∈ liftingProviders →
      (a.lifts = true ↔ a.name ∈ liftingProviders) := fun _ hlifts hname => iff_of_true hlifts hname
  have plain : ∀ a : WireAdapter, a.lifts = false → a.name ∉ liftingProviders →
      (a.lifts = true ↔ a.name ∈ liftingProviders) := fun _ hlifts hname =>
    iff_of_false (by rw [hlifts]; exact Bool.false_ne_true) hname
  simp only [openaiWireProviders, List.forall_mem_cons, List.not_mem_nil, false_imp_iff,
    implies_true, and_true]
  refine ⟨lifting _ rfl ?_, lifting _ rfl ?_, plain _ rfl ?_, lifting _ rfl ?_, plain _ rfl ?_,
    plain _ rfl ?_, plain _ rfl ?_, plain _ rfl ?_, plain _ rfl ?_, plain _ rfl ?_,
    lifting _ rfl ?_⟩
  · exact (by decide : "openai" ∈ liftingProviders)
  · exact (by decide : "azure_openai" ∈ liftingProviders)
  · exact (by decide : "mistral" ∉ liftingProviders)
  · exact (by decide : "bedrock" ∈ liftingProviders)
  · exact (by decide : "groq" ∉ liftingProviders)
  · exact (by decide : "deepseek" ∉ liftingProviders)
  · exact (by decide : "together" ∉ liftingProviders)
  · exact (by decide : "fireworks" ∉ liftingProviders)
  · exact (by decide : "xai" ∉ liftingProviders)
  · exact (by decide : "openrouter" ∉ liftingProviders)
  · exact (by decide : "self_hosted" ∈ liftingProviders)

/-- **The modes of the eleven adapters.** Both send one body, the fields of a mode aside, and neither
sends a refused field. The usage is the same exactly if the adapter lifts the nested count of cached
tokens, or the flat count of the block says what the nested one does. -/
theorem modes_agree {serde : WireSerde} {env : EnvVars} {a : WireAdapter}
    (ha : a ∈ openaiWireProviders serde env) :
    (∀ request, (a.streamBody request).sharedPart = (a.body request).sharedPart ∧
      Stripped (a.body request) ∧ Stripped (a.streamBody request)) ∧
    ∀ send request apiKey block, Reports a serde send request apiKey block →
      (bufferedUsage a serde send request apiKey = streamedUsage a serde send request apiKey ↔
        a.name ∈ liftingProviders ∨ FlatSays block) := by
  refine ⟨fun request => ⟨sharedPart_streamBody request, stripped_body request,
    stripped_streamBody request⟩, fun send request apiKey block hreports => ?_⟩
  obtain ⟨hbuffered, hstreamed⟩ := hreports.usages
  rw [hbuffered, hstreamed, ← lifts_iff a ha]
  cases hlifts : a.lifts with
  | true => exact iff_of_true rfl (.inl rfl)
  | false =>
    rw [if_neg Bool.false_ne_true, usage_liftedBlock_iff]
    exact (or_iff_right Bool.false_ne_true).symm

end Agree

/-! ## A prompt read from the cache -/

/-- The payload of an event's line; a payload has no white space at its ends. -/
theorem payloadOf_event {fromUtf8Lossy : List UInt8 → String} {line : List UInt8} {payload : String}
    {c d : Char} {mid : List Char} (hpayload : payload.toList = c :: (mid ++ [d]))
    (hc : isTrimmed c = false) (hd : isTrimmed d = false)
    (hline : fromUtf8Lossy line = "data:" ++ (" " ++ (payload ++ "\n"))) :
    SseLineBuffer.payloadOf fromUtf8Lossy line = some payload := by
  have hfeed : ¬(d == '\n') = true := by
    rintro h
    rw [eq_of_beq h] at hd
    exact absurd hd (by decide)
  have hreturn : ¬(d == '\r') = true := by
    rintro h
    rw [eq_of_beq h] at hd
    exact absurd hd (by decide)
  have hsplit : (" " ++ payload).toList = (' ' :: c :: mid) ++ [d] := by
    rw [String.toList_append, hpayload]
    rfl
  have hlast : ("data:" ++ (" " ++ payload)).toList =
      ("data:".toList ++ (' ' :: c :: mid)) ++ [d] := by
    rw [String.toList_append, hsplit, List.append_assoc]
  have hwhole : ("data:" ++ (" " ++ (payload ++ "\n"))).toList =
      ("data:" ++ (" " ++ payload)).toList ++ ['\n'] := by
    simp only [String.toList_append, List.append_assoc]
    rfl
  have hfront : trimEnd '\r' (trimEnd '\n' (fromUtf8Lossy line)) = "data:" ++ (" " ++ payload) := by
    have hdrop : ("data:" ++ (" " ++ (payload ++ "\n"))).toList.rdropWhile (· == '\n') =
        ("data:" ++ (" " ++ payload)).toList := by
      rw [hwhole, List.rdropWhile_concat_pos (· == '\n') _ '\n' (beq_self_eq_true _), hlast,
        List.rdropWhile_concat_neg (· == '\n') _ d hfeed]
    rw [hline, trimEnd, trimEnd, String.toList_ofList, hdrop, hlast,
      List.rdropWhile_concat_neg (· == '\r') _ d hreturn, ← hlast, String.ofList_toList]
  have hspace : isTrimmed ' ' = true := by decide
  have htrim : trimText (" " ++ payload) = payload := by
    rw [trimText, hsplit, trimChars_eq, List.cons_append, List.dropWhile_cons_of_pos hspace,
      List.cons_append, List.dropWhile_cons_of_neg (by rw [hc]; exact Bool.false_ne_true),
      ← List.cons_append, List.rdropWhile_concat_neg _ _ _ (by rw [hd]; exact Bool.false_ne_true),
      List.cons_append, ← hpayload, String.ofList_toList]
  rw [SseLineBuffer.payloadOf, hfront, dropHead?_append, Option.map_some, htrim]

theorem receivedPayloads_one (serde : Serde) (bytes : List UInt8) :
    receivedPayloads serde [.ok bytes] =
      (SseLineBuffer.completeLines (bytes ++ [])).filterMap
        (SseLineBuffer.payloadOf serde.fromUtf8Lossy) :=
  SseLineBuffer.drain_fst _ _

namespace Cached

/-- Text of one byte a character, on one line. -/
def Plain (s : String) : Prop := s.toList.all (fun c => 0x20 ≤ c.toNat && c.toNat < 128) = true

instance (s : String) : Decidable (Plain s) := inferInstanceAs (Decidable (_ = true))

theorem Plain.append {s t : String} (hs : Plain s) (ht : Plain t) : Plain (s ++ t) := by
  unfold Plain at hs ht ⊢
  rw [String.toList_append, List.all_append, hs, ht]
  rfl

/-- The line of an event, but for its line feed. -/
def eventLine (payload : String) : List UInt8 :=
  ("data:" ++ (" " ++ payload)).toList.map fun c => c.toNat.toUInt8

def decode (bytes : List UInt8) : String := String.ofList (bytes.map fun b => Char.ofNat b.toNat)

theorem Plain.eventLine {payload : String} (h : Plain payload) :
    Plain ("data:" ++ (" " ++ payload)) := by
  have hdata : Plain "data:" := by rfl
  have hspace : Plain " " := by rfl
  exact hdata.append (hspace.append h)

theorem newline_notMem_eventLine {payload : String} (h : Plain payload) :
    SseLineBuffer.newline ∉ Cached.eventLine payload := by
  intro hmem
  obtain ⟨c, hc, hbyte⟩ := List.mem_map.1 hmem
  have hplain := List.all_eq_true.1 h.eventLine c hc
  have hrange : 0x20 ≤ c.toNat ∧ c.toNat < 128 := by simpa using hplain
  have hcode : c.toNat % 256 = 10 := congrArg UInt8.toNat hbyte
  omega

theorem decode_eventLine {payload : String} (h : Plain payload) :
    decode (Cached.eventLine payload ++ [SseLineBuffer.newline]) =
      "data:" ++ (" " ++ (payload ++ "\n")) := by
  have hchars : ((Cached.eventLine payload).map fun b => Char.ofNat b.toNat) =
      ("data:" ++ (" " ++ payload)).toList := by
    rw [Cached.eventLine, List.map_map]
    refine (List.map_congr_left fun c hc => ?_).trans (List.map_id _)
    have hplain := List.all_eq_true.1 h.eventLine c hc
    have hrange : 0x20 ≤ c.toNat ∧ c.toNat < 128 := by simpa using hplain
    have hcode : c.toNat.toUInt8.toNat = c.toNat := by
      change c.toNat % 256 = c.toNat
      omega
    change Char.ofNat c.toNat.toUInt8.toNat = c
    rw [hcode, Char.ofNat_toNat]
  rw [decode, List.map_append, hchars]
  refine String.toList_inj.1 ?_
  simp only [String.toList_ofList, String.toList_append, List.append_assoc]
  rfl

def num (n : ℕ) : Value := .num (.int n)

/-- Eighty of the prompt's tokens were cached. -/
def block : Fields :=
  [("prompt_tokens", num 100), ("completion_tokens", num 4), ("total_tokens", num 104),
    ("prompt_tokens_details", .obj [("cached_tokens", num 80)])]

/-- Fields of an object, and then the block and the object's end. -/
def withBlock (fields : String) : String :=
  "\x7b" ++ (fields ++ ("\"usage\":\x7b\"prompt_tokens\":100,\"completion_tokens\":4," ++
    ("\"total_tokens\":104,\"prompt_tokens_details\":\x7b\"cached_tokens\":80\x7d\x7d" ++ "\x7d")))

def response : Fields :=
  [("id", .str "r1"), ("object", .str "chat.completion"), ("created", num 1700000000),
    ("model", .str "mistral-small"),
    ("choices", .arr [.obj [("index", num 0),
      ("message", .obj [("role", .str "assistant"), ("content", .str "ok")]),
      ("finish_reason", .str "stop")]]), ("usage", .obj block)]

def responseText : String :=
  withBlock ("\"id\":\"r1\"," ++ "\"object\":\"chat.completion\",\"created\":1700000000," ++
    "\"model\":\"mistral-small\",\"choices\":[\x7b\"index\":0,\"message\":" ++
    "\x7b\"role\":\"assistant\",\"content\":\"ok\"\x7d,\"finish_reason\":\"stop\"\x7d],")

def chunk : Fields :=
  [("id", .str "c1"), ("object", .str "chat.completion.chunk"), ("created", num 1700000000),
    ("model", .str "mistral-small"), ("choices", .arr []), ("usage", .obj block)]

def chunkText : String :=
  withBlock ("\"id\":\"c1\"," ++ "\"object\":\"chat.completion.chunk\",\"created\":1700000000," ++
    "\"model\":\"mistral-small\",\"choices\":[],")

/-- They differ in their ids. -/
theorem chunkText_ne : chunkText ≠ responseText := by
  intro h
  have hchars := congrArg String.toList h
  simp only [chunkText, responseText, withBlock, String.toList_append, List.append_assoc] at hchars
  have hids := (List.append_inj (List.append_cancel_left hchars) (by decide)).1
  exact absurd hids (by decide)

theorem plain_chunkText : Plain chunkText := by
  have hopen : Plain "\x7b" := by rfl
  have hclose : Plain "\x7d" := by rfl
  have hprompt : Plain "\"usage\":\x7b\"prompt_tokens\":100,\"completion_tokens\":4," := by
    rfl
  have htotal : Plain ("\"total_tokens\":104,\"prompt_tokens_details\":" ++
      "\x7b\"cached_tokens\":80\x7d\x7d") := by
    rfl
  have hid : Plain "\"id\":\"c1\"," := by rfl
  have hobject : Plain "\"object\":\"chat.completion.chunk\",\"created\":1700000000," := by
    rfl
  have hmodel : Plain "\"model\":\"mistral-small\",\"choices\":[]," := by rfl
  exact hopen.append (((hid.append hobject).append hmodel).append
    (hprompt.append (htotal.append hclose)))

theorem toList_withBlock (fields : String) : ∃ mid,
    (withBlock fields).toList = '\x7b' :: (mid ++ ['\x7d']) := by
  have hopen : "\x7b".toList = ['\x7b'] := by decide
  have hclose : "\x7d".toList = ['\x7d'] := by decide
  unfold withBlock
  simp only [String.toList_append, hopen, hclose, ← List.append_assoc]
  exact ⟨_, rfl⟩

theorem toList_chunkText : ∃ mid, chunkText.toList = '\x7b' :: (mid ++ ['\x7d']) :=
  toList_withBlock _

theorem chunkText_ne_done : chunkText ≠ "[DONE]" := by
  intro h
  obtain ⟨mid, hmid⟩ := toList_chunkText
  have hchars : "[DONE]".toList = '[' :: ['D', 'O', 'N', 'E', ']'] := by decide
  rw [h, hchars] at hmid
  exact absurd (List.cons.inj hmid).1 (by decide)

def serde : WireSerde where
  fromStr s :=
    if s = responseText then .ok (.obj response)
    else if s = chunkText then .ok (.obj chunk)
    else .error "expected value at line 1 column 1"
  toString _ := none
  chunkFromValue v := (ChatCompletionChunk.ofJson v).elim (.error "missing field") .ok
  fromUtf8Lossy := decode
  notResponse _ := "missing field"
  notChunk _ := "missing field"
  chunk_eq _ := rfl

def events : List UInt8 :=
  Separated.join SseLineBuffer.newline [eventLine chunkText, eventLine "[DONE]"]

def send : Send := fun req =>
  match req.body.get "stream" with
  | some (.bool true) => .ok { status := 200, text := "", reads := [.ok events] }
  | _ => .ok { status := 200, text := responseText }

def request : ChatCompletionRequest where
  model := "mistral-small-latest"
  messages := [{ role := "user", content := .text "hi" }]

def mistral : WireAdapter := mistralProvider "https://api.mistral.ai"

theorem events_payloads :
    receivedPayloads serde.toSerde [.ok events] = [chunkText, "[DONE]"] := by
  have hsentinel : Plain "[DONE]" := by rfl
  have hbodies : ∀ body ∈ [eventLine chunkText, eventLine "[DONE]"],
      SseLineBuffer.newline ∉ body := by
    simp only [List.forall_mem_cons, List.not_mem_nil, false_imp_iff, implies_true, and_true]
    exact ⟨newline_notMem_eventLine plain_chunkText, newline_notMem_eventLine hsentinel⟩
  have hlines : SseLineBuffer.completeLines (events ++ []) =
      [eventLine chunkText, eventLine "[DONE]"].map (· ++ [SseLineBuffer.newline]) :=
    SseLineBuffer.completeLines_join hbodies List.not_mem_nil
  obtain ⟨mid, hmid⟩ := toList_chunkText
  have hchunk : SseLineBuffer.payloadOf decode (eventLine chunkText ++ [SseLineBuffer.newline]) =
      some chunkText :=
    payloadOf_event hmid (by decide) (by decide) (decode_eventLine plain_chunkText)
  have hdone : SseLineBuffer.payloadOf decode (eventLine "[DONE]" ++ [SseLineBuffer.newline]) =
      some "[DONE]" := by
    have hchars : "[DONE]".toList = '[' :: (['D', 'O', 'N', 'E'] ++ [']']) := by decide
    exact payloadOf_event hchars (by decide) (by decide) (decode_eventLine hsentinel)
  have hall : [eventLine chunkText, eventLine "[DONE]"].map (· ++ [SseLineBuffer.newline]) =
      [eventLine chunkText ++ [SseLineBuffer.newline],
        eventLine "[DONE]" ++ [SseLineBuffer.newline]] := rfl
  rw [receivedPayloads_one, hlines, hall]
  change List.filterMap (SseLineBuffer.payloadOf decode) _ = _
  rw [List.filterMap_cons_some hchunk, List.filterMap_cons_some hdone, List.filterMap_nil]

theorem finalChunk : FinalChunk serde [.ok events] chunk := by
  have hjson : serde.fromStr chunkText = .ok (.obj chunk) := by
    simp only [serde, if_neg chunkText_ne, if_true]
  have hbefore : ∀ p ∈ ([] : List String),
      ∃ chunk, parseOpenaiSsePayload serde.toSerde p = .ok (some chunk) := fun _ h => by cases h
  exact ⟨[], chunkText, ["[DONE]"], events_payloads, hbefore, chunkText_ne_done, hjson, .inl rfl⟩

theorem response_read : serde.fromStr responseText = .ok (.obj response) := by
  simp only [serde, if_true]

theorem reports : Reports mistral serde send request "k" block where
  buffered := ⟨{ status := 200, text := responseText }, response, rfl, response_read, rfl,
    ⟨response, fun _ _ => rfl, rfl⟩⟩
  streamed := ⟨{ status := 200, text := "", reads := [.ok events] }, chunk, rfl, finalChunk, rfl,
    ⟨chunk, fun _ _ => rfl, rfl⟩⟩

end Cached

/-- **The cached tokens of a buffered response are lost**, where a stream has them. -/
theorem cached_tokens_lost :
    bufferedUsage Cached.mistral Cached.serde Cached.send Cached.request "k" =
        some { promptTokens := 100, completionTokens := 4, totalTokens := 104 } ∧
      streamedUsage Cached.mistral Cached.serde Cached.send Cached.request "k" =
        some { promptTokens := 100, completionTokens := 4, totalTokens := 104,
               cachedTokens := some 80 } := by
  obtain ⟨hbuffered, hstreamed⟩ := Cached.reports.usages
  rw [hbuffered, hstreamed]
  exact ⟨rfl, rfl⟩

/-- Mistral does not lift, and the block has no flat count. -/
theorem modes_agree_mistral :
    Cached.mistral ∈ openaiWireProviders Cached.serde (fun _ => none) ∧
      (bufferedUsage Cached.mistral Cached.serde Cached.send Cached.request "k" =
          streamedUsage Cached.mistral Cached.serde Cached.send Cached.request "k" ↔
        Cached.mistral.name ∈ liftingProviders ∨ FlatSays Cached.block) :=
  have hmem : Cached.mistral ∈ openaiWireProviders Cached.serde (fun _ => none) :=
    .tail _ (.tail _ (.head _))
  ⟨hmem, (modes_agree hmem).2 Cached.send Cached.request "k" Cached.block Cached.reports⟩

end Routeplane
