import Routeplane.Adapters.Assembled
import Routeplane.Proof.SseLoop

/-!
# An Anthropic stream and the buffered message

A turn is a message with the pieces its texts and tool inputs are streamed in.

* `AnthropicTurn.Streams`: the payloads are an event stream of the turn.
* `passes_blocks`: what the blocks of a turn add up to.
* `anthropic_agrees_iff`: when the stream says what the buffered translation says.
-/

namespace Routeplane

/-- A content block, with its pieces. -/
inductive TurnBlock
  | text (pieces : List String)
  | toolUse (id name : String) (input : Value) (pieces : List String)

structure AnthropicTurn where
  id : String
  model : String
  blocks : List TurnBlock
  usage : AnthropicUsage
  stopReason : String

namespace TurnBlock

/-- The block of the buffered message. -/
def content : TurnBlock → AnthropicContent
  | text pieces => { contentType := "text", text := some (String.join pieces) }
  | toolUse id name input _ =>
    { contentType := "tool_use", id := some id, name := some name, input := some input }

/-- The text a block adds to the answer. -/
def added : TurnBlock → String
  | text pieces => String.join pieces
  | toolUse _ _ _ _ => ""

/-- The call a block adds up to. -/
def call? : TurnBlock → Option AssembledCall
  | text _ => none
  | toolUse id name _ pieces => some ⟨some id, some "function", some name, String.join pieces⟩

end TurnBlock

namespace AnthropicTurn

/-- The buffered message. -/
def response (t : AnthropicTurn) : AnthropicResponse where
  id := t.id
  model := t.model
  content := t.blocks.map TurnBlock.content
  usage := t.usage
  stopReason := t.stopReason

def calls (t : AnthropicTurn) : List AssembledCall := t.blocks.filterMap TurnBlock.call?

end AnthropicTurn

/-! ## The event stream of a turn -/

structure IsMessageStart (t : AnthropicTurn) (v : Value) : Prop where
  type : HasType "message_start" v
  id : (v.idx "message").idx "id" = .str t.id
  model : (v.idx "message").idx "model" = .str t.model
  input : Count (some t.usage.inputTokens) (((v.idx "message").idx "usage").idx "input_tokens")
  cacheRead : Count t.usage.cacheReadInputTokens
    (((v.idx "message").idx "usage").idx "cache_read_input_tokens")
  cacheCreation : Count t.usage.cacheCreationInputTokens
    (((v.idx "message").idx "usage").idx "cache_creation_input_tokens")

structure IsTextStart (v : Value) : Prop where
  type : HasType "content_block_start" v
  block : (v.idx "content_block").idx "type" = .str "text"

structure IsToolStart (id name : String) (v : Value) : Prop where
  type : HasType "content_block_start" v
  block : (v.idx "content_block").idx "type" = .str "tool_use"
  id : (v.idx "content_block").idx "id" = .str id
  name : (v.idx "content_block").idx "name" = .str name

structure IsTextDelta (piece : String) (v : Value) : Prop where
  type : HasType "content_block_delta" v
  delta : (v.idx "delta").idx "type" = .str "text_delta"
  text : (v.idx "delta").idx "text" = .str piece

structure IsInputDelta (piece : String) (v : Value) : Prop where
  type : HasType "content_block_delta" v
  delta : (v.idx "delta").idx "type" = .str "input_json_delta"
  partialJson : (v.idx "delta").idx "partial_json" = .str piece

structure IsMessageDelta (t : AnthropicTurn) (v : Value) : Prop where
  type : HasType "message_delta" v
  stop : (v.idx "delta").idx "stop_reason" = .str t.stopReason
  output : Count (some t.usage.outputTokens) ((v.idx "usage").idx "output_tokens")

/-- The payloads of one block. An input of no pieces is the empty object of the block's start. -/
def TurnBlock.Streams (serde : Serde) : TurnBlock → List String → Prop
  | text pieces, payloads => ∃ start deltas stop, payloads = start :: (deltas ++ [stop]) ∧
      serde.Says start IsTextStart ∧
      List.Forall₂ (fun piece p => serde.Says p (IsTextDelta piece)) pieces deltas ∧
      serde.Says stop (HasType "content_block_stop")
  | toolUse id name input pieces, payloads => ∃ start deltas stop,
      payloads = start :: (deltas ++ [stop]) ∧ serde.Says start (IsToolStart id name) ∧
      List.Forall₂ (fun piece p => serde.Says p (IsInputDelta piece)) pieces deltas ∧
      serde.Says stop (HasType "content_block_stop") ∧
      (serde.fromStr (String.join pieces) = .ok input ∨
        String.join pieces = "" ∧ input = .obj [])

/-- A keep-alive. -/
def isPing (serde : Serde) (payload : String) : Bool :=
  match serde.fromStr payload with
  | .ok v => (v.get "type").bind Value.asStr = some "ping"
  | .error _ => false

/-- The payloads are an event stream of the turn: its start, its blocks, what changes at the end
and the stop, with pings anywhere. -/
def AnthropicTurn.Streams (serde : Serde) (t : AnthropicTurn) (payloads : List String) : Prop :=
  ∃ start blocks early last stop,
    payloads.filter (!isPing serde ·) = start :: (blocks.flatten ++ (early ++ [last, stop])) ∧
    serde.Says start (IsMessageStart t) ∧
    List.Forall₂ (TurnBlock.Streams serde) t.blocks blocks ∧
    (∀ p ∈ early, serde.Says p (HasType "message_delta")) ∧
    serde.Says last (IsMessageDelta t) ∧ serde.Says stop (HasType "message_stop")

/-! ## What each event does -/

section

variable {serde : Serde} {now : ℕ} {st : AnthropicStreamState} {payload : String} {v : Value}

theorem event_of_type {type : String} (h : HasType type v) :
    ((v.get "type").bind Value.asStr).getD "" = type := by
  rw [h]
  rfl

variable (now st) in
theorem translate_of_says {p : Value → Prop} (h : serde.Says payload p) :
    ∃ v, p v ∧ translateAnthropicEvent serde now st payload = st.event now v := by
  obtain ⟨v, hparse, hp⟩ := h
  refine ⟨v, hp, ?_⟩
  rw [translateAnthropicEvent, hparse]

variable (now st) in
theorem loop_translate {p : Value → Prop} {out : List ChatCompletionChunk} {done : Bool}
    {st' : AnthropicStreamState} (h : serde.Says payload p)
    (hevent : ∀ v, p v → st.event now v = .ok (out, done, st')) :
    (anthropicLoop serde now).translate st payload = .ok (out, done, st') := by
  obtain ⟨v, hp, htranslate⟩ := translate_of_says now st h
  exact htranslate.trans (hevent v hp)

theorem event_blockStop (h : HasType "content_block_stop" v) :
    st.event now v = .ok ([], false, { st with currentBlockToolIndex := none }) :=
  st.event_stop (event_of_type h)

theorem event_textStart (h : IsTextStart v) :
    st.event now v = .ok ([], false, { st with currentBlockToolIndex := none }) := by
  rw [AnthropicStreamState.event, event_of_type h.type]
  have hblock : ¬((v.idx "content_block").idx "type").asStr = some "tool_use" := by
    rw [h.block]
    exact by decide
  simp only [AnthropicStreamState.contentBlockStart, if_neg hblock]

theorem event_textDelta {piece : String} (h : IsTextDelta piece v) :
    st.event now v = .ok ([.contentDelta st.id st.model st.created piece], false, st) := by
  rw [AnthropicStreamState.event, event_of_type h.type]
  simp only [AnthropicStreamState.contentBlockDelta, h.delta, h.text, Value.asStr, if_true,
    Option.toList_some, List.map_cons, List.map_nil]

/-- The state in a `tool_use` block. -/
def AnthropicStreamState.opened (st : AnthropicStreamState) : AnthropicStreamState :=
  { st with
    nextToolIndex := st.nextToolIndex + 1
    currentBlockToolIndex := some st.nextToolIndex
    sawToolUse := true }

theorem event_toolStart {id name : String} (h : IsToolStart id name v) :
    st.event now v = .ok ([st.opened.toolCallChunk {
      index := st.nextToolIndex
      id := some id
      toolType := some "function"
      function := some ⟨some name, some ""⟩ }], false, st.opened) := by
  rw [AnthropicStreamState.event, event_of_type h.type]
  simp only [AnthropicStreamState.contentBlockStart, h.block, h.id, h.name, Value.asStr, if_true]
  rfl

theorem event_inputDelta {piece : String} {i : UInt32} (hopen : st.currentBlockToolIndex = some i)
    (h : IsInputDelta piece v) :
    st.event now v = .ok ([st.toolCallChunk {
      index := i, id := none, toolType := none, function := some ⟨none, some piece⟩ }],
      false, st) := by
  rw [AnthropicStreamState.event, event_of_type h.type]
  have htext : ¬(some "input_json_delta" = some "text_delta") := by decide
  simp only [AnthropicStreamState.contentBlockDelta, h.delta, h.partialJson, Value.asStr, hopen,
    if_neg htext, if_true]

theorem event_messageDelta (h : HasType "message_delta" v) :
    st.event now v = .ok (st.messageDelta v, false, st) := by
  simp only [AnthropicStreamState.event, event_of_type h]

/-! ## What the blocks add up to -/

theorem addChunks_toolCall (a : Assembled) (tc : ToolCallChunk) :
    a.addChunks [st.toolCallChunk tc] = { a with calls := addCall tc a.calls } :=
  a.addChunks_call ..

variable (now st) in
theorem passes_textDeltas {pieces deltas : List String}
    (h : List.Forall₂ (fun piece p => serde.Says p (IsTextDelta piece)) pieces deltas) :
    ∃ out, (anthropicLoop serde now).Passes st deltas out st ∧ ∀ a : Assembled,
      a.addChunks out = { a with content := a.content ++ String.join pieces } := by
  have hpasses := SseLoop.Passes.of_forall₂ (anthropicLoop serde now) st _ h
    fun piece p hp => loop_translate now st hp fun v hv => event_textDelta hv
  exact ⟨_, hpasses, Assembled.addChunks_texts _ (fun _ _ => rfl) pieces⟩

variable (now) in
/-- The fragments of an input go to the call of the open block. -/
theorem passes_inputDeltas {pieces deltas : List String} {i : UInt32}
    (hopen : st.currentBlockToolIndex = some i)
    (h : List.Forall₂ (fun piece p => serde.Says p (IsInputDelta piece)) pieces deltas) :
    ∃ out, (anthropicLoop serde now).Passes st deltas out st ∧
      ∀ (a : Assembled) calls c, a.calls = calls ++ [(i, c)] → (∀ e ∈ calls, e.1 ≠ i) →
        a.addChunks out = { a with
          calls := calls ++ [(i, { c with arguments := c.arguments ++ String.join pieces })] } := by
  have hpasses := SseLoop.Passes.of_forall₂ (anthropicLoop serde now) st _ h
    fun piece p hp => loop_translate now st hp fun v hv => event_inputDelta hopen hv
  refine ⟨_, hpasses, fun a calls c hcalls hfresh => ?_⟩
  exact Assembled.addChunks_fragments _ (fun a piece => addChunks_toolCall a _) hfresh pieces a c
    hcalls

/-- The state after a block. -/
def AnthropicStreamState.after (st : AnthropicStreamState) (block : TurnBlock) :
    AnthropicStreamState :=
  match block.call? with
  | some _ => { st.opened with currentBlockToolIndex := none }
  | none => { st with currentBlockToolIndex := none }

variable (now st) in
/-- **One block**, if there is an index left for its call. -/
theorem passes_block {block : TurnBlock} {payloads : List String}
    (h : block.Streams serde payloads) :
    ∃ out, (anthropicLoop serde now).Passes st payloads out (st.after block) ∧
      ∀ (a : Assembled) cs, a.calls = indexed cs → st.nextToolIndex = cs.length.toUInt32 →
        (cs ++ block.call?.toList).length ≤ 2 ^ 32 →
        a.addChunks out = { a with
          content := a.content ++ block.added, calls := indexed (cs ++ block.call?.toList) } := by
  cases block with
  | text pieces =>
    obtain ⟨start, deltas, stop, rfl, hstart, hdeltas, hstop⟩ := h
    have hopen := loop_translate now st hstart fun v hv => event_textStart hv
    obtain ⟨out, hpasses, hadd⟩ := passes_textDeltas now
      { st with currentBlockToolIndex := none } hdeltas
    have hclose := loop_translate now { st with currentBlockToolIndex := none }
      hstop fun v hv => event_blockStop hv
    refine ⟨_, .cons hopen (hpasses.append (.one hclose)), fun a cs hcalls _ _ => ?_⟩
    rw [List.nil_append, List.append_nil, hadd]
    simp only [TurnBlock.added, TurnBlock.call?, Option.toList_none, List.append_nil, ← hcalls]
  | toolUse id name input pieces =>
    obtain ⟨start, deltas, stop, rfl, hstart, hdeltas, hstop, -⟩ := h
    have hopen := loop_translate now st hstart fun v hv => event_toolStart hv
    obtain ⟨out, hpasses, hadd⟩ := passes_inputDeltas now
      (rfl : st.opened.currentBlockToolIndex = _) hdeltas
    have hclose := loop_translate now st.opened hstop fun v hv => event_blockStop hv
    refine ⟨_, .cons hopen (hpasses.append (.one hclose)), fun a cs hcalls hnext hlen => ?_⟩
    have hlt : cs.length < 2 ^ 32 := by
      simp only [TurnBlock.call?, Option.toList_some, List.length_append,
        List.length_singleton] at hlen
      omega
    have hfresh : ∀ e ∈ indexed cs, e.1 ≠ st.nextToolIndex := hnext ▸ indexed_fresh hlt
    have hfirst : a.addChunks [st.opened.toolCallChunk {
        index := st.nextToolIndex
        id := some id
        toolType := some "function"
        function := some ⟨some name, some ""⟩ }] =
        { a with calls := indexed cs ++
          [(st.nextToolIndex, ⟨some id, some "function", some name, ""⟩)] } := by
      rw [addChunks_toolCall, hcalls, addCall_opens _ _ _ _ hfresh]
    rw [List.append_nil, Assembled.addChunks_append, hfirst, hadd _ _ _ rfl hfresh]
    simp only [TurnBlock.added, TurnBlock.call?, Option.toList_some, indexed_snoc, ← hnext,
      String.append_empty, String.empty_append]

theorem after_nextToolIndex {block : TurnBlock} {cs : List AssembledCall}
    (h : st.nextToolIndex = cs.length.toUInt32) :
    (st.after block).nextToolIndex = (cs ++ block.call?.toList).length.toUInt32 := by
  cases hcall : block.call? with
  | none =>
    simp only [AnthropicStreamState.after, hcall, Option.toList_none, List.append_nil]
    exact h
  | some c =>
    simp only [AnthropicStreamState.after, hcall, AnthropicStreamState.opened, Option.toList_some,
      List.length_append, List.length_singleton, h]
    exact (UInt32.ofNat_add ..).symm

/-- What the state keeps for the end of the stream. -/
structure Keeps (st st' : AnthropicStreamState) (saw : Bool) : Prop where
  inputTokens : st'.inputTokens = st.inputTokens
  cacheRead : st'.cacheReadTokens = st.cacheReadTokens
  cacheCreation : st'.cacheCreationTokens = st.cacheCreationTokens
  sawToolUse : st'.sawToolUse = (st.sawToolUse || saw)

variable (st) in
theorem keeps_after (block : TurnBlock) : Keeps st (st.after block) block.call?.isSome := by
  unfold AnthropicStreamState.after
  cases block.call? with
  | none => exact ⟨rfl, rfl, rfl, (Bool.or_false _).symm⟩
  | some c => exact ⟨rfl, rfl, rfl, (Bool.or_true _).symm⟩

variable (now st) in
/-- **The blocks**, one after the other. -/
theorem passes_blocks {blocks : List TurnBlock} {payloads : List (List String)}
    (h : List.Forall₂ (TurnBlock.Streams serde) blocks payloads) :
    ∃ out st', (anthropicLoop serde now).Passes st payloads.flatten out st' ∧
      Keeps st st' (!(blocks.filterMap TurnBlock.call?).isEmpty) ∧
      ∀ (a : Assembled) cs, a.calls = indexed cs → st.nextToolIndex = cs.length.toUInt32 →
        (cs ++ blocks.filterMap TurnBlock.call?).length ≤ 2 ^ 32 →
        a.addChunks out = { a with
          content := a.content ++ String.join (blocks.map TurnBlock.added)
          calls := indexed (cs ++ blocks.filterMap TurnBlock.call?) } := by
  induction h generalizing st with
  | nil =>
    refine ⟨[], st, .nil st, ⟨rfl, rfl, rfl, (Bool.or_false _).symm⟩, fun a cs hcalls _ _ => ?_⟩
    rw [List.map_nil, String.join_nil, String.append_empty, List.filterMap_nil, List.append_nil,
      ← hcalls]
    rfl
  | @cons block ps blocks payloads hblock _ ih =>
    obtain ⟨first, hfirst, haddFirst⟩ := passes_block now st hblock
    obtain ⟨out, st', hpasses, hkeeps, hadd⟩ := ih (st.after block)
    have hcalls? : (block :: blocks).filterMap TurnBlock.call? =
        block.call?.toList ++ blocks.filterMap TurnBlock.call? := by
      cases hcall : block.call? with
      | none => rw [List.filterMap_cons_none hcall]; rfl
      | some c => rw [List.filterMap_cons_some hcall]; rfl
    have hhere := keeps_after st block
    refine ⟨_, st', hfirst.append hpasses, ⟨?_, ?_, ?_, ?_⟩, fun a cs hcalls hnext hlen => ?_⟩
    · rw [hkeeps.inputTokens, hhere.inputTokens]
    · rw [hkeeps.cacheRead, hhere.cacheRead]
    · rw [hkeeps.cacheCreation, hhere.cacheCreation]
    · rw [hkeeps.sawToolUse, hhere.sawToolUse, Bool.or_assoc, hcalls?]
      cases block.call? <;> rfl
    · rw [hcalls?, ← List.append_assoc] at hlen
      have hlen' : (cs ++ block.call?.toList).length ≤ 2 ^ 32 := by
        rw [List.length_append] at hlen
        omega
      rw [Assembled.addChunks_append, haddFirst a cs hcalls hnext hlen',
        hadd _ (cs ++ block.call?.toList) rfl (after_nextToolIndex hnext) hlen, hcalls?,
        List.append_assoc, List.map_cons, String.join_cons, String.append_assoc]

variable (now st) in
/-- A change of the message is no text and no call. -/
theorem passes_messageDeltas {payloads : List String}
    (h : ∀ p ∈ payloads, serde.Says p (HasType "message_delta")) :
    ∃ out, (anthropicLoop serde now).Passes st payloads out st ∧ ∀ a : Assembled,
      (a.addChunks out).content = a.content ∧ (a.addChunks out).calls = a.calls := by
  induction payloads with
  | nil => exact ⟨[], .nil st, fun _ => ⟨rfl, rfl⟩⟩
  | cons p rest ih =>
    obtain ⟨out, hpasses, hadd⟩ := ih fun q hq => h q (List.mem_cons_of_mem _ hq)
    obtain ⟨v, hparse, htype⟩ := h p List.mem_cons_self
    have hstep : (anthropicLoop serde now).translate st p = .ok (st.messageDelta v, false, st) :=
      loop_translate now _ (p := (· = v)) ⟨v, hparse, rfl⟩
        fun w hw => by rw [hw]; exact event_messageDelta htype
    refine ⟨_, .cons hstep hpasses, fun a => ?_⟩
    rw [Assembled.addChunks_append]
    obtain ⟨hcontent, hcalls⟩ := hadd (a.addChunks (st.messageDelta v))
    exact ⟨hcontent.trans (String.append_empty ..), hcalls⟩

/-- The finish reason of the stream. -/
def AnthropicTurn.streamFinish (t : AnthropicTurn) : String :=
  if t.stopReason = "tool_use" ∨ t.calls ≠ [] then "tool_calls" else mapStopReason t.stopReason

def AnthropicTurn.canonicalUsage (t : AnthropicTurn) : Usage :=
  anthropicUsage t.usage.inputTokens t.usage.outputTokens t.usage.cacheReadInputTokens
    t.usage.cacheCreationInputTokens

variable (now) in
/-- **A whole turn**: chunks only, and what they add up to. -/
theorem feed_turn {t : AnthropicTurn} {payloads : List String} (h : t.Streams serde payloads) :
    ∃ out, ((anthropicLoop serde now).feed {} payloads).1 = out.map .ok ∧
      (t.calls.length ≤ 2 ^ 32 → assemble out = {
        content := String.join (t.blocks.map TurnBlock.added)
        calls := indexed t.calls
        finishReason := some t.streamFinish
        usage := some t.canonicalUsage }) := by
  obtain ⟨start, blocks, early, last, stop, hpayloads, hstart, hblocks, hearly, hlast, hstop⟩ := h
  have hping : ∀ s, ∀ p ∈ payloads, (!isPing serde p) = false →
      (anthropicLoop serde now).translate s p = .ok ([], false, s) := by
    intro s p _ hp
    simp only [isPing] at hp
    simp only [anthropicLoop, translateAnthropicEvent]
    cases hparse : serde.fromStr p with
    | error e => rw [hparse] at hp; exact absurd hp nofun
    | ok v =>
      rw [hparse] at hp
      have htype : (v.get "type").bind Value.asStr = some "ping" := by simpa using hp
      simp [AnthropicStreamState.event, htype]
  rw [SseLoop.feed_filter hping, hpayloads]
  obtain ⟨v, hparse, hv⟩ := hstart
  have hstep : (anthropicLoop serde now).translate {} start =
      .ok ((({} : AnthropicStreamState).messageStart now v).1, false,
        (({} : AnthropicStreamState).messageStart now v).2) :=
    loop_translate now _ (p := (· = v)) ⟨v, hparse, rfl⟩ fun w hw => by
      rw [hw]
      simp only [AnthropicStreamState.event, event_of_type hv.type]
  obtain ⟨out, st, hpasses, hkeeps, hadd⟩ := passes_blocks now
    (({} : AnthropicStreamState).messageStart now v).2 hblocks
  obtain ⟨changed, hchanged, haddChanged⟩ := passes_messageDeltas now st hearly
  obtain ⟨w, hparseLast, hw⟩ := hlast
  have hstepLast : (anthropicLoop serde now).translate st last = .ok (st.messageDelta w, false, st) :=
    loop_translate now _ (p := (· = w)) ⟨w, hparseLast, rfl⟩
      fun x hx => by rw [hx]; exact event_messageDelta hw.type
  have hend : (anthropicLoop serde now).translate st stop = .ok ([], true, st) :=
    loop_translate now _ hstop fun x hx => by
      simp only [AnthropicStreamState.event, event_of_type hx]
  have hall := SseLoop.Passes.cons hstep (hpasses.append (hchanged.append (.one hstepLast)))
  have hfeed := hall.feed [stop]
  have hlist : start :: (blocks.flatten ++ (early ++ [last, stop])) =
      start :: (blocks.flatten ++ (early ++ [last])) ++ [stop] := by simp
  rw [hlist, hfeed, SseLoop.feed, hend]
  refine ⟨_, List.append_nil _, fun hlen => ?_⟩
  -- the role chunk adds nothing
  have hrole : Assembled.addChunks {} (({} : AnthropicStreamState).messageStart now v).1 = {} := rfl
  have hfinish : ((w.idx "delta").idx "stop_reason").asStr.map (fun s =>
      if s = "tool_use" ∨ st.sawToolUse then "tool_calls" else mapStopReason s) =
      some t.streamFinish := by
    have hsaw : st.sawToolUse = true ↔ t.calls ≠ [] := by
      rw [hkeeps.sawToolUse]
      simp [AnthropicStreamState.messageStart, AnthropicTurn.calls]
    rw [hw.stop]
    simp only [Value.asStr, Option.map_some, AnthropicTurn.streamFinish, hsaw]
  have husage : anthropicUsage st.inputTokens
      (((w.idx "usage").idx "output_tokens").asU64AsU32.getD 0) st.cacheReadTokens
      st.cacheCreationTokens = t.canonicalUsage := by
    rw [hkeeps.inputTokens, hkeeps.cacheRead, hkeeps.cacheCreation, count_asU64AsU32 hw.output]
    simp only [AnthropicStreamState.messageStart, count_asU64AsU32 hv.input,
      count_asU64AsU32 hv.cacheRead, count_asU64AsU32 hv.cacheCreation]
    rfl
  have hblocksAdd := hadd {} [] rfl rfl hlen
  rw [assemble, Assembled.addChunks_append, hrole, Assembled.addChunks_append, hblocksAdd,
    Assembled.addChunks_append]
  obtain ⟨hcontent, hcalls⟩ := haddChanged {
    content := "" ++ String.join (t.blocks.map TurnBlock.added)
    calls := indexed ([] ++ t.blocks.filterMap TurnBlock.call?) }
  change Assembled.addChunk _ (.ofDelta st.id st.model st.created {} _ _) = _
  rw [Assembled.addChunk_ofDelta, hfinish, husage]
  simp only [Option.getD_none, List.foldl_nil, Option.some_or, String.append_empty]
  rw [hcontent, hcalls, String.empty_append]
  rfl

end

/-! ## The buffered translation of the turn -/

/-- The same value, written one way or the other. -/
def SameJson (serde : Serde) (a b : String) : Prop :=
  ∃ v, serde.fromStr a = .ok v ∧ serde.fromStr b = .ok v

section

variable {serde : Serde} {t : AnthropicTurn} {blocks : List TurnBlock}

/-- What the buffered message calls. -/
def TurnBlock.toolCall? (serde : Serde) : TurnBlock → Option ToolCall
  | text _ => none
  | toolUse id name input _ =>
    some ⟨id, "function", ⟨name, (serde.toString input).getD "{}"⟩⟩

theorem response_texts (blocks : List TurnBlock) :
    String.join ((blocks.map TurnBlock.content).filterMap fun block =>
      if block.contentType = "text" then block.text else none) =
      String.join (blocks.map TurnBlock.added) := by
  induction blocks with
  | nil => rfl
  | cons block blocks ih =>
    cases block with
    | text pieces =>
      rw [List.map_cons, List.map_cons, String.join_cons, ← ih]
      simp [TurnBlock.content, TurnBlock.added]
    | toolUse id name input pieces =>
      rw [List.map_cons, List.map_cons, String.join_cons, ← ih]
      simp [TurnBlock.content, TurnBlock.added]

theorem response_toolCalls (t : AnthropicTurn) :
    t.response.toolCalls serde = t.blocks.filterMap (TurnBlock.toolCall? serde) := by
  unfold AnthropicResponse.toolCalls AnthropicTurn.response
  rw [List.filterMap_map]
  congr 1
  funext block
  cases block with
  | text pieces => simp [TurnBlock.content, TurnBlock.toolCall?]
  | toolUse id name input pieces => simp [TurnBlock.content, TurnBlock.toolCall?]

/-- Every input of the turn reads back from its own text. -/
def AnthropicTurn.InputsReadBack (serde : Serde) (t : AnthropicTurn) : Prop :=
  ∀ id name input pieces, .toolUse id name input pieces ∈ t.blocks →
    ∃ text, serde.toString input = some text ∧ serde.fromStr text = .ok input

/-- The calls are the same iff no input is streamed as nothing at all. -/
theorem sameCalls_iff (hempty : ∀ v, serde.fromStr "" ≠ .ok v)
    (hback : ∀ id name input pieces, .toolUse id name input pieces ∈ blocks →
      ∃ text, serde.toString input = some text ∧ serde.fromStr text = .ok input)
    (hwire : ∀ id name input pieces, .toolUse id name input pieces ∈ blocks →
      serde.fromStr (String.join pieces) = .ok input ∨ String.join pieces = "") :
    List.Forall₂ (SameCall (SameJson serde)) (blocks.filterMap TurnBlock.call?)
        (blocks.filterMap (TurnBlock.toolCall? serde)) ↔
      ∀ id name input pieces, .toolUse id name input pieces ∈ blocks → String.join pieces ≠ "" := by
  induction blocks with
  | nil => exact ⟨fun _ _ _ _ _ h => absurd h List.not_mem_nil, fun _ => .nil⟩
  | cons block blocks ih =>
    have hrest := ih (fun id name input pieces h => hback id name input pieces (.tail _ h))
      (fun id name input pieces h => hwire id name input pieces (.tail _ h))
    cases block with
    | text pieces =>
      have hskip : ∀ id name input ps, TurnBlock.toolUse id name input ps ∈ .text pieces :: blocks ↔
          .toolUse id name input ps ∈ blocks := by
        intro id name input ps
        simp
      simp only [List.filterMap_cons, TurnBlock.call?, TurnBlock.toolCall?, hskip]
      exact hrest
    | toolUse id name input pieces =>
      obtain ⟨text, htext, hparse⟩ := hback id name input pieces List.mem_cons_self
      simp only [List.filterMap_cons, TurnBlock.call?, TurnBlock.toolCall?, htext, Option.getD_some,
        List.forall₂_cons]
      constructor
      · rintro ⟨hsame, hcalls⟩ id' name' input' pieces' hmem
        rcases List.mem_cons.1 hmem with heq | hmem
        · obtain ⟨rfl, rfl, rfl, rfl⟩ := TurnBlock.toolUse.inj heq
          intro hnone
          obtain ⟨v, hv, -⟩ := hsame.arguments
          rw [hnone] at hv
          exact hempty v hv
        · exact hrest.1 hcalls id' name' input' pieces' hmem
      · intro hsome
        refine ⟨⟨rfl, rfl, rfl, input, ?_, hparse⟩, hrest.2 fun id' name' input' pieces' hmem =>
          hsome id' name' input' pieces' (.tail _ hmem)⟩
        rcases hwire id name input pieces List.mem_cons_self with hread | hnone
        · exact hread
        · exact absurd hnone (hsome id name input pieces List.mem_cons_self)

theorem wire_of_streams {payloads : List (List String)}
    (h : List.Forall₂ (TurnBlock.Streams serde) blocks payloads) (id name : String) (input : Value)
    (pieces : List String) (hmem : .toolUse id name input pieces ∈ blocks) :
    serde.fromStr (String.join pieces) = .ok input ∨ String.join pieces = "" := by
  induction h with
  | nil => exact absurd hmem List.not_mem_nil
  | cons hblock _ ih =>
    rcases List.mem_cons.1 hmem with rfl | hmem
    · obtain ⟨_, _, _, -, -, -, -, hinput⟩ := hblock
      exact hinput.imp_right (·.1)
    · exact ih hmem

theorem toolCalls_length (t : AnthropicTurn) :
    (t.response.toolCalls serde).length = t.calls.length := by
  rw [response_toolCalls, AnthropicTurn.calls]
  induction t.blocks with
  | nil => rfl
  | cons block blocks ih =>
    cases block with
    | text pieces =>
      simp only [List.filterMap_cons, TurnBlock.call?, TurnBlock.toolCall?]
      exact ih
    | toolUse id name input pieces =>
      simp only [List.filterMap_cons, TurnBlock.call?, TurnBlock.toolCall?, List.length_cons, ih]

theorem mapStopReason_eq_tool_calls {s : String} :
    mapStopReason s = "tool_calls" ↔ s = "tool_calls" := by
  unfold mapStopReason
  split
  · rename_i h
    constructor
    · exact fun heq => absurd heq (by decide)
    · rintro rfl
      exact absurd h (by decide)
  · split
    · rename_i h
      constructor
      · exact fun heq => absurd heq (by decide)
      · rintro rfl
        exact absurd h (by decide)
    · exact Iff.rfl

/-- The two finish reasons. -/
theorem finish_iff (t : AnthropicTurn) : t.streamFinish = t.response.finishReason ↔
    (t.calls ≠ [] → t.stopReason = "tool_use" ∨ t.stopReason = "tool_calls") := by
  unfold AnthropicTurn.streamFinish AnthropicResponse.finishReason
  change _ = (if t.stopReason = "tool_use" then _ else mapStopReason t.stopReason) ↔ _
  by_cases huse : t.stopReason = "tool_use"
  · simp [huse]
  · by_cases hcalls : t.calls = []
    · simp [huse, hcalls]
    · simp only [huse, false_or, ne_eq, hcalls, not_false_eq_true, if_true, if_false, forall_const]
      rw [eq_comm]
      exact mapStopReason_eq_tool_calls

end

/-- What agreement says of a turn's stream. -/
theorem sum_of_agrees {serde : Serde} {t : AnthropicTurn} {payloads : List String} {now created : ℕ}
    {same : String → String → Prop} (h : t.Streams serde payloads)
    (hagrees : StreamAgrees same ((anthropicLoop serde now).feed {} payloads).1
      (t.response.translate serde created)) :
    t.calls.length ≤ 2 ^ 32 ∧ t.streamFinish = t.response.finishReason ∧
      List.Forall₂ (SameCall same) t.calls (t.response.toolCalls serde) := by
  obtain ⟨out, hitems, hsum⟩ := feed_turn now h
  obtain ⟨chunks, c, hchunks, hc, hagrees⟩ := hagrees
  obtain rfl : out = chunks :=
    List.map_injective_iff.2 (fun _ _ => Except.ok.inj) (hitems.symm.trans hchunks)
  obtain rfl := (List.cons.inj hc).1
  have hcalls := hagrees.calls
  rw [getD_of_isEmpty] at hcalls
  have hlen : t.calls.length ≤ 2 ^ 32 := by
    have hsame := hcalls.length_eq
    rw [toolCalls_length, List.length_map] at hsame
    rw [← hsame]
    exact assemble_length_le out
  rw [hsum hlen] at hcalls hagrees
  rw [indexed_map_snd] at hcalls
  exact ⟨hlen, Option.some.inj hagrees.finishReason, hcalls⟩

/-- **The stream of an Anthropic turn says what its buffered message says** iff a turn that calls
tools stops for them, no input is streamed as nothing at all, and there are indices for the
calls. -/
theorem anthropic_agrees_iff {serde : Serde} {t : AnthropicTurn} {payloads : List String}
    (now created : ℕ) (h : t.Streams serde payloads) (hback : t.InputsReadBack serde)
    (hempty : ∀ v, serde.fromStr "" ≠ .ok v) :
    StreamAgrees (SameJson serde) ((anthropicLoop serde now).feed {} payloads).1
        (t.response.translate serde created) ↔
      (t.calls ≠ [] → t.stopReason = "tool_use" ∨ t.stopReason = "tool_calls") ∧
        (∀ id name input pieces, .toolUse id name input pieces ∈ t.blocks →
          String.join pieces ≠ "") ∧
        t.calls.length ≤ 2 ^ 32 := by
  obtain ⟨out, hitems, hsum⟩ := feed_turn now h
  have hcalls := sameCalls_iff hempty hback fun id name input pieces hmem => by
    obtain ⟨_, _, _, _, _, -, -, hblocks, -⟩ := h
    exact wire_of_streams hblocks id name input pieces hmem
  rw [← response_toolCalls] at hcalls
  constructor
  · intro hagrees
    obtain ⟨hlen, hfinish, hforall⟩ := sum_of_agrees h hagrees
    exact ⟨(finish_iff t).1 hfinish, hcalls.1 hforall, hlen⟩
  · rintro ⟨hstop, hinput, hlen⟩
    have htexts : String.join (t.blocks.map TurnBlock.added) =
        (MessageContent.text (String.join t.response.texts)).asText := by
      rw [MessageContent.asText, MessageContent.texts, String.join_cons, String.join_nil,
        String.append_empty]
      exact (response_texts t.blocks).symm
    refine ⟨out, _, hitems, rfl, ?_⟩
    rw [hsum hlen]
    refine ⟨htexts, ?_, ?_, congrArg some ((finish_iff t).2 hstop), rfl⟩
    · rw [indexed_map_fst, indexed_length]
    · rw [getD_of_isEmpty, indexed_map_snd]
      exact hcalls.2 hinput

/-! ## A turn cut short -/

/-- The texts below, and what they are. -/
def cutShortTexts : List (String × Value) := [
  ("\x7b\x7d", .obj []),
  ("\x7b\"type\":\"message_start\",\"message\":\x7b\"id\":\"msg_1\",\"model\":\"claude\"," ++
      "\"usage\":\x7b\"input_tokens\":10\x7d\x7d\x7d",
    .obj [("type", .str "message_start"), ("message", .obj [("id", .str "msg_1"),
      ("model", .str "claude"), ("usage", .obj [("input_tokens", .num (.int 10))])])]),
  ("\x7b\"type\":\"content_block_start\",\"content_block\":\x7b\"type\":\"tool_use\"," ++
      "\"id\":\"toolu_1\",\"name\":\"now\",\"input\":\x7b\x7d\x7d\x7d",
    .obj [("type", .str "content_block_start"), ("content_block", .obj [("type", .str "tool_use"),
      ("id", .str "toolu_1"), ("name", .str "now"), ("input", .obj [])])]),
  ("\x7b\"type\":\"content_block_delta\",\"delta\":\x7b\"type\":\"input_json_delta\"," ++
      "\"partial_json\":\"\x7b\x7d\"\x7d\x7d",
    .obj [("type", .str "content_block_delta"), ("delta", .obj [("type", .str "input_json_delta"),
      ("partial_json", .str "\x7b\x7d")])]),
  ("\x7b\"type\":\"content_block_stop\"\x7d", .obj [("type", .str "content_block_stop")]),
  ("\x7b\"type\":\"message_delta\",\"delta\":\x7b\"stop_reason\":\"max_tokens\"\x7d," ++
      "\"usage\":\x7b\"output_tokens\":5\x7d\x7d",
    .obj [("type", .str "message_delta"), ("delta", .obj [("stop_reason", .str "max_tokens")]),
      ("usage", .obj [("output_tokens", .num (.int 5))])]),
  ("\x7b\"type\":\"message_stop\"\x7d", .obj [("type", .str "message_stop")])]

def cutShortSerde : Serde := .ofTexts cutShortTexts

/-- Out of tokens right after a call. -/
def cutShortTurn : AnthropicTurn where
  id := "msg_1"
  model := "claude"
  blocks := [.toolUse "toolu_1" "now" (.obj []) ["\x7b\x7d"]]
  usage := ⟨10, 5, none, none⟩
  stopReason := "max_tokens"

def cutShortPayloads : List String := (cutShortTexts.map (·.1)).tail

theorem cutShort_streams : cutShortTurn.Streams cutShortSerde cutShortPayloads := by
  refine ⟨_, [[_, _, _]], [], _, _, rfl, ⟨_, rfl, rfl, rfl, rfl, rfl, rfl, rfl⟩, ?_, nofun,
    ⟨_, rfl, rfl, rfl, rfl⟩, ⟨_, rfl, rfl⟩⟩
  refine .cons ⟨_, [_], _, rfl, ⟨_, rfl, rfl, rfl, rfl, rfl⟩, .cons ⟨_, rfl, rfl, rfl, rfl⟩ .nil,
    ⟨_, rfl, rfl⟩, .inl rfl⟩ .nil

/-- The stream finishes with `tool_calls`, the buffered message with `length`. -/
theorem cut_short_disagrees : cutShortTurn.Streams cutShortSerde cutShortPayloads ∧
    ¬StreamAgrees (SameJson cutShortSerde)
      ((anthropicLoop cutShortSerde 0).feed {} cutShortPayloads).1
      (cutShortTurn.response.translate cutShortSerde 0) := by
  refine ⟨cutShort_streams, fun hagrees => ?_⟩
  have hfinish := (sum_of_agrees cutShort_streams hagrees).2.1
  exact absurd hfinish (by decide)

theorem cutShort_readsBack : cutShortTurn.InputsReadBack cutShortSerde := by
  intro id name input pieces hmem
  obtain ⟨rfl, rfl, rfl, rfl⟩ := TurnBlock.toolUse.inj (List.mem_singleton.1 hmem)
  exact ⟨_, rfl, rfl⟩

theorem anthropic_agrees_iff_cutShort :
    StreamAgrees (SameJson cutShortSerde)
        ((anthropicLoop cutShortSerde 0).feed {} cutShortPayloads).1
        (cutShortTurn.response.translate cutShortSerde 0) ↔
      (cutShortTurn.calls ≠ [] →
        cutShortTurn.stopReason = "tool_use" ∨ cutShortTurn.stopReason = "tool_calls") ∧
        (∀ id name input pieces, .toolUse id name input pieces ∈ cutShortTurn.blocks →
          String.join pieces ≠ "") ∧
        cutShortTurn.calls.length ≤ 2 ^ 32 :=
  anthropic_agrees_iff 0 0 cutShort_streams cutShort_readsBack fun _ h => nomatch h

end Routeplane
