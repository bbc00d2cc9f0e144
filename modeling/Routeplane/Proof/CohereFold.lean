import Routeplane.Adapters.Assembled
import Routeplane.Adapters.Cohere
import Routeplane.Proof.SseLoop

/-!
# A Cohere stream and the buffered chat

* `CohereChatResponse.Streams`: the payloads are an event stream of the response.
* `passes_blocks`: what its text blocks and calls add up to.
* `cohere_agrees_iff`: when the stream says what the buffered translation says.
-/

namespace Routeplane

/-! ## The event stream of a response -/

/-- What a stream is made of, in pieces: a block of text, or the arguments of a call. -/
inductive CohereBlock
  | text (pieces : List String)
  | call (c : ToolCall) (pieces : List String)

namespace CohereBlock

def text? : CohereBlock → Option String
  | text pieces => some (String.join pieces)
  | call _ _ => none

def call? : CohereBlock → Option ToolCall
  | text _ => none
  | call c _ => some c

/-- The text a block adds to the answer. -/
def added (block : CohereBlock) : String := block.text?.getD ""

end CohereBlock

/-- What a call adds up to: the stream takes every call to be of a function. -/
def cohereAssembled (c : ToolCall) : AssembledCall where
  id := c.id
  toolType := "function"
  name := c.function.name
  arguments := c.function.arguments

def CohereBlock.assembled (block : CohereBlock) : Option AssembledCall :=
  block.call?.map cohereAssembled

/-- The texts of the content. -/
def CohereChatResponse.texts (r : CohereChatResponse) : List String :=
  match r.content with
  | some (.str s) => [s]
  | some (.arr blocks) => blocks.filterMap cohereBlockText
  | _ => []

/-- An event that carries a piece of text, or none. -/
structure IsContent (type : String) (piece : Option String) (v : Value) : Prop where
  type : HasType type v
  text : CohereStreamState.contentDelta v = piece
  finish : CohereStreamState.finish v = none

/-- `delta.message.tool_calls` of a call's event, and its `index`. -/
structure IsCallEvent (type : String) (i : ℕ) (call v : Value) : Prop where
  type : HasType type v
  index : v.get "index" = some (.num (.int i))
  call : (CohereStreamState.message v).bind (·.get "tool_calls") = some call

def IsCallStart (i : ℕ) (c : ToolCall) (first : String) (v : Value) : Prop :=
  ∃ call function, IsCallEvent "tool-call-start" i call v ∧ call.get "id" = some (.str c.id) ∧
    call.get "function" = some function ∧ function.get "name" = some (.str c.function.name) ∧
    function.get "arguments" = some (.str first)

def IsCallDelta (i : ℕ) (piece : String) (v : Value) : Prop :=
  ∃ call function, IsCallEvent "tool-call-delta" i call v ∧
    call.get "function" = some function ∧ function.get "arguments" = some (.str piece)

/-- A field that says `x`; one that says nothing is absent or `null`. -/
def FieldSays {α : Type} (p : α → Value → Prop) (x : Option α) (field : Option Value) : Prop :=
  x.elim (field = none ∨ field = some .null) fun a => ∃ v, field = some v ∧ p a v

/-- The end: the finish reason and the usage stand under `delta`, if anywhere. -/
structure IsMessageEnd (r : CohereChatResponse) (delta v : Value) : Prop where
  type : HasType "message-end" v
  text : CohereStreamState.contentDelta v = none
  under : v.get "delta" = some delta
  reason : FieldSays (fun s w => w = .str s) r.finishReason (delta.get "finish_reason")
  usage : FieldSays (fun u w => CohereUsage.fromValue w = some u) r.usage (delta.get "usage")
  noReason : v.get "finish_reason" = none
  noResponse : v.get "response" = none
  noUsage : v.get "usage" = none

/-- The events of a stream that say nothing. -/
def silentTypes : List String := ["content-end", "tool-call-end", "tool-plan-delta"]

def isSilent (serde : Serde) (payload : String) : Bool :=
  match serde.fromStr payload with
  | .ok v => silentTypes.any (fun type => (v.get "type").bind Value.asStr = some type) &&
      (CohereStreamState.contentDelta v).isNone && (CohereStreamState.finish v).isNone
  | .error _ => false

/-- The payloads of a block, silent ones aside; `i` is the position of its call. -/
def CohereBlock.Streams (serde : Serde) (i : ℕ) : CohereBlock → List String → Prop
  | text pieces, payloads => ∃ start deltas first rest, payloads = start :: deltas ∧
      pieces = first.toList ++ rest ∧ serde.Says start (IsContent "content-start" first) ∧
      List.Forall₂ (fun piece p => serde.Says p (IsContent "content-delta" (some piece))) rest deltas
  | call c pieces, payloads => ∃ start deltas first rest, payloads = start :: deltas ∧
      pieces = first :: rest ∧ serde.Says start (IsCallStart i c first) ∧
      List.Forall₂ (fun piece p => serde.Says p (IsCallDelta i piece)) rest deltas ∧
      String.join pieces = c.function.arguments

/-- The payloads of the blocks, the calls counted from `i` on. -/
inductive BlocksStream (serde : Serde) : ℕ → List CohereBlock → List String → Prop
  | nil (i : ℕ) : BlocksStream serde i [] []
  | cons {i : ℕ} {block : CohereBlock} {blocks : List CohereBlock} {payloads rest : List String}
      (h : block.Streams serde i payloads)
      (hrest : BlocksStream serde (i + block.call?.toList.length) blocks rest) :
      BlocksStream serde i (block :: blocks) (payloads ++ rest)

/-- The payloads are an event stream of the response: its start, its texts and calls in any order,
and the end, with silent events anywhere. -/
def CohereChatResponse.Streams (serde : Serde) (r : CohereChatResponse) (payloads : List String) :
    Prop :=
  ∃ start blocks body stop, payloads.filter (!isSilent serde ·) = start :: (body ++ [stop]) ∧
    serde.Says start (HasType "message-start") ∧ BlocksStream serde 0 blocks body ∧
    blocks.filterMap CohereBlock.text? = r.texts ∧
    blocks.filterMap CohereBlock.call? = r.toolCalls.getD [] ∧
    serde.Says stop fun v => ∃ delta, IsMessageEnd r delta v

/-! ## What each event does -/

section

variable {serde : Serde} {start st : CohereStreamState} {v : Value}

variable (start st) in
theorem cohere_translate {payload : String} {p : Value → Prop} {out : Option ChatCompletionChunk}
    {st' : CohereStreamState} (h : serde.Says payload p)
    (hevent : ∀ v, p v → st.event v = (out, st')) :
    (cohereLoop serde start).translate st payload = .ok (out.toList, false, st') := by
  obtain ⟨v, hparse, hv⟩ := h
  simp only [cohereLoop, parseCohereStreamEvent, hparse, hevent v hv]

theorem event_of_untyped {type : String} (h : (v.get "type").bind Value.asStr = some type)
    (htype : type ≠ "message-start" ∧ type ≠ "tool-call-start" ∧ type ≠ "tool-call-delta") :
    st.event v = (st.untyped v, st) := by
  obtain ⟨hstart, hcall, hdelta⟩ := htype
  unfold CohereStreamState.event
  rw [h]
  split
  · rename_i heq
    exact absurd (Option.some.inj heq) hstart
  · rename_i heq
    exact absurd (Option.some.inj heq) hcall
  · rename_i heq
    exact absurd (Option.some.inj heq) hdelta
  · rfl

/-- The chunk of a piece of text. -/
def CohereStreamState.piece (st : CohereStreamState) (text : Option String) :
    Option ChatCompletionChunk :=
  (text.filter fun t => !t.isEmpty).map (.contentDelta st.id st.model st.created)

theorem event_content {type : String} {text : Option String} (h : IsContent type text v)
    (htype : type = "content-start" ∨ type = "content-delta") :
    st.event v = (st.piece text, st) := by
  have hother : type ≠ "message-start" ∧ type ≠ "tool-call-start" ∧ type ≠ "tool-call-delta" := by
    rcases htype with rfl | rfl <;> decide
  rw [event_of_untyped (congrArg (Option.bind · Value.asStr) h.type) hother,
    CohereStreamState.untyped, h.text, h.finish]
  cases text with
  | none => rfl
  | some t => cases ht : t.isEmpty <;> simp [CohereStreamState.piece, Option.filter, ht]

theorem addChunks_piece (a : Assembled) (text : Option String) :
    a.addChunks (st.piece text).toList = { a with content := a.content ++ text.getD "" } := by
  cases text with
  | none => rw [Option.getD_none, String.append_empty]; rfl
  | some t =>
    cases ht : t.isEmpty with
    | true =>
      rw [CohereStreamState.piece, Option.filter_some, ht, Option.getD_some,
        String.isEmpty_iff.1 ht, String.append_empty]
      rfl
    | false =>
      rw [CohereStreamState.piece, Option.filter_some, ht]
      rfl

/-- The index an event of the `i`-th call is read to have. -/
def cohereIndex (i : ℕ) : UInt32 := (Value.num (.int i)).asU64AsU32.getD 0

theorem cohereIndex_of_lt {i : ℕ} (hi : i < 2 ^ 32) : cohereIndex i = i.toUInt32 := by
  have hrange : (0 : ℤ) ≤ i ∧ (i : ℤ) < 2 ^ 64 := by omega
  rw [cohereIndex, Value.asU64AsU32, Value.asU64, if_pos hrange, Int.toNat_natCast]
  rfl

theorem addChunks_toolCallChunk (a : Assembled) (tc : ToolCallChunk) :
    a.addChunks [st.toolCallChunk tc] = { a with calls := addCall tc a.calls } :=
  a.addChunks_call ..

/-- The chunk that opens the `i`-th call, and one that adds to its arguments. -/
def CohereStreamState.opening (st : CohereStreamState) (i : ℕ) (c : ToolCall) (first : String) :
    ChatCompletionChunk :=
  st.toolCallChunk {
    index := cohereIndex i
    id := some c.id
    toolType := some "function"
    function := some ⟨some c.function.name, some first⟩ }

def CohereStreamState.fragment (st : CohereStreamState) (i : ℕ) (piece : String) :
    ChatCompletionChunk :=
  st.toolCallChunk {
    index := cohereIndex i, id := none, toolType := none, function := some ⟨none, some piece⟩ }

theorem addChunks_fragment (a : Assembled) (i : ℕ) (piece : String) :
    a.addChunks [st.fragment i piece] =
      { a with
        calls := addCall {
          index := cohereIndex i
          id := none
          toolType := none
          function := some ⟨none, some piece⟩ } a.calls } := addChunks_toolCallChunk a _

theorem IsCallEvent.index_eq {type : String} {i : ℕ} {call : Value} (h : IsCallEvent type i call v) :
    CohereStreamState.index v = cohereIndex i := by
  rw [CohereStreamState.index, h.index, Option.bind_some, cohereIndex]

/-- The state once a call has streamed. -/
def CohereStreamState.called (st : CohereStreamState) : CohereStreamState :=
  { st with sawToolCall := true }

theorem event_callStart {i : ℕ} {c : ToolCall} {first : String} (h : IsCallStart i c first v) :
    st.event v = (some (st.opening i c first), st.called) := by
  obtain ⟨call, function, hcall, hid, hfunction, hname, harguments⟩ := h
  unfold CohereStreamState.event
  rw [hcall.type]
  simp only [Option.bind_some, Value.asStr, CohereStreamState.toolCallStart, hcall.call, hid,
    hfunction, hname, harguments, Option.getD_some, hcall.index_eq, CohereStreamState.called,
    CohereStreamState.opening]

theorem event_callDelta {i : ℕ} {piece : String} (h : IsCallDelta i piece v) :
    st.event v = (some (st.fragment i piece), st) := by
  obtain ⟨call, function, hcall, hfunction, harguments⟩ := h
  unfold CohereStreamState.event
  rw [hcall.type]
  simp only [Option.bind_some, Value.asStr, CohereStreamState.toolCallDelta, hcall.call, hfunction,
    harguments, Option.map_some, hcall.index_eq, CohereStreamState.fragment]

/-! ## What the blocks add up to -/

variable (start st)

/-- The state after a block. -/
def CohereStreamState.after (st : CohereStreamState) (block : CohereBlock) : CohereStreamState :=
  if block.call?.isSome then st.called else st

/-- **One block**, if there is an index left for its call. -/
theorem passes_cohereBlock {i : ℕ} {block : CohereBlock} {payloads : List String}
    (h : block.Streams serde i payloads) :
    ∃ out, (cohereLoop serde start).Passes st payloads out (st.after block) ∧
      ∀ (a : Assembled) cs, a.calls = indexed cs → cs.length = i →
        (cs ++ block.assembled.toList).length ≤ 2 ^ 32 → a.addChunks out = { a with
          content := a.content ++ block.added
          calls := indexed (cs ++ block.assembled.toList) } := by
  cases block with
  | text pieces =>
    obtain ⟨opens, deltas, first, rest, rfl, rfl, hbegin, hdeltas⟩ := h
    have hopen := cohere_translate start st hbegin
      fun v hv => event_content hv (.inl rfl)
    have hrest := SseLoop.Passes.of_forall₂ (cohereLoop serde start) st
      (fun piece => (st.piece (some piece)).toList) hdeltas
      fun piece p hp => cohere_translate start st hp fun v hv => event_content hv (.inr rfl)
    refine ⟨_, .cons hopen hrest, fun a cs hcalls _ _ => ?_⟩
    have hadd := Assembled.addChunks_texts (fun piece => (st.piece (some piece)).toList)
      (fun a piece => addChunks_piece a (some piece)) rest
    have hjoin : first.getD "" ++ String.join rest = String.join (first.toList ++ rest) := by
      cases first with
      | none => rw [Option.getD_none, String.empty_append]; rfl
      | some t => rw [Option.toList_some, List.singleton_append, String.join_cons]; rfl
    rw [Assembled.addChunks_append, addChunks_piece, hadd, String.append_assoc, hjoin]
    simp only [CohereBlock.assembled, CohereBlock.call?, CohereBlock.added, CohereBlock.text?,
      Option.getD_some, Option.map_none, Option.toList_none, List.append_nil, ← hcalls]
  | call c pieces =>
    obtain ⟨opens, deltas, first, rest, rfl, rfl, hbegin, hdeltas, harguments⟩ := h
    have hopen := cohere_translate start st hbegin fun v hv => event_callStart hv
    have hrest := SseLoop.Passes.of_forall₂ (cohereLoop serde start) st.called
      (fun piece => [st.called.fragment i piece]) hdeltas
      fun piece p hp => cohere_translate start st.called hp fun v hv => event_callDelta hv
    refine ⟨_, .cons hopen hrest, fun a cs hcalls hi hlen => ?_⟩
    have hlt : cs.length < 2 ^ 32 := by
      simp only [CohereBlock.assembled, CohereBlock.call?, Option.map_some, Option.toList_some,
        List.length_append, List.length_singleton] at hlen
      omega
    have hidx : cohereIndex i = cs.length.toUInt32 := by rw [← hi, cohereIndex_of_lt hlt]
    have hfresh : ∀ e ∈ indexed cs, e.1 ≠ cohereIndex i := hidx ▸ indexed_fresh hlt
    have hfirst : a.addChunks (some (st.opening i c first)).toList = { a with
        calls := indexed cs ++ [(cohereIndex i,
          ⟨some c.id, some "function", some c.function.name, first⟩)] } := by
      rw [Option.toList_some, CohereStreamState.opening, addChunks_toolCallChunk, hcalls,
        addCall_opens _ _ _ _ hfresh]
    have hadd := Assembled.addChunks_fragments (fun piece => [st.called.fragment i piece])
      (fun a piece => addChunks_fragment a i piece) hfresh rest
    rw [Assembled.addChunks_append, hfirst, hadd _ _ rfl, ← String.join_cons, harguments]
    simp only [CohereBlock.assembled, CohereBlock.call?, CohereBlock.added, CohereBlock.text?,
      Option.getD_none, Option.map_some, Option.toList_some, indexed_snoc, ← hidx,
      String.append_empty, cohereAssembled]

/-- **The blocks**, one after the other. -/
theorem passes_cohereBlocks {i : ℕ} {blocks : List CohereBlock} {payloads : List String}
    (h : BlocksStream serde i blocks payloads) :
    ∃ out st', (cohereLoop serde start).Passes st payloads out st' ∧
      st'.sawToolCall = (st.sawToolCall || !(blocks.filterMap CohereBlock.call?).isEmpty) ∧
      ∀ (a : Assembled) cs, a.calls = indexed cs → cs.length = i →
        (cs ++ blocks.filterMap CohereBlock.assembled).length ≤ 2 ^ 32 → a.addChunks out = { a with
          content := a.content ++ String.join (blocks.filterMap CohereBlock.text?)
          calls := indexed (cs ++ blocks.filterMap CohereBlock.assembled) } := by
  induction h generalizing st with
  | nil =>
    refine ⟨[], st, .nil st, (Bool.or_false _).symm, fun a cs hcalls _ _ => ?_⟩
    rw [List.filterMap_nil, List.filterMap_nil, String.join_nil, String.append_empty,
      List.append_nil, ← hcalls]
    rfl
  | @cons i block blocks payloads rest hblock _ ih =>
    obtain ⟨first, hfirst, haddFirst⟩ := passes_cohereBlock start st hblock
    obtain ⟨out, st', hpasses, hsaw, hadd⟩ := ih (st.after block)
    refine ⟨_, st', hfirst.append hpasses, ?_, fun a cs hcalls hi hlen => ?_⟩
    · rw [hsaw]
      cases block with
      | text pieces => rfl
      | call c pieces => exact (Bool.or_true _).symm
    · have hcalls? : (block :: blocks).filterMap CohereBlock.assembled =
          block.assembled.toList ++ blocks.filterMap CohereBlock.assembled := by
        cases block <;> rfl
      have htexts? : String.join ((block :: blocks).filterMap CohereBlock.text?) =
          block.added ++ String.join (blocks.filterMap CohereBlock.text?) := by
        cases block with
        | text pieces => exact String.join_cons ..
        | call c pieces => exact (String.empty_append ..).symm
      have hcount : (cs ++ block.assembled.toList).length = i + block.call?.toList.length := by
        rw [List.length_append, hi]
        cases block <;> rfl
      rw [hcalls?, ← List.append_assoc] at hlen
      have hlen' : (cs ++ block.assembled.toList).length ≤ 2 ^ 32 := by
        rw [List.length_append] at hlen
        omega
      rw [Assembled.addChunks_append, haddFirst a cs hcalls hi hlen', hadd _ _ rfl hcount hlen,
        hcalls?, htexts?, List.append_assoc, String.append_assoc]

end

section

variable {serde : Serde} {r : CohereChatResponse}

theorem event_messageEnd (st : CohereStreamState) {delta v : Value} (h : IsMessageEnd r delta v) :
    st.event v = (r.finishReason.map fun reason => st.chunk {} (some (st.mapFinish reason))
      (r.usage.map fun u => cohereUsageToCanonical (some u)), st) := by
  have hfinish : CohereStreamState.finish v = r.finishReason := by
    have hreason := h.reason
    rw [CohereStreamState.finish, h.under, h.noReason, h.noResponse, Option.bind_some]
    cases hr : r.finishReason with
    | none =>
      rw [hr] at hreason
      rcases hreason with hreason | hreason
      · rw [hreason]; rfl
      · rw [hreason]; rfl
    | some reason =>
      rw [hr] at hreason
      obtain ⟨w, hw, rfl⟩ := hreason
      rw [hw]
      rfl
  have husage : CohereStreamState.usage v =
      r.usage.map fun u => cohereUsageToCanonical (some u) := by
    have hu := h.usage
    rw [CohereStreamState.usage, h.under, h.noUsage, Option.bind_some]
    cases hr : r.usage with
    | none =>
      rw [hr] at hu
      rcases hu with hu | hu
      · rw [hu]; rfl
      · rw [hu]; rfl
    | some u =>
      rw [hr] at hu
      obtain ⟨w, hw, hfrom⟩ := hu
      rw [hw, Option.some_or, Option.bind_some, hfrom]
  rw [event_of_untyped (congrArg (Option.bind · Value.asStr) h.type) (by decide),
    CohereStreamState.untyped, h.text, hfinish, husage]

/-- A silent event gives nothing. -/
theorem translate_silent {start st : CohereStreamState} {payload : String}
    (h : isSilent serde payload = true) :
    (cohereLoop serde start).translate st payload = .ok ([], false, st) := by
  simp only [isSilent] at h
  cases hparse : serde.fromStr payload with
  | error e => rw [hparse] at h; exact absurd h nofun
  | ok v =>
    rw [hparse] at h
    simp only [Bool.and_eq_true, List.any_eq_true, decide_eq_true_eq, Option.isNone_iff_eq_none]
      at h
    obtain ⟨⟨⟨type, hmem, htype⟩, htext⟩, hfinish⟩ := h
    have hother : type ≠ "message-start" ∧ type ≠ "tool-call-start" ∧ type ≠ "tool-call-delta" := by
      clear htype
      revert type
      decide
    simp only [cohereLoop, parseCohereStreamEvent, hparse, event_of_untyped htype hother,
      CohereStreamState.untyped, htext, hfinish, Option.map_none, Option.toList_none]

theorem join_texts (r : CohereChatResponse) : String.join r.texts = cohereContentText r.content := by
  rw [CohereChatResponse.texts]
  split
  · rename_i s h
    rw [h, String.join_cons, String.join_nil, String.append_empty]
    rfl
  · rename_i blocks h
    rw [h]
    rfl
  · rename_i hstr harr
    rw [String.join_nil, cohereContentText]
    · exact fun s => hstr s
    · exact fun blocks => harr blocks

def CohereChatResponse.allCalls (r : CohereChatResponse) : List ToolCall := r.toolCalls.getD []

/-- **A whole response**: chunks only, and what they add up to. -/
theorem feed_cohere {payloads : List String} (h : r.Streams serde payloads)
    (start : CohereStreamState) (hstart : start.sawToolCall = false) :
    ∃ out, ((cohereLoop serde start).feed start payloads).1 = out.map .ok ∧
      (r.allCalls.length ≤ 2 ^ 32 → assemble out = {
        content := cohereContentText r.content
        calls := indexed (r.allCalls.map cohereAssembled)
        finishReason := r.finishReason.map fun reason =>
          ({ start with sawToolCall := !r.allCalls.isEmpty }).mapFinish reason
        usage := r.finishReason.bind fun _ =>
          r.usage.map fun u => cohereUsageToCanonical (some u) }) := by
  obtain ⟨first, blocks, body, last, hpayloads, hfirst, hblocks, htexts, hcalls, hlast⟩ := h
  have hskip : ∀ st, ∀ p ∈ payloads, (!isSilent serde p) = false →
      (cohereLoop serde start).translate st p = .ok ([], false, st) := by
    intro st p _ hp
    exact translate_silent (by simpa using hp)
  rw [SseLoop.feed_filter hskip, hpayloads]
  obtain ⟨v, hparse, hv⟩ := hfirst
  -- the start may rename the response
  have hopen : ∃ st : CohereStreamState, st.sawToolCall = false ∧
      (cohereLoop serde start).translate start first = .ok ([], false, st) := by
    refine ⟨{ start with id := ((v.get "id").bind Value.asStr).getD start.id }, hstart, ?_⟩
    exact cohere_translate start start (p := (· = v)) ⟨v, hparse, rfl⟩ fun w hw => by
      rw [hw, CohereStreamState.event, hv]
  obtain ⟨st, hst, hopen⟩ := hopen
  obtain ⟨out, st', hpasses, hsaw, hadd⟩ := passes_cohereBlocks start st hblocks
  obtain ⟨w, hparseLast, delta, hw⟩ := hlast
  have hend := cohere_translate start st' (p := (· = w)) ⟨w, hparseLast, rfl⟩
    fun x hx => hx ▸ event_messageEnd st' hw
  have hall := (SseLoop.Passes.cons hopen (hpasses.append (.one hend))).feed []
  rw [List.append_nil] at hall
  rw [hall]
  refine ⟨_, List.append_nil _, fun hlen => ?_⟩
  have hassembled : blocks.filterMap CohereBlock.assembled = r.allCalls.map cohereAssembled := by
    rw [CohereChatResponse.allCalls, ← hcalls, List.map_filterMap]
    rfl
  have hsum := hadd {} [] rfl rfl (by rw [hassembled, List.nil_append, List.length_map]; exact hlen)
  rw [List.nil_append, hassembled, htexts, String.empty_append] at hsum
  rw [hst, Bool.false_or, hcalls] at hsaw
  have hfinish : st'.mapFinish =
      ({ start with sawToolCall := !r.allCalls.isEmpty } : CohereStreamState).mapFinish := by
    funext reason
    unfold CohereStreamState.mapFinish
    rw [hsaw]
    rfl
  rw [List.nil_append, assemble, Assembled.addChunks_append, hsum, join_texts, ← hfinish]
  cases r.finishReason with
  | none => rfl
  | some reason =>
    change Assembled.addChunk _ (.ofDelta st'.id st'.model st'.created {} _ _) = _
    rw [Assembled.addChunk_ofDelta, Option.getD_none, String.append_empty]
    cases r.usage with
    | none => rfl
    | some u => rfl

/-! ## The buffered translation -/

theorem calls_getD (r : CohereChatResponse) : r.calls.getD [] = r.allCalls := by
  unfold CohereChatResponse.calls CohereChatResponse.allCalls
  cases r.toolCalls with
  | none => rfl
  | some calls => cases calls <;> rfl

theorem calls_isSome (r : CohereChatResponse) : r.calls.isSome = !r.allCalls.isEmpty := by
  unfold CohereChatResponse.calls CohereChatResponse.allCalls
  cases r.toolCalls with
  | none => rfl
  | some calls => cases calls <;> rfl

theorem sameCalls_iff_function (calls : List ToolCall) :
    List.Forall₂ (SameCall (· = ·)) (calls.map cohereAssembled) calls ↔
      ∀ c ∈ calls, c.toolType = "function" := by
  induction calls with
  | nil => simp
  | cons c calls ih =>
    rw [List.map_cons, List.forall₂_cons, ih, List.forall_mem_cons]
    refine and_congr_left fun _ => ⟨fun h => (Option.some.inj h.toolType).symm, fun h => ?_⟩
    exact ⟨rfl, congrArg some h.symm, rfl, rfl⟩

/-- The two maps of a finish reason differ at a bare `TOOL_CALL` only. -/
theorem finish_iff_bare (st : CohereStreamState) (reason : String) (calls : List ToolCall) :
    ({ st with sawToolCall := !calls.isEmpty } : CohereStreamState).mapFinish reason =
      (if (!calls.isEmpty) = true then "tool_calls" else mapCohereFinish reason) ↔
    (reason = "TOOL_CALL" → calls ≠ []) := by
  cases calls with
  | cons c calls => simp [CohereStreamState.mapFinish]
  | nil =>
    simp only [CohereStreamState.mapFinish, mapCohereFinish, List.isEmpty_nil, Bool.not_true,
      Bool.false_eq_true, if_false, ne_eq, not_true_eq_false, imp_false]
    by_cases hbare : reason = "TOOL_CALL"
    · subst hbare
      decide
    · simp [hbare]

/-- The response reports its usage and a finish reason, which is no `TOOL_CALL` without calls; its
calls are of functions, and there are indices for them. -/
structure CohereChatResponse.Complete (r : CohereChatResponse) : Prop where
  usage : r.usage.isSome
  finish : ∃ reason, r.finishReason = some reason ∧ (reason = "TOOL_CALL" → r.allCalls ≠ [])
  function : ∀ c ∈ r.allCalls, c.toolType = "function"
  indices : r.allCalls.length ≤ 2 ^ 32

/-- What agreement says of a response. -/
theorem complete_of_agrees {payloads : List String} {start : CohereStreamState} {model : String}
    {created : ℕ} (h : r.Streams serde payloads) (hstart : start.sawToolCall = false)
    (hagrees : StreamAgrees (· = ·) ((cohereLoop serde start).feed start payloads).1
      (r.translate model created)) : r.Complete := by
  obtain ⟨out, hitems, hsum⟩ := feed_cohere h start hstart
  obtain ⟨chunks, c, hchunks, hc, hagrees⟩ := hagrees
  obtain rfl : out = chunks :=
    List.map_injective_iff.2 (fun _ _ => Except.ok.inj) (hitems.symm.trans hchunks)
  obtain rfl := (List.cons.inj hc).1
  have hcalls := hagrees.calls
  rw [calls_getD] at hcalls
  have hlen : r.allCalls.length ≤ 2 ^ 32 := by
    have hle := hcalls.length_eq
    rw [List.length_map] at hle
    rw [← hle]
    exact assemble_length_le out
  have husage := hagrees.usage
  have hfinish := hagrees.finishReason
  rw [hsum hlen] at hcalls husage hfinish
  rw [indexed_map_snd] at hcalls
  simp only at husage hfinish
  cases hreason : r.finishReason with
  | none => rw [hreason] at hfinish; exact absurd hfinish nofun
  | some reason =>
    rw [hreason, Option.map_some, calls_isSome] at hfinish
    rw [hreason, Option.bind_some] at husage
    refine ⟨?_, ⟨reason, hreason, ?_⟩, (sameCalls_iff_function _).1 hcalls, hlen⟩
    · cases hu : r.usage with
      | none => rw [hu] at husage; exact absurd husage nofun
      | some u => rfl
    · exact (finish_iff_bare start reason r.allCalls).1 (Option.some.inj hfinish)

end

/-- **The stream of a Cohere response says what its buffered translation says** iff the response
is complete. -/
theorem cohere_agrees_iff {serde : Serde} {r : CohereChatResponse} {payloads : List String}
    (start : CohereStreamState) (model : String) (created : ℕ) (h : r.Streams serde payloads)
    (hstart : start.sawToolCall = false) :
    StreamAgrees (· = ·) ((cohereLoop serde start).feed start payloads).1
      (r.translate model created) ↔ r.Complete := by
  refine ⟨complete_of_agrees h hstart, fun hr => ?_⟩
  obtain ⟨reason, hreason, hbare⟩ := hr.finish
  obtain ⟨u, hu⟩ := Option.isSome_iff_exists.1 hr.usage
  obtain ⟨out, hitems, hsum⟩ := feed_cohere h start hstart
  refine ⟨out, _, hitems, rfl, ?_⟩
  rw [hsum hr.indices]
  refine ⟨?_, ?_, ?_, ?_, ?_⟩
  · rw [MessageContent.asText, MessageContent.texts, String.join_cons, String.join_nil,
      String.append_empty]
  · rw [indexed_map_fst, indexed_length]
  · rw [calls_getD, indexed_map_snd]
    exact (sameCalls_iff_function _).2 hr.function
  · rw [calls_isSome, hreason, Option.map_some]
    exact congrArg some ((finish_iff_bare start reason r.allCalls).2 hbare)
  · rw [hreason, hu, CohereChatResponse.translate, hu]
    rfl

/-! ## A bare `TOOL_CALL` -/

def bareTexts : List (String × Value) := [
  ("\x7b\"type\":\"message-start\",\"id\":\"chat_1\"\x7d",
    .obj [("type", .str "message-start"), ("id", .str "chat_1")]),
  ("\x7b\"type\":\"content-start\",\"delta\":\x7b\"message\":\x7b\"content\":" ++
      "\x7b\"type\":\"text\",\"text\":\"\"\x7d\x7d\x7d\x7d",
    .obj [("type", .str "content-start"), ("delta", .obj [("message", .obj [("content",
      .obj [("type", .str "text"), ("text", .str "")])])])]),
  ("\x7b\"type\":\"content-delta\",\"delta\":\x7b\"message\":\x7b\"content\":" ++
      "\x7b\"text\":\"Hi\"\x7d\x7d\x7d\x7d",
    .obj [("type", .str "content-delta"), ("delta", .obj [("message", .obj [("content",
      .obj [("text", .str "Hi")])])])]),
  ("\x7b\"type\":\"content-end\"\x7d", .obj [("type", .str "content-end")]),
  ("\x7b\"type\":\"message-end\",\"delta\":\x7b\"finish_reason\":\"TOOL_CALL\",\"usage\":" ++
      "\x7b\"tokens\":\x7b\"input_tokens\":3,\"output_tokens\":2\x7d\x7d\x7d\x7d",
    .obj [("type", .str "message-end"), ("delta", .obj [("finish_reason", .str "TOOL_CALL"),
      ("usage", .obj [("tokens", .obj [("input_tokens", .num (.int 3)),
        ("output_tokens", .num (.int 2))])])])])]

def bareSerde : Serde := .ofTexts bareTexts

/-- It stops for a tool, and calls none. -/
def bareResponse : CohereChatResponse where
  id := "chat_1"
  content := some (.arr [.obj [("type", .str "text"), ("text", .str "Hi")]])
  usage := some { tokens := some ⟨some 3, some 2⟩ }
  finishReason := some "TOOL_CALL"

set_option maxRecDepth 4000 in
theorem bare_streams : bareResponse.Streams bareSerde (bareTexts.map (·.1)) := by
  have hone : ∀ {payloads}, (CohereBlock.text ["", "Hi"]).Streams bareSerde 0 payloads →
      BlocksStream bareSerde 0 [.text ["", "Hi"]] payloads := by
    intro payloads h
    have hcons := BlocksStream.cons h (.nil _)
    rwa [List.append_nil] at hcons
  refine ⟨_, [.text ["", "Hi"]], [_, _], _, rfl, ⟨_, rfl, rfl⟩, hone ?_, rfl, rfl,
    _, rfl, _, rfl, rfl, rfl, ⟨_, rfl, rfl⟩, ⟨_, rfl, rfl⟩, rfl, rfl, rfl⟩
  exact ⟨_, [_], some "", ["Hi"], rfl, rfl, ⟨_, rfl, rfl, rfl, rfl⟩,
    .cons ⟨_, rfl, rfl, rfl, rfl⟩ .nil⟩

def bareStart : CohereStreamState := { id := "cohere-stream", model := "command", created := 0 }

/-- The stream finishes with `stop`, the buffered response with `tool_calls`. -/
theorem bare_tool_call_disagrees : bareResponse.Streams bareSerde (bareTexts.map (·.1)) ∧
    ¬StreamAgrees (· = ·)
      ((cohereLoop bareSerde bareStart).feed bareStart (bareTexts.map (·.1))).1
      (bareResponse.translate "command" 0) := by
  refine ⟨bare_streams, fun hagrees => ?_⟩
  obtain ⟨reason, hreason, hbare⟩ := (complete_of_agrees bare_streams rfl hagrees).finish
  exact hbare (Option.some.inj hreason).symm rfl

theorem cohere_agrees_iff_bare :
    StreamAgrees (· = ·) ((cohereLoop bareSerde bareStart).feed bareStart (bareTexts.map (·.1))).1
      (bareResponse.translate "command" 0) ↔ bareResponse.Complete :=
  cohere_agrees_iff bareStart "command" 0 bare_streams rfl

end Routeplane
