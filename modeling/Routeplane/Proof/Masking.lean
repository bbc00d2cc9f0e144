import Routeplane.Lib.Slot
import Routeplane.Proof.StreamBody
import Routeplane.Proxy.Masking

/-!
# Where the masking reaches

A text passed through the masking engine when what comes out depends on it only through the
engine, whatever the engine is; the classifier inspects a text when what it reads depends on
it.

* `masking_reaches_iff`: the passes agree on a request and its answer iff there is no tool
  call, no message name and no upstream text in an error frame.
* `masking_missed`: a request and answers for which they do not.
-/

namespace Routeplane

open Slot

/-! ## The texts of a request and of an answer -/

def ContentPart.slots : (p : ContentPart) → List (Slot String p)
  | .text t cc => [⟨t, fun t => .text t cc, rfl⟩]
  | .imageUrl _ => []

def MessageContent.slots : (c : MessageContent) → List (Slot String c)
  | .text s => [⟨s, .text, rfl⟩]
  | .parts ps => (inList ContentPart.slots ps).map (lift .parts rfl)

def ToolCall.nameSlot (tc : ToolCall) : Slot String tc :=
  ⟨tc.function.name, fun t => { tc with function := { tc.function with name := t } }, rfl⟩

def ToolCall.argumentsSlot (tc : ToolCall) : Slot String tc :=
  ⟨tc.function.arguments, fun t => { tc with function := { tc.function with arguments := t } }, rfl⟩

namespace Message

def contentSlots (m : Message) : List (Slot String m) :=
  m.content.slots.map (lift (fun c => { m with content := c }) rfl)

def nameSlots (m : Message) : List (Slot String m) :=
  (inOption (fun n => [self n]) m.name).map (lift (fun n => { m with name := n }) rfl)

/-- The function names and the arguments of the tool calls. -/
def toolSlots (m : Message) : List (Slot String m) :=
  (inOption (inList fun tc => [tc.nameSlot, tc.argumentsSlot]) m.toolCalls).map
    (lift (fun tcs => { m with toolCalls := tcs }) rfl)

def argumentsSlots (m : Message) : List (Slot String m) :=
  (inOption (inList fun tc => [tc.argumentsSlot]) m.toolCalls).map
    (lift (fun tcs => { m with toolCalls := tcs }) rfl)

def passthroughSlots (m : Message) : List (Slot String m) :=
  (inOption (fun t => [self t]) m.reasoningContent).map
      (lift (fun t => { m with reasoningContent := t }) rfl) ++
    (inOption (fun t => [self t]) m.refusal).map (lift (fun t => { m with refusal := t }) rfl)

end Message

/-- The texts of a message that are classified or masked on the way in. -/
def Message.ingressSlots (m : Message) : List (Slot String m) :=
  (m.contentSlots ++ m.nameSlots) ++ m.toolSlots

def Choice.maskedSlots (c : Choice) : List (Slot String c) :=
  (c.message.contentSlots ++ c.message.passthroughSlots).map
    (lift (fun m => { c with message := m }) rfl)

def Choice.argumentsSlots (c : Choice) : List (Slot String c) :=
  c.message.argumentsSlots.map (lift (fun m => { c with message := m }) rfl)

/-- The texts of a response that are to be masked on the way out. -/
def ChatCompletionResponse.egressSlots (r : ChatCompletionResponse) : List (Slot String r) :=
  (inList (fun c => c.maskedSlots ++ c.argumentsSlots) r.choices).map
    (lift (fun cs => { r with choices := cs }) rfl)

def Delta.maskedSlots (d : Delta) : List (Slot String d) :=
  (inOption (fun t => [self t]) d.content).map (lift (fun t => { d with content := t }) rfl) ++
    ((inOption (fun t => [self t]) d.reasoningContent).map
        (lift (fun t => { d with reasoningContent := t }) rfl) ++
      (inOption (fun t => [self t]) d.refusal).map (lift (fun t => { d with refusal := t }) rfl))

def FunctionCallChunk.argumentsSlots (f : FunctionCallChunk) : List (Slot String f) :=
  (inOption (fun t => [self t]) f.arguments).map (lift (fun t => { f with arguments := t }) rfl)

def ToolCallChunk.argumentsSlots (tc : ToolCallChunk) : List (Slot String tc) :=
  (inOption FunctionCallChunk.argumentsSlots tc.function).map
    (lift (fun f => { tc with function := f }) rfl)

def Delta.argumentsSlots (d : Delta) : List (Slot String d) :=
  (inOption (inList ToolCallChunk.argumentsSlots) d.toolCalls).map
    (lift (fun tcs => { d with toolCalls := tcs }) rfl)

def ChunkChoice.maskedSlots (c : ChunkChoice) : List (Slot String c) :=
  c.delta.maskedSlots.map (lift (fun d => { c with delta := d }) rfl)

def ChunkChoice.argumentsSlots (c : ChunkChoice) : List (Slot String c) :=
  c.delta.argumentsSlots.map (lift (fun d => { c with delta := d }) rfl)

/-- The texts of a chunk that are to be masked on the way out. -/
def ChatCompletionChunk.egressSlots (c : ChatCompletionChunk) : List (Slot String c) :=
  (inList (fun c => c.maskedSlots ++ c.argumentsSlots) c.choices).map
    (lift (fun cs => { c with choices := cs }) rfl)

/-- The upstream text an error shows: its body or detail, except that of an `auth` error. -/
def ProviderError.quotedSlots : (e : ProviderError) → List (Slot String e)
  | .timeout p d => [within (timeout p) d]
  | .network p d => [within (network p) d]
  | .translation d => [within translation d]
  | .rateLimited p ra b => [within (rateLimited p ra) b]
  | .badRequest p st b => [within (badRequest p st) b]
  | .upstream5xx p st b => [within (upstream5xx p st) b]
  | .auth .. => []

/-! ## What it means to be masked -/

section

variable {messages : List Message}

/-- The classifier inspects the text in a slot: what it reads depends on it. -/
def Inspected (s : Slot String messages) : Prop :=
  ∃ t t', residencyClassifierText (s.put t) ≠ residencyClassifierText (s.put t')

/-- The text in a slot is forwarded only as the masking engine leaves it, whatever the engine. -/
def Passed {α β : Type} {a : α} (out : (String → String) → α → β) (s : Slot String a) : Prop :=
  ∀ process, s.Factors process (out process)

/-- The messages a target is sent. -/
def forwardedMessages (params : ParamShaping) (compress : String → String) (compression : Bool)
    (payload : ChatCompletionRequest) (process : String → String) (messages : List Message) :
    List Message :=
  (params.apply (maskRequest process compress compression
    { payload with messages := messages })).messages

/-- The classifier and the ingress masking cover the same texts of a request, and names are
masked. -/
def IngressMasked (params : ParamShaping) (compress : String → String) (compression : Bool)
    (payload : ChatCompletionRequest) : Prop :=
  ∀ s ∈ inList Message.ingressSlots payload.messages,
    let passed := Passed (forwardedMessages params compress compression payload) s
    (Inspected s ∨ s ∈ inList Message.nameSlots payload.messages → passed) ∧ (passed → Inspected s)

end

/-- An answer on its way to the client: a buffered response, or the life of a stream. -/
inductive EgressReply
  | buffered (r : ChatCompletionResponse)
  | streamed (ctx : StreamContext) (first : ChatCompletionChunk) (polls : List NextItem)

/-- What the generator takes in within one poll and shows the client: a chunk that is sent, or the
error that ends the stream. -/
def shownItem (ctx : StreamContext) (first : ChatCompletionChunk) (b : Body) (next : NextItem) :
    Option (Except ProviderError ChatCompletionChunk) :=
  let sent c : Option (Except ProviderError ChatCompletionChunk) :=
    if ctx.sends c then some (.ok c) else none
  match b.gen, next with
  | .created, _ => sent first
  | .awaiting _, .item (.ok c) | .yielded _, .item (.ok c) => sent c
  | .awaiting _, .item (.error e) | .yielded _, .item (.error e) => some (.error e)
  | _, _ => none

/-- The items shown over some polls. -/
def shownItems (ctx : StreamContext) (first : ChatCompletionChunk) :
    Body → List NextItem → List (Except ProviderError ChatCompletionChunk)
  | _, [] => []
  | b, next :: polls =>
    (shownItem ctx first b next).toList ++ shownItems ctx first (poll ctx first b next) polls

/-- Every text of the answer reaches the client only as the engine leaves it. -/
def EgressMasked (advanced : Bool) : EgressReply → Prop
  | .buffered r => ∀ s ∈ r.egressSlots, Passed (fun process => maskResponse process advanced) s
  | .streamed ctx first polls => ∀ item ∈ shownItems ctx first ⟨.created, {}⟩ polls,
    match item with
    | .ok c => ∀ s ∈ c.egressSlots,
      Passed (fun process => maskChunk (postGuardrailText process advanced)) s
    | .error e => ∀ s ∈ e.quotedSlots, Passed (fun _ e => terminalFrame (some e.display)) s

/-! ## The way in -/

section

variable {γ : Type} {mask : String → γ} {process compress out : String → String} {compression : Bool}
  {params : ParamShaping} {payload : ChatCompletionRequest} {messages : List Message} {m : Message}

theorem MessageContent.factors_slots (h : out.FactorsThrough mask) (c : MessageContent) :
    ∀ s ∈ c.slots, s.Factors mask (mapText out) := by
  intro s hs
  cases c with
  | text t =>
    obtain rfl := List.mem_singleton.1 hs
    intro t t' hm
    exact congrArg MessageContent.text (h hm)
  | parts ps =>
    obtain ⟨s', hs', rfl⟩ := List.mem_map.1 hs
    have hpart : ∀ p ∈ ps, ∀ s ∈ p.slots, s.Factors mask (fun
        | .text t cc => .text (out t) cc
        | .imageUrl u => .imageUrl u : ContentPart → ContentPart) := by
      intro p hp s hs
      cases p with
      | text t cc =>
        obtain rfl := List.mem_singleton.1 hs
        intro t t' hm
        change ContentPart.text (out t) cc = .text (out t') cc
        rw [h hm]
      | imageUrl u => simp [ContentPart.slots] at hs
    exact factors_lift (factors_inList hpart s' hs') fun x y hxy => congrArg MessageContent.parts hxy

/-- What is forwarded of one message. -/
def forwardedMessage (process compress : String → String) (compression : Bool) (m : Message) :
    Message :=
  { m with
    content := m.content.mapText
      (if compression ∧ m.role = "tool" then compress ∘ process else process)
    name := m.name.map process }

theorem forwardedMessages_eq : forwardedMessages params compress compression payload process messages =
    messages.map (forwardedMessage process compress compression) := by
  unfold forwardedMessages maskRequest compressToolResults maskMessages
  rw [ParamShaping.apply_messages]
  simp only
  cases compression with
  | false =>
    simp only [Bool.false_eq_true, if_false]
    refine List.map_congr_left fun m _ => ?_
    simp [maskMessage, forwardedMessage]
  | true =>
    rw [if_pos rfl, List.map_map]
    refine List.map_congr_left fun m _ => ?_
    by_cases hrole : m.role = "tool"
    · simp [maskMessage, forwardedMessage, hrole, MessageContent.mapText_comp]
    · simp [maskMessage, forwardedMessage, hrole]

/-- The content of a message passes. -/
theorem passed_contentSlots : ∀ s ∈ inList Message.contentSlots messages,
    Passed (forwardedMessages params compress compression payload) s := by
  intro s hs process
  have hmsg : ∀ m ∈ messages, ∀ s ∈ m.contentSlots,
      s.Factors process (forwardedMessage process compress compression) := by
    intro m hm s hs
    obtain ⟨s', hs', rfl⟩ := List.mem_map.1 hs
    have hfactors : (if compression ∧ m.role = "tool" then compress ∘ process
        else process).FactorsThrough process := by
      split
      · exact fun t t' h => congrArg compress h
      · exact fun t t' h => h
    refine factors_lift (MessageContent.factors_slots hfactors m.content s' hs') fun x y hxy => ?_
    unfold forwardedMessage
    simp only [hxy]
  intro t t' h
  simp only [forwardedMessages_eq]
  exact factors_inList hmsg s hs h

theorem passed_nameSlots : ∀ s ∈ inList Message.nameSlots messages,
    Passed (forwardedMessages params compress compression payload) s := by
  intro s hs process
  have hmsg : ∀ m ∈ messages, ∀ s ∈ m.nameSlots,
      s.Factors process (forwardedMessage process compress compression) := by
    intro m hm s hs
    obtain ⟨s', hs', rfl⟩ := List.mem_map.1 hs
    have hname : ∀ n ∈ m.name, ∀ s ∈ [self n], s.Factors process process := by
      intro n hn s hs
      obtain rfl := List.mem_singleton.1 hs
      exact fun t t' h => h
    refine factors_lift (factors_inOption hname s' hs') fun x y hxy => ?_
    unfold forwardedMessage
    simp only [hxy]
  intro t t' h
  simp only [forwardedMessages_eq]
  exact factors_inList hmsg s hs h

/-- The classifier reads no name. -/
theorem not_inspected_nameSlots : ∀ s ∈ inList Message.nameSlots messages, ¬Inspected s := by
  rintro s hs ⟨t, t', hne⟩
  have hmsg : ∀ m ∈ messages, ∀ s ∈ m.nameSlots, s.Factors (fun _ => ()) classifierText := by
    intro m hm s hs
    obtain ⟨s', hs', rfl⟩ := List.mem_map.1 hs
    exact fun t t' h => rfl
  refine hne (congrArg ("\n".intercalate ·) ?_)
  exact factors_inList hmsg s hs rfl

/-! ## What is inspected -/

/-- The length of a part's text. -/
def ContentPart.textLength : ContentPart → ℕ
  | .text t _ => t.length
  | .imageUrl _ => 0

theorem MessageContent.length_asText_parts (ps : List ContentPart) :
    (MessageContent.parts ps).asText.length = (ps.map ContentPart.textLength).sum := by
  unfold asText
  rw [String.length_join]
  simp only [texts]
  induction ps with
  | nil => rfl
  | cons p ps ih =>
    cases p with
    | text t cc => simpa [ContentPart.textLength] using ih
    | imageUrl u => simpa [ContentPart.textLength] using ih

theorem MessageContent.grows_slots (c : MessageContent) :
    ∀ s ∈ c.slots, s.Grows String.length fun c => c.asText.length := by
  intro s hs
  cases c with
  | text t =>
    obtain rfl := List.mem_singleton.1 hs
    refine ⟨0, fun t => ?_⟩
    simp [asText, texts]
  | parts ps =>
    obtain ⟨s', hs', rfl⟩ := List.mem_map.1 hs
    have hpart : ∀ p ∈ ps, ∀ s ∈ p.slots, s.Grows String.length ContentPart.textLength := by
      intro p hp s hs
      cases p with
      | text t cc =>
        obtain rfl := List.mem_singleton.1 hs
        exact ⟨0, fun t => (Nat.zero_add _).symm⟩
      | imageUrl u => simp [ContentPart.slots] at hs
    refine grows_lift (grows_inList hpart s' hs') ⟨0, fun ps => ?_⟩
    rw [Nat.zero_add]
    exact length_asText_parts ps

/-- A measure that counts the tool calls grows with their texts. -/
theorem grows_toolSlots {measure : Message → ℕ} {m : Message}
    (hm : ∃ c, ∀ tcs, measure { m with toolCalls := some tcs } =
      c + (tcs.map ToolCall.classifiedLength).sum) :
    ∀ s ∈ m.toolSlots, s.Grows String.length measure := by
  intro s hs
  obtain ⟨s', hs', rfl⟩ := List.mem_map.1 hs
  have hcall : ∀ tc : ToolCall, ∀ s ∈ [tc.nameSlot, tc.argumentsSlot],
      s.Grows String.length ToolCall.classifiedLength := by
    intro tc s hs
    rcases List.mem_cons.1 hs with rfl | hs
    · refine ⟨tc.function.arguments.length + 2, fun t => ?_⟩
      simp only [ToolCall.nameSlot, ToolCall.classifiedLength]
      omega
    · obtain rfl := List.mem_singleton.1 hs
      refine ⟨tc.function.name.length + 2, fun t => ?_⟩
      simp only [ToolCall.argumentsSlot, ToolCall.classifiedLength]
      omega
  have hcalls : ∀ tcs ∈ m.toolCalls, ∀ s ∈ inList (fun tc => [tc.nameSlot, tc.argumentsSlot]) tcs,
      s.Grows String.length fun tcs => (tcs.map ToolCall.classifiedLength).sum :=
    fun tcs _ => grows_inList fun tc _ => hcall tc
  have hoption : ∀ s ∈ inOption (inList fun tc => [tc.nameSlot, tc.argumentsSlot]) m.toolCalls,
      s.Grows String.length fun tcs => measure { m with toolCalls := tcs } :=
    grows_inOption hcalls hm
  exact hoption s' hs'

/-- A text whose message's classified text grows with it is inspected. -/
theorem inspected_of_grows {f : (m : Message) → List (Slot String m)}
    (hf : ∀ m ∈ messages, ∀ s ∈ f m, s.Grows String.length fun m => (classifierText m).length) :
    ∀ s ∈ inList f messages, Inspected s := by
  intro s hs
  obtain ⟨c, hc⟩ := grows_inList hf s hs
  refine ⟨"", "x", fun heq => ?_⟩
  have hlen := congrArg String.length heq
  rw [length_residencyClassifierText, length_residencyClassifierText, length_put_inList hs,
    length_put_inList hs] at hlen
  have hempty : ((s.put "").map fun m => (classifierText m).length).sum = c + 0 := hc ""
  have hx : ((s.put "x").map fun m => (classifierText m).length).sum = c + 1 := hc "x"
  omega

theorem inspected_contentSlots : ∀ s ∈ inList Message.contentSlots messages, Inspected s := by
  refine inspected_of_grows fun m _ s hs => ?_
  obtain ⟨s', hs', rfl⟩ := List.mem_map.1 hs
  refine grows_lift (MessageContent.grows_slots m.content s' hs')
    ⟨((m.toolCalls.getD []).map ToolCall.classifiedLength).sum, fun c => ?_⟩
  rw [length_classifierText, Nat.add_comm]

theorem inspected_toolSlots : ∀ s ∈ inList Message.toolSlots messages, Inspected s :=
  inspected_of_grows fun m _ => grows_toolSlots
    ⟨m.content.asText.length, fun _ => length_classifierText _⟩

/-- **A tool call is forwarded as it came.** -/
theorem not_passed_toolSlots : ∀ s ∈ inList Message.toolSlots messages,
    ¬Passed (forwardedMessages params compress compression payload) s := by
  intro s hs hpassed
  have hgrows : ∀ m ∈ messages, ∀ s ∈ m.toolSlots, s.Grows String.length fun m =>
      (classifierText (forwardedMessage (fun _ => "") compress compression m)).length := by
    intro m _
    exact grows_toolSlots
      ⟨(forwardedMessage (fun _ => "") compress compression m).content.asText.length,
        fun _ => length_classifierText _⟩
  have hsum : s.Grows String.length fun ms => ((forwardedMessages params compress compression
      payload (fun _ => "") ms).map fun m => (classifierText m).length).sum := by
    simp only [forwardedMessages_eq, List.map_map]
    exact grows_inList hgrows s hs
  have hnot : ¬s.Factors (fun _ => "") (forwardedMessages params compress compression payload
      fun _ => "") :=
    Grows.not_factors (fun ms => (ms.map fun m => (classifierText m).length).sum) hsum
      "" "x" rfl (by decide)
  exact hnot (hpassed _)

/-- **The way in is covered iff there is neither a name nor a tool call.** -/
theorem ingressMasked_iff : IngressMasked params compress compression payload ↔
    ∀ m ∈ payload.messages, m.name = none ∧ m.toolCalls.getD [] = [] := by
  have hname : ∀ m : Message, m.nameSlots = [] ↔ m.name = none := by
    intro m
    unfold Message.nameSlots
    rw [List.map_eq_nil_iff, inOption_eq_nil]
    cases m.name <;> simp
  have htool : ∀ m : Message, m.toolSlots = [] ↔ m.toolCalls.getD [] = [] := by
    intro m
    unfold Message.toolSlots
    rw [List.map_eq_nil_iff, inOption_inList_eq_nil fun _ => by simp]
  constructor
  · intro h
    have hnames : inList Message.nameSlots payload.messages = [] := by
      refine List.eq_nil_iff_forall_not_mem.2 fun s hs => ?_
      have hs' : s ∈ inList Message.ingressSlots payload.messages :=
        mem_inList_append.2 (.inl (mem_inList_append.2 (.inr hs)))
      exact not_inspected_nameSlots s hs ((h s hs').2 (passed_nameSlots s hs))
    have htools : inList Message.toolSlots payload.messages = [] := by
      refine List.eq_nil_iff_forall_not_mem.2 fun s hs => ?_
      have hs' : s ∈ inList Message.ingressSlots payload.messages :=
        mem_inList_append.2 (.inr hs)
      exact not_passed_toolSlots s hs ((h s hs').1 (.inl (inspected_toolSlots s hs)))
    intro m hm
    exact ⟨(hname m).1 (inList_eq_nil.1 hnames m hm), (htool m).1 (inList_eq_nil.1 htools m hm)⟩
  · intro h s hs
    rcases mem_inList_append.1 hs with hs | hs
    · rcases mem_inList_append.1 hs with hs | hs
      · exact ⟨fun _ => passed_contentSlots s hs, fun _ => inspected_contentSlots s hs⟩
      · rw [inList_eq_nil.2 fun m hm => (hname m).2 (h m hm).1] at hs
        simp at hs
    · rw [inList_eq_nil.2 fun m hm => (htool m).2 (h m hm).2] at hs
      simp at hs

end

/-! ## The way out -/

section

variable {process : String → String} {advanced : Bool}

theorem postGuardrailText_factors (process : String → String) (advanced : Bool) :
    (postGuardrailText process advanced).FactorsThrough process := by
  intro t t' h
  unfold postGuardrailText
  simp only [h]

/-- A text that may be absent, masked where it is present. -/
theorem factors_optionText {α : Type} {a : α} {o : Option String} {g : Option String → α}
    {h : g o = a} {mask : String → String} {β : Type} {out : α → β}
    (hmask : mask.FactorsThrough process)
    (hout : ∀ x y : Option String, x.map mask = y.map mask → out (g x) = out (g y)) :
    ∀ s ∈ (inOption (fun t => [self t]) o).map (lift g h), s.Factors process out := by
  intro s hs
  obtain ⟨s', hs', rfl⟩ := List.mem_map.1 hs
  have htext : ∀ t ∈ o, ∀ s ∈ [self t], s.Factors process mask := by
    intro t _ s hs
    obtain rfl := List.mem_singleton.1 hs
    exact fun t t' h => hmask h
  exact factors_lift (factors_inOption htext s' hs') hout

/-- The masking of one choice. -/
def maskChoice (mask : String → String) (c : Choice) : Choice :=
  { c with message := { c.message with
      content := c.message.content.mapText mask
      reasoningContent := c.message.reasoningContent.map mask
      refusal := c.message.refusal.map mask } }

theorem maskResponse_eq (r : ChatCompletionResponse) : maskResponse process advanced r =
    { r with choices := r.choices.map (maskChoice (postGuardrailText process advanced)) } := rfl

theorem Choice.factors_maskedSlots {mask : String → String} (hmask : mask.FactorsThrough process)
    (c : Choice) : ∀ s ∈ c.maskedSlots, s.Factors process (maskChoice mask) := by
  intro s hs
  obtain ⟨s', hs', rfl⟩ := List.mem_map.1 hs
  have hmessage : s'.Factors process fun m => maskChoice mask { c with message := m } := by
    rcases List.mem_append.1 hs' with hs' | hs'
    · obtain ⟨s'', hs'', rfl⟩ := List.mem_map.1 hs'
      refine factors_lift (MessageContent.factors_slots hmask _ s'' hs'') fun x y hxy => ?_
      simp only [maskChoice, hxy]
    · rcases List.mem_append.1 hs' with hs' | hs'
      · refine factors_optionText hmask (fun x y hxy => ?_) s' hs'
        simp only [maskChoice, hxy]
      · refine factors_optionText hmask (fun x y hxy => ?_) s' hs'
        simp only [maskChoice, hxy]
  exact hmessage

/-- How many characters the tool calls of a choice carry as arguments. -/
def Choice.argumentsLength (c : Choice) : ℕ :=
  ((c.message.toolCalls.getD []).map fun tc => tc.function.arguments.length).sum

theorem Choice.grows_argumentsSlots (c : Choice) (mask : String → String) :
    ∀ s ∈ c.argumentsSlots, s.Grows String.length fun c => (maskChoice mask c).argumentsLength := by
  intro s hs
  obtain ⟨s', hs', rfl⟩ := List.mem_map.1 hs
  obtain ⟨s'', hs'', rfl⟩ := List.mem_map.1 hs'
  have hcall : ∀ tc : ToolCall, ∀ s ∈ [tc.argumentsSlot],
      s.Grows String.length fun tc => tc.function.arguments.length := by
    intro tc s hs
    obtain rfl := List.mem_singleton.1 hs
    exact ⟨0, fun t => (Nat.zero_add _).symm⟩
  have hcalls : ∀ tcs ∈ c.message.toolCalls, ∀ s ∈ inList (fun tc => [tc.argumentsSlot]) tcs,
      s.Grows String.length fun tcs => (tcs.map fun tc => tc.function.arguments.length).sum :=
    fun tcs _ => grows_inList fun tc _ => hcall tc
  have hoption : ∀ s ∈ inOption (inList fun tc => [tc.argumentsSlot]) c.message.toolCalls,
      s.Grows String.length fun tcs =>
        (maskChoice mask { c with message := { c.message with toolCalls := tcs } }).argumentsLength :=
    grows_inOption hcalls ⟨0, fun _ => (Nat.zero_add _).symm⟩
  exact hoption s'' hs''

/-- **A buffered response is covered iff it carries no tool call.** -/
theorem egressMasked_buffered_iff (r : ChatCompletionResponse) :
    EgressMasked advanced (.buffered r) ↔ ∀ c ∈ r.choices, c.message.toolCalls.getD [] = [] := by
  have hslots : ∀ c : Choice, c.argumentsSlots = [] ↔ c.message.toolCalls.getD [] = [] := by
    intro c
    unfold Choice.argumentsSlots Message.argumentsSlots
    rw [List.map_eq_nil_iff, List.map_eq_nil_iff, inOption_inList_eq_nil fun _ => by simp]
  constructor
  · intro h c hc
    have hnone : inList Choice.argumentsSlots r.choices = [] := by
      refine List.eq_nil_iff_forall_not_mem.2 fun s hs => ?_
      have hpassed := h _ (List.mem_map_of_mem (mem_inList_append.2 (.inr hs))) fun _ => ""
      have hgrows : s.Grows String.length fun cs => ((cs.map
          (maskChoice (postGuardrailText (fun _ => "") advanced))).map
            Choice.argumentsLength).sum := by
        simp only [List.map_map]
        exact grows_inList (fun c _ => c.grows_argumentsSlots _) s hs
      have hnot : ¬s.Factors (fun _ => "") fun cs =>
          maskResponse (fun _ => "") advanced { r with choices := cs } :=
        Grows.not_factors (fun r => (r.choices.map Choice.argumentsLength).sum) hgrows "" "x" rfl
          (by decide)
      exact hnot hpassed
    exact (hslots c).1 (inList_eq_nil.1 hnone c hc)
  · intro h s hs process
    obtain ⟨s', hs', rfl⟩ := List.mem_map.1 hs
    rcases mem_inList_append.1 hs' with hs' | hs'
    · have hmask := postGuardrailText_factors process advanced
      refine factors_lift (factors_inList (fun c _ => c.factors_maskedSlots hmask) s' hs')
        fun x y hxy => ?_
      simp only [maskResponse_eq, hxy]
    · rw [inList_eq_nil.2 fun c hc => (hslots c).2 (h c hc)] at hs'
      simp at hs'

/-! ### Streams -/

/-- The masking of one chunk choice. -/
def maskChunkChoice (mask : String → String) (c : ChunkChoice) : ChunkChoice :=
  { c with delta := { c.delta with
      content := c.delta.content.map mask
      reasoningContent := c.delta.reasoningContent.map mask
      refusal := c.delta.refusal.map mask } }

theorem maskChunk_eq (mask : String → String) (c : ChatCompletionChunk) :
    maskChunk mask c = { c with choices := c.choices.map (maskChunkChoice mask) } := rfl

theorem ChunkChoice.factors_maskedSlots {mask : String → String}
    (hmask : mask.FactorsThrough process) (c : ChunkChoice) :
    ∀ s ∈ c.maskedSlots, s.Factors process (maskChunkChoice mask) := by
  intro s hs
  obtain ⟨s', hs', rfl⟩ := List.mem_map.1 hs
  have hdelta : s'.Factors process fun d => maskChunkChoice mask { c with delta := d } := by
    rcases List.mem_append.1 hs' with hs' | hs'
    · refine factors_optionText hmask (fun x y hxy => ?_) s' hs'
      simp only [maskChunkChoice, hxy]
    · rcases List.mem_append.1 hs' with hs' | hs'
      · refine factors_optionText hmask (fun x y hxy => ?_) s' hs'
        simp only [maskChunkChoice, hxy]
      · refine factors_optionText hmask (fun x y hxy => ?_) s' hs'
        simp only [maskChunkChoice, hxy]
  exact hdelta

/-- How many characters a tool call delta carries as arguments. -/
def ToolCallChunk.argumentsLength (tc : ToolCallChunk) : ℕ :=
  ((tc.function.bind (·.arguments)).map String.length).getD 0

def ChunkChoice.argumentsLength (c : ChunkChoice) : ℕ :=
  ((c.delta.toolCalls.getD []).map ToolCallChunk.argumentsLength).sum

theorem ToolCallChunk.grows_argumentsSlots (tc : ToolCallChunk) :
    ∀ s ∈ tc.argumentsSlots, s.Grows String.length ToolCallChunk.argumentsLength := by
  intro s hs
  obtain ⟨s', hs', rfl⟩ := List.mem_map.1 hs
  have htext : ∀ f : FunctionCallChunk, ∀ s ∈ f.argumentsSlots,
      s.Grows String.length fun f => (f.arguments.map String.length).getD 0 := by
    intro f s hs
    obtain ⟨s', hs', rfl⟩ := List.mem_map.1 hs
    have hself : ∀ t ∈ f.arguments, ∀ s ∈ [self t], s.Grows String.length String.length := by
      intro t _ s hs
      obtain rfl := List.mem_singleton.1 hs
      exact ⟨0, fun t => (Nat.zero_add _).symm⟩
    have hoption : ∀ s ∈ inOption (fun t => [self t]) f.arguments,
        s.Grows String.length fun o => (o.map String.length).getD 0 :=
      grows_inOption hself ⟨0, fun _ => (Nat.zero_add _).symm⟩
    exact hoption s' hs'
  have hoption : ∀ s ∈ inOption FunctionCallChunk.argumentsSlots tc.function,
      s.Grows String.length fun f => ToolCallChunk.argumentsLength { tc with function := f } :=
    grows_inOption (fun f _ => htext f) ⟨0, fun _ => (Nat.zero_add _).symm⟩
  exact hoption s' hs'

theorem ChunkChoice.grows_argumentsSlots (c : ChunkChoice) (mask : String → String) :
    ∀ s ∈ c.argumentsSlots, s.Grows String.length fun c => (maskChunkChoice mask c).argumentsLength := by
  intro s hs
  obtain ⟨s', hs', rfl⟩ := List.mem_map.1 hs
  obtain ⟨s'', hs'', rfl⟩ := List.mem_map.1 hs'
  have hcalls : ∀ tcs ∈ c.delta.toolCalls, ∀ s ∈ inList ToolCallChunk.argumentsSlots tcs,
      s.Grows String.length fun tcs => (tcs.map ToolCallChunk.argumentsLength).sum :=
    fun tcs _ => grows_inList fun tc _ => tc.grows_argumentsSlots
  have hoption : ∀ s ∈ inOption (inList ToolCallChunk.argumentsSlots) c.delta.toolCalls,
      s.Grows String.length fun tcs =>
        (maskChunkChoice mask { c with delta := { c.delta with toolCalls := tcs } }).argumentsLength :=
    grows_inOption hcalls ⟨0, fun _ => (Nat.zero_add _).symm⟩
  exact hoption s'' hs''

/-- A chunk carries no text of tool call arguments. -/
def ChatCompletionChunk.NoArguments (c : ChatCompletionChunk) : Prop :=
  ∀ choice ∈ c.choices, ∀ tc ∈ choice.delta.toolCalls.getD [], tc.function.bind (·.arguments) = none

theorem ChunkChoice.argumentsSlots_eq_nil (c : ChunkChoice) : c.argumentsSlots = [] ↔
    ∀ tc ∈ c.delta.toolCalls.getD [], tc.function.bind (·.arguments) = none := by
  have hcall : ∀ tc : ToolCallChunk,
      tc.argumentsSlots = [] ↔ tc.function.bind (·.arguments) = none := by
    intro tc
    unfold ToolCallChunk.argumentsSlots
    rw [List.map_eq_nil_iff, inOption_eq_nil]
    cases hf : tc.function with
    | none => simp
    | some f =>
      simp only [Option.mem_def, Option.some.injEq, forall_eq', Option.bind_some]
      unfold FunctionCallChunk.argumentsSlots
      rw [List.map_eq_nil_iff, inOption_eq_nil]
      cases f.arguments <;> simp
  unfold ChunkChoice.argumentsSlots Delta.argumentsSlots
  rw [List.map_eq_nil_iff, List.map_eq_nil_iff, inOption_eq_nil]
  cases c.delta.toolCalls with
  | none => simp
  | some tcs => simp [inList_eq_nil, hcall]

/-- A chunk is covered iff it carries no arguments. -/
theorem passed_chunk_iff (c : ChatCompletionChunk) : (∀ s ∈ c.egressSlots,
    Passed (fun process => maskChunk (postGuardrailText process advanced)) s) ↔ c.NoArguments := by
  constructor
  · intro h choice hchoice
    have hnone : inList ChunkChoice.argumentsSlots c.choices = [] := by
      refine List.eq_nil_iff_forall_not_mem.2 fun s hs => ?_
      have hpassed := h _ (List.mem_map_of_mem (mem_inList_append.2 (.inr hs))) fun _ => ""
      have hgrows : s.Grows String.length fun cs => ((cs.map
          (maskChunkChoice (postGuardrailText (fun _ => "") advanced))).map
            ChunkChoice.argumentsLength).sum := by
        simp only [List.map_map]
        exact grows_inList (fun c _ => c.grows_argumentsSlots _) s hs
      have hnot : ¬s.Factors (fun _ => "") fun cs =>
          maskChunk (postGuardrailText (fun _ => "") advanced) { c with choices := cs } :=
        Grows.not_factors (fun c => (c.choices.map ChunkChoice.argumentsLength).sum) hgrows "" "x"
          rfl (by decide)
      exact hnot hpassed
    exact choice.argumentsSlots_eq_nil.1 (inList_eq_nil.1 hnone choice hchoice)
  · intro h s hs process
    obtain ⟨s', hs', rfl⟩ := List.mem_map.1 hs
    rcases mem_inList_append.1 hs' with hs' | hs'
    · have hmask := postGuardrailText_factors process advanced
      refine factors_lift (factors_inList (fun c _ => c.factors_maskedSlots hmask) s' hs')
        fun x y hxy => ?_
      simp only [maskChunk_eq, hxy]
    · rw [inList_eq_nil.2 fun c hc => c.argumentsSlots_eq_nil.2 (h c hc)] at hs'
      simp at hs'

/-- An error that shows no upstream text. -/
def ProviderError.Discreet (e : ProviderError) : Prop :=
  ∃ provider status body, e = .auth provider status body

theorem ProviderError.grows_quotedSlots (e : ProviderError) :
    ∀ s ∈ e.quotedSlots, s.Grows String.length fun e => e.display.length := by
  intro s hs
  cases e with
  | timeout p d | network p d | rateLimited p ra d | badRequest p st d | upstream5xx p st d =>
    obtain rfl := List.mem_singleton.1 hs
    exact ⟨_, fun t => String.length_append _ _⟩
  | translation d =>
    obtain rfl := List.mem_singleton.1 hs
    exact ⟨0, fun t => (Nat.zero_add _).symm⟩
  | auth p st b => simp [quotedSlots] at hs

/-- The length of an error frame's message. -/
def Frame.messageLength : Frame → ℕ
  | .error m => m.length
  | _ => 0

/-- **An error frame is covered iff it quotes nothing.** -/
theorem passed_error_iff (e : ProviderError) : (∀ s ∈ e.quotedSlots,
    Passed (fun _ e => terminalFrame (some e.display)) s) ↔ e.Discreet := by
  have hquotes : ∀ s ∈ e.quotedSlots,
      ¬Passed (fun _ e => terminalFrame (some e.display)) s := by
    intro s hs hpassed
    obtain ⟨c, hc⟩ := e.grows_quotedSlots s hs
    have hframe : s.Grows String.length fun e => (terminalFrame (some e.display)).messageLength := by
      refine ⟨"stream truncated: ".length + c, fun t => ?_⟩
      have hd : (s.put t).display.length = c + t.length := hc t
      unfold terminalFrame Frame.messageLength
      simp only [String.length_append, hd]
      omega
    have hnot : ¬s.Factors (fun _ => "") fun e => terminalFrame (some e.display) :=
      Grows.not_factors Frame.messageLength hframe "" "x" rfl (by decide)
    exact hnot (hpassed fun _ => "")
  constructor
  · intro h
    cases e with
    | auth p st b => exact ⟨p, st, b, rfl⟩
    | timeout p d | network p d | translation d | rateLimited p ra d | badRequest p st d
    | upstream5xx p st d =>
      exact absurd (h _ List.mem_cons_self) (hquotes _ List.mem_cons_self)
  · rintro ⟨p, st, b, rfl⟩ s hs
    simp [ProviderError.quotedSlots] at hs

/-- An answer with no tool call arguments and no upstream text in its error frame. -/
def EgressReply.Plain : EgressReply → Prop
  | .buffered r => ∀ c ∈ r.choices, c.message.toolCalls.getD [] = []
  | .streamed ctx first polls => ∀ item ∈ shownItems ctx first ⟨.created, {}⟩ polls,
    match item with
    | .ok c => c.NoArguments
    | .error e => e.Discreet

theorem egressMasked_iff (reply : EgressReply) : EgressMasked advanced reply ↔ reply.Plain := by
  cases reply with
  | buffered r => exact egressMasked_buffered_iff r
  | streamed ctx first polls =>
    refine forall₂_congr fun item _ => ?_
    cases item with
    | ok c => exact passed_chunk_iff c
    | error e => exact passed_error_iff e

end

/-! ## The frames of a stream -/

section

variable {ctx : StreamContext} {first : ChatCompletionChunk}

/-- A frame shows an item: the chunk masked, or the error as the terminal frame. -/
def Shows (ctx : StreamContext) (f : Frame) : Except ProviderError ChatCompletionChunk → Prop
  | .ok c => ∃ json, f = .chunk (maskChunk ctx.mask c) json
  | .error e => f = terminalFrame (some e.display)

/-- A terminal frame in the gateway's own words. -/
def OwnFrame (ctx : StreamContext) (f : Frame) : Prop :=
  f = .done ∨ f = terminalFrame (some "internal chunk serialization failure") ∨
    f = terminalFrame
      (some ("no data from upstream provider for " ++ toString ctx.idleMs ++ "ms"))

theorem frames_forwardChunk {s : StreamLocals} {c : ChatCompletionChunk} {log : BodyLog} {f : Frame}
    (hf : f ∈ (forwardChunk ctx s c log).log.frames) :
    f ∈ log.frames ∨ OwnFrame ctx f ∨ ctx.sends c = true ∧ Shows ctx f (.ok c) := by
  unfold forwardChunk at hf
  simp only at hf
  split at hf
  · rename_i json hjson
    rcases List.mem_append.1 hf with hf | hf
    · exact .inl hf
    · refine .inr (.inr ⟨?_, json, List.mem_singleton.1 hf⟩)
      unfold StreamContext.sends
      rw [hjson]
      rfl
  · rcases List.mem_append.1 hf with hf | hf
    · exact .inl hf
    · exact .inr (.inl (.inr (.inl (List.mem_singleton.1 hf))))

/-- What the loop sends at one item, while it is open. -/
theorem frames_continueLoop {b : Body} {next : NextItem} {f : Frame} {s : StreamLocals}
    (hgen : b.gen = .awaiting s ∨ b.gen = .yielded s)
    (hf : f ∈ (continueLoop ctx s next b.log).log.frames) :
    f ∈ b.log.frames ∨ OwnFrame ctx f ∨ ∃ item ∈ shownItem ctx first b next, Shows ctx f item := by
  unfold shownItem
  cases next with
  | pending => exact .inl hf
  | item r =>
    cases r with
    | ok c =>
      rcases frames_forwardChunk hf with hf | hf | ⟨hsends, hshows⟩
      · exact .inl hf
      · exact .inr (.inl hf)
      · refine .inr (.inr ⟨.ok c, ?_, hshows⟩)
        rcases hgen with hgen | hgen <;> simp [hgen, hsends]
    | error e =>
      rcases List.mem_append.1 hf with hf | hf
      · exact .inl hf
      · refine .inr (.inr ⟨.error e, ?_, List.mem_singleton.1 hf⟩)
        rcases hgen with hgen | hgen <;> simp [hgen]
  | ended =>
    rcases List.mem_append.1 hf with hf | hf
    · exact .inl hf
    · exact .inr (.inl (.inl (List.mem_singleton.1 hf)))
  | elapsed =>
    unfold continueLoop at hf
    simp only at hf
    split at hf
    · exact .inl hf
    · rcases List.mem_append.1 hf with hf | hf
      · exact .inl hf
      · exact .inr (.inl (.inr (.inr (List.mem_singleton.1 hf))))

/-- What one poll adds to the frames shows the item it took in, or is the gateway's own. -/
theorem frames_poll {b : Body} {next : NextItem} {f : Frame}
    (hf : f ∈ (poll ctx first b next).log.frames) :
    f ∈ b.log.frames ∨ OwnFrame ctx f ∨ ∃ item ∈ shownItem ctx first b next, Shows ctx f item := by
  unfold poll at hf
  split at hf
  · rename_i hgen
    rcases frames_forwardChunk hf with hf | hf | ⟨hsends, hshows⟩
    · exact .inl hf
    · exact .inr (.inl hf)
    · refine .inr (.inr ⟨.ok first, ?_, hshows⟩)
      unfold shownItem
      simp [hgen, hsends]
  · rename_i s hgen
    exact frames_continueLoop (.inl hgen) hf
  · rename_i s hgen
    exact frames_continueLoop (.inr hgen) hf
  · exact .inl hf
  · exact .inl hf

/-- **Every frame of a stream shows an item taken in, or is the gateway's own.** By induction on
the polls. -/
theorem frames_runPolls (polls : List NextItem) {b : Body} {f : Frame}
    (hf : f ∈ (polls.foldl (poll ctx first) b).log.frames) :
    f ∈ b.log.frames ∨ OwnFrame ctx f ∨ ∃ item ∈ shownItems ctx first b polls, Shows ctx f item := by
  induction polls generalizing b with
  | nil => exact .inl hf
  | cons next polls ih =>
    unfold shownItems
    rcases ih hf with hf | hf | ⟨item, hitem, hshows⟩
    · rcases frames_poll hf with hf | hf | ⟨item, hitem, hshows⟩
      · exact .inl hf
      · exact .inr (.inl hf)
      · refine .inr (.inr ⟨item, List.mem_append_left _ ?_, hshows⟩)
        exact Option.mem_toList.2 hitem
    · exact .inr (.inl hf)
    · exact .inr (.inr ⟨item, List.mem_append_right _ hitem, hshows⟩)

end

/-- **Where the masking reaches.** The classifier and the ingress masking cover the same texts of a
request, and the egress masking every text of the answer, iff no message has a name or a tool
call, no answer carries tool call arguments, and no error frame quotes upstream text. -/
theorem masking_reaches_iff (params : ParamShaping) (compress : String → String)
    (compression advanced : Bool) (payload : ChatCompletionRequest) (reply : EgressReply) :
    IngressMasked params compress compression payload ∧ EgressMasked advanced reply ↔
      (∀ m ∈ payload.messages, m.name = none ∧ m.toolCalls.getD [] = []) ∧ reply.Plain := by
  rw [ingressMasked_iff, egressMasked_iff]

/-! ## What is missed -/

/-- An agent's turn with a tool call, and the same with nothing to call. -/
def toolTurn (arguments : String) : Message where
  role := "assistant"
  content := .text ""
  toolCalls := some [⟨"call_1", "function", ⟨"lookup", arguments⟩⟩]

def askWith (m : Message) : ChatCompletionRequest where
  model := "gpt-4o"
  messages := [m]

def answerWith (m : Message) : ChatCompletionResponse where
  id := "1"
  object := "chat.completion"
  created := 0
  model := "gpt-4o"
  choices := [⟨0, m, "tool_calls", none⟩]
  usage := zeroUsage

/-- **What is missed.** A replayed tool call is classified and forwarded as it came, a name is masked
and never classified, a tool call of the answer and the text of a network error reach the client
as they came. -/
theorem masking_missed :
    ¬IngressMasked .noop id false (askWith (toolTurn "ABCDE1234F")) ∧
    ¬IngressMasked .noop id false
      (askWith { role := "user", content := .text "hi", name := some "Asha" }) ∧
    ¬EgressMasked false (.buffered (answerWith (toolTurn "ABCDE1234F"))) ∧
    ¬EgressMasked false (.streamed plainContext oneChunk
      [.pending, .item (.error (.network "openai" "ABCDE1234F"))]) := by
  refine ⟨fun h => ?_, fun h => ?_, fun h => ?_, fun h => ?_⟩
  · have hm := (ingressMasked_iff.1 h _ List.mem_cons_self).2
    simp [toolTurn] at hm
  · have hm := (ingressMasked_iff.1 h _ List.mem_cons_self).1
    simp at hm
  · have hc := (egressMasked_iff _).1 h _ List.mem_cons_self
    simp [toolTurn] at hc
  · have he := (egressMasked_iff _).1 h (.error (.network "openai" "ABCDE1234F")) ?_
    · obtain ⟨p, st, b, heq⟩ := he
      cases heq
    · exact List.mem_cons_of_mem _ List.mem_cons_self

end Routeplane
