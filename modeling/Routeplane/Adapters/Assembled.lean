import Routeplane.Adapters.Provider
import Routeplane.Types.Chat
import Mathlib.Data.List.Induction
import Mathlib.Data.List.Nodup
import Mathlib.Data.List.Perm.Subperm

/-!
# What a client makes of a stream

A client adds up the chunks of a stream: texts one after the other, the fragments of a tool call
under its index, the last finish reason and the last usage.

A provider that does not stream answers a streaming request with two chunks made of its response: one
with all that the choices say, and one with their finish reasons and the usage.

* `openingChunkChoice`: what a choice says.
* `bufferedResponseAsStream`: the two chunks.
* `assemble`: the chunks added up. `Agrees`: the sum is what a buffered response says.
* `addCall_fresh`, `addCall_open`: a fragment of a new call, and of the call last opened.
* `indexed`: calls with the indices of their positions.
* `assemble_length_le`: calls are told apart by a 32-bit index.
-/

namespace Routeplane

/-- A call whole, under its position. -/
def wholeCall (i : ℕ) (tc : ToolCall) : ToolCallChunk :=
  { index := i.toUInt32, id := some tc.id, toolType := some tc.toolType
    function := some { name := some tc.function.name, arguments := some tc.function.arguments } }

def toolCallsToChunks (calls : List ToolCall) : Option (List ToolCallChunk) :=
  if calls.isEmpty then none else some (calls.mapIdx wholeCall)

def openingChunkChoice (c : Choice) : ChunkChoice :=
  let content := c.message.content.asText
  let hasToolCalls := c.message.toolCalls.any fun t => !t.isEmpty
  { index := c.index
    delta := {
      role := some "assistant"
      -- an empty text is left out of a turn that calls tools
      content := if content.isEmpty && hasToolCalls then none else some content
      toolCalls := c.message.toolCalls.bind toolCallsToChunks
      refusal := c.message.refusal
      reasoningContent := c.message.reasoningContent }
    finishReason := none
    logprobs := c.logprobs }

def closingChunkChoice (c : Choice) : ChunkChoice :=
  { index := c.index, delta := {}
    finishReason := some (if c.finishReason.isEmpty then "stop" else c.finishReason)
    logprobs := none }

def bufferedResponseAsStream (resp : ChatCompletionResponse) :
    List (Except ProviderError ChatCompletionChunk) :=
  let opening : List ChunkChoice :=
    if resp.choices.isEmpty then
      [{ index := 0, delta := { role := some "assistant", content := some "" }
         finishReason := none, logprobs := none }]
    else resp.choices.map openingChunkChoice
  let closing : List ChunkChoice :=
    if resp.choices.isEmpty then
      [{ index := 0, delta := {}, finishReason := some "stop", logprobs := none }]
    else resp.choices.map closingChunkChoice
  [.ok { id := resp.id, object := "chat.completion.chunk", created := resp.created
         model := resp.model, choices := opening, usage := none
         systemFingerprint := resp.systemFingerprint, serviceTier := resp.serviceTier },
   .ok { id := resp.id, object := "chat.completion.chunk", created := resp.created
         model := resp.model, choices := closing, usage := some resp.usage
         systemFingerprint := resp.systemFingerprint, serviceTier := resp.serviceTier }]

/-! ## What a client makes of a stream -/

structure AssembledCall where
  id : Option String := none
  toolType : Option String := none
  name : Option String := none
  arguments : String := ""
  deriving DecidableEq, Repr

structure Assembled where
  content : String := ""
  calls : List (UInt32 × AssembledCall) := []
  finishReason : Option String := none
  usage : Option Usage := none
  deriving DecidableEq, Repr

/-- A fragment of the call: what is named first stays, the arguments add up. -/
def AssembledCall.add (c : AssembledCall) (tc : ToolCallChunk) : AssembledCall where
  id := c.id.or tc.id
  toolType := c.toolType.or tc.toolType
  name := c.name.or (tc.function.bind (·.name))
  arguments := c.arguments ++ (tc.function.bind (·.arguments)).getD ""

/-- A fragment goes to the call of its index. -/
def addCall (tc : ToolCallChunk) : List (UInt32 × AssembledCall) → List (UInt32 × AssembledCall)
  | [] => [(tc.index, ({} : AssembledCall).add tc)]
  | (i, c) :: calls =>
    if i = tc.index then (i, c.add tc) :: calls else (i, c) :: addCall tc calls

namespace Assembled

def addChoice (a : Assembled) (c : ChunkChoice) : Assembled where
  content := a.content ++ c.delta.content.getD ""
  calls := (c.delta.toolCalls.getD []).foldl (fun calls tc => addCall tc calls) a.calls
  finishReason := c.finishReason.or a.finishReason
  usage := a.usage

/-- Only the first choice is looked at. -/
def addChunk (a : Assembled) (chunk : ChatCompletionChunk) : Assembled :=
  let a := (chunk.choices.filter (·.index = 0)).foldl addChoice a
  { a with usage := chunk.usage.or a.usage }

def addChunks (a : Assembled) (chunks : List ChatCompletionChunk) : Assembled :=
  chunks.foldl addChunk a

end Assembled

def assemble (chunks : List ChatCompletionChunk) : Assembled := ({} : Assembled).addChunks chunks

/-- One call, as it adds up and as a response has it. -/
structure SameCall (sameArguments : String → String → Prop) (c : AssembledCall) (t : ToolCall) :
    Prop where
  id : c.id = some t.id
  toolType : c.toolType = some t.toolType
  name : c.name = some t.function.name
  arguments : sameArguments c.arguments t.function.arguments

/-- A stream adds up to a response of one choice. -/
structure Agrees (sameArguments : String → String → Prop) (a : Assembled) (c : Choice)
    (usage : Usage) : Prop where
  content : a.content = c.message.content.asText
  indices : a.calls.map (·.1) = (List.range a.calls.length).map Nat.toUInt32
  calls : List.Forall₂ (SameCall sameArguments) (a.calls.map (·.2)) (c.message.toolCalls.getD [])
  finishReason : a.finishReason = some c.finishReason
  usage : a.usage = some usage

/-- The items of a stream are chunks only, and add up to the only choice of a response. -/
def StreamAgrees {ε : Type} (sameArguments : String → String → Prop)
    (items : List (Except ε ChatCompletionChunk)) (r : ChatCompletionResponse) : Prop :=
  ∃ chunks c, items = chunks.map .ok ∧ r.choices = [c] ∧
    Agrees sameArguments (assemble chunks) c r.usage

/-! ## Adding up -/

variable {a : Assembled} {tc : ToolCallChunk} {calls : List (UInt32 × AssembledCall)}
  {c : AssembledCall}

theorem addCall_fresh (tc : ToolCallChunk) (h : ∀ e ∈ calls, e.1 ≠ tc.index) :
    addCall tc calls = calls ++ [(tc.index, ({} : AssembledCall).add tc)] := by
  induction calls with
  | nil => rfl
  | cons e calls ih =>
    obtain ⟨i, c⟩ := e
    have hi : i ≠ tc.index := h _ List.mem_cons_self
    rw [addCall, if_neg hi, ih fun e he => h e (List.mem_cons_of_mem _ he)]
    rfl

/-- A first fragment that names the call. -/
theorem addCall_opens {i : UInt32} (id toolType name : Option String) (arguments : String)
    (h : ∀ e ∈ calls, e.1 ≠ i) :
    addCall { index := i, id := id, toolType := toolType, function := some ⟨name, some arguments⟩ }
      calls = calls ++ [(i, ⟨id, toolType, name, arguments⟩)] := by
  have hnew := addCall_fresh {
    index := i, id := id, toolType := toolType, function := some ⟨name, some arguments⟩ } h
  rw [hnew]
  simp [AssembledCall.add]

theorem addCall_open (tc : ToolCallChunk) (h : ∀ e ∈ calls, e.1 ≠ tc.index) :
    addCall tc (calls ++ [(tc.index, c)]) = calls ++ [(tc.index, c.add tc)] := by
  induction calls with
  | nil => rw [List.nil_append, addCall, if_pos rfl]; rfl
  | cons e calls ih =>
    obtain ⟨i, c'⟩ := e
    have hi : i ≠ tc.index := h _ List.mem_cons_self
    rw [List.cons_append, addCall, if_neg hi, ih fun e he => h e (List.mem_cons_of_mem _ he)]
    rfl

/-- The calls keep the indices they have, and may get one more. -/
theorem addCall_indices (tc : ToolCallChunk) (calls : List (UInt32 × AssembledCall)) :
    (addCall tc calls).map (·.1) = calls.map (·.1) ∨
      ((∀ e ∈ calls, e.1 ≠ tc.index) ∧
        (addCall tc calls).map (·.1) = calls.map (·.1) ++ [tc.index]) := by
  induction calls with
  | nil => exact .inr ⟨nofun, rfl⟩
  | cons e calls ih =>
    obtain ⟨i, c⟩ := e
    rw [addCall]
    split
    · exact .inl rfl
    · rename_i hi
      rcases ih with hsame | ⟨hfresh, hmore⟩
      · exact .inl (by rw [List.map_cons, hsame]; rfl)
      · refine .inr ⟨?_, by rw [List.map_cons, hmore]; rfl⟩
        intro e he
        rcases List.mem_cons.1 he with rfl | he
        · exact hi
        · exact hfresh e he

theorem addCall_nodup (h : (calls.map (·.1)).Nodup) : ((addCall tc calls).map (·.1)).Nodup := by
  rcases addCall_indices tc calls with hsame | ⟨hfresh, hmore⟩
  · rw [hsame]
    exact h
  · rw [hmore, List.nodup_append]
    refine ⟨h, List.nodup_singleton _, ?_⟩
    intro i hi j hj
    obtain ⟨e, he, rfl⟩ := List.mem_map.1 hi
    rw [List.mem_singleton.1 hj]
    exact hfresh e he

/-- What every fragment preserves of the calls, every chunk preserves. -/
theorem Assembled.calls_induction {p : List (UInt32 × AssembledCall) → Prop}
    (hstep : ∀ tc calls, p calls → p (addCall tc calls)) (chunks : List ChatCompletionChunk) :
    ∀ {a : Assembled}, p a.calls → p (a.addChunks chunks).calls := by
  have hfragments : ∀ (tcs : List ToolCallChunk) calls, p calls →
      p (tcs.foldl (fun calls tc => addCall tc calls) calls) := by
    intro tcs
    induction tcs with
    | nil => exact fun _ h => h
    | cons tc tcs ih => exact fun calls h => ih _ (hstep tc calls h)
  have hchoices : ∀ (cs : List ChunkChoice) (a : Assembled), p a.calls →
      p (cs.foldl Assembled.addChoice a).calls := by
    intro cs
    induction cs with
    | nil => exact fun _ h => h
    | cons c cs ih => exact fun a h => ih _ (hfragments _ _ h)
  induction chunks with
  | nil => exact fun h => h
  | cons chunk chunks ih => exact fun h => ih (hchoices _ _ h)

theorem nodup_uint32_length_le {is : List UInt32} (h : is.Nodup) : is.length ≤ 2 ^ 32 := by
  have hnat : (is.map UInt32.toNat).Nodup :=
    (List.nodup_map_iff (fun _ _ heq => UInt32.toNat_inj.1 heq)).2 h
  have hsub : is.map UInt32.toNat ⊆ List.range (2 ^ 32) := by
    intro n hn
    obtain ⟨i, -, rfl⟩ := List.mem_map.1 hn
    exact List.mem_range.2 i.toNat_lt
  have hle := (hnat.subperm hsub).length_le
  rwa [List.length_map, List.length_range] at hle

/-- **No more calls than indices.** -/
theorem assemble_length_le (chunks : List ChatCompletionChunk) :
    (assemble chunks).calls.length ≤ 2 ^ 32 := by
  have hnodup : ((assemble chunks).calls.map (·.1)).Nodup :=
    Assembled.calls_induction (p := fun calls => (calls.map (·.1)).Nodup)
      (fun _ _ h => addCall_nodup h) chunks (a := {}) List.nodup_nil
  have hle := nodup_uint32_length_le hnodup
  rwa [List.length_map] at hle

theorem Assembled.addChunks_append (a : Assembled) (chunks more : List ChatCompletionChunk) :
    a.addChunks (chunks ++ more) = (a.addChunks chunks).addChunks more := List.foldl_append ..

/-- A chunk of one choice. -/
theorem Assembled.addChunk_ofDelta (a : Assembled) (id model : String) (created : ℕ) (delta : Delta)
    (finishReason : Option String) (usage : Option Usage) :
    a.addChunk (.ofDelta id model created delta finishReason usage) =
      { content := a.content ++ delta.content.getD ""
        calls := (delta.toolCalls.getD []).foldl (fun calls tc => addCall tc calls) a.calls
        finishReason := finishReason.or a.finishReason
        usage := usage.or a.usage } := rfl

/-- A chunk of one fragment. -/
theorem Assembled.addChunks_call (a : Assembled) (id model : String) (created : ℕ)
    (tc : ToolCallChunk) : a.addChunks [.ofDelta id model created { toolCalls := some [tc] }] =
      { a with calls := addCall tc a.calls } := by
  have hadd := a.addChunk_ofDelta id model created { toolCalls := some [tc] } none none
  rw [Option.getD_none, String.append_empty] at hadd
  exact hadd

/-- Pieces of text, one after the other. -/
theorem Assembled.addChunks_texts (give : String → List ChatCompletionChunk)
    (hgive : ∀ (a : Assembled) piece,
      a.addChunks (give piece) = { a with content := a.content ++ piece }) (pieces : List String) :
    ∀ a : Assembled, a.addChunks (pieces.flatMap give) =
      { a with content := a.content ++ String.join pieces } := by
  induction pieces with
  | nil =>
    intro a
    rw [String.join_nil, String.append_empty]
    rfl
  | cons piece pieces ih =>
    intro a
    rw [List.flatMap_cons, addChunks_append, hgive, ih, String.join_cons, ← String.append_assoc]

/-- Fragments of the arguments of the call last opened. -/
theorem Assembled.addChunks_fragments (give : String → List ChatCompletionChunk) {i : UInt32}
    (hgive : ∀ (a : Assembled) piece, a.addChunks (give piece) = { a with calls := addCall {
      index := i, id := none, toolType := none, function := some ⟨none, some piece⟩ } a.calls })
    (hfresh : ∀ e ∈ calls, e.1 ≠ i) (pieces : List String) :
    ∀ (a : Assembled) c, a.calls = calls ++ [(i, c)] → a.addChunks (pieces.flatMap give) = { a with
      calls := calls ++ [(i, { c with arguments := c.arguments ++ String.join pieces })] } := by
  induction pieces with
  | nil =>
    intro a c hcalls
    rw [String.join_nil, String.append_empty, ← hcalls]
    rfl
  | cons piece pieces ih =>
    intro a c hcalls
    have hopen := addCall_open (c := c) {
      index := i, id := none, toolType := none, function := some ⟨none, some piece⟩ } hfresh
    rw [List.flatMap_cons, addChunks_append, hgive, hcalls, hopen,
      ih _ { c with arguments := c.arguments ++ piece } (by simp [AssembledCall.add]),
      String.join_cons, ← String.append_assoc]

/-- The calls with the indices of their positions. -/
def indexed (calls : List AssembledCall) : List (UInt32 × AssembledCall) :=
  calls.mapIdx fun i c => (i.toUInt32, c)

theorem indexed_snoc (calls : List AssembledCall) (c : AssembledCall) :
    indexed (calls ++ [c]) = indexed calls ++ [(calls.length.toUInt32, c)] := by
  unfold indexed
  rw [List.mapIdx_concat]

theorem indexed_length (calls : List AssembledCall) : (indexed calls).length = calls.length :=
  List.length_mapIdx

theorem indexed_map_snd (calls : List AssembledCall) : (indexed calls).map (·.2) = calls := by
  induction calls using List.reverseRecOn with
  | nil => rfl
  | append_singleton calls c ih => rw [indexed_snoc, List.map_append, ih]; rfl

theorem indexed_map_fst (calls : List AssembledCall) :
    (indexed calls).map (·.1) = (List.range calls.length).map Nat.toUInt32 := by
  induction calls using List.reverseRecOn with
  | nil => rfl
  | append_singleton calls c ih =>
    rw [indexed_snoc, List.map_append, ih, List.length_append, List.length_singleton,
      List.range_succ, List.map_append]
    rfl

/-- The next position is no index yet. -/
theorem indexed_fresh {calls : List AssembledCall} (h : calls.length < 2 ^ 32) :
    ∀ e ∈ indexed calls, e.1 ≠ calls.length.toUInt32 := by
  intro e he heq
  have hmem : e.1 ∈ (indexed calls).map (·.1) := List.mem_map_of_mem he
  rw [indexed_map_fst] at hmem
  obtain ⟨i, hi, hidx⟩ := List.mem_map.1 hmem
  have hlt := List.mem_range.1 hi
  have hnat := congrArg UInt32.toNat (hidx.trans heq)
  simp only [Nat.toUInt32, UInt32.toNat_ofNat'] at hnat
  rw [Nat.mod_eq_of_lt (by omega), Nat.mod_eq_of_lt h] at hnat
  omega

theorem getD_of_isEmpty {α : Type} (l : List α) :
    (if l.isEmpty then none else some l).getD [] = l := by
  cases l <;> rfl

end Routeplane
