import Routeplane.Adapters.Assembled
import Routeplane.Lib.Rollup

/-!
# A buffered response streamed is the same response

A client that keeps every choice adds up the chunks of a stream under the choices' indices, and the
fragments of a tool call under its index there. From the two chunks of a buffered response it gets
the response back. Calls have indices of 32 bits, so a choice with more calls than that is not one a
stream can carry.

* `collect`: the chunks added up, choice by choice.
* `collect_buffered`: what the two chunks add up to.
* `foldl_addCall_whole`: the calls of a choice, sent whole.
* `buffered_stream_same_iff`: the response comes back, and when.
* `many_calls_merge`: a choice with one call too many.
-/

namespace Routeplane

/-! ## What a client makes of all choices -/

structure CollectedChoice where
  content : String := ""
  calls : List (UInt32 × AssembledCall) := []
  refusal : Option String := none
  reasoningContent : Option String := none
  logprobs : Option Value := none
  finishReason : Option String := none

/-- Texts one after the other; a text that is absent adds nothing. -/
def addText : Option String → Option String → Option String
  | none, piece => piece
  | some text, piece => some (text ++ piece.getD "")

def CollectedChoice.add (d : CollectedChoice) (c : ChunkChoice) : CollectedChoice where
  content := d.content ++ c.delta.content.getD ""
  calls := (c.delta.toolCalls.getD []).foldl (fun calls tc => addCall tc calls) d.calls
  refusal := addText d.refusal c.delta.refusal
  reasoningContent := addText d.reasoningContent c.delta.reasoningContent
  logprobs := d.logprobs.or c.logprobs
  finishReason := c.finishReason.or d.finishReason

structure Collected where
  id : Option String := none
  model : Option String := none
  choices : List (UInt32 × CollectedChoice) := []
  usage : Option Usage := none
  systemFingerprint : Option String := none
  serviceTier : Option String := none

/-- Each choice of a chunk goes to the choice of its index. -/
def Collected.addChunk (a : Collected) (chunk : ChatCompletionChunk) : Collected where
  id := a.id.or (some chunk.id)
  model := a.model.or (some chunk.model)
  choices := chunk.choices.foldl (Grouped.put (·.index) CollectedChoice.add {}) a.choices
  usage := chunk.usage.or a.usage
  systemFingerprint := a.systemFingerprint.or chunk.systemFingerprint
  serviceTier := a.serviceTier.or chunk.serviceTier

def collect (chunks : List ChatCompletionChunk) : Collected := chunks.foldl Collected.addChunk {}

/-! ## The same response -/

/-- A choice as it adds up, and as the response has it. -/
structure SameChoice (d : CollectedChoice) (c : Choice) : Prop where
  content : d.content = c.message.content.asText
  indices : d.calls.map (·.1) = (List.range d.calls.length).map Nat.toUInt32
  calls : List.Forall₂ (SameCall Eq) (d.calls.map (·.2)) (c.message.toolCalls.getD [])
  refusal : d.refusal = c.message.refusal
  reasoningContent : d.reasoningContent = c.message.reasoningContent
  logprobs : d.logprobs = c.logprobs
  finishReason : d.finishReason = some (if c.finishReason.isEmpty then "stop" else c.finishReason)

/-- The choice a response without choices is streamed as. -/
def noChoice : Choice where
  index := 0
  message := { role := "assistant", content := .text "" }
  finishReason := "stop"

def spoken (resp : ChatCompletionResponse) : List Choice :=
  if resp.choices.isEmpty then [noChoice] else resp.choices

structure SameResponse (a : Collected) (resp : ChatCompletionResponse) : Prop where
  id : a.id = some resp.id
  model : a.model = some resp.model
  choices : List.Forall₂ (fun e c => e.1 = c.index ∧ SameChoice e.2 c) a.choices (spoken resp)
  usage : a.usage = some resp.usage
  systemFingerprint : a.systemFingerprint = resp.systemFingerprint
  serviceTier : a.serviceTier = resp.serviceTier

/-- The items of the stream are chunks, and add up to the response. -/
def StreamsBack (resp : ChatCompletionResponse) : Prop :=
  ∃ chunks, bufferedResponseAsStream resp = chunks.map .ok ∧ SameResponse (collect chunks) resp

/-! ## The two chunks -/

variable {resp : ChatCompletionResponse} {c : Choice}

/-- What a choice adds up to. -/
def spokenChoice (c : Choice) : CollectedChoice where
  content := c.message.content.asText
  calls := ((c.message.toolCalls.bind toolCallsToChunks).getD []).foldl
    (fun calls tc => addCall tc calls) []
  refusal := c.message.refusal
  reasoningContent := c.message.reasoningContent
  logprobs := c.logprobs
  finishReason := some (if c.finishReason.isEmpty then "stop" else c.finishReason)

theorem addText_none (text : Option String) : addText text none = text := by
  cases text with
  | none => rfl
  | some text => rw [addText, Option.getD_none, String.append_empty]

/-- A text that is left out is empty. -/
theorem opening_content (c : Choice) :
    (openingChunkChoice c).delta.content.getD "" = c.message.content.asText := by
  unfold openingChunkChoice
  dsimp only
  split
  · rename_i hempty
    rw [Bool.and_eq_true] at hempty
    rw [String.isEmpty_iff.1 hempty.1, Option.getD_none]
  · rfl

/-- The opening and the closing part of a choice, added up. -/
theorem add_opening_closing (c : Choice) :
    (CollectedChoice.add {} (openingChunkChoice c)).add (closingChunkChoice c) = spokenChoice c := by
  have hcontent : "" ++ (openingChunkChoice c).delta.content.getD "" ++ "" =
      c.message.content.asText := by
    rw [opening_content, String.empty_append, String.append_empty]
  have hlogprobs : ((none : Option Value).or c.logprobs).or none = c.logprobs := by
    rw [Option.none_or, Option.or_none]
  have hrefusal : addText (addText none c.message.refusal) none = c.message.refusal :=
    addText_none _
  have hreasoning : addText (addText none c.message.reasoningContent) none =
      c.message.reasoningContent := addText_none _
  have hadd : (CollectedChoice.add {} (openingChunkChoice c)).add (closingChunkChoice c) =
      { content := "" ++ (openingChunkChoice c).delta.content.getD "" ++ ""
        calls := (spokenChoice c).calls
        refusal := addText (addText none c.message.refusal) none
        reasoningContent := addText (addText none c.message.reasoningContent) none
        logprobs := ((none : Option Value).or c.logprobs).or none
        finishReason := (spokenChoice c).finishReason } := rfl
  rw [hadd, hcontent, hlogprobs, hrefusal, hreasoning]
  rfl

/-- A response without choices is streamed as one that has the empty choice. -/
theorem buffered_eq (resp : ChatCompletionResponse) :
    bufferedResponseAsStream resp =
      [{ id := resp.id, object := "chat.completion.chunk", created := resp.created
         model := resp.model, choices := (spoken resp).map openingChunkChoice
         systemFingerprint := resp.systemFingerprint, serviceTier := resp.serviceTier },
       { id := resp.id, object := "chat.completion.chunk", created := resp.created
         model := resp.model, choices := (spoken resp).map closingChunkChoice
         usage := some resp.usage, systemFingerprint := resp.systemFingerprint
         serviceTier := resp.serviceTier }].map .ok := by
  unfold bufferedResponseAsStream spoken
  split <;> rfl

theorem spoken_nodup (h : (resp.choices.map (·.index)).Nodup) :
    ((spoken resp).map (·.index)).Nodup := by
  unfold spoken
  split
  · exact List.nodup_singleton _
  · exact h

/-- **What the chunks of a buffered response add up to.** -/
theorem collect_buffered (hnodup : (resp.choices.map (·.index)).Nodup)
    {chunks : List ChatCompletionChunk} (h : bufferedResponseAsStream resp = chunks.map .ok) :
    collect chunks = {
      id := some resp.id, model := some resp.model
      choices := (spoken resp).map fun c => (c.index, spokenChoice c)
      usage := some resp.usage, systemFingerprint := resp.systemFingerprint
      serviceTier := resp.serviceTier } := by
  have hspoken := spoken_nodup hnodup
  have hchunks : chunks =
      [{ id := resp.id, object := "chat.completion.chunk", created := resp.created
         model := resp.model, choices := (spoken resp).map openingChunkChoice
         systemFingerprint := resp.systemFingerprint, serviceTier := resp.serviceTier },
       { id := resp.id, object := "chat.completion.chunk", created := resp.created
         model := resp.model, choices := (spoken resp).map closingChunkChoice
         usage := some resp.usage, systemFingerprint := resp.systemFingerprint
         serviceTier := resp.serviceTier }] := by
    rw [buffered_eq] at h
    exact (List.map_injective_iff.2 (fun _ _ heq => Except.ok.inj heq) h).symm
  -- the opening chunk opens the choices, the closing chunk finds them
  have hkeys : ((spoken resp).map openingChunkChoice).map (·.index) =
      (spoken resp).map (·.index) := by
    rw [List.map_map]
    rfl
  have hopening : ((spoken resp).map openingChunkChoice).foldl
      (Grouped.put (·.index) CollectedChoice.add {}) [] =
      (spoken resp).map fun c => (c.index, CollectedChoice.add {} (openingChunkChoice c)) := by
    rw [Grouped.foldl_put_fresh (hkeys ▸ hspoken) fun _ _ _ he => absurd he List.not_mem_nil,
      List.nil_append, List.map_map]
    rfl
  have hclosing : ((spoken resp).map closingChunkChoice).foldl
      (Grouped.put (·.index) CollectedChoice.add {})
      ((spoken resp).map fun c => (c.index, CollectedChoice.add {} (openingChunkChoice c))) =
      (spoken resp).map fun c => (c.index, spokenChoice c) := by
    have hknown : ((spoken resp).map closingChunkChoice).foldl
        (Grouped.put (·.index) CollectedChoice.add {})
        ([] ++ (spoken resp).map fun c => (c.index, CollectedChoice.add {} (openingChunkChoice c))) =
        [] ++ (spoken resp).map fun c =>
          (c.index, (CollectedChoice.add {} (openingChunkChoice c)).add (closingChunkChoice c)) :=
      Grouped.foldl_put_known closingChunkChoice (fun _ => rfl)
        (fun c => CollectedChoice.add {} (openingChunkChoice c)) hspoken
        fun _ _ _ he => absurd he List.not_mem_nil
    rw [List.nil_append, List.nil_append] at hknown
    rw [hknown]
    exact List.map_congr_left fun c _ => congrArg (Prod.mk c.index) (add_opening_closing c)
  have hfingerprint : ((none : Option String).or resp.systemFingerprint).or
      resp.systemFingerprint = resp.systemFingerprint := by
    rw [Option.none_or, Option.or_self]
  have htier : ((none : Option String).or resp.serviceTier).or resp.serviceTier =
      resp.serviceTier := by
    rw [Option.none_or, Option.or_self]
  rw [hchunks]
  simp only [collect, List.foldl_cons, List.foldl_nil, Collected.addChunk, hopening, hclosing,
    hfingerprint, htier]
  rfl

/-! ## The calls of a choice -/

def AssembledCall.whole (t : ToolCall) : AssembledCall :=
  ⟨some t.id, some t.toolType, some t.function.name, t.function.arguments⟩

theorem sameCall_whole (t : ToolCall) : SameCall Eq (AssembledCall.whole t) t := ⟨rfl, rfl, rfl, rfl⟩

/-- **Calls sent whole, each under its position, add up to themselves.** By induction from the last
call, whose position is no index yet. -/
theorem foldl_addCall_whole {calls : List ToolCall} (hlen : calls.length ≤ 2 ^ 32) :
    ((toolCallsToChunks calls).getD []).foldl (fun calls tc => addCall tc calls) [] =
      indexed (calls.map AssembledCall.whole) := by
  have hchunks : (toolCallsToChunks calls).getD [] = calls.mapIdx wholeCall := by
    cases calls <;> rfl
  rw [hchunks]
  clear hchunks
  induction calls using List.reverseRecOn with
  | nil => rfl
  | append_singleton calls t ih =>
    rw [List.length_append, List.length_singleton] at hlen
    have hfresh : ∀ e ∈ indexed (calls.map AssembledCall.whole), e.1 ≠ calls.length.toUInt32 := by
      have hbound : (calls.map AssembledCall.whole).length < 2 ^ 32 := by
        rw [List.length_map]
        omega
      have hnext := indexed_fresh hbound
      rwa [List.length_map] at hnext
    rw [List.mapIdx_concat, List.foldl_append, ih (by omega), List.map_append, List.map_singleton,
      indexed_snoc, List.length_map]
    exact addCall_opens _ _ _ _ hfresh

theorem spokenChoice_calls_nodup (c : Choice) : ((spokenChoice c).calls.map (·.1)).Nodup := by
  have hfold : ∀ (tcs : List ToolCallChunk) (calls : List (UInt32 × AssembledCall)),
      (calls.map (·.1)).Nodup →
        ((tcs.foldl (fun calls tc => addCall tc calls) calls).map (·.1)).Nodup := by
    intro tcs
    induction tcs with
    | nil => exact fun _ h => h
    | cons tc tcs ih => exact fun calls h => ih _ (addCall_nodup h)
  exact hfold _ [] List.nodup_nil

/-- A choice comes back just when its calls have different indices. -/
theorem sameChoice_iff : SameChoice (spokenChoice c) c ↔
    (c.message.toolCalls.getD []).length ≤ 2 ^ 32 := by
  constructor
  · intro h
    have hle := nodup_uint32_length_le (spokenChoice_calls_nodup c)
    have hlen := h.calls.length_eq
    rw [List.length_map] at hle hlen
    omega
  · intro hlen
    have hcalls : (spokenChoice c).calls =
        indexed ((c.message.toolCalls.getD []).map AssembledCall.whole) := by
      rw [← foldl_addCall_whole hlen]
      unfold spokenChoice
      cases c.message.toolCalls <;> rfl
    refine ⟨rfl, ?_, ?_, rfl, rfl, rfl, rfl⟩
    · rw [hcalls, indexed_map_fst, indexed_length]
    · rw [hcalls, indexed_map_snd, List.forall₂_map_left_iff]
      exact List.forall₂_same.2 fun t _ => sameCall_whole t

/-- **A buffered response streamed is the same response**, just when no choice has more calls than
there are indices. -/
theorem buffered_stream_same_iff (hindices : (resp.choices.map (·.index)).Nodup) :
    StreamsBack resp ↔ ∀ c ∈ resp.choices, (c.message.toolCalls.getD []).length ≤ 2 ^ 32 := by
  have hchoices : (∀ c ∈ spoken resp, SameChoice (spokenChoice c) c) ↔
      ∀ c ∈ resp.choices, (c.message.toolCalls.getD []).length ≤ 2 ^ 32 := by
    unfold spoken
    split
    · rename_i hempty
      rw [List.isEmpty_iff.1 hempty]
      refine iff_of_true ?_ fun _ hc => absurd hc List.not_mem_nil
      intro c hc
      rw [List.mem_singleton.1 hc]
      exact sameChoice_iff.2 (Nat.zero_le _)
    · exact forall₂_congr fun c _ => sameChoice_iff
  rw [← hchoices]
  constructor
  · rintro ⟨chunks, hstream, hsame⟩ c hc
    have hpairs := hsame.choices
    rw [collect_buffered hindices hstream, List.forall₂_map_left_iff, List.forall₂_same] at hpairs
    exact (hpairs c hc).2
  · intro h
    refine ⟨_, buffered_eq resp, ?_⟩
    rw [collect_buffered hindices (buffered_eq resp)]
    refine ⟨rfl, rfl, ?_, rfl, rfl, rfl⟩
    rw [List.forall₂_map_left_iff, List.forall₂_same]
    exact fun c hc => ⟨rfl, h c hc⟩

/-! ### Calls and no calls -/

def lookUp : ToolCall := ⟨"call_1", "function", ⟨"look_up", "\x7b\"q\":\"rain\"\x7d"⟩⟩

/-- Two choices: one calls a tool, the other refuses. -/
def twoChoices : ChatCompletionResponse where
  id := "resp-1"
  object := "chat.completion"
  created := 1767225600
  model := "m"
  choices := [
    { index := 1, finishReason := "tool_calls", message := {
        role := "assistant", content := .text "", toolCalls := some [lookUp] } },
    { index := 0, finishReason := "", message := {
        role := "assistant", content := .text "", refusal := some "I cannot." } }]
  usage := ⟨9, 4, 13, none, none⟩
  serviceTier := some "default"

theorem buffered_stream_same_two : StreamsBack twoChoices := by
  have hindices : (twoChoices.choices.map (·.index)).Nodup := by decide
  exact (buffered_stream_same_iff hindices).2 (by decide)

/-- One call more than there are indices. -/
def manyCalls : ChatCompletionResponse where
  id := "resp-2"
  object := "chat.completion"
  created := 1767225600
  model := "m"
  choices := [{ index := 0, finishReason := "tool_calls", message := {
    role := "assistant", content := .text ""
    toolCalls := some (List.replicate (2 ^ 32 + 1) lookUp) } }]
  usage := ⟨9, 4, 13, none, none⟩

/-- The last call has the index of the first, and goes into it. -/
theorem many_calls_merge :
    (manyCalls.choices.map (·.index)).Nodup ∧ ¬StreamsBack manyCalls := by
  have hnodup : (manyCalls.choices.map (·.index)).Nodup := List.nodup_singleton _
  refine ⟨hnodup, ?_⟩
  rintro ⟨chunks, hstream, hsame⟩
  have hpairs := hsame.choices
  rw [collect_buffered hnodup hstream, List.forall₂_map_left_iff, List.forall₂_same] at hpairs
  obtain ⟨-, hchoice⟩ := hpairs _ List.mem_cons_self
  have hle := sameChoice_iff.1 hchoice
  have hlen : (List.replicate (2 ^ 32 + 1) lookUp).length ≤ 2 ^ 32 := hle
  rw [List.length_replicate] at hlen
  omega

end Routeplane
