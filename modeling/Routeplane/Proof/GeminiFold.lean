import Routeplane.Adapters.Assembled
import Routeplane.Adapters.Gemini
import Routeplane.Proof.SseLoop

/-!
# A Gemini stream and the buffered response

A turn is a response of one candidate, its parts dealt out to partial responses.

* `GeminiTurn.Streams`: the payloads are the partial responses of the turn.
* `addChunks_parts`: what their parts add up to.
* `sameCalls_iff_callsFirst`: the ids agree iff no call comes after a part of another kind.
* `gemini_agrees_iff`: when the stream says what the buffered translation says.
-/

namespace Routeplane

structure GeminiTurn where
  /-- The parts of the partial responses but the last. -/
  early : List (List Value)
  last : List Value
  finishReason : String
  usage : GeminiUsage

namespace GeminiTurn

def parts (t : GeminiTurn) : List Value := t.early.flatten ++ t.last

/-- The buffered response. -/
def response (t : GeminiTurn) : GeminiResponse where
  candidates := [{ parts := t.parts, finishReason := t.finishReason }]
  usageMetadata := some t.usage

end GeminiTurn

/-! ## The partial responses of a turn -/

/-- A partial response of one candidate. -/
structure IsPartial (parts : List Value) (candidate v : Value) : Prop where
  error : v.get "error" = none
  candidates : v.idx "candidates" = .arr [candidate]
  parts : (candidate.idx "content").idx "parts" = .arr parts

structure IsGeminiUsage (usage : GeminiUsage) (u : Value) : Prop where
  prompt : Count (some usage.promptTokenCount) (u.idx "promptTokenCount")
  candidates : Count (some usage.candidatesTokenCount) (u.idx "candidatesTokenCount")
  total : Count (some usage.totalTokenCount) (u.idx "totalTokenCount")
  cached : Count usage.cachedContentTokenCount (u.idx "cachedContentTokenCount")
  thoughts : Count usage.thoughtsTokenCount (u.idx "thoughtsTokenCount")

/-- A partial response before the last has no finish reason; its usage is not looked at. -/
def IsEarly (parts : List Value) (v : Value) : Prop :=
  ∃ c, IsPartial parts c v ∧ c.idx "finishReason" = .null

def IsLast (t : GeminiTurn) (v : Value) : Prop :=
  ∃ c u, IsPartial t.last c v ∧ c.idx "finishReason" = .str t.finishReason ∧
    v.get "usageMetadata" = some u ∧ IsGeminiUsage t.usage u

def GeminiTurn.Streams (serde : Serde) (t : GeminiTurn) (payloads : List String) : Prop :=
  ∃ early last, payloads = early ++ [last] ∧
    List.Forall₂ (fun parts p => serde.Says p (IsEarly parts)) t.early early ∧
    serde.Says last (IsLast t)

/-- A part that calls a function. -/
def isGeminiCall (part : Value) : Bool :=
  (geminiText part).isNone && (part.get "functionCall").isSome

/-- No call comes after a part of another kind. -/
def CallsFirst (parts : List Value) : Prop :=
  parts.Pairwise fun before after => isGeminiCall after → isGeminiCall before

section

variable {serde : Serde} {ident : GeminiStreamId} {st : GeminiStreamState}

variable (serde) in
theorem geminiCall_isSome (part : Value) :
    (geminiCall serde part).isSome = isGeminiCall part := by
  unfold geminiCall isGeminiCall
  cases geminiText part with
  | some text => rfl
  | none => simp

/-! ## What the parts add up to -/

/-- The calls of a stream, numbered from `i` on. -/
def numbered : ℕ → List FunctionCall → List AssembledCall
  | _, [] => []
  | i, f :: fs =>
    ⟨some ("call_" ++ toString i), some "function", some f.name, f.arguments⟩ :: numbered (i + 1) fs

theorem numbered_length (i : ℕ) (fs : List FunctionCall) : (numbered i fs).length = fs.length := by
  induction fs generalizing i with
  | nil => rfl
  | cons f fs ih => rw [numbered, List.length_cons, ih, List.length_cons]

variable (serde ident st) in
theorem parts_append (ps qs : List Value) :
    st.parts serde ident (ps ++ qs) =
      ((st.parts serde ident ps).1 ++ ((st.parts serde ident ps).2.parts serde ident qs).1,
        ((st.parts serde ident ps).2.parts serde ident qs).2) := by
  induction ps generalizing st with
  | nil => rfl
  | cons p ps ih => simp only [List.cons_append, GeminiStreamState.parts, ih, List.append_assoc]

theorem parts_sawToolCall (ps : List Value) : (st.parts serde ident ps).2.sawToolCall =
    (st.sawToolCall || !(ps.filterMap (geminiCall serde)).isEmpty) := by
  induction ps generalizing st with
  | nil => exact (Bool.or_false _).symm
  | cons p ps ih =>
    rw [GeminiStreamState.parts, ih]
    unfold GeminiStreamState.part
    cases htext : geminiText p with
    | some text => simp [geminiCall, htext]
    | none =>
      cases hcall : geminiCall serde p with
      | none => simp [hcall]
      | some f => simp [hcall]

/-- **The parts**, if there are indices left for their calls. -/
theorem addChunks_parts (ps : List Value) : ∀ (st : GeminiStreamState) (a : Assembled) cs,
    a.calls = indexed cs → st.nextToolIndex = cs.length.toUInt32 →
    cs.length + (ps.filterMap (geminiCall serde)).length ≤ 2 ^ 32 →
    a.addChunks (st.parts serde ident ps).1 = { a with
      content := a.content ++ String.join (ps.filterMap geminiText)
      calls := indexed (cs ++ numbered cs.length (ps.filterMap (geminiCall serde))) } := by
  induction ps with
  | nil =>
    intro st a cs hcalls _ _
    rw [List.filterMap_nil, List.filterMap_nil, String.join_nil, String.append_empty, numbered,
      List.append_nil, ← hcalls]
    rfl
  | cons p ps ih =>
    intro st a cs hcalls hnext hlen
    rw [GeminiStreamState.parts, Assembled.addChunks_append]
    unfold GeminiStreamState.part
    cases htext : geminiText p with
    | some text =>
      have hnocall : geminiCall serde p = none := by rw [geminiCall, htext]
      rw [List.filterMap_cons_none hnocall] at hlen ⊢
      rw [List.filterMap_cons_some htext, String.join_cons, ← String.append_assoc]
      have hadd : a.addChunks (if text.isEmpty then [] else
          [.contentDelta ident.id ident.model ident.created text]) =
          { a with content := a.content ++ text } := by
        split
        · rename_i hempty
          rw [String.isEmpty_iff.1 hempty, String.append_empty]
          rfl
        · rfl
      simp only [hadd]
      exact ih st _ cs hcalls hnext hlen
    | none =>
      rw [List.filterMap_cons_none htext]
      cases hcall : geminiCall serde p with
      | none =>
        rw [List.filterMap_cons_none hcall] at hlen ⊢
        exact ih st a cs hcalls hnext hlen
      | some f =>
        rw [List.filterMap_cons_some hcall] at hlen ⊢
        rw [List.length_cons] at hlen
        have hlt : cs.length < 2 ^ 32 := by omega
        have hfresh : ∀ e ∈ indexed cs, e.1 ≠ st.nextToolIndex := hnext ▸ indexed_fresh hlt
        have htoNat : st.nextToolIndex.toNat = cs.length := by
          rw [hnext, Nat.toUInt32, UInt32.toNat_ofNat']
          exact Nat.mod_eq_of_lt hlt
        have hadd : a.addChunks [GeminiStreamState.chunk ident { toolCalls := some [{
            index := st.nextToolIndex
            id := some ("call_" ++ toString st.nextToolIndex.toNat)
            toolType := some "function"
            function := some ⟨some f.name, some f.arguments⟩ }] }] =
            { a with calls := indexed (cs ++ numbered cs.length [f]) } := by
          rw [GeminiStreamState.chunk, Assembled.addChunks_call, hcalls,
            addCall_opens _ _ _ _ hfresh, numbered, numbered, indexed_snoc, ← hnext, ← htoNat]
        simp only [hadd]
        have hone : (cs ++ numbered cs.length [f]).length = cs.length + 1 := by
          rw [List.length_append, numbered_length, List.length_singleton]
        have hnext' : st.nextToolIndex + 1 = (cs ++ numbered cs.length [f]).length.toUInt32 := by
          rw [hone, hnext]
          exact (UInt32.ofNat_add ..).symm
        rw [ih { nextToolIndex := st.nextToolIndex + 1, sawToolCall := true } _ _ rfl hnext'
          (by omega), hone, List.append_assoc]
        rfl

/-- A partial response before the last gives what its parts give. -/
theorem translate_early {ps : List Value} {payload : String} (h : serde.Says payload (IsEarly ps)) :
    (geminiLoop serde ident).translate st payload =
      .ok ((st.parts serde ident ps).1, false, (st.parts serde ident ps).2) := by
  obtain ⟨v, hparse, c, hv, hfinish⟩ := h
  simp only [geminiLoop, translateGeminiChunk, hparse, GeminiStreamState.partialResponse, hv.error,
    Option.bind_none, GeminiStreamState.candidate, hv.candidates, Value.asArray, Option.getD_some,
    List.head?_cons, hv.parts, hfinish, Value.asStr, Option.map_none, Option.toList_none,
    List.append_nil]

variable (ident st) in
theorem passes_early {partials : List (List Value)} {payloads : List String}
    (h : List.Forall₂ (fun parts p => serde.Says p (IsEarly parts)) partials payloads) :
    (geminiLoop serde ident).Passes st payloads (st.parts serde ident partials.flatten).1
      (st.parts serde ident partials.flatten).2 := by
  induction h generalizing st with
  | nil => exact .nil st
  | cons hp _ ih =>
    rw [List.flatten_cons, parts_append]
    exact .cons (translate_early hp) (ih _)

/-- The usage of the last partial response is the buffered one. -/
theorem usage_canonical {usage : GeminiUsage} {u : Value} (h : IsGeminiUsage usage u) :
    GeminiStreamState.usage u = usage.canonical := by
  have hcompletion : ((u.idx "candidatesTokenCount").asU64.getD 0 +
      (u.idx "thoughtsTokenCount").asU64.getD 0).toUInt32 =
      usage.candidatesTokenCount + usage.thoughtsTokenCount.getD 0 := by
    rw [count_asU64 h.candidates, count_asU64 h.thoughts, Nat.toUInt32, UInt32.ofNat_add]
    cases usage.thoughtsTokenCount with
    | none => simp
    | some n => simp
  rw [GeminiStreamState.usage, hcompletion, count_asU64AsU32 h.prompt, count_asU64AsU32 h.total,
    count_asU64AsU32 h.cached]
  rfl

def GeminiTurn.calls (serde : Serde) (t : GeminiTurn) : List FunctionCall :=
  t.parts.filterMap (geminiCall serde)

variable (ident) in
/-- **A whole turn**: chunks only, and what they add up to. -/
theorem feed_geminiTurn {t : GeminiTurn} {payloads : List String} (h : t.Streams serde payloads) :
    ∃ out, ((geminiLoop serde ident).feed {} payloads).1 = out.map .ok ∧
      ((t.calls serde).length ≤ 2 ^ 32 → assemble out = {
        content := String.join (t.parts.filterMap geminiText)
        calls := indexed (numbered 0 (t.calls serde))
        finishReason := some (if (t.calls serde).isEmpty then mapGeminiFinish t.finishReason
          else "tool_calls")
        usage := some t.usage.canonical }) := by
  obtain ⟨early, last, rfl, hearly, v, hparse, c, u, hv, hfinish, husage, hu⟩ := h
  have hlast : ∀ st : GeminiStreamState, (geminiLoop serde ident).translate st last =
      .ok ((st.parts serde ident t.last).1 ++
        [(st.parts serde ident t.last).2.finish ident v t.finishReason], false,
        (st.parts serde ident t.last).2) := by
    intro st
    simp only [geminiLoop, translateGeminiChunk, hparse, GeminiStreamState.partialResponse,
      hv.error, Option.bind_none, GeminiStreamState.candidate, hv.candidates, Value.asArray,
      Option.getD_some, List.head?_cons, hv.parts, hfinish, Value.asStr, Option.map_some,
      Option.toList_some]
  have hall := (passes_early ident {} hearly).append (.one (hlast _))
  rw [← List.append_assoc] at hall
  have hparts := parts_append serde ident {} t.early.flatten t.last
  have hfeed := hall.feed []
  rw [List.append_nil] at hfeed
  rw [hfeed]
  refine ⟨_, List.append_nil _, fun hlen => ?_⟩
  have hout : (GeminiStreamState.parts serde ident {} t.early.flatten).1 ++
      ((GeminiStreamState.parts serde ident {} t.early.flatten).2.parts serde ident t.last).1 =
      (GeminiStreamState.parts serde ident {} t.parts).1 := (congrArg Prod.fst hparts).symm
  have hstate : ((GeminiStreamState.parts serde ident {} t.early.flatten).2.parts serde ident
      t.last).2 = (GeminiStreamState.parts serde ident {} t.parts).2 :=
    (congrArg Prod.snd hparts).symm
  rw [hout, hstate, assemble, Assembled.addChunks_append,
    addChunks_parts t.parts {} {} [] rfl rfl (by simpa [GeminiTurn.calls] using hlen)]
  have hreason : (if (GeminiStreamState.parts serde ident {} t.parts).2.sawToolCall
      then "tool_calls" else mapGeminiFinish t.finishReason) =
      if (t.calls serde).isEmpty then mapGeminiFinish t.finishReason else "tool_calls" := by
    rw [parts_sawToolCall, GeminiTurn.calls]
    cases (t.parts.filterMap (geminiCall serde)).isEmpty with
    | true => rfl
    | false => rfl
  change Assembled.addChunk _ (.ofDelta ident.id ident.model ident.created {} _ _) = _
  rw [Assembled.addChunk_ofDelta, hreason, husage, Option.map_some, usage_canonical hu]
  simp only [Option.getD_none, List.foldl_nil, Option.some_or, String.append_empty,
    String.empty_append, List.nil_append, List.length_nil, GeminiTurn.calls]

/-! ## The buffered translation -/

theorem callId_injective {i j : ℕ} (h : "call_" ++ toString i = "call_" ++ toString j) : i = j := by
  have hdigits : Nat.toDigits 10 i = Nat.toDigits 10 j := by
    have hrepr : i.repr = j.repr := (String.append_right_inj "call_").1 h
    rw [← Nat.toList_repr, hrepr, Nat.toList_repr]
  have hread := congrArg (Nat.ofDigitChars 10 · 0) hdigits
  simpa only [Nat.ofDigitChars_ten_toDigits] using hread

/-- The ids of the stream, from `i` on, are those of the positions, from `j` on, iff the two
numberings start and stay together. -/
theorem sameCalls_iff_of_le (ps : List Value) : ∀ {i j : ℕ}, i ≤ j →
    (List.Forall₂ (SameCall (· = ·)) (numbered i (ps.filterMap (geminiCall serde)))
        (GeminiCandidate.toolCallsFrom serde j ps) ↔
      i = j ∧ CallsFirst ps ∨ ∀ p ∈ ps, isGeminiCall p = false) := by
  induction ps with
  | nil =>
    intro i j _
    exact ⟨fun _ => .inr nofun, fun _ => .nil⟩
  | cons p ps ih =>
    intro i j hle
    have hcall := geminiCall_isSome serde p
    rw [GeminiCandidate.toolCallsFrom, CallsFirst, List.pairwise_cons, List.forall_mem_cons]
    cases hp : geminiCall serde p with
    | none =>
      rw [hp] at hcall
      rw [List.filterMap_cons_none hp, Option.map_none, Option.toList_none, List.nil_append,
        ih (by omega : i ≤ j + 1), ← hcall]
      -- the numberings are apart from here on
      constructor
      · rintro (⟨heq, -⟩ | hnone)
        · omega
        · exact .inr ⟨rfl, hnone⟩
      · rintro (⟨-, hfirst, -⟩ | ⟨-, hnone⟩)
        · exact .inr fun q hq => Bool.eq_false_iff.2 fun hq' => absurd (hfirst q hq hq') nofun
        · exact .inr hnone
    | some f =>
      rw [hp] at hcall
      rw [List.filterMap_cons_some hp, numbered, Option.map_some, Option.toList_some,
        List.singleton_append, List.forall₂_cons, ih (by omega : i + 1 ≤ j + 1), ← hcall]
      constructor
      · rintro ⟨hsame, hrest⟩
        have hid : i = j := callId_injective (Option.some.inj hsame.id)
        refine .inl ⟨hid, fun _ _ _ => rfl, ?_⟩
        rcases hrest with ⟨-, hfirst⟩ | hnone
        · exact hfirst
        · exact List.pairwise_of_forall_mem_list fun q _ r hr hr' =>
            absurd hr' (Bool.eq_false_iff.1 (hnone r hr))
      · rintro (⟨rfl, -, hfirst⟩ | ⟨hno, -⟩)
        · exact ⟨⟨rfl, rfl, rfl, rfl⟩, .inl ⟨rfl, hfirst⟩⟩
        · exact absurd hno nofun

theorem sameCalls_iff_callsFirst (ps : List Value) :
    List.Forall₂ (SameCall (· = ·)) (numbered 0 (ps.filterMap (geminiCall serde)))
      (GeminiCandidate.toolCallsFrom serde 0 ps) ↔ CallsFirst ps := by
  rw [sameCalls_iff_of_le ps le_rfl]
  constructor
  · rintro (⟨-, hfirst⟩ | hnone)
    · exact hfirst
    · exact List.pairwise_of_forall_mem_list fun q _ r hr hr' =>
        absurd hr' (Bool.eq_false_iff.1 (hnone r hr))
  · exact fun hfirst => .inl ⟨rfl, hfirst⟩

theorem toolCallsFrom_length (i : ℕ) (ps : List Value) :
    (GeminiCandidate.toolCallsFrom serde i ps).length = (ps.filterMap (geminiCall serde)).length := by
  induction ps generalizing i with
  | nil => rfl
  | cons p ps ih =>
    rw [GeminiCandidate.toolCallsFrom, List.length_append, ih]
    cases hp : geminiCall serde p with
    | none => rw [List.filterMap_cons_none hp, Option.map_none, Option.toList_none]; exact zero_add _
    | some f =>
      rw [List.filterMap_cons_some hp, Option.map_some, Option.toList_some, List.length_singleton,
        List.length_cons, add_comm]

variable (serde) in
theorem calls_length (t : GeminiTurn) : (t.calls serde).length = t.parts.countP isGeminiCall := by
  unfold GeminiTurn.calls
  induction t.parts with
  | nil => rfl
  | cons p ps ih =>
    have hcall := geminiCall_isSome serde p
    cases hp : geminiCall serde p with
    | none =>
      rw [hp] at hcall
      rw [List.filterMap_cons_none hp, ih, List.countP_cons_of_neg (hcall ▸ nofun)]
    | some f =>
      rw [hp] at hcall
      rw [List.filterMap_cons_some hp, List.length_cons, ih, List.countP_cons_of_pos hcall.symm]

end

/-- What agreement says of a turn's stream. -/
theorem callsFirst_of_agrees {serde : Serde} {t : GeminiTurn} {payloads : List String}
    {ident : GeminiStreamId} {id model : String} {created : ℕ} {r : ChatCompletionResponse}
    (h : t.Streams serde payloads) (hr : t.response.translate id model created serde = .ok r)
    (hagrees : StreamAgrees (· = ·) ((geminiLoop serde ident).feed {} payloads).1 r) :
    CallsFirst t.parts ∧ (t.calls serde).length ≤ 2 ^ 32 := by
  obtain ⟨out, hitems, hsum⟩ := feed_geminiTurn ident h
  obtain ⟨chunks, c, hchunks, hc, hagrees⟩ := hagrees
  obtain rfl : out = chunks :=
    List.map_injective_iff.2 (fun _ _ => Except.ok.inj) (hitems.symm.trans hchunks)
  obtain rfl := Except.ok.inj hr
  obtain rfl := (List.cons.inj hc).1
  have hcalls := hagrees.calls
  change List.Forall₂ _ _ ((if (GeminiCandidate.toolCallsFrom serde 0 t.parts).isEmpty then none
    else some (GeminiCandidate.toolCallsFrom serde 0 t.parts)).getD []) at hcalls
  rw [getD_of_isEmpty] at hcalls
  have hlen : (t.calls serde).length ≤ 2 ^ 32 := by
    have hle := hcalls.length_eq
    rw [toolCallsFrom_length, List.length_map] at hle
    rw [GeminiTurn.calls, ← hle]
    exact assemble_length_le out
  rw [hsum hlen, indexed_map_snd] at hcalls
  exact ⟨(sameCalls_iff_callsFirst t.parts).1 hcalls, hlen⟩

/-- **The stream of a Gemini turn says what its buffered response says** iff no call comes after
a part of another kind, and there are indices for the calls. -/
theorem gemini_agrees_iff {serde : Serde} {t : GeminiTurn} {payloads : List String}
    (ident : GeminiStreamId) (id model : String) (created : ℕ) (h : t.Streams serde payloads) :
    (∃ r, t.response.translate id model created serde = .ok r ∧
        StreamAgrees (· = ·) ((geminiLoop serde ident).feed {} payloads).1 r) ↔
      CallsFirst t.parts ∧ t.parts.countP isGeminiCall ≤ 2 ^ 32 := by
  rw [← calls_length serde]
  constructor
  · rintro ⟨r, hr, hagrees⟩
    exact callsFirst_of_agrees h hr hagrees
  · rintro ⟨hfirst, hlen⟩
    obtain ⟨out, hitems, hsum⟩ := feed_geminiTurn ident h
    refine ⟨_, rfl, out, _, hitems, rfl, ?_⟩
    rw [hsum hlen]
    refine ⟨?_, ?_, ?_, ?_, rfl⟩
    · change String.join (t.parts.filterMap geminiText) = (MessageContent.text _).asText
      rw [MessageContent.asText, MessageContent.texts, String.join_cons, String.join_nil,
        String.append_empty]
      rfl
    · rw [indexed_map_fst, indexed_length]
    · change List.Forall₂ _ _ ((if (GeminiCandidate.toolCallsFrom serde 0 t.parts).isEmpty then none
        else some (GeminiCandidate.toolCallsFrom serde 0 t.parts)).getD [])
      rw [getD_of_isEmpty, indexed_map_snd]
      exact (sameCalls_iff_callsFirst t.parts).2 hfirst
    · change some _ = some (if (GeminiCandidate.toolCallsFrom serde 0 t.parts).isEmpty
        then mapGeminiFinish t.finishReason else "tool_calls")
      have hempty : (t.calls serde).isEmpty =
          (GeminiCandidate.toolCallsFrom serde 0 t.parts).isEmpty := by
        rw [Bool.eq_iff_iff, List.isEmpty_iff_length_eq_zero, List.isEmpty_iff_length_eq_zero,
          toolCallsFrom_length]
        rfl
      rw [hempty]

/-! ## A call after a text -/

def announcedText : Value := .obj [("text", .str "Let me check.")]

def announcedCall : Value :=
  .obj [("functionCall", .obj [("name", .str "now"), ("args", .obj [])])]

def announcedTexts : List (String × Value) := [
  ("\x7b\"candidates\":[\x7b\"content\":\x7b\"role\":\"model\",\"parts\":[" ++
      "\x7b\"text\":\"Let me check.\"\x7d]\x7d\x7d]\x7d",
    .obj [("candidates", .arr [.obj [("content", .obj [("role", .str "model"),
      ("parts", .arr [announcedText])])]])]),
  ("\x7b\"usageMetadata\":\x7b\"promptTokenCount\":9,\"candidatesTokenCount\":7," ++
      "\"totalTokenCount\":16\x7d,\"candidates\":[\x7b\"finishReason\":\"STOP\",\"content\":\x7b" ++
      "\"role\":\"model\",\"parts\":[\x7b\"functionCall\":\x7b\"name\":\"now\",\"args\":" ++
      "\x7b\x7d\x7d\x7d]\x7d\x7d]\x7d",
    .obj [("usageMetadata", .obj [("promptTokenCount", .num (.int 9)),
        ("candidatesTokenCount", .num (.int 7)), ("totalTokenCount", .num (.int 16))]),
      ("candidates", .arr [.obj [("finishReason", .str "STOP"), ("content", .obj [
        ("role", .str "model"), ("parts", .arr [announcedCall])])]])])]

def announcedSerde : Serde := .ofTexts announcedTexts

/-- A text, then a call. -/
def announcedTurn : GeminiTurn where
  early := [[announcedText]]
  last := [announcedCall]
  finishReason := "STOP"
  usage := { promptTokenCount := 9, candidatesTokenCount := 7, totalTokenCount := 16 }

set_option maxRecDepth 4000 in
theorem announced_streams : announcedTurn.Streams announcedSerde (announcedTexts.map (·.1)) := by
  refine ⟨[_], _, rfl, .cons ⟨_, rfl, _, ⟨rfl, rfl, rfl⟩, rfl⟩ .nil, _, rfl, _, _, ⟨rfl, rfl, rfl⟩,
    rfl, rfl, ?_⟩
  exact ⟨rfl, rfl, rfl, rfl, rfl⟩

/-- The stream calls `call_0`, the buffered response `call_1`. -/
theorem announced_call_disagrees : announcedTurn.Streams announcedSerde (announcedTexts.map (·.1)) ∧
    ¬∃ r, announcedTurn.response.translate "gemini-1" "gemini" 0 announcedSerde = .ok r ∧
      StreamAgrees (· = ·) ((geminiLoop announcedSerde ⟨"gemini-1", "gemini", 0⟩).feed {}
        (announcedTexts.map (·.1))).1 r := by
  refine ⟨announced_streams, ?_⟩
  rintro ⟨r, hr, hagrees⟩
  have hfirst := (callsFirst_of_agrees announced_streams hr hagrees).1
  have htext := (List.pairwise_cons.1 hfirst).1 announcedCall List.mem_cons_self rfl
  exact absurd htext (by decide)

theorem gemini_agrees_iff_announced :
    (∃ r, announcedTurn.response.translate "gemini-1" "gemini" 0 announcedSerde = .ok r ∧
        StreamAgrees (· = ·) ((geminiLoop announcedSerde ⟨"gemini-1", "gemini", 0⟩).feed {}
          (announcedTexts.map (·.1))).1 r) ↔
      CallsFirst announcedTurn.parts ∧ announcedTurn.parts.countP isGeminiCall ≤ 2 ^ 32 :=
  gemini_agrees_iff _ "gemini-1" "gemini" 0 announced_streams

end Routeplane
