import Routeplane.Proof.SseLoop
import Routeplane.Proof.StreamBody

/-!
# When a truncated stream is presented as complete

* `not_done_of_error`: an error among the chunks keeps the body from its `[DONE]`.
* `done_of_ok`: a body of chunks only comes to its `[DONE]`.
* `truthful_iff`: the proxy is truthful about an upstream that closes early iff that upstream has
  sent its terminal event, or has failed some other way.
-/

namespace Routeplane

/-! ## The four dialects -/

namespace Dialect

variable {up : Upstream}

/-- Where the loop of a dialect ends by itself; the others read on to the end of the bytes. -/
def ends (up : Upstream) (payload : String) : Dialect → Bool
  | openai => openai.terminal up payload
  | anthropic => anthropic.terminal up payload
  | gemini | cohere => false

attribute [local simp] ends refuses

theorem ends_le (d : Dialect) {payload : String} (h : d.terminal up payload = false) :
    d.ends up payload = false := by
  cases d with
  | openai => exact h
  | anthropic => exact h
  | gemini => rfl
  | cohere => rfl

theorem openai_law : (openaiLoop up.serde).Law (openai.ends up ·) (openai.refuses up ·) := by
  have hdone : ∀ payload, parseOpenaiSsePayload up.serde payload = .ok none ↔ payload = "[DONE]" := by
    intro payload
    unfold parseOpenaiSsePayload
    split
    · rename_i h
      exact ⟨fun _ => h, fun _ => rfl⟩
    · rename_i h
      refine ⟨fun heq => ?_, fun heq => absurd heq h⟩
      split at heq
      · exact absurd heq nofun
      · split at heq <;> exact absurd heq nofun
  constructor
  · intro s payload hr
    simp only [refuses] at hr
    simp only [openaiLoop]
    split at hr
    · exact absurd hr nofun
    · rename_i e he
      exact ⟨e, by rw [he]⟩
  · intro s payload hr
    simp only [refuses] at hr
    simp only [openaiLoop]
    split at hr
    · rename_i parsed hparsed
      rw [hparsed]
      cases parsed with
      | none =>
        have hend : openai.ends up payload = true := decide_eq_true ((hdone payload).1 hparsed)
        exact ⟨[], (), by rw [hend]⟩
      | some chunk =>
        have hend : openai.ends up payload = false := by
          refine decide_eq_false fun heq => ?_
          rw [(hdone payload).2 heq] at hparsed
          exact absurd hparsed nofun
        exact ⟨[chunk], (), by rw [hend]⟩
    · exact absurd hr nofun

/-- An event is refused by its type, and ends the stream by its type. -/
theorem anthropic_event (st : AnthropicStreamState) (now : ℕ) (v : Value) :
    ((v.get "type").bind Value.asStr = some "error" ∧ ∃ e, st.event now v = .error e) ∨
      ((v.get "type").bind Value.asStr ≠ some "error" ∧ ∃ out t, st.event now v =
        .ok (out, decide ((v.get "type").bind Value.asStr = some "message_stop"), t)) := by
  unfold AnthropicStreamState.event
  cases htype : (v.get "type").bind Value.asStr with
  | none => exact .inr ⟨nofun, [], st, rfl⟩
  | some type =>
    simp only [Option.getD_some]
    split
    · exact .inr ⟨by simp, _, _, rfl⟩
    · exact .inr ⟨by simp, _, _, rfl⟩
    · exact .inr ⟨by simp, _, _, rfl⟩
    · exact .inr ⟨by simp, _, _, rfl⟩
    · exact .inr ⟨by simp, _, _, rfl⟩
    · exact .inr ⟨by simp, _, _, rfl⟩
    · exact .inl ⟨rfl, _, rfl⟩
    · rename_i hstop herror
      have hne : ¬some type = some "message_stop" := fun h => hstop (Option.some.inj h)
      exact .inr ⟨by simpa using herror, [], st, by rw [decide_eq_false hne]⟩

theorem anthropic_law :
    (anthropicLoop up.serde up.now).Law (anthropic.ends up ·) (anthropic.refuses up ·) := by
  constructor
  · intro st payload hr
    simp only [refuses] at hr
    simp only [anthropicLoop, translateAnthropicEvent]
    cases hparse : up.serde.fromStr payload with
    | error e => exact ⟨_, rfl⟩
    | ok v =>
      rw [hparse] at hr
      rcases anthropic_event st up.now v with ⟨-, herr⟩ | ⟨hne, -⟩
      · exact herr
      · exact absurd (of_decide_eq_true hr) hne
  · intro st payload hr
    simp only [refuses] at hr
    simp only [anthropicLoop, translateAnthropicEvent, ends, terminal]
    cases hparse : up.serde.fromStr payload with
    | error e => rw [hparse] at hr; cases hr
    | ok v =>
      have htype : eventType up payload = (v.get "type").bind Value.asStr := by
        rw [eventType, hparse]
      simp only [htype]
      rw [hparse] at hr
      rcases anthropic_event st up.now v with ⟨heq, -⟩ | ⟨-, hok⟩
      · exact absurd heq (of_decide_eq_false hr)
      · exact hok

theorem gemini_law :
    (geminiLoop up.serde up.geminiId).Law (gemini.ends up ·) (gemini.refuses up ·) := by
  have hrefused : ∀ v : Value, (v.get "error").any (fun e => e.asObject.isSome) = true ↔
      ((v.get "error").bind fun e => e.asObject.map fun _ => e).isSome := by
    intro v
    cases v.get "error" with
    | none => simp
    | some e => cases e.asObject <;> simp
  constructor
  · intro st payload hr
    simp only [refuses] at hr
    simp only [geminiLoop, translateGeminiChunk]
    cases hparse : up.serde.fromStr payload with
    | error e => exact ⟨_, rfl⟩
    | ok v =>
      rw [hparse] at hr
      obtain ⟨err, herr⟩ := Option.isSome_iff_exists.1 ((hrefused v).1 hr)
      simp only [GeminiStreamState.partialResponse, herr]
      exact ⟨_, rfl⟩
  · intro st payload hr
    simp only [refuses] at hr
    simp only [geminiLoop, translateGeminiChunk, ends]
    cases hparse : up.serde.fromStr payload with
    | error e => rw [hparse] at hr; cases hr
    | ok v =>
      rw [hparse] at hr
      have hnone : ((v.get "error").bind fun e => e.asObject.map fun _ => e) = none := by
        rw [← Option.not_isSome_iff_eq_none]
        exact fun h => absurd ((hrefused v).2 h) (Bool.eq_false_iff.1 hr)
      simp only [GeminiStreamState.partialResponse, hnone]
      split
      · rename_i h
        split at h <;> cases h
      · exact ⟨_, _, rfl⟩

theorem cohere_law :
    (cohereLoop up.serde up.cohereStart).Law (cohere.ends up ·) (cohere.refuses up ·) := by
  constructor
  · intro st payload hr
    simp only [refuses] at hr
    simp only [cohereLoop, parseCohereStreamEvent]
    cases hparse : up.serde.fromStr payload with
    | error e => exact ⟨_, rfl⟩
    | ok v => rw [hparse] at hr; cases hr
  · intro st payload hr
    simp only [refuses] at hr
    simp only [cohereLoop, parseCohereStreamEvent, ends]
    cases hparse : up.serde.fromStr payload with
    | error e => rw [hparse] at hr; cases hr
    | ok v => exact ⟨_, _, rfl⟩

/-- **An error among the chunks**, when no terminal event was received: the transport's, or the
refusal of a payload. -/
theorem chunks_error_iff (d : Dialect) (reads : List Read)
    (hterm : ∀ p ∈ receivedPayloads up.serde reads, d.terminal up p = false) :
    (∃ e, .error e ∈ d.chunks up reads) ↔ (transportFailure reads).isSome ∨
      ∃ p ∈ receivedPayloads up.serde reads, d.refuses up p = true := by
  have hends : ∀ p ∈ receivedPayloads up.serde reads, d.ends up p = false :=
    fun p hp => d.ends_le (hterm p hp)
  cases d with
  | openai => exact openai_law.chunks_error_iff reads hends
  | anthropic => exact anthropic_law.chunks_error_iff reads hends
  | gemini => exact gemini_law.chunks_error_iff reads hends
  | cohere => exact cohere_law.chunks_error_iff reads hends

/-- An upstream that only closes: the chunks are what the payloads translate to. -/
theorem chunks_of_read (d : Dialect) {reads : List Read} (h : transportFailure reads = none) :
    d.chunks up reads = d.translated up (receivedPayloads up.serde reads) := by
  have hloop : ∀ {σ : Type} (loop : SseLoop σ), loop.chunks up.serde reads =
      (loop.feed loop.start (receivedPayloads up.serde reads)).1 := by
    intro σ loop
    rw [SseLoop.chunks_eq, h]
    split <;> simp
  cases d with
  | openai => exact hloop _
  | anthropic => exact hloop _
  | gemini => exact hloop _
  | cohere => exact hloop _

end Dialect

/-! ## The body -/

def Frame.isDone : Frame → Bool
  | .done => true
  | .chunk _ _ | .error _ => false

/-- The client is told that the stream is complete, or the decision ledger is. -/
def BodyLog.SaysComplete (log : BodyLog) : Prop :=
  (∃ f ∈ log.frames, f.isDone = true) ∨ ∃ d ∈ log.decisions, d.outcome = .ok

section

variable {ctx : StreamContext} {first : ChatCompletionChunk} {s : StreamLocals} {log : BodyLog}
  {items : List StreamItem}

/-- Nothing said of the end so far. -/
structure BodyLog.Silent (log : BodyLog) : Prop where
  frames : ∀ f ∈ log.frames, f.isDone = false
  decisions : log.decisions = []

/-- A body that has an error before it, or behind it. -/
def Failing (s : Body × List StreamItem) : Prop :=
  match s.1.gen with
  | .created | .awaiting _ | .yielded _ => s.1.log.Silent ∧ ∃ e, .error e ∈ s.2
  | .terminal _ streamError => s.1.log.Silent ∧ streamError.isSome
  | .finished => ¬s.1.log.SaysComplete

theorem silent_frame (h : log.Silent) {f : Frame} (hf : f.isDone = false) :
    ({ log with frames := log.frames ++ [f] } : BodyLog).Silent := by
  refine ⟨fun g hg => ?_, h.decisions⟩
  rcases List.mem_append.1 hg with hg | hg
  · exact h.frames g hg
  · rw [List.mem_singleton.1 hg]
    exact hf

theorem failing_toTerminal (h : log.Silent) (err : String) (items : List StreamItem) :
    Failing (toTerminal s (some err) log, items) :=
  ⟨silent_frame h rfl, rfl⟩

theorem failing_forward (h : log.Silent) (c : ChatCompletionChunk) (herr : ∃ e, .error e ∈ items) :
    Failing (forwardChunk ctx s c log, items) := by
  simp only [forwardChunk]
  split
  · exact ⟨silent_frame h rfl, herr⟩
  · exact failing_toTerminal h _ items

/-- Whatever a waiting body finds, the error stays ahead or becomes its end. -/
theorem failing_continue (h : log.Silent) (herr : ∃ e, .error e ∈ items) (wake : Wake) :
    Failing (continueLoop ctx s (wake.next items).1 log, (wake.next items).2) := by
  obtain ⟨e, he⟩ := herr
  cases wake with
  | pending => exact ⟨h, e, he⟩
  | elapsed =>
    simp only [Wake.next, continueLoop]
    split
    · exact ⟨h, e, he⟩
    · exact failing_toTerminal h _ items
  | ready =>
    cases items with
    | nil => exact absurd he List.not_mem_nil
    | cons r items =>
      cases r with
      | error e' => exact failing_toTerminal h _ items
      | ok c =>
        have hrest : .error e ∈ items := by simpa using he
        exact failing_forward h c ⟨e, hrest⟩

theorem failing_poll {s : Body × List StreamItem} (h : Failing s) (wake : Wake)
    (first : ChatCompletionChunk) : Failing (pollStream ctx first s wake) := by
  obtain ⟨⟨gen, log⟩, items⟩ := s
  cases gen with
  | created => exact failing_forward h.1 first h.2
  | awaiting s => exact failing_continue h.1 h.2 wake
  | yielded s => exact failing_continue h.1 h.2 wake
  | terminal s streamError =>
    obtain ⟨hlog, herr⟩ := h
    obtain ⟨err, rfl⟩ := Option.isSome_iff_exists.1 herr
    rintro (⟨f, hf, hdone⟩ | ⟨d, hd, hok⟩)
    · have hno := hlog.frames f hf
      rw [hno] at hdone
      exact Bool.false_ne_true hdone
    · have hlog' : log.decisions = [] := hlog.decisions
      have hlast : d = decisionOf ctx s.modelSeen (s.accUsage.getD zeroUsage) .streamTruncated := by
        simpa [pollStream, poll, inlineAccounting, hlog'] using hd
      rw [hlast] at hok
      cases hok
  | finished => exact h

theorem BodyLog.Silent.not_saysComplete (h : log.Silent) : ¬log.SaysComplete := by
  rintro (⟨f, hf, hdone⟩ | ⟨d, hd, -⟩)
  · rw [h.frames f hf] at hdone
    exact Bool.false_ne_true hdone
  · rw [h.decisions] at hd
    exact absurd hd List.not_mem_nil

/-- **An error among the chunks keeps the body from its `[DONE]`**, however it is polled. -/
theorem not_complete_of_error (rest : List StreamItem) (herr : ∃ e, .error e ∈ rest)
    (wakes : List Wake) :
    ¬(wakes.foldl (pollStream ctx first) (⟨.created, {}⟩, rest)).1.log.SaysComplete := by
  have hrun : ∀ (wakes : List Wake) (s : Body × List StreamItem), Failing s →
      Failing (wakes.foldl (pollStream ctx first) s) := by
    intro wakes
    induction wakes with
    | nil => exact fun _ h => h
    | cons wake wakes ih => exact fun s h => ih _ (failing_poll h wake first)
  have hstart : BodyLog.Silent {} := ⟨nofun, rfl⟩
  have hfinal := hrun wakes (⟨.created, {}⟩, rest) ⟨hstart, herr⟩
  generalize wakes.foldl (pollStream ctx first) (⟨.created, {}⟩, rest) = s at hfinal
  obtain ⟨⟨gen, log⟩, items⟩ := s
  cases gen with
  | created => exact hfinal.1.not_saysComplete
  | awaiting s => exact hfinal.1.not_saysComplete
  | yielded s => exact hfinal.1.not_saysComplete
  | terminal s streamError => exact hfinal.1.not_saysComplete
  | finished => exact hfinal

variable (first) in
/-- Chunks only: polled as they come, the body ends with `[DONE]` and an `Ok`. -/
theorem complete_of_waiting (hser : ∀ c, (ctx.serialize c).isSome) (rest : List StreamItem) :
    ∀ {b : Body}, (∃ s, b.gen = .yielded s) → (∀ r ∈ rest, ∃ c, r = .ok c) →
      ∃ wakes : List Wake, (∃ f ∈ (wakes.foldl (pollStream ctx first) (b, rest)).1.log.frames,
          f.isDone = true) ∧
        ∃ d ∈ (wakes.foldl (pollStream ctx first) (b, rest)).1.log.decisions, d.outcome = .ok := by
  induction rest with
  | nil =>
    rintro ⟨gen, log⟩ ⟨s, rfl⟩ _
    refine ⟨[.ready, .ready], ⟨.done, ?_, rfl⟩,
      decisionOf ctx s.modelSeen (s.accUsage.getD zeroUsage) .ok, ?_, rfl⟩
    · exact List.mem_append_right _ (List.mem_singleton.2 rfl)
    · exact List.mem_append_right _ (List.mem_singleton.2 rfl)
  | cons r rest ih =>
    rintro ⟨gen, log⟩ ⟨s, rfl⟩ hok
    obtain ⟨c, rfl⟩ := hok r List.mem_cons_self
    have hpoll : ∃ s', (forwardChunk ctx s c log).gen = .yielded s' := by
      obtain ⟨json, hjson⟩ := Option.isSome_iff_exists.1 (hser (maskChunk ctx.mask c))
      simp only [forwardChunk, hjson]
      exact ⟨_, rfl⟩
    obtain ⟨wakes, hdone⟩ := ih hpoll fun r hr => hok r (List.mem_cons_of_mem _ hr)
    exact ⟨.ready :: wakes, hdone⟩

theorem complete_of_ok (hser : ∀ c, (ctx.serialize c).isSome) (first : ChatCompletionChunk)
    {rest : List StreamItem} (hok : ∀ r ∈ rest, ∃ c, r = .ok c) :
    ∃ wakes : List Wake, (∃ f ∈ (wakes.foldl (pollStream ctx first) (⟨.created, {}⟩, rest)).1.log.frames,
        f.isDone = true) ∧
      ∃ d ∈ (wakes.foldl (pollStream ctx first) (⟨.created, {}⟩, rest)).1.log.decisions,
        d.outcome = .ok := by
  have hfirst : ∃ s', (forwardChunk ctx (startLocals ctx) first {}).gen = .yielded s' := by
    obtain ⟨json, hjson⟩ := Option.isSome_iff_exists.1 (hser (maskChunk ctx.mask first))
    simp only [forwardChunk, hjson]
    exact ⟨_, rfl⟩
  obtain ⟨wakes, hdone⟩ := complete_of_waiting first hser rest hfirst hok
  exact ⟨.ready :: wakes, hdone⟩

end

/-! ## What the client is told -/

/-- Whatever the body has said so far, it calls the stream complete only if `terminal`. -/
def Truthful (ctx : StreamContext) (items : List StreamItem) (terminal : Prop) : Prop :=
  ∀ wakes body, streamBody ctx items wakes = some body → body.log.SaysComplete → terminal

variable {ctx : StreamContext} {up : Upstream} {d : Dialect} {reads : List Read}

/-- Among the payloads received is the upstream's own terminal event. -/
def Dialect.Terminated (d : Dialect) (up : Upstream) (reads : List Read) : Prop :=
  ∃ p ∈ receivedPayloads up.serde reads, d.terminal up p = true

/-- **The proxy is truthful about an upstream that closes early** iff it has sent its terminal
event, or its transport fails, or it sends a payload the adapter refuses, or nothing that gives a
chunk: a connection just closed passes for the end of the answer. -/
theorem truthful_iff (hser : ∀ c, (ctx.serialize c).isSome) (d : Dialect) (up : Upstream)
    (reads : List Read) :
    Truthful ctx (d.chunks up reads) (d.Terminated up reads) ↔
      d.Terminated up reads ∨ (transportFailure reads).isSome ∨
        (∃ p ∈ receivedPayloads up.serde reads, d.refuses up p = true) ∨
        d.translated up (receivedPayloads up.serde reads) = [] := by
  by_cases hterm : d.Terminated up reads
  · exact ⟨fun _ => .inl hterm, fun _ _ _ _ _ => hterm⟩
  have hopen : ∀ p ∈ receivedPayloads up.serde reads, d.terminal up p = false := fun p hp =>
    Bool.eq_false_iff.2 fun h => hterm ⟨p, hp, h⟩
  have herror := d.chunks_error_iff reads hopen
  constructor
  · intro htruth
    by_contra hno
    simp only [not_or] at hno
    obtain ⟨-, hfail, hrefused, hsome⟩ := hno
    have hchunks : d.chunks up reads = _ :=
      d.chunks_of_read (Option.not_isSome_iff_eq_none.1 hfail)
    have hnoerror : ¬∃ e, .error e ∈ d.chunks up reads := fun h =>
      (herror.1 h).elim hfail hrefused
    have hok : ∀ r ∈ d.chunks up reads, ∃ c, r = .ok c := by
      intro r hr
      cases r with
      | ok c => exact ⟨c, rfl⟩
      | error e => exact absurd ⟨e, hr⟩ hnoerror
    rw [← hchunks] at hsome
    unfold Truthful at htruth
    generalize d.chunks up reads = items at hok hsome htruth
    cases items with
    | nil => exact hsome rfl
    | cons r rest =>
      obtain ⟨first, rfl⟩ := hok r List.mem_cons_self
      -- chunks alone: the body ends as if it were complete
      obtain ⟨wakes, hdone, -⟩ := complete_of_ok hser first fun r hr =>
        hok r (List.mem_cons_of_mem _ hr)
      exact hterm (htruth wakes _ rfl (.inl hdone))
  · intro hcond wakes body hbody hcomplete
    exfalso
    by_cases herr : ∃ e, .error e ∈ d.chunks up reads
    · generalize d.chunks up reads = items at herr hbody
      rcases items with _ | ⟨_ | first, rest⟩
      · exact absurd hbody nofun
      · exact absurd hbody nofun
      · obtain rfl := Option.some.inj hbody
        obtain ⟨e, he⟩ := herr
        have hrest : .error e ∈ rest := by simpa using he
        exact not_complete_of_error rest ⟨e, hrest⟩ wakes hcomplete
    · -- no failure, and nothing to say: there is no body
      obtain ⟨hfail, hrefused⟩ := not_or.1 fun h => herr (herror.2 h)
      have hnil : d.translated up (receivedPayloads up.serde reads) = [] := by
        rcases hcond with h | h | h | h
        · exact absurd h hterm
        · exact absurd h hfail
        · exact absurd h hrefused
        · exact h
      rw [d.chunks_of_read (Option.not_isSome_iff_eq_none.1 hfail), hnil] at hbody
      exact absurd hbody nofun

/-- An upstream that speaks in one event. -/
def oneEventSerde : Serde where
  fromStr s :=
    if s = "\x7b\"type\":\"message_start\"\x7d" then .ok (.obj [("type", .str "message_start")])
    else .error "expected value"
  toString _ := none
  chunkFromValue _ := .error "missing field"
  fromUtf8Lossy bytes := String.ofList (bytes.map fun b => Char.ofNat b.toNat)

def oneEventUpstream : Upstream where
  serde := oneEventSerde
  now := 1700000000
  geminiId := ⟨"gemini-1", "gemini-2.0-flash", 1700000000⟩
  cohereStart := { id := "cohere-1", model := "command-r", created := 1700000000 }

/-- The line of that event. -/
def messageStartLine : List UInt8 :=
  "data: \x7b\"type\":\"message_start\"\x7d\n".toList.map fun c => c.toNat.toUInt8

theorem messageStartLine_payloads : receivedPayloads oneEventSerde [.ok messageStartLine] =
    ["\x7b\"type\":\"message_start\"\x7d"] := by decide

/-- A message that only starts: the client has its `[DONE]`, the ledger an `Ok`. -/
theorem closed_after_start : ∃ wakes body,
    streamBody plainContext (Dialect.anthropic.chunks oneEventUpstream [.ok messageStartLine])
      wakes = some body ∧
    (∃ f ∈ body.log.frames, f.isDone = true) ∧ (∃ d ∈ body.log.decisions, d.outcome = .ok) ∧
    ¬Dialect.anthropic.Terminated oneEventUpstream [.ok messageStartLine] := by
  have hchunks : Dialect.anthropic.chunks oneEventUpstream [.ok messageStartLine] =
      [.ok (.ofDelta "anthropic-stream" "" 1700000000 { role := some "assistant" })] := by
    rw [Dialect.chunks_of_read _ rfl]
    change Dialect.anthropic.translated oneEventUpstream
      (receivedPayloads oneEventSerde [.ok messageStartLine]) = _
    rw [messageStartLine_payloads]
    rfl
  obtain ⟨wakes, hdone, hok⟩ := complete_of_ok
    (fun _ => rfl : ∀ c, (plainContext.serialize c).isSome)
    (.ofDelta "anthropic-stream" "" 1700000000 { role := some "assistant" })
    (nofun : ∀ r ∈ ([] : List StreamItem), ∃ c, r = .ok c)
  refine ⟨wakes, _, by rw [hchunks]; rfl, hdone, hok, ?_⟩
  rintro ⟨p, hp, hterm⟩
  change p ∈ receivedPayloads oneEventSerde [.ok messageStartLine] at hp
  rw [messageStartLine_payloads] at hp
  obtain rfl := List.mem_singleton.1 hp
  exact absurd hterm (by decide)

theorem truthful_iff_started :
    Truthful plainContext (Dialect.anthropic.chunks oneEventUpstream [.ok messageStartLine])
        (Dialect.anthropic.Terminated oneEventUpstream [.ok messageStartLine]) ↔
      Dialect.anthropic.Terminated oneEventUpstream [.ok messageStartLine] ∨
        (transportFailure [.ok messageStartLine]).isSome ∨
        (∃ p ∈ receivedPayloads oneEventSerde [.ok messageStartLine],
          Dialect.anthropic.refuses oneEventUpstream p = true) ∨
        Dialect.anthropic.translated oneEventUpstream
          (receivedPayloads oneEventSerde [.ok messageStartLine]) = [] :=
  truthful_iff (fun _ => rfl) .anthropic oneEventUpstream [.ok messageStartLine]

end Routeplane
