import Routeplane.Proxy.SseBody

/-!
# A committed stream is accounted exactly once

The accounting of a streamed request over every life of its body: any polls, then the drop.

* `bodyInv_poll`: nothing is accounted while the guard is live, and everything once it is not.
* `runBody_accounted_iff`: one settlement, decision and event, with the latest model and
  usage, iff the body was polled before the drop.
* `runBody_failed_iff`: a failed stream is audited as failed iff the body was polled once
  more after its terminal frame.
-/

namespace Routeplane

/-! ## What the generator has received -/

/-- The chunk serialises once masked. -/
def StreamContext.sends (ctx : StreamContext) (chunk : ChatCompletionChunk) : Bool :=
  (ctx.serialize (maskChunk ctx.mask chunk)).isSome

/-- The chunks received from inside the loop by these polls. -/
def receivedFrom (ctx : StreamContext) : List NextItem → List ChatCompletionChunk
  | [] => []
  | .pending :: polls => receivedFrom ctx polls
  | .item (.ok c) :: polls => c :: if ctx.sends c then receivedFrom ctx polls else []
  | .item (.error _) :: _ => []
  | .ended :: _ => []
  | .elapsed :: polls => if ctx.idleMs = 0 then receivedFrom ctx polls else []

/-- The chunks received by these polls of a fresh body. -/
def received (ctx : StreamContext) (first : ChatCompletionChunk) :
    List NextItem → List ChatCompletionChunk
  | [] => []
  | _ :: polls => first :: if ctx.sends first then receivedFrom ctx polls else []

/-- The last model named, else the requested one. -/
def latestModel (hint : String) (chunks : List ChatCompletionChunk) : String :=
  ((chunks.filter fun c => !c.model.isEmpty).getLast?.map (·.model)).getD hint

/-- The last usage reported. -/
def latestUsage (chunks : List ChatCompletionChunk) : Option Usage :=
  (chunks.filterMap (·.usage)).getLast?

theorem latestModel_concat (hint : String) (cs : List ChatCompletionChunk) (c : ChatCompletionChunk) :
    latestModel hint (cs ++ [c]) = if c.model.isEmpty then latestModel hint cs else c.model := by
  by_cases h : c.model.isEmpty = true <;> simp [latestModel, h]

theorem latestUsage_concat (cs : List ChatCompletionChunk) (c : ChatCompletionChunk) :
    latestUsage (cs ++ [c]) = c.usage.or (latestUsage cs) := by
  cases h : c.usage <;> simp [latestUsage, h]

/-! ## The invariant of the body -/

/-- The locals and the guard agree on the latest model and usage, and the guard is armed. -/
structure LocalsOK (ctx : StreamContext) (s : StreamLocals) (cs : List ChatCompletionChunk) :
    Prop where
  armed : s.abortAcct.armed = true
  model : s.modelSeen = latestModel ctx.modelHint cs
  usage : s.accUsage = latestUsage cs
  guardModel : s.abortAcct.model = latestModel ctx.modelHint cs
  guardUsage : s.abortAcct.usage = latestUsage cs

/-- Nothing accounted yet. -/
def BodyLog.Unaccounted (log : BodyLog) : Prop :=
  log.settlements = [] ∧ log.decisions = [] ∧ log.events = []

/-- One settlement, one decision and one event, for this model and usage. -/
structure BodyLog.AccountedOnce (log : BodyLog) (model : String) (usage : Usage) : Prop where
  settled : log.settlements = [settlementOf model usage]
  decided : ∃ d, log.decisions = [d] ∧ d.model = BoundedText.sanitized model ∧
    d.usage = ⟨usage.promptTokens, usage.completionTokens, usage.totalTokens⟩
  reported : ∃ e, log.events = [e] ∧ e.model = model ∧ e.promptTokens = usage.promptTokens ∧
    e.completionTokens = usage.completionTokens ∧ e.totalTokens = usage.totalTokens ∧
    e.cachedTokens = usage.cachedTokens

/-- The accounting of a request whose generator received `cs`. -/
def Accounted (ctx : StreamContext) (log : BodyLog) (cs : List ChatCompletionChunk) : Prop :=
  log.AccountedOnce (latestModel ctx.modelHint cs) ((latestUsage cs).getD zeroUsage)

/-- A suspended body has accounted for nothing and carries the right locals; a finished one
has accounted once. -/
def BodyInv (ctx : StreamContext) (b : Body) (cs : List ChatCompletionChunk) : Prop :=
  match b.gen with
  | .created => b.log.Unaccounted ∧ cs = []
  | .awaiting s | .yielded s | .terminal s _ => b.log.Unaccounted ∧ LocalsOK ctx s cs
  | .finished => Accounted ctx b.log cs

/-- The chunks still to come from a body in this state, over these polls. -/
def toCome (ctx : StreamContext) (first : ChatCompletionChunk) (g : Gen) (polls : List NextItem) :
    List ChatCompletionChunk :=
  match g with
  | .created => received ctx first polls
  | .awaiting _ | .yielded _ => receivedFrom ctx polls
  | .terminal _ _ | .finished => []

section

variable {ctx : StreamContext} {first : ChatCompletionChunk} {s : StreamLocals} {log : BodyLog}
  {cs : List ChatCompletionChunk}

theorem localsOK_start (ctx : StreamContext) : LocalsOK ctx (startLocals ctx) [] :=
  ⟨rfl, rfl, rfl, rfl, rfl⟩

theorem LocalsOK.receive (h : LocalsOK ctx s cs) (c : ChatCompletionChunk) :
    LocalsOK ctx (s.receive c) (cs ++ [c]) where
  armed := h.armed
  model := by rw [latestModel_concat, ← h.model]; rfl
  usage := by rw [latestUsage_concat, ← h.usage]; rfl
  guardModel := by rw [latestModel_concat, ← h.guardModel]; rfl
  guardUsage := by rw [latestUsage_concat, ← h.guardUsage]; rfl

/-- A received chunk: the loop goes on, or the terminal frame is out. -/
theorem bodyInv_forwardChunk (first : ChatCompletionChunk) (hlog : log.Unaccounted)
    (h : LocalsOK ctx s cs) (c : ChatCompletionChunk) (polls : List NextItem) :
    BodyInv ctx (forwardChunk ctx s c log) (cs ++ [c]) ∧
      toCome ctx first (forwardChunk ctx s c log).gen polls =
        if ctx.sends c then receivedFrom ctx polls else [] := by
  have hr := h.receive c
  cases hj : ctx.serialize (maskChunk ctx.mask c) with
  | none =>
    simp only [forwardChunk, hj, StreamContext.sends, toTerminal]
    exact ⟨⟨hlog, hr⟩, rfl⟩
  | some json =>
    simp only [forwardChunk, hj, StreamContext.sends]
    exact ⟨⟨hlog, hr⟩, rfl⟩

/-- The loop from its await on. -/
theorem bodyInv_continueLoop (first : ChatCompletionChunk) (hlog : log.Unaccounted)
    (h : LocalsOK ctx s cs) (next : NextItem) (polls : List NextItem) :
    ∃ new, BodyInv ctx (continueLoop ctx s next log) (cs ++ new) ∧
      receivedFrom ctx (next :: polls) =
        new ++ toCome ctx first (continueLoop ctx s next log).gen polls := by
  match next with
  | .pending => exact ⟨[], by rw [List.append_nil]; exact ⟨hlog, h⟩, rfl⟩
  | .item (.ok c) =>
    obtain ⟨hinv, hcome⟩ := bodyInv_forwardChunk first hlog h c polls
    exact ⟨[c], hinv, by rw [continueLoop, hcome]; rfl⟩
  | .item (.error e) => exact ⟨[], by rw [List.append_nil]; exact ⟨hlog, h⟩, rfl⟩
  | .ended => exact ⟨[], by rw [List.append_nil]; exact ⟨hlog, h⟩, rfl⟩
  | .elapsed =>
    refine ⟨[], ?_, ?_⟩
    · rw [List.append_nil, continueLoop]
      split <;> exact ⟨hlog, h⟩
    · rw [continueLoop, receivedFrom]
      split <;> rfl

theorem accounted_inline (hlog : log.Unaccounted) (h : LocalsOK ctx s cs)
    (streamError : Option String) : Accounted ctx (inlineAccounting ctx s streamError log) cs := by
  obtain ⟨hs, hd, he⟩ := hlog
  simp only [Accounted, ← h.model, ← h.usage]
  refine ⟨by simp [inlineAccounting, hs], ⟨_, by simp [inlineAccounting, hd]; rfl, rfl, rfl⟩,
    ⟨_, by simp [inlineAccounting, he]; rfl, ?_⟩⟩
  cases streamError <;> exact ⟨rfl, rfl, rfl, rfl, rfl⟩

theorem accounted_abort (hlog : log.Unaccounted) (h : LocalsOK ctx s cs) :
    Accounted ctx (s.abortAcct.run ctx log) cs := by
  obtain ⟨hs, hd, he⟩ := hlog
  simp only [Accounted, ← h.guardModel, ← h.guardUsage]
  refine ⟨by simp [StreamAbortAccounting.run, hs],
    ⟨_, by simp [StreamAbortAccounting.run, hd]; rfl, rfl, rfl⟩,
    ⟨_, by simp [StreamAbortAccounting.run, he]; rfl, rfl, rfl, rfl, rfl, rfl⟩⟩

/-- **One poll keeps the invariant** and receives the chunks it should. -/
theorem bodyInv_poll (first : ChatCompletionChunk) {b : Body} (h : BodyInv ctx b cs)
    (next : NextItem) (polls : List NextItem) :
    ∃ new, BodyInv ctx (poll ctx first b next) (cs ++ new) ∧
      toCome ctx first b.gen (next :: polls) =
        new ++ toCome ctx first (poll ctx first b next).gen polls := by
  obtain ⟨gen, log⟩ := b
  cases gen with
  | created =>
    obtain ⟨hlog, rfl⟩ := h
    obtain ⟨hinv, hcome⟩ :=
      bodyInv_forwardChunk first hlog (localsOK_start ctx) first polls
    exact ⟨[first], hinv, by rw [poll, hcome]; rfl⟩
  | awaiting s => exact bodyInv_continueLoop first h.1 h.2 next polls
  | yielded s => exact bodyInv_continueLoop first h.1 h.2 next polls
  | terminal s e => exact ⟨[], by rw [List.append_nil]; exact accounted_inline h.1 h.2 e, rfl⟩
  | finished => exact ⟨[], by rw [List.append_nil]; exact h, rfl⟩

/-- **A run of polls keeps the invariant.** -/
theorem bodyInv_foldl (first : ChatCompletionChunk) (polls : List NextItem) :
    ∀ {b : Body} {cs : List ChatCompletionChunk}, BodyInv ctx b cs →
      BodyInv ctx (polls.foldl (poll ctx first) b) (cs ++ toCome ctx first b.gen polls) := by
  induction polls with
  | nil =>
    intro b cs h
    have hnil : toCome ctx first b.gen [] = [] := by cases b.gen <;> rfl
    rw [hnil, List.append_nil]
    exact h
  | cons next polls ih =>
    intro b cs h
    obtain ⟨new, hinv, hcome⟩ := bodyInv_poll first h next polls
    rw [hcome, ← List.append_assoc]
    exact ih hinv

theorem bodyInv_runPolls (ctx : StreamContext) (first : ChatCompletionChunk)
    (polls : List NextItem) :
    BodyInv ctx (runPolls ctx first polls) (received ctx first polls) :=
  have hstart : BodyInv ctx ⟨.created, {}⟩ [] := ⟨⟨rfl, rfl, rfl⟩, rfl⟩
  bodyInv_foldl first polls hstart

/-- The armed guard accounts once when the body is dropped. -/
theorem accounted_dropGuard (h : log.Unaccounted ∧ LocalsOK ctx s cs) :
    Accounted ctx (if s.abortAcct.armed then s.abortAcct.run ctx log else log) cs := by
  rw [if_pos h.2.armed]
  exact accounted_abort h.1 h.2

/-- Dropping a body that was started accounts once. -/
theorem accounted_dropBody {b : Body} (h : BodyInv ctx b cs) (hstarted : b.gen ≠ .created) :
    Accounted ctx (dropBody ctx b) cs := by
  obtain ⟨gen, log⟩ := b
  cases gen with
  | created => exact absurd rfl hstarted
  | awaiting s => exact accounted_dropGuard h
  | yielded s => exact accounted_dropGuard h
  | terminal s e => exact accounted_dropGuard h
  | finished => exact h

theorem forwardChunk_gen_ne (c : ChatCompletionChunk) :
    (forwardChunk ctx s c log).gen ≠ .created := by
  cases hj : ctx.serialize (maskChunk ctx.mask c) <;> simp [forwardChunk, hj, toTerminal]

theorem continueLoop_gen_ne (next : NextItem) : (continueLoop ctx s next log).gen ≠ .created := by
  match next with
  | .item (.ok c) => exact forwardChunk_gen_ne c
  | .pending | .item (.error _) | .ended => simp [continueLoop, toTerminal]
  | .elapsed => rw [continueLoop]; split <;> simp [toTerminal]

/-- A poll starts the generator for good. -/
theorem poll_gen_ne (b : Body) (next : NextItem) : (poll ctx first b next).gen ≠ .created := by
  rw [poll]
  split
  · exact forwardChunk_gen_ne first
  · exact continueLoop_gen_ne next
  · exact continueLoop_gen_ne next
  · simp
  · rename_i hb
    rw [hb]
    simp

theorem runPolls_gen_ne {polls : List NextItem} (h : polls ≠ []) :
    (runPolls ctx first polls).gen ≠ .created := by
  obtain ⟨init, last, rfl⟩ := List.eq_nil_or_concat polls |>.resolve_left h
  rw [runPolls, List.concat_eq_append, List.foldl_append]
  exact poll_gen_ne _ last

end

/-- **A committed stream is accounted exactly once iff its body was polled before the drop**,
and then with the model and usage it had received, whatever the chunks, errors, timeouts and
suspension points. -/
theorem runBody_accounted_iff (ctx : StreamContext) (first : ChatCompletionChunk)
    (polls : List NextItem) :
    Accounted ctx (runBody ctx first polls) (received ctx first polls) ↔ polls ≠ [] := by
  constructor
  · rintro h rfl
    exact absurd h.settled (by simp [runBody, runPolls, dropBody])
  · intro h
    exact accounted_dropBody (bodyInv_runPolls ctx first polls) (runPolls_gen_ne h)

/-! ## Failed streams -/

/-- The polls left after the one in which the stream failed, if it fails. -/
def afterFailureFrom (ctx : StreamContext) : List NextItem → Option (List NextItem)
  | [] => none
  | .pending :: polls => afterFailureFrom ctx polls
  | .item (.ok c) :: polls => if ctx.sends c then afterFailureFrom ctx polls else some polls
  | .item (.error _) :: polls => some polls
  | .ended :: _ => none
  | .elapsed :: polls => if ctx.idleMs = 0 then afterFailureFrom ctx polls else some polls

/-- The same from a fresh body, whose first poll forwards the first chunk. -/
def afterFailure (ctx : StreamContext) (first : ChatCompletionChunk) :
    List NextItem → Option (List NextItem)
  | [] => none
  | _ :: polls => if ctx.sends first then afterFailureFrom ctx polls else some polls

/-- The one decision says truncated and the one event says failed, with the stream-error cause. -/
def AuditedAsFailed (log : BodyLog) : Prop :=
  (∃ d, log.decisions = [d] ∧ d.outcome = .streamTruncated) ∧
    ∃ e, log.events = [e] ∧ e.success = false ∧ e.error = some "stream_error"

/-- A body suspended at its terminal error frame, nothing accounted. -/
def AtErrorFrame (b : Body) : Prop :=
  ∃ s err, b.gen = .terminal s (some err) ∧ b.log.Unaccounted ∧ s.abortAcct.armed = true

section

variable {ctx : StreamContext} {first : ChatCompletionChunk} {s : StreamLocals} {log : BodyLog}

theorem forwardChunk_failed (ctx : StreamContext) (hlog : log.Unaccounted)
    (harm : s.abortAcct.armed = true) (c : ChatCompletionChunk) :
    (ctx.sends c = false → AtErrorFrame (forwardChunk ctx s c log)) ∧
      (ctx.sends c = true → ∃ s', (forwardChunk ctx s c log).gen = .yielded s' ∧
        s'.abortAcct.armed = true ∧ (forwardChunk ctx s c log).log.Unaccounted) := by
  cases hj : ctx.serialize (maskChunk ctx.mask c) with
  | none =>
    simp only [forwardChunk, hj, StreamContext.sends, Option.isSome_none, toTerminal]
    exact ⟨fun _ => ⟨_, _, rfl, hlog, harm⟩, fun h => absurd h (by simp)⟩
  | some json =>
    simp only [forwardChunk, hj, StreamContext.sends, Option.isSome_some]
    exact ⟨fun h => absurd h (by simp), fun _ => ⟨_, rfl, harm, hlog⟩⟩

/-- A loop that fails reaches its error frame with exactly the later polls left. -/
theorem foldl_failed (polls rest : List NextItem) : ∀ {b : Body} {s : StreamLocals},
    b.gen = .awaiting s ∨ b.gen = .yielded s → s.abortAcct.armed = true → b.log.Unaccounted →
      afterFailureFrom ctx polls = some rest →
      ∃ b', AtErrorFrame b' ∧
        polls.foldl (poll ctx first) b = rest.foldl (poll ctx first) b' := by
  induction polls with
  | nil => intro b s _ _ _ h; simp [afterFailureFrom] at h
  | cons next polls ih =>
    intro b s hb harm hlog h
    have hpoll : poll ctx first b next = continueLoop ctx s next b.log := by
      rcases hb with hb | hb <;> rw [poll, hb]
    rw [List.foldl_cons, hpoll]
    match next with
    | .pending => exact ih (.inl rfl) harm hlog h
    | .item (.ok c) =>
      obtain ⟨hfail, hgo⟩ := forwardChunk_failed ctx hlog harm c
      rw [afterFailureFrom] at h
      by_cases hs : ctx.sends c = true
      · obtain ⟨s', hs', harm', hlog'⟩ := hgo hs
        rw [if_pos hs] at h
        exact ih (.inr hs') harm' hlog' h
      · rw [if_neg hs, Option.some.injEq] at h
        exact ⟨_, hfail (by simpa using hs), by rw [h]; rfl⟩
    | .item (.error e) =>
      obtain rfl : polls = rest := by simpa [afterFailureFrom] using h
      exact ⟨toTerminal s (some e.display) b.log, ⟨s, _, rfl, hlog, harm⟩, rfl⟩
    | .ended => simp [afterFailureFrom] at h
    | .elapsed =>
      rw [afterFailureFrom] at h
      by_cases hidle : ctx.idleMs = 0
      · rw [if_pos hidle] at h
        rw [continueLoop, if_pos hidle]
        exact ih (.inl rfl) harm hlog h
      · rw [if_neg hidle, Option.some.injEq] at h
        rw [continueLoop, if_neg hidle, h]
        refine ⟨toTerminal s _ b.log, ⟨s, _, rfl, hlog, harm⟩, rfl⟩

theorem runPolls_failed {polls rest : List NextItem} (h : afterFailure ctx first polls = some rest) :
    ∃ b', AtErrorFrame b' ∧ runPolls ctx first polls = rest.foldl (poll ctx first) b' := by
  cases polls with
  | nil => simp [afterFailure] at h
  | cons next polls =>
    rw [runPolls, List.foldl_cons]
    have hstart : BodyLog.Unaccounted {} := ⟨rfl, rfl, rfl⟩
    have harm : (startLocals ctx).abortAcct.armed = true := rfl
    obtain ⟨hfail, hgo⟩ := forwardChunk_failed ctx hstart harm first
    rw [afterFailure] at h
    by_cases hs : ctx.sends first = true
    · obtain ⟨s', hs', harm', hlog'⟩ := hgo hs
      rw [if_pos hs] at h
      exact foldl_failed polls rest (.inr hs') harm' hlog' h
    · rw [if_neg hs, Option.some.injEq] at h
      exact ⟨_, hfail (by simpa using hs), by rw [h]; rfl⟩

theorem foldl_finished (polls : List NextItem) {b : Body} (hb : b.gen = .finished) :
    polls.foldl (poll ctx first) b = b := by
  induction polls with
  | nil => rfl
  | cons next polls ih =>
    have hpoll : poll ctx first b next = b := by rw [poll, hb]
    rw [List.foldl_cons, hpoll, ih]

/-- Dropped at its error frame, a failed stream is audited as a success. -/
theorem dropBody_atErrorFrame {b : Body} (hb : AtErrorFrame b) :
    ¬ AuditedAsFailed (dropBody ctx b) := by
  obtain ⟨s, err, hgen, ⟨-, hd, -⟩, harm⟩ := hb
  rintro ⟨⟨d, hdec, hout⟩, -⟩
  rw [dropBody, hgen] at hdec
  simp only [harm, if_true, StreamAbortAccounting.run, hd, List.nil_append, List.cons.injEq] at hdec
  rw [← hdec.1] at hout
  exact absurd hout (by simp [decisionOf, decisionDraft])

/-- Polled past its error frame, it is audited as failed. -/
theorem poll_atErrorFrame {b : Body} (hb : AtErrorFrame b) (next : NextItem) (rest : List NextItem) :
    AuditedAsFailed (dropBody ctx (rest.foldl (poll ctx first) (poll ctx first b next))) := by
  obtain ⟨s, err, hgen, ⟨-, hd, he⟩, -⟩ := hb
  have hpoll : poll ctx first b next = ⟨.finished, inlineAccounting ctx s (some err) b.log⟩ := by
    rw [poll, hgen]
  rw [hpoll, foldl_finished rest rfl]
  refine ⟨⟨_, by simp [dropBody, inlineAccounting, hd]; rfl, rfl⟩,
    ⟨_, by simp [dropBody, inlineAccounting, he]; rfl, rfl, rfl⟩⟩

end

/-- **A failed stream is audited as failed iff its body is polled again after the terminal
frame.** The one point of drop that goes wrong is the suspension at that frame. -/
theorem runBody_failed_iff (ctx : StreamContext) (first : ChatCompletionChunk)
    {polls rest : List NextItem} (h : afterFailure ctx first polls = some rest) :
    AuditedAsFailed (runBody ctx first polls) ↔ rest ≠ [] := by
  obtain ⟨b', hb', hrun⟩ := runPolls_failed h
  rw [runBody, hrun]
  cases rest with
  | nil => exact iff_of_false (dropBody_atErrorFrame hb') (by simp)
  | cons next rest => exact iff_of_true (poll_atErrorFrame hb' next rest) (by simp)

/-! ## A stream of one chunk -/

def oneChunk : ChatCompletionChunk where
  id := "c1"
  object := "chat.completion.chunk"
  created := 0
  model := "gpt-4o"
  choices := [⟨0, { content := some "hi" }, none, none⟩]
  usage := some { promptTokens := 7, completionTokens := 1, totalTokens := 8 }

def plainContext : StreamContext where
  tenantId := "t1"
  requestId := "r1"
  provider := "openai"
  vkName := "vk"
  modelHint := "gpt-4o"
  region := none
  routeRegion := none
  classification := ⟨false, []⟩
  sovereign := false
  clientProviderRequested := false
  ttfcMs := 12
  cacheStatus := none
  cacheNamespace := none
  useCase := none
  outputMasked := none
  idleMs := 120000
  mask := id
  serialize := fun c => some c.id

/-- **A body dropped before its first poll leaves no trace**: the guard was never built. -/
theorem runBody_unaccounted : ¬ Accounted plainContext (runBody plainContext oneChunk []) [] := by
  intro h
  exact absurd h.settled (by decide)

/-- **An upstream error dropped at its error frame is audited as a success.** -/
theorem runBody_failed_as_success : ¬ AuditedAsFailed (runBody plainContext oneChunk
    [.pending, .item (.error (.network "openai" "connection reset"))]) := by
  rintro ⟨⟨d, hd, hout⟩, -⟩
  have hok : d.outcome = .ok := by
    obtain rfl := (List.cons.inj hd).1
    rfl
  rw [hok] at hout
  cases hout

/-- One more poll and the same stream is audited as failed. -/
theorem runBody_failed_polled : AuditedAsFailed (runBody plainContext oneChunk
    [.pending, .item (.error (.network "openai" "connection reset")), .pending]) :=
  (@runBody_failed_iff plainContext oneChunk _ [.pending] rfl).2 (by simp)

end Routeplane
