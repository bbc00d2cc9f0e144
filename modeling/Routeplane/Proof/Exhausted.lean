import Routeplane.Endpoints.Handlers

/-!
# How an exhausted request is classified

The walk of the endpoints beside chat keeps one flag for the answer of a request no provider served:
whether the provider last called lacks the endpoint. A provider that is skipped leaves the flag as it
is, one that is called sets it anew. So an earlier provider that failed for another reason is
forgotten when the last one called lacks the endpoint.

* `attemptProvider_cases`: what one provider of the chain adds to the log.
* `attemptAll_spec`: the flag is what the last provider called reported.
* `runAttempts_exhausted`: the answer and the decisions of an exhausted walk.
* `handle_eq_runAttempts`: the handlers answer as their walk does.
* `exhausted_classified_iff`: when the classification is by all attempts.
-/

namespace Routeplane.Endpoint

/-- What the provider of a step reported, if it was called and failed: whether it lacks the
endpoint. -/
def Step.report? {ρ : Type} : Step ρ → Option Bool
  | failed notSupported _ => some notSupported
  | skip _ | stop _ | won _ => none

def Step.answer? {ρ : Type} : Step ρ → Option (Answer ρ)
  | won answer => some answer
  | skip _ | stop _ | failed .. => none

/-- The ledger decision of an exhausted request. -/
def Event.isAllFailed {π : Type} : Event π → Bool
  | decision d => d.outcome == .allFailed
  | _ => false

/-- The decisions for an exhausted request so far. -/
def World.allFailed {π : Type} (w : World π) : ℕ := w.events.countP Event.isAllFailed

section Walk

variable {π ρ : Type} (site : Site) (call : Call) (s : Slice π ρ) (env : Env ρ) (deadline : Deadline)

/-- What the providers of the chain come to, up to the first answer or the deadline. -/
def steps : List String → World π → List (Step ρ)
  | [], _ => []
  | name :: names, w =>
    match attemptProvider site call s env deadline name w with
    | (.won answer, _) => [.won answer]
    | (.stop e, _) => [.stop e]
    | (.skip e, w) => .skip e :: steps names w
    | (.failed notSupported e, w) => .failed notSupported e :: steps names w

/-- What the providers that were called and failed reported, in order. -/
def reports (names : List String) (w : World π) : List Bool :=
  (steps site call s env deadline names w).filterMap Step.report?

variable {site call s env deadline}

@[simp] theorem World.allFailed_log (w : World π) (es : List (Event π)) :
    (w.log es).allFailed = w.allFailed + es.countP Event.isAllFailed :=
  List.countP_append

/-- **What one provider of the chain adds to the log**: nothing, or the call and its failure. -/
theorem attemptProvider_cases {name : String} {w w' : World π} {step : Step ρ}
    (h : attemptProvider site call s env deadline name w = (step, w')) (hlost : step.answer? = none) :
    (step.report? = none ∧ w'.events = w.events) ∨
      ∃ handed e, step.report? = some (s.isNotSupported e) ∧ w'.events =
        w.events ++ [.handed handed, .usage (s.failureEvent site call name e.display)] := by
  unfold attemptProvider at h
  split at h
  · obtain ⟨rfl, rfl⟩ := Prod.mk.inj h
    exact .inl ⟨rfl, rfl⟩
  simp only at h
  split at h
  · obtain ⟨rfl, rfl⟩ := Prod.mk.inj h
    exact .inl ⟨rfl, rfl⟩
  split at h
  · obtain ⟨rfl, rfl⟩ := Prod.mk.inj h
    exact .inl ⟨rfl, rfl⟩
  split at h
  · obtain ⟨rfl, rfl⟩ := Prod.mk.inj h
    exact .inl ⟨rfl, rfl⟩
  rename_i adapter hresolve havailable _ apiKey hkey _ timeout htimeout
  cases hcall : callProvider env ⟨name, adapter, apiKey, s.payload⟩ timeout
      { w with health := (w.health.isAvailable call.tenantId name w.now).2 } with
  | mk outcome rest =>
    obtain ⟨elapsed, w₁⟩ := rest
    rw [hcall] at h
    have hevents : w₁.events = w.events ++ [.handed ⟨name, adapter, apiKey, s.payload⟩] :=
      congrArg (fun r => r.2.2.events) hcall.symm
    cases outcome with
    | ok response =>
      obtain ⟨rfl, -⟩ := Prod.mk.inj h
      cases hlost
    | error e =>
      obtain ⟨rfl, rfl⟩ := Prod.mk.inj h
      refine .inr ⟨⟨name, adapter, apiKey, s.payload⟩, e, rfl, ?_⟩
      show w₁.events ++ _ = _
      rw [hevents, List.append_assoc]
      rfl

/-- **The flag is what the last provider called reported**, by induction on the chain. -/
theorem attemptAll_spec (names : List String) (notes : Notes) (w : World π) :
    (attemptAll site call s env deadline names notes w).1 =
        (steps site call s env deadline names w).findSome? Step.answer? ∧
      (attemptAll site call s env deadline names notes w).2.1.lastNotSupported =
        (reports site call s env deadline names w).getLast?.getD notes.lastNotSupported := by
  induction names generalizing notes w with
  | nil => exact ⟨rfl, rfl⟩
  | cons name names ih =>
    unfold reports at ih ⊢
    unfold attemptAll steps
    cases attemptProvider site call s env deadline name w with
    | mk step w' =>
      cases step with
      | won answer => exact ⟨rfl, rfl⟩
      | stop e => exact ⟨rfl, rfl⟩
      | skip e => exact ih { notes with lastError := e } w'
      | failed notSupported e =>
        obtain ⟨hanswer, hflag⟩ := ih ⟨e, notSupported⟩ w'
        refine ⟨hanswer, hflag.trans ?_⟩
        simp only [List.filterMap_cons, Step.report?, List.getLast?_cons, Option.getD_some]

/-- No provider of the chain answers. -/
def Exhausted (site : Site) (call : Call) (s : Slice π ρ) (env : Env ρ) (deadline : Deadline)
    (names : List String) (w : World π) : Prop :=
  ∀ step ∈ steps site call s env deadline names w, step.answer? = none

/-- A walk without an answer hands the payload to the providers that report, and to no others, and
writes no decision. -/
theorem attemptAll_log (names : List String) (notes : Notes) (w : World π)
    (h : Exhausted site call s env deadline names w) :
    (attemptAll site call s env deadline names notes w).2.2.handed.length =
        w.handed.length + (reports site call s env deadline names w).length ∧
      (attemptAll site call s env deadline names notes w).2.2.allFailed = w.allFailed := by
  induction names generalizing notes w with
  | nil => exact ⟨rfl, rfl⟩
  | cons name names ih =>
    unfold Exhausted steps at h
    unfold reports at ih ⊢
    unfold attemptAll steps
    cases hattempt : attemptProvider site call s env deadline name w with
    | mk step w' =>
      rw [hattempt] at h
      have hkeep : step.report? = none → step.answer? = none →
          w'.handed = w.handed ∧ w'.allFailed = w.allFailed := by
        intro hreport hlost
        rcases attemptProvider_cases hattempt hlost with ⟨-, hevents⟩ | ⟨_, _, hreport', -⟩
        · unfold World.handed World.allFailed
          rw [hevents]
          exact ⟨rfl, rfl⟩
        · rw [hreport] at hreport'
          cases hreport'
      cases step with
      | won answer => exact absurd (h _ List.mem_cons_self) (Option.some_ne_none _)
      | stop e =>
        obtain ⟨hhanded, hcount⟩ := hkeep rfl rfl
        exact ⟨congrArg List.length hhanded, hcount⟩
      | skip e =>
        obtain ⟨hhanded, hcount⟩ := hkeep rfl rfl
        have hrest : Exhausted site call s env deadline names w' :=
          fun step hstep => h step (List.mem_cons_of_mem _ hstep)
        obtain ⟨hlength, hdecisions⟩ := ih { notes with lastError := e } w' hrest
        rw [hhanded] at hlength
        exact ⟨hlength, hdecisions.trans hcount⟩
      | failed notSupported e =>
        have hrest : Exhausted site call s env deadline names w' :=
          fun step hstep => h step (List.mem_cons_of_mem _ hstep)
        obtain ⟨hlength, hdecisions⟩ := ih ⟨e, notSupported⟩ w' hrest
        rcases attemptProvider_cases hattempt rfl with ⟨hreport, -⟩ | ⟨handed, e', -, hevents⟩
        · cases hreport
        · have hhanded : w'.handed = w.handed ++ [handed] := by
            unfold World.handed
            rw [hevents, List.filterMap_append]
            rfl
          have hcount : w'.allFailed = w.allFailed := by
            unfold World.allFailed
            rw [hevents, List.countP_append]
            rfl
          refine ⟨?_, hdecisions.trans hcount⟩
          rw [hlength, hhanded, List.length_append, List.length_singleton, List.filterMap_cons]
          show _ = _ + ((_ : List Bool).length + 1)
          omega

/-- **The answer and the decisions of an exhausted walk.** -/
theorem runAttempts_exhausted (names : List String) (w : World π)
    (h : Exhausted site call s env deadline names w) :
    ((runAttempts site call s env deadline names w).1,
        (runAttempts site call s env deadline names w).2.allFailed) =
      if (reports site call s env deadline names w).getLast? = some true then
        (.error s.notSupported, w.allFailed)
      else (.error upstreamAllFailed, w.allFailed + 1) := by
  obtain ⟨hanswer, hflag⟩ := @attemptAll_spec _ _ site call s env deadline names {} w
  obtain ⟨-, hdecisions⟩ := attemptAll_log names {} w h
  have hnone : (steps site call s env deadline names w).findSome? Step.answer? = none :=
    List.findSome?_eq_none_iff.2 h
  rw [hnone] at hanswer
  unfold runAttempts
  cases hwalk : attemptAll site call s env deadline names {} w with
  | mk answer rest =>
    obtain ⟨notes, w'⟩ := rest
    rw [hwalk] at hanswer hflag hdecisions
    have hlost : answer = none := hanswer
    subst hlost
    have hcount : w'.allFailed = w.allFailed := hdecisions
    have hlast : notes.lastNotSupported = true ↔
        (reports site call s env deadline names w).getLast? = some true := by
      have heq : notes.lastNotSupported =
          (reports site call s env deadline names w).getLast?.getD false := hflag
      rw [heq]
      cases (reports site call s env deadline names w).getLast? <;> simp
    dsimp only
    by_cases hreport : (reports site call s env deadline names w).getLast? = some true
    · rw [if_pos hreport, if_pos (hlast.2 hreport), hcount]
    · rw [if_neg hreport, if_neg (fun hnotes => hreport (hlast.1 hnotes)), World.allFailed_log, hcount]
      rfl

end Walk

/-! ## Classification -/

/-- A classification by all attempts: the endpoint is not supported iff some provider was called and
each that was reported so; otherwise all failed, with one decision. -/
structure ClassifiedByAll {ρ : Type} (notSupported : ApiError) (reports : List Bool)
    (answer : Answer ρ) (decisions : ℕ) : Prop where
  notSupported : answer = .error notSupported ↔ reports ≠ [] ∧ ∀ report ∈ reports, report = true
  allFailed : ¬(reports ≠ [] ∧ ∀ report ∈ reports, report = true) →
    answer = .error upstreamAllFailed ∧ decisions = 1

/-- Each endpoint has an envelope of its own. -/
theorem notSupported_ne (site : Site) (call : Call) (r : Request) (sent : r.Payload) :
    (r.slice site call sent).notSupported ≠ upstreamAllFailed := by
  have hstatus : (r.slice site call sent).notSupported.status = 422 := by
    cases r with
    | embeddings | rerank | imageGeneration | speech => rfl
    | audio op => cases op <;> rfl
  intro heq
  rw [heq] at hstatus
  exact absurd hstatus (by decide)

/-- A handler that has read, ordered and admitted its request answers as its walk does. -/
theorem handle_eq_runAttempts {site : Site} {call : Call} {r : Request} {sent : r.Payload}
    {env : Env r.Response} {w : World r.Payload} {names : List String}
    (hread : r.read site = .ok sent) (heligible : (r.slice site call sent).eligible site call = .ok names)
    {a : Limits.Advisory}
    (hadmitted : ((guards site call).admitRequest w.now w.heap).1 = .allowed a) :
    ∃ ordered w', w'.events = w.events ++ [.admitted (guards site call) (.allowed a)] ∧
      r.handle site call env w = runAttempts site call (r.slice site call sent) env
        (.start site.deadlineConfig w.now) ordered w' := by
  rw [Request.handle_of_read hread]
  unfold Slice.run runEligible
  rw [heligible]
  simp only [hadmitted]
  exact ⟨_, _, rfl, rfl⟩

/-- **When the classification is by all attempts**: not when the provider called last lacks the
endpoint and one before it failed for another reason. -/
theorem exhausted_classified_iff (site : Site) (call : Call) (r : Request) (sent : r.Payload)
    (env : Env r.Response) (deadline : Deadline) (ordered : List String) (w : World r.Payload)
    (h : Exhausted site call (r.slice site call sent) env deadline ordered w) :
    ClassifiedByAll (r.slice site call sent).notSupported
        (reports site call (r.slice site call sent) env deadline ordered w)
        (runAttempts site call (r.slice site call sent) env deadline ordered w).1
        ((runAttempts site call (r.slice site call sent) env deadline ordered w).2.allFailed -
          w.allFailed) ↔
      ¬((reports site call (r.slice site call sent) env deadline ordered w).getLast? = some true ∧
        false ∈ reports site call (r.slice site call sent) env deadline ordered w) := by
  have hwalk := runAttempts_exhausted ordered w h
  have hne := notSupported_ne site call r sent
  generalize reports site call (r.slice site call sent) env deadline ordered w = flags at hwalk ⊢
  have hall : (∀ report ∈ flags, report = true) ↔ false ∉ flags := by
    constructor
    · exact fun hall hmem => Bool.false_ne_true (hall false hmem)
    · intro hmem report hreport
      cases report with
      | true => rfl
      | false => exact absurd hreport hmem
  by_cases hlast : flags.getLast? = some true
  · rw [if_pos hlast] at hwalk
    obtain ⟨hanswer, hdecisions⟩ := Prod.mk.inj hwalk
    have hnonempty : flags ≠ [] := by
      rintro rfl
      cases hlast
    rw [hanswer, hdecisions]
    constructor
    · rintro ⟨hsupported, -⟩ ⟨-, hmem⟩
      exact hall.1 (hsupported.1 rfl).2 hmem
    · intro hno
      have hflags : ∀ report ∈ flags, report = true := hall.2 fun hmem => hno ⟨hlast, hmem⟩
      exact ⟨iff_of_true rfl ⟨hnonempty, hflags⟩, fun hother => absurd ⟨hnonempty, hflags⟩ hother⟩
  · rw [if_neg hlast] at hwalk
    obtain ⟨hanswer, hdecisions⟩ := Prod.mk.inj hwalk
    rw [hanswer, hdecisions]
    refine iff_of_true ⟨iff_of_false ?_ ?_, fun _ => ⟨rfl, Nat.add_sub_cancel_left _ _⟩⟩
      fun hboth => hlast hboth.1
    · intro heq
      exact hne (Answer.error.inj heq).symm
    · rintro ⟨hnonempty, hflags⟩
      -- the last report is one of them
      refine hlast ?_
      rw [List.getLast?_eq_some_getLast hnonempty, hflags _ (List.getLast_mem hnonempty)]

/-! ### Two providers -/

/-- A gateway with a provider that offers embeddings and one that does not. -/
def pairSite : Site where
  app := { providers := [("openai", { name := "openai" }), ("anthropic", { name := "anthropic" })] }
  classify _ := ⟨false, []⟩
  processText t := t

def pairCall : Call where
  key := { name := "batch", providerKeys := [("openai", "sk-openai"), ("anthropic", "sk-ant")] }
  routeplaneKey := "rp-batch"
  tenant := { tenantId := "acme" }
  provider := some (some "openai,anthropic")

def sentence : EmbeddingRequest where
  model := "text-embedding-3-small"
  input := .single "a cat"

/-- The two calls of the request fail with these errors. -/
def failingWith (first second : ProviderError) : Env EmbeddingResponse where
  reply calls := ⟨.error (if calls = 0 then first else second), 10⟩

def lacksEmbeddings (provider : String) : ProviderError :=
  .badRequest provider 422 "embeddings_not_supported: no first-party embeddings endpoint"

/-- When both lack the endpoint the request is classified by both. -/
theorem exhausted_classified_both :
    ClassifiedByAll (embeddingsSlice pairSite pairCall sentence).notSupported [true, true]
      (runAttempts pairSite pairCall (embeddingsSlice pairSite pairCall sentence)
        (failingWith (lacksEmbeddings "openai") (lacksEmbeddings "anthropic")) (.start {} 0)
        ["openai", "anthropic"] (.start 0 default)).1 0 := by
  refine (exhausted_classified_iff pairSite pairCall (.embeddings sentence) sentence
    (failingWith (lacksEmbeddings "openai") (lacksEmbeddings "anthropic")) (.start {} 0)
    ["openai", "anthropic"] (.start 0 default) ?_).2 ?_
  · intro step hstep
    have hsteps : step ∈ [.failed true (lacksEmbeddings "openai").display,
        .failed true (lacksEmbeddings "anthropic").display] := hstep
    rcases List.mem_cons.1 hsteps with rfl | hsteps
    · rfl
    · rw [List.mem_singleton.1 hsteps]
      rfl
  · exact fun hboth => absurd hboth.2 (by decide)

/-- The first provider is down and the second lacks the endpoint: the request is answered as if no
provider had it, and no decision is recorded. -/
theorem outage_reported_unsupported :
    (Endpoint.embeddings pairSite pairCall sentence
        (failingWith (.upstream5xx "openai" 503 "overloaded") (lacksEmbeddings "anthropic"))
        (.start 0 default)).1 =
      .error (embeddingsSlice pairSite pairCall sentence).notSupported ∧
    (Endpoint.embeddings pairSite pairCall sentence
        (failingWith (.upstream5xx "openai" 503 "overloaded") (lacksEmbeddings "anthropic"))
        (.start 0 default)).2.allFailed = 0 ∧
    reports pairSite pairCall (embeddingsSlice pairSite pairCall sentence)
        (failingWith (.upstream5xx "openai" 503 "overloaded") (lacksEmbeddings "anthropic"))
        (.start {} 0) ["openai", "anthropic"] (.start 0 default) = [false, true] :=
  ⟨rfl, rfl, rfl⟩

end Routeplane.Endpoint
