import Routeplane.Proof.EveryTarget

/-!
# The model that is dispatched

The model gates look at the model a request names and at the models a combo pins. What a provider is
sent is the model a target shapes the request to, and the config that has the say need not be the
one that was looked at.

* `model_gates_cover_iff`: every dispatched model passes the gates exactly if no target that can be
  called pins one that does not, and none sends an unprovisioned combo's name.
* `gates_bypassed`: a saved config that pins a model the overlay disables.
-/

namespace Routeplane

/-- Circumstances whose clock runs forward. -/
structure Circumstances.Orderly {ρ : Type} (c : Circumstances ρ) : Prop where
  capped : c.startedAt ≤ c.cappedAt
  clientCapped : c.cappedAt ≤ c.clientCappedAt
  ordered : c.clientCappedAt ≤ c.orderedAt
  admitted : c.orderedAt ≤ c.admittedAt
  served : c.admittedAt ≤ c.servedAt
  strands : ∀ rt, c.servedAt ≤ (c.strands rt).now

/-- A target that a gated request can be sent to: of the config that has the say, not filtered out
by residency, with a provider that can be called, for a request that can be admitted and has time. -/
structure Gateway.Offers (gw : Gateway) (call : ChatCall) (payload : ChatCompletionRequest)
    (combo config : Option RoutingConfig) (t : TargetPlan) : Prop where
  fits : gw.checkChatInput payload = none
  routed : gw.routingConfig call combo = .ok config
  eligible : ∃ metadata seed targets, parseMetadata gw.parsers call.metadata = .ok metadata ∧
    gw.attemptTargets (gw.required call payload) config.isSome
      (gw.flatTargets call payload config metadata seed).targets = .ok targets ∧ t ∈ targets
  admitted : ∃ now trips hr a, gw.admitRequest (gw.guards call payload) now trips hr = .allowed a
  callable : Callable gw.site.app call.key call.tenantId t.provider
  inTime : 0 < gw.site.deadlineConfig.requestDeadline ∧ config.bind (·.timeoutMs) ≠ some 0

/-- The deadline of a request, with its caps folded in at once. -/
def Gateway.freshDeadline (gw : Gateway) (call : ChatCall) (config : Option RoutingConfig)
    (now : ℕ) : Deadline :=
  ((Deadline.start gw.site.deadlineConfig now).withRequestCap (config.bind (·.timeoutMs))
    now).withClientRequestCap call.requestTimeout now

section

variable {ρ : Type} {gw : Gateway} {call : ChatCall} {payload : ChatCompletionRequest}
  {combo config : Option RoutingConfig} {t : TargetPlan}

/-! ## Time -/

theorem remaining_withRequestCap {d : Deadline} {now later : ℕ} {cap : Option ℕ} :
    (d.withRequestCap cap now).remaining later ≠ 0 →
      d.remaining later ≠ 0 ∧ (now ≤ later → cap ≠ some 0) := by
  unfold Deadline.withRequestCap Deadline.remaining
  intro h
  cases cap with
  | none => exact ⟨h, fun _ h' => nomatch h'⟩
  | some ms =>
    simp only at h
    split at h
    · simp only at h
      refine ⟨by omega, fun hle hzero => ?_⟩
      have hms : ms = 0 := Option.some.inj hzero
      omega
    · refine ⟨h, fun hle hzero => ?_⟩
      have hms : ms = 0 := Option.some.inj hzero
      omega

theorem remaining_withClientRequestCap {d : Deadline} {now later : ℕ} {cap : Option ℕ}
    (h : (d.withClientRequestCap cap now).remaining later ≠ 0) : d.remaining later ≠ 0 := by
  unfold Deadline.withClientRequestCap Deadline.remaining at h
  unfold Deadline.remaining
  cases cap with
  | none => exact h
  | some ms =>
    simp only at h
    split at h
    · simp only at h
      omega
    · exact h

/-- A request whose budgets are not nil has time at once. -/
theorem freshDeadline_remaining (hdeadline : 0 < gw.site.deadlineConfig.requestDeadline)
    (hcap : config.bind (·.timeoutMs) ≠ some 0) (now : ℕ) :
    (gw.freshDeadline call config now).remaining now ≠ 0 := by
  -- the header's budget is read only when it is positive
  have hheader : ∀ ms, call.requestTimeout = some ms → 0 < ms := by
    intro ms hms
    unfold ChatCall.requestTimeout at hms
    rw [Option.filter_eq_some_iff] at hms
    exact of_decide_eq_true hms.2
  have hfold : ∀ (d : Deadline) (cap : Option ℕ), now < d.expiresAt → cap ≠ some 0 →
      now < (d.withRequestCap cap now).expiresAt := by
    intro d cap hd hcap
    unfold Deadline.withRequestCap
    cases cap with
    | none => exact hd
    | some ms =>
      have hms : ms ≠ 0 := fun h => hcap (by rw [h])
      simp only
      split
      · show now < now + ms
        omega
      · exact hd
  have hstart : now < (Deadline.start gw.site.deadlineConfig now).expiresAt := by
    show now < now + _
    omega
  have hserver := hfold _ _ hstart hcap
  unfold Gateway.freshDeadline Deadline.withClientRequestCap Deadline.remaining
  cases hrequest : call.requestTimeout with
  | none =>
    simp only
    omega
  | some ms =>
    have hms := hheader ms hrequest
    simp only
    split
    · show now + ms - now ≠ 0
      omega
    · omega

/-! ## From the run to the target -/

/-- **A call is one of a target the request can be sent to.** -/
theorem offers_of_dispatch {c : Circumstances ρ} (hc : c.Orderly) {d : Dispatch}
    (hd : d ∈ (chatCompletionsPipeline gw call c payload combo).dispatches) :
    ∃ config t, gw.Offers call payload combo config t ∧
      d.request = t.params.apply (gw.forwarded call payload) := by
  obtain ⟨e, he, hdispatch⟩ := List.mem_filterMap.1 hd
  rcases chatCompletionsPipeline_cases gw call c payload combo with
    hidle | ⟨config, metadata, targets, s, asked, hserves, a, hevents⟩
  · rcases hidle e he with ⟨p, rfl⟩ | ⟨guards, limiter, b, rfl⟩
    · cases hdispatch
    · cases hdispatch
  · rw [hevents] at he
    have hrecord := mem_record_of_served he hdispatch
    obtain ⟨t, ht⟩ := Service.record_handed gw.site.app gw.site.deadlineConfig s _ hrecord
    have hmem := hserves.mem_targets (List.mem_of_getElem? ht.planned)
    obtain ⟨a', hallowed⟩ := hserves.admitted
    have hservice := hserves.service
    have hstarts : s.execution.StartsAfter s.now := by
      rw [hservice]
      unfold plannedService Circumstances.execution
      simp only
      split
      · trivial
      · split
        · trivial
        · exact hc.strands
    have htime := Service.dispatched_inTime hstarts hrecord
    rw [hservice] at ht htime
    have hserver := remaining_withClientRequestCap htime
    obtain ⟨hstart, hcap⟩ := remaining_withRequestCap hserver
    have hordered := hc.ordered
    have hadmitted := hc.admitted
    have hserved := hc.served
    have hclient := hc.clientCapped
    have hcapped := hc.capped
    refine ⟨config, t, ⟨hserves.fits, hserves.routed, ⟨metadata, c.seed, targets, hserves.parsed,
      hserves.eligible, hmem⟩, ⟨c.admittedAt, c.trips, (c.heap, c.redis), a', hallowed⟩, ht.callable,
      ?_, hcap ?_⟩, ht.request⟩
    · unfold Deadline.remaining Deadline.start at hstart
      change c.startedAt + gw.site.deadlineConfig.requestDeadline - c.servedAt ≠ 0 at hstart
      omega
    · show c.cappedAt ≤ c.servedAt
      omega

/-! ## From the target to a run -/

/-- Every provider refuses at once, nothing is cached, and no provider has a history. -/
def refusingCircumstances (now : ℕ) (seed : BitVec 64) (trips : ℕ → Limits.Trip)
    (hr : Limits.Heap × Limits.Redis) (strands : ReadyTarget → Strand Unit) (steps : ℕ) :
    Circumstances Unit where
  env := answering refusal 0
  health := default
  seed := seed
  startedAt := now
  cappedAt := now
  clientCappedAt := now
  orderedAt := now
  admittedAt := now
  servedAt := now
  heap := hr.1
  redis := hr.2
  trips := trips
  meanwhile := fun _ => default
  strands := strands
  steps := steps

/-- **Without a hit in the caches a request is filtered and served.** -/
theorem chatCompletionsPipeline_of_missed {c : Circumstances ρ} {metadata : Metadata}
    (hcached : c.cached = fun _ => false) (hsemantic : c.semanticHit = fun _ => false)
    (hfits : gw.checkChatInput payload = none) (hrouted : gw.routingConfig call combo = .ok config)
    (hparsed : parseMetadata gw.parsers call.metadata = .ok metadata) :
    ∃ asked, (chatCompletionsPipeline gw call c payload combo).events =
      asked ++ (serveFlat gw call c payload config
        (gw.flatTargets call payload config metadata c.seed)).events := by
  have hexact : ∀ plan, exactHit c plan = false := by
    intro plan
    unfold exactHit
    rw [hcached]
    split <;> rfl
  have hlookup : ∀ plan targets, (semanticLookup gw call c plan targets).2 = false := by
    intro plan targets
    unfold semanticLookup
    rw [hsemantic]
    split
    · rfl
    · exact Bool.and_false _
  unfold chatCompletionsPipeline
  rw [hfits, hrouted, hparsed]
  simp only [hexact, hlookup, Bool.false_eq_true, if_false]
  exact ⟨_, rfl⟩

/-- **A target the request can be sent to is sent it, in some run.** -/
theorem exists_dispatch (h : gw.Offers call payload combo config t) :
    ∃ c : Circumstances Unit, c.Orderly ∧
      ∃ d ∈ (chatCompletionsPipeline gw call c payload combo).dispatches,
        d.request = t.params.apply (gw.forwarded call payload) := by
  obtain ⟨metadata, seed, targets, hparsed, heligible, hmem⟩ := h.eligible
  obtain ⟨now, trips, hr, a, hallowed⟩ := h.admitted
  -- the plan does not depend on the strands nor on how long the race is followed
  let flat := gw.flatTargets call payload config metadata seed
  let idle : Strand Unit := ⟨answering refusal 0, now, default, 0⟩
  let c₀ := refusingCircumstances now seed trips hr (fun _ => idle) 0
  let ordered := (orderTargets c₀.router call.tenantId flat.strategy default now c₀.nanos targets).1
  let r := plannedRequest gw call c₀ payload config flat ordered
  have hlive : t ∈ ordered := by
    refine (orderTargets_perm ..).symm.subset (List.mem_filter.2 ⟨hmem, ?_⟩)
    rfl
  have htime : (r.deadline gw.site.deadlineConfig).remaining now ≠ 0 :=
    freshDeadline_remaining h.inTime.1 h.inTime.2 now
  obtain ⟨steps, hsent⟩ := Service.exists_dispatched gw.site.app gw.site.deadlineConfig r now htime c₀
    rfl (payload.stream.getD false) flat.hedge
  obtain ⟨d, hd, -, hrequest⟩ := hsent t hlive h.callable
  let c := refusingCircumstances now seed trips hr
    (refusedStrand gw.site.app gw.site.deadlineConfig r now) steps
  have horderly : c.Orderly := ⟨le_rfl, le_rfl, le_rfl, le_rfl, le_rfl, fun _ => le_rfl⟩
  refine ⟨c, horderly, d, ?_, hrequest⟩
  obtain ⟨asked, hevents⟩ :=
    chatCompletionsPipeline_of_missed (c := c) rfl rfl h.fits h.routed hparsed
  have hserved : (serveFlat gw call c payload config flat).events =
      .admitted (gw.guards call payload) gw.limiter (.allowed a) ::
        servedEvents gw (gw.guards call payload) (plannedService gw call c payload config flat
          targets) := by
    unfold serveFlat
    rw [heligible]
    show (serveTargets gw call c payload config flat targets).events = _
    unfold serveTargets
    have hallow : gw.admitRequest (gw.guards call payload) c.admittedAt c.trips (c.heap, c.redis) =
        .allowed a := hallowed
    simp only [hallow, servedEvents, List.cons_append]
  refine List.mem_filterMap.2 ⟨.tried (.dispatched d), ?_, rfl⟩
  rw [hevents]
  refine List.mem_append_right _ ?_
  show _ ∈ (serveFlat gw call c payload config flat).events
  rw [hserved]
  refine List.mem_cons_of_mem _ (List.mem_append_left _ (List.mem_map.2 ⟨_, hd, rfl⟩))

end

/-! ## The gates -/

/-- What a target makes of the request, if the gates are to cover it: a pinned model that passes
them; without one, the name of a combo only if it is provisioned. -/
structure Gateway.Covered (gw : Gateway) (call : ChatCall) (g : Gated) (t : TargetPlan) : Prop where
  pinned : t.params.applies (gw.forwarded call g.payload) = true →
    ∀ m, t.params.pinnedModel = some m → Passes gw.overlay call.key call.tenant m
  named : t.params.applies (gw.forwarded call g.payload) = false ∨ t.params.pinnedModel = none →
    g.combo.isSome = true → call.tenant.active .modelCatalog = true →
      call.key.Provisions g.payload.model

/-- The gates cover every target a request can be sent to. -/
def Gateway.Covers (gw : Gateway) (call : ChatCall) (payload : ChatCompletionRequest) : Prop :=
  ∀ g, coreGates gw.overlay call.key call.tenant gw.policies payload = .ok g →
    ∀ config t, gw.Offers call g.payload g.combo config t → gw.Covered call g t

section

variable {gw : Gateway} {call : ChatCall} {payload : ChatCompletionRequest} {g : Gated}
  {t : TargetPlan}

/-- **The model sent passes iff the gates cover the target**, by the model that is sent: the pinned
one, or the one of the request. -/
theorem passes_iff_covered
    (hg : coreGates gw.overlay call.key call.tenant gw.policies payload = .ok g) :
    Passes gw.overlay call.key call.tenant (t.params.apply (gw.forwarded call g.payload)).model ↔
      gw.Covered call g t := by
  have hopen := coreGates_ok hg
  have hmodel : (gw.forwarded call g.payload).model = g.payload.model := rfl
  -- the model of the request passes, but for a combo's provision
  have hown : Passes gw.overlay call.key call.tenant g.payload.model ↔
      (g.combo.isSome = true → call.tenant.active .modelCatalog = true →
        call.key.Provisions g.payload.model) := by
    constructor
    · intro h _ hcatalog
      exact h.provisioned hcatalog
    · intro h
      refine ⟨hopen.enabled, hopen.compliant, fun hcatalog => ?_⟩
      cases hcombo : g.combo with
      | none => exact hopen.provisioned hcombo hcatalog
      | some cfg => exact h (by rw [hcombo]; rfl) hcatalog
  rw [ParamShaping.apply_model, hmodel]
  cases happlies : t.params.applies (gw.forwarded call g.payload) with
  | false =>
    rw [if_neg Bool.false_ne_true, hown]
    constructor
    · intro h
      refine ⟨fun hno => ?_, fun _ => h⟩
      rw [happlies] at hno
      cases hno
    · intro h
      exact h.named (.inl happlies)
  | true =>
    rw [if_pos rfl]
    cases hpinned : t.params.pinnedModel with
    | some m =>
      constructor
      · intro h
        refine ⟨fun _ m' hm' => ?_, fun hno => ?_⟩
        · rw [← Option.some.inj (hpinned.symm.trans hm')]
          exact h
        · rw [happlies, hpinned] at hno
          rcases hno with hno | hno <;> cases hno
      · intro h
        exact h.pinned happlies m hpinned
    | none =>
      show Passes _ _ _ g.payload.model ↔ _
      rw [hown]
      constructor
      · intro h
        refine ⟨fun _ m hm => ?_, fun _ => h⟩
        rw [hpinned] at hm
        cases hm
      · intro h
        exact h.named (.inr hpinned)

/-- A filtered plan of a config has targets of the plan only. -/
theorem mem_of_attemptTargets {required : Option Region} {targets kept : List TargetPlan}
    (h : gw.attemptTargets required true targets = .ok kept) (ht : t ∈ kept) : t ∈ targets := by
  cases required with
  | none =>
    obtain rfl := Except.ok.inj h
    exact ht
  | some region =>
    unfold Gateway.attemptTargets at h
    simp only [if_true] at h
    split at h
    · cases h
    · obtain rfl := Except.ok.inj h
      exact List.mem_of_mem_filter ht

/-- Without a config the targets shape nothing. -/
theorem params_of_attemptTargets {required : Option Region} {kept : List TargetPlan}
    {metadata : Metadata} {seed : BitVec 64}
    (h : gw.attemptTargets required false
      (gw.flatTargets call payload none metadata seed).targets = .ok kept) (ht : t ∈ kept) :
    t.params = .noop := by
  have hheader : ∀ t ∈ gw.headerTargets call payload, t.params = .noop := by
    intro t ht
    unfold Gateway.headerTargets at ht
    split at ht
    · obtain ⟨s, -, rfl⟩ := List.mem_map.1 ht
      rfl
    · split at ht <;> obtain rfl := List.mem_singleton.1 ht <;> rfl
  cases required with
  | none =>
    obtain rfl := Except.ok.inj h
    exact hheader t ht
  | some region =>
    unfold Gateway.attemptTargets at h
    simp only [Bool.false_eq_true, if_false] at h
    split at h
    · cases h
    · obtain rfl := Except.ok.inj h
      obtain ⟨name, -, rfl⟩ := List.mem_map.1 ht
      rfl

/-- **A request that brings no config is covered**, where the catalog is not in force: a combo's
targets were looked at, and those of the headers rename nothing. -/
theorem covers_of_no_config (hconfig : ∀ combo, gw.routingConfig call combo = .ok combo)
    (hcatalog : call.tenant.active .modelCatalog = false) : gw.Covers call payload := by
  intro g hg config t ht
  refine ⟨fun _ m hm => ?_, fun _ _ hactive => ?_⟩
  · obtain rfl : g.combo = config := Except.ok.inj ((hconfig g.combo).symm.trans ht.routed)
    obtain ⟨metadata, seed, targets, -, heligible, hmem⟩ := ht.eligible
    cases hcombo : g.combo with
    | none =>
      rw [hcombo] at heligible
      rw [params_of_attemptTargets heligible hmem] at hm
      cases hm
    | some cfg =>
      rw [hcombo] at heligible
      have hplanned : t ∈ (cfg.evaluate metadata g.payload (.seeded seed)).targets :=
        mem_of_attemptTargets heligible hmem
      obtain ⟨l, hl, rfl⟩ := cfg.evaluate_targets_subset metadata g.payload _ hplanned
      exact (coreGates_ok hg).pinned cfg hcombo l hl m hm
  · rw [hcatalog] at hactive
    cases hactive

end

/-- **Every dispatched model passes the gates, in every run, exactly of the requests whose targets
they cover.** -/
theorem model_gates_cover_iff (gw : Gateway) (call : ChatCall) (payload : ChatCompletionRequest) :
    (∀ (ρ : Type) (c : Circumstances ρ), c.Orderly →
        ∀ d ∈ (chatCompletionsCore gw call c payload).dispatches,
          Passes gw.overlay call.key call.tenant d.request.model) ↔
      gw.Covers call payload := by
  constructor
  · intro h g hg config t ht
    obtain ⟨c, hc, d, hd, hrequest⟩ := exists_dispatch ht
    have hcore : (chatCompletionsCore gw call c payload).dispatches =
        (chatCompletionsPipeline gw call c g.payload g.combo).dispatches := by
      unfold chatCompletionsCore
      rw [hg]
      rfl
    rw [← hcore] at hd
    have hpasses := h Unit c hc d hd
    rw [hrequest] at hpasses
    exact (passes_iff_covered hg).1 hpasses
  · intro h ρ c hc d hd
    unfold chatCompletionsCore at hd
    cases hg : coreGates gw.overlay call.key call.tenant gw.policies payload with
    | error e =>
      rw [hg] at hd
      cases hd
    | ok g =>
      rw [hg] at hd
      have hd' : d ∈ (chatCompletionsPipeline gw call c g.payload g.combo).dispatches := hd
      obtain ⟨config, t, ht, hrequest⟩ := offers_of_dispatch hc hd'
      rw [hrequest]
      exact (passes_iff_covered hg).2 (h g hg config t ht)

/-! ## A saved config that renames the model -/

/-- A config that sends every request to a model of its own. -/
def turboConfig : RoutingConfig where
  targets := [.leaf { provider := "openai", params := .pin "gpt-4-turbo" }]
  targets_ne := by simp
  flattened_le := by decide

theorem turboConfig_pinned {name : String} {cfg : RoutingConfig}
    (h : [("cfg_turbo", turboConfig)].lookup name = some cfg) :
    ∀ m ∈ cfg.targetModels, m.isSome := by
  rw [List.lookup_cons] at h
  split at h
  · obtain rfl := Option.some.inj h
    decide
  · cases h

/-- A gateway whose overlay disables that model for a tenant. -/
def turboGateway : Gateway where
  site :=
    { app := { providers := [("openai", { name := "openai" })] }
      classify := fun _ => ⟨false, []⟩
      processText := id }
  parsers := ⟨fun e => .error e, fun _ => .error (.notFound "")⟩
  policies :=
    { configs := [("cfg_turbo", turboConfig)]
      combo_pinned := fun _ _ h => turboConfig_pinned h }
  overlay := { byTenant := [("acme", [("gpt-4-turbo", false)])] }
  cache := { toVec := fun _ => [] }

def turboCall : ChatCall where
  key := { name := "web", providerKeys := [("openai", "sk-openai")] }
  routeplaneKey := "rp-web"
  tenant := { tenantId := "acme", capabilities := [.routingPolicy] }
  config := some "cfg_turbo"

def askMini : ChatCompletionRequest where
  model := "gpt-4o-mini"
  messages := [{ role := "user", content := .text "hi" }]

theorem turboTarget_offered : turboGateway.Offers turboCall askMini none (some turboConfig)
    { provider := "openai", params := .pin "gpt-4-turbo" } where
  fits := by decide
  routed := rfl
  eligible := ⟨[], 0, _, rfl, rfl, List.mem_singleton.2 rfl⟩
  admitted := ⟨0, fun _ => ⟨0, none⟩, ({}, fun _ => none), _, rfl⟩
  callable := ⟨rfl, default, 0, 0, by decide⟩
  inTime := by decide

/-- **A disabled model is dispatched.** -/
theorem gates_bypassed :
    ¬∀ (ρ : Type) (c : Circumstances ρ), c.Orderly →
      ∀ d ∈ (chatCompletionsCore turboGateway turboCall c askMini).dispatches,
        Passes turboGateway.overlay turboCall.key turboCall.tenant d.request.model := by
  intro h
  obtain ⟨c, hc, d, hd, hrequest⟩ := exists_dispatch turboTarget_offered
  have hpasses := h Unit c hc d hd
  have hmodel : d.request.model = "gpt-4-turbo" := by
    rw [hrequest]
    rfl
  rw [hmodel] at hpasses
  exact hpasses.enabled (by decide)

end Routeplane
