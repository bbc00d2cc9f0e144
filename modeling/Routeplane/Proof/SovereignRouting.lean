import Routeplane.Proof.Dispatch
import Routeplane.Proof.EndpointResidency

/-!
# Sovereign routing of chat requests

A chat request with a required region goes past the caches to the residency filter, and the
executors see what the filter leaves.

* `chatCompletionsPipeline_of_required`: neither cache answers it, and neither asks for an embedding.
* `sovereign_routing`: **it is handed to built-in providers resident in the region only, and blocked
  without a call when there is none.**
-/

namespace Routeplane

/-- The provider that is handed the content of the request. -/
def ChatEvent.handedTo? : ChatEvent → Option String
  | .embedded provider => some provider
  | .tried (.dispatched d) => some d.provider
  | _ => none

/-- The name of a built-in provider that is resident in a region, and that is the one called under
this name. -/
structure AppState.ResidentBuiltin (st : AppState) (tenant : String) (region : Region)
    (name : String) (p : Provider) : Prop where
  builtin : st.providers.lookup name = some p
  resident : p.isResidentIn region.code = true
  called : st.resolveProvider tenant name = some p

theorem AppState.ResidentBuiltin.of_lookup {st : AppState} {tenant : String} {region : Region}
    {name : String} {p : Provider} (hp : st.providers.lookup name = some p)
    (hres : p.isResidentIn region.code = true) : st.ResidentBuiltin tenant region name p := by
  refine ⟨hp, hres, ?_⟩
  unfold AppState.resolveProvider
  rw [hp]
  rfl

/-- The providers a plan may be filtered to: those of its targets, or without a config all built-in
ones. -/
def Gateway.candidates (gw : Gateway) (configured : Bool) (targets : List TargetPlan) :
    List String :=
  if configured then targets.map TargetPlan.provider else gw.site.app.providers.map Prod.fst

section

variable {ρ : Type} {gw : Gateway} {call : ChatCall} {c : Circumstances ρ}
  {payload : ChatCompletionRequest} {combo config : Option RoutingConfig} {metadata : Metadata}
  {region : Region} {configured : Bool} {targets kept : List TargetPlan}

theorem providerResident_iff {st : AppState} {tenant name : String} :
    providerResident st name region = true ↔ ∃ p, st.ResidentBuiltin tenant region name p := by
  unfold providerResident
  rw [Option.any_eq_true]
  constructor
  · rintro ⟨p, hp, hres⟩
    exact ⟨p, .of_lookup hp hres⟩
  · rintro ⟨p, h⟩
    exact ⟨p, h.builtin, h.resident⟩

/-! ## The residency filter -/

variable (gw region configured targets) in
/-- The targets the filter leaves of a plan. -/
def Gateway.residentTargets : List TargetPlan :=
  if configured then targets.filter fun t => providerResident gw.site.app t.provider region
  else (residentNames gw.site.app region.code).map defaultTargetPlan

theorem attemptTargets_required :
    gw.attemptTargets (some region) configured targets =
      if (gw.residentTargets region configured targets).isEmpty then .error region
      else .ok (gw.residentTargets region configured targets) := rfl

/-- **What the filter keeps.** -/
theorem attemptTargets_resident
    (h : gw.attemptTargets (some region) configured targets = .ok kept) (tenant : String)
    {t : TargetPlan} (ht : t ∈ kept) :
    ∃ p, gw.site.app.ResidentBuiltin tenant region t.provider p := by
  rw [attemptTargets_required] at h
  split at h
  · cases h
  · obtain rfl := Except.ok.inj h
    unfold Gateway.residentTargets at ht
    split at ht
    · exact providerResident_iff.1 (List.mem_filter.1 ht).2
    · obtain ⟨name, hname, rfl⟩ := List.mem_map.1 ht
      obtain ⟨p, hp, hres⟩ := mem_residentNames.1 hname
      exact ⟨p, .of_lookup hp hres⟩

theorem residentTargets_eq_nil_iff (tenant : String) :
    gw.residentTargets region configured targets = [] ↔
      ∀ name ∈ gw.candidates configured targets, ∀ p,
        ¬gw.site.app.ResidentBuiltin tenant region name p := by
  unfold Gateway.residentTargets Gateway.candidates
  cases configured with
  | true =>
    rw [if_pos rfl, if_pos rfl, List.filter_eq_nil_iff]
    constructor
    · intro h name hname p hp
      obtain ⟨t, ht, rfl⟩ := List.mem_map.1 hname
      exact h t ht (providerResident_iff.2 ⟨p, hp⟩)
    · intro h t ht hres
      obtain ⟨p, hp⟩ : ∃ p, gw.site.app.ResidentBuiltin tenant region t.provider p :=
        providerResident_iff.1 hres
      exact h _ (List.mem_map_of_mem ht) p hp
  | false =>
    rw [if_neg Bool.false_ne_true, if_neg Bool.false_ne_true, List.map_eq_nil_iff,
      List.eq_nil_iff_forall_not_mem]
    constructor
    · intro h name _ p hp
      exact h name (mem_residentNames.2 ⟨p, hp.builtin, hp.resident⟩)
    · intro h name hname
      obtain ⟨p, hp, hres⟩ := mem_residentNames.1 hname
      exact h name (mem_keys_of_lookup hp) p (.of_lookup hp hres)

/-- A plan without a resident candidate is refused. -/
theorem attemptTargets_blocked {tenant : String}
    (h : ∀ name ∈ gw.candidates configured targets, ∀ p,
      ¬gw.site.app.ResidentBuiltin tenant region name p) :
    gw.attemptTargets (some region) configured targets = .error region := by
  rw [attemptTargets_required, (residentTargets_eq_nil_iff tenant).2 h]
  rfl

/-! ## The way to the filter -/

/-- **Neither cache has a part in a request with a required region.** -/
theorem chatCompletionsPipeline_of_required (hregion : gw.required call payload = some region)
    (hfits : gw.checkChatInput payload = none) (hrouted : gw.routingConfig call combo = .ok config)
    (hparsed : parseMetadata gw.parsers call.metadata = .ok metadata) :
    chatCompletionsPipeline gw call c payload combo =
      serveFlat gw call c payload config (gw.flatTargets call payload config metadata c.seed) := by
  have hregulated : ((gw.classification payload).containsPersonalData ||
      (gw.required call payload).isSome) = true := by
    rw [hregion]
    exact Bool.or_true _
  unfold chatCompletionsPipeline
  rw [hfits, hrouted, hparsed]
  simp only [hregulated]
  have hplan := cachePlan_regulated gw.cache call.key (config.bind (·.cache)) call.noStore
    (payload.stream.getD false) (gw.flatTargets call payload config metadata c.seed).targets payload
  generalize cachePlan gw.cache call.key (config.bind (·.cache)) call.noStore true
    (payload.stream.getD false) (gw.flatTargets call payload config metadata c.seed).targets
    payload = plan at hplan ⊢
  rcases hplan with rfl | rfl
  · rfl
  · rfl

/-- **The executors are handed the targets the filter keeps.** -/
theorem serveTargets_handed {flat : Gateway.Flat}
    {e : ChatEvent} (he : e ∈ (serveTargets gw call c payload config flat targets).events)
    {name : String} (hname : e.handedTo? = some name) : ∃ t ∈ targets, t.provider = name := by
  unfold serveTargets at he
  simp only at he
  split at he
  · rw [ChatRun.refuse, List.mem_singleton] at he
    rw [he] at hname
    cases hname
  · rcases List.mem_append.1 he with he | he
    · rcases List.mem_cons.1 he with he | he
      · rw [he] at hname
        cases hname
      · obtain ⟨x, hx, rfl⟩ := List.mem_map.1 he
        have hhanded := Service.record_handed gw.site.app gw.site.deadlineConfig _ x hx
        cases x with
        | dispatched d =>
          obtain ⟨t, ht⟩ := hhanded
          have hordered := List.mem_of_getElem? ht.planned
          have hlive := (orderTargets_perm c.router call.tenantId flat.strategy c.health c.orderedAt
            c.nanos targets).subset hordered
          refine ⟨t, (List.mem_filter.1 hlive).1, ?_⟩
          rw [← ht.provider]
          exact Option.some.inj hname
        | skipped => cases hname
        | failed => cases hname
        | fed => cases hname
        | usage => cases hname
    · split at he
      · rw [List.mem_singleton.1 he] at hname
        cases hname
      · cases he

end

/-! ## The law -/

/-- **Sovereign routing is never widened**: whatever config routes the request and whatever the
circumstances, each provider that sees its content is a built-in one resident in the required
region; and when the plan has none, the request is blocked and no provider sees it. -/
theorem sovereign_routing {ρ : Type} (gw : Gateway) (call : ChatCall) (c : Circumstances ρ)
    (payload : ChatCompletionRequest) (combo : Option RoutingConfig) (region : Region)
    (hregion : gw.required call payload = some region) :
    (∀ e ∈ (chatCompletionsPipeline gw call c payload combo).events, ∀ name,
        e.handedTo? = some name → ∃ p, gw.site.app.ResidentBuiltin call.tenantId region name p) ∧
    ∀ config metadata, gw.checkChatInput payload = none →
      gw.routingConfig call combo = .ok config →
      parseMetadata gw.parsers call.metadata = .ok metadata →
      (∀ name ∈ gw.candidates config.isSome
          (gw.flatTargets call payload config metadata c.seed).targets,
        ∀ p, ¬gw.site.app.ResidentBuiltin call.tenantId region name p) →
      (chatCompletionsPipeline gw call c payload combo).answer =
          .error (sovereignBlock region.code) ∧
        (chatCompletionsPipeline gw call c payload combo).events = [] := by
  constructor
  · intro e he name hname
    -- a call that is refused before its targets are known hands nothing to anybody
    have hnone : ∀ run : ChatRun ρ, chatCompletionsPipeline gw call c payload combo = run →
        run.events = [] → False := by
      intro run hrun hevents
      rw [hrun, hevents] at he
      cases he
    cases hfits : gw.checkChatInput payload with
    | some breach =>
      refine (hnone (.refuse breach) ?_ rfl).elim
      unfold chatCompletionsPipeline
      rw [hfits]
    | none =>
      cases hrouted : gw.routingConfig call combo with
      | error refusal =>
        refine (hnone (.refuse (configErrorResponse refusal)) ?_ rfl).elim
        unfold chatCompletionsPipeline
        rw [hfits, hrouted]
      | ok config =>
        cases hparsed : parseMetadata gw.parsers call.metadata with
        | error refusal =>
          refine (hnone (.refuse (configErrorResponse refusal)) ?_ rfl).elim
          unfold chatCompletionsPipeline
          rw [hfits, hrouted, hparsed]
        | ok metadata =>
          rw [chatCompletionsPipeline_of_required hregion hfits hrouted hparsed] at he
          unfold serveFlat at he
          rw [hregion] at he
          cases hkept : gw.attemptTargets (some region) config.isSome
              (gw.flatTargets call payload config metadata c.seed).targets with
          | error r =>
            rw [hkept] at he
            cases he
          | ok kept =>
            rw [hkept] at he
            obtain ⟨t, ht, rfl⟩ := serveTargets_handed he hname
            exact attemptTargets_resident hkept call.tenantId ht
  · intro config metadata hfits hrouted hparsed hcandidates
    have hblocked := attemptTargets_blocked hcandidates
    rw [chatCompletionsPipeline_of_required hregion hfits hrouted hparsed]
    unfold serveFlat
    rw [hregion, hblocked]
    exact ⟨rfl, rfl⟩

/-- A gateway with one built-in provider, that takes every text for personal data. -/
def oneProviderGateway (regions : List String) : Gateway where
  site :=
    { app := { providers := [("openai", { name := "openai", residentRegions := regions })] }
      classify := fun _ => ⟨true, [.aadhaar]⟩
      processText := id }
  parsers := ⟨fun e => .error e, fun _ => .error (.notFound "")⟩
  cache := { toVec := fun _ => [] }

def indianCall : ChatCall where
  key := { name := "clinic", providerKeys := [("openai", "sk-openai")] }
  routeplaneKey := "rp-clinic"
  tenant := { tenantId := "acme" }
  residency := some "IN"

def patientRecord : ChatCompletionRequest where
  model := "gpt-4o"
  messages := [{ role := "user", content := .text "2341 2341 2346" }]

def unansweredCircumstances : Circumstances Unit where
  env := { reply := fun _ => ⟨.error (.network "openai" "down"), 0⟩ }
  health := default

/-- One provider in the region, and one outside. -/
theorem sovereign_routing_indian :
    (∀ e ∈ (chatCompletionsPipeline (oneProviderGateway ["in"]) indianCall unansweredCircumstances
          patientRecord none).events, ∀ name, e.handedTo? = some name →
        ∃ p, (oneProviderGateway ["in"]).site.app.ResidentBuiltin "acme" ⟨"IN"⟩ name p) ∧
    (chatCompletionsPipeline (oneProviderGateway ["us"]) indianCall unansweredCircumstances
      patientRecord none).answer = .error (sovereignBlock "IN") := by
  refine ⟨(sovereign_routing (oneProviderGateway ["in"]) indianCall unansweredCircumstances
    patientRecord none ⟨"IN"⟩ rfl).1, ?_⟩
  refine ((sovereign_routing (oneProviderGateway ["us"]) indianCall unansweredCircumstances
    patientRecord none ⟨"IN"⟩ rfl).2 none [] (by decide) rfl rfl ?_).1
  intro name hname p hp
  obtain rfl : name = "openai" := List.mem_singleton.1 hname
  have hresident := hp.resident
  obtain rfl := Option.some.inj hp.builtin
  exact absurd hresident (by decide)

end Routeplane
