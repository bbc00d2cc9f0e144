import Routeplane.Auth.Registry
import Routeplane.Policy.Parse
import Routeplane.Proxy.ApiError

/-!
# The model gates

What a chat request passes before anything else: the config overlay, which may disable a model for
a tenant; the compliance frameworks of the tenant, which may exclude it; and the model catalog,
which must provision it to the key. A combo is held to the models its targets pin.

* `Passes`: a model passes all three gates.
* `coreGates`: the gates as a request meets them. `coreGates_ok`: what has passed when they open.
-/

namespace Routeplane

/-! ## The gates of a model -/

/-- Per tenant, the models the control plane enables or disables. -/
structure ConfigOverlay where
  byTenant : List (String × List (String × Bool)) := []
  deriving DecidableEq, Repr, Inhabited

def ConfigOverlay.modelEnabled (o : ConfigOverlay) (tenantId modelId : String) : Option Bool :=
  (o.byTenant.lookup tenantId).bind fun models => models.lookup modelId

/-- `META_TABLE`, a model's row being the first whose pattern it contains: the pattern, and the
frameworks that do not accept the model. -/
def metaTable : List (String × List String) :=
  [("gpt-4o-mini-tts", []), ("gpt-4o-transcribe", []), ("gpt-4o-mini", []), ("gpt-4o", []),
    ("gpt-4-turbo", []), ("gpt-4", []), ("gpt-3.5-turbo", []), ("o1-mini", []), ("o1", []),
    ("text-embedding", []), ("moderation", []), ("gpt-image-1", []), ("dall-e", []),
    ("whisper", []), ("tts", []), ("claude-3-5-sonnet", []), ("claude-3-5-haiku", []),
    ("claude-3-opus", []), ("claude-3-haiku", []), ("claude", []), ("gemini-2.0-flash", []),
    ("gemini-1.5-pro", []), ("gemini-1.5-flash", []), ("gemini", []), ("mistral-embed", []),
    ("mistral-large", []), ("mistral-small", []), ("open-mistral-nemo", []), ("rerank", []),
    ("embed", []), ("command-r-plus", []), ("command-r", []), ("amazon.titan-text", []),
    ("meta.llama3", []), ("anthropic.claude", []), ("whisper-large", []),
    ("llama-3.3-70b-versatile", []), ("llama-3.1-8b-instant", []), ("gemma2-9b-it", []),
    ("qwen", []), ("deepseek-r1-distill", []), ("moonshotai/kimi-k2", []),
    ("deepseek-reasoner", ["DPDP", "RBI", "HIPAA"]), ("deepseek-v4", ["DPDP", "RBI", "HIPAA"]),
    ("deepseek-chat", ["DPDP", "RBI", "HIPAA"]), ("bge-large", []), ("Llama-3.3-70B", []),
    ("Qwen2.5-72B", []), ("DeepSeek-V3", []), ("Mixtral-8x7B", []), ("grok-4", ["HIPAA"]),
    ("grok-3", ["HIPAA"])]

def complianceRestrictionsFor (model : String) : List String :=
  match metaTable.find? fun row => containsText model row.1 with
  | some row => row.2
  | none => []

/-- The tenant's frameworks that exclude a model. -/
def complianceExcludedFrameworks (model : String) (tenant : TenantContext) : List String :=
  tenant.complianceFrameworks.filter fun fw =>
    (complianceRestrictionsFor model).any fun r => eqIgnoreCase r fw

/-- A model is provisioned to a key by its allowlist, or by an integration it can address. -/
def VirtualKey.Provisions (k : VirtualKey) (model : String) : Prop :=
  k.isModelProvisioned model = true ∨
    ∃ address integration, k.resolveSlug address = .resolved integration model

/-- A model that passes the three gates. -/
structure Passes (overlay : ConfigOverlay) (k : VirtualKey) (tenant : TenantContext)
    (model : String) : Prop where
  enabled : overlay.modelEnabled tenant.tenantId model ≠ some false
  compliant : tenant.complianceMode = .strict → complianceExcludedFrameworks model tenant = []
  provisioned : tenant.active .modelCatalog = true → k.Provisions model

/-! ## The refusals -/

def modelDisabledForTenant (model : String) : ApiError :=
  ⟨403, "model_disabled_for_tenant", "Model '" ++ model ++ "' is disabled for this tenant. " ++
    "Enable it in the Routeplane Console or select a different model.", "invalid_request_error",
    some "model"⟩

def modelComplianceExcluded (model : String) (frameworks : List String) : ApiError :=
  let list := ", ".intercalate frameworks
  ⟨403, "model_compliance_excluded", "Model '" ++ model ++
    "' is excluded by your organization's compliance framework(s): " ++ list ++
    ". Select a model permitted under " ++ list ++ ", or contact your administrator.",
    "invalid_request_error", some "model"⟩

def modelNotProvisioned (model : String) : ApiError :=
  ⟨403, "model_not_provisioned", "Model '" ++ model ++ "' is not provisioned to this key. " ++
    "Add it to the key's Model Catalog allowlist.", "invalid_request_error", some "model"⟩

/-! ## The gates of a request -/

section

variable (overlay : ConfigOverlay) (k : VirtualKey) (tenant : TenantContext)

def overlayGate (model : String) : Except ApiError Unit :=
  if overlay.modelEnabled tenant.tenantId model = some false then
    .error (modelDisabledForTenant model)
  else .ok ()

/-- The frameworks to warn of; in strict mode there is no warning, only a refusal. -/
def complianceGate (model : String) : Except ApiError (List String) :=
  let offending := complianceExcludedFrameworks model tenant
  if offending.isEmpty then .ok []
  else
    match tenant.complianceMode with
    | .strict => .error (modelComplianceExcluded model offending)
    | .warn => .ok offending

/-- One target of a combo; `warned` are the frameworks warned of so far. -/
def comboTargetGate (warned : List String) (target : String) : Except ApiError (List String) :=
  match overlayGate overlay tenant target with
  | .error e => .error e
  | .ok () =>
    match complianceGate tenant target with
    | .error e => .error e
    | .ok offending =>
      if tenant.active .modelCatalog && !k.isModelProvisioned target then
        .error (modelNotProvisioned target)
      else
        .ok (offending.foldl (fun ws f => if ws.contains f then ws else ws ++ [f]) warned)

def comboGate : List String → List String → Except ApiError (List String)
  | warned, [] => .ok warned
  | warned, target :: targets =>
    match comboTargetGate overlay k tenant warned target with
    | .error e => .error e
    | .ok warned => comboGate warned targets

/-- The model a catalog address stands for, or the model itself if it is on the allowlist. -/
def catalogGate (model : String) : Except ApiError String :=
  match k.resolveSlug model with
  | .denied => .error (modelNotProvisioned model)
  | .resolved _ bare => .ok bare
  | .notASlug =>
    if k.isModelProvisioned model then .ok model else .error (modelNotProvisioned model)

/-- A request the gates have let through. -/
structure Gated where
  payload : ChatCompletionRequest
  combo : Option RoutingConfig
  /-- The frameworks named in the warning header. -/
  warning : Option String

def warningHeader (frameworks : List String) : Option String :=
  if frameworks.isEmpty then none else some (",".intercalate frameworks)

/-- The gates before idempotency and the pipeline. -/
def coreGates (registry : PolicyRegistry) (payload : ChatCompletionRequest) :
    Except ApiError Gated :=
  let combo := registry.combo payload.model
  let targets := (combo.map RoutingConfig.targetModels).getD []
  match comboGate overlay k tenant [] (targets.filterMap id) with
  | .error e => .error e
  | .ok comboWarned =>
    -- a combo's name is an address, not a model: the allowlist is not asked about it
    match
      if combo.isNone && tenant.active .modelCatalog then catalogGate k payload.model
      else .ok payload.model with
    | .error e => .error e
    | .ok model =>
      match overlayGate overlay tenant model with
      | .error e => .error e
      | .ok () =>
        match complianceGate tenant model with
        | .error e => .error e
        | .ok warned =>
          .ok ⟨{ payload with model := model }, combo,
            (warningHeader warned).or (warningHeader comboWarned)⟩

end

/-! ## What has passed -/

section

variable {overlay : ConfigOverlay} {k : VirtualKey} {tenant : TenantContext} {model : String}

theorem overlayGate_ok (h : overlayGate overlay tenant model = .ok ()) :
    overlay.modelEnabled tenant.tenantId model ≠ some false := by
  intro hdisabled
  unfold overlayGate at h
  rw [if_pos hdisabled] at h
  cases h

theorem complianceGate_ok {warned : List String} (h : complianceGate tenant model = .ok warned)
    (hstrict : tenant.complianceMode = .strict) :
    complianceExcludedFrameworks model tenant = [] := by
  unfold complianceGate at h
  simp only [hstrict] at h
  split at h
  · rename_i hempty
    exact List.isEmpty_iff.1 hempty
  · cases h

theorem comboTargetGate_ok {warned warned' : List String}
    (h : comboTargetGate overlay k tenant warned model = .ok warned') :
    Passes overlay k tenant model := by
  unfold comboTargetGate at h
  split at h
  · cases h
  · rename_i henabled
    split at h
    · cases h
    · rename_i offending hcompliant
      split at h
      · cases h
      · rename_i hprovisioned
        refine ⟨overlayGate_ok henabled, complianceGate_ok hcompliant, ?_⟩
        intro hcatalog
        rw [hcatalog] at hprovisioned
        exact .inl (by simpa using hprovisioned)

/-- By induction on the targets: each of them passes. -/
theorem comboGate_ok {targets warned warned' : List String}
    (h : comboGate overlay k tenant warned targets = .ok warned') :
    ∀ m ∈ targets, Passes overlay k tenant m := by
  induction targets generalizing warned with
  | nil => exact fun m hm => absurd hm List.not_mem_nil
  | cons target targets ih =>
    unfold comboGate at h
    split at h
    · cases h
    · rename_i ws hw
      intro m hm
      rcases List.mem_cons.1 hm with rfl | hm
      · exact comboTargetGate_ok hw
      · exact ih h m hm

theorem catalogGate_ok {bare : String} (h : catalogGate k model = .ok bare) : k.Provisions bare := by
  unfold catalogGate at h
  split at h
  · cases h
  · rename_i integration bare' hslug
    cases h
    exact .inr ⟨model, integration, hslug⟩
  · split at h
    · rename_i hallowed
      cases h
      exact .inl hallowed
    · cases h

/-- What has passed when the gates open: the models a combo pins, and the model of the request,
which only for a combo may be unprovisioned. -/
structure Gated.Open (overlay : ConfigOverlay) (k : VirtualKey) (tenant : TenantContext)
    (registry : PolicyRegistry) (payload : ChatCompletionRequest) (g : Gated) : Prop where
  payload_eq : g.payload = { payload with model := g.payload.model }
  combo_eq : g.combo = registry.combo payload.model
  named : g.combo.isSome → g.payload.model = payload.model
  pinned : ∀ cfg ∈ g.combo, ∀ l ∈ cfg.leaves, ∀ m, l.params.pinnedModel = some m →
    Passes overlay k tenant m
  enabled : overlay.modelEnabled tenant.tenantId g.payload.model ≠ some false
  compliant : tenant.complianceMode = .strict →
    complianceExcludedFrameworks g.payload.model tenant = []
  provisioned : g.combo = none → tenant.active .modelCatalog = true →
    k.Provisions g.payload.model

theorem Gated.Open.passes {registry : PolicyRegistry} {payload : ChatCompletionRequest} {g : Gated}
    (h : g.Open overlay k tenant registry payload) (hcombo : g.combo = none) :
    Passes overlay k tenant g.payload.model :=
  ⟨h.enabled, h.compliant, h.provisioned hcombo⟩

/-- **The gates open only to what passes them.** -/
theorem coreGates_ok {registry : PolicyRegistry} {payload : ChatCompletionRequest} {g : Gated}
    (h : coreGates overlay k tenant registry payload = .ok g) :
    g.Open overlay k tenant registry payload := by
  unfold coreGates at h
  simp only at h
  split at h
  · cases h
  · rename_i comboWarned htargets
    split at h
    · cases h
    · rename_i model hmodel
      split at h
      · cases h
      · rename_i henabled
        split at h
        · cases h
        · rename_i warned hcompliant
          cases h
          refine ⟨rfl, rfl, ?_, ?_, overlayGate_ok henabled, complianceGate_ok hcompliant, ?_⟩
          · intro hcombo
            simp only at hcombo
            rw [Option.isNone_eq_false_iff.2 hcombo] at hmodel
            simp only [Bool.false_and, Bool.false_eq_true, if_false, Except.ok.injEq] at hmodel
            exact hmodel.symm
          · intro cfg hcfg l hl m hm
            refine comboGate_ok htargets m ?_
            rw [Option.mem_def] at hcfg
            simp only at hcfg
            rw [hcfg]
            refine List.mem_filterMap.2 ⟨some m, ?_, rfl⟩
            rw [← hm]
            exact List.mem_map_of_mem hl
          · intro hcombo hcatalog
            simp only at hcombo
            rw [hcombo, hcatalog] at hmodel
            exact catalogGate_ok hmodel

end

end Routeplane
