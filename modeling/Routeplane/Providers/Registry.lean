import Routeplane.Adapters.Provider
import Routeplane.Lib.Assoc
import Routeplane.Lib.Fallible
import Routeplane.Router.Health
import Routeplane.Types.Text
import Mathlib.Data.List.Sort
import Mathlib.Data.Prod.Lex
import Mathlib.Data.String.Basic

/-!
# The registry of custom providers

An operator or a tenant adds an OpenAI-compatible provider at runtime. Each snapshot of the registry
is built from the list of all configurations, with an index by `(owner, name)` and one by
`(owner, model)`; the owner is a tenant or `globalOwner`. A read tries the tenant's own entries first
and the operator's second.

The registry the gateway starts with. A provider is resident where the operator says it is: in one
region, or in none.

* `validateAndNormalize`: the checks an authored configuration passes.
* `RuntimeProviders.build`: the two indexes of a snapshot.
* `validateModels_ok`: what the models of an accepted configuration are.
* `validateAndNormalize_ok`: an accepted configuration is accepted unchanged when its base URL is in
  normal form.
* `buildProviderRegistry`: the names and the regions.
* `residentRegions_length_le`: no built-in provider is resident in two regions.
-/

namespace Routeplane.Custom

open Fallible (bind_eq_ok)

/-- One OpenAI-compatible provider, as authored and as persisted. -/
structure CustomProviderConfig where
  /-- The owning tenant, none for an entry of the operator's boot file. -/
  tenantId : Option String := none
  name : String
  baseUrl : String
  apiKey : String
  models : List String
  streamIncludeUsage : Option Bool := none
  createdAt : Option String := none
  deriving DecidableEq, Repr, Inhabited

/-- What the read endpoints show of a provider. -/
structure ProviderView where
  name : String
  baseUrl : String
  apiKey : String
  models : List String
  createdAt : Option String
  deriving DecidableEq, Repr, Inhabited

/-- Keep the last four characters of a key that is long enough for that. -/
def maskKey (key : String) : String :=
  if 8 ≤ key.length then "…" ++ String.ofList (key.toList.drop (key.length - 4)) else "…"

def viewOf (cfg : CustomProviderConfig) : ProviderView :=
  ⟨cfg.name, cfg.baseUrl, maskKey cfg.apiKey, cfg.models, cfg.createdAt⟩

/-! ## Validation -/

/-- The field that is refused and the message. -/
abbrev Refusal := String × String

/-- The parts of a URL that are looked at. -/
structure Url where
  scheme : String
  host : Option String
  username : String := ""
  password : Option String := none
  query : Option String := none
  fragment : Option String := none
  deriving DecidableEq, Repr, Inhabited

def isNameChar (c : Char) : Bool := c.isLower || c.isDigit || c == '_' || c == '-'

def validateName (raw : String) : Except Refusal String :=
  let name := trimText raw
  if name.isEmpty || 64 < name.utf8ByteSize then
    .error ("name", "provider name must be 1-64 characters of [a-z0-9_-]")
  else if !name.toList.all isNameChar then
    .error ("name", "provider name must match ^[a-z0-9_-]+$ (lowercase)")
  else .ok name

/-- `str::trim_end_matches('/')`. -/
def trimEndSlashes (s : String) : String := String.ofList (s.toList.rdropWhile (· == '/'))

def normalizeBaseUrl (raw : String) : String := trimEndSlashes (trimText raw)

def checkUrl (parsed : Url) : Except Refusal Unit :=
  if parsed.scheme != "http" && parsed.scheme != "https" then
    .error ("base_url", "base_url scheme must be http or https")
  else if (parsed.host.map String.isEmpty).getD true then
    .error ("base_url", "base_url must include a host")
  else if !parsed.username.isEmpty || parsed.password.isSome then
    .error ("base_url", "base_url must not embed credentials")
  else if parsed.query.isSome || parsed.fragment.isSome then
    .error ("base_url", "base_url must not carry a query string or fragment")
  else .ok ()

def validateApiKey (apiKey : String) : Except Refusal Unit :=
  if apiKey.isEmpty || 512 < apiKey.utf8ByteSize then
    .error ("api_key", "api_key is required (1-512 characters)")
  else .ok ()

/-- The trimmed model ids in their order, each once; `kept` are those already seen. -/
def collectModels : List String → List String → Except Refusal (List String)
  | kept, [] => .ok kept
  | kept, raw :: rest =>
    let model := trimText raw
    if model.isEmpty || 256 < model.utf8ByteSize then
      .error ("models", "each model id must be 1-256 non-blank characters")
    else collectModels (if model ∈ kept then kept else kept ++ [model]) rest

def validateModels (raw : List String) : Except Refusal (List String) := do
  let models ← collectModels [] raw
  if models.isEmpty || 128 < models.length then
    .error ("models", "models must list 1-128 model ids")
  else .ok models

section Validation

-- `url::Url::parse`
variable (parseUrl : String → Option Url)

def validateBaseUrl (raw : String) : Except Refusal String := do
  let baseUrl := normalizeBaseUrl raw
  let parsed ← (parseUrl baseUrl).elim (.error ("base_url", "base_url must be a valid URL")) .ok
  checkUrl parsed
  return baseUrl

def validateAndNormalize (cfg : CustomProviderConfig) : Except Refusal CustomProviderConfig := do
  let name ← validateName cfg.name
  let baseUrl ← validateBaseUrl parseUrl cfg.baseUrl
  validateApiKey cfg.apiKey
  let models ← validateModels cfg.models
  return { cfg with name, baseUrl, models }

end Validation

/-! ### What is accepted is accepted again -/

theorem trimText_trimText (s : String) : trimText (trimText s) = trimText s := by
  unfold trimText
  rw [String.toList_ofList, trimChars_trimChars]

theorem validateName_ok {raw name : String} (h : validateName raw = .ok name) :
    validateName name = .ok name := by
  have hname : name = trimText raw := by
    unfold validateName at h
    dsimp only at h
    split at h
    · cases h
    split at h
    · cases h
    · exact (Except.ok.inj h).symm
  subst hname
  unfold validateName at h ⊢
  rw [trimText_trimText]
  exact h

/-- A model id that is kept as it is. -/
def IsModel (model : String) : Prop :=
  trimText model = model ∧ (model.isEmpty || 256 < model.utf8ByteSize) = false

/-- By induction on the ids that are left. -/
theorem collectModels_ok {raw kept models : List String} (hkept : ∀ m ∈ kept, IsModel m)
    (hnodup : kept.Nodup) (h : collectModels kept raw = .ok models) :
    (∀ m ∈ models, IsModel m) ∧ models.Nodup := by
  induction raw generalizing kept with
  | nil =>
    rw [← Except.ok.inj h]
    exact ⟨hkept, hnodup⟩
  | cons first raw ih =>
    unfold collectModels at h
    dsimp only at h
    split at h
    · cases h
    case isFalse hsize =>
      have hfirst : IsModel (trimText first) :=
        ⟨trimText_trimText first, Bool.eq_false_iff.2 hsize⟩
      by_cases hmem : trimText first ∈ kept
      · rw [if_pos hmem] at h
        exact ih hkept hnodup h
      · rw [if_neg hmem] at h
        refine ih ?_ ?_ h
        · intro m hm
          rcases List.mem_append.1 hm with hm | hm
          · exact hkept m hm
          · rw [List.mem_singleton.1 hm]
            exact hfirst
        · rw [← List.concat_eq_append]
          exact hnodup.concat hmem

theorem collectModels_of_models {raw kept : List String} (hraw : ∀ m ∈ raw, IsModel m)
    (hnodup : (kept ++ raw).Nodup) : collectModels kept raw = .ok (kept ++ raw) := by
  induction raw generalizing kept with
  | nil =>
    rw [List.append_nil]
    rfl
  | cons first raw ih =>
    obtain ⟨htrim, hsize⟩ := hraw first List.mem_cons_self
    have hnew : first ∉ kept := by
      intro hmem
      exact (List.disjoint_of_nodup_append hnodup) hmem List.mem_cons_self
    have hsplit : kept ++ first :: raw = (kept ++ [first]) ++ raw := by simp
    unfold collectModels
    dsimp only
    rw [htrim, hsize, if_neg Bool.false_ne_true, if_neg hnew, hsplit]
    refine ih (fun m hm => hraw m (List.mem_cons_of_mem _ hm)) ?_
    rw [← hsplit]
    exact hnodup

theorem validateModels_ok {raw models : List String} (h : validateModels raw = .ok models) :
    validateModels models = .ok models := by
  unfold validateModels at h
  obtain ⟨collected, hcollect, h⟩ := bind_eq_ok h
  have hnil : ∀ m ∈ ([] : List String), IsModel m := fun _ hm => absurd hm List.not_mem_nil
  obtain ⟨hmodels, hnodup⟩ := collectModels_ok hnil List.nodup_nil hcollect
  have heq : collected = models := by
    split at h
    · cases h
    · exact Except.ok.inj h
  subst heq
  have hagain : collectModels [] collected = .ok ([] ++ collected) :=
    collectModels_of_models hmodels hnodup
  unfold validateModels
  rw [hagain]
  exact h

/-- A base URL in normal form stays as it is. -/
def IsSettled (baseUrl : String) : Prop := normalizeBaseUrl baseUrl = baseUrl

instance : DecidablePred IsSettled := fun baseUrl =>
  inferInstanceAs (Decidable (normalizeBaseUrl baseUrl = baseUrl))

variable {parseUrl : String → Option Url} {cfg cfg' : CustomProviderConfig}

theorem validateBaseUrl_ok {raw baseUrl : String} (h : validateBaseUrl parseUrl raw = .ok baseUrl) :
    baseUrl = normalizeBaseUrl raw ∧
      (IsSettled baseUrl → validateBaseUrl parseUrl baseUrl = .ok baseUrl) := by
  have heq : baseUrl = normalizeBaseUrl raw := by
    unfold validateBaseUrl at h
    obtain ⟨parsed, -, h⟩ := bind_eq_ok h
    obtain ⟨-, -, h⟩ := bind_eq_ok h
    exact (Except.ok.inj h).symm
  refine ⟨heq, fun hsettled => ?_⟩
  unfold validateBaseUrl at h ⊢
  rw [hsettled]
  rw [← heq] at h
  exact h

/-- What an accepted configuration consists of. -/
theorem validateAndNormalize_parts (h : validateAndNormalize parseUrl cfg = .ok cfg') :
    ∃ name baseUrl models, validateName cfg.name = .ok name ∧
      validateBaseUrl parseUrl cfg.baseUrl = .ok baseUrl ∧ validateApiKey cfg.apiKey = .ok () ∧
      validateModels cfg.models = .ok models ∧ cfg' = { cfg with name, baseUrl, models } := by
  unfold validateAndNormalize at h
  obtain ⟨name, hname, h⟩ := bind_eq_ok h
  obtain ⟨baseUrl, hbaseUrl, h⟩ := bind_eq_ok h
  obtain ⟨_, hkey, h⟩ := bind_eq_ok h
  obtain ⟨models, hmodels, h⟩ := bind_eq_ok h
  exact ⟨name, baseUrl, models, hname, hbaseUrl, hkey, hmodels, (Except.ok.inj h).symm⟩

/-- **What is accepted is accepted again unchanged when its base URL is in normal form.** -/
theorem validateAndNormalize_ok (h : validateAndNormalize parseUrl cfg = .ok cfg')
    (hsettled : IsSettled cfg'.baseUrl) : validateAndNormalize parseUrl cfg' = .ok cfg' := by
  obtain ⟨name, baseUrl, models, hname, hbaseUrl, hkey, hmodels, rfl⟩ := validateAndNormalize_parts h
  have hbaseUrl' := (validateBaseUrl_ok hbaseUrl).2 hsettled
  unfold validateAndNormalize
  dsimp only
  rw [validateName_ok hname, hbaseUrl', hkey, validateModels_ok hmodels]
  rfl

theorem validateAndNormalize_tenantId (h : validateAndNormalize parseUrl cfg = .ok cfg') :
    cfg'.tenantId = cfg.tenantId := by
  obtain ⟨_, _, _, -, -, -, -, rfl⟩ := validateAndNormalize_parts h
  rfl

theorem validateAndNormalize_baseUrl (h : validateAndNormalize parseUrl cfg = .ok cfg') :
    cfg'.baseUrl = normalizeBaseUrl cfg.baseUrl := by
  obtain ⟨_, _, _, -, hbaseUrl, -, -, rfl⟩ := validateAndNormalize_parts h
  exact (validateBaseUrl_ok hbaseUrl).1

example : validateModels ["llama3", "llama3", " qwen "] = .ok ["llama3", "qwen"] := by decide

/-! ## Snapshots -/

/-- The OpenAI-compatible adapter. -/
structure SelfHostedProvider where
  baseUrl : String
  region : String
  streamIncludeUsage : Bool := true
  deriving DecidableEq, Repr, Inhabited

def SelfHostedProvider.new (baseUrl region : String) : SelfHostedProvider :=
  { baseUrl := trimEndSlashes baseUrl, region }

def SelfHostedProvider.withoutStreamUsage (p : SelfHostedProvider) : SelfHostedProvider :=
  { p with streamIncludeUsage := false }

/-- A live entry: the configuration and the adapter built from it. -/
structure CustomProviderEntry where
  config : CustomProviderConfig
  adapter : SelfHostedProvider
  deriving DecidableEq, Repr, Inhabited

/-- An owner with a provider name, or with a model id. -/
abbrev OwnedKey := String × String

/-- An immutable snapshot, swapped whole. -/
structure RuntimeProviders where
  byName : Assoc OwnedKey CustomProviderEntry := []
  /-- `(owner, model)` to provider name, for requests that name no provider. -/
  modelIndex : Assoc OwnedKey String := []
  deriving DecidableEq, Repr, Inhabited

/-- The orders the two hash maps of a snapshot are walked in. -/
structure Walks where
  byName : Assoc.Walk OwnedKey CustomProviderEntry
  modelIndex : Assoc.Walk OwnedKey String

def ownerOf (cfg : CustomProviderConfig) : String := cfg.tenantId.getD globalOwner

def keyOf (cfg : CustomProviderConfig) : OwnedKey := (ownerOf cfg, cfg.name)

def adapterOf (cfg : CustomProviderConfig) : SelfHostedProvider :=
  -- no residency region: never eligible for sovereign routing
  let selfHosted := SelfHostedProvider.new cfg.baseUrl ""
  if cfg.streamIncludeUsage = some false then selfHosted.withoutStreamUsage else selfHosted

def entryOf (cfg : CustomProviderConfig) : CustomProviderEntry := ⟨cfg, adapterOf cfg⟩

def duplicateName (name : String) : String :=
  "duplicate provider name '" ++ name ++ "' for the same owner"

def sortByName {α : Type} (name : α → String) (l : List α) : List α :=
  l.insertionSort fun a b => name a ≤ name b

namespace RuntimeProviders

def addConfig (byName : Assoc OwnedKey CustomProviderEntry) (cfg : CustomProviderConfig) :
    Except String (Assoc OwnedKey CustomProviderEntry) :=
  if (byName.get (keyOf cfg)).isSome then .error (duplicateName cfg.name)
  else .ok (byName.insert (keyOf cfg) (entryOf cfg))

/-- The models a provider offers to the index, under its owner. -/
def offers (byName : Assoc OwnedKey CustomProviderEntry) (key : OwnedKey) : Assoc OwnedKey String :=
  (byName.get key).elim [] fun entry => entry.config.models.map fun model => ((key.1, model), key.2)

/-- The providers are taken by owner and name; of those with a model the first is indexed. -/
def indexModels (byName : Assoc OwnedKey CustomProviderEntry) : Assoc OwnedKey String :=
  let names := (byName.map (·.1)).insertionSort fun a b => toLex a ≤ toLex b
  names.foldl (fun index key => index.insertNews (offers byName key)) []

def build (walks : Walks) (configs : List CustomProviderConfig) : Except String RuntimeProviders := do
  let byName ← configs.foldlM addConfig []
  return ⟨walks.byName.order byName, walks.modelIndex.order (indexModels byName)⟩

variable (reg : RuntimeProviders)

/-- The configurations in the order of the map, then stably by name. -/
def configsSorted : List CustomProviderConfig := sortByName (·.name) (reg.byName.map (·.2.config))

variable (tenantId : String)

/-- The tenant's own entry wins over the operator's. -/
def entryFor (name : String) : Option CustomProviderEntry :=
  (reg.byName.get (tenantId, name)).or (reg.byName.get (globalOwner, name))

def adapter (name : String) : Option SelfHostedProvider :=
  (reg.entryFor tenantId name).map (·.adapter)

def apiKey (name : String) : Option String := (reg.entryFor tenantId name).map (·.config.apiKey)

def contains (name : String) : Bool := (reg.entryFor tenantId name).isSome

def providerForModel (model : String) : Option String :=
  (reg.modelIndex.get (tenantId, model)).or (reg.modelIndex.get (globalOwner, model))

/-- The tenant's own providers and the operator's. -/
def list : List ProviderView :=
  (reg.configsSorted.filter fun cfg => cfg.tenantId.all (· = tenantId)).map viewOf

/-- The tenant's own models and the operator's, with their providers. -/
def modelEntries : List (String × String) :=
  ((reg.modelIndex.filter fun e => e.1.1 = tenantId ∨ e.1.1 = globalOwner).map
    fun e => (e.1.2, e.2)).insertionSort fun a b => toLex a ≤ toLex b

end RuntimeProviders

end Routeplane.Custom

/-! ## The built-in providers -/

namespace Routeplane

/-- `std::env::var`, none when unset. -/
abbrev EnvVars := String → Option String

/-- A region the operator may declare; none by default. -/
def optInRegion (env : EnvVars) (var : String) : List String :=
  let region := (env var).getD ""
  if region.isEmpty then [] else [region]

def buildProviderRegistry (env : EnvVars) : List (String × Provider) :=
  [("openai", { name := "openai" }), ("anthropic", { name := "anthropic" }),
    ("gemini", { name := "gemini" }),
    ("azure_openai",
      { name := "azure_openai", residentRegions := [(env "AZURE_OPENAI_REGION").getD "IN"] }),
    ("mistral", { name := "mistral", residentRegions := optInRegion env "MISTRAL_REGION" }),
    ("cohere", { name := "cohere", residentRegions := optInRegion env "COHERE_REGION" }),
    ("bedrock", { name := "bedrock", residentRegions := optInRegion env "BEDROCK_REGION" }),
    ("groq", { name := "groq", residentRegions := optInRegion env "GROQ_REGION" }),
    ("deepseek", { name := "deepseek", residentRegions := optInRegion env "DEEPSEEK_REGION" }),
    ("together", { name := "together", residentRegions := optInRegion env "TOGETHER_REGION" }),
    ("fireworks", { name := "fireworks", residentRegions := optInRegion env "FIREWORKS_REGION" }),
    ("xai", { name := "xai", residentRegions := optInRegion env "XAI_REGION" }),
    ("openrouter",
      { name := "openrouter", residentRegions := optInRegion env "OPENROUTER_REGION" }),
    ("self_hosted",
      { name := "self_hosted", residentRegions := optInRegion env "SELF_HOSTED_REGION" })]

def builtinNames : List String :=
  ["openai", "anthropic", "gemini", "azure_openai", "mistral", "cohere", "bedrock", "groq",
    "deepseek", "together", "fireworks", "xai", "openrouter", "self_hosted"]

theorem buildProviderRegistry_names (env : EnvVars) :
    (buildProviderRegistry env).map Prod.fst = builtinNames := rfl

theorem optInRegion_length_le (env : EnvVars) (var : String) : (optInRegion env var).length ≤ 1 := by
  unfold optInRegion
  dsimp only
  split
  · exact Nat.zero_le 1
  · exact Nat.le_refl 1

/-- **No built-in provider is resident in two regions.** -/
theorem residentRegions_length_le (env : EnvVars) :
    ∀ x ∈ buildProviderRegistry env, x.2.residentRegions.length ≤ 1 := by
  unfold buildProviderRegistry
  simp only [List.forall_mem_cons, List.length_nil, List.length_singleton, optInRegion_length_le,
    Nat.le_refl, Nat.zero_le, true_and, List.not_mem_nil, false_imp_iff, implies_true]

end Routeplane
