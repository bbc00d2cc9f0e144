import Routeplane.Lib.Assoc
import Routeplane.Lib.Fallible
import Routeplane.Limits.AuthFailures
import Routeplane.Storage.Accounts
import Routeplane.Types.Text

/-!
# Authentication

The authenticated identity of a request: the virtual key with its provider credentials and
catalog grants, and the tenant context resolved from it.

The registry of keys is one document, folded into a map by the key a caller presents. A
request presents a key in a header of the gateway's own or, when that is absent or blank, as
a bearer token. The key is compared with every one of the registry. A bearer token that is
not a gateway key may be a session of the console.

* `resolveSlug`: a `@slug/model` address against the key's integrations, default-deny.
* `resolveSlug_granted`: a resolved model is one the integration allows.
* `AuthState.loadFromJson`: the registry of a document, or why it is refused.
* `resolveGatewayCredential`: the key of a request and the header it came in.
* `authMiddleware`: what becomes of a request.
-/

namespace Routeplane

/-- The capabilities the chat path asks about. -/
inductive Feature
  | modelCatalog
  | routingPolicy
  | semanticCache
  | tokenCompression
  | advancedGuardrails
  deriving DecidableEq, Repr

/-- The posture towards a model a tenant's frameworks restrict. -/
inductive ComplianceMode
  | strict
  | warn
  deriving DecidableEq, Repr, Inhabited

/-- An addressable integration: the models a key may call through it. -/
structure KeyIntegration where
  adapter : String
  residentRegions : List String := []
  models : List String := []
  deriving DecidableEq, Repr, Inhabited

structure VirtualKey where
  name : String
  providerKeys : List (String × String)
  tenantId : Option String := none
  /-- The region policy of the key; a header may replace it but not clear it. -/
  defaultResidency : Option String := none
  provisionedModels : List String := []
  integrations : List (String × KeyIntegration) := []
  deriving DecidableEq, Repr, Inhabited

structure TenantContext where
  tenantId : String
  capabilities : List Feature := []
  complianceFrameworks : List String := []
  complianceMode : ComplianceMode := .strict
  deriving DecidableEq, Repr, Inhabited

def TenantContext.active (t : TenantContext) (f : Feature) : Bool := t.capabilities.contains f

/-- What a `@slug/model` address means for a key. -/
inductive SlugResolution
  | notASlug
  | resolved (integration : KeyIntegration) (model : String)
  | denied
  deriving DecidableEq, Repr

namespace VirtualKey

variable (k : VirtualKey)

/-- The allowlist check; an empty allowlist permits nothing. -/
def isModelProvisioned (model : String) : Bool := k.provisionedModels.contains model

/-- Resolve `@slug/model`; the model is everything after the first `/`. -/
def resolveSlug (model : String) : SlugResolution :=
  match dropHead? "@" model with
  | none => .notASlug
  | some addr =>
    match splitOnce '/' addr with
    | none => .denied
    | some (slug, bare) =>
      if slug.isEmpty || bare.isEmpty then .denied
      else
        match k.integrations.lookup slug with
        | some integration =>
          if integration.models.contains bare then .resolved integration bare else .denied
        | none => .denied

/-- The region a request asks for: a non-blank header, else the key's policy. -/
def effectiveRequestedRegion (header : Option String) : Option String :=
  match (header.map trimText).filter fun h => !h.isEmpty with
  | some h => some h
  | none => k.defaultResidency

variable {k} {model bare : String} {integration : KeyIntegration}

/-- **A resolved address names a model its integration allows.** -/
theorem resolveSlug_granted (h : k.resolveSlug model = .resolved integration bare) :
    (∃ slug, k.integrations.lookup slug = some integration) ∧ bare ∈ integration.models := by
  unfold resolveSlug at h
  split at h
  · simp at h
  · split at h
    · simp at h
    · rename_i addr slug b heq
      split at h
      · simp at h
      · split at h
        · rename_i i hl
          split at h
          · rename_i hm
            simp only [SlugResolution.resolved.injEq] at h
            obtain ⟨rfl, rfl⟩ := h
            exact ⟨⟨slug, hl⟩, by simpa using hm⟩
          · simp at h
        · simp at h

/-- A key with a region policy always requests a region. -/
theorem effectiveRequestedRegion_isSome (hd : k.defaultResidency.isSome) (header : Option String) :
    (k.effectiveRequestedRegion header).isSome := by
  unfold effectiveRequestedRegion
  split
  · rfl
  · exact hd

end VirtualKey

end Routeplane

namespace Routeplane.Auth

open Fallible Limits

/-- Where a tenant is in its life. -/
inductive TenantState
  | pending
  | active
  | suspended
  | closed
  deriving DecidableEq, Repr

def TenantState.servesTraffic : TenantState → Bool
  | .active => true
  | .pending | .suspended | .closed => false

/-- A record of the registry: what a caller presents, and whom it stands for. -/
structure KeyRecord where
  routeplaneKey : String
  lifecycleState : TenantState := .active
  virtualKey : VirtualKey
  deriving DecidableEq

structure KeyRegistry where
  keys : List KeyRecord

inductive AuthLoadError
  | read (path source : String)
  | parse (path source : String)
  | empty (path : String)
  deriving DecidableEq, Repr

/-- The registry of a running gateway. -/
structure AuthState where
  keys : Assoc String KeyRecord

namespace AuthState

section

-- `serde_json::from_str` and `std::fs::read_to_string`
variable (fromStr : String → Except String KeyRegistry)
  (readToString : String → Except String String)

def loadFromJson (content origin : String) : Except AuthLoadError AuthState := do
  let registry ← (fromStr content).mapError (.parse origin)
  ensure (registry.keys ≠ []) (.empty origin)
  return { keys := registry.keys.foldl (fun keys key => keys.insert key.routeplaneKey key) [] }

def loadFromFile (path : String) : Except AuthLoadError AuthState := do
  let content ← (readToString path).mapError (.read path)
  loadFromJson fromStr content path

end

/-- Every key is compared, in the order the map is walked. -/
def lookupConstantTime (state : AuthState) (walk : Assoc.Walk String KeyRecord)
    (presented : String) : Option KeyRecord :=
  (walk.order state.keys).foldl (fun found e => if e.1 = presented then some e.2 else found) none

end AuthState

/-! ## Credentials -/

/-- Which header a key came in. -/
inductive AuthSource
  | native
  | bearer
  deriving DecidableEq, Repr

/-- `HeaderValue::to_str`: a text of visible characters, blanks and tabs. -/
def headerToStr (value : String) : Option String :=
  if value.toList.all (fun c => (32 ≤ c.toNat && c.toNat < 127) || c == '\t') then some value
  else none

/-- The gateway key of an `Authorization` header, and whether it bears another token. -/
def bearerGatewayCandidate (header : Option String) : Option String × Bool :=
  match header.bind (splitOnce ' ') with
  | none => (none, false)
  | some (scheme, token) =>
    if eqIgnoreCase scheme "Bearer" then
      let token := trimText token
      if (dropHead? "rp_" token).isSome then (some token, false) else (none, true)
    else (none, false)

/-- The gateway's own header first, the bearer token only when that is absent or blank. -/
def resolveGatewayCredential (native authorization : Option String) :
    Option (String × AuthSource) × Bool :=
  match (native.map trimText).filter fun key => !key.isEmpty with
  | some key => (some (key, .native), false)
  | none =>
    let (candidate, nonRpBearer) := bearerGatewayCandidate authorization
    (candidate.map fun token => (token, .bearer), nonRpBearer)

def bearerRawToken (header : Option String) : Option String :=
  (header.bind (splitOnce ' ')).bind fun (scheme, token) =>
    if eqIgnoreCase scheme "Bearer" then
      let token := trimText token
      if token.isEmpty then none else some token
    else none

/-! ## A request -/

/-- What a session of the console needs: the signer, the accounts, and the key it stands for. -/
structure ConsoleAuthBridge where
  jwt : Console.Jwt
  accounts : Storage.Accounts
  consoleKey : String

/-- What becomes of a request. -/
inductive AuthOutcome
  | authenticated (record : KeyRecord) (source : AuthSource)
  | session (record : KeyRecord) (session : Console.ConsoleSession)
  | unauthorized
  | throttled (retryAfterSecs : ℕ)
  deriving DecidableEq

/-- A bearer token of another kind may be a session of the console. -/
def consoleFallback (state : AuthState) (bridge : Option ConsoleAuthBridge) (now : ℕ)
    (authorization : Option String) : AuthOutcome :=
  let verified := bridge.bind fun b => (bearerRawToken authorization).bind fun token =>
    (Console.verify b.jwt b.accounts now token).bind fun session =>
      (state.keys.get b.consoleKey).map fun record => (record, session)
  match verified with
  | some (record, session) =>
    if record.lifecycleState.servesTraffic then .session record session else .unauthorized
  | none => .unauthorized

/-- `throttle` is what the failure tracker says of the source before the key is looked up; without a
tracker every source is allowed. -/
def authMiddleware (state : AuthState) (walk : Assoc.Walk String KeyRecord)
    (throttle : AuthThrottle) (bridge : Option ConsoleAuthBridge) (now : ℕ)
    (native authorization : Option String) : AuthOutcome :=
  match throttle with
  | .throttled secs => .throttled secs
  | .allow =>
    let authorization := authorization.bind headerToStr
    let (credential, nonRpBearer) :=
      resolveGatewayCredential (native.bind headerToStr) authorization
    match credential with
    | some (key, source) =>
      match state.lookupConstantTime walk key with
      | some record =>
        -- a tenant that is not active is refused as an unknown key is
        if record.lifecycleState.servesTraffic then .authenticated record source
        else .unauthorized
      | none => .unauthorized
    | none =>
      if nonRpBearer then consoleFallback state bridge now authorization else .unauthorized

end Routeplane.Auth
