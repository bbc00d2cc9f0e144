import Routeplane.Auth.Registry
import Routeplane.Cache.Key
import Routeplane.Policy.Config

/-!
# Whether a request takes part in the cache

Decided once, before masking, from the config's cache directive.

* `cachePlan`: off without a directive; bypassed for what must not be cached; else active, under a
  key of the first target's shaped request.
* `semanticPlan`: the semantic cache, only where the exact one is active.
-/

namespace Routeplane

def tenantIdMaxLen : ℕ := 64

def maxEntryBytes : ℕ := 256 * 1024

/-- The tenant id of a key record, if it has one that is well formed. -/
def VirtualKey.canonicalTenantId (k : VirtualKey) : Option String :=
  k.tenantId.filter fun id => !id.isEmpty && decide (id.utf8ByteSize ≤ tenantIdMaxLen) &&
    id.toList.all fun c => c.isAlphanum || c == '_' || c == '-'

/-- What a plan is made of beside the request: the tenants' shares of the store, the flush
generations, and `serde_json::to_vec`. -/
structure ResponseCache where
  /-- The payload bytes a tenant owns; none, if it is not registered. -/
  payloadBudget : String → ℕ := fun _ => 0
  flush : FlushRegistry := {}
  toVec : KeyView → List UInt8

namespace ResponseCache

variable (c : ResponseCache)

def ownsTenant (tenantId : String) : Bool := decide (0 < c.payloadBudget tenantId)

def maxResponseBytesForTenant (tenantId : String) (modelLen : ℕ) : ℕ :=
  min (c.payloadBudget tenantId - modelLen) maxEntryBytes

end ResponseCache

inductive CachePlan
  | off
  | bypass
  | active (key : CacheKey) (refresh : Bool) (ttlSeconds maxResponseBytes : ℕ)
  deriving DecidableEq, Repr

/-- The request the key is made of: as the first target is sent it. -/
def keyedRequest (payload : ChatCompletionRequest) : List TargetPlan → ChatCompletionRequest
  | [] => payload
  | t :: _ => if t.params.isNoop then payload else t.params.apply payload

/-- The names of a plan as the caches see them. -/
def planChain (targets : List TargetPlan) : List String :=
  targets.map fun t => normalizedProvider t.provider

section

variable (c : ResponseCache) (k : VirtualKey)

/-- The tenant the cache keeps a share for. -/
def cacheTenantId : Option String := k.canonicalTenantId.filter c.ownsTenant

/-- `noStore` is the caller's opt-out; `regulated` a request with personal data or a required
region. -/
def cachePlan (directive : Option CacheDirective) (noStore regulated isStream : Bool)
    (targets : List TargetPlan) (payload : ChatCompletionRequest) : CachePlan :=
  match directive with
  | none => .off
  | some d =>
    if noStore || regulated || isStream then .bypass
    else
      match cacheTenantId c k with
      | none => .bypass
      | some tenantId =>
        .active
          (exactKeyGen c.toVec tenantId d.namespaceName (keyedRequest payload targets)
            (planChain targets) (c.flush.generationEffective tenantId d.namespaceName))
          d.forceRefresh d.ttlSeconds
          (min d.maxResponseBytes
            (c.maxResponseBytesForTenant tenantId payload.model.utf8ByteSize))

structure SemanticKey where
  tenantId : String
  namespaceName : String
  model : String
  chain : List String
  deriving DecidableEq, Repr

inductive SemanticPlan
  | off
  | active (key : SemanticKey) (refresh : Bool) (ttlSeconds maxResponseBytes : ℕ)
      (threshold : Option Float)

/-- `enabled`: the semantic cache is built in, and the tenant entitled to it. -/
def semanticPlan (enabled : Bool) (plan : CachePlan) (directive : Option CacheDirective)
    (targets : List TargetPlan) (payload : ChatCompletionRequest) : SemanticPlan :=
  match plan, directive with
  | .active key refresh _ _, some d =>
    if enabled && d.mode == .semantic then
      .active ⟨key.tenantId, d.namespaceName, payload.model, planChain targets⟩ refresh
        d.ttlSeconds d.maxResponseBytes d.similarityThreshold
    else .off
  | _, _ => .off

end

/-- **What must not be cached is not even looked up.** -/
theorem cachePlan_regulated (c : ResponseCache) (k : VirtualKey)
    (directive : Option CacheDirective) (noStore isStream : Bool) (targets : List TargetPlan)
    (payload : ChatCompletionRequest) :
    cachePlan c k directive noStore true isStream targets payload = .off ∨
      cachePlan c k directive noStore true isStream targets payload = .bypass := by
  unfold cachePlan
  cases directive with
  | none => exact .inl rfl
  | some d =>
    right
    simp only [Bool.or_true, Bool.true_or, if_true]

end Routeplane
