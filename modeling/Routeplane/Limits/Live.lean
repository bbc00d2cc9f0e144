import Routeplane.Limits.Registry

/-!
# A registry in service

Requests take their guards from the registry and count against them for as long as they run, while
the registry is swapped for one with another configuration.

Before the registry is built, the boot reads the budget of every key's and every tenant's policy and
refuses to start when its cost caps do not resolve.

* `RegistrySnapshot.rows`: the slots of one scope, of which a request is given the first.
* `Live.apply`: guards are taken, a scope counts a request or its usage, the registry is swapped.
* `validateBudgets`: the check.
* `compiled`: the policies that the builder makes slots of, in the order it makes them.
-/

namespace Routeplane.Limits

/-- What limits are configured for. -/
inductive ScopeId
  | key (routeplaneKey : String)
  | tenant (tenantId : String)
  | model (routeplaneKey pattern : String)
  deriving DecidableEq, Repr

namespace RegistrySnapshot

/-- The slots of a scope; only a model pattern can have several, for texts that trim to the same
pattern. -/
def rows (snap : RegistrySnapshot) : ScopeId → List ScopeSlot
  | .key k => (snap.keyCounters k).toList.map (·.1)
  | .tenant t => (snap.tenantCounters t).toList.map (·.1)
  | .model k pattern =>
    ((snap.modelCounters k).getD []).filterMap fun row =>
      if row.1 = pattern then some row.2.1 else none

/-- The slot of a scope with a given policy. -/
def slotFor (snap : RegistrySnapshot) (id : ScopeId) (policy : ScopePolicy) : Option ScopeSlot :=
  (snap.rows id).find? fun s => s.policy.samePolicy policy

end RegistrySnapshot

/-- The registry, every counter, and the slots that requests have been given. -/
structure Live where
  registry : LimitRegistry
  heap : Heap
  held : List ScopeSlot

inductive Event
  /-- A request takes its guards, for a model where its endpoint knows one. -/
  | resolve (routeplaneKey tenantId : String) (servedModel : Option String)
  /-- A request asks one of its scopes for a slot. -/
  | take (s : ScopeSlot) (nowMs : ℕ)
  /-- A request records its usage at one of its scopes. -/
  | settle (s : ScopeSlot) (nowMs totalTokens costMicroUsd : ℕ)
  | swap (entries : List KeyLimitsInput)
  deriving DecidableEq, Repr

namespace Live

variable (σ : Live)

def start (entries : List KeyLimitsInput) (maxReplicas : ℕ) : Live :=
  let (registry, h) := LimitRegistry.buildWithReplicas entries maxReplicas {}
  ⟨registry, h, []⟩

def guardsOf (routeplaneKey tenantId : String) : Option String → LimitGuards
  | none => σ.registry.resolve routeplaneKey tenantId
  | some m => σ.registry.resolveForModel routeplaneKey tenantId m

def swap (entries : List KeyLimitsInput) : Live :=
  let (registry, h) := σ.registry.replacePreservingCounters entries σ.heap
  { σ with registry := registry, heap := h }

def apply : Event → Live
  | .resolve k t m => { σ with held := (σ.guardsOf k t m).scopes ++ σ.held }
  | .take s nowMs =>
    { σ with heap := σ.heap.set s (s.policy.consumeRequest (σ.heap.get s) nowMs).2 }
  | .settle s nowMs totalTokens costMicroUsd =>
    { σ with
      heap := σ.heap.set s (s.policy.settle (σ.heap.get s) nowMs totalTokens costMicroUsd).2 }
  | .swap entries => σ.swap entries

/-- A scope is counted against by requests that were given it. -/
def Enabled : Event → Prop
  | .take s _ => s ∈ σ.held
  | .settle s _ _ _ => s ∈ σ.held
  | _ => True

instance (e : Event) : Decidable (σ.Enabled e) := by
  cases e <;> unfold Enabled <;> infer_instance

def run (events : List Event) : Live := events.foldl apply σ

/-- Every event is enabled where it happens. -/
def Runs : Live → List Event → Prop
  | _, [] => True
  | σ, e :: events => σ.Enabled e ∧ Runs (σ.apply e) events

instance decidableRuns : (events : List Event) → (σ : Live) → Decidable (σ.Runs events)
  | [], _ => isTrue trivial
  | e :: events, σ => @instDecidableAnd _ _ _ (decidableRuns events (σ.apply e))

def rows (id : ScopeId) : List ScopeSlot := σ.registry.inner.rows id

def slotFor (id : ScopeId) (policy : ScopePolicy) : Option ScopeSlot :=
  σ.registry.inner.slotFor id policy

end Live

/-! ## Budgets at boot -/

/-- The cost caps of the policy's budget resolve, if it has one. -/
def LimitPolicy.Resolves (p : LimitPolicy) : Prop :=
  ∀ budget, p.budget = some budget → ∃ caps, budget.resolvedCostCaps = .ok caps

/-- The message with which the boot stops. -/
def invalidBudget (routeplaneKey scope : String) (e : BudgetConfigError) : String :=
  "invalid budget config (key=" ++ routeplaneKey ++ " scope=" ++ scope ++ "): " ++ e.display

def validateScope (routeplaneKey scope : String) (policy : Option LimitPolicy) :
    Except String Unit :=
  match policy.bind LimitPolicy.budget with
  | none => .ok ()
  | some budget => (budget.resolvedCostCaps.mapError (invalidBudget routeplaneKey scope)).map
      fun _ => ()

def validateBudgets (inputs : List KeyLimitsInput) : Except String Unit :=
  inputs.forM fun input => do
    validateScope input.routeplaneKey "key" input.limits.key
    validateScope input.routeplaneKey "tenant" input.limits.tenant

/-! ## What the builder compiles -/

/-- A policy of a scope that limits something. -/
def limiting (id : ScopeId) (policy : LimitPolicy) : List (ScopeId × LimitPolicy) :=
  if policy.isEmpty then [] else [(id, policy)]

def keyPolicies (e : KeyLimitsInput) : List (ScopeId × LimitPolicy) :=
  e.limits.key.toList.flatMap (limiting (.key e.routeplaneKey))

/-- The first key of a tenant that limits it wins. -/
def tenantPolicies (snap : RegistrySnapshot) (e : KeyLimitsInput) : List (ScopeId × LimitPolicy) :=
  if (snap.tenantCounters e.tenantId).isSome then []
  else e.limits.tenant.toList.flatMap (limiting (.tenant e.tenantId))

def modelPolicies (routeplaneKey : String) (modelLimits : List (String × LimitPolicy)) :
    List (ScopeId × LimitPolicy) :=
  modelLimits.flatMap fun row =>
    if (trimText row.1).isEmpty then [] else limiting (.model routeplaneKey (trimText row.1)) row.2

/-- The policies of an entry, over the scopes that have slots already. -/
def entryPolicies (snap : RegistrySnapshot) (e : KeyLimitsInput) : List (ScopeId × LimitPolicy) :=
  if e.limits.isEmpty then []
  else
    keyPolicies e ++ tenantPolicies snap e ++ modelPolicies e.routeplaneKey e.limits.modelLimits

def compiledFrom (maxReplicas : ℕ) :
    List KeyLimitsInput → RegistrySnapshot × Heap → List (ScopeId × LimitPolicy)
  | [], _ => []
  | e :: entries, acc =>
    entryPolicies acc.1 e ++ compiledFrom maxReplicas entries (RegistrySnapshot.addEntry maxReplicas e acc)

/-- The policies a registry is built of. -/
def compiled (entries : List KeyLimitsInput) (maxReplicas : ℕ) : List (ScopeId × LimitPolicy) :=
  compiledFrom maxReplicas entries ({}, {})

end Routeplane.Limits
