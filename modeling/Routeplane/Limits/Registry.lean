import Routeplane.Limits.Scope
import Routeplane.Types.Text
import Mathlib.Data.List.Sort

/-!
# The limit registry

The counters of every configured scope, found by the authenticated key and tenant, and the
guards of one request: the slots its key, its tenant and its model have.

* `LimitGuards.admitRequest`: check every scope, then take one request slot of each in turn.
* `LimitRegistry.buildWithReplicas`: the slots of a configuration, each with fresh counters.
* `LimitRegistry.replacePreservingCounters`: a new configuration that keeps the counters of the
  scopes it does not change.
-/

namespace Routeplane.Limits

/-- A compiled slot: its policy, and where its counters are. -/
structure ScopeSlot where
  policy : ScopePolicy
  addr : ℕ
  deriving DecidableEq, Repr

/-- A slot of one kind of scope. -/
def Scoped (k : LimitScope) := { s : ScopeSlot // s.policy.scope = k }

/-- Two slots have their counters in one place. -/
def ScopeSlot.Aliases (s t : ScopeSlot) : Prop :=
  s.policy.scope = t.policy.scope ∧ s.addr = t.addr

instance (s t : ScopeSlot) : Decidable (s.Aliases t) := inferInstanceAs (Decidable (_ ∧ _))

/-- The counters of every slot ever made, and the next free address. -/
structure Heap where
  cells : LimitScope → ℕ → Counters := fun _ _ => {}
  next : ℕ := 0

namespace Heap

def get (h : Heap) (s : ScopeSlot) : Counters := h.cells s.policy.scope s.addr

def set (h : Heap) (s : ScopeSlot) (c : Counters) : Heap :=
  { h with
    cells := Function.update h.cells s.policy.scope
      (Function.update (h.cells s.policy.scope) s.addr c) }

variable (h : Heap) {s t : ScopeSlot} (c : Counters)

@[simp] theorem set_next : (h.set s c).next = h.next := rfl

theorem get_set_of_aliases (ha : s.Aliases t) : (h.set s c).get t = c := by
  unfold get set
  rw [← ha.1, ← ha.2]
  simp only [Function.update_self]

@[simp] theorem get_set_self : (h.set s c).get s = c := get_set_of_aliases h c ⟨rfl, rfl⟩

theorem get_set_of_not_aliases (ha : ¬s.Aliases t) : (h.set s c).get t = h.get t := by
  unfold get set
  by_cases hk : s.policy.scope = t.policy.scope
  · have hne : t.addr ≠ s.addr := fun heq => ha ⟨hk, heq.symm⟩
    simp only [hk, Function.update_self, Function.update_of_ne hne]
  · simp only [Function.update_of_ne (Ne.symm hk)]

@[simp] theorem set_get : h.set s (h.get s) = h := by
  unfold get set
  simp only [Function.update_eq_self]

end Heap

/-! ## The guards of a request -/

/-- The slots a request is held to. -/
structure LimitGuards where
  key : Option (Scoped .key)
  tenant : Option (Scoped .tenant)
  model : Option (Scoped .model)

structure RequestRateSpec where
  scope : LimitScope
  policyId : String
  identity : String
  limit : ℕ
  hard : Bool
  deriving DecidableEq, Repr

/-- One request slot of each scope in turn, up to the first that refuses. -/
def consumeAll (nowMs : ℕ) : List ScopeSlot → Heap → Option Breach × Heap
  | [], h => (none, h)
  | s :: ss, h =>
    match s.policy.consumeRequest (h.get s) nowMs with
    | (some b, c) => (some b, h.set s c)
    | (none, c) => consumeAll nowMs ss (h.set s c)

def settleAll (nowMs totalTokens costMicroUsd : ℕ) : List ScopeSlot → Heap → List SpendAlert × Heap
  | [], h => ([], h)
  | s :: ss, h =>
    let (alert, c) := s.policy.settle (h.get s) nowMs totalTokens costMicroUsd
    let (alerts, h) := settleAll nowMs totalTokens costMicroUsd ss (h.set s c)
    (alert.toList ++ alerts, h)

namespace LimitGuards

variable (g : LimitGuards) (nowMs : ℕ) (h : Heap)

def isUnlimited : Bool := g.key.isNone && g.tenant.isNone && g.model.isNone

def scopes : List ScopeSlot :=
  g.key.toList.map (·.1) ++ g.tenant.toList.map (·.1) ++ g.model.toList.map (·.1)

/-- The headroom over all scopes, the tightest for each limit. -/
def advisory : Advisory :=
  g.scopes.foldl (fun a s => s.policy.contributeAdvisory (h.get s) nowMs a) {}

def firstBreach : Option Breach := g.scopes.findSome? fun s => s.policy.check (h.get s) nowMs

def admitRequest : Admission × Heap :=
  match g.firstBreach nowMs h with
  | some b => (.denied b, h)
  | none =>
    match consumeAll nowMs g.scopes h with
    | (some b, h) => (.denied b, h)
    | (none, h) => (.allowed (g.advisory nowMs h), h)

/-- The check alone, taking no request slot. -/
def checkOnly : Admission :=
  match g.firstBreach nowMs h with
  | some b => .denied b
  | none => .allowed (g.advisory nowMs h)

def requestRateSpecs : List RequestRateSpec :=
  g.scopes.filterMap fun s => s.policy.reqPerMinGlobal.map fun limit =>
    ⟨s.policy.scope, s.policy.policyId, s.policy.identity, limit, s.policy.rateMode.isHard⟩

def settle (totalTokens costMicroUsd : ℕ) : List SpendAlert × Heap :=
  settleAll nowMs totalTokens costMicroUsd g.scopes h

def warning : Option BudgetWarning :=
  g.scopes.foldl (fun best s =>
    match s.policy.warning (h.get s) nowMs with
    | some w => if best.all (·.consumedPermille < w.consumedPermille) then some w else best
    | none => best) none

end LimitGuards

/-! ## The registry -/

abbrev ModelCounterList := List (String × Scoped .model)

structure RegistrySnapshot where
  keyCounters : String → Option (Scoped .key) := fun _ => none
  tenantCounters : String → Option (Scoped .tenant) := fun _ => none
  modelCounters : String → Option ModelCounterList := fun _ => none

structure KeyLimitsInput where
  routeplaneKey : String
  tenantId : String
  limits : KeyLimits
  deriving DecidableEq, Repr

/-- A slot for a policy that limits something, with fresh counters. -/
def newSlot (k : LimitScope) (policy : LimitPolicy) (fallback : String) (maxReplicas : ℕ)
    (h : Heap) : Option (Scoped k) × Heap :=
  match hp : ScopePolicy.fromPolicy k policy fallback maxReplicas with
  | none => (none, h)
  | some p =>
    let slot : ScopeSlot := ⟨p, h.next⟩
    (some ⟨slot, (ScopePolicy.fromPolicy_identity hp).1⟩, { h.set slot {} with next := h.next + 1 })

/-- A slot for each model pattern that limits something. -/
def modelRows (routeplaneKey : String) (maxReplicas : ℕ) :
    List (String × LimitPolicy) → Heap → ModelCounterList × Heap
  | [], h => ([], h)
  | (pattern, policy) :: rest, h =>
    let pat := trimText pattern
    if pat.isEmpty || policy.isEmpty then modelRows routeplaneKey maxReplicas rest h
    else
      match newSlot .model policy ("model:" ++ routeplaneKey ++ ":" ++ pat) maxReplicas h with
      | (none, h) => modelRows routeplaneKey maxReplicas rest h
      | (some sc, h) =>
        let (rows, h) := modelRows routeplaneKey maxReplicas rest h
        ((pat, sc) :: rows, h)

/-- Longer patterns first, equally long ones in order of their text. -/
def moreSpecific (a b : String × Scoped .model) : Bool :=
  b.1.utf8ByteSize < a.1.utf8ByteSize || (a.1.utf8ByteSize == b.1.utf8ByteSize && a.1 ≤ b.1)

namespace RegistrySnapshot

variable (snap : RegistrySnapshot) (maxReplicas : ℕ) (e : KeyLimitsInput) (h : Heap)

def addKey : RegistrySnapshot × Heap :=
  match e.limits.key with
  | none => (snap, h)
  | some p =>
    match newSlot .key p ("key:" ++ e.routeplaneKey) maxReplicas h with
    | (none, h) => (snap, h)
    | (some sc, h) =>
      ({ snap with
          keyCounters := Function.update snap.keyCounters e.routeplaneKey (some sc) }, h)

/-- The first key of a tenant that limits it wins. -/
def addTenant : RegistrySnapshot × Heap :=
  match e.limits.tenant with
  | none => (snap, h)
  | some p =>
    if (snap.tenantCounters e.tenantId).isSome then (snap, h)
    else
      match newSlot .tenant p ("tenant:" ++ e.tenantId) maxReplicas h with
      | (none, h) => (snap, h)
      | (some sc, h) =>
        ({ snap with
            tenantCounters := Function.update snap.tenantCounters e.tenantId (some sc) }, h)

def addModels : RegistrySnapshot × Heap :=
  if e.limits.modelLimitsIsEmpty then (snap, h)
  else
    match modelRows e.routeplaneKey maxReplicas e.limits.modelLimits h with
    | ([], h) => (snap, h)
    | (rows, h) =>
      ({ snap with
          modelCounters := Function.update snap.modelCounters e.routeplaneKey
            (some (rows.insertionSort fun a b => moreSpecific a b = true)) }, h)

def addEntry (acc : RegistrySnapshot × Heap) : RegistrySnapshot × Heap :=
  if e.limits.isEmpty then acc
  else
    let (snap, h) := acc.1.addKey maxReplicas e acc.2
    let (snap, h) := snap.addTenant maxReplicas e h
    snap.addModels maxReplicas e h

end RegistrySnapshot

structure LimitRegistry where
  inner : RegistrySnapshot := {}
  maxReplicas : ℕ := 1

/-- The slot of the previous configuration, if the policy is the same. -/
def preserveSlot {k : LimitScope} (sc prev : Scoped k) : Scoped k :=
  if sc.1.policy.samePolicy prev.1.policy then prev else sc

/-- A row takes the first previous row of its pattern. -/
def preserveRow (prevRows : ModelCounterList) (row : String × Scoped .model) :
    String × Scoped .model :=
  match prevRows.find? fun r => r.1 == row.1 with
  | some prev => (row.1, preserveSlot row.2 prev.2)
  | none => row

namespace LimitRegistry

def buildWithReplicas (entries : List KeyLimitsInput) (maxReplicas : ℕ) (h : Heap) :
    LimitRegistry × Heap :=
  let (snap, h) := entries.foldl (fun acc e => RegistrySnapshot.addEntry maxReplicas e acc) ({}, h)
  (⟨snap, maxReplicas⟩, h)

/-- The slots of `next`, those with an unchanged policy at their previous place. -/
def preserve (next prev : RegistrySnapshot) : RegistrySnapshot where
  keyCounters key := (next.keyCounters key).map fun sc =>
    match prev.keyCounters key with
    | some prevSc => preserveSlot sc prevSc
    | none => sc
  tenantCounters tenant := (next.tenantCounters tenant).map fun sc =>
    match prev.tenantCounters tenant with
    | some prevSc => preserveSlot sc prevSc
    | none => sc
  modelCounters key := (next.modelCounters key).map fun rows =>
    match prev.modelCounters key with
    | some prevRows => rows.map (preserveRow prevRows)
    | none => rows

variable (r : LimitRegistry)

def replacePreservingCounters (entries : List KeyLimitsInput) (h : Heap) : LimitRegistry × Heap :=
  let (built, h) := buildWithReplicas entries r.maxReplicas h
  (⟨preserve built.inner r.inner, r.maxReplicas⟩, h)

def resolve (routeplaneKey tenantId : String) : LimitGuards :=
  ⟨r.inner.keyCounters routeplaneKey, r.inner.tenantCounters tenantId, none⟩

/-- The guards of a request for a model: with the slot of the first pattern it contains. -/
def resolveForModel (routeplaneKey tenantId servedModel : String) : LimitGuards where
  key := r.inner.keyCounters routeplaneKey
  tenant := r.inner.tenantCounters tenantId
  model := ((r.inner.modelCounters routeplaneKey).bind fun rows =>
    rows.find? fun row => containsText servedModel row.1).map (·.2)

end LimitRegistry

/-! ## The scopes of a guard -/

namespace LimitGuards

variable {g : LimitGuards}

/-- The scopes of a request are of different kinds. -/
theorem scopes_kinds (g : LimitGuards) :
    g.scopes.Pairwise fun s t => s.policy.scope ≠ t.policy.scope := by
  obtain ⟨key, tenant, model⟩ := g
  have hdiff : ∀ {k l : LimitScope}, k ≠ l → ∀ (s : Scoped k) (t : Scoped l),
      s.1.policy.scope ≠ t.1.policy.scope := by
    intro k l hkl s t heq
    exact hkl (s.2.symm.trans (heq.trans t.2))
  cases key <;> cases tenant <;> cases model <;>
    simp [scopes, hdiff (k := .key) (l := .tenant), hdiff (k := .key) (l := .model),
      hdiff (k := .tenant) (l := .model)]

theorem scopes_eq_nil : g.scopes = [] ↔ g.isUnlimited = true := by
  obtain ⟨key, tenant, model⟩ := g
  cases key <;> cases tenant <;> cases model <;> simp [scopes, isUnlimited]

end LimitGuards

end Routeplane.Limits
