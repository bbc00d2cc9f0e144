import Routeplane.Lib.Fallible
import Routeplane.Limits.Live
import Routeplane.Proof.CounterKeys

/-!
# The budgets of a serving registry

The boot check reads the budgets of the keys and the tenants, the builder also compiles one slot for
each model pattern. A pattern's budget that does not resolve is found by nobody: it is compiled with
caps of zero, and the key is refused that model from its first request on.

* `rows_compiled`: every slot of a registry was compiled from the policy that stands at its address.
* `validated_iff`: after a boot that was accepted every compiled budget resolves, iff those of the
  model patterns do.
* `denied_from_start`: a model that answers nobody.
-/

namespace Routeplane.Limits

open Fallible

/-! ## What a registry is built of -/

/-- The slot is that of the policy at its address. -/
def FromTrace (maxReplicas : ℕ) (built : List (ScopeId × LimitPolicy)) (id : ScopeId)
    (s : ScopeSlot) : Prop :=
  ∃ policy, built[s.addr]? = some (id, policy) ∧
    ScopePolicy.fromPolicy id.scope policy id.identity maxReplicas = some s.policy

/-- Each address so far is of one policy, and each slot is that of the policy at its address. -/
structure Traced (maxReplicas : ℕ) (built : List (ScopeId × LimitPolicy))
    (snap : RegistrySnapshot) (h : Heap) : Prop where
  next : h.next = built.length
  rows : ∀ id, ∀ s ∈ snap.rows id, FromTrace maxReplicas built id s

section Traces

variable {maxReplicas : ℕ} {built more : List (ScopeId × LimitPolicy)} {snap : RegistrySnapshot}
  {h : Heap} {e : KeyLimitsInput}

theorem FromTrace.append {id : ScopeId} {s : ScopeSlot} (hs : FromTrace maxReplicas built id s) :
    FromTrace maxReplicas (built ++ more) id s := by
  obtain ⟨policy, hget, hpolicy⟩ := hs
  refine ⟨policy, ?_, hpolicy⟩
  rw [List.getElem?_append_left (List.getElem?_eq_some_iff.1 hget).1, hget]

theorem Traced.append (ht : Traced maxReplicas built snap h) {h' : Heap}
    (hnext : h'.next = (built ++ more).length) :
    Traced maxReplicas (built ++ more) snap h' :=
  ⟨hnext, fun id s hs => (ht.rows id s hs).append⟩

variable (maxReplicas) in
/-- A policy that limits nothing has no slot, another has one at the end of the trace. -/
theorem newSlot_traced (hnext : h.next = built.length) (id : ScopeId) (policy : LimitPolicy) :
    (policy.isEmpty = true ∧ newSlot id.scope policy id.identity maxReplicas h = (none, h) ∧
        limiting id policy = []) ∨
      policy.isEmpty = false ∧
      ∃ sc h', newSlot id.scope policy id.identity maxReplicas h = (some sc, h') ∧
        h'.next = (built ++ limiting id policy).length ∧
        FromTrace maxReplicas (built ++ limiting id policy) id sc.1 := by
  unfold newSlot
  split
  · next hnone =>
    have hempty := ScopePolicy.fromPolicy_eq_none.1 hnone
    exact .inl ⟨hempty, rfl, if_pos hempty⟩
  · next p hp =>
    have hsome : policy.isEmpty = false := by
      rw [Bool.eq_false_iff]
      intro hempty
      rw [ScopePolicy.fromPolicy_eq_none.2 hempty] at hp
      cases hp
    rw [limiting, hsome]
    refine .inr ⟨rfl, _, _, rfl, ?_, policy, ?_, hp⟩
    · rw [List.length_append, ← hnext]
      rfl
    · show (built ++ [(id, policy)])[h.next]? = _
      rw [hnext, List.getElem?_concat_length]

theorem Traced.addKey (ht : Traced maxReplicas built snap h) :
    Traced maxReplicas (built ++ keyPolicies e) (snap.addKey maxReplicas e h).1
      (snap.addKey maxReplicas e h).2 := by
  unfold RegistrySnapshot.addKey keyPolicies
  cases e.limits.key with
  | none => simpa using ht
  | some policy =>
    rw [Option.toList_some, List.flatMap_singleton]
    obtain ⟨-, hnew, hnil⟩ | ⟨-, sc, h', hnew, hnext, hslot⟩ :=
      newSlot_traced maxReplicas ht.next (.key e.routeplaneKey) policy
    · simp only [ScopeId.scope, ScopeId.identity] at hnew
      simp only [hnew, hnil, List.append_nil]
      exact ht
    · simp only [ScopeId.scope, ScopeId.identity] at hnew
      simp only [hnew]
      refine ⟨hnext, fun id s hs => ?_⟩
      cases id with
      | tenant t => exact (ht.rows (.tenant t) s hs).append
      | model k pattern => exact (ht.rows (.model k pattern) s hs).append
      | key k =>
        by_cases hk : k = e.routeplaneKey
        · subst hk
          simp only [RegistrySnapshot.rows, Function.update_self] at hs
          rw [List.mem_singleton.1 hs]
          exact hslot
        · simp only [RegistrySnapshot.rows, Function.update_of_ne hk] at hs
          exact (ht.rows (.key k) s hs).append

theorem Traced.addTenant (ht : Traced maxReplicas built snap h) :
    Traced maxReplicas (built ++ tenantPolicies snap e) (snap.addTenant maxReplicas e h).1
      (snap.addTenant maxReplicas e h).2 := by
  unfold RegistrySnapshot.addTenant tenantPolicies
  cases e.limits.tenant with
  | none => simpa using ht
  | some policy =>
    dsimp only
    split
    · rw [List.append_nil]
      exact ht
    · rw [Option.toList_some, List.flatMap_singleton]
      obtain ⟨-, hnew, hnil⟩ | ⟨-, sc, h', hnew, hnext, hslot⟩ :=
        newSlot_traced maxReplicas ht.next (.tenant e.tenantId) policy
      · simp only [ScopeId.scope, ScopeId.identity] at hnew
        simp only [hnew, hnil, List.append_nil]
        exact ht
      · simp only [ScopeId.scope, ScopeId.identity] at hnew
        simp only [hnew]
        refine ⟨hnext, fun id s hs => ?_⟩
        cases id with
        | key k => exact (ht.rows (.key k) s hs).append
        | model k pattern => exact (ht.rows (.model k pattern) s hs).append
        | tenant t =>
          by_cases heq : t = e.tenantId
          · subst heq
            simp only [RegistrySnapshot.rows, Function.update_self] at hs
            rw [List.mem_singleton.1 hs]
            exact hslot
          · simp only [RegistrySnapshot.rows, Function.update_of_ne heq] at hs
            exact (ht.rows (.tenant t) s hs).append

variable (maxReplicas) in
/-- The rows of a key, by induction on its patterns. -/
theorem modelRows_traced (k : String) (patterns : List (String × LimitPolicy)) {h : Heap}
    (hnext : h.next = built.length) :
    (modelRows k maxReplicas patterns h).2.next = (built ++ modelPolicies k patterns).length ∧
      ∀ row ∈ (modelRows k maxReplicas patterns h).1,
        FromTrace maxReplicas (built ++ modelPolicies k patterns) (.model k row.1) row.2.1 := by
  induction patterns generalizing h built with
  | nil => exact ⟨by simpa [modelRows, modelPolicies] using hnext, by simp [modelRows]⟩
  | cons entry rest ih =>
    obtain ⟨pattern, policy⟩ := entry
    have hcons : modelPolicies k ((pattern, policy) :: rest) =
        (if (trimText pattern).isEmpty then []
          else limiting (.model k (trimText pattern)) policy) ++ modelPolicies k rest := by
      simp only [modelPolicies, List.flatMap_cons]
    rw [hcons, ← List.append_assoc]
    simp only [modelRows]
    by_cases hpat : (trimText pattern).isEmpty
    · simp only [hpat, Bool.true_or, if_true, List.append_nil]
      exact ih hnext
    · rw [if_neg hpat]
      obtain ⟨hempty, -, hnil⟩ | ⟨hlimits, sc, h', hnew, hnext', hslot⟩ :=
        newSlot_traced maxReplicas hnext (.model k (trimText pattern)) policy
      · simp only [hnil, hempty, Bool.or_true, if_true, List.append_nil]
        exact ih hnext
      · simp only [ScopeId.scope, ScopeId.identity] at hnew
        simp only [hpat, hlimits, Bool.or_false, Bool.false_eq_true, if_false, hnew]
        obtain ⟨hnext'', hrest⟩ := ih hnext'
        refine ⟨hnext'', fun row hrow => ?_⟩
        rcases List.mem_cons.1 hrow with rfl | hrow
        · exact hslot.append
        · exact hrest row hrow

theorem Traced.addModels (ht : Traced maxReplicas built snap h) :
    Traced maxReplicas (built ++ modelPolicies e.routeplaneKey e.limits.modelLimits)
      (snap.addModels maxReplicas e h).1 (snap.addModels maxReplicas e h).2 := by
  unfold RegistrySnapshot.addModels
  split
  · next hempty =>
    -- none of the policies limits anything
    have hnil : modelPolicies e.routeplaneKey e.limits.modelLimits = [] := by
      rw [modelPolicies, List.flatMap_eq_nil_iff]
      intro row hrow
      rcases Bool.or_eq_true_iff.1 hempty with hnone | hall
      · rw [List.isEmpty_iff.1 hnone] at hrow
        cases hrow
      · rw [limiting, List.all_eq_true.1 hall row hrow]
        exact ite_self []
    rw [hnil, List.append_nil]
    exact ht
  · obtain ⟨hnext, hrows⟩ := modelRows_traced maxReplicas e.routeplaneKey
      e.limits.modelLimits ht.next
    generalize modelRows e.routeplaneKey maxReplicas e.limits.modelLimits h = made at hnext hrows
    obtain ⟨rows, h'⟩ := made
    cases rows with
    | nil => exact ht.append hnext
    | cons first rest =>
      refine ⟨hnext, fun id s hs => ?_⟩
      cases id with
      | key k => exact (ht.rows (.key k) s hs).append
      | tenant t => exact (ht.rows (.tenant t) s hs).append
      | model k pattern =>
        by_cases hk : k = e.routeplaneKey
        · subst hk
          simp only [RegistrySnapshot.rows, Function.update_self, Option.getD_some,
            List.mem_filterMap, List.mem_insertionSort] at hs
          obtain ⟨row, hrow, hpattern⟩ := hs
          split at hpattern
          · next heq =>
            rw [← Option.some.inj hpattern, ← heq]
            exact hrows row hrow
          · cases hpattern
        · simp only [RegistrySnapshot.rows, Function.update_of_ne hk] at hs
          exact (ht.rows (.model k pattern) s hs).append

/-- Only the tenants' slots decide what an entry compiles, and its key adds none of these. -/
theorem tenantPolicies_addKey :
    tenantPolicies (snap.addKey maxReplicas e h).1 e = tenantPolicies snap e := by
  have hsame : (snap.addKey maxReplicas e h).1.tenantCounters = snap.tenantCounters := by
    unfold RegistrySnapshot.addKey
    split
    · rfl
    · split <;> rfl
  rw [tenantPolicies, hsame, tenantPolicies]

theorem Traced.addEntry {acc : RegistrySnapshot × Heap}
    (ht : Traced maxReplicas built acc.1 acc.2) :
    Traced maxReplicas (built ++ entryPolicies acc.1 e)
      (RegistrySnapshot.addEntry maxReplicas e acc).1
      (RegistrySnapshot.addEntry maxReplicas e acc).2 := by
  unfold RegistrySnapshot.addEntry entryPolicies
  split
  · rw [List.append_nil]
    exact ht
  · have hmodels := (ht.addKey (e := e)).addTenant (e := e) |>.addModels (e := e)
    rw [tenantPolicies_addKey, List.append_assoc, List.append_assoc] at hmodels
    rw [List.append_assoc]
    exact hmodels

/-- **Every slot of a registry was compiled from the policy at its address.** -/
theorem rows_compiled (entries : List KeyLimitsInput) (maxReplicas : ℕ) :
    Traced maxReplicas (compiled entries maxReplicas)
      (LimitRegistry.buildWithReplicas entries maxReplicas {}).1.inner
      (LimitRegistry.buildWithReplicas entries maxReplicas {}).2 := by
  have hfold : ∀ (entries : List KeyLimitsInput) (acc : RegistrySnapshot × Heap) built,
      Traced maxReplicas built acc.1 acc.2 →
      Traced maxReplicas (built ++ compiledFrom maxReplicas entries acc)
        (entries.foldl (fun acc e => RegistrySnapshot.addEntry maxReplicas e acc) acc).1
        (entries.foldl (fun acc e => RegistrySnapshot.addEntry maxReplicas e acc) acc).2 := by
    intro entries
    induction entries with
    | nil =>
      intro acc built ht
      rw [compiledFrom, List.append_nil]
      exact ht
    | cons e entries ih =>
      intro acc built ht
      rw [compiledFrom, ← List.append_assoc]
      exact ih _ _ ht.addEntry
  refine hfold entries ({}, {}) [] ⟨rfl, fun id s hs => ?_⟩
  cases id <;> exact absurd hs List.not_mem_nil

end Traces

/-! ## What the boot has checked -/

section Boot

variable {inputs entries : List KeyLimitsInput} {maxReplicas : ℕ} {e : KeyLimitsInput}

theorem resolves_of_validateScope {routeplaneKey scope : String} {policy : Option LimitPolicy}
    (h : validateScope routeplaneKey scope policy = .ok ()) :
    ∀ p, policy = some p → p.Resolves := by
  rintro p rfl budget hbudget
  simp only [validateScope, Option.bind_some, hbudget] at h
  obtain ⟨caps, hcaps, -⟩ := map_eq_ok h
  exact ⟨caps, of_mapError hcaps⟩

/-- The boot has read the budget of every key and every tenant, by induction on the keys. -/
theorem resolves_of_validateBudgets (h : validateBudgets inputs = .ok ()) :
    ∀ input ∈ inputs, (∀ p, input.limits.key = some p → p.Resolves) ∧
      ∀ p, input.limits.tenant = some p → p.Resolves := by
  induction inputs with
  | nil => exact fun input hinput => absurd hinput List.not_mem_nil
  | cons first inputs ih =>
    obtain ⟨_, hfirst, hrest⟩ := bind_eq_ok h
    obtain ⟨_, hkey, htenant⟩ := bind_eq_ok hfirst
    intro input hinput
    rcases List.mem_cons.1 hinput with rfl | hinput
    · exact ⟨resolves_of_validateScope hkey, resolves_of_validateScope htenant⟩
    · exact ih hrest input hinput

/-- The builder makes a slot for a model pattern: it is not blank, and its policy limits
something. -/
def Compiles (row : String × LimitPolicy) : Prop :=
  (trimText row.1).isEmpty = false ∧ row.2.isEmpty = false

theorem mem_limiting {id : ScopeId} {policy : LimitPolicy} {c : ScopeId × LimitPolicy} :
    c ∈ limiting id policy ↔ policy.isEmpty = false ∧ c = (id, policy) := by
  unfold limiting
  cases policy.isEmpty <;> simp

theorem mem_modelPolicies {routeplaneKey : String} {modelLimits : List (String × LimitPolicy)}
    {c : ScopeId × LimitPolicy} :
    c ∈ modelPolicies routeplaneKey modelLimits ↔
      ∃ row ∈ modelLimits, Compiles row ∧ c = (.model routeplaneKey (trimText row.1), row.2) := by
  unfold modelPolicies Compiles
  rw [List.mem_flatMap]
  refine exists_congr fun row => and_congr_right fun _ => ?_
  cases (trimText row.1).isEmpty <;> simp [mem_limiting]

/-- An entry compiles its key's policy, its tenant's and those of its patterns. -/
theorem mem_entryPolicies {snap : RegistrySnapshot} {c : ScopeId × LimitPolicy}
    (hc : c ∈ entryPolicies snap e) :
    e.limits.key = some c.2 ∨ e.limits.tenant = some c.2 ∨
      ∃ row ∈ e.limits.modelLimits, Compiles row ∧ c.2 = row.2 := by
  unfold entryPolicies at hc
  split at hc
  · cases hc
  · rcases List.mem_append.1 hc with hc | hc
    · rcases List.mem_append.1 hc with hc | hc
      · obtain ⟨p, hp, hc⟩ := List.mem_flatMap.1 hc
        obtain ⟨-, rfl⟩ := mem_limiting.1 hc
        exact .inl (Option.mem_toList.1 hp)
      · unfold tenantPolicies at hc
        split at hc
        · cases hc
        · obtain ⟨p, hp, hc⟩ := List.mem_flatMap.1 hc
          obtain ⟨-, rfl⟩ := mem_limiting.1 hc
          exact .inr (.inl (Option.mem_toList.1 hp))
    · obtain ⟨row, hrow, hcompiles, rfl⟩ := mem_modelPolicies.1 hc
      exact .inr (.inr ⟨row, hrow, hcompiles, rfl⟩)

/-- A pattern with a limit makes the limits of its key no empty ones. -/
theorem pattern_mem_entryPolicies (snap : RegistrySnapshot) {row : String × LimitPolicy}
    (hrow : row ∈ e.limits.modelLimits) (hcompiles : Compiles row) :
    (.model e.routeplaneKey (trimText row.1), row.2) ∈ entryPolicies snap e := by
  have hmodels : e.limits.modelLimitsIsEmpty = false := by
    rw [KeyLimits.modelLimitsIsEmpty, Bool.or_eq_false_iff]
    constructor
    · rw [List.isEmpty_eq_false_iff]
      exact List.ne_nil_of_mem hrow
    · rw [List.all_eq_false]
      exact ⟨row, hrow, by rw [hcompiles.2]; decide⟩
  have hlimits : e.limits.isEmpty = false := by
    rw [KeyLimits.isEmpty, hmodels, Bool.and_false]
  rw [entryPolicies, hlimits]
  exact List.mem_append_right _ (mem_modelPolicies.2 ⟨row, hrow, hcompiles, rfl⟩)

theorem mem_compiledFrom {c : ScopeId × LimitPolicy} {acc : RegistrySnapshot × Heap}
    (hc : c ∈ compiledFrom maxReplicas entries acc) :
    ∃ e ∈ entries, ∃ snap, c ∈ entryPolicies snap e := by
  induction entries generalizing acc with
  | nil => cases hc
  | cons e entries ih =>
    rcases List.mem_append.1 hc with hc | hc
    · exact ⟨e, List.mem_cons_self .., acc.1, hc⟩
    · obtain ⟨e', he', snap, hc⟩ := ih hc
      exact ⟨e', List.mem_cons_of_mem _ he', snap, hc⟩

variable (maxReplicas) in
theorem exists_mem_compiledFrom (acc : RegistrySnapshot × Heap) (he : e ∈ entries) :
    ∃ snap, ∀ c ∈ entryPolicies snap e, c ∈ compiledFrom maxReplicas entries acc := by
  induction entries generalizing acc with
  | nil => cases he
  | cons first entries ih =>
    rcases List.mem_cons.1 he with rfl | he
    · exact ⟨acc.1, fun c hc => List.mem_append_left _ hc⟩
    · obtain ⟨snap, hsnap⟩ := ih (RegistrySnapshot.addEntry maxReplicas first acc) he
      exact ⟨snap, fun c hc => List.mem_append_right _ (hsnap c hc)⟩

/-- **After a boot that was accepted every compiled budget resolves iff those of the model patterns
do.** -/
theorem validated_iff (hboot : validateBudgets entries = .ok ()) (maxReplicas : ℕ) :
    (∀ c ∈ compiled entries maxReplicas, c.2.Resolves) ↔
      ∀ e ∈ entries, ∀ row ∈ e.limits.modelLimits, Compiles row → row.2.Resolves := by
  constructor
  · intro h e he row hrow hcompiles
    obtain ⟨snap, hsnap⟩ := exists_mem_compiledFrom maxReplicas ({}, {}) he
    exact h _ (hsnap _ (pattern_mem_entryPolicies snap hrow hcompiles))
  · intro h c hc
    obtain ⟨e, he, snap, hc⟩ := mem_compiledFrom hc
    obtain ⟨hkey, htenant⟩ := resolves_of_validateBudgets hboot e he
    obtain hp | hp | ⟨row, hrow, hcompiles, hp⟩ := mem_entryPolicies hc
    · exact hkey _ hp
    · exact htenant _ hp
    · rw [hp]
      exact h e he row hrow hcompiles

end Boot

/-! ## A budget that nobody reads -/

/-- A budget that does not resolve caps both windows at nothing. -/
theorem capped_at_zero {scope : LimitScope} {policy : LimitPolicy} {fallbackId : String}
    {maxReplicas : ℕ} {p : ScopePolicy} (hunresolved : ¬ policy.Resolves)
    (hp : ScopePolicy.fromPolicy scope policy fallbackId maxReplicas = some p) :
    p.costDaily = some 0 ∧ p.costMonthly = some 0 := by
  have hcaps : (policy.budget.getD {}).resolvedCostCaps.toOption = none := by
    cases hbudget : policy.budget with
    | none => exact absurd (fun b hb => by rw [hbudget] at hb; cases hb) hunresolved
    | some budget =>
      cases hresolve : budget.resolvedCostCaps with
      | error e => rw [Option.getD_some, hresolve]; rfl
      | ok caps =>
        refine absurd (fun b hb => ⟨caps, ?_⟩) hunresolved
        rw [hbudget] at hb
        rw [← Option.some.inj hb, hresolve]
  have hzero : clampLimit maxReplicas (some 0) = some 0 := by
    unfold clampLimit sharePerReplica
    simp only [Option.map_some, Nat.zero_add]
    split
    · rfl
    · next h =>
      rw [Nat.div_eq_of_lt (by omega)]
      rfl
  unfold ScopePolicy.fromPolicy at hp
  split at hp
  · cases hp
  · simp only [hcaps, Option.getD_none] at hp
    rw [← Option.some.inj hp]
    exact ⟨hzero, hzero⟩

/-- A pattern limited to a thousand tokens, and to five hundred units of no currency. -/
def typo : LimitPolicy :=
  { budget := some { tokensDaily := some 1000, authoredCostDaily := some 500 } }

def typoInputs : List KeyLimitsInput := [⟨"rk-1", "acme", { modelLimits := [("gpt-4o", typo)] }⟩]

def tokensInputs : List KeyLimitsInput :=
  [⟨"rk-1", "acme", { modelLimits := [("gpt-4o", { budget := some { tokensDaily := some 1000 } })] }⟩]

theorem tokens_validated :
    validateBudgets tokensInputs = .ok () ∧ ∀ c ∈ compiled tokensInputs 1, c.2.Resolves := by
  refine ⟨rfl, (validated_iff rfl 1).2 fun e he row hrow _ => ?_⟩
  rw [List.mem_singleton.1 he] at hrow
  rw [List.mem_singleton.1 hrow]
  rintro budget hbudget
  cases hbudget
  exact ⟨(none, none), rfl⟩

/-- **A typo in a pattern's budget**: the boot accepts it, and the key is refused that model from
the first request on. -/
theorem denied_from_start :
    validateBudgets typoInputs = .ok () ∧
      (∃ c ∈ compiled typoInputs 1, ¬ c.2.Resolves) ∧
      (((LimitRegistry.buildWithReplicas typoInputs 1 {}).1.resolveForModel "rk-1" "acme"
        "gpt-4o").admitRequest 0 (LimitRegistry.buildWithReplicas typoInputs 1 {}).2).1.isAllowed =
          false := by
  refine ⟨rfl, ?_, by decide⟩
  have hmem : (ScopeId.model "rk-1" "gpt-4o", typo) ∈ compiled typoInputs 1 := by decide
  refine ⟨_, hmem, fun hresolves => ?_⟩
  obtain ⟨caps, hcaps⟩ := hresolves _ rfl
  cases hcaps

end Routeplane.Limits
