import Routeplane.Lib.Assoc
import Routeplane.Proxy.Gates

/-!
# The config poller

A background task fetches the model configs of every tenant from the control plane, builds an
overlay of what it got, and stores it in the place of the one before.

* `buildOverlay`: one cycle. `pollOverlay`: the overlay after some cycles.
* `modelEnabled_buildOverlay`: the verdicts of a cycle.
-/

namespace Routeplane

/-- A row of a tenant's model configs. -/
structure CpModelConfig where
  modelId : String
  enabled : Bool
  deriving DecidableEq, Repr

/-- What the control plane answers in one cycle, tenant by tenant. -/
abbrev Fetch := String → Except String (List CpModelConfig)

/-- The verdict of a tenant's rows on a model; of two rows the last counts. -/
def rowsVerdict (rows : List CpModelConfig) (modelId : String) : Option Bool :=
  (rows.reverse.find? fun row => row.modelId = modelId).map CpModelConfig.enabled

namespace ConfigOverlay

def addRow (models : List (String × Bool)) (row : CpModelConfig) : List (String × Bool) :=
  Assoc.insert models row.modelId row.enabled

/-- A tenant's rows go into its entry, which is made if there is none. -/
def addTenant (o : ConfigOverlay) (t : String × List CpModelConfig) : ConfigOverlay :=
  ⟨Assoc.insert o.byTenant t.1 (t.2.foldl addRow ((Assoc.get o.byTenant t.1).getD []))⟩

def fromTenantConfigs (tenants : List (String × List CpModelConfig)) : ConfigOverlay :=
  tenants.foldl addTenant {}

end ConfigOverlay

/-- A tenant whose fetch fails is left out. -/
def buildOverlay (fetch : Fetch) (tenantIds : List String) : ConfigOverlay :=
  .fromTenantConfigs (tenantIds.filterMap fun tenantId =>
    (fetch tenantId).toOption.map fun rows => (tenantId, rows))

/-- A cycle stores its own overlay, whatever was there. -/
def pollCycle (tenantIds : List String) (_ : ConfigOverlay) (fetch : Fetch) : ConfigOverlay :=
  buildOverlay fetch tenantIds

/-- The overlay starts empty. -/
def pollOverlay (tenantIds : List String) (cycles : List Fetch) : ConfigOverlay :=
  cycles.foldl (pollCycle tenantIds) {}

/-! ## What a cycle stores -/

section Verdicts

theorem get_addRows (rows : List CpModelConfig) (models : List (String × Bool)) (modelId : String) :
    Assoc.get (rows.foldl ConfigOverlay.addRow models) modelId =
      (rowsVerdict rows modelId).or (Assoc.get models modelId) := by
  induction rows generalizing models with
  | nil => exact Option.none_or.symm
  | cons row rows ih =>
    rw [List.foldl_cons, ih, ConfigOverlay.addRow, Assoc.get_insert]
    simp only [rowsVerdict, List.reverse_cons, List.find?_append]
    cases rows.reverse.find? fun r => r.modelId = modelId with
    | some last => rfl
    | none => by_cases h : row.modelId = modelId <;> simp [h]

theorem modelEnabled_eq_get (o : ConfigOverlay) (tenantId modelId : String) :
    o.modelEnabled tenantId modelId =
      (Assoc.get o.byTenant tenantId).bind fun models => Assoc.get models modelId := by
  unfold ConfigOverlay.modelEnabled
  simp only [Assoc.lookup_eq_get]

theorem modelEnabled_addTenant (o : ConfigOverlay) (t : String × List CpModelConfig)
    (tenantId modelId : String) :
    (o.addTenant t).modelEnabled tenantId modelId =
      if t.1 = tenantId then (rowsVerdict t.2 modelId).or (o.modelEnabled tenantId modelId)
      else o.modelEnabled tenantId modelId := by
  rw [modelEnabled_eq_get, modelEnabled_eq_get, ConfigOverlay.addTenant]
  by_cases h : t.1 = tenantId
  · subst h
    rw [if_pos rfl, Assoc.get_insert_self, Option.bind_some, get_addRows]
    cases Assoc.get o.byTenant t.1 <;> rfl
  · rw [if_neg h, Assoc.get_insert_of_ne (Ne.symm h)]

/-- A tenant that is polled and answers has the verdicts of its rows, another has none. -/
theorem modelEnabled_buildOverlay (fetch : Fetch) (tenantIds : List String)
    (tenantId modelId : String) :
    (buildOverlay fetch tenantIds).modelEnabled tenantId modelId =
      if tenantId ∈ tenantIds then
        (fetch tenantId).toOption.bind fun rows => rowsVerdict rows modelId
      else none := by
  -- over an overlay that already holds something, what is polled comes first
  have hgen : ∀ o : ConfigOverlay,
      ((tenantIds.filterMap fun id => (fetch id).toOption.map fun rows => (id, rows)).foldl
        ConfigOverlay.addTenant o).modelEnabled tenantId modelId =
      (if tenantId ∈ tenantIds then
        (fetch tenantId).toOption.bind fun rows => rowsVerdict rows modelId
      else none).or (o.modelEnabled tenantId modelId) := by
    induction tenantIds with
    | nil => exact fun o => Option.none_or.symm
    | cons id ids ih =>
      intro o
      cases hfetch : (fetch id).toOption with
      | none =>
        rw [List.filterMap_cons_none (by rw [hfetch]; rfl), ih]
        by_cases hid : tenantId = id
        · subst hid
          simp [hfetch]
        · simp [hid]
      | some rows =>
        rw [List.filterMap_cons_some (by rw [hfetch]; rfl), List.foldl_cons, ih,
          modelEnabled_addTenant]
        by_cases hid : id = tenantId
        · subst hid
          simp only [hfetch, List.mem_cons, true_or, if_true, Option.bind_some]
          split
          · rw [← Option.or_assoc, Option.or_self]
          · exact Option.none_or
        · rw [if_neg hid]
          simp [Ne.symm hid]
  rw [buildOverlay, ConfigOverlay.fromTenantConfigs, hgen]
  exact Option.or_none

end Verdicts

end Routeplane
