import Routeplane.Proxy.ConfigPoller

/-!
# The overlay through an outage of the control plane

The overlay of a cycle is built of what that cycle fetched. A tenant whose fetch fails is left out
of it, and with it whatever an earlier cycle had fetched for it: the models its operator had
disabled are let through until the control plane answers again.

* `lastGood`: the rows of a tenant's most recent successful fetch.
* `last_good_kept_iff`: every overlay of a run gives the verdicts of these rows iff a fetch fails
  only where there is no row to lose.
* `outage_lifts_kill_switch`: a disabled model passes.
-/

namespace Routeplane

variable {tenantIds : List String}

/-- The rows of the most recent cycle that fetched a tenant's; none if it is not polled. -/
def lastGood (tenantIds : List String) (cycles : List Fetch) (tenantId : String) :
    Option (List CpModelConfig) :=
  if tenantId ∈ tenantIds then cycles.reverse.findSome? fun fetch => (fetch tenantId).toOption
  else none

/-- The verdict on a model that the last good rows of a tenant give. -/
def lastVerdict (tenantIds : List String) (cycles : List Fetch) (tenantId modelId : String) :
    Option Bool :=
  (lastGood tenantIds cycles tenantId).bind fun rows => rowsVerdict rows modelId

/-- The overlay after some cycles gives every tenant the verdicts of its last good rows. -/
def KeepsLastGood (tenantIds : List String) (cycles : List Fetch) : Prop :=
  ∀ tenantId modelId, (pollOverlay tenantIds cycles).modelEnabled tenantId modelId =
    lastVerdict tenantIds cycles tenantId modelId

/-- A fetch fails only for a tenant without a row: it was never fetched, or had none the last
time. -/
def FailsHarmlessly (tenantIds : List String) (cycles : List Fetch) (fetch : Fetch) : Prop :=
  ∀ tenantId ∈ tenantIds, (fetch tenantId).toOption = none →
    ∀ rows, lastGood tenantIds cycles tenantId = some rows → rows = []

/-! ## One cycle -/

section Cycle

variable (cycles : List Fetch) (fetch : Fetch)

theorem lastGood_concat (tenantId : String) :
    lastGood tenantIds (cycles ++ [fetch]) tenantId =
      if tenantId ∈ tenantIds then (fetch tenantId).toOption.or (lastGood tenantIds cycles tenantId)
      else none := by
  unfold lastGood
  split
  · rw [List.reverse_append, List.reverse_singleton, List.singleton_append]
    cases hfetch : (fetch tenantId).toOption with
    | some rows => rw [List.findSome?_cons_of_isSome (by rw [hfetch]; rfl), hfetch]; rfl
    | none => rw [List.findSome?_cons_of_isNone (by rw [hfetch]; rfl), Option.none_or]
  · rfl

theorem modelEnabled_pollOverlay_concat (tenantId modelId : String) :
    (pollOverlay tenantIds (cycles ++ [fetch])).modelEnabled tenantId modelId =
      if tenantId ∈ tenantIds then
        (fetch tenantId).toOption.bind fun rows => rowsVerdict rows modelId
      else none := by
  rw [pollOverlay, List.foldl_append]
  exact modelEnabled_buildOverlay fetch tenantIds tenantId modelId

/-- Rows that have no verdict on any model are none. -/
theorem eq_nil_of_no_verdict {rows : List CpModelConfig}
    (h : ∀ modelId, rowsVerdict rows modelId = none) : rows = [] := by
  cases rows using List.reverseRecOn with
  | nil => rfl
  | append_singleton rows row =>
    have hrow := h row.modelId
    simp [rowsVerdict] at hrow

/-- **What a cycle keeps**: the verdicts of the last good rows, iff what fails has no row. -/
theorem keepsLastGood_concat :
    KeepsLastGood tenantIds (cycles ++ [fetch]) ↔ FailsHarmlessly tenantIds cycles fetch := by
  have hverdict : ∀ tenantId modelId, lastVerdict tenantIds (cycles ++ [fetch]) tenantId modelId =
      if tenantId ∈ tenantIds then
        ((fetch tenantId).toOption.or (lastGood tenantIds cycles tenantId)).bind
          fun rows => rowsVerdict rows modelId
      else none := by
    intro tenantId modelId
    rw [lastVerdict, lastGood_concat]
    split <;> rfl
  constructor
  · intro h tenantId hpolled hfail rows hrows
    refine eq_nil_of_no_verdict fun modelId => ?_
    have hkept := h tenantId modelId
    rw [modelEnabled_pollOverlay_concat, hverdict, if_pos hpolled, if_pos hpolled, hfail,
      Option.none_or, hrows] at hkept
    exact hkept.symm
  · intro h tenantId modelId
    rw [modelEnabled_pollOverlay_concat, hverdict]
    split
    · next hpolled =>
      cases hfetch : (fetch tenantId).toOption with
      | some rows => rfl
      | none =>
        rw [Option.none_or]
        cases hrows : lastGood tenantIds cycles tenantId with
        | none => rfl
        | some rows =>
          cases h tenantId hpolled hfetch rows hrows
          rfl
    · rfl

end Cycle

/-! ## Runs -/

/-- **The overlay keeps the last good verdicts through a run iff no fetch fails that has rows to
lose.** -/
theorem last_good_kept_iff (tenantIds : List String) (cycles : List Fetch) :
    (∀ done, done <+: cycles → KeepsLastGood tenantIds done) ↔
      ∀ done fetch, done ++ [fetch] <+: cycles → FailsHarmlessly tenantIds done fetch := by
  constructor
  · intro h done fetch hdone
    exact (keepsLastGood_concat done fetch).1 (h _ hdone)
  · intro h done hdone
    cases done using List.reverseRecOn with
    | nil =>
      intro tenantId modelId
      unfold lastVerdict lastGood
      split <;> rfl
    | append_singleton done fetch => exact (keepsLastGood_concat done fetch).2 (h done fetch hdone)

/-- The operator disables a model, then the control plane does not answer. -/
def killSwitch : Fetch := fun _ => .ok [⟨"gpt-4o", false⟩]

def outage : Fetch := fun _ => .error "request failed"

/-- **An outage lifts the kill switch**: the second overlay has no verdict where the last good
rows disable the model. -/
theorem outage_lifts_kill_switch :
    (pollOverlay ["acme"] [killSwitch]).modelEnabled "acme" "gpt-4o" = some false ∧
      (pollOverlay ["acme"] [killSwitch, outage]).modelEnabled "acme" "gpt-4o" = none ∧
      lastVerdict ["acme"] [killSwitch, outage] "acme" "gpt-4o" = some false ∧
      ¬ KeepsLastGood ["acme"] [killSwitch, outage] := by
  have hoverlay : (pollOverlay ["acme"] [killSwitch, outage]).modelEnabled "acme" "gpt-4o" = none :=
    rfl
  have hlast : lastVerdict ["acme"] [killSwitch, outage] "acme" "gpt-4o" = some false := by
    decide
  refine ⟨by decide, hoverlay, hlast, fun h => ?_⟩
  have hkept := h "acme" "gpt-4o"
  rw [hoverlay, hlast] at hkept
  cases hkept

end Routeplane
