import Routeplane.Types.Chat

/-!
# Usage events

The record of one request the metrics, exports and analytics are derived from. Errors are
a closed vocabulary: provider text never enters an event.
-/

namespace Routeplane

structure UsageEvent where
  tenantId : String
  virtualKeyName : String
  provider : String
  model : String
  promptTokens : UInt32
  completionTokens : UInt32
  totalTokens : UInt32
  cachedTokens : Option UInt32 := none
  useCase : Option String := none
  region : Option String
  sovereignRouted : Bool
  success : Bool
  error : Option String
  cacheStatus : Option String := none
  cacheNamespace : Option String := none
  latencyMs : Option ℕ := none
  hedged : Bool := false
  outputMasked : Option String := none
  requestId : Option String := none
  configRef : Option String := none
  configMatch : Option String := none
  deriving DecidableEq, Repr, Inhabited

/-- The closed vocabulary of request errors. -/
def safeUsageError (raw : String) : String :=
  match raw with
  | "rate_limit_exceeded" => "rate_limit_exceeded"
  | "budget_exceeded" => "budget_exceeded"
  | "sovereign_block" => "sovereign_block"
  | "guardrails_denied" => "guardrails_denied"
  | "stream_error" => "stream_error"
  | _ => "upstream_error"

namespace UsageEvent

/-- A successful provider call. -/
def ofSuccess (tenantId virtualKeyName provider model : String)
    (promptTokens completionTokens totalTokens : UInt32) (region : Option String)
    (sovereignRouted : Bool) : UsageEvent where
  tenantId := tenantId
  virtualKeyName := virtualKeyName
  provider := provider
  model := model
  promptTokens := promptTokens
  completionTokens := completionTokens
  totalTokens := totalTokens
  region := region
  sovereignRouted := sovereignRouted
  success := true
  error := none

/-- A failed attempt; the error is reduced to the closed vocabulary. -/
def failure (tenantId virtualKeyName provider model : String) (region : Option String)
    (sovereignRouted : Bool) (error : String) : UsageEvent where
  tenantId := tenantId
  virtualKeyName := virtualKeyName
  provider := provider
  model := model
  promptTokens := 0
  completionTokens := 0
  totalTokens := 0
  region := region
  sovereignRouted := sovereignRouted
  success := false
  error := some (safeUsageError error)

def withRequestId (e : UsageEvent) (requestId : String) : UsageEvent :=
  { e with requestId := some requestId }

/-- Attribute an event to the routing config that planned it. -/
def withConfig (e : UsageEvent) (configRef configMatch : Option String) : UsageEvent :=
  match configRef with
  | some r => { e with configRef := some r, configMatch := configMatch }
  | none => e

/-- A truncated stream keeps its spend but does not read as a success. -/
def withStreamError (e : UsageEvent) (error : Option String) : UsageEvent :=
  match error with
  | some _ => { e with success := false, error := some "stream_error" }
  | none => e

end UsageEvent

end Routeplane
