import Routeplane.Limits.Scope

/-!
# Error answers

The OpenAI-shaped error bodies of the gateway that more than one endpoint answers with.
-/

namespace Routeplane

structure ApiError where
  status : ℕ
  code : String
  message : String
  type : String
  param : Option String := none
  deriving DecidableEq, Repr, Inhabited

def sovereignMessage (region : String) : String :=
  "Sovereign routing: request contains personal data but no " ++ region ++
    "-resident provider is configured"

def sovereignBlock (region : String) : ApiError :=
  ⟨422, "routeplane_sovereign_block", sovereignMessage region, "invalid_request_error", none⟩

def upstreamAllFailed : ApiError :=
  ⟨500, "upstream_error", "All eligible upstream providers failed to serve the request.",
    "api_error", none⟩

def internalError : ApiError :=
  ⟨500, "internal_error", "The gateway encountered an internal error.", "api_error", none⟩

/-- The envelope of a limit breach; its headers are read off the breach. -/
def limitRejection (breach : Limits.Breach) : ApiError :=
  if breach.kind.isBudget then
    ⟨402, "routeplane_budget_exceeded", breach.message, "insufficient_quota", none⟩
  else ⟨429, "routeplane_rate_limit_exceeded", breach.message, "rate_limit_exceeded", none⟩

/-- A malformed request. -/
def invalidRequest (status : ℕ) (message : String) (param : Option String) : ApiError :=
  ⟨status, "invalid_request_error", message, "invalid_request_error", param⟩

/-- An endpoint the selected provider does not offer. -/
def notSupported (code message : String) : ApiError :=
  ⟨422, code, message, "invalid_request_error", some "model"⟩

end Routeplane
