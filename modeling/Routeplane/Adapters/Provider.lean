import Routeplane.Types.Chat
import Routeplane.Types.Text

/-!
# Providers and their errors

The errors an adapter surfaces, how the proxy treats each, and the one fact routing reads
off a provider: the regions it is resident in.
-/

namespace Routeplane

inductive ProviderError
  | timeout (provider detail : String)
  | rateLimited (provider : String) (retryAfterMs : Option ℕ) (body : String)
  | auth (provider : String) (status : ℕ) (body : String)
  | badRequest (provider : String) (status : ℕ) (body : String)
  | upstream5xx (provider : String) (status : ℕ) (body : String)
  | network (provider detail : String)
  | translation (detail : String)
  deriving DecidableEq, Repr, Inhabited

/-- How the retry loop treats an error. -/
inductive RetryClass
  | always
  | status (code : ℕ)
  | never
  deriving DecidableEq, Repr

namespace ProviderError

def retryClass : ProviderError → RetryClass
  | timeout .. | network .. => .always
  | rateLimited .. => .status 429
  | upstream5xx _ status _ => .status status
  | auth .. | badRequest .. | translation .. => .never

/-- The text an error shows. An `auth` body can echo key fingerprints and is left out. -/
def display : ProviderError → String
  | timeout provider detail | network provider detail => provider ++ ": " ++ detail
  | rateLimited provider _ body => provider ++ " API error (429): " ++ body
  | auth provider status _ => provider ++ " authentication failed (" ++ toString status ++ ")"
  | badRequest provider status body | upstream5xx provider status body =>
    provider ++ " API error (" ++ toString status ++ "): " ++ body
  | translation detail => detail

end ProviderError

/-- A provider, as far as routing sees it. -/
structure Provider where
  name : String
  residentRegions : List String := []
  deriving DecidableEq, Repr, Inhabited

/-- Residency is matched case-insensitively. -/
def Provider.isResidentIn (p : Provider) (region : String) : Bool :=
  p.residentRegions.any fun r => eqIgnoreCase r region

end Routeplane
