import Routeplane.Lib.Addresses
import Routeplane.Lib.FirstMatch
import Routeplane.Lib.Run
import Routeplane.Providers.Registry
import Routeplane.Proxy.ApiError

/-!
# The store of custom providers

The store holds the live snapshot and the file it is persisted to. A mutation works on the list of
the live configurations, builds the next snapshot, persists the list and only then swaps the
snapshot in; an error on the way leaves both as they were. A start of the gateway validates the file
and builds the snapshot from it.

A custom provider's base URL is an outbound request on the operator's behalf, so its host is checked
before it is stored: link-local and metadata addresses are refused always, loopback and private ones
unless the operator opts in. A host name is checked by what it resolves to; one that does not resolve
is let through.

* `CustomProviderStore.upsert`, `remove`, `load`: the mutations and the start.
* `upsertProvider`: the checks of the request handler, then `upsert`.
* `step`: what a call of a tenant, or a restart, does to the running gateway.
* `ipIsBlocked`: the addresses that are refused.
* `ssrfCheck`: the check of a base URL.
-/

namespace Routeplane.Custom

open FirstMatch

/-- The live snapshot and the configurations of `configs/providers.json`. -/
structure CustomProviderStore where
  shared : RuntimeProviders := {}
  file : List CustomProviderConfig := []
  deriving DecidableEq, Repr, Inhabited

/-- The tenant's own provider of a name. -/
def isOwn (tenantId name : String) (cfg : CustomProviderConfig) : Bool :=
  cfg.name == name && cfg.tenantId == some tenantId

/-- The configurations with one provider of the tenant set; whether it is new. -/
def upserted (tenantId now : String) (cfg : CustomProviderConfig)
    (configs : List CustomProviderConfig) :
    List CustomProviderConfig × CustomProviderConfig × Bool :=
  match configs.find? (isOwn tenantId cfg.name) with
  | some existing =>
    let cfg := { cfg with tenantId := some tenantId, createdAt := existing.createdAt }
    (replaceFirst (isOwn tenantId cfg.name) cfg configs, cfg, false)
  | none =>
    let cfg := { cfg with tenantId := some tenantId, createdAt := some now }
    (sortByName (·.name) (configs ++ [cfg]), cfg, true)

def invalidEntry (refusal : Refusal) : String :=
  "invalid provider entry (" ++ refusal.1 ++ "): " ++ refusal.2

namespace CustomProviderStore

variable (s : CustomProviderStore) (walks : Walks)

/-- What the write of the file comes to is `io`. -/
def persistAndSwap (io : Except String Unit) (configs : List CustomProviderConfig) :
    Except String CustomProviderStore := do
  let next ← RuntimeProviders.build walks configs
  io
  return ⟨next, configs⟩

def upsert (io : Except String Unit) (tenantId now : String) (cfg : CustomProviderConfig) :
    Except String (CustomProviderStore × ProviderView × Bool) := do
  let (configs, cfg, created) := upserted tenantId now cfg s.shared.configsSorted
  let next ← persistAndSwap walks io configs
  return (next, viewOf cfg, created)

/-- False when the tenant has no such provider, also when another tenant does. -/
def remove (io : Except String Unit) (tenantId name : String) :
    Except String (CustomProviderStore × Bool) :=
  let configs := s.shared.configsSorted
  let kept := configs.filter fun cfg => !isOwn tenantId name cfg
  if kept.length = configs.length then .ok (s, false)
  else (persistAndSwap walks io kept).map fun next => (next, true)

end CustomProviderStore

/-- What the handlers read besides the store. -/
structure Gateway where
  /-- `url::Url::parse`. -/
  parseUrl : String → Option Url
  /-- The names of the built-in adapters. -/
  providers : List String

variable (gw : Gateway)

/-- A start of the gateway; an error refuses it. -/
def CustomProviderStore.load (walks : Walks) (file : List CustomProviderConfig) :
    Except String CustomProviderStore := do
  let configs ← file.mapM fun cfg => (validateAndNormalize gw.parseUrl cfg).mapError invalidEntry
  let snapshot ← RuntimeProviders.build walks configs
  return ⟨snapshot, file⟩

def invalidConfig (refusal : Refusal) : ApiError :=
  ⟨400, "invalid_provider_config", refusal.2, "invalid_request_error", some refusal.1⟩

def reservedName (name : String) : ApiError :=
  ⟨400, "provider_name_reserved",
    "'" ++ name ++ "' is a reserved built-in provider name; choose a different name.",
    "invalid_request_error", some "name"⟩

def ssrfBlocked (refusal : Refusal) : ApiError :=
  ⟨400, "provider_ssrf_blocked", refusal.2, "invalid_request_error", some refusal.1⟩

/-- What the environment answers during one call. -/
structure Surroundings where
  /-- The guard against forged outbound requests, on the normalized base URL. -/
  ssrfCheck : String → Except Refusal Unit := fun _ => .ok ()
  io : Except String Unit := .ok ()
  now : String := ""

/-- `POST /v1/providers`. -/
def upsertProvider (walks : Walks) (env : Surroundings) (s : CustomProviderStore)
    (tenantId : String) (cfg : CustomProviderConfig) :
    Except ApiError (CustomProviderStore × ProviderView × Bool) := do
  let cfg ← (validateAndNormalize gw.parseUrl cfg).mapError invalidConfig
  if gw.providers.contains cfg.name || cfg.name == "routeplane" then .error (reservedName cfg.name)
  else
    (env.ssrfCheck cfg.baseUrl).mapError ssrfBlocked
    (s.upsert walks env.io tenantId env.now cfg).mapError fun _ => internalError

/-- `DELETE /v1/providers/{name}`; false is a 404. -/
def deleteProvider (walks : Walks) (env : Surroundings) (s : CustomProviderStore)
    (tenantId name : String) : Except ApiError (CustomProviderStore × Bool) :=
  (s.remove walks env.io tenantId name).mapError fun _ => internalError

/-! ## Runs -/

inductive Call
  | upsert (tenantId : String) (cfg : CustomProviderConfig)
  | remove (tenantId name : String)
  | reload

/-- Who makes a call; nobody makes a restart. -/
def Call.tenant? : Call → Option String
  | upsert tenantId _ | remove tenantId _ => some tenantId
  | reload => none

/-- A call, what its environment answers, and how the maps of a new snapshot are walked. -/
structure Event where
  call : Call
  env : Surroundings
  walks : Walks

namespace CustomProviderStore

/-- The store after a call; none when the restart is refused. -/
def apply (s : CustomProviderStore) (e : Event) : Option CustomProviderStore :=
  match e.call with
  | .upsert tenantId cfg =>
    some ((upsertProvider gw e.walks e.env s tenantId cfg).toOption.elim s (·.1))
  | .remove tenantId name =>
    some ((deleteProvider e.walks e.env s tenantId name).toOption.elim s (·.1))
  | .reload => (load gw e.walks s.file).toOption

end CustomProviderStore

/-- A gateway that refused to start stays down. -/
def step (s : Option CustomProviderStore) (e : Event) : Option CustomProviderStore :=
  s.bind fun s => s.apply gw e

/-! ## The guard against forged outbound requests -/

open Net

def ipv6IsLinkLocal (addr : Ipv6Addr) : Bool := addr.a &&& 0xffc0 == 0xfe80

def ipv6IsUniqueLocal (addr : Ipv6Addr) : Bool := addr.a &&& 0xfe00 == 0xfc00

def ipv4IsBlocked (v4 : Ipv4Addr) (allowPrivate : Bool) : Option String :=
  if v4.isUnspecified || v4.isMulticast || v4.isBroadcast then some "non-routable address"
  else if v4.isLinkLocal then some "link-local/metadata address"
  else if !allowPrivate && (v4.isLoopback || v4.isPrivate) then some "private/loopback address"
  else none

def ipv6IsBlocked (v6 : Ipv6Addr) (allowPrivate : Bool) : Option String :=
  if v6.isUnspecified || v6.isMulticast then some "non-routable address"
  else if ipv6IsLinkLocal v6 then some "link-local address"
  else
    match v6.toIpv4Mapped with
    | some v4 => ipv4IsBlocked v4 allowPrivate
    | none =>
      if !allowPrivate && (v6.isLoopback || ipv6IsUniqueLocal v6) then some "private/loopback address"
      else none

/-- The reason an address is refused. -/
def ipIsBlocked (ip : IpAddr) (allowPrivate : Bool) : Option String :=
  match ip with
  | .v4 v4 => ipv4IsBlocked v4 allowPrivate
  | .v6 v6 => ipv6IsBlocked v6 allowPrivate

/-- A URL with what the guard reads of it besides. -/
structure ParsedUrl extends Url where
  /-- The address the host denotes, when it is no name. -/
  literal : Option IpAddr := none
  portOrKnownDefault : Option UInt16 := none
  deriving DecidableEq

def refusedHost (reason : String) : Refusal :=
  ("base_url", "base_url host is a " ++ reason ++ " — refused (SSRF guard). " ++
    "Set RP_CUSTOM_PROVIDER_ALLOW_PRIVATE=on to allow loopback/private " ++
    "endpoints for in-VPC servers (link-local/metadata stays blocked).")

section Check

-- `url::Url::parse`, and `to_socket_addrs` of a host and a port
variable (parseUrl : String → Option ParsedUrl)
  (toSocketAddrs : String → UInt16 → Option (List IpAddr))

/-- The URLs as the validation sees them. -/
def parsedUrls (url : String) : Option Url := (parseUrl url).map (·.toUrl)

def ssrfCheck (baseUrl : String) (allowPrivate : Bool) : Except Refusal Unit := do
  let parsed ← (parseUrl baseUrl).elim (.error ("base_url", "base_url must be a valid URL")) .ok
  let host ← parsed.host.elim (.error ("base_url", "base_url must include a host")) .ok
  let port := parsed.portOrKnownDefault.getD 443
  match parseIpAddr host with
  | some ip => (ipIsBlocked ip allowPrivate).elim (.ok ()) fun reason => .error (refusedHost reason)
  | none =>
    match toSocketAddrs host port with
    | some addrs =>
      (addrs.findSome? (ipIsBlocked · allowPrivate)).elim (.ok ()) fun reason =>
        .error (refusedHost reason)
    | none => .ok ()

end Check

end Routeplane.Custom
