import Routeplane.Lib.Fallible
import Routeplane.Policy.Config

/-!
# The routing-config parser

The registry of saved routing configs, some of them addressable as a model (combos), and the two
headers a request configures its routing with.

`RoutingConfig::parse` and the checks it is made of. Each reads a node of the document and names
the node in the error it refuses it with.

`configs/routing-policies.json`, read at startup: an array of saved configs, some offered under a
public name, their combo.

* `PolicyRegistry.combo`: the combo a model name addresses.
* `resolveRoutingConfig`, `parseMetadata`: the headers `x-routeplane-config` and
  `x-routeplane-metadata`.
* `parseRetry`, `parseHedge`, `parseParams`, `parseCacheDirective`, `parseConditions`: the parts.
* `parseNode`: a target, a leaf or a pool of leaves.
* `RoutingConfig.parse`: the whole document, with its limits and cross references.
* `loadEntry`: one entry of the array, checked and registered.
* `loadRegistryFromFile`: the registry of a file, or why it is refused.
-/

namespace Routeplane

def maxConfigBytes : ℕ := 8 * 1024

def maxMetadataBytes : ℕ := 4 * 1024

inductive ConfigErrorCode
  | invalidConfig
  | configNotFound
  | configTooLarge
  | invalidMetadata
  deriving DecidableEq, Repr

def ConfigErrorCode.asStr : ConfigErrorCode → String
  | .invalidConfig => "invalid_config"
  | .configNotFound => "config_not_found"
  | .configTooLarge => "config_too_large"
  | .invalidMetadata => "invalid_metadata"

/-- A refused config; `param` is a JSON pointer to the offending node. -/
structure ConfigError where
  code : ConfigErrorCode
  message : String
  param : String
  deriving DecidableEq, Repr

namespace ConfigError

def invalid (param message : String) : ConfigError := ⟨.invalidConfig, message, param⟩

def tooLarge (param message : String) : ConfigError := ⟨.configTooLarge, message, param⟩

def notFound (id : String) : ConfigError :=
  ⟨.configNotFound, "saved config '" ++ id ++ "' was not found", "/"⟩

def metadata (message : String) : ConfigError := ⟨.invalidMetadata, message, "/"⟩

end ConfigError

/-- The namespace of the configs that a `model` field may address. -/
def comboRegistryKey (name : String) : String := "combo:" ++ name

theorem combo_pinned_nil : ∀ name cfg,
    ([] : List (String × RoutingConfig)).lookup (comboRegistryKey name) = some cfg →
      ∀ m ∈ cfg.targetModels, m.isSome := by simp

/-- The saved configs. The loader refuses a combo with a target that pins no model. -/
structure PolicyRegistry where
  configs : List (String × RoutingConfig) := []
  combo_pinned : ∀ name cfg, configs.lookup (comboRegistryKey name) = some cfg →
    ∀ m ∈ cfg.targetModels, m.isSome := by exact combo_pinned_nil

namespace PolicyRegistry

variable (registry : PolicyRegistry)

def get (id : String) : Option RoutingConfig := registry.configs.lookup id

/-- The combo a request addresses through its model. -/
def combo (model : String) : Option RoutingConfig := registry.get (comboRegistryKey model)

end PolicyRegistry

/-- How the headers are read: `serde_json::from_str`, and the routing-config parser. -/
structure HeaderParsers where
  json : String → Except String Value
  routing : Value → Except ConfigError RoutingConfig

section

variable (parsers : HeaderParsers)

/-- The routing section of an inline config. -/
def parseInlineConfig (raw : String) : Except ConfigError (Option RoutingConfig) :=
  match parsers.json raw with
  | .error e => .error (.invalid "/" ("x-routeplane-config is not valid JSON: " ++ e))
  | .ok value =>
    let fields := value.asObject.getD []
    match fields.find? fun f => f.1 != "routing" && f.1 != "guardrails" with
    | some f =>
      .error (.invalid ("/" ++ f.1) ("unknown x-routeplane-config section '" ++ f.1 ++
        "' (known: routing, guardrails)"))
    | none =>
      match Fields.get fields "routing" with
      | none => .ok none
      | some routing => (parsers.routing routing).map some

/-- The config a request brings along: inline JSON, or the id of a saved one. -/
def resolveRoutingConfig (registry : PolicyRegistry) (header : Option String) :
    Except ConfigError (Option RoutingConfig) :=
  let raw := trimText (header.getD "")
  if raw.isEmpty then .ok none
  else if maxConfigBytes < raw.utf8ByteSize then
    .error (.tooLarge "/" ("x-routeplane-config exceeds " ++ toString maxConfigBytes ++ " bytes"))
  else if (dropHead? "\x7b" raw).isSome then parseInlineConfig parsers raw
  else if (dropHead? "cfg_" raw).isSome then
    -- the grammar of versions is reserved
    if containsText raw "@" then .error (.notFound raw)
    else
      match registry.get raw with
      | some cfg => .ok (some cfg)
      | none => .error (.notFound raw)
  else
    .error (.invalid "/" ("x-routeplane-config must be inline JSON ('\x7b...\x7d') or a " ++
      "saved-config id ('cfg_...')"))

/-- A scalar. -/
def Value.isScalar : Value → Bool
  | .str _ | .num _ | .bool _ => true
  | _ => false

def parseMetadata (header : Option String) : Except ConfigError Metadata :=
  let raw := trimText (header.getD "")
  if raw.isEmpty then .ok []
  else if maxMetadataBytes < raw.utf8ByteSize then
    .error (.tooLarge "/"
      ("x-routeplane-metadata exceeds " ++ toString maxMetadataBytes ++ " bytes"))
  else
    match parsers.json raw with
    | .error e => .error (.metadata ("x-routeplane-metadata is not valid JSON: " ++ e))
    | .ok value =>
      match value.asObject with
      | none => .error (.metadata "x-routeplane-metadata must be a JSON object")
      | some fields =>
        match fields.find? fun f => !f.2.isScalar with
        | some f => .error (.metadata ("metadata." ++ f.1 ++ " must be a string, number, or boolean"))
        | none => .ok fields

end

/-- Every target of a combo pins a model. -/
theorem PolicyRegistry.combo_pinnedModel {registry : PolicyRegistry} {model : String}
    {cfg : RoutingConfig} (h : registry.combo model = some cfg) {l : Leaf} (hl : l ∈ cfg.leaves) :
    ∃ m, l.params.pinnedModel = some m := by
  have hsome := registry.combo_pinned model cfg h l.params.pinnedModel
    (List.mem_map_of_mem hl)
  exact Option.isSome_iff_exists.1 hsome

end Routeplane

namespace Routeplane.Policy

open Fallible

def maxConditions : ℕ := 16

def maxClausesPerCondition : ℕ := 8

def maxRetryAttempts : ℕ := 5

/-- The root and one level of pools. -/
def maxNestingDepth : ℕ := 2

def allowedRetryStatus : List ℕ := [408, 429, 500, 502, 503, 504]

def backoffInitialMinMs : ℕ := 1

def backoffInitialMaxMs : ℕ := 10000

def backoffMaxCapMs : ℕ := 30000

def hedgeDelayMinMs : ℕ := 1

def hedgeDelayMaxMs : ℕ := 60000

def hedgeMaxExtra : ℕ := 2

/-- The request fields a condition may name. -/
def conditionParamFields : List String :=
  ["model", "user", "stream", "max_tokens", "max_completion_tokens", "temperature"]

def cacheTtlMinSeconds : ℕ := 10

def cacheTtlMaxSeconds : ℕ := 86400

def cacheTtlDefaultSeconds : ℕ := 300

def cacheMaxResponseBytesCap : ℕ := 262144

def cacheSimilarityMin : Float := 0.80

def cacheSimilarityMax : Float := 0.999

def cacheSimilarityDefault : Float := 0.95

/-- How a list of names is shown in a message. -/
def showNames (names : List String) : String :=
  "[" ++ ", ".intercalate (names.map fun name => "\"" ++ name ++ "\"") ++ "]"

/-! ## Typed reads -/

def parseU32 (value : Value) (ptr : String) : Except ConfigError UInt32 :=
  (okOr (value.asU64.filter fun n => n < 2 ^ 32)
    (.invalid ptr "must be a non-negative integer")).map Nat.toUInt32

def parsePositiveU64 (value : Value) (ptr : String) : Except ConfigError ℕ :=
  okOr (value.asU64.filter fun n => 0 < n) (.invalid ptr "must be a positive integer")

/-- Refuse any field that is not allowed. -/
def rejectUnknown (obj : Fields) (allowed : List String) (basePtr : String) :
    Except ConfigError Unit :=
  (obj.keys.find? fun key => !allowed.contains key).elim (.ok ()) fun key =>
    .error (.invalid (basePtr ++ "/" ++ key) ("unknown field '" ++ key ++ "'"))

/-- A field that may be missing, read by `parse`. -/
def field {α : Type} (obj : Fields) (ptr key : String)
    (parse : Value → String → Except ConfigError α) : Except ConfigError (Option α) :=
  optional (fun v => parse v (ptr ++ "/" ++ key)) (obj.get key)

/-- A boolean field with a default. -/
def boolField (obj : Fields) (ptr key : String) (default : Bool) (message : String) :
    Except ConfigError Bool := do
  let b ← field obj ptr key fun v ptr => okOr v.asBool (.invalid ptr message)
  return b.getD default

/-! ## Strategy, backoff and retry -/

def parseStrategyName (value ptr : String) : Except ConfigError PolicyStrategy :=
  match asciiLower (trimText value) with
  | "priority" => .ok .priority
  | "weighted" => .ok .weighted
  | "cost" => .ok .cost
  | "latency" => .ok .latency
  | "round_robin" | "roundrobin" | "round-robin" => .ok .roundRobin
  | "least_busy" | "leastbusy" | "least-busy" => .ok .leastBusy
  | "conditional" => .ok .conditional
  | other => .error (.invalid ptr ("unknown strategy.mode '" ++ other ++ "'"))

/-- The `strategy` of the root or of a pool; `shape` is what it is refused with. -/
def parseStrategy (obj : Fields) (ptr shape : String) : Except ConfigError PolicyStrategy :=
  match obj.get "strategy" with
  | none => .ok .priority
  | some (.str s) => parseStrategyName s (ptr ++ "/strategy")
  | some (.obj m) => do
    rejectUnknown m ["mode"] (ptr ++ "/strategy")
    let mode ← okOr ((Fields.get m "mode").bind Value.asStr)
      (.invalid (ptr ++ "/strategy/mode") "strategy.mode must be a string")
    parseStrategyName mode (ptr ++ "/strategy/mode")
  | some _ => .error (.invalid (ptr ++ "/strategy") shape)

def parseBackoff (value : Value) (ptr : String) : Except ConfigError Backoff := do
  let obj ← okOr value.asObject (.invalid ptr "backoff must be a JSON object")
  rejectUnknown obj ["initial_ms", "max_ms", "jitter"] ptr
  let initial ← field obj ptr "initial_ms" parsePositiveU64
  let initialMs := initial.getD ({} : Backoff).initialMs
  ensure (backoffInitialMinMs ≤ initialMs ∧ initialMs ≤ backoffInitialMaxMs)
    (.invalid (ptr ++ "/initial_ms") ("backoff.initial_ms must be " ++
      toString backoffInitialMinMs ++ "–" ++ toString backoffInitialMaxMs))
  let max ← field obj ptr "max_ms" parsePositiveU64
  let maxMs := max.getD (Nat.max ({} : Backoff).maxMs initialMs)
  ensure (maxMs ≤ backoffMaxCapMs)
    (.invalid (ptr ++ "/max_ms") ("backoff.max_ms must be ≤ " ++ toString backoffMaxCapMs))
  ensure (initialMs ≤ maxMs)
    (.invalid (ptr ++ "/max_ms") "backoff.max_ms must be ≥ initial_ms")
  let jitter ← boolField obj ptr "jitter" true "backoff.jitter must be a boolean"
  return { initialMs, maxMs, jitter }

/-- A status code as the policy keeps it: cast to sixteen bits, then looked up. -/
def parseStatus (code : Value) (ptr : String) : Except ConfigError ℕ := do
  let n ← okOr code.asU64 (.invalid ptr "on_status entries must be integers")
  let c := n % 2 ^ 16
  ensure (c ∈ allowedRetryStatus)
    (.invalid ptr ("retry.on_status contains " ++ toString c ++
      ", which is not retryable (allowed: " ++ toString allowedRetryStatus ++ ")"))
  return c

/-- Insert into an ordered set. -/
def setInsert (set : List ℕ) (c : ℕ) : List ℕ :=
  if c ∈ set then set else set.orderedInsert (· ≤ ·) c

def parseOnStatus (value : Value) (ptr : String) : Except ConfigError (List ℕ) := do
  let arr ← okOr value.asArray (.invalid ptr "on_status must be an array of status codes")
  let codes ← each (fun i code => parseStatus code (ptr ++ "/" ++ toString i)) 0 arr
  return codes.foldl setInsert []

def parseRetry (value : Value) (ptr : String) : Except ConfigError RetryPolicy := do
  let obj ← okOr value.asObject (.invalid ptr "retry must be a JSON object")
  rejectUnknown obj ["attempts", "on_status", "backoff"] ptr
  let attempts ← field obj ptr "attempts" parseU32
  let attempts := (attempts.getD 1).toNat
  ensure (attempts ≤ maxRetryAttempts)
    (.invalid (ptr ++ "/attempts") ("retry.attempts " ++ toString attempts ++
      " exceeds the maximum of " ++ toString maxRetryAttempts))
  let onStatus ← field obj ptr "on_status" parseOnStatus
  let backoff ← field obj ptr "backoff" parseBackoff
  return { attempts, onStatus := onStatus.getD defaultRetryStatus, backoff := backoff.getD {} }

/-! ## Hedging -/

def parseHedgeMax (value : Value) (ptr : String) : Except ConfigError ℕ := do
  let n ← parseU32 value ptr
  ensure (n ≠ 0) (.invalid ptr
    "hedge.max must be at least 1 (a hedge config with 0 extras is a no-op; omit `hedge` instead)")
  ensure (n.toNat ≤ hedgeMaxExtra)
    (.invalid ptr ("hedge.max must be ≤ " ++ toString hedgeMaxExtra ++
      " (extra concurrent attempts)"))
  return n.toNat

def parseHedge (value : Value) (ptr : String) : Except ConfigError HedgePolicy := do
  let obj ← okOr value.asObject (.invalid ptr "hedge must be a JSON object")
  rejectUnknown obj ["delay_ms", "max"] ptr
  let delay ← field obj ptr "delay_ms" parsePositiveU64
  let delay ← okOr delay (.invalid (ptr ++ "/delay_ms")
    "hedge.delay_ms is required (the slowness threshold before a hedge starts)")
  ensure (hedgeDelayMinMs ≤ delay ∧ delay ≤ hedgeDelayMaxMs)
    (.invalid (ptr ++ "/delay_ms") ("hedge.delay_ms must be " ++ toString hedgeDelayMinMs ++ "–" ++
      toString hedgeDelayMaxMs))
  let maxExtra ← field obj ptr "max" parseHedgeMax
  return { delay, maxExtra := maxExtra.getD 1 }

/-! ## Params -/

/-- The fields of a map of params: names that may be shaped, each once. -/
structure ParamMap where
  fields : Fields
  allowed : ∀ k ∈ fields.keys, k ∈ paramAllowlist
  nodup : fields.keys.Nodup

/-- A name that may be shaped. -/
def checkAllowlisted (key ptr : String) : Except ConfigError {k : String // k ∈ paramAllowlist} :=
  if h : key ∈ paramAllowlist then .ok ⟨key, h⟩
  else .error (.invalid ptr
    ("'" ++ key ++ "' is not a shapeable param (allowed: " ++ showNames paramAllowlist ++ ")"))

theorem allowed_of_each {keys : List String} {ptr : String}
    {names : List {k : String // k ∈ paramAllowlist}}
    (h : each (fun _ k => checkAllowlisted k (ptr ++ "/" ++ k)) 0 keys = .ok names) :
    ∀ k ∈ keys, k ∈ paramAllowlist := by
  intro k hk
  obtain ⟨name, -, j, hname⟩ := exists_of_each_mem h hk
  unfold checkAllowlisted at hname
  split at hname
  · assumption
  · cases hname

theorem ParamMap.allowed_nil : ∀ k ∈ Fields.keys [], k ∈ paramAllowlist := by simp [Fields.keys]

theorem ParamMap.nodup_nil : (Fields.keys []).Nodup := List.nodup_nil

theorem ParamMap.allowed_clone {m : Fields} (h : ∀ k ∈ m.keys, k ∈ paramAllowlist) :
    ∀ k ∈ m.clone.keys, k ∈ paramAllowlist := fun k hk => h k (Fields.mem_keys_clone.1 hk)

def parseParamMap (value : Option Value) (ptr : String) : Except ConfigError ParamMap :=
  match value with
  | none => .ok ⟨[], ParamMap.allowed_nil, ParamMap.nodup_nil⟩
  | some (.obj m) =>
    match h : each (fun _ k => checkAllowlisted k (ptr ++ "/" ++ k)) 0 (Fields.keys m) with
    | .error e => .error e
    | .ok _ => .ok ⟨Fields.clone m, ParamMap.allowed_clone (allowed_of_each h), Fields.nodup_clone m⟩
  | some _ => .error (.invalid ptr "must be a JSON object of params")

def parseDrop (value : Value) (ptr : String) :
    Except ConfigError (List {k : String // k ∈ paramAllowlist}) := do
  let arr ← okOr value.asArray (.invalid ptr "params.drop must be an array of field names")
  each (fun i k => do
    let key ← okOr k.asStr (.invalid (ptr ++ "/" ++ toString i) "drop entries must be strings")
    checkAllowlisted key (ptr ++ "/" ++ toString i)) 0 arr

theorem drop_allowed (drop : List {k : String // k ∈ paramAllowlist}) :
    ∀ k ∈ drop.map Subtype.val, k ∈ paramAllowlist := by
  intro k hk
  obtain ⟨name, -, rfl⟩ := List.mem_map.1 hk
  exact name.2

theorem drop_not_override {drop : List String} {overrides : Fields}
    (h : drop.find? (fun k => overrides.keys.contains k) = none) :
    ∀ k ∈ drop, k ∉ overrides.keys := by
  intro k hk hmem
  have hnone := List.find?_eq_none.1 h k hk
  simp [hmem] at hnone

def parseParams (value : Value) (ptr : String) : Except ConfigError ParamShaping := do
  let obj ← okOr value.asObject (.invalid ptr "params must be a JSON object")
  rejectUnknown obj ["default", "override", "drop"] ptr
  let default ← parseParamMap (obj.get "default") (ptr ++ "/default")
  let overrides ← parseParamMap (obj.get "override") (ptr ++ "/override")
  let drop ← field obj ptr "drop" parseDrop
  let names := drop.getD []
  match h : (names.map Subtype.val).find? fun k => overrides.fields.keys.contains k with
  | some k => .error (.invalid (ptr ++ "/drop") ("'" ++ k ++ "' appears in both override and drop"))
  | none => return {
      default := default.fields
      overrides := overrides.fields
      drop := names.map Subtype.val
      default_allowed := default.allowed
      overrides_allowed := overrides.allowed
      drop_allowed := drop_allowed names
      overrides_nodup := overrides.nodup
      drop_not_override := drop_not_override h }

/-! ## Conditions -/

def validatePath (path ptr : String) : Except ConfigError Unit :=
  match dropHead? "params." path with
  | some name =>
    ensure (name ∈ conditionParamFields) (.invalid ptr ("params." ++ name ++
      " is not addressable (allowed: " ++ showNames conditionParamFields ++ ")"))
  | none =>
    ensure (dropHead? "metadata." path).isSome
      (.invalid ptr ("path '" ++ path ++ "' must start with 'metadata.' or 'params.'"))

/-- The value an operator takes. -/
def validateOp (op : String) (val : Value) (ptr : String) : Except ConfigError Unit :=
  match op with
  | "eq" | "ne" => .ok ()
  | "in" | "nin" =>
    ensure val.asArray.isSome (.invalid ptr ("operator '" ++ op ++ "' requires an array value"))
  | "gt" | "gte" | "lt" | "lte" =>
    ensure val.asF64.isSome (.invalid ptr ("operator '" ++ op ++ "' requires a numeric value"))
  | "exists" =>
    ensure val.asBool.isSome (.invalid ptr "operator 'exists' requires a boolean value")
  | other => .error (.invalid ptr ("unknown operator '" ++ other ++ "'"))

/-- Legal paths and operators, and no ordering of what is not a number. -/
def validateWhen (clauses : Fields) (ptr : String) : Except ConfigError (List (List Unit)) :=
  each (fun _ clause => do
    let pptr := ptr ++ "/" ++ clause.1
    validatePath clause.1 pptr
    let ops ← okOr clause.2.asObject
      (.invalid pptr "a clause must be an object of operator → value")
    each (fun _ op => validateOp op.1 op.2 (pptr ++ "/" ++ op.1)) 0 ops) 0 clauses

def parseCondition (value : Value) (ptr : String) : Except ConfigError Condition := do
  let obj ← okOr value.asObject (.invalid ptr "condition must be an object")
  rejectUnknown obj ["when", "target"] ptr
  let target ← okOr ((obj.get "target").bind Value.asStr)
    (.invalid (ptr ++ "/target") "condition.target must be a string")
  let conds ← okOr ((obj.get "when").bind Value.asObject)
    (.invalid (ptr ++ "/when") "condition.when must be an object")
  ensure (conds.length ≤ maxClausesPerCondition)
    (.invalid (ptr ++ "/when") ("when exceeds " ++ toString maxClausesPerCondition ++ " clauses"))
  let _ ← validateWhen conds (ptr ++ "/when")
  return { conds, target }

def parseConditions (value : Value) (ptr : String) : Except ConfigError (List Condition) := do
  let arr ← okOr value.asArray (.invalid ptr "conditions must be an array")
  ensure (arr.length ≤ maxConditions)
    (.invalid ptr ("conditions exceeds the limit of " ++ toString maxConditions))
  each (fun i c => parseCondition c (ptr ++ "/" ++ toString i)) 0 arr

/-! ## The cache directive -/

def isNamespaceChar (c : Char) : Bool := c.isLower || c.isDigit || c == '_' || c == '-'

def isValidCacheNamespace (s : String) : Bool :=
  !s.isEmpty && s.utf8ByteSize ≤ 64 && s.toList.all isNamespaceChar

def parseCacheMode (mode : Option Value) (ptr : String) : Except ConfigError CacheMode :=
  match mode with
  | some (.str "simple") => .ok .simple
  | some (.str "semantic") => .ok .semantic
  | some (.str other) =>
    .error (.invalid ptr ("unknown cache.mode '" ++ other ++ "' (allowed: simple, semantic)"))
  | some _ => .error (.invalid ptr "cache.mode must be a string")
  | none => .error (.invalid ptr "cache.mode is required ('simple' or 'semantic')")

def parseTtl (value : Value) (ptr : String) : Except ConfigError ℕ := do
  let n ← parsePositiveU64 value ptr
  ensure (cacheTtlMinSeconds ≤ n ∧ n ≤ cacheTtlMaxSeconds)
    (.invalid ptr ("cache.ttl_seconds must be " ++ toString cacheTtlMinSeconds ++ "–" ++
      toString cacheTtlMaxSeconds))
  return n

def parseNamespace (value : Value) (ptr : String) : Except ConfigError String := do
  let s ← okOr value.asStr (.invalid ptr "cache.namespace must be a string")
  ensure (isValidCacheNamespace s)
    (.invalid ptr "cache.namespace must match [a-z0-9_-]\x7b1,64\x7d")
  return s

def parseSimilarity (mode : CacheMode) (value : Value) (ptr : String) :
    Except ConfigError Float := do
  ensure (mode = .semantic)
    (.invalid ptr "cache.similarity_threshold is only legal when mode is 'semantic'")
  let f ← okOr value.asF64 (.invalid ptr "cache.similarity_threshold must be a number")
  ensure (cacheSimilarityMin ≤ f ∧ f ≤ cacheSimilarityMax)
    (.invalid ptr "cache.similarity_threshold must be 0.8–0.999")
  return f

def parseMaxResponseBytes (value : Value) (ptr : String) : Except ConfigError ℕ := do
  let n ← parsePositiveU64 value ptr
  ensure (n ≤ cacheMaxResponseBytesCap)
    (.invalid ptr ("cache.max_response_bytes may only lower the platform cap of " ++
      toString cacheMaxResponseBytesCap))
  return n

def parseCacheDirective (value : Value) (ptr : String) : Except ConfigError CacheDirective := do
  let obj ← okOr value.asObject (.invalid ptr "cache must be a JSON object")
  rejectUnknown obj ["mode", "ttl_seconds", "namespace", "force_refresh", "similarity_threshold",
    "max_response_bytes"] ptr
  let mode ← parseCacheMode (obj.get "mode") (ptr ++ "/mode")
  let ttl ← field obj ptr "ttl_seconds" parseTtl
  let namespaceName ← field obj ptr "namespace" parseNamespace
  let forceRefresh ← boolField obj ptr "force_refresh" false "cache.force_refresh must be a boolean"
  let similarity ← field obj ptr "similarity_threshold" (parseSimilarity mode)
  let maxBytes ← field obj ptr "max_response_bytes" parseMaxResponseBytes
  return {
    mode
    ttlSeconds := ttl.getD cacheTtlDefaultSeconds
    namespaceName := namespaceName.getD "default"
    forceRefresh
    similarityThreshold :=
      similarity.or (if mode = .semantic then some cacheSimilarityDefault else none)
    maxResponseBytes := maxBytes.getD cacheMaxResponseBytesCap }

/-! ## Targets -/

def parseLeaf (obj : Fields) (ptr : String) : Except ConfigError Leaf := do
  rejectUnknown obj ["name", "provider", "weight", "cost", "timeout_ms", "retry", "params"] ptr
  let provider ← okOr (((obj.get "provider").bind Value.asStr).filter fun s => !s.isEmpty)
    (.invalid ptr "leaf target requires a non-empty 'provider'")
  let weight ← field obj ptr "weight" parseU32
  let cost ← field obj ptr "cost" parseU32
  let timeoutMs ← field obj ptr "timeout_ms" parsePositiveU64
  let retry ← field obj ptr "retry" parseRetry
  let params ← field obj ptr "params" parseParams
  return {
    name := (obj.get "name").bind Value.asStr
    provider, weight, cost, timeoutMs, retry
    params := params.getD .noop }

/-- A child of a pool must be a leaf. -/
def leafOnly (ptr : String) : Node → Except ConfigError Leaf
  | .leaf l => .ok l
  | .pool _ => .error (.invalid ptr "nested pools may only contain leaf targets")

/-- A target at a depth; `levels` is how many levels of pools are left there,
`maxNestingDepth - depth`. -/
def parseNode : ℕ → Value → String → Except ConfigError Node
  | levels, value, ptr => do
    let obj ← okOr value.asObject (.invalid ptr "target must be a JSON object")
    ensure (¬((obj.get "provider").isSome ∧ (obj.get "targets").isSome)) (.invalid ptr
      "a target may not be both a leaf (provider) and a nested pool (targets)")
    if (obj.get "targets").isSome then
      match levels with
      | 0 => .error (.invalid ptr
          ("nesting exceeds the maximum depth of " ++ toString maxNestingDepth))
      | levels + 1 => do
        rejectUnknown obj ["name", "strategy", "targets"] ptr
        let strategy ← parseStrategy obj ptr "strategy must be a string or object"
        ensure (strategy ≠ .conditional)
          (.invalid (ptr ++ "/strategy") "a nested pool cannot use conditional strategy")
        let children ← okOr ((obj.get "targets").bind Value.asArray)
          (.invalid (ptr ++ "/targets") "nested targets must be an array")
        ensure (children ≠ []) (.invalid (ptr ++ "/targets") "nested targets must not be empty")
        ensure (children.length ≤ maxTargetsPerLevel) (.invalid (ptr ++ "/targets")
          ("nested targets exceed the limit of " ++ toString maxTargetsPerLevel))
        let leaves ← each (fun i c => do
          let node ← parseNode levels c (ptr ++ "/targets/" ++ toString i)
          leafOnly (ptr ++ "/targets/" ++ toString i) node) 0 children
        return .pool { name := (obj.get "name").bind Value.asStr, strategy, leaves }
    else do
      let leaf ← parseLeaf obj ptr
      return .leaf leaf

/-! ## The document -/

/-- The names of the targets, every one there and no two the same. -/
def uniqueNames : ℕ → List String → List Node → Except ConfigError (List String)
  | _, names, [] => .ok names
  | i, names, node :: nodes => do
    let name ← okOr node.name (.invalid ("/targets/" ++ toString i)
      "conditional routing requires every top-level target to have a unique name")
    ensure (name ∉ names) (.invalid ("/targets/" ++ toString i ++ "/name")
      ("duplicate target name '" ++ name ++ "'"))
    uniqueNames (i + 1) (name :: names) nodes

def checkConditionTargets (names : List String) (conditions : List Condition) :
    Except ConfigError (List Unit) :=
  each (fun i c => ensure (c.target ∈ names) (.invalid ("/conditions/" ++ toString i ++ "/target")
    ("condition target '" ++ c.target ++ "' does not name a target"))) 0 conditions

end Routeplane.Policy

namespace Routeplane.RoutingConfig

open Fallible Policy

/-- A conditional config names its targets and refers to them alone. -/
def validateConditional (cfg : RoutingConfig) : Except ConfigError Unit :=
  if cfg.strategy ≠ .conditional then .ok ()
  else do
    let names ← uniqueNames 0 [] cfg.targets
    let default ← okOr cfg.defaultTarget
      (.invalid "/default_target" "conditional routing requires a default_target")
    ensure (default ∈ names) (.invalid "/default_target"
      ("default_target '" ++ default ++ "' does not name a target"))
    let _ ← checkConditionTargets names cfg.conditions
    return ()

/-- Parse and validate a `routing` object. -/
def parse (routing : Value) (configRef : ConfigRef) : Except ConfigError RoutingConfig := do
  let obj ← okOr routing.asObject (.invalid "/" "routing config must be a JSON object")
  rejectUnknown obj ["strategy", "targets", "conditions", "default_target", "retry", "timeout_ms",
    "cache", "hedge"] ""
  let strategy ← parseStrategy obj "" "strategy must be a string or an object"
  let cache ← field obj "" "cache" parseCacheDirective
  let retry ← field obj "" "retry" parseRetry
  let timeoutMs ← field obj "" "timeout_ms" parsePositiveU64
  let hedge ← field obj "" "hedge" parseHedge
  let targetsVal ← okOr ((obj.get "targets").bind Value.asArray)
    (.invalid "/targets" "targets must be a non-empty array")
  ensure (targetsVal.length ≤ maxTargetsPerLevel) (.invalid "/targets"
    ("targets exceeds the limit of " ++ toString maxTargetsPerLevel ++ " per level"))
  let targets ← each (fun i t => parseNode (maxNestingDepth - 1) t ("/targets/" ++ toString i)) 0
    targetsVal
  -- no target comes of an empty array, and of no other
  if hne : targets = [] then .error (.invalid "/targets" "targets must not be empty")
  else if hmax : maxFlattenedTargets < (targets.flatMap Node.leaves).length then
    .error (.invalid "/targets" ("flattened target count " ++
      toString (targets.flatMap Node.leaves).length ++ " exceeds limit " ++
      toString maxFlattenedTargets))
  else do
    let conditions ← field obj "" "conditions" parseConditions
    let cfg : RoutingConfig := {
      strategy, targets, timeoutMs, configRef, cache, hedge
      conditions := conditions.getD []
      defaultTarget := (obj.get "default_target").bind Value.asStr
      configRetry := retry.getD {}
      targets_ne := hne
      flattened_le := Nat.le_of_not_lt hmax }
    cfg.validateConditional
    return cfg

end Routeplane.RoutingConfig

/-! ## The file of saved configs -/

namespace Routeplane

open Fallible Policy

inductive RegistryLoadError
  | read (path source : String)
  | parse (path source : String)
  | config (id : String) (source : ConfigError)
  | badShape (path reason : String)
  deriving DecidableEq, Repr

/-- The id of a saved config. -/
abbrev SavedId := {id : String // (dropHead? "cfg_" id).isSome = true}

def savedId? (s : String) : Option SavedId :=
  if h : (dropHead? "cfg_" s).isSome = true then some ⟨s, h⟩ else none

theorem comboRegistryKey_not_saved (name : String) (id : SavedId) : comboRegistryKey name ≠ id.1 := by
  intro heq
  have hsaved := id.2
  rw [← heq] at hsaved
  unfold dropHead? comboRegistryKey at hsaved
  rw [String.toList_append] at hsaved
  -- the second letters differ
  have hno : ("cfg_".toList.isPrefixOf ("combo:".toList ++ name.toList)) = false := rfl
  rw [hno] at hsaved
  cases hsaved

namespace PolicyRegistry

theorem combo_pinned_saved {registry : PolicyRegistry} {id : SavedId} {cfg : RoutingConfig} :
    ∀ name cfg', ((id.1, cfg) :: registry.configs).lookup (comboRegistryKey name) = some cfg' →
      ∀ m ∈ cfg'.targetModels, m.isSome := by
  intro name cfg' hlookup
  have hne : (comboRegistryKey name == id.1) = false :=
    beq_false_of_ne (comboRegistryKey_not_saved name id)
  rw [List.lookup_cons, hne] at hlookup
  exact registry.combo_pinned name cfg' hlookup

/-- Register a config under its id. -/
def insertSaved (registry : PolicyRegistry) (id : SavedId) (cfg : RoutingConfig) :
    PolicyRegistry where
  configs := (id.1, cfg) :: registry.configs
  combo_pinned := combo_pinned_saved

theorem combo_pinned_combo {registry : PolicyRegistry} {key : String} {cfg : RoutingConfig}
    (h : ∀ m ∈ cfg.targetModels, m.isSome) :
    ∀ name cfg', ((key, cfg) :: registry.configs).lookup (comboRegistryKey name) = some cfg' →
      ∀ m ∈ cfg'.targetModels, m.isSome := by
  intro name cfg' hlookup
  rw [List.lookup_cons] at hlookup
  split at hlookup
  · exact Option.some_inj.1 hlookup ▸ h
  · exact registry.combo_pinned name cfg' hlookup

/-- Offer a config whose every target pins a model under a public name. -/
def insertCombo (registry : PolicyRegistry) (name : String) (cfg : RoutingConfig)
    (h : ∀ m ∈ cfg.targetModels, m.isSome) : PolicyRegistry where
  configs := (comboRegistryKey name, cfg) :: registry.configs
  combo_pinned := combo_pinned_combo h

end PolicyRegistry

/-- Offer the config under the `combo` of its entry, if it has one. -/
def registerCombo (path : String) (i : ℕ) (entry : Value) (cfg : RoutingConfig)
    (registry : PolicyRegistry) : Except RegistryLoadError PolicyRegistry :=
  match (entry.get "combo").bind Value.asStr with
  | none => .ok registry
  | some raw => do
    let combo := trimText raw
    ensure (combo ≠ "" ∧ (dropHead? "cfg_" combo).isNone ∧ (dropHead? "combo:" combo).isNone)
      (.badShape path ("configs[" ++ toString i ++ "].combo '" ++ combo ++
        "' must be non-empty and not 'cfg_'/'combo:'-prefixed"))
    if hpinned : ∀ m ∈ cfg.targetModels, m.isSome = true then do
      ensure (registry.get (comboRegistryKey combo)).isNone
        (.badShape path ("duplicate combo name '" ++ combo ++ "'"))
      return registry.insertCombo combo cfg hpinned
    else
      .error (.badShape path ("combo '" ++ combo ++
        "' has a target with no pinned model (ADR-086 self-contained rule)"))

def loadEntry (path : String) (i : ℕ) (entry : Value) (registry : PolicyRegistry) :
    Except RegistryLoadError PolicyRegistry := do
  let id ← okOr (((entry.get "id").bind Value.asStr).bind savedId?)
    (.badShape path ("configs[" ++ toString i ++ "].id must be a 'cfg_'-prefixed string"))
  let routing ← okOr (entry.get "routing")
    (.badShape path ("configs[" ++ toString i ++ "] is missing a 'routing' object"))
  let cfg ← (RoutingConfig.parse routing (.saved id.1)).mapError (.config id.1)
  let registry ← registerCombo path i entry cfg registry
  return registry.insertSaved id cfg

def loadEntries (path : String) :
    ℕ → List Value → PolicyRegistry → Except RegistryLoadError PolicyRegistry
  | _, [], registry => .ok registry
  | i, entry :: entries, registry => do
    let registry ← loadEntry path i entry registry
    loadEntries path (i + 1) entries registry

section

-- `std::fs::read_to_string` and `serde_json::from_str`
variable (readToString : String → Except String String) (fromStr : String → Except String Value)

def loadRegistryFromFile (path : String) : Except RegistryLoadError PolicyRegistry := do
  let content ← (readToString path).mapError (.read path)
  let value ← (fromStr content).mapError (.parse path)
  let configs ← okOr ((value.get "configs").bind Value.asArray)
    (.badShape path "expected a top-level 'configs' array")
  loadEntries path 0 configs {}

end

end Routeplane
