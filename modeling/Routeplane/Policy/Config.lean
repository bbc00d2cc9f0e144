import Routeplane.Policy.Shaping
import Routeplane.Types.Text
import Routeplane.Lib.Weighted
import Mathlib.Data.List.Sort
import Mathlib.Data.List.Flatten

/-!
# Routing configs

A validated routing config and its evaluation: select the branch of a conditional
config, then flatten the tree to the target plans the proxy executes.

* `RoutingConfig`: the loaded config; a tree of at most 32 leaves.
* `evaluate`: the compiled plan of a request.
* `evaluate_targets_subset`: every plan is a leaf of the config.
* `evaluate_length`: a config yields at most 32 plans.
-/

namespace Routeplane

open SplitMix

def maxTargetsPerLevel : ℕ := 16

def maxFlattenedTargets : ℕ := 32

inductive PolicyStrategy
  | priority
  | weighted
  | cost
  | latency
  | roundRobin
  | leastBusy
  | conditional
  deriving DecidableEq, Repr, Inhabited

/-- The router's name for the strategy; `conditional` never reaches it. -/
def PolicyStrategy.asRouterStr : PolicyStrategy → String
  | .priority | .conditional => "priority"
  | .weighted => "weighted"
  | .cost => "cost"
  | .latency => "latency"
  | .roundRobin => "round_robin"
  | .leastBusy => "least_busy"

structure Backoff where
  initialMs : ℕ := 200
  maxMs : ℕ := 2000
  jitter : Bool := true
  deriving DecidableEq, Repr, Inhabited

/-- The delay before retry `retryIndex`: exponential, capped, with full jitter when set. -/
def Backoff.delay (b : Backoff) (retryIndex : ℕ) (rng : Rng) : ℕ × Rng :=
  let base := min (min (b.initialMs * 2 ^ min retryIndex 31) (2 ^ 64 - 1)) b.maxMs
  if b.jitter && decide (0 < base) then rng.nextBelow (base + 1) else (base, rng)

/-- The delay when the generator's next word is `word`. -/
def Backoff.delayOf (b : Backoff) (retryIndex word : ℕ) : ℕ :=
  let base := min (min (b.initialMs * 2 ^ min retryIndex 31) (2 ^ 64 - 1)) b.maxMs
  if b.jitter && decide (0 < base) then word % (base + 1) else base

theorem Backoff.delay_eq (b : Backoff) (i : ℕ) (rng : Rng) :
    (b.delay i rng).1 = b.delayOf i rng.nextU64.1.toNat := by
  simp only [delay, delayOf]
  split <;> rfl

/-- No delay exceeds the configured maximum. -/
theorem Backoff.delay_le (b : Backoff) (i : ℕ) (rng : Rng) : (b.delay i rng).1 ≤ b.maxMs := by
  simp only [delay]
  split
  · have hle := Nat.lt_succ_iff.1 (rng.nextBelow_lt (Nat.succ_pos
      (min (min (b.initialMs * 2 ^ min i 31) (2 ^ 64 - 1)) b.maxMs)))
    exact hle.trans (Nat.min_le_right _ _)
  · exact Nat.min_le_right _ _

def defaultRetryStatus : List ℕ := [429, 500, 502, 503, 504]

structure RetryPolicy where
  attempts : ℕ := 0
  onStatus : List ℕ := defaultRetryStatus
  backoff : Backoff := {}
  deriving DecidableEq, Repr, Inhabited

structure HedgePolicy where
  delay : ℕ
  maxExtra : ℕ
  deriving DecidableEq, Repr, Inhabited

inductive CacheMode
  | simple
  | semantic
  deriving DecidableEq, Repr, Inhabited

structure CacheDirective where
  mode : CacheMode
  ttlSeconds : ℕ := 300
  namespaceName : String := "default"
  forceRefresh : Bool := false
  similarityThreshold : Option Float := none
  maxResponseBytes : ℕ := 262144
  deriving Inhabited

/-- One target of a flattened plan, as the proxy executes it. -/
structure TargetPlan where
  provider : String
  weight : Option UInt32 := none
  cost : Option UInt32 := none
  timeoutMs : Option ℕ := none
  retry : RetryPolicy := {}
  params : ParamShaping := .noop
  deriving Inhabited

structure CompiledPlan where
  strategy : PolicyStrategy
  targets : List TargetPlan
  requestTimeoutMs : Option ℕ
  matchedLabel : String
  hedge : Option HedgePolicy

structure Leaf where
  name : Option String := none
  provider : String
  weight : Option UInt32 := none
  cost : Option UInt32 := none
  timeoutMs : Option ℕ := none
  retry : Option RetryPolicy := none
  params : ParamShaping := .noop
  deriving Inhabited

structure Pool where
  name : Option String := none
  strategy : PolicyStrategy
  leaves : List Leaf
  deriving Inhabited

inductive Node
  | leaf (l : Leaf)
  | pool (p : Pool)
  deriving Inhabited

namespace Node

def name : Node → Option String
  | .leaf l => l.name
  | .pool p => p.name

/-- The leaves of a node, in tree order. -/
def leaves : Node → List Leaf
  | .leaf l => [l]
  | .pool p => p.leaves

end Node

structure Condition where
  conds : Fields
  target : String

inductive ConfigRef
  | inline
  | saved (id : String)
  deriving DecidableEq, Repr

structure RoutingConfig where
  strategy : PolicyStrategy := .priority
  targets : List Node
  conditions : List Condition := []
  defaultTarget : Option String := none
  configRetry : RetryPolicy := {}
  timeoutMs : Option ℕ := none
  configRef : ConfigRef := .inline
  cache : Option CacheDirective := none
  hedge : Option HedgePolicy := none
  targets_ne : targets ≠ []
  flattened_le : (targets.flatMap Node.leaves).length ≤ maxFlattenedTargets

/-- The conditional-routing metadata of a request: scalar values by name. -/
abbrev Metadata := Fields

/-! ## Conditions -/

/-- The value of a request field a condition may name. -/
def paramValue (field : String) (req : ChatCompletionRequest) : Option Value :=
  match field with
  | "model" => some (.str req.model)
  | "user" => req.user.map .str
  | "stream" => req.stream.map .bool
  | "max_tokens" => req.maxTokens.map fun n => .num (.int n.toNat)
  | "max_completion_tokens" => req.maxCompletionTokens.map fun n => .num (.int n.toNat)
  | "temperature" => req.temperature.bind fun t =>
      if t.isFinite then some (.num (.float t.toFloat)) else none
  | _ => none

def resolvePath (path : String) (metadata : Metadata) (req : ChatCompletionRequest) : Option Value :=
  match dropHead? "metadata." path with
  | some key => metadata.get key
  | none =>
    match dropHead? "params." path with
    | some field => paramValue field req
    | none => none

/-- One operator of a clause. A missing value satisfies `exists` alone. -/
def evalOp (op : String) (actual : Option Value) (expected : Value) : Bool :=
  if op = "exists" then actual.isSome == (expected.asBool.getD false)
  else
    match actual with
    | none => false
    | some actual =>
      let compare (f : Float → Float → Bool) : Bool :=
        match actual.asF64, expected.asF64 with
        | some a, some b => f a b
        | _, _ => false
      match op with
      | "eq" => actual.beq expected
      | "ne" => !actual.beq expected
      | "in" => (expected.asArray.map fun xs => xs.any fun v => v.beq actual).getD false
      | "nin" => (expected.asArray.map fun xs => !xs.any fun v => v.beq actual).getD false
      | "gt" => compare fun a b => a > b
      | "gte" => compare fun a b => a >= b
      | "lt" => compare fun a b => a < b
      | "lte" => compare fun a b => a <= b
      | _ => false

/-- Every clause holds. -/
def evalWhen (conds : Fields) (metadata : Metadata) (req : ChatCompletionRequest) : Bool :=
  conds.all fun (path, spec) =>
    match spec.asObject with
    | none => false
    | some ops => ops.all fun (op, expected) => evalOp op (resolvePath path metadata req) expected

/-! ## Evaluation -/

def leafToPlan (leaf : Leaf) (configRetry : RetryPolicy) : TargetPlan where
  provider := leaf.provider
  weight := leaf.weight
  cost := leaf.cost
  timeoutMs := leaf.timeoutMs
  retry := leaf.retry.getD configRetry
  params := leaf.params

/-- Order a pool's leaves by its own strategy: policy has no live health, so only the
declared cost and the weights count here. -/
def orderLeaves (pool : Pool) (rng : Rng) : List Leaf × Rng :=
  match pool.strategy with
  | .cost => (pool.leaves.mergeSort fun a b => (a.cost.getD 100) ≤ (b.cost.getD 100), rng)
  | .weighted => Weighted.weightedOrder (fun l => max (l.weight.getD 1).toNat 1) rng pool.leaves
  | _ => (pool.leaves, rng)

def flattenPool (pool : Pool) (configRetry : RetryPolicy) (rng : Rng) : List TargetPlan × Rng :=
  let (leaves, rng) := orderLeaves pool rng
  (leaves.map fun l => leafToPlan l configRetry, rng)

def flattenNode (node : Node) (configRetry : RetryPolicy) (rng : Rng) : List TargetPlan × Rng :=
  match node with
  | .leaf l => ([leafToPlan l configRetry], rng)
  | .pool p => flattenPool p configRetry rng

/-- Flatten the nodes in order, the generator threaded through the pools. -/
def flattenNodes (configRetry : RetryPolicy) : List Node → Rng → List TargetPlan × Rng
  | [], rng => ([], rng)
  | node :: nodes, rng =>
    let (plans, rng) := flattenNode node configRetry rng
    let (rest, rng) := flattenNodes configRetry nodes rng
    (plans ++ rest, rng)

namespace RoutingConfig

/-- The branch a conditional config takes: the first matching condition's target, else the
default; a name that names nothing falls back to the first target. -/
def chosenNode (cfg : RoutingConfig) (metadata : Metadata) (req : ChatCompletionRequest) :
    Option Node × String :=
  let matched := (cfg.conditions.zipIdx).find? fun (c, _) => evalWhen c.conds metadata req
  let chosen := match matched with
    | some (c, _) => some c.target
    | none => cfg.defaultTarget
  let node := chosen.bind fun name => cfg.targets.find? fun n => n.name == some name
  (node.or cfg.targets.head?, match matched with
    | some (_, i) => toString i
    | none => "default")

/-- Pure evaluation: select the branch, flatten to the target list. -/
def evaluate (cfg : RoutingConfig) (metadata : Metadata) (req : ChatCompletionRequest) (rng : Rng) :
    CompiledPlan :=
  if cfg.strategy = .conditional then
    let (node, label) := cfg.chosenNode metadata req
    let (targets, strategy) := match node with
      | some (.leaf l) => ([leafToPlan l cfg.configRetry], .priority)
      | some (.pool p) => ((flattenPool p cfg.configRetry rng).1, p.strategy)
      | none => ([], .priority)
    ⟨strategy, targets, cfg.timeoutMs, label, cfg.hedge⟩
  else
    ⟨cfg.strategy, (flattenNodes cfg.configRetry cfg.targets rng).1, cfg.timeoutMs, "none",
      cfg.hedge⟩

/-- The leaves of the tree, in order. -/
def leaves (cfg : RoutingConfig) : List Leaf := cfg.targets.flatMap Node.leaves

/-- The model each leaf pins, in tree order. -/
def targetModels (cfg : RoutingConfig) : List (Option String) :=
  cfg.leaves.map fun l => l.params.pinnedModel

end RoutingConfig

theorem orderLeaves_perm (pool : Pool) (rng : Rng) : (orderLeaves pool rng).1.Perm pool.leaves := by
  rw [orderLeaves]
  split
  · exact List.mergeSort_perm _ _
  · exact Weighted.weightedOrder_perm _ _ _
  · exact .refl _

theorem flattenNode_perm (node : Node) (retry : RetryPolicy) (rng : Rng) :
    (flattenNode node retry rng).1.Perm (node.leaves.map fun l => leafToPlan l retry) := by
  cases node with
  | leaf l => exact .refl _
  | pool p => exact (orderLeaves_perm p rng).map _

theorem flattenNodes_perm (retry : RetryPolicy) : ∀ (nodes : List Node) (rng : Rng),
    (flattenNodes retry nodes rng).1.Perm
      ((nodes.flatMap Node.leaves).map fun l => leafToPlan l retry)
  | [], _ => .nil
  | node :: nodes, rng => by
    rw [flattenNodes, List.flatMap_cons, List.map_append]
    exact (flattenNode_perm node retry rng).append (flattenNodes_perm retry nodes _)

namespace RoutingConfig

variable (cfg : RoutingConfig) (metadata : Metadata) (req : ChatCompletionRequest) (rng : Rng)

theorem chosenNode_mem {node : Node} (h : (cfg.chosenNode metadata req).1 = some node) :
    node ∈ cfg.targets := by
  simp only [chosenNode] at h
  rw [Option.or_eq_some_iff] at h
  rcases h with h | ⟨-, h⟩
  · obtain ⟨name, -, hname⟩ := Option.bind_eq_some_iff.1 h
    exact List.mem_of_find?_eq_some hname
  · exact List.mem_of_head? h

/-- **A plan is a permutation of some of the config's leaves**: all of them, or the leaves
of the branch taken. -/
theorem evaluate_targets_perm : ∃ nodes : List Node, nodes.Sublist cfg.targets ∧
    (cfg.evaluate metadata req rng).targets.Perm
      ((nodes.flatMap Node.leaves).map fun l => leafToPlan l cfg.configRetry) := by
  rw [evaluate]
  split
  · cases hn : (cfg.chosenNode metadata req).1 with
    | none => exact ⟨[], List.nil_sublist _, by simp [hn]⟩
    | some node =>
      refine ⟨[node], List.singleton_sublist.2 (cfg.chosenNode_mem metadata req hn), ?_⟩
      have := flattenNode_perm node cfg.configRetry rng
      cases node <;> simpa [hn, flattenNode] using this
  · exact ⟨cfg.targets, .refl _, flattenNodes_perm _ _ _⟩

/-- **Every plan is a leaf of the config.** -/
theorem evaluate_targets_subset {t : TargetPlan} (ht : t ∈ (cfg.evaluate metadata req rng).targets) :
    ∃ l ∈ cfg.leaves, t = leafToPlan l cfg.configRetry := by
  obtain ⟨nodes, hsub, hperm⟩ := cfg.evaluate_targets_perm metadata req rng
  obtain ⟨l, hl, rfl⟩ := List.mem_map.1 (hperm.mem_iff.1 ht)
  obtain ⟨node, hnode, hmem⟩ := List.mem_flatMap.1 hl
  exact ⟨l, List.mem_flatMap.2 ⟨node, hsub.subset hnode, hmem⟩, rfl⟩

/-- **A config yields at most 32 plans.** -/
theorem evaluate_length : (cfg.evaluate metadata req rng).targets.length ≤ maxFlattenedTargets := by
  obtain ⟨nodes, hsub, hperm⟩ := cfg.evaluate_targets_perm metadata req rng
  rw [hperm.length_eq, List.length_map]
  exact (hsub.flatMap Node.leaves).length_le.trans cfg.flattened_le

end RoutingConfig

end Routeplane
