import Routeplane.Policy.Parse

/-!
# What an accepted routing config is bounded by

The limits of the parser, read off the document it accepted: the targets of each level, the levels
of pools, the flattened plans, the retries, the references of a conditional config, and that a plan
is made of targets the document declares.

* `parseRetry_ok`, `parseLeaf_ok`, `parseNode_ok`, `parse_ok`: what each part passed.
* `parse_bounded_iff`: an accepted document is within all its limits exactly when no status code
  in it exceeds sixteen bits.
-/

namespace Routeplane.Policy

open Fallible

/-! ## The document -/

/-- The entries of the `targets` of a document, or of one of its pools. -/
def targetsOf (v : Value) : List Value := ((v.get "targets").bind Value.asArray).getD []

/-- A target that is no pool stands for itself. -/
def leavesAt (t : Value) : List Value := if (t.get "targets").isSome then targetsOf t else [t]

/-- The leaves of a document, in order. -/
def leavesOf (v : Value) : List Value := (targetsOf v).flatMap leavesAt

/-- The `retry` objects of a document: its own, and those of its leaves. -/
def retriesOf (v : Value) : List Value :=
  (v.get "retry").toList ++ (leavesOf v).filterMap fun l => l.get "retry"

/-- The entries of an `on_status`. -/
def statusesOf (r : Value) : List Value := ((r.get "on_status").bind Value.asArray).getD []

def conditionsOf (v : Value) : List Value := ((v.get "conditions").bind Value.asArray).getD []

/-- A target of the document goes by the name. -/
def Named (v : Value) (name : String) : Prop :=
  ∃ t ∈ targetsOf v, (t.get "name").bind Value.asStr = some name

/-- The leaf a planned target is. -/
structure Declares (d : Value) (t : TargetPlan) : Prop where
  provider : (d.get "provider").bind Value.asStr = some t.provider
  weight : (d.get "weight").bind Value.asU64AsU32 = t.weight
  cost : (d.get "cost").bind Value.asU64AsU32 = t.cost
  timeout : (d.get "timeout_ms").bind Value.asU64 = t.timeoutMs

/-- The document and its plans are within every documented limit. -/
structure Bounded (v : Value) (cfg : RoutingConfig) : Prop where
  width : (targetsOf v).length ≤ maxTargetsPerLevel ∧
    ∀ t ∈ targetsOf v, (targetsOf t).length ≤ maxTargetsPerLevel
  depth : ∀ t ∈ targetsOf v, ∀ c ∈ targetsOf t, c.get "targets" = none
  flattened : ∀ metadata req rng,
    (cfg.evaluate metadata req rng).targets.length ≤ maxFlattenedTargets
  attempts : ∀ r ∈ retriesOf v, ∀ n, (r.get "attempts").bind Value.asU64 = some n →
    n ≤ maxRetryAttempts
  planned : ∀ metadata req rng, ∀ t ∈ (cfg.evaluate metadata req rng).targets,
    t.retry.attempts ≤ maxRetryAttempts
  statuses : ∀ r ∈ retriesOf v, ∀ code ∈ statusesOf r, ∃ c ∈ allowedRetryStatus,
    code.asU64 = some c
  references : cfg.strategy = .conditional →
    (∃ name, (v.get "default_target").bind Value.asStr = some name ∧ Named v name) ∧
      ∀ c ∈ conditionsOf v, ∃ name, (c.get "target").bind Value.asStr = some name ∧ Named v name
  declared : ∀ metadata req rng, ∀ t ∈ (cfg.evaluate metadata req rng).targets,
    ∃ d ∈ leavesOf v, Declares d t

/-! ## What the parts passed -/

section

variable {v value : Value} {obj : Fields} {ptr : String}

theorem eq_obj_of_okOr {e : ConfigError} (h : okOr v.asObject e = .ok obj) : v = .obj obj := by
  have hsome := eq_some_of_okOr h
  unfold Value.asObject at hsome
  split at hsome
  · rw [Option.some_inj.1 hsome]
  · cases hsome

theorem parseU32_ok {n : UInt32} (h : parseU32 v ptr = .ok n) :
    ∃ m, v.asU64 = some m ∧ n.toNat = m ∧ v.asU64AsU32 = some n := by
  unfold parseU32 at h
  obtain ⟨m, hm, hn⟩ := map_eq_ok h
  obtain ⟨hread, hlt⟩ := Option.filter_eq_some_iff.1 (eq_some_of_okOr hm)
  have hlt' : m < 2 ^ 32 := of_decide_eq_true hlt
  refine ⟨m, hread, ?_, ?_⟩
  · rw [← hn]
    exact UInt32.toNat_ofNat_of_lt' hlt'
  · unfold Value.asU64AsU32
    rw [hread, ← hn]
    rfl

theorem parsePositiveU64_ok {n : ℕ} (h : parsePositiveU64 v ptr = .ok n) : v.asU64 = some n :=
  (Option.filter_eq_some_iff.1 (eq_some_of_okOr h)).1

/-- A field read: what it holds is what the document has there. -/
theorem bind_of_field {α : Type} {key : String} {parse : Value → String → Except ConfigError α}
    {read : Value → Option α} {r : Option α}
    (hparse : ∀ v ptr a, parse v ptr = .ok a → read v = some a)
    (h : field obj ptr key parse = .ok r) : (obj.get key).bind read = r := by
  rcases of_optional h with ⟨hnone, hr⟩ | ⟨w, a, hsome, hr, ha⟩
  · rw [hnone, hr]
    rfl
  · rw [hsome, hr]
    exact hparse w _ a ha

theorem parseStatus_ok {code : Value} {c : ℕ} (h : parseStatus code ptr = .ok c) :
    ∃ n, code.asU64 = some n ∧ n % 2 ^ 16 ∈ allowedRetryStatus := by
  unfold parseStatus at h
  obtain ⟨n, hn, h⟩ := bind_eq_ok h
  obtain ⟨_, hallowed, -⟩ := bind_eq_ok h
  exact ⟨n, eq_some_of_okOr hn, of_ensure hallowed⟩

/-- A `retry` object within its limits, but for the width of its status codes. -/
structure RetryChecked (value : Value) (r : RetryPolicy) : Prop where
  attempts_le : r.attempts ≤ maxRetryAttempts
  attempts : ∀ n, (value.get "attempts").bind Value.asU64 = some n → n = r.attempts
  statuses : ∀ code ∈ statusesOf value, ∃ n, code.asU64 = some n ∧
    n % 2 ^ 16 ∈ allowedRetryStatus

theorem parseRetry_ok {r : RetryPolicy} (h : parseRetry value ptr = .ok r) :
    RetryChecked value r := by
  unfold parseRetry at h
  obtain ⟨obj, hobj, h⟩ := bind_eq_ok h
  obtain ⟨_, -, h⟩ := bind_eq_ok h
  obtain ⟨attempts, hattempts, h⟩ := bind_eq_ok h
  obtain ⟨_, hle, h⟩ := bind_eq_ok h
  obtain ⟨onStatus, hstatus, h⟩ := bind_eq_ok h
  obtain ⟨backoff, -, h⟩ := bind_eq_ok h
  rw [eq_obj_of_okOr hobj, ← Except.ok.inj h]
  refine ⟨of_ensure hle, ?_, ?_⟩
  · intro n hn
    have hget : (obj.get "attempts").bind Value.asU64 = some n := hn
    rcases of_optional hattempts with ⟨hnone, -⟩ | ⟨w, a, hsome, hr, ha⟩
    · rw [hnone] at hget
      cases hget
    · obtain ⟨m, hm, htoNat, -⟩ := parseU32_ok ha
      rw [hsome, Option.bind_some, hm] at hget
      rw [hr, Option.getD_some, htoNat, ← Option.some_inj.1 hget]
  · intro code hcode
    have hcode' : code ∈ ((obj.get "on_status").bind Value.asArray).getD [] := hcode
    rcases of_optional hstatus with ⟨hnone, -⟩ | ⟨w, a, hsome, -, ha⟩
    · rw [hnone] at hcode'
      cases hcode'
    · unfold parseOnStatus at ha
      obtain ⟨arr, harr, ha⟩ := bind_eq_ok ha
      obtain ⟨codes, hcodes, -⟩ := bind_eq_ok ha
      rw [hsome, Option.bind_some, eq_some_of_okOr harr, Option.getD_some] at hcode'
      obtain ⟨c, -, j, hc⟩ := exists_of_each_mem hcodes hcode'
      exact parseStatus_ok hc

/-- A `retry` that may be missing. -/
def RetryAt (value : Value) (r : Option RetryPolicy) : Prop :=
  (value.get "retry" = none ∧ r = none) ∨
    ∃ w r', value.get "retry" = some w ∧ r = some r' ∧ RetryChecked w r'

theorem retryAt_of_field {r : Option RetryPolicy} (h : field obj ptr "retry" parseRetry = .ok r) :
    RetryAt (.obj obj) r := by
  rcases of_optional h with ⟨hnone, hr⟩ | ⟨w, r', hsome, hr, hchecked⟩
  · exact Or.inl ⟨hnone, hr⟩
  · exact Or.inr ⟨w, r', hsome, hr, parseRetry_ok hchecked⟩

/-- A leaf of the document and what it was read as. -/
structure LeafChecked (d : Value) (l : Leaf) : Prop where
  name : l.name = (d.get "name").bind Value.asStr
  declares : ∀ configRetry, Declares d (leafToPlan l configRetry)
  retry : RetryAt d l.retry

theorem parseLeaf_ok {l : Leaf} (h : parseLeaf obj ptr = .ok l) : LeafChecked (.obj obj) l := by
  unfold parseLeaf at h
  obtain ⟨_, -, h⟩ := bind_eq_ok h
  obtain ⟨provider, hprovider, h⟩ := bind_eq_ok h
  obtain ⟨weight, hweight, h⟩ := bind_eq_ok h
  obtain ⟨cost, hcost, h⟩ := bind_eq_ok h
  obtain ⟨timeoutMs, htimeout, h⟩ := bind_eq_ok h
  obtain ⟨retry, hretry, h⟩ := bind_eq_ok h
  obtain ⟨params, -, h⟩ := bind_eq_ok h
  have hread : ∀ v ptr n, parseU32 v ptr = .ok n → v.asU64AsU32 = some n := by
    intro v ptr n hn
    obtain ⟨m, -, -, hu32⟩ := parseU32_ok hn
    exact hu32
  rw [← Except.ok.inj h]
  refine ⟨rfl, fun configRetry => ⟨?_, ?_, ?_, ?_⟩, retryAt_of_field hretry⟩
  · exact (Option.filter_eq_some_iff.1 (eq_some_of_okOr hprovider)).1
  · exact bind_of_field hread hweight
  · exact bind_of_field hread hcost
  · exact bind_of_field (fun v ptr n => parsePositiveU64_ok) htimeout

/-- A target of the document and what it was read as. -/
structure NodeChecked (d : Value) (node : Node) : Prop where
  name : node.name = (d.get "name").bind Value.asStr
  width : (targetsOf d).length ≤ maxTargetsPerLevel
  depth : ∀ c ∈ targetsOf d, c.get "targets" = none
  leaves : List.Forall₂ LeafChecked (leavesAt d) node.leaves

theorem targetsOf_of_none (h : v.get "targets" = none) : targetsOf v = [] := by
  unfold targetsOf
  rw [h]
  rfl

/-- A leaf has no targets of its own, at any level. -/
theorem parseNode_leaf {levels : ℕ} {l : Leaf} (h : parseNode levels v ptr = .ok (.leaf l)) :
    v.get "targets" = none ∧ LeafChecked v l := by
  unfold parseNode at h
  obtain ⟨obj, hobj, h⟩ := bind_eq_ok h
  obtain ⟨_, -, h⟩ := bind_eq_ok h
  rw [eq_obj_of_okOr hobj]
  split at h
  · -- a pool is read as a pool
    cases levels with
    | zero => cases h
    | succ levels =>
      obtain ⟨_, -, h⟩ := bind_eq_ok h
      obtain ⟨_, -, h⟩ := bind_eq_ok h
      obtain ⟨_, -, h⟩ := bind_eq_ok h
      obtain ⟨_, -, h⟩ := bind_eq_ok h
      obtain ⟨_, -, h⟩ := bind_eq_ok h
      obtain ⟨_, -, h⟩ := bind_eq_ok h
      obtain ⟨_, -, h⟩ := bind_eq_ok h
      cases Except.ok.inj h
  · rename_i htargets
    obtain ⟨leaf, hleaf, h⟩ := bind_eq_ok h
    have heq : leaf = l := Node.leaf.inj (Except.ok.inj h)
    exact ⟨Option.not_isSome_iff_eq_none.1 htargets, heq ▸ parseLeaf_ok hleaf⟩

theorem leafOnly_ok {node : Node} {l : Leaf} (h : leafOnly ptr node = .ok l) : node = .leaf l := by
  cases node with
  | leaf l' => rw [Except.ok.inj h]
  | pool p => cases h

theorem parseNode_ok {levels : ℕ} {node : Node} (h : parseNode levels v ptr = .ok node) :
    NodeChecked v node := by
  cases node with
  | leaf l =>
    obtain ⟨hnone, hleaf⟩ := parseNode_leaf h
    have htargets := targetsOf_of_none hnone
    refine ⟨hleaf.name, ?_, ?_, ?_⟩
    · rw [htargets]
      exact Nat.zero_le _
    · intro c hc
      rw [htargets] at hc
      cases hc
    · unfold leavesAt
      rw [hnone]
      exact .cons hleaf .nil
  | pool p =>
    unfold parseNode at h
    obtain ⟨obj, hobj, h⟩ := bind_eq_ok h
    obtain ⟨_, -, h⟩ := bind_eq_ok h
    rw [eq_obj_of_okOr hobj]
    split at h
    · rename_i hsome
      cases levels with
      | zero => cases h
      | succ levels =>
        obtain ⟨_, -, h⟩ := bind_eq_ok h
        obtain ⟨strategy, -, h⟩ := bind_eq_ok h
        obtain ⟨_, -, h⟩ := bind_eq_ok h
        obtain ⟨children, hchildren, h⟩ := bind_eq_ok h
        obtain ⟨_, -, h⟩ := bind_eq_ok h
        obtain ⟨_, hwidth, h⟩ := bind_eq_ok h
        obtain ⟨leaves, hleaves, h⟩ := bind_eq_ok h
        have htargets : targetsOf (.obj obj) = children := by
          have hget : ((Value.obj obj).get "targets").bind Value.asArray = some children :=
            eq_some_of_okOr hchildren
          unfold targetsOf
          rw [hget]
          rfl
        -- every child is a leaf of its own
        have hchecked : List.Forall₂ (fun c l => c.get "targets" = none ∧ LeafChecked c l)
            children leaves := by
          refine (forall₂_of_each hleaves).imp ?_
          rintro c l ⟨j, hc⟩
          obtain ⟨child, hchild, hl⟩ := bind_eq_ok hc
          rw [leafOnly_ok hl] at hchild
          exact parseNode_leaf hchild
        rw [← Node.pool.inj (Except.ok.inj h)]
        refine ⟨rfl, ?_, ?_, ?_⟩
        · rw [htargets]
          exact of_ensure hwidth
        · intro c hc
          rw [htargets] at hc
          obtain ⟨l, -, hleaf, -⟩ := mem_of_forall₂ hchecked.flip hc
          exact hleaf
        · unfold leavesAt
          have hpool : ((Value.obj obj).get "targets").isSome = true := hsome
          rw [if_pos hpool, htargets]
          exact hchecked.imp fun _ _ hcl => hcl.2
    · obtain ⟨leaf, -, h⟩ := bind_eq_ok h
      cases Except.ok.inj h

/-! ### References -/

theorem uniqueNames_ok {nodes : List Node} : ∀ {i : ℕ} {seen names : List String},
    uniqueNames i seen nodes = .ok names →
      ∀ name ∈ names, name ∈ seen ∨ ∃ node ∈ nodes, node.name = some name := by
  induction nodes with
  | nil =>
    intro i seen names h name hname
    rw [← Except.ok.inj h] at hname
    exact Or.inl hname
  | cons node nodes ih =>
    intro i seen names h name hname
    obtain ⟨first, hfirst, h⟩ := bind_eq_ok h
    obtain ⟨_, -, h⟩ := bind_eq_ok h
    rcases ih h name hname with hseen | ⟨node', hnode, heq⟩
    · rcases List.mem_cons.1 hseen with rfl | hseen
      · exact Or.inr ⟨node, List.mem_cons_self, eq_some_of_okOr hfirst⟩
      · exact Or.inl hseen
    · exact Or.inr ⟨node', List.mem_cons_of_mem _ hnode, heq⟩

/-- What a conditional config refers to is there. -/
theorem validateConditional_ok {cfg : RoutingConfig} {u : Unit}
    (h : cfg.validateConditional = .ok u) (hmode : cfg.strategy = .conditional) :
    (∃ name, cfg.defaultTarget = some name ∧ ∃ node ∈ cfg.targets, node.name = some name) ∧
      ∀ c ∈ cfg.conditions, ∃ node ∈ cfg.targets, node.name = some c.target := by
  unfold RoutingConfig.validateConditional at h
  rw [if_neg (not_not_intro hmode)] at h
  obtain ⟨names, hnames, h⟩ := bind_eq_ok h
  obtain ⟨name, hdefault, h⟩ := bind_eq_ok h
  obtain ⟨_, hmem, h⟩ := bind_eq_ok h
  obtain ⟨units, hconditions, -⟩ := bind_eq_ok h
  have hnode : ∀ name ∈ names, ∃ node ∈ cfg.targets, node.name = some name := by
    intro name hname
    rcases uniqueNames_ok hnames name hname with hseen | hnode
    · cases hseen
    · exact hnode
  refine ⟨⟨name, eq_some_of_okOr hdefault, hnode name (of_ensure hmem)⟩, ?_⟩
  intro c hc
  obtain ⟨_, -, j, hensure⟩ := exists_of_each_mem hconditions hc
  exact hnode c.target (of_ensure hensure)

theorem parseConditions_ok {conditions : List Condition}
    (h : parseConditions value ptr = .ok conditions) :
    ∃ arr, value.asArray = some arr ∧
      List.Forall₂ (fun c cond => (c.get "target").bind Value.asStr = some cond.target) arr
        conditions := by
  unfold parseConditions at h
  obtain ⟨arr, harr, h⟩ := bind_eq_ok h
  obtain ⟨_, -, h⟩ := bind_eq_ok h
  refine ⟨arr, eq_some_of_okOr harr, (forall₂_of_each h).imp ?_⟩
  rintro c cond ⟨j, hc⟩
  unfold parseCondition at hc
  obtain ⟨obj, hobj, hc⟩ := bind_eq_ok hc
  obtain ⟨_, -, hc⟩ := bind_eq_ok hc
  obtain ⟨target, htarget, hc⟩ := bind_eq_ok hc
  obtain ⟨conds, -, hc⟩ := bind_eq_ok hc
  obtain ⟨_, -, hc⟩ := bind_eq_ok hc
  obtain ⟨_, -, hc⟩ := bind_eq_ok hc
  rw [eq_obj_of_okOr hobj, ← Except.ok.inj hc]
  exact eq_some_of_okOr htarget

/-- An accepted document and the config read from it. -/
structure ConfigChecked (v : Value) (cfg : RoutingConfig) : Prop where
  width : (targetsOf v).length ≤ maxTargetsPerLevel
  nodes : List.Forall₂ NodeChecked (targetsOf v) cfg.targets
  retry : (v.get "retry" = none ∧ cfg.configRetry = {}) ∨
    ∃ w, v.get "retry" = some w ∧ RetryChecked w cfg.configRetry
  defaultTarget : cfg.defaultTarget = (v.get "default_target").bind Value.asStr
  conditions : List.Forall₂
    (fun c cond => (c.get "target").bind Value.asStr = some cond.target) (conditionsOf v)
    cfg.conditions
  references : cfg.strategy = .conditional →
    (∃ name, cfg.defaultTarget = some name ∧ ∃ node ∈ cfg.targets, node.name = some name) ∧
      ∀ c ∈ cfg.conditions, ∃ node ∈ cfg.targets, node.name = some c.target

theorem parse_ok {configRef : ConfigRef} {cfg : RoutingConfig}
    (h : RoutingConfig.parse v configRef = .ok cfg) : ConfigChecked v cfg := by
  unfold RoutingConfig.parse at h
  obtain ⟨obj, hobj, h⟩ := bind_eq_ok h
  obtain ⟨_, -, h⟩ := bind_eq_ok h
  obtain ⟨strategy, -, h⟩ := bind_eq_ok h
  obtain ⟨cache, -, h⟩ := bind_eq_ok h
  obtain ⟨retry, hretry, h⟩ := bind_eq_ok h
  obtain ⟨timeoutMs, -, h⟩ := bind_eq_ok h
  obtain ⟨hedge, -, h⟩ := bind_eq_ok h
  obtain ⟨targetsVal, htargets, h⟩ := bind_eq_ok h
  obtain ⟨_, hwidth, h⟩ := bind_eq_ok h
  obtain ⟨targets, hnodes, h⟩ := bind_eq_ok h
  rw [eq_obj_of_okOr hobj]
  have harr : targetsOf (.obj obj) = targetsVal := by
    have hget : ((Value.obj obj).get "targets").bind Value.asArray = some targetsVal :=
      eq_some_of_okOr htargets
    unfold targetsOf
    rw [hget]
    rfl
  split at h
  · cases h
  · split at h
    · cases h
    · obtain ⟨conditions, hconditions, h⟩ := bind_eq_ok h
      obtain ⟨_, hvalid, h⟩ := bind_eq_ok h
      rw [← Except.ok.inj h]
      refine ⟨harr ▸ of_ensure hwidth, ?_, ?_, rfl, ?_, validateConditional_ok hvalid⟩
      · rw [harr]
        refine (forall₂_of_each hnodes).imp ?_
        rintro t node ⟨j, hnode⟩
        exact parseNode_ok hnode
      · rcases of_optional hretry with ⟨hnone, hr⟩ | ⟨w, r, hsome, hr, hchecked⟩
        · rw [hr]
          exact Or.inl ⟨hnone, rfl⟩
        · rw [hr]
          exact Or.inr ⟨w, hsome, parseRetry_ok hchecked⟩
      · rcases of_optional hconditions with ⟨hnone, hr⟩ | ⟨w, cs, hsome, hr, hchecked⟩
        · have hempty : conditionsOf (.obj obj) = [] := by
            have hget : (Value.obj obj).get "conditions" = none := hnone
            unfold conditionsOf
            rw [hget]
            rfl
          rw [hempty, hr]
          exact .nil
        · obtain ⟨arr, hread, hall⟩ := parseConditions_ok hchecked
          have hfull : conditionsOf (.obj obj) = arr := by
            have hget : (Value.obj obj).get "conditions" = some w := hsome
            unfold conditionsOf
            rw [hget, Option.bind_some, hread]
            rfl
          rw [hfull, hr]
          exact hall

end

/-! ## The limits -/

section

variable {v : Value} {cfg : RoutingConfig}

theorem ConfigChecked.mem_retriesOf (h : ConfigChecked v cfg) {w : Value}
    (hw : w ∈ retriesOf v) : ∃ r, RetryChecked w r := by
  rcases List.mem_append.1 hw with hroot | hleaf
  · have hget := Option.mem_toList.1 hroot
    rcases h.retry with ⟨hnone, -⟩ | ⟨w', hsome, hchecked⟩
    · rw [hnone] at hget
      cases hget
    · rw [hsome] at hget
      exact ⟨cfg.configRetry, Option.some_inj.1 hget ▸ hchecked⟩
  · obtain ⟨d, hd, hget⟩ := List.mem_filterMap.1 hleaf
    obtain ⟨t, ht, hdt⟩ := List.mem_flatMap.1 hd
    obtain ⟨node, -, hnode⟩ := mem_of_forall₂ h.nodes.flip ht
    obtain ⟨l, -, hl⟩ := mem_of_forall₂ hnode.leaves.flip hdt
    rcases hl.retry with ⟨hnone, -⟩ | ⟨w', r, hsome, -, hchecked⟩
    · rw [hnone] at hget
      cases hget
    · rw [hsome] at hget
      exact ⟨r, Option.some_inj.1 hget ▸ hchecked⟩

/-- A leaf of the config is one of the document. -/
theorem ConfigChecked.mem_leaves (h : ConfigChecked v cfg) {l : Leaf} (hl : l ∈ cfg.leaves) :
    ∃ d ∈ leavesOf v, LeafChecked d l := by
  obtain ⟨node, hnode, hmem⟩ := List.mem_flatMap.1 hl
  obtain ⟨t, ht, hchecked⟩ := mem_of_forall₂ h.nodes hnode
  obtain ⟨d, hd, hleaf⟩ := mem_of_forall₂ hchecked.leaves hmem
  exact ⟨d, List.mem_flatMap.2 ⟨t, ht, hd⟩, hleaf⟩

theorem ConfigChecked.named (h : ConfigChecked v cfg) {name : String}
    (hnode : ∃ node ∈ cfg.targets, node.name = some name) : Named v name := by
  obtain ⟨node, hmem, hname⟩ := hnode
  obtain ⟨t, ht, hchecked⟩ := mem_of_forall₂ h.nodes hmem
  exact ⟨t, ht, hchecked.name ▸ hname⟩

theorem ConfigChecked.configRetry_le (h : ConfigChecked v cfg) :
    cfg.configRetry.attempts ≤ maxRetryAttempts := by
  rcases h.retry with ⟨-, hdefault⟩ | ⟨w, -, hchecked⟩
  · rw [hdefault]
    exact Nat.zero_le _
  · exact hchecked.attempts_le

theorem LeafChecked.retry_le {d : Value} {l : Leaf} (h : LeafChecked d l) {r : RetryPolicy}
    (hr : r.attempts ≤ maxRetryAttempts) : (l.retry.getD r).attempts ≤ maxRetryAttempts := by
  rcases h.retry with ⟨-, hnone⟩ | ⟨w, r', -, hsome, hchecked⟩
  · rw [hnone]
    exact hr
  · rw [hsome]
    exact hchecked.attempts_le

theorem ConfigChecked.references_named (h : ConfigChecked v cfg)
    (hmode : cfg.strategy = .conditional) :
    (∃ name, (v.get "default_target").bind Value.asStr = some name ∧ Named v name) ∧
      ∀ c ∈ conditionsOf v, ∃ name, (c.get "target").bind Value.asStr = some name ∧
        Named v name := by
  obtain ⟨⟨name, hdefault, hnode⟩, hconditions⟩ := h.references hmode
  refine ⟨⟨name, h.defaultTarget ▸ hdefault, h.named hnode⟩, ?_⟩
  intro c hc
  obtain ⟨cond, hcond, htarget⟩ := mem_of_forall₂ h.conditions.flip hc
  exact ⟨cond.target, htarget, h.named (hconditions cond hcond)⟩

/-- No status code of the document is cut short by the cast to sixteen bits. -/
def Narrow (v : Value) : Prop :=
  ∀ r ∈ retriesOf v, ∀ code ∈ statusesOf r, ∀ n, code.asU64 = some n → n < 2 ^ 16

theorem allowed_lt {c : ℕ} (h : c ∈ allowedRetryStatus) : c < 2 ^ 16 := by
  unfold allowedRetryStatus at h
  simp only [List.mem_cons, List.not_mem_nil, or_false] at h
  omega

/-- **An accepted document is within every documented limit exactly when none of its status codes
exceeds sixteen bits.** -/
theorem parse_bounded_iff {configRef : ConfigRef}
    (h : RoutingConfig.parse v configRef = .ok cfg) : Bounded v cfg ↔ Narrow v := by
  have hchecked := parse_ok h
  constructor
  · intro hbounded r hr code hcode n hn
    obtain ⟨c, hc, hread⟩ := hbounded.statuses r hr code hcode
    rw [hread] at hn
    exact Option.some_inj.1 hn ▸ allowed_lt hc
  · intro hnarrow
    have hplan : ∀ metadata req rng, ∀ t ∈ (cfg.evaluate metadata req rng).targets,
        ∃ l, (∃ d ∈ leavesOf v, LeafChecked d l) ∧ t = leafToPlan l cfg.configRetry := by
      intro metadata req rng t ht
      obtain ⟨l, hl, heq⟩ := cfg.evaluate_targets_subset metadata req rng ht
      exact ⟨l, hchecked.mem_leaves hl, heq⟩
    refine ⟨⟨hchecked.width, ?_⟩, ?_, cfg.evaluate_length, ?_, ?_, ?_, hchecked.references_named,
      ?_⟩
    · intro t ht
      obtain ⟨node, -, hnode⟩ := mem_of_forall₂ hchecked.nodes.flip ht
      exact hnode.width
    · intro t ht
      obtain ⟨node, -, hnode⟩ := mem_of_forall₂ hchecked.nodes.flip ht
      exact hnode.depth
    · intro r hr n hn
      obtain ⟨policy, hpolicy⟩ := hchecked.mem_retriesOf hr
      have hle := hpolicy.attempts_le
      have heq := hpolicy.attempts n hn
      omega
    · intro metadata req rng t ht
      obtain ⟨l, ⟨d, -, hl⟩, rfl⟩ := hplan metadata req rng t ht
      exact hl.retry_le hchecked.configRetry_le
    · -- a code that is not cut short is the code that was looked up
      intro r hr code hcode
      obtain ⟨policy, hpolicy⟩ := hchecked.mem_retriesOf hr
      obtain ⟨n, hread, hallowed⟩ := hpolicy.statuses code hcode
      have hlt := hnarrow r hr code hcode n hread
      rw [Nat.mod_eq_of_lt hlt] at hallowed
      exact ⟨n, hallowed, hread⟩
    · intro metadata req rng t ht
      obtain ⟨l, ⟨d, hd, hl⟩, rfl⟩ := hplan metadata req rng t ht
      exact ⟨d, hd, hl.declares cfg.configRetry⟩

/-- A document of one leaf with the status codes given. -/
def oneLeaf (codes : List ℤ) : Value :=
  .obj [("targets", .arr [.obj [("provider", .str "openai"),
    ("retry", .obj [("on_status", .arr (codes.map fun c => .num (.int c)))])]])]

theorem oneLeaf_accepted (codes : List ℤ)
    (h : (RoutingConfig.parse (oneLeaf codes) .inline).isOk = true) :
    ∃ cfg, RoutingConfig.parse (oneLeaf codes) .inline = .ok cfg := by
  cases hparse : RoutingConfig.parse (oneLeaf codes) .inline with
  | error e =>
    rw [hparse] at h
    cases h
  | ok cfg => exact ⟨cfg, rfl⟩

theorem parse_bounded_iff_429 :
    ∃ cfg, RoutingConfig.parse (oneLeaf [429]) .inline = .ok cfg ∧
      (Bounded (oneLeaf [429]) cfg ↔ Narrow (oneLeaf [429])) := by
  obtain ⟨cfg, hparse⟩ := oneLeaf_accepted [429] (by decide)
  exact ⟨cfg, hparse, parse_bounded_iff hparse⟩

/-- The code 65965 is accepted: its low sixteen bits are 429. -/
theorem wide_status_accepted :
    ∃ cfg, RoutingConfig.parse (oneLeaf [65965]) .inline = .ok cfg ∧
      ¬Bounded (oneLeaf [65965]) cfg := by
  obtain ⟨cfg, hparse⟩ := oneLeaf_accepted [65965] (by decide)
  refine ⟨cfg, hparse, fun hbounded => ?_⟩
  have hretries : retriesOf (oneLeaf [65965]) =
      [.obj [("on_status", .arr [.num (.int 65965)])]] := rfl
  obtain ⟨c, hc, hread⟩ := hbounded.statuses _ (hretries ▸ List.mem_cons_self)
    (.num (.int 65965)) List.mem_cons_self
  have heq : c = 65965 := Option.some_inj.1 hread.symm
  rw [heq] at hc
  exact absurd hc (by decide)

end

end Routeplane.Policy
