import Routeplane.Router.Health
import Routeplane.Types.Text
import Routeplane.Lib.FirstMatch
import Routeplane.Lib.Weighted

/-!
# Routing strategies and candidate ordering

The router drops the candidates whose circuit refuses them and orders the rest by the
strategy. It sees candidate specs and hands back names; the ordering here is over any
carrier of a spec, so that the caller's plans can be followed through it.

* `orderLive_map`: ordering commutes with reading the spec off a richer element.
* `orderLive_perm`: every strategy orders exactly the available candidates.
-/

namespace Routeplane

open SplitMix FirstMatch

inductive RoutingStrategy
  | priority
  | weighted
  | cost
  | latency
  | roundRobin
  | leastBusy
  deriving DecidableEq, Repr, Inhabited

/-- The `x-routeplane-strategy` header; anything unknown is `priority`. -/
def RoutingStrategy.parse (value : String) : RoutingStrategy :=
  match asciiLower (trimText value) with
  | "weighted" => .weighted
  | "cost" => .cost
  | "latency" => .latency
  | "round_robin" | "roundrobin" | "round-robin" => .roundRobin
  | "least_busy" | "leastbusy" | "least-busy" => .leastBusy
  | _ => .priority

structure ProviderRouting where
  weight : UInt32 := 1
  cost : UInt32 := 100
  deriving DecidableEq, Repr, Inhabited

structure CandidateSpec where
  name : String
  weight : Option UInt32 := none
  cost : Option UInt32 := none
  deriving DecidableEq, Repr, Inhabited

structure RouterConfig where
  providers : List (String × ProviderRouting) := []

namespace RouterConfig

def withDefaults : RouterConfig where
  providers := [("gemini", ⟨1, 30⟩), ("openai", ⟨1, 50⟩), ("azure_openai", ⟨1, 55⟩),
    ("anthropic", ⟨1, 80⟩)]

/-- The routing metadata of a provider; an unknown one is neutral. -/
def get (c : RouterConfig) (provider : String) : ProviderRouting :=
  (c.providers.lookup provider).getD {}

/-- The weight a draw uses: the override, else the default, never zero. -/
def effectiveWeight (c : RouterConfig) (s : CandidateSpec) : ℕ :=
  max (s.weight.getD (c.get s.name).weight).toNat 1

def effectiveCost (c : RouterConfig) (s : CandidateSpec) : ℕ :=
  (s.cost.getD (c.get s.name).cost).toNat

end RouterConfig

structure Router where
  config : RouterConfig := .withDefaults
  rrCursor : ℕ := 0

/-- Keep the candidates that may be admitted, healing each one asked about. -/
def keepAvailable {α : Type} (owner : String) (now : ℕ) (name : α → String) :
    HealthTracker → List α → List α × HealthTracker
  | h, [] => ([], h)
  | h, x :: xs =>
    let (ok, h) := h.isAvailable owner (name x) now
    let (rest, h) := keepAvailable owner now name h xs
    (if ok then x :: rest else rest, h)

/-- A stable sort by a numeric key. -/
def sortByKey {α : Type} (key : α → ℕ) (l : List α) : List α :=
  l.mergeSort fun a b => key a ≤ key b

namespace Router

variable {α β : Type}

/-- Rotate to the candidate at `cursor mod len`; a list of at most one is left alone. -/
def roundRobinOrder (r : Router) (live : List α) : List α × Router :=
  if live.length ≤ 1 then (live, r)
  else
    (live.rotateLeft (r.rrCursor % live.length),
      { r with rrCursor := (r.rrCursor + 1) % 2 ^ 64 })

/-- The optimistic latency key: an untried provider sorts first. -/
def latencyKey (h : HealthTracker) (owner name : String) : ℕ :=
  match h.latencyMs owner name with
  | some ms => ms + 1
  | none => 0

/-- Order the surviving candidates by the strategy. -/
def orderBy (r : Router) (owner : String) (strategy : RoutingStrategy) (h : HealthTracker)
    (rng : Rng) (spec : α → CandidateSpec) (live : List α) : List α × Router :=
  match strategy with
  | .priority => (live, r)
  | .cost => (sortByKey (fun x => r.config.effectiveCost (spec x)) live, r)
  | .latency => (sortByKey (fun x => latencyKey h owner (spec x).name) live, r)
  | .weighted =>
    ((Weighted.weightedOrder (fun x => r.config.effectiveWeight (spec x)) rng live).1, r)
  | .roundRobin => r.roundRobinOrder live
  | .leastBusy => (sortByKey (fun x => h.inFlight owner (spec x).name) live, r)

/-- Drop the candidates whose circuit refuses them, then order the rest. -/
def orderLive (r : Router) (owner : String) (strategy : RoutingStrategy) (h : HealthTracker)
    (now : ℕ) (rng : Rng) (spec : α → CandidateSpec) (specs : List α) :
    List α × Router × HealthTracker :=
  let (live, h) := keepAvailable owner now (fun x => (spec x).name) h specs
  let (ordered, r) := r.orderBy owner strategy h rng spec live
  (ordered, r, h)

/-- The attempt order, as provider names. -/
def orderCandidatesWithSpecsRng (r : Router) (owner : String) (specs : List CandidateSpec)
    (strategy : RoutingStrategy) (h : HealthTracker) (now : ℕ) (rng : Rng) :
    List String × Router × HealthTracker :=
  let (ordered, r, h) := r.orderLive owner strategy h now rng id specs
  (ordered.map (·.name), r, h)

/-- The process seeds the draw from the wall clock's nanoseconds. -/
def orderCandidatesWithSpecs (r : Router) (owner : String) (specs : List CandidateSpec)
    (strategy : RoutingStrategy) (h : HealthTracker) (now : ℕ) (nanos : BitVec 64) :
    List String × Router × HealthTracker :=
  r.orderCandidatesWithSpecsRng owner specs strategy h now (Rng.seeded nanos)

end Router

section KeepAvailable

variable {α β : Type} {owner : String} {now : ℕ}

attribute [local simp] keepAvailable

theorem keepAvailable_health (name : α → String) (o p : String) :
    ∀ (xs : List α) (h : HealthTracker),
    (keepAvailable owner now name h xs).2.admits o p now = h.admits o p now ∧
      (keepAvailable owner now name h xs).2.latencyMs o p = h.latencyMs o p ∧
      (keepAvailable owner now name h xs).2.inFlight o p = h.inFlight o p
  | [], h => ⟨rfl, rfl, rfl⟩
  | x :: xs, h => by
    obtain ⟨h1, h2, h3⟩ :=
      keepAvailable_health name o p xs (h.isAvailable owner (name x) now).2
    exact ⟨by simpa [keepAvailable] using h1, by simpa [keepAvailable] using h2,
      by simpa [keepAvailable] using h3⟩

/-- **The survivors are the candidates the tracker admits**, in the order given. -/
theorem keepAvailable_fst (name : α → String) : ∀ (xs : List α) (h : HealthTracker),
    (keepAvailable owner now name h xs).1 = xs.filter (fun x => h.admits owner (name x) now)
  | [], _ => rfl
  | x :: xs, h => by
    have ih := keepAvailable_fst name xs (h.isAvailable owner (name x) now).2
    simp only [HealthTracker.admits_isAvailable] at ih
    simp only [keepAvailable, ih, List.filter_cons]
    rfl

theorem keepAvailable_map (f : β → α) (name : α → String) : ∀ (xs : List β) (h : HealthTracker),
    keepAvailable owner now name h (xs.map f) =
      ((keepAvailable owner now (name ∘ f) h xs).1.map f,
        (keepAvailable owner now (name ∘ f) h xs).2)
  | [], _ => rfl
  | x :: xs, h => by
    simp only [List.map_cons, keepAvailable, Function.comp_apply]
    rw [keepAvailable_map f name xs]
    refine Prod.ext ?_ rfl
    simp only
    split <;> rfl

end KeepAvailable

theorem sortByKey_perm {α : Type} (key : α → ℕ) (l : List α) : (sortByKey key l).Perm l :=
  List.mergeSort_perm l _

theorem sortByKey_map {α β : Type} (f : β → α) (key : α → ℕ) (l : List β) :
    sortByKey key (l.map f) = (sortByKey (key ∘ f) l).map f := by
  rw [sortByKey, sortByKey, List.map_mergeSort]
  intro a _ b _
  rfl

/-- A stable sort keeps a class in order iff the class was sorted. -/
theorem filter_sortByKey_eq_iff {α : Type} (key : α → ℕ) (p : α → Bool) (l : List α) :
    (sortByKey key l).filter p = l.filter p ↔
      (l.filter p).Pairwise (fun a b => key a ≤ key b) := by
  rw [sortByKey, filter_mergeSort_eq_iff]
  · simp only [decide_eq_true_eq]
  · intro a b c hab hbc
    simp only [decide_eq_true_eq] at hab hbc ⊢
    omega
  · intro a b
    simp only [Bool.or_eq_true, decide_eq_true_eq]
    omega

namespace Router

variable {α β : Type} (r : Router) (owner : String) (strategy : RoutingStrategy)
  (h : HealthTracker) (now : ℕ) (rng : Rng)

theorem rotateLeft_perm (l : List α) (k : ℕ) : (l.rotateLeft k).Perm l := by
  rw [List.rotateLeft]
  split
  · exact .refl _
  · exact List.perm_append_comm.trans (by rw [List.take_append_drop])

theorem orderBy_perm (spec : α → CandidateSpec) (live : List α) :
    (r.orderBy owner strategy h rng spec live).1.Perm live := by
  cases strategy with
  | priority => exact .refl _
  | weighted => exact Weighted.weightedOrder_perm _ rng live
  | cost => exact sortByKey_perm _ live
  | latency => exact sortByKey_perm _ live
  | roundRobin =>
    rw [orderBy, roundRobinOrder]
    split
    · exact .refl _
    · exact rotateLeft_perm live _
  | leastBusy => exact sortByKey_perm _ live

theorem map_rotateLeft (f : β → α) (l : List β) (k : ℕ) :
    (l.map f).rotateLeft k = (l.rotateLeft k).map f := by
  simp only [List.rotateLeft, List.length_map]
  split
  · rfl
  · simp [List.map_take, List.map_drop]

theorem orderBy_map (f : β → α) (spec : α → CandidateSpec) (live : List β) :
    r.orderBy owner strategy h rng spec (live.map f) =
      ((r.orderBy owner strategy h rng (spec ∘ f) live).1.map f,
        (r.orderBy owner strategy h rng (spec ∘ f) live).2) := by
  cases strategy with
  | priority => rfl
  | weighted =>
    simp only [orderBy]
    rw [Weighted.weightedOrder_map]
    rfl
  | cost => simp only [orderBy]; rw [sortByKey_map]; rfl
  | latency => simp only [orderBy]; rw [sortByKey_map]; rfl
  | roundRobin =>
    simp only [orderBy, roundRobinOrder, List.length_map, map_rotateLeft]
    split <;> rfl
  | leastBusy => simp only [orderBy]; rw [sortByKey_map]; rfl

/-- **Every strategy orders exactly the available candidates.** -/
theorem orderLive_perm (spec : α → CandidateSpec) (specs : List α) :
    (r.orderLive owner strategy h now rng spec specs).1.Perm
      (specs.filter fun x => h.admits owner (spec x).name now) := by
  rw [← keepAvailable_fst (fun x => (spec x).name)]
  exact orderBy_perm _ _ _ _ _ _ _

/-- **Ordering commutes with reading the specs off richer elements.** -/
theorem orderLive_map (f : β → α) (spec : α → CandidateSpec) (specs : List β) :
    r.orderLive owner strategy h now rng spec (specs.map f) =
      ((r.orderLive owner strategy h now rng (spec ∘ f) specs).1.map f,
        (r.orderLive owner strategy h now rng (spec ∘ f) specs).2) := by
  simp only [orderLive]
  rw [keepAvailable_map]
  simp only [orderBy_map]
  rfl

end Router

end Routeplane
