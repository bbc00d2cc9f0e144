import Routeplane.Endpoints.Slice
import Routeplane.Proxy.Order
import Routeplane.Router.Orderings
import Mathlib.Algebra.Order.Ring.Nat
import Mathlib.Algebra.Group.Action.Defs

/-!
# The dispatched order

A spec list without overrides and the list of its names are ordered alike and leave the
same cursor, health and generator; both orders are permutations of the available
candidates. Under round robin `N` orderings in a row over the same `n` candidates are led
by successive turns of a cursor kept in 64 bits. Away from its wrap every candidate leads
`⌊N/n⌋` or `⌈N/n⌉` times. Across the wrap the turns start over at the first candidate,
wherever they had come to: unless `n` divides `2 ^ 64` the shares can then differ by two.

* `orderTargets_placed_iff`: for the targets a config can yield, the plans are dispatched
  in the router's order for every draw and cursor iff `OrderKept`.
* `orderTargets_misplaced`: a cheap plan listed after an expensive one of its provider is
  ordered first and dispatched second.
-/

namespace Routeplane

open SplitMix FirstMatch

variable {config : RouterConfig} {owner : String} {strategy : RoutingStrategy} {h : HealthTracker}
  {now : ℕ} {targets : List TargetPlan}

/-- The plans leave in the order the router placed them, each live one once. -/
structure DispatchedAsPlaced (r : Router) (owner : String) (strategy : RoutingStrategy)
    (h : HealthTracker) (now : ℕ) (nanos : BitVec 64) (targets : List TargetPlan) : Prop where
  same : ∀ i : ℕ, (orderTargets r owner strategy h now nanos targets).1[i]? =
    (placedTargets r owner strategy h now nanos targets)[i]?
  once : (orderTargets r owner strategy h now nanos targets).1.Perm (live owner h now targets)

theorem dispatchedAsPlaced_iff {r : Router} {nanos : BitVec 64} :
    DispatchedAsPlaced r owner strategy h now nanos targets ↔
      ∀ p, ofKey TargetPlan.provider p (placedTargets r owner strategy h now nanos targets) =
        ofKey TargetPlan.provider p (live owner h now targets) := by
  rw [← orderTargets_eq_iff]
  exact ⟨fun hd => List.ext_getElem? hd.same,
    fun he => ⟨fun i => by rw [he], orderTargets_perm r owner strategy h now nanos targets⟩⟩

/-- `OrderKept` suffices, for any list and any random state. -/
theorem ofKey_placedTargets (hkept : OrderKept config owner strategy h now targets) (cursor : ℕ)
    (nanos : BitVec 64) (p : String) :
    ofKey TargetPlan.provider p (placedTargets ⟨config, cursor⟩ owner strategy h now nanos targets) =
      ofKey TargetPlan.provider p (live owner h now targets) := by
  obtain ⟨h', hh', he⟩ := placedTargets_eq ⟨config, cursor⟩ owner strategy h now nanos targets
  have hperm := placedTargets_perm ⟨config, cursor⟩ owner strategy h now nanos targets
  cases strategy with
  | priority => rw [he]; rfl
  | weighted => exact ofKey_eq_of_perm hperm hkept p
  | roundRobin => exact ofKey_eq_of_perm hperm hkept p
  | latency => rw [he]; exact ofKey_sortByKey (fun q => Router.latencyKey h' owner q) _ p
  | leastBusy => rw [he]; exact ofKey_sortByKey (fun q => h'.inFlight owner q) _ p
  | cost =>
    rw [he]
    exact (filter_sortByKey_eq_iff _ _ _).2 ((pairwise_provider_iff _).1 hkept p)

/-- The weights of a config's targets never overflow a word. -/
theorem sum_weights_lt (hlen : targets.length ≤ maxFlattenedTargets) (j : ℕ) :
    (((live owner h now targets).take j).map
      fun t => config.effectiveWeight t.spec).sum < 2 ^ 64 := by
  have hle : ∀ w ∈ ((live owner h now targets).take j).map fun t => config.effectiveWeight t.spec,
      w ≤ 2 ^ 32 := by
    intro w hw
    obtain ⟨t, -, rfl⟩ := List.mem_map.1 hw
    have := (t.spec.weight.getD (config.get t.spec.name).weight).toNat_lt
    rw [RouterConfig.effectiveWeight]
    omega
  have hsum := List.sum_le_card_nsmul _ _ hle
  have hcard : ((live owner h now targets).take j).length ≤ 32 :=
    (List.length_take_le' _ _).trans ((List.length_filter_le _ _).trans hlen)
  rw [List.length_map, smul_eq_mul] at hsum
  omega

/-- Under a draw or a rotation any live plan can be placed first. -/
theorem exists_first (config : RouterConfig) (hs : strategy = .weighted ∨ strategy = .roundRobin)
    (hlen : targets.length ≤ maxFlattenedTargets) {j : ℕ}
    (hj : j < (live owner h now targets).length) : ∃ nanos cursor rest,
      placedTargets ⟨config, cursor⟩ owner strategy h now nanos targets =
        (live owner h now targets)[j] :: rest := by
  rcases hs with rfl | rfl
  · obtain ⟨seed, rest, hrest⟩ := Weighted.exists_seed_first
      (fun t : TargetPlan => config.effectiveWeight t.spec) hj
      (by simp only [RouterConfig.effectiveWeight]; omega) (sum_weights_lt hlen j)
    obtain ⟨h', -, he⟩ := placedTargets_eq ⟨config, 0⟩ owner .weighted h now seed targets
    exact ⟨seed, 0, rest, he.trans hrest⟩
  · obtain ⟨h', -, he⟩ := placedTargets_eq ⟨config, j⟩ owner .roundRobin h now 0 targets
    rw [Router.orderBy, Router.roundRobinOrder] at he
    by_cases hone : (live owner h now targets).length ≤ 1
    · rw [if_pos hone] at he
      obtain rfl : j = 0 := by omega
      exact ⟨0, 0, (live owner h now targets).drop 1, he.trans (by
        rw [← List.drop_eq_getElem_cons hj, List.drop_zero])⟩
    · rw [if_neg hone, List.rotateLeft, if_neg hone, Nat.mod_mod, Nat.mod_eq_of_lt hj] at he
      simp only [List.drop_eq_getElem_cons hj, List.cons_append] at he
      exact ⟨0, j, _, he⟩

/-- `OrderKept` is necessary. -/
theorem orderKept_of_dispatched (hlen : targets.length ≤ maxFlattenedTargets)
    (hall : ∀ nanos cursor,
      DispatchedAsPlaced ⟨config, cursor⟩ owner strategy h now nanos targets) :
    OrderKept config owner strategy h now targets := by
  simp only [dispatchedAsPlaced_iff] at hall
  have hfirst : strategy = .weighted ∨ strategy = .roundRobin →
      ∀ j (hj : j < (live owner h now targets).length), ∃ rest,
        ofKey TargetPlan.provider (live owner h now targets)[j].provider (live owner h now targets) =
          (live owner h now targets)[j] :: rest := by
    intro hs j hj
    obtain ⟨nanos, cursor, rest, hrest⟩ := exists_first config hs hlen hj
    refine ⟨ofKey TargetPlan.provider (live owner h now targets)[j].provider rest, ?_⟩
    rw [← hall nanos cursor, hrest, ofKey_cons, if_pos rfl]
  cases strategy with
  | priority => trivial
  | latency => trivial
  | leastBusy => trivial
  | weighted => exact eq_of_first (hfirst (.inl rfl))
  | roundRobin => exact eq_of_first (hfirst (.inr rfl))
  | cost =>
    refine (pairwise_provider_iff (R := fun a b =>
      config.effectiveCost a.spec ≤ config.effectiveCost b.spec) _).2 fun p => ?_
    obtain ⟨h', -, he⟩ := placedTargets_eq ⟨config, 0⟩ owner .cost h now 0 targets
    have := hall 0 0 p
    rw [he] at this
    exact (filter_sortByKey_eq_iff _ _ _).1 this

/-- **The router's order is the order dispatched iff `OrderKept`.** For the targets a config
can yield, over every draw of the clock and every state of the rotation cursor. -/
theorem orderTargets_placed_iff (hlen : targets.length ≤ maxFlattenedTargets) :
    (∀ nanos cursor, DispatchedAsPlaced ⟨config, cursor⟩ owner strategy h now nanos targets) ↔
      OrderKept config owner strategy h now targets :=
  ⟨orderKept_of_dispatched hlen,
    fun hkept nanos cursor => dispatchedAsPlaced_iff.2 (ofKey_placedTargets hkept cursor nanos)⟩

/-- Two plans of one provider, the expensive one listed first. -/
def twoCosts : List TargetPlan :=
  [{ provider := "openai", cost := some 90 }, { provider := "openai", cost := some 10 }]

/-- A tracker that has seen no traffic. -/
def freshHealth : HealthTracker := .new ["openai"] fun _ _ _ => 0

theorem live_freshHealth (ts : List TargetPlan) (hts : ∀ t ∈ ts, t.provider = "openai") :
    live "t1" freshHealth 0 ts = ts := by
  rw [live, List.filter_eq_self]
  intro t ht
  rw [hts t ht]
  decide

/-- Cheapest first, the two plans keep their order. -/
theorem orderTargets_placed_twoCosts :
    OrderKept .withDefaults "t1" .cost freshHealth 0 twoCosts.reverse ∧ ∀ nanos cursor,
      DispatchedAsPlaced ⟨.withDefaults, cursor⟩ "t1" .cost freshHealth 0 nanos
        twoCosts.reverse := by
  have hkept : OrderKept .withDefaults "t1" .cost freshHealth 0 twoCosts.reverse := by
    rw [OrderKept, live_freshHealth _ (by simp [twoCosts])]
    refine List.pairwise_cons.2 ⟨fun b hb _ => ?_, List.pairwise_singleton _ _⟩
    obtain rfl := List.mem_singleton.1 hb
    decide
  exact ⟨hkept, (orderTargets_placed_iff (by decide)).2 hkept⟩

/-- **A mis-association**: under `cost` the router places the cheap plan first, and the proxy
dispatches the expensive one in its place. -/
theorem orderTargets_misplaced :
    ¬ DispatchedAsPlaced ⟨.withDefaults, 0⟩ "t1" .cost freshHealth 0 0 twoCosts := by
  rw [dispatchedAsPlaced_iff]
  intro hall
  obtain ⟨h', -, he⟩ := placedTargets_eq ⟨.withDefaults, 0⟩ "t1" .cost freshHealth 0 0 twoCosts
  have hp := hall "openai"
  rw [he, live_freshHealth _ (by simp [twoCosts])] at hp
  have hsorted := (filter_sortByKey_eq_iff _ _ _).1 hp
  have hle := List.rel_of_pairwise_cons hsorted (List.mem_singleton.2 rfl)
  exact absurd hle (by decide)

end Routeplane

/-! ## The two candidate orderings agree, and the rotation is even -/

namespace Routeplane.Router

open Turns SplitMix

/-- **The endpoints' ordering is the one over names.** -/
theorem orderCandidates_eq (r : Router) (owner : String) (names : List String)
    (strategy : RoutingStrategy) (h : HealthTracker) (now : ℕ) (nanos : BitVec 64) :
    r.orderCandidates owner names strategy h now nanos =
      ((r.orderCandidatesWithRng owner names strategy h now (Rng.seeded nanos)).1,
        (r.orderCandidatesWithRng owner names strategy h now (Rng.seeded nanos)).2.1,
        (r.orderCandidatesWithRng owner names strategy h now (Rng.seeded nanos)).2.2.1) :=
  orderSeeded_plain r owner strategy h now names nanos

/-- **The two orderings agree.** With no override they give the same order, cursor, health
and generator, also through the entry points that seed the generator; each orders exactly
the available candidates; and in a run of round-robin orderings through either over the same
available candidates, these lead by turns, evenly exactly when the window is fair. -/
theorem orderings_agree (r : Router) (owner : String) (strategy : RoutingStrategy)
    (h : HealthTracker) (now : ℕ) :
    (∀ (names : List String) (rng : Rng),
      r.orderSpecsWithRng owner (names.map CandidateSpec.plain) strategy h now rng =
        r.orderCandidatesWithRng owner names strategy h now rng) ∧
    (∀ (names : List String) (nanos : BitVec 64),
      r.orderCandidatesWithSpecs owner (names.map CandidateSpec.plain) strategy h now nanos =
        ((r.orderCandidatesWithRng owner names strategy h now (Rng.seeded nanos)).1,
          (r.orderCandidatesWithRng owner names strategy h now (Rng.seeded nanos)).2.1,
          (r.orderCandidatesWithRng owner names strategy h now (Rng.seeded nanos)).2.2.1)) ∧
    (∀ (names : List String) (rng : Rng),
      (r.orderCandidatesWithRng owner names strategy h now rng).1.Perm
        (names.filter fun name => h.admits owner name now)) ∧
    (∀ (specs : List CandidateSpec) (rng : Rng),
      (r.orderSpecsWithRng owner specs strategy h now rng).1.Perm
        ((specs.filter fun s => h.admits owner s.name now).map fun s => s.name)) ∧
    ∀ (live : List String) (os : List Ordering), live ≠ [] → r.rrCursor < 2 ^ 64 →
      (∀ o ∈ os, o.available = live) →
      (r.orders os = (List.range os.length).map fun k =>
        live.rotateLeft (turn (2 ^ 64) live.length r.rrCursor k)) ∧
      ((∀ j < live.length, Share os.length live.length
          (turns (2 ^ 64) live.length r.rrCursor os.length j)) ↔
        Fair (2 ^ 64) live.length r.rrCursor os.length) ∧
      (live.Nodup →
        ((∀ name ∈ live, Share os.length live.length (timesFirst name (r.orders os))) ↔
          Fair (2 ^ 64) live.length r.rrCursor os.length)) := by
  refine ⟨fun names rng => orderSpecs_plain r owner strategy h now rng names,
    orderSeeded_plain r owner strategy h now,
    fun names rng => orderNames_perm r owner strategy h now rng names,
    fun specs rng => orderSpecs_perm r owner strategy h now rng specs, ?_⟩
  intro live os hne hr hlive
  have horders := orders_eq live os r hr hlive
  have hfair := shares_iff_fair (N := os.length) (List.length_pos_iff.2 hne) hr
  refine ⟨horders, hfair, ?_⟩
  intro hnodup
  rw [← hfair, horders]
  constructor
  · intro hshare j hj
    rw [← timesFirst_eq hnodup hj]
    exact hshare _ (List.getElem_mem hj)
  · intro hshare name hname
    obtain ⟨j, hj, rfl⟩ := List.getElem_of_mem hname
    rw [timesFirst_eq hnodup hj]
    exact hshare j hj

/-- Three providers, no health recorded, asked for through their names. -/
def threeNames : Ordering where
  owner := "acme"
  candidates := .names ["gemini", "openai", "anthropic"]
  health := default
  now := 0
  rng := Rng.seeded 0

theorem threeNames_available : threeNames.available = ["gemini", "openai", "anthropic"] := rfl

/-- Seven orderings of three candidates from cursor five: no wrap, so shares of two or three. -/
theorem seven_orderings_even :
    ∀ name ∈ ["gemini", "openai", "anthropic"],
      Share 7 3 (timesFirst name
        (Router.orders { rrCursor := 5 } (List.replicate 7 threeNames))) := by
  obtain ⟨_, _, _, _, hrun⟩ :=
    orderings_agree { rrCursor := 5 } "acme" .roundRobin default 0
  have hlive : ∀ o ∈ List.replicate 7 threeNames,
      o.available = ["gemini", "openai", "anthropic"] := by
    intro o ho
    rw [List.eq_of_mem_replicate ho]
    exact threeNames_available
  obtain ⟨_, _, heven⟩ := hrun _ (List.replicate 7 threeNames) (by decide) (by decide) hlive
  exact (heven (by decide)).2 (by decide)

/-- Two orderings across the wrap of the cursor are led by the same candidate, so that it
leads more often than two orderings among three allow. -/
theorem wrap_repeats_the_lead :
    ¬∀ (r : Router) (os : List Ordering) (live : List String), r.rrCursor < 2 ^ 64 →
      live ≠ [] → live.Nodup → (∀ o ∈ os, o.available = live) →
      ∀ name ∈ live, Share os.length live.length (timesFirst name (r.orders os)) := by
  intro hall
  have hshare := hall { rrCursor := 2 ^ 64 - 1 } [threeNames, threeNames]
    ["gemini", "openai", "anthropic"] (by decide) (by decide) (by decide)
    (by
      intro o ho
      simp only [List.mem_cons, List.not_mem_nil, or_false, or_self] at ho
      rw [ho, threeNames_available])
    "gemini" (by decide)
  have htwice : timesFirst "gemini" (Router.orders { rrCursor := 2 ^ 64 - 1 }
      [threeNames, threeNames]) = 2 := by decide
  rw [htwice] at hshare
  exact absurd hshare (by decide)

end Routeplane.Router
