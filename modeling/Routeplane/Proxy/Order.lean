import Routeplane.Policy.Config
import Routeplane.Router.Strategy

/-!
# From the router's order to the dispatched order

The router orders candidate specs and returns provider names; the proxy looks its plans
up by name again, each time taking the first plan left. With one plan per provider this
is the router's order. With several it is the router's order of *names* only.

* `orderTargets_perm`: the available plans are dispatched once each, no other.
* `orderTargets_eq_iff`: one order is kept iff the plans of each provider stay in place.
* `OrderKept`: the condition on strategy and targets under which that holds for every draw.
-/

namespace Routeplane

open SplitMix FirstMatch

/-- The candidate the router sees of a plan. -/
def TargetPlan.spec (t : TargetPlan) : CandidateSpec := ⟨t.provider, t.weight, t.cost⟩

/-- Reassemble the ordered names into plans, each the first one left of its provider. -/
def reorderTargets (targets : List TargetPlan) (orderedNames : List String) : List TargetPlan :=
  reassoc TargetPlan.provider targets orderedNames

section

variable (r : Router) (owner : String) (strategy : RoutingStrategy) (h : HealthTracker) (now : ℕ)
  (nanos : BitVec 64) (targets : List TargetPlan)

/-- The plans in the order they are dispatched. -/
def orderTargets : List TargetPlan × Router × HealthTracker :=
  let specs := targets.map TargetPlan.spec
  let (orderedNames, r, h) := r.orderCandidatesWithSpecs owner specs strategy h now nanos
  (reorderTargets targets orderedNames, r, h)

/-- The plans in the order the router placed their specs. -/
def placedTargets : List TargetPlan :=
  (r.orderLive owner strategy h now (Rng.seeded nanos) TargetPlan.spec targets).1

/-- A plan whose provider the health tracker admits. -/
def live : List TargetPlan := targets.filter fun t => h.admits owner t.provider now

/-- Following the plans through the router gives the specs it placed. -/
theorem placedTargets_spec :
    (placedTargets r owner strategy h now nanos targets).map TargetPlan.spec =
      (r.orderLive owner strategy h now (Rng.seeded nanos) id (targets.map TargetPlan.spec)).1 := by
  rw [Router.orderLive_map]
  rfl

theorem placedTargets_perm :
    (placedTargets r owner strategy h now nanos targets).Perm (live owner h now targets) :=
  r.orderLive_perm owner strategy h now _ TargetPlan.spec targets

/-- The plans dispatched are looked up among the live ones by the names placed. -/
theorem orderTargets_fst : (orderTargets r owner strategy h now nanos targets).1 =
    reassoc TargetPlan.provider (live owner h now targets)
      ((placedTargets r owner strategy h now nanos targets).map TargetPlan.provider) := by
  have hnames :
      (r.orderCandidatesWithSpecs owner (targets.map TargetPlan.spec) strategy h now nanos).1 =
        (placedTargets r owner strategy h now nanos targets).map TargetPlan.provider := by
    have hspec := placedTargets_spec r owner strategy h now nanos targets
    have hname := congrArg (List.map CandidateSpec.name) hspec
    rw [List.map_map] at hname
    exact hname.symm
  change reassoc _ targets (r.orderCandidatesWithSpecs owner _ strategy h now nanos).1 = _
  rw [hnames]
  refine reassoc_filter (P := fun p => h.admits owner p now) _ (fun k hk => ?_) targets
  obtain ⟨t, ht, rfl⟩ := List.mem_map.1 hk
  have := (placedTargets_perm r owner strategy h now nanos targets).mem_iff.1 ht
  simpa using (List.mem_filter.1 this).2

/-- **Each available plan is dispatched once, no other is.** -/
theorem orderTargets_perm :
    (orderTargets r owner strategy h now nanos targets).1.Perm (live owner h now targets) := by
  rw [orderTargets_fst]
  exact reassoc_perm (placedTargets_perm r owner strategy h now nanos targets)

/-- **The placed order is dispatched iff it keeps the plans of each provider in place.** -/
theorem orderTargets_eq_iff : (orderTargets r owner strategy h now nanos targets).1 =
      placedTargets r owner strategy h now nanos targets ↔
    ∀ p, ofKey TargetPlan.provider p (placedTargets r owner strategy h now nanos targets) =
      ofKey TargetPlan.provider p (live owner h now targets) := by
  rw [orderTargets_fst]
  exact reassoc_eq_iff (placedTargets_perm r owner strategy h now nanos targets)

end

/-! ## When every draw keeps the order -/

/-- What strategy and targets must satisfy for the dispatched order to be the router's,
whatever the random state: cheaper plans of a provider are listed first under `cost`, and a
provider's plans are interchangeable under the strategies that draw or rotate. -/
def OrderKept (config : RouterConfig) (owner : String) (strategy : RoutingStrategy)
    (h : HealthTracker) (now : ℕ) (targets : List TargetPlan) : Prop :=
  match strategy with
  | .priority | .latency | .leastBusy => True
  | .cost => (live owner h now targets).Pairwise fun a b =>
      a.provider = b.provider → config.effectiveCost a.spec ≤ config.effectiveCost b.spec
  | .weighted | .roundRobin => ∀ a ∈ live owner h now targets, ∀ b ∈ live owner h now targets,
      a.provider = b.provider → a = b

/-- The order by the strategy alone, once the live plans are known. -/
theorem placedTargets_eq (r : Router) (owner : String) (strategy : RoutingStrategy)
    (h : HealthTracker) (now : ℕ) (nanos : BitVec 64) (targets : List TargetPlan) :
    ∃ h', (∀ p, h'.latencyMs owner p = h.latencyMs owner p ∧
        h'.inFlight owner p = h.inFlight owner p) ∧
      placedTargets r owner strategy h now nanos targets =
        (r.orderBy owner strategy h' (Rng.seeded nanos) TargetPlan.spec
          (live owner h now targets)).1 := by
  refine ⟨(keepAvailable owner now (fun t => (TargetPlan.spec t).name) h targets).2,
    fun p => ⟨(keepAvailable_health _ owner p targets h).2.1,
      (keepAvailable_health _ owner p targets h).2.2⟩, ?_⟩
  rw [placedTargets, Router.orderLive]
  simp only [keepAvailable_fst]
  rfl

/-- A permutation of interchangeable plans keeps each provider's plans in place. -/
theorem ofKey_eq_of_perm {l l' : List TargetPlan} (hp : l'.Perm l)
    (heq : ∀ a ∈ l, ∀ b ∈ l, a.provider = b.provider → a = b) (p : String) :
    ofKey TargetPlan.provider p l' = ofKey TargetPlan.provider p l := by
  have hperm : (ofKey TargetPlan.provider p l').Perm (ofKey TargetPlan.provider p l) :=
    perm_ofKey p hp
  cases hl : ofKey TargetPlan.provider p l with
  | nil => rw [hl] at hperm; exact hperm.eq_nil
  | cons x xs =>
    obtain ⟨hx, hxp⟩ := mem_ofKey.1 (hl ▸ List.mem_cons_self : x ∈ ofKey TargetPlan.provider p l)
    have hall : ∀ y ∈ x :: xs, y = x := fun y hy => by
      obtain ⟨hy, hyp⟩ := mem_ofKey.1 (hl ▸ hy)
      exact heq y hy x hx (hyp.trans hxp.symm)
    rw [hl] at hperm
    rw [List.eq_replicate_of_mem (fun y hy => hall y (hperm.mem_iff.1 hy)),
      List.eq_replicate_of_mem hall, hperm.length_eq]

/-- Sorting by what a plan's provider alone decides keeps each provider's plans in place. -/
theorem ofKey_sortByKey (key : String → ℕ) (l : List TargetPlan) (p : String) :
    ofKey TargetPlan.provider p (sortByKey (fun t => key t.provider) l) =
      ofKey TargetPlan.provider p l := by
  refine (filter_sortByKey_eq_iff (fun t : TargetPlan => key t.provider)
    (fun t => decide (t.provider = p)) l).2 ?_
  refine List.pairwise_of_forall_mem_list fun a ha b hb => ?_
  obtain ⟨-, hap⟩ := List.mem_filter.1 ha
  obtain ⟨-, hbp⟩ := List.mem_filter.1 hb
  rw [of_decide_eq_true hap, of_decide_eq_true hbp]

theorem pairwise_provider_iff {R : TargetPlan → TargetPlan → Prop} (l : List TargetPlan) :
    l.Pairwise (fun a b => a.provider = b.provider → R a b) ↔
      ∀ p, (ofKey TargetPlan.provider p l).Pairwise R := by
  constructor
  · intro hl p
    refine (List.Pairwise.filter _ hl).imp_of_mem fun ha hb hab => ?_
    obtain ⟨-, hap⟩ := List.mem_filter.1 ha
    obtain ⟨-, hbp⟩ := List.mem_filter.1 hb
    exact hab ((of_decide_eq_true hap).trans (of_decide_eq_true hbp).symm)
  · intro hl
    induction l with
    | nil => exact .nil
    | cons x l ih =>
      refine List.pairwise_cons.2 ⟨fun y hy hxy => ?_, ih fun p => ?_⟩
      · have := hl x.provider
        rw [ofKey_cons, if_pos rfl] at this
        exact (List.pairwise_cons.1 this).1 y (mem_ofKey.2 ⟨hy, hxy.symm⟩)
      · have := hl p
        rw [ofKey_cons] at this
        split at this
        · exact this.of_cons
        · exact this

/-- If any live plan can come first, the plans of a provider are interchangeable. -/
theorem eq_of_first {l : List TargetPlan}
    (hfirst : ∀ j (hj : j < l.length), ∃ rest,
      ofKey TargetPlan.provider l[j].provider l = l[j] :: rest) :
    ∀ a ∈ l, ∀ b ∈ l, a.provider = b.provider → a = b := by
  intro a ha b hb hab
  obtain ⟨i, hi, rfl⟩ := List.getElem_of_mem ha
  obtain ⟨j, hj, rfl⟩ := List.getElem_of_mem hb
  obtain ⟨s, hs⟩ := hfirst i hi
  obtain ⟨t, ht⟩ := hfirst j hj
  rw [hab, ht] at hs
  exact (List.cons.inj hs).1.symm

end Routeplane
