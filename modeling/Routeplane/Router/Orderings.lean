import Routeplane.Router.Strategy
import Routeplane.Lib.Turns

/-!
# The two candidate orderings

The router has two ways in: a plain list of provider names, and a list of specs whose
overrides come before the routing config. The source writes them out side by side and they
share only the rotation. Both are given here with everything they leave behind: the router
with its cursor, the health tracker with the circuits it healed, the generator.

* `orderSpecs_plain`: specs without an override are ordered as their names are.
* `orderNames_perm`, `orderSpecs_perm`: both order exactly the available candidates.
* `orders_eq`: successive rotations are led by successive turns of the cursor.
-/

namespace Routeplane

open SplitMix

/-- A spec with no overrides. -/
def CandidateSpec.plain (name : String) : CandidateSpec := { name := name }

namespace Router

/-- The weighted draw over names, from the routing config alone. -/
def weightedOrder (r : Router) (rng : Rng) (pool : List String) : List String × Rng :=
  Weighted.weightedOrder (fun name => max (r.config.get name).weight.toNat 1) rng pool

/-- The weighted draw over specs, honouring their overrides. -/
def weightedOrderSpecs (r : Router) (rng : Rng) (pool : List CandidateSpec) :
    List CandidateSpec × Rng :=
  Weighted.weightedOrder r.config.effectiveWeight rng pool

/-- The attempt order over plain names, with an injected generator. -/
def orderCandidatesWithRng (r : Router) (owner : String) (eligible : List String)
    (strategy : RoutingStrategy) (h : HealthTracker) (now : ℕ) (rng : Rng) :
    List String × Router × HealthTracker × Rng :=
  let (live, h) := keepAvailable owner now id h eligible
  match strategy with
  | .priority => (live, r, h, rng)
  | .cost => (sortByKey (fun name => (r.config.get name).cost.toNat) live, r, h, rng)
  | .latency => (sortByKey (fun name => latencyKey h owner name) live, r, h, rng)
  | .weighted =>
    let (live, rng) := r.weightedOrder rng live
    (live, r, h, rng)
  | .roundRobin =>
    let (live, r) := r.roundRobinOrder live
    (live, r, h, rng)
  | .leastBusy => (sortByKey (fun name => h.inFlight owner name) live, r, h, rng)

/-- The attempt order over specs, with an injected generator and what is left of it. -/
def orderSpecsWithRng (r : Router) (owner : String) (specs : List CandidateSpec)
    (strategy : RoutingStrategy) (h : HealthTracker) (now : ℕ) (rng : Rng) :
    List String × Router × HealthTracker × Rng :=
  let (live, h) := keepAvailable owner now (fun s => s.name) h specs
  let (live, r, rng) : List CandidateSpec × Router × Rng :=
    match strategy with
    | .priority => (live, r, rng)
    | .cost => (sortByKey r.config.effectiveCost live, r, rng)
    | .latency => (sortByKey (fun s => latencyKey h owner s.name) live, r, rng)
    | .weighted =>
      let (live, rng) := r.weightedOrderSpecs rng live
      (live, r, rng)
    | .roundRobin =>
      let (live, r) := r.roundRobinOrder live
      (live, r, rng)
    | .leastBusy => (sortByKey (fun s => h.inFlight owner s.name) live, r, rng)
  (live.map (·.name), r, h, rng)

section Agreement

variable (r : Router) (owner : String) (strategy : RoutingStrategy) (h : HealthTracker)
  (now : ℕ) (rng : Rng)

/-- The generator aside, this is the ordering the rest of the model uses. -/
theorem orderSpecsWithRng_fst (specs : List CandidateSpec) :
    ((r.orderSpecsWithRng owner specs strategy h now rng).1,
      (r.orderSpecsWithRng owner specs strategy h now rng).2.1,
      (r.orderSpecsWithRng owner specs strategy h now rng).2.2.1) =
      r.orderCandidatesWithSpecsRng owner specs strategy h now rng := by
  cases strategy with
  | priority => rfl
  | weighted => rfl
  | cost => rfl
  | latency => rfl
  | roundRobin => rfl
  | leastBusy => rfl

theorem roundRobinOrder_map {α β : Type} (f : β → α) (live : List β) :
    r.roundRobinOrder (live.map f) =
      ((r.roundRobinOrder live).1.map f, (r.roundRobinOrder live).2) := by
  simp only [roundRobinOrder, List.length_map, map_rotateLeft]
  split <;> rfl

/-- **Specs without an override are ordered as their names are**, and leave the same cursor,
health and generator. -/
theorem orderSpecs_plain (names : List String) :
    r.orderSpecsWithRng owner (names.map CandidateSpec.plain) strategy h now rng =
      r.orderCandidatesWithRng owner names strategy h now rng := by
  have hname : (fun s : CandidateSpec => s.name) ∘ CandidateSpec.plain = id := rfl
  have hback : ∀ l : List String, (l.map CandidateSpec.plain).map (fun s => s.name) = l := by
    intro l
    rw [List.map_map, hname, List.map_id]
  unfold orderSpecsWithRng orderCandidatesWithRng
  rw [keepAvailable_map, hname]
  generalize keepAvailable owner now id h names = kept
  obtain ⟨live, healed⟩ := kept
  cases strategy with
  | priority => simp only [hback]
  | cost => simp only [sortByKey_map, hback]; rfl
  | latency => simp only [sortByKey_map, hback]; rfl
  | leastBusy => simp only [sortByKey_map, hback]; rfl
  | weighted =>
    simp only [weightedOrderSpecs, Weighted.weightedOrder_map, hback]
    rfl
  | roundRobin => simp only [roundRobinOrder_map, hback]

theorem orderSpecs_perm (specs : List CandidateSpec) :
    (r.orderSpecsWithRng owner specs strategy h now rng).1.Perm
      ((specs.filter fun s => h.admits owner s.name now).map fun s => s.name) := by
  have hfst : (r.orderSpecsWithRng owner specs strategy h now rng).1 =
      (r.orderLive owner strategy h now rng id specs).1.map fun s => s.name :=
    congrArg Prod.fst (orderSpecsWithRng_fst r owner strategy h now rng specs)
  rw [hfst]
  exact (orderLive_perm r owner strategy h now rng id specs).map _

theorem orderNames_perm (names : List String) :
    (r.orderCandidatesWithRng owner names strategy h now rng).1.Perm
      (names.filter fun name => h.admits owner name now) := by
  have hperm := orderSpecs_perm r owner strategy h now rng (names.map CandidateSpec.plain)
  have hname : (fun s : CandidateSpec => s.name) ∘ CandidateSpec.plain = id := rfl
  rw [orderSpecs_plain, List.filter_map, List.map_map, hname, List.map_id] at hperm
  exact hperm

/-- So do the entry points that seed the generator from the clock, on the same reading. -/
theorem orderSeeded_plain (names : List String) (nanos : BitVec 64) :
    r.orderCandidatesWithSpecs owner (names.map CandidateSpec.plain) strategy h now nanos =
      ((r.orderCandidatesWithRng owner names strategy h now (Rng.seeded nanos)).1,
        (r.orderCandidatesWithRng owner names strategy h now (Rng.seeded nanos)).2.1,
        (r.orderCandidatesWithRng owner names strategy h now (Rng.seeded nanos)).2.2.1) := by
  rw [orderCandidatesWithSpecs, ← orderSpecsWithRng_fst, orderSpecs_plain]

end Agreement

end Router

/-! ## Runs of orderings -/

/-- What an ordering is asked about: names or specs. -/
inductive Candidates
  | names (eligible : List String)
  | specs (specs : List CandidateSpec)

/-- One ordering: who asks, about what, and the health, clock and generator it finds. -/
structure Ordering where
  owner : String
  candidates : Candidates
  health : HealthTracker
  now : ℕ
  rng : Rng

namespace Ordering

/-- The candidates whose circuit admits them, in the order given. -/
def available (o : Ordering) : List String :=
  match o.candidates with
  | .names eligible => eligible.filter fun name => o.health.admits o.owner name o.now
  | .specs specs => (specs.filter fun s => o.health.admits o.owner s.name o.now).map fun s => s.name

def run (o : Ordering) (strategy : RoutingStrategy) (r : Router) :
    List String × Router × HealthTracker × Rng :=
  match o.candidates with
  | .names eligible => r.orderCandidatesWithRng o.owner eligible strategy o.health o.now o.rng
  | .specs specs => r.orderSpecsWithRng o.owner specs strategy o.health o.now o.rng

/-- Under round robin either way in rotates the available candidates. -/
theorem run_roundRobin (o : Ordering) (r : Router) :
    (o.run .roundRobin r).1 = (r.roundRobinOrder o.available).1 ∧
      (o.run .roundRobin r).2.1 = (r.roundRobinOrder o.available).2 := by
  obtain ⟨owner, candidates, h, now, rng⟩ := o
  cases candidates with
  | names eligible =>
    have hlive : (keepAvailable owner now id h eligible).1 = _ := keepAvailable_fst id eligible h
    simp only [run, Router.orderCandidatesWithRng, available, hlive, id_eq, and_self]
  | specs specs =>
    have hlive : (keepAvailable owner now (fun s => s.name) h specs).1 = _ :=
      keepAvailable_fst (fun s => s.name) specs h
    simp only [run, Router.orderSpecsWithRng, available, hlive, Router.roundRobinOrder_map,
      and_self]

end Ordering

namespace Router

open Turns

/-- The orders of successive round-robin orderings; the cursor passes from one to the next,
whatever else happened to the health in between. -/
def orders (r : Router) : List Ordering → List (List String)
  | [] => []
  | o :: os => (o.run .roundRobin r).1 :: orders (o.run .roundRobin r).2.1 os

/-- How often an order is led by `name`. -/
def timesFirst (name : String) (orders : List (List String)) : ℕ :=
  orders.countP fun order => order.head? == some name

theorem roundRobinOrder_lead (r : Router) (hr : r.rrCursor < 2 ^ 64) (live : List String) :
    (r.roundRobinOrder live).1 =
      live.rotateLeft (turn (2 ^ 64) live.length r.rrCursor 0) := by
  rw [turn, Nat.add_zero, Nat.mod_eq_of_lt hr, roundRobinOrder]
  split
  next hshort => rw [List.rotateLeft, if_pos hshort]
  next => rfl

/-- The next turn from the cursor an ordering leaves is the turn after its own. -/
theorem rotateLeft_turn_succ (r : Router) (live : List String) (k : ℕ) :
    live.rotateLeft (turn (2 ^ 64) live.length (r.roundRobinOrder live).2.rrCursor k) =
      live.rotateLeft (turn (2 ^ 64) live.length r.rrCursor (k + 1)) := by
  rw [roundRobinOrder]
  split
  next hshort => rw [List.rotateLeft, List.rotateLeft, if_pos hshort, if_pos hshort]
  next =>
    have hadd : ((r.rrCursor + 1) % 2 ^ 64 + k) % 2 ^ 64 = (r.rrCursor + (k + 1)) % 2 ^ 64 := by
      omega
    simp only [turn, hadd]

theorem roundRobinOrder_cursor_lt (r : Router) (hr : r.rrCursor < 2 ^ 64) (live : List String) :
    (r.roundRobinOrder live).2.rrCursor < 2 ^ 64 := by
  rw [roundRobinOrder]
  split
  · exact hr
  · exact Nat.mod_lt _ (Nat.two_pow_pos 64)

/-- **Successive orderings of the same candidates are led by successive turns.** -/
theorem orders_eq (live : List String) :
    ∀ (os : List Ordering) (r : Router), r.rrCursor < 2 ^ 64 → (∀ o ∈ os, o.available = live) →
      r.orders os = (List.range os.length).map fun k =>
        live.rotateLeft (turn (2 ^ 64) live.length r.rrCursor k)
  | [], _, _, _ => rfl
  | o :: os, r, hr, hlive => by
    obtain ⟨horder, hnext⟩ := o.run_roundRobin r
    rw [hlive o (by simp)] at horder hnext
    have ih := orders_eq live os (r.roundRobinOrder live).2 (r.roundRobinOrder_cursor_lt hr live)
      (fun o' ho' => hlive o' (List.mem_cons_of_mem _ ho'))
    rw [orders, horder, hnext, ih, roundRobinOrder_lead r hr, List.length_cons,
      List.range_succ_eq_map, List.map_cons, List.map_map]
    congr 1
    refine List.map_congr_left fun k _ => ?_
    exact rotateLeft_turn_succ r live k

theorem head_rotateLeft {live : List String} {i : ℕ} (hi : i < live.length) :
    (live.rotateLeft i).head? = some live[i] := by
  rw [List.rotateLeft]
  split
  next hshort =>
    obtain ⟨x, rfl⟩ : ∃ x, live = [x] := List.length_eq_one_iff.1 (by omega)
    obtain rfl : i = 0 := by simpa using hi
    rfl
  next =>
    dsimp only
    rw [Nat.mod_eq_of_lt hi, List.drop_eq_getElem_cons hi]
    rfl

/-- Among distinct candidates, the one at position `j` leads as often as its turn comes. -/
theorem timesFirst_eq {live : List String} (hnodup : live.Nodup) {start j : ℕ}
    (hj : j < live.length) (N : ℕ) :
    timesFirst live[j] ((List.range N).map fun k =>
      live.rotateLeft (turn (2 ^ 64) live.length start k)) =
      turns (2 ^ 64) live.length start N j := by
  rw [timesFirst, List.countP_map, turns]
  induction N with
  | zero => rfl
  | succ N ih =>
    have hturn : turn (2 ^ 64) live.length start N < live.length := Nat.mod_lt _ (by omega)
    rw [List.range_succ, List.countP_append, ih, Nat.count_succ, List.countP_singleton]
    simp only [Function.comp_apply, head_rotateLeft hturn, beq_iff_eq, Option.some.injEq,
      hnodup.getElem_inj_iff]

end Router

end Routeplane
