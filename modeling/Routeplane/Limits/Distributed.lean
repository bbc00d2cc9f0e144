import Routeplane.Limits.Registry

/-!
# The distributed limiter

The request count of every scope kept in a shared Redis: one script call for each scope, atomic
and over the network, and a policy for calls that fail.

* `DistributedLimiter.admitRequest`: the local check, then the scopes' counters in turn; on the first
  failed call, the local engine or a denial.
* `Phase.next`: the same call as a sequence of atomic actions, for calls that overlap.
* `reaches_admitRequest`: undisturbed, the actions are the call.
-/

namespace Routeplane.Limits

/-- What to do when a Redis call fails. -/
inductive DistributedFallback
  | openToLocal
  | closed
  deriving DecidableEq, Repr, Inhabited

structure DistributedLimiter where
  fallback : DistributedFallback
  keyPrefix : String
  deriving DecidableEq, Repr, Inhabited

/-! ## Redis -/

/-- A counter and the moment of the server's clock it expires at. -/
structure RedisEntry where
  count : ℕ
  expiresAt : Option ℕ
  deriving DecidableEq, Repr, Inhabited

def RedisEntry.LiveAt (e : RedisEntry) (clock : ℕ) : Prop := ∀ t ∈ e.expiresAt, clock < t

instance (e : RedisEntry) (clock : ℕ) : Decidable (e.LiveAt clock) :=
  inferInstanceAs (Decidable (∀ t ∈ e.expiresAt, clock < t))

abbrev Redis := String → Option RedisEntry

def Redis.count (r : Redis) (key : String) : ℕ := ((r key).map (·.count)).getD 0

/-- `RATE_INCR_SCRIPT`: add to the counter; the first addition sets its expiry. -/
def rateIncrScript (clock : ℕ) (key : String) (amount ttlMs : ℕ) (r : Redis) :
    (ℕ × ℕ) × Redis :=
  let e := ((r key).filter fun e => e.LiveAt clock).getD ⟨0, none⟩
  let c := e.count + amount
  let expiresAt := if c = amount then clock + ttlMs else e.expiresAt.getD (clock + ttlMs)
  ((c, expiresAt - clock), Function.update r key (some ⟨c, some expiresAt⟩))

/-- A call that comes back as an error may or may not have run on the server. -/
structure Fault where
  ran : Bool
  error : String
  deriving DecidableEq, Repr, Inhabited

/-- One call over the network: the server's clock, and whether it fails. -/
structure Trip where
  clock : ℕ
  fault : Option Fault := none
  deriving DecidableEq, Repr, Inhabited

/-- `DistributedLimiter::incr` under its timeout. -/
def redisIncr (trip : Trip) (key : String) (amount ttlMs : ℕ) (r : Redis) :
    Except String (ℕ × ℕ) × Redis :=
  let (reply, r') := rateIncrScript trip.clock key amount ttlMs r
  match trip.fault with
  | none => (.ok reply, r')
  | some f => (.error f.error, if f.ran then r' else r)

/-! ## The call -/

def counterKey (keyPrefix : String) (scope : LimitScope) (identity kind : String) (epoch : ℕ) :
    String :=
  keyPrefix ++ ":" ++ scope.header ++ ":" ++ identity ++ ":" ++ kind ++ ":" ++ toString epoch

def decideFailure (fallback : DistributedFallback) (g : LimitGuards) (nowMs : ℕ) (h : Heap) :
    Admission × Heap :=
  match fallback with
  | .openToLocal => g.admitRequest nowMs h
  | .closed => (.denied (Breach.distributedUnavailable nowMs), h)

/-- What is left of the minute, and a second. -/
def windowTtlMs (nowMs : ℕ) : ℕ := 60000 - nowMs % 60000 + 1000

namespace DistributedLimiter

variable (d : DistributedLimiter) (g : LimitGuards) (nowMs : ℕ)

def specKey (spec : RequestRateSpec) : String :=
  counterKey d.keyPrefix spec.scope spec.identity "req" (nowMs / 60000)

/-- The scopes' counters in turn; `trips` are the calls still to come. -/
def escalate (trips : ℕ → Trip) : ℕ → List RequestRateSpec → Heap × Redis →
    Admission × Heap × Redis
  | _, [], (h, r) => (.allowed (g.advisory nowMs h), h, r)
  | n, spec :: specs, (h, r) =>
    match redisIncr (trips n) (d.specKey nowMs spec) 1 (windowTtlMs nowMs) r with
    | (.ok (count, _), r) =>
      if spec.hard && spec.limit < count then
        (.denied (Breach.distributedRate spec.scope spec.policyId spec.limit nowMs), h, r)
      else escalate trips (n + 1) specs (h, r)
    | (.error _, r) =>
      let (a, h) := decideFailure d.fallback g nowMs h
      (a, h, r)

def admitRequest (trips : ℕ → Trip) (hr : Heap × Redis) : Admission × Heap × Redis :=
  if g.isUnlimited then
    let (a, h) := g.admitRequest nowMs hr.1
    (a, h, hr.2)
  else
    match g.checkOnly nowMs hr.1 with
    | .denied b => (.denied b, hr)
    | .allowed _ => d.escalate g nowMs trips 0 g.requestRateSpecs hr

end DistributedLimiter

/-! ## Overlapping calls -/

/-- How far a call is. -/
inductive Phase
  | ready
  /-- The scopes whose Redis counter is still to be added to. -/
  | escalating (specs : List RequestRateSpec)
  /-- About to run the local engine. -/
  | checking
  /-- The scopes whose local slot is still to be taken. -/
  | consuming (scopes : List ScopeSlot)
  | done (a : Admission)
  deriving DecidableEq, Repr

/-- The next atomic action of a call. -/
def Phase.next (d : DistributedLimiter) (g : LimitGuards) (nowMs : ℕ) (trip : Trip) :
    Phase → Heap × Redis → Phase × Heap × Redis
  | .ready, (h, r) =>
    if g.isUnlimited then (.checking, h, r)
    else
      match g.checkOnly nowMs h with
      | .denied b => (.done (.denied b), h, r)
      | .allowed _ => (.escalating g.requestRateSpecs, h, r)
  | .escalating [], (h, r) => (.done (.allowed (g.advisory nowMs h)), h, r)
  | .escalating (spec :: specs), (h, r) =>
    match redisIncr trip (d.specKey nowMs spec) 1 (windowTtlMs nowMs) r with
    | (.ok (count, _), r) =>
      if spec.hard && spec.limit < count then
        (.done (.denied (Breach.distributedRate spec.scope spec.policyId spec.limit nowMs)), h, r)
      else (.escalating specs, h, r)
    | (.error _, r) =>
      match d.fallback with
      | .openToLocal => (.checking, h, r)
      | .closed => (.done (.denied (Breach.distributedUnavailable nowMs)), h, r)
  | .checking, (h, r) =>
    match g.firstBreach nowMs h with
    | some b => (.done (.denied b), h, r)
    | none => (.consuming g.scopes, h, r)
  | .consuming [], (h, r) => (.done (.allowed (g.advisory nowMs h)), h, r)
  | .consuming (s :: ss), (h, r) =>
    match s.policy.consumeRequest (h.get s) nowMs with
    | (some b, c) => (.done (.denied b), h.set s c, r)
    | (none, c) => (.consuming ss, h.set s c, r)
  | .done a, hr => (.done a, hr)

/-! ## The actions are the call -/

section Refines

variable {d : DistributedLimiter} {g : LimitGuards} {nowMs : ℕ} {trips : ℕ → Trip}
  {h : Heap} {r : Redis}

attribute [local simp] Phase.next

/-- A call goes on, undisturbed, through some trips that are `ok`. -/
def Phase.Reaches (d : DistributedLimiter) (g : LimitGuards) (nowMs : ℕ) (ok : Trip → Prop)
    (x y : Phase × Heap × Redis) : Prop :=
  ∃ trips : List Trip, (∀ trip ∈ trips, ok trip) ∧
    trips.foldl (fun x trip => Phase.next d g nowMs trip x.1 x.2) x = y

variable {ok : Trip → Prop} {trip : Trip}

theorem Phase.Reaches.refl (x : Phase × Heap × Redis) : Phase.Reaches d g nowMs ok x x :=
  ⟨[], List.forall_mem_nil _, rfl⟩

theorem Phase.Reaches.step {x y : Phase × Heap × Redis} (ht : ok trip)
    (h : Phase.Reaches d g nowMs ok (Phase.next d g nowMs trip x.1 x.2) y) :
    Phase.Reaches d g nowMs ok x y := by
  obtain ⟨trips, hok, htrips⟩ := h
  exact ⟨trip :: trips, List.forall_mem_cons.2 ⟨ht, hok⟩, htrips⟩

/-- What every action keeps, the call keeps. -/
theorem Phase.Reaches.invariant {x y : Phase × Heap × Redis}
    (h : Phase.Reaches d g nowMs ok x y) (P : Phase × Heap × Redis → Prop)
    (hstep : ∀ x trip, ok trip → P x → P (Phase.next d g nowMs trip x.1 x.2)) (hx : P x) :
    P y := by
  obtain ⟨trips, hok, rfl⟩ := h
  induction trips generalizing x with
  | nil => exact hx
  | cons trip trips ih =>
    obtain ⟨ht, hrest⟩ := List.forall_mem_cons.1 hok
    exact ih (hstep x trip ht hx) hrest

theorem reaches_consuming (ht : ok trip) (ss : List ScopeSlot) (h : Heap) (r : Redis) :
    Phase.Reaches d g nowMs ok (.consuming ss, h, r)
      (match consumeAll nowMs ss h with
        | (some b, h) => (.done (.denied b), h, r)
        | (none, h) => (.done (.allowed (g.advisory nowMs h)), h, r)) := by
  induction ss generalizing h with
  | nil => exact .step ht (.refl _)
  | cons s ss ih =>
    refine .step ht ?_
    simp only [consumeAll, Phase.next]
    generalize s.policy.consumeRequest (h.get s) nowMs = taken
    obtain ⟨b, c⟩ := taken
    cases b with
    | some b => exact .refl _
    | none => exact ih (h.set s c)

/-- The local engine, once a call is left to it. -/
theorem reaches_checking (trip : Trip) (ht : ok trip) (h : Heap) (r : Redis) :
    Phase.Reaches d g nowMs ok (.checking, h, r)
      (.done (g.admitRequest nowMs h).1, (g.admitRequest nowMs h).2, r) := by
  refine .step ht ?_
  simp only [LimitGuards.admitRequest, Phase.next]
  cases g.firstBreach nowMs h with
  | some b => exact .refl _
  | none =>
    have hall : Phase.Reaches d g nowMs ok (.consuming g.scopes, h, r) _ :=
      reaches_consuming ht g.scopes h r
    revert hall
    generalize consumeAll nowMs g.scopes h = taken
    obtain ⟨b, h'⟩ := taken
    cases b <;> exact id

theorem reaches_escalating (ht : ∀ n, ok (trips n)) (n : ℕ) (specs : List RequestRateSpec)
    (h : Heap) (r : Redis) :
    Phase.Reaches d g nowMs ok (.escalating specs, h, r)
      (.done (d.escalate g nowMs trips n specs (h, r)).1,
        (d.escalate g nowMs trips n specs (h, r)).2) := by
  induction specs generalizing n r with
  | nil => exact .step (ht n) (.refl _)
  | cons spec specs ih =>
    refine .step (ht n) ?_
    simp only [DistributedLimiter.escalate, Phase.next]
    generalize redisIncr (trips n) (d.specKey nowMs spec) 1 (windowTtlMs nowMs) r = reply
    obtain ⟨reply, r'⟩ := reply
    cases reply with
    | ok reply =>
      obtain ⟨count, ttl⟩ := reply
      simp only
      split
      · exact .refl _
      · exact ih (n + 1) r'
    | error e =>
      unfold decideFailure
      cases d.fallback with
      | openToLocal => exact reaches_checking (trips n) (ht n) h r'
      | closed => exact .refl _

/-- **Undisturbed, the actions are the call.** -/
theorem reaches_admitRequest (ht : ∀ n, ok (trips n)) (hr : Heap × Redis) :
    Phase.Reaches d g nowMs ok (.ready, hr)
      (.done (d.admitRequest g nowMs trips hr).1, (d.admitRequest g nowMs trips hr).2) := by
  obtain ⟨h, r⟩ := hr
  refine .step (ht 0) ?_
  simp only [DistributedLimiter.admitRequest, Phase.next]
  by_cases hu : g.isUnlimited = true
  · rw [if_pos hu, if_pos hu]
    exact reaches_checking (trips 0) (ht 0) h r
  · rw [if_neg hu, if_neg hu]
    cases g.checkOnly nowMs h with
    | denied b => exact .refl _
    | allowed a => exact reaches_escalating ht 0 g.requestRateSpecs h r

end Refines

end Routeplane.Limits
