import Routeplane.Limits.Distributed
import Routeplane.Proof.Window
import Mathlib.Data.Finset.Card
import Mathlib.Data.Fintype.Card
import Mathlib.Algebra.Order.BigOperators.Group.Finset

/-!
# The distributed limiter over a fleet

Any number of calls, on any number of replicas, overlap in one minute: each takes its next atomic
action at any time, and each Redis call may fail. A scope with a hard request limit admits the
limit through Redis, and what fails over to the replicas' own engines at most their shares.

* `Inv.step`: every admitted request holds a ticket of the Redis counter or of its replica's.
* `fleet_admits_at_most`: the bound, with and without failures.
-/

namespace Routeplane.Limits

/-! ## Redis counters only grow -/

section Redis

variable {r : Redis} {key key' : String} {clock amount ttlMs : ℕ} {trip : Trip}

theorem rateIncrScript_count (hlive : ∀ e ∈ r key, e.LiveAt clock) (amount ttlMs : ℕ) :
    (rateIncrScript clock key amount ttlMs r).1.1 = r.count key + amount ∧
      (rateIncrScript clock key amount ttlMs r).2.count key = r.count key + amount := by
  unfold rateIncrScript Redis.count
  cases he : r key with
  | none => simp
  | some e =>
    have hl : e.LiveAt clock := hlive e he
    simp [Option.filter, hl]

theorem rateIncrScript_count_ne (hne : key' ≠ key) (clock amount ttlMs : ℕ) (r : Redis) :
    (rateIncrScript clock key amount ttlMs r).2.count key' = r.count key' := by
  unfold rateIncrScript Redis.count
  simp only [Function.update_of_ne hne]

theorem count_le_rateIncrScript (hlive : ∀ e ∈ r key', e.LiveAt clock) (key : String)
    (amount ttlMs : ℕ) : r.count key' ≤ (rateIncrScript clock key amount ttlMs r).2.count key' := by
  by_cases heq : key' = key
  · subst heq
    rw [(rateIncrScript_count hlive amount ttlMs).2]
    omega
  · rw [rateIncrScript_count_ne heq]

theorem count_le_redisIncr (hlive : ∀ e ∈ r key', e.LiveAt trip.clock) (key : String)
    (amount ttlMs : ℕ) : r.count key' ≤ (redisIncr trip key amount ttlMs r).2.count key' := by
  have hgrow := count_le_rateIncrScript hlive key amount ttlMs
  unfold redisIncr
  cases trip.fault with
  | none => exact hgrow
  | some f =>
    simp only
    split
    · exact hgrow
    · exact le_refl _

/-- A call that succeeds returns the counter it leaves. -/
theorem redisIncr_ok (hlive : ∀ e ∈ r key, e.LiveAt trip.clock) {reply : ℕ × ℕ}
    (h : (redisIncr trip key amount ttlMs r).1 = .ok reply) :
    reply.1 = r.count key + amount ∧
      (redisIncr trip key amount ttlMs r).2.count key = r.count key + amount := by
  obtain ⟨hreply, hcount⟩ := rateIncrScript_count hlive amount ttlMs
  unfold redisIncr at h ⊢
  cases hf : trip.fault with
  | none =>
    rw [hf] at h
    simp only [Except.ok.injEq] at h
    rw [← h]
    exact ⟨hreply, hcount⟩
  | some f => rw [hf] at h; cases h

theorem redisIncr_error {e : String} (h : (redisIncr trip key amount ttlMs r).1 = .error e) :
    trip.fault ≠ none := by
  unfold redisIncr at h
  intro hf
  rw [hf] at h
  cases h

theorem redisIncr_ok_of_none (hf : trip.fault = none) (key : String) (amount ttlMs : ℕ)
    (r : Redis) :
    ∃ reply, (redisIncr trip key amount ttlMs r).1 = .ok reply := by
  unfold redisIncr
  rw [hf]
  exact ⟨_, rfl⟩

/-- Only the counter that is called moves. -/
theorem redisIncr_other (hne : key' ≠ key) (trip : Trip) (amount ttlMs : ℕ) (r : Redis) :
    (redisIncr trip key amount ttlMs r).2 key' = r key' := by
  have hscript : (rateIncrScript trip.clock key amount ttlMs r).2 key' = r key' := by
    unfold rateIncrScript
    simp only [Function.update_of_ne hne]
  unfold redisIncr
  cases trip.fault with
  | none => exact hscript
  | some f =>
    simp only
    split
    · exact hscript
    · rfl

end Redis

/-! ## Local counts only grow within a minute -/

/-- A request of the minute leaves no fewer in any window of the minute. -/
theorem peek_le_consumeRequest (s : ScopePolicy) (c : Counters) (nowMs : ℕ) :
    peek (minuteEpoch nowMs) c.req ≤ peek (minuteEpoch nowMs) (s.consumeRequest c nowMs).2.req := by
  cases hl : s.requestsPerMin with
  | none => rw [ScopePolicy.consumeRequest_none hl]
  | some limit =>
    by_cases hfull : s.Full c nowMs
    · obtain ⟨_, _, heq⟩ := ScopePolicy.consumeRequest_full hfull
      rw [heq]
    · have hsame : SameEpoch (minuteEpoch nowMs) (minuteEpoch nowMs) := rfl
      have hle := peek_le (minuteEpoch nowMs) c.req
      rw [ScopePolicy.consumeRequest_some hl hfull, peek_pack (min_le_right _ _), if_pos hsame]
      omega

theorem peek_le_set (h : Heap) (s t : ScopeSlot) (nowMs : ℕ) :
    peek (minuteEpoch nowMs) (h.get t).req ≤ peek (minuteEpoch nowMs)
      ((h.set s (s.policy.consumeRequest (h.get s) nowMs).2).get t).req := by
  by_cases ha : s.Aliases t
  · have hget : h.get t = h.get s := by
      unfold Heap.get
      rw [ha.1, ha.2]
    rw [Heap.get_set_of_aliases h _ ha, hget]
    exact peek_le_consumeRequest s.policy (h.get s) nowMs
  · rw [Heap.get_set_of_not_aliases h _ ha]

/-! ## The fleet -/

/-- A call: the replica it runs on, the guards it holds and the moment it is stamped with. -/
structure Caller (κ : Type) where
  replica : κ
  guards : LimitGuards
  nowMs : ℕ

structure Fleet (ι κ : Type) where
  heaps : κ → Heap
  redis : Redis
  phase : ι → Phase

variable {ι κ : Type} [DecidableEq ι] [DecidableEq κ]

/-- One action of one call. -/
def Fleet.act (d : DistributedLimiter) (callers : ι → Caller κ) (f : Fleet ι κ) (i : ι)
    (trip : Trip) : Fleet ι κ :=
  let c := callers i
  let (ph, h, r) := Phase.next d c.guards c.nowMs trip (f.phase i) (f.heaps c.replica, f.redis)
  ⟨Function.update f.heaps c.replica h, r, Function.update f.phase i ph⟩

/-- Any call acts, or a script that was given up on runs late; `env` is what is known of the
network. -/
inductive Fleet.Step (d : DistributedLimiter) (callers : ι → Caller κ)
    (env : Redis → Trip → Prop) : Fleet ι κ → Fleet ι κ → Prop
  | act {f : Fleet ι κ} (i : ι) (trip : Trip) (he : env f.redis trip) :
      Step d callers env f (f.act d callers i trip)
  | late {f : Fleet ι κ} (trip : Trip) (key : String) (amount ttlMs : ℕ)
      (he : env f.redis trip) :
      Step d callers env f
        { f with redis := (rateIncrScript trip.clock key amount ttlMs f.redis).2 }

/-- The fleet before any of the calls. -/
def Fleet.start (heaps : κ → Heap) (redis : Redis) : Fleet ι κ := ⟨heaps, redis, fun _ => .ready⟩

/-- The scope on every replica: one counter in Redis, each replica's own slot and share. -/
structure FleetScope (κ : Type) where
  slot : κ → ScopeSlot
  spec : RequestRateSpec
  spec_hard : spec.hard = true
  slot_hard : ∀ k, (slot k).policy.rateMode = .hard
  slot_spec : ∀ k, ((slot k).policy.reqPerMinGlobal.map fun limit =>
    (⟨(slot k).policy.scope, (slot k).policy.policyId, (slot k).policy.identity, limit,
      (slot k).policy.rateMode.isHard⟩ : RequestRateSpec)) = some spec
  share : κ → ℕ
  slot_share : ∀ k, (slot k).policy.requestsPerMin = some (share k)
  share_le : ∀ k, share k ≤ countMask

namespace FleetScope

variable (S : FleetScope κ)

/-- The scope's Redis counter of a minute. -/
def redisKey (d : DistributedLimiter) (w : ℕ) : String :=
  counterKey d.keyPrefix S.spec.scope S.spec.identity "req" w

/-- The scope is among those a call is held to. -/
def Counts (callers : ι → Caller κ) (i : ι) : Prop :=
  S.slot (callers i).replica ∈ (callers i).guards.scopes

omit [DecidableEq κ] [DecidableEq ι] in
theorem spec_mem {callers : ι → Caller κ} {i : ι} (h : S.Counts callers i) :
    S.spec ∈ (callers i).guards.requestRateSpecs := by
  unfold LimitGuards.requestRateSpecs
  rw [List.mem_filterMap]
  exact ⟨_, h, S.slot_spec _⟩

end FleetScope

/-- The calls that have counted against the Redis counter, and against each replica's. -/
structure Tickets (ι κ : Type) where
  shared : Finset ι
  own : κ → Finset ι

namespace Tickets

variable (t : Tickets ι κ) (i : ι) (k : κ)

def addShared : Tickets ι κ := { t with shared := insert i t.shared }

def addOwn : Tickets ι κ := { t with own := Function.update t.own k (insert i (t.own k)) }

omit [DecidableEq κ] in
theorem shared_subset : t.shared ⊆ (t.addShared i).shared := Finset.subset_insert i t.shared

theorem own_subset (l : κ) : t.own l ⊆ (t.addOwn i k).own l := by
  unfold addOwn
  by_cases hl : l = k
  · subst hl
    simp only [Function.update_self]
    exact Finset.subset_insert i _
  · simp only [Function.update_of_ne hl]
    exact Finset.Subset.refl _

end Tickets

/-- What a call of the scope has to show for how far it is; `falls` when a call may fall back to
the local engine. -/
def PhaseOk (S : FleetScope κ) (callers : ι → Caller κ) (falls : Prop) (t : Tickets ι κ) (i : ι) :
    Phase → Prop
  | .ready => True
  | .escalating specs => S.spec ∈ specs ∨ i ∈ t.shared
  | .checking => falls
  | .consuming ss =>
    falls ∧ (S.slot (callers i).replica ∈ ss ∨ i ∈ t.own (callers i).replica)
  | .done (.allowed _) => i ∈ t.shared ∨ i ∈ t.own (callers i).replica
  | .done (.denied _) => True

structure Inv (d : DistributedLimiter) (S : FleetScope κ) (callers : ι → Caller κ) (w : ℕ)
    (falls : Prop) (t : Tickets ι κ) (f : Fleet ι κ) : Prop where
  shared_le : t.shared.card ≤ f.redis.count (S.redisKey d w)
  shared_global : t.shared.card ≤ S.spec.limit
  own_le : ∀ k, (t.own k).card ≤ peek w ((f.heaps k).get (S.slot k)).req
  own_share : ∀ k, (t.own k).card ≤ S.share k
  own_falls : ¬falls → ∀ k, t.own k = ∅
  phase : ∀ i, S.Counts callers i → PhaseOk S callers falls t i (f.phase i)

section Steps

variable {d : DistributedLimiter} {S : FleetScope κ} {callers : ι → Caller κ} {w : ℕ}
  {falls : Prop} {t t' : Tickets ι κ} {f f' : Fleet ι κ} {i : ι} {trip : Trip}

omit [DecidableEq ι] [DecidableEq κ] in
theorem PhaseOk.mono (hs : t.shared ⊆ t'.shared) (ho : ∀ k, t.own k ⊆ t'.own k) {ph : Phase}
    (h : PhaseOk S callers falls t i ph) : PhaseOk S callers falls t' i ph := by
  cases ph with
  | ready => trivial
  | escalating specs => exact h.imp_right fun hi => hs hi
  | checking => exact h
  | consuming ss => exact ⟨h.1, h.2.imp_right fun hi => ho _ hi⟩
  | done a =>
    cases a with
    | allowed a => exact h.imp (fun hi => hs hi) fun hi => ho _ hi
    | denied b => trivial

variable (d callers f i trip) in
theorem act_phase : (f.act d callers i trip).phase = Function.update f.phase i
    (Phase.next d (callers i).guards (callers i).nowMs trip (f.phase i)
      (f.heaps (callers i).replica, f.redis)).1 := rfl

variable (d callers f i trip) in
theorem act_redis : (f.act d callers i trip).redis =
    (Phase.next d (callers i).guards (callers i).nowMs trip (f.phase i)
      (f.heaps (callers i).replica, f.redis)).2.2 := rfl

variable (d callers f i trip) in
theorem act_heaps : (f.act d callers i trip).heaps = Function.update f.heaps (callers i).replica
    (Phase.next d (callers i).guards (callers i).nowMs trip (f.phase i)
      (f.heaps (callers i).replica, f.redis)).2.1 := rfl

/-- An action runs a script or leaves Redis alone. -/
theorem next_redis (d : DistributedLimiter) (g : LimitGuards) (nowMs : ℕ) (trip : Trip)
    (ph : Phase) (h : Heap) (r : Redis) :
    (Phase.next d g nowMs trip ph (h, r)).2.2 = r ∨
      ∃ key amount ttlMs, (Phase.next d g nowMs trip ph (h, r)).2.2 =
        (redisIncr trip key amount ttlMs r).2 := by
  cases ph with
  | ready =>
    simp only [Phase.next]
    split
    · exact Or.inl rfl
    · split <;> exact Or.inl rfl
  | escalating specs =>
    cases specs with
    | nil => exact Or.inl rfl
    | cons spec specs =>
      refine Or.inr ⟨d.specKey nowMs spec, 1, windowTtlMs nowMs, ?_⟩
      simp only [Phase.next]
      generalize redisIncr trip (d.specKey nowMs spec) 1 (windowTtlMs nowMs) r = reply
      obtain ⟨reply, r'⟩ := reply
      cases reply with
      | ok reply => simp only; split <;> rfl
      | error e => simp only; split <;> rfl
  | checking =>
    simp only [Phase.next]
    split <;> exact Or.inl rfl
  | consuming ss =>
    cases ss with
    | nil => exact Or.inl rfl
    | cons s ss =>
      simp only [Phase.next]
      split <;> exact Or.inl rfl
  | done a => exact Or.inl rfl

/-- An action takes one request slot or leaves the heap alone. -/
theorem next_heap (d : DistributedLimiter) (g : LimitGuards) (nowMs : ℕ) (trip : Trip)
    (ph : Phase) (h : Heap) (r : Redis) :
    (Phase.next d g nowMs trip ph (h, r)).2.1 = h ∨
      ∃ s : ScopeSlot, (Phase.next d g nowMs trip ph (h, r)).2.1 =
        h.set s (s.policy.consumeRequest (h.get s) nowMs).2 := by
  cases ph with
  | ready =>
    simp only [Phase.next]
    split
    · exact Or.inl rfl
    · split <;> exact Or.inl rfl
  | escalating specs =>
    refine Or.inl ?_
    cases specs with
    | nil => rfl
    | cons spec specs =>
      simp only [Phase.next]
      generalize redisIncr trip (d.specKey nowMs spec) 1 (windowTtlMs nowMs) r = reply
      obtain ⟨reply, r'⟩ := reply
      cases reply with
      | ok reply => simp only; split <;> rfl
      | error e => simp only; split <;> rfl
  | checking =>
    simp only [Phase.next]
    split <;> exact Or.inl rfl
  | consuming ss =>
    cases ss with
    | nil => exact Or.inl rfl
    | cons s ss =>
      refine Or.inr ⟨s, ?_⟩
      simp only [Phase.next]
      generalize s.policy.consumeRequest (h.get s) nowMs = taken
      obtain ⟨b, c⟩ := taken
      cases b <;> rfl
  | done a => exact Or.inl rfl

theorem count_le_act (hlive : ∀ e ∈ f.redis (S.redisKey d w), e.LiveAt trip.clock) :
    f.redis.count (S.redisKey d w) ≤ (f.act d callers i trip).redis.count (S.redisKey d w) := by
  rw [act_redis]
  rcases next_redis d (callers i).guards (callers i).nowMs trip (f.phase i)
    (f.heaps (callers i).replica) f.redis with heq | ⟨key, amount, ttlMs, heq⟩
  · rw [heq]
  · rw [heq]
    exact count_le_redisIncr hlive key amount ttlMs

theorem peek_le_act (hw : minuteEpoch (callers i).nowMs = w) (k : κ) :
    peek w ((f.heaps k).get (S.slot k)).req ≤
      peek w (((f.act d callers i trip).heaps k).get (S.slot k)).req := by
  rw [act_heaps]
  by_cases hk : k = (callers i).replica
  · subst hk
    rw [Function.update_self]
    rcases next_heap d (callers i).guards (callers i).nowMs trip (f.phase i)
      (f.heaps (callers i).replica) f.redis with heq | ⟨s, heq⟩
    · rw [heq]
    · rw [heq, ← hw]
      exact peek_le_set _ s _ _
  · rw [Function.update_of_ne hk]

omit [DecidableEq ι] [DecidableEq κ] in
/-- While the counters do not shrink, the tickets stand; the call that acted must still have
what it needs. -/
theorem Inv.grow (hi : Inv d S callers w falls t f)
    (hcount : f.redis.count (S.redisKey d w) ≤ f'.redis.count (S.redisKey d w))
    (hpeek : ∀ k, peek w ((f.heaps k).get (S.slot k)).req ≤
      peek w ((f'.heaps k).get (S.slot k)).req)
    (hphase : ∀ j, S.Counts callers j → PhaseOk S callers falls t j (f'.phase j)) :
    Inv d S callers w falls t f' where
  shared_le := hi.shared_le.trans hcount
  shared_global := hi.shared_global
  own_le k := (hi.own_le k).trans (hpeek k)
  own_share := hi.own_share
  own_falls := hi.own_falls
  phase := hphase

/-- The same when only the phase of one call has changed. -/
theorem Inv.act_same (hi : Inv d S callers w falls t f)
    (hlive : ∀ e ∈ f.redis (S.redisKey d w), e.LiveAt trip.clock)
    (hw : minuteEpoch (callers i).nowMs = w)
    (hphase : S.Counts callers i →
      PhaseOk S callers falls t i ((f.act d callers i trip).phase i)) :
    Inv d S callers w falls t (f.act d callers i trip) := by
  refine hi.grow (count_le_act hlive) (peek_le_act hw) fun j hj => ?_
  by_cases hji : j = i
  · subst hji
    exact hphase hj
  · rw [act_phase, Function.update_of_ne hji]
    exact hi.phase j hj

/-- The Redis counter of the scope has let the call pass: a ticket of the shared counter. -/
theorem Inv.act_shared (hi : Inv d S callers w falls t f)
    (hw : minuteEpoch (callers i).nowMs = w)
    (hcount : t.shared.card + 1 ≤
      (f.act d callers i trip).redis.count (S.redisKey d w))
    (hglobal : t.shared.card + 1 ≤ S.spec.limit) (hph : ∃ specs,
      (f.act d callers i trip).phase i = .escalating specs) :
    Inv d S callers w falls (t.addShared i) (f.act d callers i trip) where
  shared_le := (Finset.card_insert_le i t.shared).trans hcount
  shared_global := (Finset.card_insert_le i t.shared).trans hglobal
  own_le k := (hi.own_le k).trans (peek_le_act hw k)
  own_share := hi.own_share
  own_falls := hi.own_falls
  phase j hj := by
    by_cases hji : j = i
    · subst hji
      obtain ⟨specs, hspecs⟩ := hph
      rw [hspecs]
      exact Or.inr (Finset.mem_insert_self _ _)
    · rw [act_phase, Function.update_of_ne hji]
      exact (hi.phase j hj).mono (t.shared_subset i) fun k => Finset.Subset.refl _

/-- The replica's own window has let the call pass: a ticket of that replica. -/
theorem Inv.act_own (hi : Inv d S callers w falls t f) (hf : falls)
    (hlive : ∀ e ∈ f.redis (S.redisKey d w), e.LiveAt trip.clock)
    (hw : minuteEpoch (callers i).nowMs = w)
    (hpeek : (t.own (callers i).replica).card + 1 ≤ peek w
      (((f.act d callers i trip).heaps (callers i).replica).get (S.slot (callers i).replica)).req)
    (hshare : (t.own (callers i).replica).card + 1 ≤ S.share (callers i).replica) (hph : ∃ ss,
      (f.act d callers i trip).phase i = .consuming ss) :
    Inv d S callers w falls (t.addOwn i (callers i).replica) (f.act d callers i trip) where
  shared_le := hi.shared_le.trans (count_le_act hlive)
  shared_global := hi.shared_global
  own_le k := by
    unfold Tickets.addOwn
    by_cases hk : k = (callers i).replica
    · subst hk
      simp only [Function.update_self]
      exact (Finset.card_insert_le i _).trans hpeek
    · simp only [Function.update_of_ne hk]
      exact (hi.own_le k).trans (peek_le_act hw k)
  own_share k := by
    unfold Tickets.addOwn
    by_cases hk : k = (callers i).replica
    · subst hk
      simp only [Function.update_self]
      exact (Finset.card_insert_le i _).trans hshare
    · simp only [Function.update_of_ne hk]
      exact hi.own_share k
  own_falls hn := absurd hf hn
  phase j hj := by
    by_cases hji : j = i
    · subst hji
      obtain ⟨ss, hss⟩ := hph
      rw [hss]
      refine ⟨hf, Or.inr ?_⟩
      unfold Tickets.addOwn
      simp only [Function.update_self]
      exact Finset.mem_insert_self _ _
    · rw [act_phase, Function.update_of_ne hji]
      have hshared : t.shared ⊆ (t.addOwn i (callers i).replica).shared := Finset.Subset.refl _
      exact (hi.phase j hj).mono hshared (t.own_subset i (callers i).replica)

section Escalating

variable {g : LimitGuards} {nowMs : ℕ} {h : Heap} {r : Redis} {spec : RequestRateSpec}
  {specs : List RequestRateSpec} {e : String} {reply : ℕ × ℕ}

/-- A call whose Redis call fails goes on to the local engine, or is denied. -/
theorem next_escalating_error
    (hr : (redisIncr trip (d.specKey nowMs spec) 1 (windowTtlMs nowMs) r).1 = .error e) :
    (Phase.next d g nowMs trip (.escalating (spec :: specs)) (h, r)).1 =
      match d.fallback with
      | .openToLocal => .checking
      | .closed => .done (.denied (Breach.distributedUnavailable nowMs)) := by
  simp only [Phase.next]
  generalize redisIncr trip (d.specKey nowMs spec) 1 (windowTtlMs nowMs) r = answer at hr
  obtain ⟨answer, r'⟩ := answer
  subst hr
  cases d.fallback <;> rfl

/-- A call over a hard limit is denied. -/
theorem next_escalating_over
    (hr : (redisIncr trip (d.specKey nowMs spec) 1 (windowTtlMs nowMs) r).1 = .ok reply)
    (ho : (spec.hard && decide (spec.limit < reply.1)) = true) :
    Phase.next d g nowMs trip (.escalating (spec :: specs)) (h, r) =
      (.done (.denied (Breach.distributedRate spec.scope spec.policyId spec.limit nowMs)), h,
        (redisIncr trip (d.specKey nowMs spec) 1 (windowTtlMs nowMs) r).2) := by
  simp only [Phase.next]
  generalize redisIncr trip (d.specKey nowMs spec) 1 (windowTtlMs nowMs) r = answer at hr ⊢
  obtain ⟨answer, r'⟩ := answer
  subst hr
  simp only [ho, if_true]

/-- A call within the limit goes on to the next scope. -/
theorem next_escalating_pass
    (hr : (redisIncr trip (d.specKey nowMs spec) 1 (windowTtlMs nowMs) r).1 = .ok reply)
    (ho : ¬(spec.hard && decide (spec.limit < reply.1)) = true) :
    Phase.next d g nowMs trip (.escalating (spec :: specs)) (h, r) =
      (.escalating specs, h, (redisIncr trip (d.specKey nowMs spec) 1 (windowTtlMs nowMs) r).2) := by
  simp only [Phase.next]
  generalize redisIncr trip (d.specKey nowMs spec) 1 (windowTtlMs nowMs) r = answer at hr ⊢
  obtain ⟨answer, r'⟩ := answer
  subst hr
  simp only [ho, Bool.false_eq_true, if_false]

end Escalating

/-- A Redis call of the scope: it passes with a ticket, is denied, or fails. -/
theorem Inv.act_escalating (hi : Inv d S callers w falls t f) (hc : S.Counts callers i)
    (hlive : ∀ e ∈ f.redis (S.redisKey d w), e.LiveAt trip.clock)
    (hw : minuteEpoch (callers i).nowMs = w)
    (hfalls : trip.fault ≠ none → d.fallback = .openToLocal → falls)
    {spec : RequestRateSpec} {specs : List RequestRateSpec}
    (hph : f.phase i = .escalating (spec :: specs)) :
    ∃ t', Inv d S callers w falls t' (f.act d callers i trip) := by
  have hok := hi.phase i hc
  rw [hph] at hok
  have hnext := act_phase d callers f i trip
  have hredis := act_redis d callers f i trip
  rw [hph] at hnext hredis
  cases hreply : (redisIncr trip (d.specKey (callers i).nowMs spec) 1
    (windowTtlMs (callers i).nowMs) f.redis).1 with
  | error e =>
    -- the call fails
    refine ⟨t, hi.act_same hlive hw fun _ => ?_⟩
    rw [hnext, Function.update_self, next_escalating_error hreply]
    cases hfb : d.fallback with
    | openToLocal => exact hfalls (redisIncr_error hreply) hfb
    | closed => trivial
  | ok reply =>
    by_cases hover : (spec.hard && decide (spec.limit < reply.1)) = true
    · -- over the limit
      refine ⟨t, hi.act_same hlive hw fun _ => ?_⟩
      rw [hnext, Function.update_self, next_escalating_over hreply hover]
      trivial
    · rw [next_escalating_pass hreply hover] at hnext hredis
      have hphase : (f.act d callers i trip).phase i = .escalating specs := by
        rw [hnext, Function.update_self]
      by_cases hspec : spec = S.spec
      · -- the scope's own counter: the count it returned is within the limit
        subst hspec
        have hkey : d.specKey (callers i).nowMs S.spec = S.redisKey d w := by
          have hdiv : (callers i).nowMs / 60000 = w := hw
          unfold DistributedLimiter.specKey FleetScope.redisKey
          rw [hdiv]
        rw [hkey] at hreply hredis
        obtain ⟨hcount, hafter⟩ := redisIncr_ok hlive hreply
        have hle : reply.1 ≤ S.spec.limit := by
          by_contra hgt
          refine hover ?_
          rw [Bool.and_eq_true, decide_eq_true_eq]
          exact ⟨S.spec_hard, Nat.lt_of_not_le hgt⟩
        have hredis' : (f.act d callers i trip).redis.count (S.redisKey d w) = reply.1 := by
          rw [hredis, hafter, hcount]
        have hshared := hi.shared_le
        exact ⟨_, hi.act_shared hw (by omega) (by omega) ⟨specs, hphase⟩⟩
      · refine ⟨t, hi.act_same hlive hw fun _ => ?_⟩
        rw [hphase]
        refine hok.imp_left fun hmem => ?_
        rcases List.mem_cons.1 hmem with heq | hmem
        · exact absurd heq.symm hspec
        · exact hmem

/-- A slot of the replica's own engine: it is taken with a ticket, or refused. -/
theorem Inv.act_consuming (hi : Inv d S callers w falls t f) (hc : S.Counts callers i)
    (hlive : ∀ e ∈ f.redis (S.redisKey d w), e.LiveAt trip.clock)
    (hw : minuteEpoch (callers i).nowMs = w) {s : ScopeSlot} {ss : List ScopeSlot}
    (hph : f.phase i = .consuming (s :: ss)) :
    ∃ t', Inv d S callers w falls t' (f.act d callers i trip) := by
  have hok := hi.phase i hc
  rw [hph] at hok
  obtain ⟨hf, hok⟩ := hok
  have hnext := act_phase d callers f i trip
  have hheap := act_heaps d callers f i trip
  rw [hph] at hnext hheap
  simp only [Phase.next] at hnext hheap
  by_cases hs : s = S.slot (callers i).replica
  · subst hs
    by_cases hfull : (S.slot (callers i).replica).policy.Full
      ((f.heaps (callers i).replica).get (S.slot (callers i).replica)) (callers i).nowMs
    · -- refused
      obtain ⟨_, _, heq⟩ := ScopePolicy.consumeRequest_full hfull
      refine ⟨t, hi.act_same hlive hw fun _ => ?_⟩
      rw [hnext, heq, Function.update_self]
      trivial
    · -- taken: the window was short of the share
      have heq := ScopePolicy.consumeRequest_some (S.slot_share _) hfull
      have hlt : peek w ((f.heaps (callers i).replica).get (S.slot (callers i).replica)).req <
          S.share (callers i).replica := by
        by_contra hge
        refine hfull ⟨S.slot_hard _, _, S.slot_share _, ?_⟩
        rw [hw]
        omega
      rw [heq] at hnext hheap
      have hsame : SameEpoch w w := rfl
      have hpeek : peek w (((f.act d callers i trip).heaps (callers i).replica).get
          (S.slot (callers i).replica)).req =
            min (peek w ((f.heaps (callers i).replica).get (S.slot (callers i).replica)).req + 1)
              countMask := by
        rw [hheap, Function.update_self]
        simp only [Heap.get_set_self]
        rw [hw, peek_pack (min_le_right _ _), if_pos hsame]
      have hown := hi.own_le (callers i).replica
      have hmask := S.share_le (callers i).replica
      refine ⟨_, hi.act_own hf hlive hw (by omega) (by omega) ⟨ss, ?_⟩⟩
      rw [hnext, Function.update_self]
  · refine ⟨t, hi.act_same hlive hw fun _ => ?_⟩
    rw [hnext, Function.update_self]
    generalize s.policy.consumeRequest ((f.heaps (callers i).replica).get s) (callers i).nowMs =
      taken
    obtain ⟨b, c⟩ := taken
    cases b with
    | some b => trivial
    | none =>
      refine ⟨hf, hok.imp_left fun hmem => ?_⟩
      rcases List.mem_cons.1 hmem with heq | hmem
      · exact absurd heq.symm hs
      · exact hmem

/-- **One action of one call keeps the tickets, with at most one more.** -/
theorem Inv.act (hi : Inv d S callers w falls t f)
    (hlive : ∀ e ∈ f.redis (S.redisKey d w), e.LiveAt trip.clock)
    (hw : minuteEpoch (callers i).nowMs = w)
    (hfalls : trip.fault ≠ none → d.fallback = .openToLocal → falls) :
    ∃ t', Inv d S callers w falls t' (f.act d callers i trip) := by
  by_cases hc : S.Counts callers i
  · have hok := hi.phase i hc
    have hnext := act_phase d callers f i trip
    cases hph : f.phase i with
    | ready =>
      rw [hph] at hnext
      refine ⟨t, hi.act_same hlive hw fun _ => ?_⟩
      have hlim : ¬(callers i).guards.isUnlimited = true := by
        rw [← LimitGuards.scopes_eq_nil]
        exact List.ne_nil_of_mem hc
      rw [hnext, Function.update_self]
      simp only [Phase.next]
      rw [if_neg hlim]
      cases (callers i).guards.checkOnly (callers i).nowMs (f.heaps (callers i).replica) with
      | denied b => trivial
      | allowed a => exact Or.inl (S.spec_mem hc)
    | escalating specs =>
      cases specs with
      | nil =>
        rw [hph] at hnext hok
        refine ⟨t, hi.act_same hlive hw fun _ => ?_⟩
        rw [hnext, Function.update_self]
        exact Or.inl (hok.resolve_left List.not_mem_nil)
      | cons spec specs => exact hi.act_escalating hc hlive hw hfalls hph
    | checking =>
      rw [hph] at hnext hok
      refine ⟨t, hi.act_same hlive hw fun _ => ?_⟩
      rw [hnext, Function.update_self]
      simp only [Phase.next]
      cases (callers i).guards.firstBreach (callers i).nowMs (f.heaps (callers i).replica) with
      | some b => trivial
      | none => exact ⟨hok, Or.inl hc⟩
    | consuming ss =>
      cases ss with
      | nil =>
        rw [hph] at hnext hok
        refine ⟨t, hi.act_same hlive hw fun _ => ?_⟩
        rw [hnext, Function.update_self]
        exact Or.inr (hok.2.resolve_left List.not_mem_nil)
      | cons s ss => exact hi.act_consuming hc hlive hw hph
    | done a =>
      rw [hph] at hnext hok
      refine ⟨t, hi.act_same hlive hw fun _ => ?_⟩
      rw [hnext, Function.update_self]
      exact hok
  · -- a call of another limit takes no ticket
    exact ⟨t, hi.act_same hlive hw fun h => absurd h hc⟩

omit [DecidableEq ι] [DecidableEq κ] in
/-- A script run late leaves every ticket. -/
theorem Inv.late (hi : Inv d S callers w falls t f)
    (hlive : ∀ e ∈ f.redis (S.redisKey d w), e.LiveAt trip.clock) (key : String)
    (amount ttlMs : ℕ) :
    Inv d S callers w falls t
      { f with redis := (rateIncrScript trip.clock key amount ttlMs f.redis).2 } :=
  hi.grow (count_le_rateIncrScript hlive key amount ttlMs) (fun _ => le_refl _) hi.phase

end Steps

/-! ## The bound -/

/-- What is known of the network: the counter expires after the minute only, and whether calls
may fail. -/
def Network (key : String) (mayFail : Bool) (r : Redis) (trip : Trip) : Prop :=
  (∀ e ∈ r key, e.LiveAt trip.clock) ∧ (trip.fault ≠ none → mayFail = true)

instance (key : String) (mayFail : Bool) (r : Redis) (trip : Trip) :
    Decidable (Network key mayFail r trip) := inferInstanceAs (Decidable (_ ∧ _))

/-- The fleet after a list of actions. -/
def Fleet.acts (d : DistributedLimiter) (callers : ι → Caller κ) (f : Fleet ι κ)
    (actions : List (ι × Trip)) : Fleet ι κ :=
  actions.foldl (fun f a => f.act d callers a.1 a.2) f

/-- Each action finds the network as it is known to be. -/
def Fleet.Runs (d : DistributedLimiter) (callers : ι → Caller κ) (key : String) (mayFail : Bool) :
    Fleet ι κ → List (ι × Trip) → Prop
  | _, [] => True
  | f, a :: actions =>
    Network key mayFail f.redis a.2 ∧
      Fleet.Runs d callers key mayFail (f.act d callers a.1 a.2) actions

instance decidableRuns (d : DistributedLimiter) (callers : ι → Caller κ) (key : String)
    (mayFail : Bool) : (actions : List (ι × Trip)) → (f : Fleet ι κ) →
      Decidable (f.Runs d callers key mayFail actions)
  | [], _ => isTrue trivial
  | a :: actions, f =>
    @instDecidableAnd _ _ _ (decidableRuns d callers key mayFail actions (f.act d callers a.1 a.2))

theorem Fleet.Runs.steps {d : DistributedLimiter} {callers : ι → Caller κ} {key : String}
    {mayFail : Bool} {f : Fleet ι κ} {actions : List (ι × Trip)}
    (h : f.Runs d callers key mayFail actions) :
    Relation.ReflTransGen (Fleet.Step d callers (Network key mayFail)) f
      (f.acts d callers actions) := by
  induction actions generalizing f with
  | nil => exact .refl
  | cons a actions ih => exact .head (.act a.1 a.2 h.1) (ih h.2)

section Runs

variable {d : DistributedLimiter} {S : FleetScope κ} {callers : ι → Caller κ} {w : ℕ}
  {mayFail : Bool} {t : Tickets ι κ} {f f' : Fleet ι κ} {heaps : κ → Heap} {redis : Redis}

/-- One step of the fleet. -/
theorem Inv.step (hw : ∀ i, minuteEpoch (callers i).nowMs = w)
    (hi : Inv d S callers w (mayFail = true ∧ d.fallback = .openToLocal) t f)
    (hs : Fleet.Step d callers (Network (S.redisKey d w) mayFail) f f') :
    ∃ t', Inv d S callers w (mayFail = true ∧ d.fallback = .openToLocal) t' f' := by
  cases hs with
  | act i trip he => exact hi.act he.1 (hw i) fun hfault hfb => ⟨he.2 hfault, hfb⟩
  | late trip key amount ttlMs he => exact ⟨t, hi.late he.1 key amount ttlMs⟩

omit [DecidableEq ι] [DecidableEq κ] in
/-- Nobody holds a ticket at the start. -/
theorem Inv.start {falls : Prop} :
    Inv d S callers w falls ⟨∅, fun _ => ∅⟩ (Fleet.start heaps redis) where
  shared_le := Nat.zero_le _
  shared_global := Nat.zero_le _
  own_le _ := Nat.zero_le _
  own_share _ := Nat.zero_le _
  own_falls _ _ := rfl
  phase _ _ := trivial

/-- Any run, step by step. -/
theorem Inv.run (hw : ∀ i, minuteEpoch (callers i).nowMs = w)
    (hrun : Relation.ReflTransGen (Fleet.Step d callers (Network (S.redisKey d w) mayFail))
      (Fleet.start heaps redis) f) :
    ∃ t, Inv d S callers w (mayFail = true ∧ d.fallback = .openToLocal) t f := by
  induction hrun with
  | refl => exact ⟨_, Inv.start⟩
  | tail _ hs ih =>
    obtain ⟨t, hi⟩ := ih
    exact hi.step hw hs

omit [DecidableEq κ] in
/-- The admitted hold tickets, so they are no more than the tickets. -/
theorem Inv.admitted_le [Fintype κ] {falls : Prop} (hi : Inv d S callers w falls t f)
    {A : Finset ι}
    (hA : ∀ i ∈ A, S.Counts callers i ∧ ∃ a, f.phase i = .done (.allowed a)) :
    (¬falls → A.card ≤ S.spec.limit) ∧ A.card ≤ S.spec.limit + ∑ k, S.share k := by
  have hticket : ∀ i ∈ A, i ∈ t.shared ∨ i ∈ t.own (callers i).replica := by
    intro i hmem
    obtain ⟨hc, a, hph⟩ := hA i hmem
    have hok := hi.phase i hc
    rw [hph] at hok
    exact hok
  constructor
  · intro hn
    have hsub : A ⊆ t.shared := by
      intro i hmem
      rcases hticket i hmem with hshared | hown
      · exact hshared
      · rw [hi.own_falls hn] at hown
        exact absurd hown (Finset.notMem_empty i)
    exact (Finset.card_le_card hsub).trans hi.shared_global
  · have hsub : A ⊆ t.shared ∪ Finset.univ.biUnion t.own := by
      intro i hmem
      rw [Finset.mem_union, Finset.mem_biUnion]
      rcases hticket i hmem with hshared | hown
      · exact Or.inl hshared
      · exact Or.inr ⟨_, Finset.mem_univ _, hown⟩
    calc A.card ≤ (t.shared ∪ Finset.univ.biUnion t.own).card := Finset.card_le_card hsub
      _ ≤ t.shared.card + (Finset.univ.biUnion t.own).card := Finset.card_union_le _ _
      _ ≤ t.shared.card + ∑ k, (t.own k).card :=
        Nat.add_le_add_left Finset.card_biUnion_le _
      _ ≤ S.spec.limit + ∑ k, S.share k :=
        Nat.add_le_add hi.shared_global (Finset.sum_le_sum fun k _ => hi.own_share k)

end Runs

/-- What one replica may admit of a compiled scope on its own. -/
def ScopePolicy.replicaShare (s : ScopePolicy) : ℕ := s.requestsPerMin.getD 0

/-- **The fleet's bound.** However the calls of one minute overlap on whatever number of replicas,
with no failed Redis call, or failing closed, a hard request limit admits at most itself; failing
over to the replicas' own engines, at most their shares more. -/
theorem fleet_admits_at_most [Fintype κ] (d : DistributedLimiter) (scope : LimitScope)
    (policyId : Option String) (tokens : Option ℕ) (budget : Option BudgetLimits)
    (fallbackId : String) (limit : ℕ) (maxReplicas : κ → ℕ) (slot : κ → ScopeSlot)
    (hslot : ∀ k, ScopePolicy.fromPolicy scope ⟨policyId, some ⟨some limit, tokens, .hard⟩, budget⟩
      fallbackId (maxReplicas k) = some (slot k).policy)
    (callers : ι → Caller κ) (w : ℕ) (hminute : ∀ i, minuteEpoch (callers i).nowMs = w)
    (mayFail : Bool) (heaps : κ → Heap) (redis : Redis) (f : Fleet ι κ)
    (hrun : Relation.ReflTransGen (Fleet.Step d callers
      (Network (counterKey d.keyPrefix scope fallbackId "req" w) mayFail))
      (Fleet.start heaps redis) f)
    (A : Finset ι) (hA : ∀ i ∈ A, slot (callers i).replica ∈ (callers i).guards.scopes ∧
      ∃ a, f.phase i = .done (.allowed a)) :
    (mayFail = false ∨ d.fallback = .closed → A.card ≤ limit) ∧
      A.card ≤ limit + ∑ k, (slot k).policy.replicaShare := by
  have hrate := fun k => ScopePolicy.fromPolicy_rate rfl (hslot k)
  have hname := fun k => ScopePolicy.fromPolicy_identity (hslot k)
  have hshare : ∀ k, (slot k).policy.requestsPerMin = some (slot k).policy.replicaShare := by
    intro k
    unfold ScopePolicy.replicaShare
    rw [(hrate k).1]
    rfl
  let S : FleetScope κ :=
    { slot := slot
      spec := ⟨scope, policyId.getD fallbackId, fallbackId, min limit countMask, true⟩
      spec_hard := rfl
      slot_hard := fun k => (hrate k).2.2
      slot_spec := by
        intro k
        rw [(hrate k).2.1, (hrate k).2.2, (hname k).1, (hname k).2.1, (hname k).2.2]
        rfl
      share := fun k => (slot k).policy.replicaShare
      slot_share := hshare
      share_le := fun k => ScopePolicy.clampLimit_le ((hrate k).1.symm.trans (hshare k)) }
  obtain ⟨t, hi⟩ := Inv.run (S := S) hminute hrun
  obtain ⟨hexact, hfallen⟩ := hi.admitted_le hA
  have hlimit : S.spec.limit ≤ limit := min_le_left _ _
  refine ⟨fun hno => (hexact ?_).trans hlimit, hfallen.trans (Nat.add_le_add_right hlimit _)⟩
  rintro ⟨hmay, hopen⟩
  rcases hno with hno | hclosed
  · rw [hno] at hmay
    exact absurd hmay Bool.false_ne_true
  · rw [hclosed] at hopen
    exact absurd hopen (by decide)

/-- One request a minute for a key. -/
def outageSlot : ScopeSlot :=
  ⟨⟨.key, "k", "k", some 1, some 1, none, .hard, none, none, none, none, 0, .hard, none⟩, 0⟩

/-- Two calls on one replica. -/
def outageCallers (_ : Bool) : Caller Unit := ⟨(), ⟨some ⟨outageSlot, rfl⟩, none, none⟩, 0⟩

/-- The first call passes by Redis, the second cannot reach it and passes by the replica. -/
def outageActions : List (Bool × Trip) :=
  [(false, ⟨0, none⟩), (false, ⟨0, none⟩), (false, ⟨0, none⟩), (true, ⟨0, none⟩),
    (true, ⟨0, some ⟨false, "redis incr timeout"⟩⟩), (true, ⟨0, none⟩), (true, ⟨0, none⟩),
    (true, ⟨0, none⟩)]

def outageStart : Fleet Bool Unit := Fleet.start (fun _ => ⟨fun _ => default, 1⟩) fun _ => none

/-- A limit of one admits the one and, in the outage, the replica's share. -/
theorem outage_admits_both : (Finset.univ : Finset Bool).card ≤
    1 + ∑ k, ((fun _ : Unit => outageSlot) k).policy.replicaShare :=
  (fleet_admits_at_most ⟨.openToLocal, "rp"⟩ .key none none none "k" 1 (fun _ => 1)
    (fun _ => outageSlot) (fun _ => by decide) outageCallers 0 (fun i => by cases i <;> decide) true
    (fun _ => ⟨fun _ => default, 1⟩) (fun _ => none)
    (outageStart.acts ⟨.openToLocal, "rp"⟩ outageCallers outageActions)
    (Fleet.Runs.steps (by decide)) Finset.univ
    (fun i _ => by
      cases i
      · exact ⟨by decide, _, rfl⟩
      · exact ⟨by decide, _, rfl⟩)).2

end Routeplane.Limits
