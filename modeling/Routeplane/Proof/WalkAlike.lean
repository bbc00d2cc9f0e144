import Routeplane.Proxy.Executors

/-!
# The two retry loops, side by side

The buffered and the streaming loop are started in worlds that differ in usage events only.
Round by round they decide alike and leave such worlds again; what differs is where they put
the verdict on the provider.

* `establishRound_alike`: one round of each.
* `establishLoop_alike`: the loops of one key. The buffered verdict is that of the last try,
  the streaming one is a verdict over all tries.
-/

namespace Routeplane

/-- Does a failed try speak against its provider? -/
def Fault.speaks (clientBounded : Bool) : Fault → Bool
  | .error e => countsAsHealthFailure e && !isClientDeadlineTimeout e clientBounded
  | .elapsed => !clientBounded

def FailedTry.speaks (t : FailedTry) : Bool := t.fault.speaks t.clientBounded

/-- The verdict an event of one key of one target carries. -/
def Event.verdict (idx : ℕ) (key : PoolKey) : Event → Option Bool
  | .failed t => if t.target = idx ∧ t.key = key then some t.speaks else none
  | .skipped i k => if i = idx ∧ k = key then some false else none
  | _ => none

/-- The verdicts on the tries of a key, in order. -/
def trail (idx : ℕ) (key : PoolKey) (events : List Event) : List Bool :=
  events.filterMap (Event.verdict idx key)

/-- A failed try of a key of a target: that it records no failure for a pool key or when nothing
speaks against the provider, and by whose budget it was bounded. -/
structure FailedTry.Of (deadline : Deadline) (rt : ReadyTarget) (key : PoolKey) (t : FailedTry) :
    Prop where
  target_eq : t.target = rt.idx
  key_eq : t.key = key
  excused : (key.1.isNone && t.speaks) = false → t.before.SameBreakers t.after
  bounded : ∃ timeout, deadline.nextAttemptTimeoutCapped rt.target.timeoutMs t.startedAt =
    some timeout ∧ t.clientBounded = deadline.attemptBoundedByClient timeout rt.target.timeoutMs

/-- An event of the tries of one key of a target. -/
def Event.isTry (deadline : Deadline) (rt : ReadyTarget) (key : PoolKey) : Event → Prop
  | .failed t => t.Of deadline rt key
  | .skipped i k => i = rt.idx ∧ k = key
  | .dispatched d => d = ⟨rt.idx, rt.target.provider, key, rt.shaped⟩
  | .fed i p => i = rt.idx ∧ p = rt.target.provider ∧ key.1 = none
  | .usage _ => False

/-- Two worlds that differ in usage events only. -/
structure Alike (w w' : World) : Prop where
  now_eq : w.now = w'.now
  health_eq : w.health = w'.health
  calls_eq : w.calls = w'.calls
  record_eq : w.record = w'.record

section

variable {ρ : Type} {env : Env ρ} {st : AppState} {caller : Caller} {deadline : Deadline}
  {rt : ReadyTarget} {key : PoolKey} {w w' : World} {attempt left : ℕ} {hint : Option ℕ}
  {verdict : Bool} {notes : Notes} {idx : ℕ}

theorem Alike.refl (w : World) : Alike w w := ⟨rfl, rfl, rfl, rfl⟩

@[simp] theorem record_log (es : List Event) :
    (w.log es).record = w.record ++ es.filter fun e => !e.isUsage := by
  simp [World.log, World.record]

theorem Alike.log (h : Alike w w') {es es' : List Event}
    (hes : (es.filter fun e => !e.isUsage) = es'.filter fun e => !e.isUsage) :
    Alike (w.log es) (w'.log es') :=
  ⟨h.now_eq, h.health_eq, h.calls_eq, by rw [record_log, record_log, h.record_eq, hes]⟩

theorem Alike.withHealth (h : Alike w w') (f : HealthTracker → HealthTracker) :
    Alike { w with health := f w.health } { w' with health := f w'.health } :=
  ⟨h.now_eq, by rw [h.health_eq], h.calls_eq, h.record_eq⟩

variable (env deadline attempt hint) in
theorem backOff_alike (h : Alike w w') (late late' : String) (retry : RetryPolicy) :
    (∃ v v', backOff env late retry deadline attempt hint w = .ok v ∧
      backOff env late' retry deadline attempt hint w' = .ok v' ∧ Alike v v' ∧
      v.record = w.record) ∨
    (backOff env late retry deadline attempt hint w = .error late ∧
      backOff env late' retry deadline attempt hint w' = .error late') := by
  obtain ⟨hn, hh, hc, hr⟩ := h
  unfold backOff
  rw [hn, hh, hc]
  split
  · exact .inl ⟨w, w', rfl, rfl, ⟨hn, hh, hc, hr⟩, rfl⟩
  · simp only
    split
    · exact .inr ⟨rfl, rfl⟩
    · split
      · exact .inl ⟨w, w', rfl, rfl, ⟨hn, hh, hc, hr⟩, rfl⟩
      · exact .inl ⟨_, _, rfl, rfl, ⟨rfl, rfl, rfl, hr⟩, rfl⟩

variable (deadline) in
theorem admitTry_alike (h : Alike w w') (late late' tenant : String) (target : TargetPlan) :
    (∃ timeout clientBounded probe v v',
      admitTry late tenant target deadline w = (.go timeout clientBounded probe, v) ∧
      admitTry late' tenant target deadline w' = (.go timeout clientBounded probe, v') ∧
      Alike v v' ∧ v.record = w.record ∧
      deadline.nextAttemptTimeoutCapped target.timeoutMs v.now = some timeout ∧
      clientBounded = deadline.attemptBoundedByClient timeout target.timeoutMs) ∨
    (∃ e e' v v', admitTry late tenant target deadline w = (.stop e, v) ∧
      admitTry late' tenant target deadline w' = (.stop e', v') ∧ Alike v v' ∧
      v.record = w.record) := by
  obtain ⟨hn, hh, hc, hr⟩ := h
  unfold admitTry
  rw [hn, hh]
  simp only
  split
  · exact .inr ⟨_, _, _, _, rfl, rfl, ⟨rfl, rfl, hc, hr⟩, rfl⟩
  · split
    · exact .inr ⟨_, _, _, _, rfl, rfl, ⟨rfl, rfl, hc, hr⟩, rfl⟩
    · rename_i timeout htimeout
      split
      · exact .inr ⟨_, _, _, _, rfl, rfl, ⟨rfl, rfl, hc, hr⟩, rfl⟩
      · exact .inl ⟨_, _, _, _, _, rfl, rfl, ⟨rfl, rfl, hc, hr⟩, rfl, htimeout, rfl⟩

variable (env) in
theorem callProvider_alike (h : Alike w w') (d : Dispatch) (timeout : ℕ) (probe : ProbeAdmission) :
    ∃ answer elapsed v v', callProvider env d timeout probe w = (answer, elapsed, v) ∧
      callProvider env d timeout probe w' = (answer, elapsed, v') ∧ Alike v v' ∧
      v.record = w.record ++ [.dispatched d] ∧ v.now = w.now + elapsed := by
  obtain ⟨hn, hh, hc, hr⟩ := h
  unfold callProvider
  rw [hn, hh, hc]
  refine ⟨_, _, _, _, rfl, rfl, ⟨rfl, rfl, rfl, ?_⟩, ?_, ?_⟩
  · rw [record_log, record_log]
    exact congrArg (· ++ _) hr
  · rw [record_log]
    rfl
  · rfl

/-- What a failed try adds to the record. -/
def failureRecord (rt : ReadyTarget) (t : FailedTry) : List Event :=
  [Event.failed t] ++
    if t.key.1.isNone && t.speaks then [.fed rt.idx rt.target.provider] else []

/-- The health state after a failed try. -/
def failureHealth (st : AppState) (caller : Caller) (rt : ReadyTarget) (key : PoolKey)
    (e : ProviderError) (clientBounded : Bool) (elapsed now : ℕ) (h : HealthTracker) :
    HealthTracker :=
  let tenant := caller.tenantId
  let provider := rt.target.provider
  let h := if isClientDeadlineTimeout e clientBounded then h
    else h.recordLatency tenant provider elapsed
  let h := if key.1.isNone && (Fault.error e).speaks clientBounded then
      h.recordFailure tenant provider now
    else h
  coolKeyFor st.cooldownWindows h tenant provider key e now

/-- The try that failed. -/
def failedTry (st : AppState) (caller : Caller) (rt : ReadyTarget) (key : PoolKey)
    (e : ProviderError) (fault : Fault) (clientBounded : Bool) (elapsed : ℕ) (w : World) :
    FailedTry where
  target := rt.idx
  key := key
  fault := fault
  clientBounded := clientBounded
  startedAt := w.now - elapsed
  before := w.health
  after := failureHealth st caller rt key e clientBounded elapsed w.now w.health

/-- The world after a failed try, up to its usage event. -/
def failureWorld (st : AppState) (caller : Caller) (rt : ReadyTarget) (key : PoolKey)
    (e : ProviderError) (fault : Fault) (clientBounded : Bool) (elapsed : ℕ) (event : UsageEvent)
    (w : World) : World :=
  let t := failedTry st caller rt key e fault clientBounded elapsed w
  { w with health := t.after }.log (failureRecord rt t ++ [Event.usage event])

variable (st caller rt key w) in
theorem record_failureWorld (e : ProviderError) (fault : Fault) (clientBounded : Bool)
    (elapsed : ℕ) (event : UsageEvent) :
    (failureWorld st caller rt key e fault clientBounded elapsed event w).record = w.record ++
      failureRecord rt (failedTry st caller rt key e fault clientBounded elapsed w) := by
  unfold failureWorld
  simp only
  rw [record_log, List.filter_append]
  have hfail : ∀ t, (failureRecord rt t).filter (fun e => !e.isUsage) = failureRecord rt t := by
    intro t
    refine List.filter_eq_self.2 fun x hx => ?_
    unfold failureRecord at hx
    split at hx <;> simp at hx
    · rcases hx with rfl | rfl <;> rfl
    · rw [hx]; rfl
  rw [hfail]
  simp [Event.isUsage, World.record]

/-- A failed try of a pool key, or one that does not speak against the provider, leaves every
breaker as it is. -/
theorem sameBreakers_failureHealth {e : ProviderError} {clientBounded : Bool}
    (hs : (key.1.isNone && (Fault.error e).speaks clientBounded) = false) (elapsed now : ℕ)
    (h : HealthTracker) :
    h.SameBreakers (failureHealth st caller rt key e clientBounded elapsed now h) := by
  unfold failureHealth
  simp only [hs, Bool.false_eq_true, if_false]
  have hlat : h.SameBreakers (if isClientDeadlineTimeout e clientBounded = true then h
      else h.recordLatency caller.tenantId rt.target.provider elapsed) := by
    split
    · exact fun _ _ => rfl
    · exact HealthTracker.sameBreakers_recordLatency _
  unfold coolKeyFor
  split
  · exact hlat.trans (HealthTracker.sameBreakers_coolKey _ _)
  · exact hlat

theorem Alike.failureWorld (h : Alike w w') (e : ProviderError) (fault : Fault)
    (clientBounded : Bool) (elapsed : ℕ) (event event' : UsageEvent) :
    Alike (failureWorld st caller rt key e fault clientBounded elapsed event w)
      (failureWorld st caller rt key e fault clientBounded elapsed event' w') := by
  refine ⟨h.now_eq, ?_, h.calls_eq, ?_⟩
  · change failureHealth _ _ _ _ _ _ _ _ _ = failureHealth _ _ _ _ _ _ _ _ _
    rw [h.now_eq, h.health_eq]
  · rw [record_failureWorld, record_failureWorld, failedTry, failedTry, h.now_eq, h.health_eq,
      h.record_eq]

variable (st caller rt key w) in
theorem recordAttemptFailure_eq {e : ProviderError} {fault : Fault} {clientBounded : Bool}
    (hf : fault.speaks clientBounded = (Fault.error e).speaks clientBounded) (elapsed : ℕ) :
    ∃ event, recordAttemptFailure st caller rt key e fault clientBounded elapsed w =
      (fault.speaks clientBounded,
        failureWorld st caller rt key e fault clientBounded elapsed event w) := by
  unfold recordAttemptFailure failureWorld failedTry failureHealth failureRecord FailedTry.speaks
  simp only [hf]
  exact ⟨_, rfl⟩

variable (st caller rt key w verdict) in
theorem recordEstablishFailure_eq (e : ProviderError) (clientBounded : Bool) (elapsed : ℕ) :
    ∃ event, recordEstablishFailure st caller rt key e clientBounded elapsed verdict w =
      (verdict || key.1.isSome && (Fault.error e).speaks clientBounded,
        failureWorld st caller rt key e (.error e) clientBounded elapsed event w) := by
  unfold recordEstablishFailure failureWorld failedTry failureHealth failureRecord FailedTry.speaks
  obtain ⟨i, s⟩ := key
  cases i with
  | none =>
    refine ⟨streamFailureEvent caller rt e.display, ?_⟩
    simp [coolKeyFor, Fault.speaks]
  | some i =>
    refine ⟨streamFailureEvent caller rt e.display, ?_⟩
    simp [Fault.speaks]

variable (st caller rt key w verdict) in
/-- The timeout arm books what the other arm books for the timeout error. -/
theorem recordEstablishTimeout_eq (error detail : String) (clientBounded : Bool) (elapsed : ℕ) :
    ∃ event, recordEstablishTimeout st caller rt key error clientBounded elapsed verdict w =
      (verdict || key.1.isSome && Fault.elapsed.speaks clientBounded,
        failureWorld st caller rt key (.timeout rt.target.provider detail) .elapsed clientBounded
          elapsed event w) := by
  unfold recordEstablishTimeout failureWorld failedTry failureHealth failureRecord FailedTry.speaks
  obtain ⟨i, s⟩ := key
  refine ⟨streamFailureEvent caller rt error, ?_⟩
  cases i with
  | none =>
    cases clientBounded <;>
      simp [coolKeyFor, Fault.speaks, isClientDeadlineTimeout, countsAsHealthFailure]
  | some i =>
    cases clientBounded <;>
      simp [coolKeyFor, Fault.speaks, isClientDeadlineTimeout, keyCooldownForError]

/-! ## Rounds -/

/-- What the two rounds of a key come to, from the record they start with. -/
inductive RoundAlike (caller : Caller) (deadline : Deadline) (rt : ReadyTarget) (key : PoolKey)
    (start : List Event) (verdict : Bool) :
    Round ρ × World → StreamRound ρ × Bool × Notes × World → Prop
  | skipped {e : String} {notes : Notes} {v v' : World} (h : Alike v v')
      (hr : v.record = start ++ [.skipped rt.idx key]) :
      RoundAlike caller deadline rt key start verdict (.settled (.exhausted e false none), v)
        (.gaveUp, verdict, notes, v')
  /-- The buffered loop has recorded the success already. -/
  | won {response : ρ} {elapsed : ℕ} {notes : Notes} {m v' : World} (h : Alike m v')
      (hr : m.record = start ++ [.dispatched ⟨rt.idx, rt.target.provider, key, rt.shaped⟩]) :
      RoundAlike caller deadline rt key start verdict
        (.settled (.won response elapsed), recordAttemptSuccess caller rt key elapsed m)
        (.established response elapsed, verdict, notes, v')
  | failed {e : ProviderError} {t : FailedTry} {notes : Notes} {v v' : World} (h : Alike v v')
      (ht : t.Of deadline rt key)
      (hr : v.record = start ++ [.dispatched ⟨rt.idx, rt.target.provider, key, rt.shaped⟩] ++
        failureRecord rt t) :
      RoundAlike caller deadline rt key start verdict (.failed e t.speaks, v)
        (.failed (isRetryable e rt.target.retry) (retryAfterHint e),
          verdict || key.1.isSome && t.speaks, notes, v')

/-- **One round of each loop.** -/
theorem establishRound_alike (h : Alike w w') :
    RoundAlike caller deadline rt key w.record verdict
      (attemptRound env st caller deadline rt key attempt hint w)
      (establishRound env st caller deadline rt key attempt hint verdict notes w') := by
  unfold attemptRound establishRound
  simp only
  rcases backOff_alike env deadline attempt hint h
      ("request deadline exceeded before retrying " ++ rt.target.provider)
      ("request deadline exceeded before retrying stream for " ++ rt.target.provider)
      rt.target.retry with ⟨v, v', hv, hv', hal, hrec⟩ | ⟨hv, hv'⟩
  · rw [hv, hv']
    simp only
    rcases admitTry_alike deadline hal
        "request deadline exceeded before all providers were tried"
        "request deadline exceeded before stream could be established" caller.tenantId rt.target with
      ⟨timeout, cb, probe, u, u', hu, hu', hal', hrec', htimeout, hcb⟩ |
        ⟨e, e', u, u', hu, hu', hal', hrec'⟩
    · rw [hu, hu']
      simp only
      obtain ⟨answer, elapsed, x, x', hx, hx', hal'', hrec'', hnow⟩ := callProvider_alike
        env hal' ⟨rt.idx, rt.target.provider, key, rt.shaped⟩ timeout probe
      rw [hx, hx']
      have hrecord : x.record =
          w.record ++ [.dispatched ⟨rt.idx, rt.target.provider, key, rt.shaped⟩] := by
        rw [hrec'', hrec', hrec]
      -- the call was started when it was admitted
      have hstarted : x.now - elapsed = u.now := by omega
      have hof : ∀ e fault, fault.speaks cb = (Fault.error e).speaks cb →
          (failedTry st caller rt key e fault cb elapsed x).Of deadline rt key := by
        intro e fault hspeaks
        refine ⟨rfl, rfl, fun hs => sameBreakers_failureHealth ?_ _ _ _, ?_⟩
        · rw [← hspeaks]
          exact hs
        refine ⟨timeout, ?_, hcb⟩
        simp only [failedTry, hstarted]
        exact htimeout
      have hspeaks : ∀ e, (Fault.error e).speaks cb = (Fault.error e).speaks cb := fun _ => rfl
      rcases answer with _ | e | response
      · have helapsed : Fault.elapsed.speaks cb = (Fault.error (.timeout rt.target.provider
            ("timed out after " ++ toString timeout ++ "ms"))).speaks cb := by
          cases cb <;> rfl
        obtain ⟨ev, hev⟩ := recordAttemptFailure_eq st caller rt key x helapsed elapsed
        obtain ⟨ev', hev'⟩ := recordEstablishTimeout_eq st caller rt key x' verdict
          ("provider " ++ rt.target.provider ++ " timed out establishing stream after " ++
            toString timeout ++ "ms") ("timed out after " ++ toString timeout ++ "ms") cb elapsed
        simp only [hev, hev']
        have hrec''' := record_failureWorld st caller rt key x
          (.timeout rt.target.provider ("timed out after " ++ toString timeout ++ "ms"))
          .elapsed cb elapsed ev
        rw [hrecord] at hrec'''
        exact .failed (t := failedTry st caller rt key (.timeout rt.target.provider
          ("timed out after " ++ toString timeout ++ "ms")) .elapsed cb elapsed x)
          (hal''.failureWorld _ .elapsed cb elapsed ev ev') (hof _ _ helapsed) hrec'''
      · obtain ⟨ev, hev⟩ := recordAttemptFailure_eq st caller rt key x (hspeaks e) elapsed
        obtain ⟨ev', hev'⟩ := recordEstablishFailure_eq st caller rt key x' verdict e cb elapsed
        simp only [hev, hev']
        have hrec''' := record_failureWorld st caller rt key x e (.error e) cb elapsed ev
        rw [hrecord] at hrec'''
        exact .failed (t := failedTry st caller rt key e (.error e) cb elapsed x)
          (hal''.failureWorld e (.error e) cb elapsed ev ev') (hof _ _ (hspeaks e)) hrec'''
      · exact .won hal'' hrecord
    · rw [hu, hu']
      refine .skipped (hal'.log rfl) ?_
      rw [record_log, hrec', hrec]
      rfl
  · rw [hv, hv']
    refine .skipped (h.log rfl) ?_
    rw [record_log]
    rfl

/-! ## Loops -/

theorem trail_append (es es' : List Event) :
    trail idx key (es ++ es') = trail idx key es ++ trail idx key es' := List.filterMap_append

/-- A failed try adds its verdict to the trail of its key. -/
theorem trail_failure {t : FailedTry} (ht : t.Of deadline rt key) (d : Dispatch) :
    trail rt.idx key ([.dispatched d] ++ failureRecord rt t) = [t.speaks] := by
  unfold failureRecord
  split <;> simp [trail, List.filterMap_cons, Event.verdict, ht.target_eq, ht.key_eq]

theorem isTry_failure {t : FailedTry} (ht : t.Of deadline rt key) {x : Event}
    (hx : x ∈ [.dispatched ⟨rt.idx, rt.target.provider, key, rt.shaped⟩] ++ failureRecord rt t) :
    x.isTry deadline rt key := by
  unfold failureRecord at hx
  rcases List.mem_append.1 hx with hx | hx
  · obtain rfl := List.mem_singleton.1 hx
    exact rfl
  · rcases List.mem_append.1 hx with hx | hx
    · obtain rfl := List.mem_singleton.1 hx
      exact ht
    · split at hx
      · rename_i hfeeds
        obtain rfl := List.mem_singleton.1 hx
        have hnone : t.key.1.isNone = true := (Bool.and_eq_true_iff.1 hfeeds).1
        rw [ht.key_eq] at hnone
        exact ⟨rfl, rfl, Option.isNone_iff_eq_none.1 hnone⟩
      · simp at hx

/-- What the two loops of a key come to. The buffered verdict is the last of the key's trail;
the streaming one of a pool key is met by any of it. -/
inductive LoopAlike (caller : Caller) (deadline : Deadline) (rt : ReadyTarget) (key : PoolKey)
    (start : List Event) (verdict : Bool) :
    TargetOutcome ρ × World → Option (ρ × ℕ) × Bool × Notes × World → Prop
  | exhausted {e : String} {last : Bool} {status : Option ℕ} {notes : Notes} {v v' : World}
      {seg : List Event} (h : Alike v v') (hr : v.record = start ++ seg)
      (hof : ∀ x ∈ seg, x.isTry deadline rt key)
      (hlast : (trail rt.idx key seg).getLast? = some last) :
      LoopAlike caller deadline rt key start verdict (.exhausted e last status, v)
        (none, verdict || key.1.isSome && (trail rt.idx key seg).contains true, notes, v')
  | won {response : ρ} {elapsed : ℕ} {verdict' : Bool} {notes : Notes} {m v' : World}
      {seg : List Event} (h : Alike m v') (hr : m.record = start ++ seg)
      (hof : ∀ x ∈ seg, x.isTry deadline rt key) :
      LoopAlike caller deadline rt key start verdict
        (.won response elapsed, recordAttemptSuccess caller rt key elapsed m)
        (some (response, elapsed), verdict', notes, v')

/-- Put a failed try in front of the rest of a loop. -/
theorem LoopAlike.cons {first : List Event} {f : Bool} {b : TargetOutcome ρ × World}
    {s : Option (ρ × ℕ) × Bool × Notes × World} {start : List Event}
    (hof : ∀ x ∈ first, x.isTry deadline rt key) (htrail : trail rt.idx key first = [f])
    (h : LoopAlike caller deadline rt key (start ++ first) (verdict || key.1.isSome && f) b s) :
    LoopAlike caller deadline rt key start verdict b s := by
  cases h with
  | @exhausted e last status notes v v' seg h hr hof' hlast =>
    have htrail' : trail rt.idx key (first ++ seg) = f :: trail rt.idx key seg := by
      rw [trail_append, htrail]
      rfl
    have hverdict : (verdict || key.1.isSome && f ||
        key.1.isSome && (trail rt.idx key seg).contains true) =
          (verdict || key.1.isSome && (trail rt.idx key (first ++ seg)).contains true) := by
      rw [htrail']
      cases verdict <;> cases key.1.isSome <;> cases f <;> simp
    rw [hverdict]
    refine .exhausted h (by rw [hr, List.append_assoc]) ?_ ?_
    · intro x hx
      exact (List.mem_append.1 hx).elim (hof x) (hof' x)
    · rw [htrail', List.getLast?_cons, hlast]
      rfl
  | @won response elapsed verdict' notes m v' seg h hr hof' =>
    refine .won h (by rw [hr, List.append_assoc]) ?_
    intro x hx
    exact (List.mem_append.1 hx).elim (hof x) (hof' x)

/-- A skipped try ends both loops with no verdict of its own. -/
theorem LoopAlike.skipped {e : String} {v v' : World} {start : List Event} (h : Alike v v')
    (hr : v.record = start ++ [.skipped rt.idx key]) :
    LoopAlike caller deadline rt key start verdict ((.exhausted e false none : TargetOutcome ρ), v)
      (none, verdict, notes, v') := by
  have htrail : trail rt.idx key [.skipped rt.idx key] = [false] := by
    simp [trail, Event.verdict]
  have hlast : (trail rt.idx key [.skipped rt.idx key]).getLast? = some false := by
    rw [htrail]
    rfl
  have hof : ∀ x ∈ [Event.skipped rt.idx key], x.isTry deadline rt key := by
    intro x hx
    obtain rfl := List.mem_singleton.1 hx
    exact ⟨rfl, rfl⟩
  have hloop : LoopAlike caller deadline rt key start verdict
      ((.exhausted e false none : TargetOutcome ρ), v)
      (none, verdict || key.1.isSome && (trail rt.idx key [.skipped rt.idx key]).contains true,
        notes, v') := .exhausted h hr hof hlast
  rw [htrail] at hloop
  simpa using hloop

/-- A failed try that is not retried ends both loops on its verdict. -/
theorem LoopAlike.failed {e : String} {status : Option ℕ} {first start : List Event} {f : Bool}
    {v v' : World} (h : Alike v v') (hr : v.record = start ++ first)
    (hof : ∀ x ∈ first, x.isTry deadline rt key) (htrail : trail rt.idx key first = [f]) :
    LoopAlike caller deadline rt key start verdict ((.exhausted e f status : TargetOutcome ρ), v)
      (none, verdict || key.1.isSome && f, notes, v') := by
  have hlast : (trail rt.idx key first).getLast? = some f := by
    rw [htrail]
    rfl
  have hloop : LoopAlike caller deadline rt key start verdict
      ((.exhausted e f status : TargetOutcome ρ), v)
      (none, verdict || key.1.isSome && (trail rt.idx key first).contains true, notes, v') :=
    .exhausted h hr hof hlast
  rw [htrail] at hloop
  simpa using hloop

/-- **The loops of one key.** By induction on the retries left. -/
theorem establishLoop_alike (h : Alike w w') :
    LoopAlike caller deadline rt key w.record verdict
      (attemptLoop env st caller deadline rt key left attempt hint w)
      (establishLoop env st caller deadline rt key left attempt hint verdict notes w') := by
  induction left generalizing attempt hint verdict notes w w' with
  | zero =>
    have hround : RoundAlike caller deadline rt key w.record verdict
        (attemptRound env st caller deadline rt key attempt hint w)
        (establishRound env st caller deadline rt key attempt hint verdict notes w') :=
      establishRound_alike h
    unfold attemptLoop establishLoop
    generalize attemptRound env st caller deadline rt key attempt hint w = b at hround ⊢
    generalize establishRound env st caller deadline rt key attempt hint verdict notes w' = s
      at hround ⊢
    cases hround with
    | skipped hal hr => exact .skipped hal hr
    | won hal hr =>
      refine .won hal hr ?_
      intro x hx
      obtain rfl := List.mem_singleton.1 hx
      exact rfl
    | failed hal ht hr =>
      rw [List.append_assoc] at hr
      exact .failed hal hr (fun x hx => isTry_failure ht hx) (trail_failure ht _)
  | succ left ih =>
    have hround : RoundAlike caller deadline rt key w.record verdict
        (attemptRound env st caller deadline rt key attempt hint w)
        (establishRound env st caller deadline rt key attempt hint verdict notes w') :=
      establishRound_alike h
    unfold attemptLoop establishLoop
    generalize attemptRound env st caller deadline rt key attempt hint w = b at hround ⊢
    generalize establishRound env st caller deadline rt key attempt hint verdict notes w' = s
      at hround ⊢
    cases hround with
    | skipped hal hr => exact .skipped hal hr
    | won hal hr =>
      refine .won hal hr ?_
      intro x hx
      obtain rfl := List.mem_singleton.1 hx
      exact rfl
    | failed hal ht hr =>
      rw [List.append_assoc] at hr
      simp only [hal.now_eq]
      -- both decide the retry by the error, the retries left and the time left
      split
      · refine .cons (fun x hx => isTry_failure ht hx) (trail_failure ht _) ?_
        rw [← hr]
        exact ih hal
      · exact .failed hal hr (fun x hx => isTry_failure ht hx) (trail_failure ht _)

/-! ## Targets -/

theorem verdict_other {k : PoolKey} {x : Event} (hne : k ≠ key) (hx : x.isTry deadline rt key) :
    x.verdict rt.idx k = none := by
  cases x with
  | failed t =>
    have hkey : t.key ≠ k := fun h => hne (h.symm.trans hx.key_eq)
    simp [Event.verdict, hkey]
  | skipped i k' =>
    obtain ⟨-, rfl⟩ := hx
    simp [Event.verdict, Ne.symm hne]
  | dispatched d => rfl
  | fed i p => rfl
  | usage e => exact hx.elim

theorem trail_other {k : PoolKey} {seg : List Event} (hne : k ≠ key)
    (hof : ∀ x ∈ seg, x.isTry deadline rt key) : trail rt.idx k seg = [] :=
  List.filterMap_eq_nil_iff.2 fun x hx => verdict_other hne (hof x hx)

/-- The trail of a key over the events of other keys is empty. -/
theorem trail_others {keys : List PoolKey} {k : PoolKey} {seg : List Event} (hk : k ∉ keys)
    (hof : ∀ x ∈ seg, ∃ key ∈ keys, x.isTry deadline rt key) : trail rt.idx k seg = [] := by
  refine List.filterMap_eq_nil_iff.2 fun x hx => ?_
  obtain ⟨key, hkey, hx'⟩ := hof x hx
  exact verdict_other (fun h => hk (h ▸ hkey)) hx'

/-- Some key's last try speaks against the provider. -/
def endsAgainst (idx : ℕ) (keys : List PoolKey) (seg : List Event) : Bool :=
  keys.any fun k => (trail idx k seg).getLast? == some true

/-- Some try of some pool key speaks against the provider. -/
def speaksAgainst (idx : ℕ) (keys : List PoolKey) (seg : List Event) : Bool :=
  keys.any fun k => k.1.isSome && (trail idx k seg).contains true

theorem any_congr {α : Type*} {l : List α} {p q : α → Bool} (h : ∀ a ∈ l, p a = q a) :
    l.any p = l.any q := by
  induction l with
  | nil => rfl
  | cons a l ih =>
    rw [List.any_cons, List.any_cons, h a List.mem_cons_self,
      ih fun b hb => h b (List.mem_cons_of_mem _ hb)]

/-- The trails of a first key and of the others do not mix. -/
theorem trail_cons {keys : List PoolKey} {seg rest : List Event} (hkey : key ∉ keys)
    (hof : ∀ x ∈ seg, x.isTry deadline rt key)
    (hof' : ∀ x ∈ rest, ∃ k ∈ keys, x.isTry deadline rt k) :
    trail rt.idx key (seg ++ rest) = trail rt.idx key seg ∧
      ∀ k ∈ keys, trail rt.idx k (seg ++ rest) = trail rt.idx k rest := by
  refine ⟨?_, fun k hk => ?_⟩
  · rw [trail_append, trail_others hkey hof', List.append_nil]
  · have hne : k ≠ key := fun h => hkey (h ▸ hk)
    rw [trail_append, trail_other hne hof, List.nil_append]

theorem endsAgainst_cons {keys : List PoolKey} {seg rest : List Event} (hkey : key ∉ keys)
    (hof : ∀ x ∈ seg, x.isTry deadline rt key)
    (hof' : ∀ x ∈ rest, ∃ k ∈ keys, x.isTry deadline rt k) {last : Bool}
    (hlast : (trail rt.idx key seg).getLast? = some last) :
    endsAgainst rt.idx (key :: keys) (seg ++ rest) = (last || endsAgainst rt.idx keys rest) := by
  obtain ⟨hfirst, hothers⟩ := trail_cons hkey hof hof'
  unfold endsAgainst
  rw [List.any_cons, hfirst, hlast]
  have hrest : (keys.any fun k => (trail rt.idx k (seg ++ rest)).getLast? == some true) =
      keys.any fun k => (trail rt.idx k rest).getLast? == some true :=
    any_congr fun k hk => by rw [hothers k hk]
  rw [hrest]
  cases last <;> rfl

theorem speaksAgainst_cons {keys : List PoolKey} {seg rest : List Event} (hkey : key ∉ keys)
    (hof : ∀ x ∈ seg, x.isTry deadline rt key)
    (hof' : ∀ x ∈ rest, ∃ k ∈ keys, x.isTry deadline rt k) :
    speaksAgainst rt.idx (key :: keys) (seg ++ rest) =
      (key.1.isSome && (trail rt.idx key seg).contains true || speaksAgainst rt.idx keys rest) := by
  obtain ⟨hfirst, hothers⟩ := trail_cons hkey hof hof'
  unfold speaksAgainst
  rw [List.any_cons, hfirst]
  congr 1
  exact any_congr fun k hk => by rw [hothers k hk]

/-- What the walks over the keys of a target come to. -/
inductive KeysAlike (caller : Caller) (deadline : Deadline) (rt : ReadyTarget)
    (keys : List PoolKey) (start : List Event) (last any : Bool) :
    Option (ρ × ℕ) × Bool × Notes × World → Option (ρ × ℕ) × Bool × Notes × World → Prop
  | exhausted {notes notes' : Notes} {v v' : World} {seg : List Event} (h : Alike v v')
      (hr : v.record = start ++ seg) (hof : ∀ x ∈ seg, ∃ key ∈ keys, x.isTry deadline rt key) :
      KeysAlike caller deadline rt keys start last any
        (none, last || endsAgainst rt.idx keys seg, notes, v)
        (none, any || speaksAgainst rt.idx keys seg, notes', v')
  /-- The streaming walk records the latency and the success afterwards. -/
  | won {response : ρ} {elapsed : ℕ} {last' any' : Bool} {notes notes' : Notes} {v v' : World}
      {seg : List Event}
      (h : Alike v { v' with health := (v'.health.recordLatency caller.tenantId rt.target.provider
        elapsed).recordSuccess caller.tenantId rt.target.provider })
      (hr : v.record = start ++ seg) (hof : ∀ x ∈ seg, ∃ key ∈ keys, x.isTry deadline rt key) :
      KeysAlike caller deadline rt keys start last any (some (response, elapsed), last', notes, v)
        (some (response, elapsed), any', notes', v')

/-- **The keys of one target.** By induction on the keys. -/
theorem establishKeys_alike (hres : (st.resolveProvider caller.tenantId rt.target.provider).isSome)
    {keys : List PoolKey} (hnodup : keys.Nodup) {last any : Bool} {notes' : Notes}
    (h : Alike w w') :
    KeysAlike caller deadline rt keys w.record last any
      (walkKeys (attemptTarget env st caller deadline rt) keys last notes w)
      (establishKeys env st caller deadline rt keys any notes' w') := by
  obtain ⟨adapter, hadapter⟩ := Option.isSome_iff_exists.1 hres
  induction keys generalizing last any notes notes' w w' with
  | nil =>
    have hnone : KeysAlike caller deadline rt [] w.record last any
        ((none : Option (ρ × ℕ)), last || endsAgainst rt.idx [] [], notes, w)
        (none, any || speaksAgainst rt.idx [] [], notes', w') :=
      .exhausted h (List.append_nil _).symm (by simp)
    simpa [walkKeys, establishKeys, endsAgainst, speaksAgainst] using hnone
  | cons key keys ih =>
    obtain ⟨hkey, hnodup'⟩ := List.nodup_cons.1 hnodup
    have hloop : LoopAlike caller deadline rt key w.record any
        (attemptLoop env st caller deadline rt key rt.target.retry.attempts 0 none w)
        (establishLoop env st caller deadline rt key rt.target.retry.attempts 0 none any notes' w') :=
      establishLoop_alike h
    unfold walkKeys establishKeys
    simp only [attemptTarget, hadapter]
    generalize attemptLoop env st caller deadline rt key rt.target.retry.attempts 0 none w = b
      at hloop ⊢
    generalize establishLoop env st caller deadline rt key rt.target.retry.attempts 0 none any
      notes' w' = s at hloop ⊢
    cases hloop with
    | @exhausted e lst status n v v' seg hal hr hof hlast =>
      -- the key fails in both walks, which go on from worlds that are alike
      simp only
      have hrest : KeysAlike caller deadline rt keys v.record (last || lst)
          (any || key.1.isSome && (trail rt.idx key seg).contains true)
          (walkKeys (attemptTarget env st caller deadline rt) keys (last || lst)
            (notes.exhausted e status) v)
          (establishKeys env st caller deadline rt keys
            (any || key.1.isSome && (trail rt.idx key seg).contains true) n v') :=
        ih hnodup' hal
      generalize walkKeys (attemptTarget env st caller deadline rt) keys (last || lst)
        (notes.exhausted e status) v = b at hrest ⊢
      generalize establishKeys env st caller deadline rt keys
        (any || key.1.isSome && (trail rt.idx key seg).contains true) n v' = s at hrest ⊢
      have hof_append : ∀ {rest : List Event}, (∀ x ∈ rest, ∃ k ∈ keys, x.isTry deadline rt k) →
          ∀ x ∈ seg ++ rest, ∃ k ∈ key :: keys, x.isTry deadline rt k := by
        intro rest hof' x hx
        rcases List.mem_append.1 hx with hx | hx
        · exact ⟨key, List.mem_cons_self, hof x hx⟩
        · obtain ⟨k, hk, hx'⟩ := hof' x hx
          exact ⟨k, List.mem_cons_of_mem _ hk, hx'⟩
      cases hrest with
      | @exhausted n1 n2 u u' rest hal' hr' hof' =>
        rw [Bool.or_assoc, Bool.or_assoc, ← endsAgainst_cons hkey hof hof' hlast,
          ← speaksAgainst_cons hkey hof hof']
        exact .exhausted hal' (by rw [hr', hr, List.append_assoc]) (hof_append hof')
      | @won r ms l a n1 n2 u u' rest hal' hr' hof' =>
        exact .won hal' (by rw [hr', hr, List.append_assoc]) (hof_append hof')
    | @won response elapsed verdict' n m v' seg hal hr hof =>
      simp only
      have hof' : ∀ x ∈ seg, ∃ k ∈ key :: keys, x.isTry deadline rt k :=
        fun x hx => ⟨key, List.mem_cons_self, hof x hx⟩
      unfold recordAttemptSuccess
      cases hi : key.1 with
      | none =>
        exact .won (hal.withHealth fun h => (h.recordLatency caller.tenantId rt.target.provider
          elapsed).recordSuccess caller.tenantId rt.target.provider) hr hof'
      | some i =>
        refine .won ?_ hr hof'
        -- one walk clears the key after the success is recorded, the other before: cells apart
        have hswap := hal.withHealth fun h => ((h.recordLatency caller.tenantId rt.target.provider
          elapsed).recordSuccess caller.tenantId rt.target.provider).clearKey caller.tenantId
            rt.target.provider i
        refine ⟨hswap.now_eq, ?_, hswap.calls_eq, hswap.record_eq⟩
        simp only [HealthTracker.recordLatency, HealthTracker.recordSuccess,
          HealthTracker.clearKey_withHealth, hal.health_eq]

end

end Routeplane
