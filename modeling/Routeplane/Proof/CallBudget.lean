import Routeplane.Proof.Dispatch

/-!
# What a request may spend

A request has a deadline, and each of its targets a number of retries. Whatever the providers answer
and whatever other requests do meanwhile, an executor is done by the tightest of the server's, the
routing config's and the caller's bounds, and calls a key of a target once and once more for each
retry.

* `attemptLoop_spent`: the loop of one key, by induction on its retries.
* `served_budgeted`: the calls and the end of every executor.
-/

namespace Routeplane

/-- A call of one key of one target. -/
def Event.isCall (idx : ℕ) (key : PoolKey) : Event → Bool
  | .dispatched d => decide (d.target = idx ∧ d.key = key)
  | _ => false

/-- How often a key of a target is called. -/
def callsOf (idx : ℕ) (key : PoolKey) (record : List Event) : ℕ := record.countP (Event.isCall idx key)

/-- `n` calls of each of some keys of one target. -/
def keyQuota (idx : ℕ) (keys : List PoolKey) (n : ℕ) (i : ℕ) (key : PoolKey) : ℕ :=
  if i = idx ∧ key ∈ keys then n else 0

/-- The calls a plan allows each key of a target. -/
def planQuota (targets : List TargetPlan) (i : ℕ) : ℕ :=
  match targets[i]? with
  | some target => target.retry.attempts + 1
  | none => 0

/-- What a target allows each of its keys. -/
def ReadyTarget.quota (rt : ReadyTarget) (i : ℕ) : ℕ :=
  if i = rt.idx then rt.target.retry.attempts + 1 else 0

/-- What the ready targets allow together. -/
def readyQuota (ready : List ReadyTarget) (i : ℕ) (_ : PoolKey) : ℕ :=
  (ready.map fun rt => rt.quota i).sum

/-- What the targets from a position on allow. -/
def restQuota (targets : List TargetPlan) (idx i : ℕ) (_ : PoolKey) : ℕ :=
  if idx ≤ i then planQuota targets i else 0

/-- From one world to another no more calls than allowed are made, and the clock does not pass an
instant it had not passed before. -/
structure Spent (limit : ℕ) (quota : ℕ → PoolKey → ℕ) (w w' : World) : Prop where
  in_time : w'.now ≤ max w.now limit
  calls : ∀ i key, callsOf i key w'.record ≤ callsOf i key w.record + quota i key

section

variable {ρ : Type} {env : Env ρ} {st : AppState} {caller : Caller} {deadline : Deadline}
  {rt : ReadyTarget} {key : PoolKey} {w w' w'' : World} {attempt left : ℕ} {hint : Option ℕ}
  {notes : Notes} {limit : ℕ} {quota quota' : ℕ → PoolKey → ℕ}

theorem Spent.refl (quota : ℕ → PoolKey → ℕ) (w : World) : Spent limit quota w w :=
  ⟨le_max_left _ _, fun _ _ => Nat.le_add_right _ _⟩

theorem Spent.mono (h : Spent limit quota w w') (hle : ∀ i key, quota i key ≤ quota' i key) :
    Spent limit quota' w w' :=
  ⟨h.in_time, fun i key => (h.calls i key).trans (Nat.add_le_add_left (hle i key) _)⟩

theorem Spent.trans (h : Spent limit quota w w') (h' : Spent limit quota' w' w'') :
    Spent limit (fun i key => quota i key + quota' i key) w w'' := by
  refine ⟨?_, fun i key => ?_⟩
  · have := h.in_time
    have := h'.in_time
    omega
  · have := h.calls i key
    have := h'.calls i key
    omega

theorem Spent.of_alike (h : Spent limit quota w w') (hal : Alike w' w'') : Spent limit quota w w'' :=
  ⟨by rw [← hal.now_eq]; exact h.in_time, by rw [← hal.record_eq]; exact h.calls⟩

theorem callsOf_append (i : ℕ) (key : PoolKey) (es es' : List Event) :
    callsOf i key (es ++ es') = callsOf i key es + callsOf i key es' := List.countP_append

/-- A step of the clock and of the record: what it adds is no call, or one. -/
theorem Spent.of_log {added : List Event} (hnow : w'.now ≤ max w.now limit)
    (hrec : w'.record = w.record ++ added) (hcalls : ∀ i key, callsOf i key added ≤ quota i key) :
    Spent limit quota w w' := by
  refine ⟨hnow, fun i key => ?_⟩
  rw [hrec, callsOf_append]
  exact Nat.add_le_add_left (hcalls i key) _

theorem Spent.feedPool (h : Spent limit quota w w') : Spent limit quota w (feedPool caller rt w') := by
  refine ⟨h.in_time, fun i key => ?_⟩
  rw [record_feedPool, callsOf_append]
  exact h.calls i key

/-! ## One key -/

/-- The events of one try: at most one call, and of its own key. -/
theorem callsOf_try {t : FailedTry} (i : ℕ) (key' : PoolKey) :
    callsOf i key' ([.dispatched ⟨rt.idx, rt.target.provider, key, rt.shaped⟩] ++ failureRecord rt t) =
      keyQuota rt.idx [key] 1 i key' := by
  have hfail : callsOf i key' (failureRecord rt t) = 0 := by
    unfold failureRecord callsOf
    split <;> rfl
  rw [callsOf_append, hfail]
  unfold callsOf keyQuota
  by_cases h : rt.idx = i ∧ key = key'
  · simp [Event.isCall, h]
  · have h' : ¬(i = rt.idx ∧ key' = key) := fun hh => h ⟨hh.1.symm, hh.2.symm⟩
    simp [Event.isCall, h, h']

theorem callsOf_call (i : ℕ) (key' : PoolKey) :
    callsOf i key' [.dispatched ⟨rt.idx, rt.target.provider, key, rt.shaped⟩] =
      keyQuota rt.idx [key] 1 i key' := by
  unfold callsOf keyQuota
  by_cases h : rt.idx = i ∧ key = key'
  · simp [Event.isCall, h]
  · have h' : ¬(i = rt.idx ∧ key' = key) := fun hh => h ⟨hh.1.symm, hh.2.symm⟩
    simp [Event.isCall, h, h']

/-- A pause that is taken fits into what is left. -/
theorem backOff_in_time {late : String} {retry : RetryPolicy} {v : World}
    (h : backOff env late retry deadline attempt hint w = .ok v) :
    v.now ≤ max w.now deadline.expiresAt := by
  unfold backOff at h
  split at h
  · rw [Except.ok.inj h]
    exact le_max_left _ _
  · simp only at h
    split at h
    · cases h
    · rename_i hfits
      unfold Deadline.remaining at hfits
      split at h
      · rw [Except.ok.inj h]
        exact le_max_left _ _
      · rw [← Except.ok.inj h]
        simp only
        omega

/-- The checks take no time, and let a call run for no longer than what is left. -/
theorem admitTry_spec {late tenant : String} {target : TargetPlan} {a : Admission} {v : World}
    (h : admitTry late tenant target deadline w = (a, v)) :
    v.now = w.now ∧ ∀ timeout bounded probe, a = .go timeout bounded probe →
      timeout ≤ deadline.remaining w.now := by
  unfold admitTry at h
  simp only at h
  split at h
  · obtain ⟨rfl, rfl⟩ := Prod.mk.inj h
    exact ⟨rfl, by simp⟩
  · split at h
    · obtain ⟨rfl, rfl⟩ := Prod.mk.inj h
      exact ⟨rfl, by simp⟩
    · rename_i allowed hallowed
      have hleft := (Deadline.nextAttemptTimeoutCapped_eq hallowed).2
      split at h
      · obtain ⟨rfl, rfl⟩ := Prod.mk.inj h
        exact ⟨rfl, by simp⟩
      · obtain ⟨rfl, rfl⟩ := Prod.mk.inj h
        refine ⟨rfl, fun timeout bounded probe hgo => ?_⟩
        obtain rfl : allowed = timeout := (Admission.go.inj hgo).1
        omega

/-- A call ends by its timeout. -/
theorem callProvider_in_time {d : Dispatch} {timeout : ℕ} {probe : ProbeAdmission}
    (htimeout : timeout ≤ deadline.remaining w.now) :
    (callProvider env d timeout probe w).2.2.now ≤ max w.now deadline.expiresAt := by
  have hnow : (callProvider env d timeout probe w).2.2.now =
      w.now + min (env.reply w.calls).takes timeout := rfl
  unfold Deadline.remaining at htimeout
  omega

/-- One round passes the deadline only if it had passed before. -/
theorem attemptRound_in_time :
    (attemptRound env st caller deadline rt key attempt hint w).2.now ≤
      max w.now deadline.expiresAt := by
  unfold attemptRound
  simp only
  split
  · exact le_max_left _ _
  · rename_i v hv
    have hpause := backOff_in_time hv
    split
    · rename_i e u hu
      have hsame := (admitTry_spec hu).1
      show u.now ≤ _
      omega
    · rename_i timeout bounded probe u hu
      obtain ⟨hsame, hallowed⟩ := admitTry_spec hu
      have hcall : (callProvider env ⟨rt.idx, rt.target.provider, key, rt.shaped⟩ timeout probe
          u).2.2.now ≤ max u.now deadline.expiresAt :=
        callProvider_in_time (by rw [hsame]; exact hallowed _ _ _ rfl)
      split <;> rename_i x hx <;> rw [hx] at hcall
      · have hnow : ∀ elapsed, (recordAttemptSuccess caller rt key elapsed x).now = x.now := by
          intro elapsed
          unfold recordAttemptSuccess
          split <;> rfl
        simp only [hnow] at hcall ⊢
        omega
      · have hnow : ∀ e fault elapsed, (recordAttemptFailure st caller rt key e fault bounded elapsed
            x).2.now = x.now := fun _ _ _ => rfl
        simp only [hnow] at hcall ⊢
        omega
      · have hnow : ∀ e fault elapsed, (recordAttemptFailure st caller rt key e fault bounded elapsed
            x).2.now = x.now := fun _ _ _ => rfl
        simp only [hnow] at hcall ⊢
        omega

variable (env st caller deadline rt key attempt hint w) in
/-- **One round** makes one call at most. -/
theorem attemptRound_spent : Spent deadline.expiresAt (keyQuota rt.idx [key] 1) w
    (attemptRound env st caller deadline rt key attempt hint w).2 := by
  have htime : (attemptRound env st caller deadline rt key attempt hint w).2.now ≤
      max w.now deadline.expiresAt := attemptRound_in_time
  have hround : RoundAlike caller deadline rt key w.record false
      (attemptRound env st caller deadline rt key attempt hint w)
      (establishRound env st caller deadline rt key attempt hint false {} w) :=
    establishRound_alike (.refl w)
  generalize attemptRound env st caller deadline rt key attempt hint w = b at hround htime
  generalize establishRound env st caller deadline rt key attempt hint false {} w = s at hround
  cases hround with
  | skipped hal hr => exact .of_log htime hr fun i key' => Nat.zero_le _
  | @won response elapsed notes m v' hal hr =>
    have hsame : (recordAttemptSuccess caller rt key elapsed m).record = m.record := by
      unfold recordAttemptSuccess
      split <;> rfl
    exact .of_log htime (hsame.trans hr) fun i key' => (callsOf_call i key').le
  | failed hal ht hr =>
    rw [List.append_assoc] at hr
    exact .of_log htime hr fun i key' => (callsOf_try i key').le

theorem keyQuota_add (idx : ℕ) (keys : List PoolKey) (m n i : ℕ) (key : PoolKey) :
    keyQuota idx keys m i key + keyQuota idx keys n i key = keyQuota idx keys (m + n) i key := by
  unfold keyQuota
  split <;> rfl

theorem keyQuota_mono {idx m n i : ℕ} {keys : List PoolKey} {key : PoolKey} (h : m ≤ n) :
    keyQuota idx keys m i key ≤ keyQuota idx keys n i key := by
  unfold keyQuota
  split
  · exact h
  · exact le_rfl

/-- **The loop of one key**, by induction on the retries left. -/
theorem attemptLoop_spent : Spent deadline.expiresAt (keyQuota rt.idx [key] (left + 1)) w
    (attemptLoop env st caller deadline rt key left attempt hint w).2 := by
  induction left generalizing attempt hint w with
  | zero =>
    have hround := attemptRound_spent env st caller deadline rt key w attempt hint
    unfold attemptLoop
    split <;> rename_i heq <;> rw [heq] at hround <;> exact hround
  | succ left ih =>
    have hround := attemptRound_spent env st caller deadline rt key w attempt hint
    have hone : ∀ v, Spent deadline.expiresAt (keyQuota rt.idx [key] 1) w v →
        Spent deadline.expiresAt (keyQuota rt.idx [key] (left + 1 + 1)) w v :=
      fun v hv => hv.mono fun i key' => keyQuota_mono (Nat.le_add_left 1 _)
    unfold attemptLoop
    split
    · rename_i heq
      rw [heq] at hround
      exact hone _ hround
    · rename_i heq
      rw [heq] at hround
      simp only
      split
      · refine (hround.trans ih).mono fun i key' => ?_
        rw [keyQuota_add]
        exact keyQuota_mono (by omega)
      · exact hone _ hround

variable (env st caller deadline rt key w) in
theorem attemptTarget_spent :
    Spent deadline.expiresAt (keyQuota rt.idx [key] (rt.target.retry.attempts + 1)) w
      (attemptTarget env st caller deadline rt key w).2 := by
  unfold attemptTarget
  split
  · exact .refl _ _
  · exact attemptLoop_spent

/-! ## The walks -/

variable (env st caller deadline rt) in
/-- **The keys of one target**, by induction on the keys. -/
theorem walkKeys_spent {keys : List PoolKey} (hnodup : keys.Nodup) (verdict : Bool) (notes : Notes)
    (w : World) : Spent deadline.expiresAt (keyQuota rt.idx keys (rt.target.retry.attempts + 1)) w
      (walkKeys (attemptTarget env st caller deadline rt) keys verdict notes w).2.2.2 := by
  induction keys generalizing verdict notes w with
  | nil => exact .refl _ _
  | cons key keys ih =>
    obtain ⟨hkey, hnodup'⟩ := List.nodup_cons.1 hnodup
    have htarget := attemptTarget_spent env st caller deadline rt key w
    have hsplit : ∀ i key', keyQuota rt.idx [key] (rt.target.retry.attempts + 1) i key' +
        keyQuota rt.idx keys (rt.target.retry.attempts + 1) i key' ≤
          keyQuota rt.idx (key :: keys) (rt.target.retry.attempts + 1) i key' := by
      intro i key'
      unfold keyQuota
      by_cases hi : i = rt.idx
      · by_cases hk : key' = key
        · subst hk
          simp [hi, hkey]
        · simp [hi, hk]
      · simp [hi]
    unfold walkKeys
    split
    · rename_i heq
      rw [heq] at htarget
      exact htarget.mono fun i key' => (Nat.le_add_right _ _).trans (hsplit i key')
    · rename_i heq
      rw [heq] at htarget
      exact (htarget.trans (ih hnodup' _ _ _)).mono hsplit

theorem keyQuota_le_quota (rt : ReadyTarget) (keys : List PoolKey) (i : ℕ) (key : PoolKey) :
    keyQuota rt.idx keys (rt.target.retry.attempts + 1) i key ≤ rt.quota i := by
  unfold keyQuota ReadyTarget.quota
  split <;> split <;> first | exact le_rfl | exact Nat.zero_le _ | tauto

variable (env st caller deadline) in
/-- **The buffered walk**, by induction on the targets. -/
theorem bufferedWalk_spent (ready : List ReadyTarget) (notes : Notes) (w : World) :
    Spent deadline.expiresAt (readyQuota ready) w
      (bufferedWalk env st caller deadline ready notes w).2.2 := by
  unfold bufferedWalk
  induction ready generalizing notes w with
  | nil => exact .refl _ _
  | cons rt rest ih =>
    have hkeys := walkKeys_spent env st caller deadline rt rt.keys_nodup false notes w
    have hcons : ∀ i key, keyQuota rt.idx rt.keys (rt.target.retry.attempts + 1) i key +
        readyQuota rest i key ≤ readyQuota (rt :: rest) i key :=
      fun i key => Nat.add_le_add_right (keyQuota_le_quota rt rt.keys i key) _
    unfold sequentialWalk
    split
    · rename_i heq
      rw [heq] at hkeys
      exact hkeys.mono fun i key => (Nat.le_add_right _ _).trans (hcons i key)
    · rename_i verdict n v heq
      rw [heq] at hkeys
      have hfed : Spent deadline.expiresAt (keyQuota rt.idx rt.keys (rt.target.retry.attempts + 1)) w
          (if (rt.firstKey.1.isSome && verdict) = true then feedPool caller rt v else v) := by
        split
        · exact hkeys.feedPool
        · exact hkeys
      exact (hfed.trans (ih _ _)).mono hcons

/-- Targets at different positions share no quota. -/
theorem readyQuota_le {targets : List TargetPlan} {ready : List ReadyTarget}
    (hplanned : ∀ rt ∈ ready, targets[rt.idx]? = some rt.target)
    (hidx : DistinctIdx ready) (i : ℕ) (key : PoolKey) :
    readyQuota ready i key ≤ planQuota targets i := by
  induction ready with
  | nil => exact Nat.zero_le _
  | cons rt rest ih =>
    obtain ⟨hfresh, hidx'⟩ := List.nodup_cons.1 hidx
    have hrest := ih (fun r hr => hplanned r (List.mem_cons_of_mem _ hr)) hidx'
    have hcons : readyQuota (rt :: rest) i key = rt.quota i + readyQuota rest i key := rfl
    rw [hcons]
    by_cases hi : i = rt.idx
    · -- no other target is at this position
      have hzero : readyQuota rest i key = 0 := by
        refine List.sum_eq_zero fun n hn => ?_
        obtain ⟨r, hr, rfl⟩ := List.mem_map.1 hn
        refine if_neg fun hri => hfresh ?_
        rw [← hi, hri]
        exact List.mem_map_of_mem hr
      have hquota : rt.quota i = rt.target.retry.attempts + 1 := if_pos hi
      rw [hzero, Nat.add_zero, hquota, planQuota, hi, hplanned rt List.mem_cons_self]
    · have hzero : rt.quota i = 0 := if_neg hi
      rw [hzero, Nat.zero_add]
      exact hrest

variable (env st deadline) in
/-- **The streaming walk**, by induction on the targets: the keys of each go as in the buffered
one. -/
theorem streamTargets_spent (r : PlannedRequest) (backoffSeed : ℕ → BitVec 64) (now : ℕ)
    {rest : List TargetPlan} {idx : ℕ} (hdrop : r.targets.drop idx = rest) (notes : Notes)
    (w : World) : Spent deadline.expiresAt (restQuota r.targets idx) w
      (streamTargets env st r.key r.caller deadline r.payload backoffSeed now rest idx notes
        w).2.2 := by
  induction rest generalizing idx notes w with
  | nil => exact .refl _ _
  | cons target rest ih =>
    obtain ⟨htarget, hdrop'⟩ := drop_cons hdrop
    have hlater : ∀ i key, restQuota r.targets (idx + 1) i key ≤ restQuota r.targets idx i key := by
      intro i key
      unfold restQuota
      split <;> split <;> first | exact le_rfl | exact Nat.zero_le _ | omega
    unfold streamTargets
    simp only
    split
    · exact (ih hdrop' _ w).mono hlater
    · rename_i rt hok
      have hrt := readies_of_ok htarget hok
      obtain ⟨hidx, -, -, -⟩ := readyTarget_ok hok
      have hsplit : ∀ i key, keyQuota rt.idx rt.keys (rt.target.retry.attempts + 1) i key +
          restQuota r.targets (idx + 1) i key ≤ restQuota r.targets idx i key := by
        intro i key
        by_cases hi : i = rt.idx
        · have hplan : restQuota r.targets idx i key = rt.target.retry.attempts + 1 := by
            unfold restQuota planQuota
            rw [if_pos (by omega), hi, hrt.planned]
          have hzero : restQuota r.targets (idx + 1) i key = 0 := by
            unfold restQuota
            rw [if_neg (by omega)]
          rw [hplan, hzero, Nat.add_zero]
          unfold keyQuota
          split
          · exact le_rfl
          · exact Nat.zero_le _
        · have hzero : keyQuota rt.idx rt.keys (rt.target.retry.attempts + 1) i key = 0 := by
            unfold keyQuota
            rw [if_neg fun h => hi h.1]
          rw [hzero, Nat.zero_add]
          exact hlater i key
      have hkeys : KeysAlike r.caller deadline rt rt.keys w.record false false
          (walkKeys (attemptTarget env st r.caller deadline rt) rt.keys false notes w)
          (establishKeys env st r.caller deadline rt rt.keys false notes w) :=
        establishKeys_alike hrt.callable.known rt.keys_nodup (.refl w)
      have hspent := walkKeys_spent env st r.caller deadline rt rt.keys_nodup false notes w
      generalize walkKeys (attemptTarget env st r.caller deadline rt) rt.keys false notes w = b
        at hkeys hspent
      generalize establishKeys env st r.caller deadline rt rt.keys false notes w = s at hkeys ⊢
      cases hkeys with
      | @exhausted n n' v v' seg hal hr hof =>
        have hv' := hspent.of_alike hal
        simp only
        have hfed : Spent deadline.expiresAt
            (keyQuota rt.idx rt.keys (rt.target.retry.attempts + 1)) w
            (if (targetIsPool r.key target.provider &&
              (false || speaksAgainst rt.idx rt.keys seg)) = true then feedPool r.caller rt v'
              else v') := by
          split
          · exact hv'.feedPool
          · exact hv'
        exact (hfed.trans (ih hdrop' n' _)).mono hsplit
      | @won response elapsed l a n n' v v' seg hal hr hof =>
        have hv' := (hspent.of_alike hal).mono
          fun i key => (Nat.le_add_right _ _).trans (hsplit i key)
        exact ⟨hv'.in_time, hv'.calls⟩

/-- **What the attempts of a race leave behind**, by induction on the targets launched: each
attempt is on its own, with one key. -/
theorem callsOf_flatMap {launched : List ReadyTarget} {f : ReadyTarget → List Event}
    (hle : ∀ rt i key, callsOf i key (f rt) ≤ rt.quota i) (i : ℕ) (key : PoolKey) :
    callsOf i key (launched.flatMap f) ≤ readyQuota launched i key := by
  induction launched with
  | nil => exact le_rfl
  | cons rt rest ih =>
    rw [List.flatMap_cons, callsOf_append]
    exact Nat.add_le_add (hle rt i key) ih

variable (st caller deadline rt) in
theorem hedgedAttempt_spent (strand : Strand ρ) : Spent deadline.expiresAt
    (keyQuota rt.idx [(none, rt.firstKey.2)] (rt.target.retry.attempts + 1))
    (.start strand.now strand.health) (hedgedAttempt st caller deadline rt strand).2 :=
  attemptTarget_spent strand.env st caller deadline rt (none, rt.firstKey.2) _

end

/-! ## The executors -/

section

variable {ρ : Type} (st : AppState) (cfg : DeadlineConfig)

/-- When the work of an executor starts and ends: a race has an attempt for each target it
launched. -/
def Service.spans (s : Service ρ) : List (ℕ × ℕ) :=
  let r := s.request
  let deadline := r.deadline cfg
  match s.execution with
  | .buffered env =>
    [(s.now, (bufferedRun env st r.key r.caller deadline r.payload r.requestSeed r.targets
      (.start s.now s.health)).2.2.now)]
  | .streaming env =>
    [(s.now, (streamWalk env st r.key r.caller deadline r.payload r.backoffSeed r.targets
      (.start s.now s.health)).2.2.now)]
  | .hedged policy pick strands steps =>
    let tenant := r.caller.tenantId
    let attempt rt : Attempt ρ :=
      let (outcome, w) := hedgedAttempt st r.caller deadline rt (strands rt)
      ⟨outcome, w.now - (strands rt).now⟩
    (runHedgedTargets pick attempt policy deadline
      (readyTargets st r.key tenant r.payload r.requestSeed s.health s.now r.targets) s.now
      (readyNotes st r.key tenant r.payload r.requestSeed s.health s.now r.targets)
      steps).launched.map fun rt =>
        ((strands rt).now, (hedgedAttempt st r.caller deadline rt (strands rt)).2.now)

/-- Work that starts before a bound ends by it: the server's, the routing config's, the caller's. -/
structure PlannedRequest.InTime (r : PlannedRequest) (start finish : ℕ) : Prop where
  server : finish ≤ max start (r.startedAt + cfg.requestDeadline)
  routing : ∀ ms ∈ r.requestTimeoutMs, finish ≤ max start (r.cappedAt + ms)
  client : ∀ ms ∈ r.headerTimeoutMs, finish ≤ max start (r.clientCappedAt + ms)

variable {cfg} in
/-- **The deadline is the tightest of the three bounds.** -/
theorem PlannedRequest.inTime_of_deadline {r : PlannedRequest} {start finish : ℕ}
    (h : finish ≤ max start (r.deadline cfg).expiresAt) : r.InTime cfg start finish := by
  have hserver : (r.serverDeadline cfg).expiresAt ≤ r.startedAt + cfg.requestDeadline ∧
      ∀ ms ∈ r.requestTimeoutMs, (r.serverDeadline cfg).expiresAt ≤ r.cappedAt + ms := by
    unfold PlannedRequest.serverDeadline Deadline.withRequestCap Deadline.start
    cases r.requestTimeoutMs with
    | none => simp
    | some cap =>
      simp only [Option.mem_def, Option.some.injEq, forall_eq']
      split
      · simp only
        omega
      · simp only
        omega
  have hclient : (r.deadline cfg).expiresAt ≤ (r.serverDeadline cfg).expiresAt ∧
      ∀ ms ∈ r.headerTimeoutMs, (r.deadline cfg).expiresAt ≤ r.clientCappedAt + ms := by
    unfold PlannedRequest.deadline Deadline.withClientRequestCap
    cases r.headerTimeoutMs with
    | none => simp
    | some cap =>
      simp only [Option.mem_def, Option.some.injEq, forall_eq']
      split
      · simp only
        omega
      · omega
  refine ⟨?_, fun ms hms => ?_, fun ms hms => ?_⟩
  · have := hserver.1
    omega
  · have := hserver.2 ms hms
    omega
  · have := hclient.2 ms hms
    omega

/-- What a service is held to. -/
structure Service.Budgeted (s : Service ρ) : Prop where
  /-- Each key of a target is called once, and once more for each retry. -/
  calls : ∀ i key, callsOf i key (s.record st cfg) ≤ planQuota s.request.targets i
  /-- No work outlives the deadline. -/
  in_time : ∀ span ∈ s.spans st cfg, s.request.InTime cfg span.1 span.2

/-- **A request stays within its budget**, whichever executor serves it, whatever the providers
answer and whatever health state other requests leave. -/
theorem served_budgeted (s : Service ρ) : s.Budgeted st cfg := by
  obtain ⟨r, execution, now, health⟩ := s
  have hzero : ∀ i key, callsOf i key (World.start now health).record = 0 := fun i key => rfl
  cases execution with
  | buffered env =>
    have hspent := bufferedWalk_spent env st r.caller (r.deadline cfg)
      (readyTargets st r.key r.caller.tenantId r.payload r.requestSeed health now r.targets)
      (readyNotes st r.key r.caller.tenantId r.payload r.requestSeed health now r.targets)
      (.start now health)
    refine ⟨fun i key => ?_, fun span hspan => ?_⟩
    · have hcalls := hspent.calls i key
      rw [hzero, Nat.zero_add] at hcalls
      exact hcalls.trans
        (readyQuota_le (fun rt hrt => (readies_of_mem hrt).planned) readyFrom_distinct i key)
    · obtain rfl := List.mem_singleton.1 hspan
      exact r.inTime_of_deadline hspent.in_time
  | streaming env =>
    have hspent := streamTargets_spent env st (r.deadline cfg) r r.backoffSeed now List.drop_zero {}
      (.start now health)
    refine ⟨fun i key => ?_, fun span hspan => ?_⟩
    · have hcalls := hspent.calls i key
      rw [hzero, Nat.zero_add] at hcalls
      exact hcalls.trans (if_pos (Nat.zero_le i)).le
    · obtain rfl := List.mem_singleton.1 hspan
      exact r.inTime_of_deadline hspent.in_time
  | hedged policy pick strands steps =>
    set ready := readyTargets st r.key r.caller.tenantId r.payload r.requestSeed health now r.targets
    set attempt : ReadyTarget → Attempt ρ := fun rt =>
      ⟨(hedgedAttempt st r.caller (r.deadline cfg) rt (strands rt)).1,
        (hedgedAttempt st r.caller (r.deadline cfg) rt (strands rt)).2.now - (strands rt).now⟩
    set launched := (runHedgedTargets pick attempt policy (r.deadline cfg) ready now
      (readyNotes st r.key r.caller.tenantId r.payload r.requestSeed health now r.targets)
      steps).launched
    -- targets are launched in their order, each once
    have hpre : launched <+: ready := (runHedgedTargets_standing steps).launched_initial
    have hspent := fun rt => hedgedAttempt_spent st r.caller (r.deadline cfg) rt (strands rt)
    refine ⟨fun i key => ?_, fun span hspan => ?_⟩
    · have hkept : ∀ rt i key, callsOf i key ((hedgedAttempt st r.caller (r.deadline cfg) rt
          (strands rt)).2.record.take (strands rt).kept) ≤ rt.quota i := by
        intro rt i key
        have hcalls := (hspent rt).calls i key
        have hstart : callsOf i key (World.start (strands rt).now (strands rt).health).record = 0 :=
          rfl
        rw [hstart, Nat.zero_add] at hcalls
        exact ((List.take_sublist _ _).countP_le.trans hcalls).trans (keyQuota_le_quota rt _ i key)
      have hall : DistinctIdx ready := readyFrom_distinct
      refine (callsOf_flatMap hkept i key).trans (readyQuota_le (fun rt hrt => ?_) ?_ i key)
      · exact (readies_of_mem (hpre.subset hrt)).planned
      · exact hall.sublist (hpre.sublist.map _)
    · obtain ⟨rt, -, rfl⟩ := List.mem_map.1 hspan
      exact r.inTime_of_deadline (hspent rt).in_time

end

end Routeplane
