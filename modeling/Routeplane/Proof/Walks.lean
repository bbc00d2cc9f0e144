import Routeplane.Proof.WalkAlike

/-!
# Buffered and streaming walks

* `walks_alike_iff`: when the cooldowns of each target's pool are, at the time it is reached,
  what they were at the start, the two walks are alike iff no exhausted pool hides a fault of
  its provider behind the last tries of its keys.
* `walks_differ`: a fault hidden by a retry, and a pool listed twice.
-/

namespace Routeplane

/-- The target an event is about. -/
def Event.at : Event → Option ℕ
  | .dispatched d => some d.target
  | .failed t => some t.target
  | .skipped i _ | .fed i _ => some i
  | .usage _ => none

/-- How often a failure was counted against the provider of a target. -/
def fedCount (i : ℕ) (events : List Event) : ℕ :=
  events.countP fun
    | .fed j _ => decide (j = i)
    | _ => false

/-- A pool target saw a try that speaks against its provider. -/
def PoolSpoke (i : ℕ) (events : List Event) : Prop :=
  ∃ key : PoolKey, key.1.isSome ∧ true ∈ trail i key events

/-- The last try of some key of a target speaks against its provider. -/
def EndsAgainst (i : ℕ) (events : List Event) : Prop :=
  ∃ key, (trail i key events).getLast? = some true

section

variable {ρ : Type}

/-- No exhausted pool saw a fault of its provider and then ended every key on something else: a
throttle, a rejected request, the caller's own budget, or a try not made. -/
def NoFaultHidden (o : Option (Winner ρ)) (events : List Event) : Prop :=
  ∀ i, PoolSpoke i events → (∀ x, o = some x → x.idx ≠ i) → EndsAgainst i events

/-- An exhausted pool that saw a fault of its provider counted exactly one failure. -/
def PoolsFedOnce (o : Option (Winner ρ)) (events : List Event) : Prop :=
  ∀ i, PoolSpoke i events → (∀ x, o = some x → x.idx ≠ i) → fedCount i events = 1

/-- Two walks are alike: they made the same calls up to the same success, left the same breakers
and cooldowns, and both counted one failure for an exhausted pool at fault. -/
structure WalksAlike (b s : Option (Winner ρ) × Notes × World) : Prop where
  winner : b.1 = s.1
  dispatches : b.2.2.dispatches = s.2.2.dispatches
  breakers : ∀ owner provider, (b.2.2.health.providers owner provider).map (·.breaker) =
    (s.2.2.health.providers owner provider).map (·.breaker)
  cooldowns : b.2.2.health.keyCooldowns = s.2.2.health.keyCooldowns
  buffered_once : PoolsFedOnce b.1 b.2.2.record
  streaming_once : PoolsFedOnce s.1 s.2.2.record

end

/-! ## Events of other targets -/

section

variable {i : ℕ} {deadline : Deadline} {rt : ReadyTarget} {key : PoolKey} {x : Event}
  {es : List Event}

theorem at_of_isTry (h : x.isTry deadline rt key) : x.at = some rt.idx := by
  cases x with
  | dispatched d =>
    have hd : d = ⟨rt.idx, rt.target.provider, key, rt.shaped⟩ := h
    rw [hd]
    rfl
  | skipped j k => exact congrArg some h.1
  | failed t => exact congrArg some h.target_eq
  | fed j p => exact congrArg some h.1
  | usage e => exact h.elim

theorem trail_elsewhere (h : ∀ x ∈ es, x.at ≠ some i) : trail i key es = [] := by
  refine List.filterMap_eq_nil_iff.2 fun x hx => ?_
  have hat := h x hx
  cases x with
  | failed t =>
    have hj : t.target ≠ i := fun hj => hat (congrArg some hj)
    simp [Event.verdict, hj]
  | skipped j k =>
    have hj : j ≠ i := fun hj => hat (congrArg some hj)
    simp [Event.verdict, hj]
  | dispatched d => rfl
  | fed j p => rfl
  | usage e => rfl

theorem fedCount_elsewhere (h : ∀ x ∈ es, x.at ≠ some i) : fedCount i es = 0 := by
  refine List.countP_eq_zero.2 fun x hx => ?_
  have hat := h x hx
  cases x with
  | fed j p =>
    have hj : j ≠ i := fun hj => hat (congrArg some hj)
    simpa using hj
  | _ => simp

/-- The tries of pool keys count no failure themselves. -/
theorem fedCount_tries (h : ∀ x ∈ es, ∃ key : PoolKey, key.1.isSome ∧ x.isTry deadline rt key) :
    fedCount i es = 0 := by
  refine List.countP_eq_zero.2 fun x hx => ?_
  obtain ⟨key, hkey, hof⟩ := h x hx
  cases x with
  | fed j p =>
    rw [hof.2.2] at hkey
    simp at hkey
  | _ => simp

theorem fedCount_append (es es' : List Event) :
    fedCount i (es ++ es') = fedCount i es + fedCount i es' := List.countP_append

theorem endsAgainst_iff {keys : List PoolKey}
    (hof : ∀ x ∈ es, ∃ key ∈ keys, x.isTry deadline rt key) :
    endsAgainst rt.idx keys es = true ↔ EndsAgainst rt.idx es := by
  unfold endsAgainst EndsAgainst
  rw [List.any_eq_true]
  constructor
  · rintro ⟨key, -, hlast⟩
    exact ⟨key, by simpa using hlast⟩
  · rintro ⟨key, hlast⟩
    by_cases hkey : key ∈ keys
    · exact ⟨key, hkey, by simpa using hlast⟩
    · rw [trail_others hkey hof] at hlast
      simp at hlast

theorem speaksAgainst_iff {keys : List PoolKey}
    (hof : ∀ x ∈ es, ∃ key ∈ keys, x.isTry deadline rt key) :
    speaksAgainst rt.idx keys es = true ↔ PoolSpoke rt.idx es := by
  unfold speaksAgainst PoolSpoke
  rw [List.any_eq_true]
  constructor
  · rintro ⟨key, -, h⟩
    have h' := Bool.and_eq_true_iff.1 h
    exact ⟨key, h'.1, by simpa using h'.2⟩
  · rintro ⟨key, hsome, htrue⟩
    by_cases hkey : key ∈ keys
    · exact ⟨key, hkey, by simp [hsome, htrue]⟩
    · rw [trail_others hkey hof] at htrue
      simp at htrue

end

/-! ## The record of a buffered walk -/

section

variable {ρ : Type} {env : Env ρ} {st : AppState} {k : VirtualKey} {caller : Caller}
  {deadline : Deadline} {rt : ReadyTarget} {ready rest : List ReadyTarget} {w w' : World}
  {notes notes' : Notes} {o : Option (Winner ρ)} {seg tries after : List Event}

/-- Is a target's key list a pool? -/
def ReadyTarget.isPool (rt : ReadyTarget) : Bool := rt.firstKey.1.isSome

theorem ReadyTarget.isSome_eq {key : PoolKey} (hk : key ∈ rt.keys) : key.1.isSome = rt.isPool :=
  rt.keys_uniform key hk _ (List.head_mem rt.keys_ne)

/-- What a walk over some targets adds to the record. -/
structure Segment (ready : List ReadyTarget) (o : Option (Winner ρ)) (seg : List Event) : Prop where
  at_ready : ∀ x ∈ seg, ∃ rt ∈ ready, x.at = some rt.idx
  winner_mem : ∀ x, o = some x → ∃ rt ∈ ready, x.idx = rt.idx
  /-- An exhausted pool at fault counts one failure iff some key ends on a fault. -/
  fed_once : ∀ i, PoolSpoke i seg → (∀ x, o = some x → x.idx ≠ i) →
    (fedCount i seg = 1 ↔ EndsAgainst i seg)

/-- What the end of a target adds to the record. -/
def closing (rt : ReadyTarget) (verdict : Bool) : List Event :=
  if rt.isPool && verdict then [.fed rt.idx rt.target.provider] else []

/-- The world a walk goes on in after an exhausted target. -/
def closeTarget (caller : Caller) (rt : ReadyTarget) (verdict : Bool) (w : World) : World :=
  if rt.isPool && verdict then feedPool caller rt w else w

theorem record_closeTarget (verdict : Bool) :
    (closeTarget caller rt verdict w).record = w.record ++ closing rt verdict := by
  unfold closeTarget closing feedPool
  split
  · rw [record_log]
    rfl
  · simp

theorem Alike.closeTarget (h : Alike w w') (verdict : Bool) :
    Alike (closeTarget caller rt verdict w) (closeTarget caller rt verdict w') := by
  unfold Routeplane.closeTarget feedPool
  split
  · refine Alike.log ?_ rfl
    rw [h.now_eq]
    exact ⟨rfl, by rw [h.health_eq], h.calls_eq, h.record_eq⟩
  · exact h

theorem at_tries (htries : ∀ x ∈ tries, ∃ key ∈ rt.keys, x.isTry deadline rt key) (verdict : Bool) :
    ∀ x ∈ tries ++ closing rt verdict, x.at = some rt.idx := by
  intro x hx
  rcases List.mem_append.1 hx with hx | hx
  · obtain ⟨key, -, hof⟩ := htries x hx
    exact at_of_isTry hof
  · unfold closing at hx
    split at hx
    · obtain rfl := List.mem_singleton.1 hx
      rfl
    · simp at hx

theorem trail_closing {i : ℕ} {key : PoolKey} (verdict : Bool) :
    trail i key (closing rt verdict) = [] := by
  unfold closing
  split <;> rfl

/-- The trails of a target exhausted first, and of the targets after it. -/
theorem trail_target (htries : ∀ x ∈ tries, ∃ key ∈ rt.keys, x.isTry deadline rt key)
    (hnot : ∀ r ∈ rest, r.idx ≠ rt.idx) (hafter : ∀ x ∈ after, ∃ r ∈ rest, x.at = some r.idx)
    (verdict : Bool) (i : ℕ) (key : PoolKey) :
    trail i key (tries ++ closing rt verdict ++ after) =
      if i = rt.idx then trail i key tries else trail i key after := by
  rw [trail_append]
  split
  · rename_i hi
    subst hi
    have hnone : trail rt.idx key after = [] := by
      refine trail_elsewhere fun x hx hat => ?_
      obtain ⟨r, hr, hat'⟩ := hafter x hx
      exact hnot r hr (Option.some.inj (hat'.symm.trans hat))
    rw [hnone, trail_append, trail_closing, List.append_nil, List.append_nil]
  · rename_i hi
    have hnone : trail i key (tries ++ closing rt verdict) = [] := by
      refine trail_elsewhere fun x hx hat => ?_
      rw [at_tries htries verdict x hx] at hat
      exact hi (Option.some.inj hat).symm
    rw [hnone, List.nil_append]

theorem poolSpoke_target (htries : ∀ x ∈ tries, ∃ key ∈ rt.keys, x.isTry deadline rt key)
    (hnot : ∀ r ∈ rest, r.idx ≠ rt.idx) (hafter : ∀ x ∈ after, ∃ r ∈ rest, x.at = some r.idx)
    (verdict : Bool) (i : ℕ) :
    PoolSpoke i (tries ++ closing rt verdict ++ after) ↔
      if i = rt.idx then PoolSpoke i tries else PoolSpoke i after := by
  unfold PoolSpoke
  simp only [trail_target htries hnot hafter verdict]
  split <;> rfl

theorem endsAgainst_target (htries : ∀ x ∈ tries, ∃ key ∈ rt.keys, x.isTry deadline rt key)
    (hnot : ∀ r ∈ rest, r.idx ≠ rt.idx) (hafter : ∀ x ∈ after, ∃ r ∈ rest, x.at = some r.idx)
    (verdict : Bool) (i : ℕ) :
    EndsAgainst i (tries ++ closing rt verdict ++ after) ↔
      if i = rt.idx then EndsAgainst i tries else EndsAgainst i after := by
  unfold EndsAgainst
  simp only [trail_target htries hnot hafter verdict]
  split <;> rfl

/-- A target whose tries speak against its provider is a pool. -/
theorem isPool_of_spoke (htries : ∀ x ∈ tries, ∃ key ∈ rt.keys, x.isTry deadline rt key)
    (h : PoolSpoke rt.idx tries) : rt.isPool = true := by
  obtain ⟨key, hsome, htrue⟩ := h
  by_cases hkey : key ∈ rt.keys
  · rw [← ReadyTarget.isSome_eq hkey]
    exact hsome
  · rw [trail_others hkey htries] at htrue
    simp at htrue

/-- Put an exhausted target in front of a walk. -/
theorem Segment.exhausted (hnot : ∀ r ∈ rest, r.idx ≠ rt.idx)
    (htries : ∀ x ∈ tries, ∃ key ∈ rt.keys, x.isTry deadline rt key) (h : Segment rest o after) :
    Segment (rt :: rest) o
      (tries ++ closing rt (endsAgainst rt.idx rt.keys tries) ++ after) := by
  set verdict := endsAgainst rt.idx rt.keys tries with hverdict
  refine ⟨?_, ?_, ?_⟩
  · intro x hx
    rcases List.mem_append.1 hx with hx | hx
    · exact ⟨rt, List.mem_cons_self, at_tries htries verdict x hx⟩
    · obtain ⟨r, hr, hat⟩ := h.at_ready x hx
      exact ⟨r, List.mem_cons_of_mem _ hr, hat⟩
  · intro x hx
    obtain ⟨r, hr, hidx⟩ := h.winner_mem x hx
    exact ⟨r, List.mem_cons_of_mem _ hr, hidx⟩
  · intro i hspoke hlost
    rw [poolSpoke_target htries hnot h.at_ready] at hspoke
    rw [endsAgainst_target htries hnot h.at_ready, fedCount_append, fedCount_append]
    split at hspoke
    · -- the target itself: its pool is fed by the verdict on it
      rename_i hi
      subst hi
      have hpool := isPool_of_spoke htries hspoke
      have htries0 : fedCount rt.idx tries = 0 := by
        have hpooled : ∀ x ∈ tries, ∃ key : PoolKey, key.1.isSome ∧ x.isTry deadline rt key := by
          intro x hx
          obtain ⟨key, hkey, hof⟩ := htries x hx
          exact ⟨key, by rw [ReadyTarget.isSome_eq hkey]; exact hpool, hof⟩
        exact fedCount_tries hpooled
      have hafter0 : fedCount rt.idx after = 0 := by
        refine fedCount_elsewhere fun x hx hat => ?_
        obtain ⟨r, hr, hat'⟩ := h.at_ready x hx
        exact hnot r hr (Option.some.inj (hat'.symm.trans hat))
      have hclosing : fedCount rt.idx (closing rt verdict) = if verdict then 1 else 0 := by
        unfold closing
        rw [hpool, Bool.true_and]
        cases verdict <;> simp [fedCount]
      rw [htries0, hafter0, hclosing, if_pos rfl, ← endsAgainst_iff htries, ← hverdict]
      cases verdict <;> simp
    · rename_i hi
      have hfirst : fedCount i (tries ++ closing rt verdict) = 0 := by
        refine fedCount_elsewhere fun x hx hat => ?_
        rw [at_tries htries verdict x hx] at hat
        exact hi (Option.some.inj hat).symm
      rw [fedCount_append] at hfirst
      rw [hfirst, Nat.zero_add, if_neg hi]
      exact h.fed_once i hspoke hlost

/-- A walk that wins at its first target. -/
theorem Segment.won (htries : ∀ x ∈ tries, ∃ key ∈ rt.keys, x.isTry deadline rt key) (response : ρ)
    (elapsed : ℕ) : Segment (rt :: rest) (some ⟨rt.idx, response, elapsed, false⟩) tries := by
  refine ⟨?_, ?_, ?_⟩
  · intro x hx
    obtain ⟨key, -, hof⟩ := htries x hx
    exact ⟨rt, List.mem_cons_self, at_of_isTry hof⟩
  · intro x hx
    obtain rfl := Option.some.inj hx
    exact ⟨rt, List.mem_cons_self, rfl⟩
  · -- the only target with tries is the winner
    intro i hspoke hlost
    obtain ⟨key, -, htrue⟩ := hspoke
    have hi : rt.idx ≠ i := hlost _ rfl
    rw [trail_elsewhere fun x hx hat => ?_] at htrue
    · simp at htrue
    · obtain ⟨key', -, hof⟩ := htries x hx
      exact hi (Option.some.inj ((at_of_isTry hof).symm.trans hat))

/-- The adapters of all targets resolve. -/
def Resolved (st : AppState) (caller : Caller) (ready : List ReadyTarget) : Prop :=
  ∀ rt ∈ ready, (st.resolveProvider caller.tenantId rt.target.provider).isSome

/-- The places of the targets are distinct. -/
def DistinctIdx (ready : List ReadyTarget) : Prop := (ready.map ReadyTarget.idx).Nodup

theorem DistinctIdx.cons (h : DistinctIdx (rt :: rest)) :
    (∀ r ∈ rest, r.idx ≠ rt.idx) ∧ DistinctIdx rest := by
  obtain ⟨hnot, hrest⟩ := List.nodup_cons.1 h
  exact ⟨fun r hr heq => hnot (heq ▸ List.mem_map_of_mem hr), hrest⟩

/-- The walk after one target. -/
theorem bufferedWalk_cons : bufferedWalk env st caller deadline (rt :: rest) notes w =
    match walkKeys (attemptTarget env st caller deadline rt) rt.keys false notes w with
    | (some (response, elapsedMs), _, notes, w) =>
      (some ⟨rt.idx, response, elapsedMs, false⟩, notes, w)
    | (none, verdict, notes, w) =>
      bufferedWalk env st caller deadline rest notes (closeTarget caller rt verdict w) := by
  conv_lhs => rw [bufferedWalk, sequentialWalk]
  rcases walkKeys (attemptTarget env st caller deadline rt) rt.keys false notes w with
    ⟨_ | ⟨response, elapsedMs⟩, verdict, notes, w⟩ <;> rfl

variable (env deadline notes w) in
/-- **What a buffered walk adds to the record.** By induction on the targets. -/
theorem bufferedWalk_segment (hres : Resolved st caller ready) (hidx : DistinctIdx ready) :
    ∃ seg, (bufferedWalk env st caller deadline ready notes w).2.2.record = w.record ++ seg ∧
      Segment ready (bufferedWalk env st caller deadline ready notes w).1 seg := by
  induction ready generalizing notes w with
  | nil =>
    refine ⟨[], (List.append_nil _).symm, by simp, fun x hx => ?_, ?_⟩
    · simp [bufferedWalk, sequentialWalk] at hx
    rintro i ⟨key, -, htrue⟩
    simp [trail] at htrue
  | cons rt rest ih =>
    obtain ⟨hnot, hidx'⟩ := hidx.cons
    have hkeys : KeysAlike caller deadline rt rt.keys w.record false false
        (walkKeys (attemptTarget env st caller deadline rt) rt.keys false notes w)
        (establishKeys env st caller deadline rt rt.keys false notes w) :=
      establishKeys_alike (hres rt List.mem_cons_self) rt.keys_nodup (Alike.refl w)
    rw [bufferedWalk_cons]
    generalize walkKeys (attemptTarget env st caller deadline rt) rt.keys false notes w = b
      at hkeys ⊢
    generalize establishKeys env st caller deadline rt rt.keys false notes w = s at hkeys
    cases hkeys with
    | @exhausted n n' v v' tries hal hr hof =>
      simp only [Bool.false_or]
      have hres' : Resolved st caller rest := fun r hr' => hres r (List.mem_cons_of_mem _ hr')
      obtain ⟨after, hrec, hseg⟩ := ih
        (closeTarget caller rt (endsAgainst rt.idx rt.keys tries) v) n hres' hidx'
      refine ⟨_, ?_, Segment.exhausted hnot hof hseg⟩
      rw [hrec, record_closeTarget, hr]
      simp only [List.append_assoc]
    | @won response elapsed l a n n' v v' tries hal hr hof =>
      exact ⟨tries, hr, .won hof response elapsed⟩

/-! ## Reaching a target -/

/-- The targets a buffered walk reaches, each with the world it is reached in. -/
def reached (env : Env ρ) (st : AppState) (caller : Caller) (deadline : Deadline) :
    List ReadyTarget → Notes → World → List (ReadyTarget × World)
  | [], _, _ => []
  | rt :: rest, notes, w =>
    (rt, w) ::
      match walkKeys (attemptTarget env st caller deadline rt) rt.keys false notes w with
      | (some _, _, _, _) => []
      | (none, verdict, notes, w) =>
        reached env st caller deadline rest notes (closeTarget caller rt verdict w)

/-- The keys of a target's pool are cooled in `h` as they were in `h₀`. -/
def PoolUndisturbed (caller : Caller) (h₀ : HealthTracker) (rt : ReadyTarget)
    (h : HealthTracker) : Prop :=
  ∀ key ∈ rt.keys, ∀ i, key.1 = some i →
    h.keyCooledUntil caller.tenantId rt.target.provider i =
      h₀.keyCooledUntil caller.tenantId rt.target.provider i

variable {payload : ChatCompletionRequest} {seed : BitVec 64} {h₀ h : HealthTracker} {now : ℕ}
  {target : TargetPlan} {idx : ℕ} {targets : List TargetPlan}

/-- What a resolved target is. -/
theorem readyTarget_ok
    (hok : readyTarget st k caller.tenantId payload seed h₀ now target idx = .ok rt) :
    rt.idx = idx ∧ rt.target = target ∧
      (st.resolveProvider caller.tenantId target.provider).isSome ∧
      rt.keys = targetKeys st k caller.tenantId target.provider h₀ now (targetRngSeed seed idx) := by
  unfold readyTarget at hok
  simp only at hok
  split at hok
  · simp at hok
  · rename_i hknows
    rw [AppState.knows_eq] at hknows
    split at hok
    · simp at hok
    · rename_i rt' hof
      obtain rfl := Except.ok.inj hok
      unfold ReadyTarget.of? at hof
      split at hof
      · simp at hof
      · obtain rfl := Option.some.inj hof
        exact ⟨rfl, rfl, by simpa [Option.isSome_iff_ne_none] using hknows, rfl⟩

/-- A target resolved later is resolved alike while its pool is undisturbed. -/
theorem readyTarget_congr
    (hok : readyTarget st k caller.tenantId payload seed h₀ now target idx = .ok rt)
    (hpool : PoolUndisturbed caller h₀ rt h) :
    readyTarget st k caller.tenantId payload seed h now target idx = .ok rt := by
  obtain ⟨-, rfl, -, hkeys⟩ := readyTarget_ok hok
  have hlist : targetKeyList st k caller.tenantId rt.target.provider h now (targetRngSeed seed idx) =
      targetKeyList st k caller.tenantId rt.target.provider h₀ now (targetRngSeed seed idx) := by
    refine KeyList.ext (targetKeys_congr fun key hk i hi => ?_)
    rw [← hkeys] at hk
    exact hpool key hk i hi
  rw [← hok]
  unfold readyTarget
  simp only [hlist]

/-- A target drops out whatever the health state. -/
theorem readyTarget_error {e : String}
    (herr : readyTarget st k caller.tenantId payload seed h₀ now target idx = .error e) :
    readyTarget st k caller.tenantId payload seed h now target idx = .error e := by
  unfold readyTarget at herr ⊢
  simp only at herr ⊢
  split at herr
  · rename_i hknows
    rw [if_pos hknows]
    exact herr
  · rename_i hknows
    rw [if_neg hknows]
    split at herr
    · rename_i hof
      have hnil : targetKeys st k caller.tenantId target.provider h₀ now
          (targetRngSeed seed idx) = [] := by
        unfold ReadyTarget.of? at hof
        split at hof
        · assumption
        · simp at hof
      have hnil' : targetKeys st k caller.tenantId target.provider h now
          (targetRngSeed seed idx) = [] := by
        have hperm : (targetKeys st k caller.tenantId target.provider h now
            (targetRngSeed seed idx)).Perm (targetKeys st k caller.tenantId target.provider h₀ now
              (targetRngSeed seed idx)) := targetKeys_perm
        rw [hnil] at hperm
        exact hperm.eq_nil
      have hof' : ReadyTarget.of? idx target (target.params.apply payload)
          (targetKeyList st k caller.tenantId target.provider h now
            (targetRngSeed seed idx)) = none := by
        unfold ReadyTarget.of?
        exact dif_pos hnil'
      rw [hof']
      exact herr
    · simp at herr

/-- The ready targets from position `idx` on. -/
def readyFrom (st : AppState) (k : VirtualKey) (caller : Caller) (payload : ChatCompletionRequest)
    (seed : BitVec 64) (h₀ : HealthTracker) (now : ℕ) (targets : List TargetPlan) (idx : ℕ) :
    List ReadyTarget :=
  (targets.zipIdx idx).filterMap fun (t, i) =>
    (readyTarget st k caller.tenantId payload seed h₀ now t i).toOption

theorem readyFrom_cons : readyFrom st k caller payload seed h₀ now (target :: targets) idx =
    match readyTarget st k caller.tenantId payload seed h₀ now target idx with
    | .ok rt => rt :: readyFrom st k caller payload seed h₀ now targets (idx + 1)
    | .error _ => readyFrom st k caller payload seed h₀ now targets (idx + 1) := by
  unfold readyFrom
  rw [List.zipIdx_cons, List.filterMap_cons]
  cases hok : readyTarget st k caller.tenantId payload seed h₀ now target idx <;>
    simp [hok, Except.toOption]

theorem mem_readyFrom (hrt : rt ∈ readyFrom st k caller payload seed h₀ now targets idx) :
    idx ≤ rt.idx ∧ (st.resolveProvider caller.tenantId rt.target.provider).isSome := by
  obtain ⟨⟨t, i⟩, hmem, hto⟩ := List.mem_filterMap.1 hrt
  have hi := List.le_snd_of_mem_zipIdx hmem
  cases hok : readyTarget st k caller.tenantId payload seed h₀ now t i with
  | error e => simp [hok, Except.toOption] at hto
  | ok rt' =>
    simp only [hok, Except.toOption, Option.some.injEq] at hto
    subst hto
    obtain ⟨hidx, htarget, hres, -⟩ := readyTarget_ok hok
    exact ⟨by omega, by rw [htarget]; exact hres⟩

theorem readyFrom_resolved :
    Resolved st caller (readyFrom st k caller payload seed h₀ now targets idx) :=
  fun _ hrt => (mem_readyFrom hrt).2

theorem readyFrom_distinct : DistinctIdx (readyFrom st k caller payload seed h₀ now targets idx) := by
  induction targets generalizing idx with
  | nil => exact List.nodup_nil
  | cons target targets ih =>
    rw [readyFrom_cons]
    split
    · rename_i rt hok
      refine List.nodup_cons.2 ⟨fun hmem => ?_, ih⟩
      obtain ⟨r, hr, hidx⟩ := List.mem_map.1 hmem
      have hle := (mem_readyFrom hr).1
      have heq := (readyTarget_ok hok).1
      omega
    · exact ih

/-! ## The walks -/

/-- A pool is a pool for both walks. -/
theorem isPool_eq (hok : readyTarget st k caller.tenantId payload seed h₀ now target idx = .ok rt) :
    targetIsPool k target.provider = rt.isPool := by
  obtain ⟨-, -, -, hkeys⟩ := readyTarget_ok hok
  have hmem : rt.firstKey ∈ rt.keys := List.head_mem rt.keys_ne
  rw [hkeys] at hmem
  exact (targetKeys_isPool hmem).symm

/-- The verdicts on an exhausted pool agree when no fault is hidden. -/
theorem verdicts_agree (htries : ∀ x ∈ tries, ∃ key ∈ rt.keys, x.isTry deadline rt key)
    (hnot : ∀ r ∈ rest, r.idx ≠ rt.idx) (hseg : Segment rest o after)
    (hB : NoFaultHidden o (tries ++ closing rt (endsAgainst rt.idx rt.keys tries) ++ after)) :
    (rt.isPool && speaksAgainst rt.idx rt.keys tries) =
      (rt.isPool && endsAgainst rt.idx rt.keys tries) := by
  cases hpool : rt.isPool with
  | false => rfl
  | true =>
    rw [Bool.true_and, Bool.true_and, Bool.eq_iff_iff, speaksAgainst_iff htries,
      endsAgainst_iff htries]
    constructor
    · intro hspoke
      have hends := hB rt.idx
        ((poolSpoke_target htries hnot hseg.at_ready _ _).2 (by rwa [if_pos rfl]))
        (fun x hx => by
          obtain ⟨r, hr, hidx⟩ := hseg.winner_mem x hx
          rw [hidx]
          exact hnot r hr)
      rw [endsAgainst_target htries hnot hseg.at_ready, if_pos rfl] at hends
      exact hends
    · rintro ⟨key, hlast⟩
      have hmem := List.mem_of_getLast? hlast
      refine ⟨key, ?_, hmem⟩
      by_cases hkey : key ∈ rt.keys
      · rw [ReadyTarget.isSome_eq hkey, hpool]
      · rw [trail_others hkey htries] at hmem
        simp at hmem

/-- What is not hidden in a walk is not hidden after its first target. -/
theorem NoFaultHidden.tail (htries : ∀ x ∈ tries, ∃ key ∈ rt.keys, x.isTry deadline rt key)
    (hnot : ∀ r ∈ rest, r.idx ≠ rt.idx) (hseg : Segment rest o after) {verdict : Bool}
    (hB : NoFaultHidden o (tries ++ closing rt verdict ++ after)) : NoFaultHidden o after := by
  intro i hspoke hlost
  have hi : i ≠ rt.idx := by
    rintro rfl
    obtain ⟨key, -, htrue⟩ := hspoke
    rw [trail_elsewhere fun x hx hat => ?_] at htrue
    · simp at htrue
    · obtain ⟨r, hr, hat'⟩ := hseg.at_ready x hx
      exact hnot r hr (Option.some.inj (hat'.symm.trans hat))
  have hends := hB i ((poolSpoke_target htries hnot hseg.at_ready _ _).2 (by rwa [if_neg hi])) hlost
  rwa [endsAgainst_target htries hnot hseg.at_ready, if_neg hi] at hends

variable (notes') in
/-- **The walks agree while pools are undisturbed and no fault is hidden.** By induction on the
targets still ahead. -/
theorem streamTargets_alike (hal : Alike w w')
    (hpools : ∀ r ∈ reached env st caller deadline
      (readyFrom st k caller payload seed h₀ now targets idx) notes w,
        PoolUndisturbed caller h₀ r.1 r.2.health)
    (hB : ∀ seg, (bufferedWalk env st caller deadline
      (readyFrom st k caller payload seed h₀ now targets idx) notes w).2.2.record =
        w.record ++ seg → NoFaultHidden (bufferedWalk env st caller deadline
          (readyFrom st k caller payload seed h₀ now targets idx) notes w).1 seg) :
    (bufferedWalk env st caller deadline (readyFrom st k caller payload seed h₀ now targets idx)
        notes w).1 =
      (streamTargets env st k caller deadline payload (fun _ => seed) now targets idx notes' w').1 ∧
    Alike (bufferedWalk env st caller deadline
        (readyFrom st k caller payload seed h₀ now targets idx) notes w).2.2
      (streamTargets env st k caller deadline payload (fun _ => seed) now targets idx notes'
        w').2.2 := by
  induction targets generalizing idx notes notes' w w' with
  | nil => exact ⟨rfl, hal⟩
  | cons target targets ih =>
    have hdistinct : DistinctIdx
        (readyFrom st k caller payload seed h₀ now (target :: targets) idx) := readyFrom_distinct
    rw [readyFrom_cons] at hpools hB hdistinct ⊢
    unfold streamTargets
    cases hok : readyTarget st k caller.tenantId payload seed h₀ now target idx with
    | error e =>
      simp only [hok] at hpools hB
      simp only [readyTarget_error hok]
      exact ih _ hal hpools hB
    | ok rt =>
      simp only [hok] at hpools hB hdistinct
      obtain ⟨hnot, -⟩ := hdistinct.cons
      obtain ⟨hidx, htarget, hres, -⟩ := readyTarget_ok hok
      -- the one walk chose its keys before the first target, the other chooses them here
      have hhere : PoolUndisturbed caller h₀ rt w.health :=
        hpools (rt, w) (by unfold reached; exact List.mem_cons_self)
      rw [hal.health_eq] at hhere
      simp only [readyTarget_congr hok hhere]
      have hkeys : KeysAlike caller deadline rt rt.keys w.record false false
          (walkKeys (attemptTarget env st caller deadline rt) rt.keys false notes w)
          (establishKeys env st caller deadline rt rt.keys false notes' w') :=
        establishKeys_alike (by rw [htarget]; exact hres) rt.keys_nodup hal
      have hpools' := fun r hr => hpools r (by unfold reached; exact List.mem_cons_of_mem _ hr)
      rw [bufferedWalk_cons] at hB ⊢
      generalize walkKeys (attemptTarget env st caller deadline rt) rt.keys false notes w = b
        at hkeys hpools' hB ⊢
      generalize establishKeys env st caller deadline rt rt.keys false notes' w' = s at hkeys ⊢
      cases hkeys with
      | @exhausted n n' v v' tries hal' hr hof =>
        simp only [Bool.false_or] at hpools' hB ⊢
        have hres' : Resolved st caller
            (readyFrom st k caller payload seed h₀ now targets (idx + 1)) := readyFrom_resolved
        obtain ⟨after, hrec, hseg⟩ := bufferedWalk_segment env deadline
          (closeTarget caller rt (endsAgainst rt.idx rt.keys tries) v) n hres' readyFrom_distinct
        have hB' := hB (tries ++ closing rt (endsAgainst rt.idx rt.keys tries) ++ after) (by
          rw [hrec, record_closeTarget, hr]
          simp only [List.append_assoc])
        -- each closes the target on a verdict of its own: they agree as no fault is hidden
        have hclose : (if targetIsPool k target.provider && speaksAgainst rt.idx rt.keys tries then
            feedPool caller rt v' else v') =
              closeTarget caller rt (endsAgainst rt.idx rt.keys tries) v' := by
          rw [isPool_eq hok, verdicts_agree hof hnot hseg hB']
          rfl
        rw [hclose]
        refine ih _ (hal'.closeTarget _) hpools' fun seg hseg' => ?_
        obtain rfl : seg = after := List.append_cancel_left (hseg'.symm.trans hrec)
        exact NoFaultHidden.tail hof hnot hseg hB'
      | @won response elapsed l a n n' v v' tries hal' hr hof =>
        refine ⟨?_, ?_⟩
        · simp only [hidx]
        · rw [htarget] at hal'
          exact hal'

end

/-- Every pool is undisturbed when it is reached: its keys are cooled as they were at the start. -/
def PoolsUndisturbed {ρ : Type} (env : Env ρ) (st : AppState) (k : VirtualKey) (caller : Caller)
    (deadline : Deadline) (payload : ChatCompletionRequest) (seed : BitVec 64)
    (targets : List TargetPlan) (w : World) : Prop :=
  ∀ r ∈ reached env st caller deadline
    (readyTargets st k caller.tenantId payload seed w.health w.now targets)
    (readyNotes st k caller.tenantId payload seed w.health w.now targets) w,
      PoolUndisturbed caller w.health r.1 r.2.health

theorem dispatches_eq {w w' : World} (h : w.record = w'.record) : w.dispatches = w'.dispatches := by
  have hrec : ∀ v : World, v.dispatches = { v with events := v.record }.dispatches := by
    intro v
    unfold World.dispatches World.record
    rw [List.filterMap_filter]
    congr 1
    funext x
    cases x <;> rfl
  rw [hrec, hrec w', h]
  rfl

/-! ## Undisturbed pools -/

section

variable {ρ : Type} {env : Env ρ} {st : AppState} {caller : Caller} {deadline : Deadline}
  {h₀ : HealthTracker} {cells : ℕ → Prop} {rt : ReadyTarget} {key : PoolKey} {w : World}

/-- Other requests leave the key cooldowns alone meanwhile. -/
def Env.LeavesCooldowns (env : Env ρ) : Prop :=
  ∀ n h, (env.during n h).keyHash = h.keyHash ∧ (env.during n h).keyCooldowns = h.keyCooldowns ∧
    (env.between n h).keyHash = h.keyHash ∧ (env.between n h).keyCooldowns = h.keyCooldowns

/-- A cooldown cell of a target's pool. -/
def PoolCell (caller : Caller) (h₀ : HealthTracker) (rt : ReadyTarget) (j : ℕ) : Prop :=
  ∃ key ∈ rt.keys, ∃ i, key.1 = some i ∧
    j = (h₀.keySlot caller.tenantId rt.target.provider i).1

theorem touches_failureHealth {h : HealthTracker} (ht : h₀.Touches cells h)
    (hkey : ∀ i, key.1 = some i → cells (h₀.keySlot caller.tenantId rt.target.provider i).1)
    (e : ProviderError) (clientBounded : Bool) (elapsed now : ℕ) :
    h₀.Touches cells (failureHealth st caller rt key e clientBounded elapsed now h) := by
  unfold failureHealth
  simp only
  have hlat : h₀.Touches cells (if isClientDeadlineTimeout e clientBounded = true then h
      else h.recordLatency caller.tenantId rt.target.provider elapsed) := by
    split
    · exact ht
    · exact ht.withHealth _
  have hfed : ∀ {h' : HealthTracker}, h₀.Touches cells h' → ∀ b : Bool, h₀.Touches cells
      (if b = true then h'.recordFailure caller.tenantId rt.target.provider now else h') := by
    intro h' ht' b
    split
    · exact ht'.withHealth _
    · exact ht'
  unfold coolKeyFor
  split
  · rename_i i ms hi hms
    exact (hfed hlat _).coolKey (hkey i hi) _
  · exact hfed hlat _

theorem touches_backOff (hq : env.LeavesCooldowns) {late : String} {retry : RetryPolicy}
    {attempt : ℕ} {hint : Option ℕ} {v : World} (ht : h₀.Touches cells w.health)
    (hok : backOff env late retry deadline attempt hint w = .ok v) : h₀.Touches cells v.health := by
  unfold backOff at hok
  split at hok
  · obtain rfl := Except.ok.inj hok
    exact ht
  · simp only at hok
    split at hok
    · simp at hok
    · split at hok
      · obtain rfl := Except.ok.inj hok
        exact ht
      · obtain rfl := Except.ok.inj hok
        obtain ⟨-, -, hhash, hwords⟩ := hq w.calls w.health
        exact ⟨by rw [hhash, ht.hash_eq], fun j hj => by rw [hwords, ht.word_eq j hj]⟩

variable (deadline) in
theorem touches_admitTry (late tenant : String) (target : TargetPlan)
    (ht : h₀.Touches cells w.health) :
    h₀.Touches cells (admitTry late tenant target deadline w).2.health := by
  have havail : h₀.Touches cells (w.health.isAvailable tenant target.provider w.now).2 :=
    ht.withHealth _
  unfold admitTry
  simp only
  split
  · exact havail
  · split
    · exact havail
    · split <;> exact havail.tryEnterProbe _

theorem touches_callProvider (hq : env.LeavesCooldowns) (d : Dispatch) (timeout : ℕ)
    (probe : ProbeAdmission) (ht : h₀.Touches cells w.health) :
    h₀.Touches cells (callProvider env d timeout probe w).2.2.health := by
  obtain ⟨hhash, hwords, -, -⟩ := hq w.calls w.health
  have hduring : h₀.Touches cells (env.during w.calls w.health) :=
    ⟨by rw [hhash, ht.hash_eq], fun j hj => by rw [hwords, ht.word_eq j hj]⟩
  exact hduring.leave probe

/-- One try of a key touches no cooldown but the key's own. -/
theorem touches_attemptRound (hq : env.LeavesCooldowns)
    (hkey : ∀ i, key.1 = some i → cells (h₀.keySlot caller.tenantId rt.target.provider i).1)
    (attempt : ℕ) (hint : Option ℕ) (w : World) (ht : h₀.Touches cells w.health) :
    h₀.Touches cells (attemptRound env st caller deadline rt key attempt hint w).2.health := by
  unfold attemptRound
  simp only
  split
  · exact ht
  · rename_i v hv
    have hallow := touches_admitTry deadline
      "request deadline exceeded before all providers were tried" caller.tenantId rt.target
      (touches_backOff hq ht hv)
    split
    · rename_i e u heq
      rw [heq] at hallow
      exact hallow
    · rename_i timeout cb probe u heq
      rw [heq] at hallow
      have hcall := touches_callProvider hq ⟨rt.idx, rt.target.provider, key, rt.shaped⟩ timeout
        probe hallow
      split
      · rename_i response elapsed x hx
        rw [hx] at hcall
        unfold recordAttemptSuccess
        simp only
        split
        · rename_i i hi
          exact ((hcall.withHealth _).withHealth _).clearKey (hkey i hi)
        · exact (hcall.withHealth _).withHealth _
      · rename_i e elapsed x hx
        rw [hx] at hcall
        have hspeaks : (Fault.error e).speaks cb = (Fault.error e).speaks cb := rfl
        obtain ⟨ev, hev⟩ := recordAttemptFailure_eq st caller rt key x hspeaks elapsed
        simp only [hev]
        exact touches_failureHealth hcall hkey _ _ _ _
      · rename_i elapsed x hx
        rw [hx] at hcall
        have hspeaks : Fault.elapsed.speaks cb = (Fault.error (.timeout rt.target.provider
            ("timed out after " ++ toString timeout ++ "ms"))).speaks cb := by
          cases cb <;> rfl
        obtain ⟨ev, hev⟩ := recordAttemptFailure_eq st caller rt key x hspeaks elapsed
        simp only [hev]
        exact touches_failureHealth hcall hkey _ _ _ _

/-- **A pool is undisturbed when no earlier pool shares a cell with it.** By induction on the
targets ahead; the cells touched so far are those of the targets behind. -/
theorem reached_undisturbed (hq : env.LeavesCooldowns) (before : List ReadyTarget)
    {ready : List ReadyTarget} {notes : Notes}
    (hcells : (before ++ ready).Pairwise fun q r =>
      ∀ j, PoolCell caller h₀ q j → ¬PoolCell caller h₀ r j)
    (ht : h₀.Touches (fun j => ∃ q ∈ before, PoolCell caller h₀ q j) w.health) :
    ∀ r ∈ reached env st caller deadline ready notes w,
      PoolUndisturbed caller h₀ r.1 r.2.health := by
  induction ready generalizing before notes w with
  | nil =>
    intro r hr
    simp [reached] at hr
  | cons rt rest ih =>
    intro r hr
    have hbehind : h₀.Touches (fun j => ∃ q ∈ before ++ [rt], PoolCell caller h₀ q j) w.health := by
      refine ⟨ht.hash_eq, fun j hj => ht.word_eq j ?_⟩
      rintro ⟨q, hq', hcell⟩
      exact hj ⟨q, List.mem_append_left _ hq', hcell⟩
    have htry : ∀ key ∈ rt.keys, ∀ v : World,
        h₀.Touches (fun j => ∃ q ∈ before ++ [rt], PoolCell caller h₀ q j) v.health →
        h₀.Touches (fun j => ∃ q ∈ before ++ [rt], PoolCell caller h₀ q j)
          (attemptTarget env st caller deadline rt key v).2.health := by
      intro key hk v hv
      have hcell : ∀ i, key.1 = some i → ∃ q ∈ before ++ [rt],
          PoolCell caller h₀ q (h₀.keySlot caller.tenantId rt.target.provider i).1 := by
        intro i hi
        exact ⟨rt, by simp, key, hk, i, hi, rfl⟩
      exact attemptTarget_preserves
        (fun attempt hint u hu => touches_attemptRound hq hcell attempt hint u hu) v hv
    have hkeys := walkKeys_preserves htry false notes w hbehind
    unfold reached at hr
    rcases List.mem_cons.1 hr with rfl | hr
    · intro key hk i hi
      refine ht.keyCooledUntil ?_
      rintro ⟨q, hq', hcell⟩
      obtain ⟨-, -, hcross⟩ := List.pairwise_append.1 hcells
      exact hcross q hq' rt List.mem_cons_self _ hcell ⟨key, hk, i, hi, rfl⟩
    · split at hr
      · simp at hr
      · rename_i verdict n v heq
        rw [heq] at hkeys
        have hcells' : ((before ++ [rt]) ++ rest).Pairwise fun q r =>
            ∀ j, PoolCell caller h₀ q j → ¬PoolCell caller h₀ r j := by
          simpa using hcells
        refine ih _ hcells' ?_ r hr
        · unfold closeTarget feedPool
          split
          · exact hkeys.withHealth _
          · exact hkeys

end

/-- A single target has no other to share a cell with. -/
theorem readyTargets_single {st : AppState} {k : VirtualKey} {caller : Caller}
    {payload : ChatCompletionRequest} {seed : BitVec 64} {health : HealthTracker} {now : ℕ}
    {target : TargetPlan} (R : ReadyTarget → ReadyTarget → Prop) :
    (readyTargets st k caller.tenantId payload seed health now [target]).Pairwise R := by
  change (readyFrom st k caller payload seed health now [target] 0).Pairwise R
  rw [readyFrom_cons]
  split
  · exact List.pairwise_singleton R _
  · exact .nil

/-- Pools in cells of their own are undisturbed. -/
theorem poolsUndisturbed_of_cells {ρ : Type} {env : Env ρ} {st : AppState} {k : VirtualKey}
    {caller : Caller} {deadline : Deadline} {payload : ChatCompletionRequest} {seed : BitVec 64}
    {targets : List TargetPlan} {w : World} (hq : env.LeavesCooldowns)
    (hcells : (readyTargets st k caller.tenantId payload seed w.health w.now targets).Pairwise
      fun q r => ∀ j, PoolCell caller w.health q j → ¬PoolCell caller w.health r j) :
    PoolsUndisturbed env st k caller deadline payload seed targets w :=
  reached_undisturbed hq [] hcells .refl

/-- **When the walks are alike.** Time and draws are given to both; while each pool is as it was
at the start when it is reached, the walks are alike iff no exhausted pool hides a fault of its
provider. -/
theorem walks_alike_iff {ρ : Type} (env : Env ρ) (st : AppState) (k : VirtualKey) (caller : Caller)
    (deadline : Deadline) (payload : ChatCompletionRequest) (seed : BitVec 64)
    (targets : List TargetPlan) (now : ℕ) (health : HealthTracker)
    (hpools : PoolsUndisturbed env st k caller deadline payload seed targets (.start now health)) :
    let buffered := bufferedRun env st k caller deadline payload seed targets (.start now health)
    WalksAlike buffered (streamWalk env st k caller deadline payload (fun _ => seed) targets
      (.start now health)) ↔ NoFaultHidden buffered.1 buffered.2.2.record := by
  intro buffered
  have hready : readyTargets st k caller.tenantId payload seed health now targets =
      readyFrom st k caller payload seed health now targets 0 := rfl
  have hres : Resolved st caller (readyFrom st k caller payload seed health now targets 0) :=
    readyFrom_resolved
  obtain ⟨seg, hrec, hseg⟩ := bufferedWalk_segment env deadline (.start now health)
    (readyNotes st k caller.tenantId payload seed health now targets) hres readyFrom_distinct
  have hrec' : buffered.2.2.record = seg := hrec
  rw [hrec']
  constructor
  · intro h i hspoke hlost
    have honce := h.buffered_once
    rw [hrec'] at honce
    exact (hseg.fed_once i hspoke hlost).1 (honce i hspoke hlost)
  · intro hB
    have hhidden : ∀ seg', buffered.2.2.record = (World.start now health).record ++ seg' →
        NoFaultHidden buffered.1 seg' := by
      intro seg' hseg'
      obtain rfl : seg' = seg := List.append_cancel_left (hseg'.symm.trans hrec)
      exact hB
    obtain ⟨hwin, hal⟩ := streamTargets_alike {} (Alike.refl (.start now health)) hpools hhidden
    have honce : PoolsFedOnce buffered.1 buffered.2.2.record := by
      rw [hrec']
      exact fun i hspoke hlost => (hseg.fed_once i hspoke hlost).2 (hB i hspoke hlost)
    have hwin' : buffered.1 = (streamWalk env st k caller deadline payload (fun _ => seed) targets
      (.start now health)).1 := hwin
    have hal' : Alike buffered.2.2 (streamWalk env st k caller deadline payload (fun _ => seed)
      targets (.start now health)).2.2 := hal
    exact
      { winner := hwin'
        dispatches := dispatches_eq hal'.record_eq
        breakers := fun owner provider => by rw [hal'.health_eq]
        cooldowns := by rw [hal'.health_eq]
        buffered_once := honce
        streaming_once := by rw [← hwin', ← hal'.record_eq]; exact honce }

/-! ## A small gateway -/

/-- One built-in provider. -/
def openaiGateway : AppState where
  providers := [("openai", ⟨"openai", []⟩)]

def pooledKey : VirtualKey where
  name := "acme"
  providerKeys := [("openai", "k1,k2")]

def acme : Caller where
  tenantId := "acme"
  keyName := "acme"
  requestId := "req_1"

/-- All breakers closed, no key cooled, and a cooldown cell for each key index. -/
def openaiHealth : HealthTracker := .new ["openai"] fun _ _ i => i

def freshWorld : World := .start 0 openaiHealth

def defaultDeadline : Deadline := .start {} 0

def retriedOnce : TargetPlan where
  provider := "openai"
  retry := { attempts := 1, backoff := { jitter := false } }

/-- A server error, then throttles. -/
def faultThenThrottles : Env Unit where
  reply n :=
    ⟨.error (if n = 0 then .upstream5xx "openai" 503 "" else .rateLimited "openai" none ""), 10⟩

/-- A throttle, then rejected requests. -/
def throttleThenRejects : Env Unit where
  reply n :=
    ⟨.error (if n = 0 then .rateLimited "openai" none "" else .badRequest "openai" 400 ""), 10⟩

/-- On one pool the walks are alike iff it hides no fault, whatever the replies are. -/
theorem walks_alike_iff_onePool :
    WalksAlike
        (bufferedRun faultThenThrottles openaiGateway pooledKey acme defaultDeadline default 0
          [retriedOnce] freshWorld)
        (streamWalk faultThenThrottles openaiGateway pooledKey acme defaultDeadline default
          (fun _ => 0) [retriedOnce] freshWorld) ↔
      NoFaultHidden
        (bufferedRun faultThenThrottles openaiGateway pooledKey acme defaultDeadline default 0
          [retriedOnce] freshWorld).1
        (bufferedRun faultThenThrottles openaiGateway pooledKey acme defaultDeadline default 0
          [retriedOnce] freshWorld).2.2.record := by
  have hpools : PoolsUndisturbed faultThenThrottles openaiGateway pooledKey acme defaultDeadline
      default 0 [retriedOnce] freshWorld := by
    refine poolsUndisturbed_of_cells (fun _ _ => ⟨rfl, rfl, rfl, rfl⟩) ?_
    exact readyTargets_single _
  have h := walks_alike_iff faultThenThrottles openaiGateway pooledKey acme defaultDeadline default
    0 [retriedOnce] 0 openaiHealth hpools
  simp only at h
  unfold freshWorld
  exact h

/-- **The walks differ.** A pool key answered 503 and then, on its retry, 429 leaves the breaker
without a failure when buffered and with one when streaming. A pool listed twice is tried in
another order the second time. -/
theorem walks_differ :
    ¬WalksAlike
      (bufferedRun faultThenThrottles openaiGateway pooledKey acme defaultDeadline default 0
        [retriedOnce] freshWorld)
      (streamWalk faultThenThrottles openaiGateway pooledKey acme defaultDeadline default
        (fun _ => 0) [retriedOnce] freshWorld) ∧
    ¬WalksAlike
      (bufferedRun throttleThenRejects openaiGateway pooledKey acme defaultDeadline default 1
        [{ provider := "openai" }, { provider := "openai" }] freshWorld)
      (streamWalk throttleThenRejects openaiGateway pooledKey acme defaultDeadline default
        (fun _ => 1) [{ provider := "openai" }, { provider := "openai" }] freshWorld) := by
  refine ⟨fun h => ?_, fun h => ?_⟩
  · have hfailures := congrArg (Option.map CircuitBreaker.failures) (h.breakers "" "openai")
    revert hfailures
    decide +kernel
  · have hkeys := congrArg (List.map fun d => (d.target, d.key)) h.dispatches
    revert hkeys
    decide +kernel

end Routeplane
