import Routeplane.Proof.Dispatch
import Routeplane.Proof.Hedge

/-!
# When an executor calls, and that it can call every target

Providers are called in time only. And where each of them refuses at once, in a way that is held
against nobody, every target with a known provider and a key is called, whichever executor drives
the request.

* `Service.dispatched_inTime`: no call is made once the deadline has passed.
* `Service.exists_dispatched`: one run calls every target that can be called.
-/

namespace Routeplane

open SplitMix

section

variable {ρ : Type} {env : Env ρ} {st : AppState} {k : VirtualKey} {caller : Caller}
  {deadline : Deadline} {rt : ReadyTarget} {key : PoolKey} {w w' : World}

/-! ## Out of time -/

/-- The clock has not moved, and no provider has been called. -/
structure Unmoved (now : ℕ) (w : World) : Prop where
  now_eq : w.now = now
  uncalled : ∀ d, .dispatched d ∉ w.record

theorem Unmoved.start (now : ℕ) (health : HealthTracker) : Unmoved now (.start now health) := by
  refine ⟨rfl, fun d hd => ?_⟩
  cases hd

theorem Unmoved.log {now : ℕ} (h : Unmoved now w) {es : List Event} (hes : ∀ d, .dispatched d ∉ es) :
    Unmoved now (w.log es) := by
  refine ⟨h.now_eq, fun d hd => ?_⟩
  rw [record_log] at hd
  rcases List.mem_append.1 hd with hd | hd
  · exact h.uncalled d hd
  · exact hes d (List.mem_of_mem_filter hd)

theorem Unmoved.of_alike {now : ℕ} (h : Unmoved now w) (hal : Alike w w') : Unmoved now w' :=
  ⟨hal.now_eq.symm.trans h.now_eq, fun d hd => h.uncalled d (by rw [hal.record_eq]; exact hd)⟩

theorem Unmoved.withHealth {now : ℕ} (h : Unmoved now w) (health : HealthTracker) :
    Unmoved now { w with health := health } := ⟨h.now_eq, h.uncalled⟩

theorem Unmoved.feedPool {now : ℕ} (h : Unmoved now w) : Unmoved now (feedPool caller rt w) :=
  (h.withHealth _).log fun d hd => by cases List.mem_singleton.1 hd

/-- No round calls a provider: the pause does not fit, or the check before the call says so. -/
theorem attemptRound_late (hw : deadline.remaining w.now = 0) {now : ℕ} (h : Unmoved now w)
    (attempt : ℕ) (hint : Option ℕ) :
    Unmoved now (attemptRound env st caller deadline rt key attempt hint w).2 := by
  have hskip : ∀ {v : World}, Unmoved now v → Unmoved now (v.log [.skipped rt.idx key]) := by
    intro v hv
    exact hv.log fun d hd => by cases List.mem_singleton.1 hd
  unfold attemptRound
  simp only
  unfold backOff
  rw [hw]
  split
  · exact hskip h
  · rename_i v hv
    obtain rfl : w = v := by
      split at hv
      · exact Except.ok.inj hv
      · rw [if_pos (Nat.zero_le _)] at hv
        cases hv
    have hnone : deadline.nextAttemptTimeoutCapped rt.target.timeoutMs w.now = none := by
      unfold Deadline.nextAttemptTimeoutCapped Deadline.nextAttemptTimeout
      rw [if_pos hw]
      rfl
    unfold admitTry
    simp only [hnone]
    split
    · rename_i hstop
      split at hstop
      · obtain ⟨-, rfl⟩ := Prod.mk.inj hstop
        exact hskip (h.withHealth _)
      · obtain ⟨-, rfl⟩ := Prod.mk.inj hstop
        exact hskip (h.withHealth _)
    · rename_i hgo
      split at hgo
      · cases (Prod.mk.inj hgo).1
      · cases (Prod.mk.inj hgo).1

theorem attemptTarget_late {now : ℕ} (hlate : deadline.remaining now = 0) (h : Unmoved now w) :
    Unmoved now (attemptTarget env st caller deadline rt key w).2 := by
  refine attemptTarget_preserves (P := Unmoved now) (fun attempt hint v hv => ?_) w h
  refine attemptRound_late ?_ hv attempt hint
  rw [hv.now_eq]
  exact hlate

variable (env st caller) in
theorem bufferedWalk_late {now : ℕ} (hlate : deadline.remaining now = 0) (ready : List ReadyTarget)
    (notes : Notes) (h : Unmoved now w) :
    Unmoved now (bufferedWalk env st caller deadline ready notes w).2.2 := by
  refine sequentialWalk_preserves (P := Unmoved now) ?_ ?_ notes w h
  · intro rt _ key _ v hv
    exact attemptTarget_late hlate hv
  · intro rt _ v hv
    exact hv.feedPool

variable (env st k caller) in
/-- The streaming walk, by induction on the targets: the keys of each go as in the buffered one. -/
theorem streamTargets_late {now : ℕ} (hlate : deadline.remaining now = 0)
    (payload : ChatCompletionRequest) (backoffSeed : ℕ → BitVec 64) (nowMs : ℕ)
    (targets : List TargetPlan) (idx : ℕ) (notes : Notes) (h : Unmoved now w) :
    Unmoved now (streamTargets env st k caller deadline payload backoffSeed nowMs targets idx notes
      w).2.2 := by
  induction targets generalizing idx notes w with
  | nil => exact h
  | cons target rest ih =>
    unfold streamTargets
    simp only
    split
    · exact ih (idx + 1) _ h
    · rename_i rt hok
      obtain ⟨-, htarget, hres, -⟩ := readyTarget_ok hok
      rw [← htarget] at hres
      have hkeys : KeysAlike caller deadline rt rt.keys w.record false false
          (walkKeys (attemptTarget env st caller deadline rt) rt.keys false notes w)
          (establishKeys env st caller deadline rt rt.keys false notes w) :=
        establishKeys_alike hres rt.keys_nodup (.refl w)
      have hwalk : Unmoved now
          (walkKeys (attemptTarget env st caller deadline rt) rt.keys false notes w).2.2.2 :=
        walkKeys_preserves (P := Unmoved now) (fun key _ v hv => attemptTarget_late hlate hv) false
          notes w h
      generalize walkKeys (attemptTarget env st caller deadline rt) rt.keys false notes w = b
        at hkeys hwalk
      generalize establishKeys env st caller deadline rt rt.keys false notes w = s at hkeys ⊢
      cases hkeys with
      | @exhausted n n' v v' seg hal hr hof =>
        have hv' : Unmoved now v' := hwalk.of_alike hal
        simp only
        split
        · exact ih (idx + 1) n' hv'.feedPool
        · exact ih (idx + 1) n' hv'
      | @won response elapsed l a n n' v v' seg hal hr hof =>
        exact (hwalk.of_alike hal).withHealth _

end

theorem Deadline.remaining_anti {d : Deadline} {now later : ℕ} (h : now ≤ later) :
    d.remaining later ≤ d.remaining now := by
  unfold Deadline.remaining
  omega

/-- An execution whose attempts start no earlier than it does. -/
def Execution.StartsAfter {ρ : Type} (now : ℕ) : Execution ρ → Prop
  | .hedged _ _ strands _ => ∀ rt, now ≤ (strands rt).now
  | _ => True

/-- **A call is made in time.** -/
theorem Service.dispatched_inTime {ρ : Type} {st : AppState} {cfg : DeadlineConfig} {s : Service ρ}
    (hstarts : s.execution.StartsAfter s.now) {d : Dispatch} (hd : .dispatched d ∈ s.record st cfg) :
    (s.request.deadline cfg).remaining s.now ≠ 0 := by
  intro hlate
  obtain ⟨r, execution, now, health⟩ := s
  cases execution with
  | buffered env =>
    exact (bufferedWalk_late env st r.caller hlate _ _ (.start now health)).uncalled d hd
  | streaming env =>
    exact (streamTargets_late env st r.key r.caller hlate r.payload r.backoffSeed now r.targets 0 {}
      (.start now health)).uncalled d hd
  | hedged policy pick strands steps =>
    obtain ⟨rt, -, hd'⟩ := List.mem_flatMap.1 hd
    have hnever : (r.deadline cfg).remaining (strands rt).now = 0 := by
      have hle := (r.deadline cfg).remaining_anti (hstarts rt)
      exact Nat.eq_zero_of_le_zero (hle.trans hlate.le)
    exact (attemptTarget_late hnever (.start _ _)).uncalled d (List.mem_of_mem_take hd')

/-! ## Refused at once -/

/-- The answer that ends a target and is held against nobody. -/
def refusal : ProviderError := .badRequest "" 400 ""

section

variable {st : AppState} {k : VirtualKey} {caller : Caller} {deadline : Deadline}
  {rt : ReadyTarget} {key : PoolKey} {w w' v : World}

/-- Nothing has happened in between but calls that were refused at once; no provider is tracked. -/
structure Refused (w w' : World) : Prop where
  now_eq : w'.now = w.now
  health_eq : w'.health = default
  kept : ∀ x ∈ w.record, x ∈ w'.record

theorem Refused.refl (hw : w.health = default) : Refused w w := ⟨rfl, hw, fun _ h => h⟩

theorem Refused.trans (h : Refused w w') (h' : Refused w' v) : Refused w v :=
  ⟨h'.now_eq.trans h.now_eq, h'.health_eq, fun x hx => h'.kept x (h.kept x hx)⟩

theorem Refused.of_alike (h : Refused w w') (hal : Alike w' v) : Refused w v := by
  refine ⟨hal.now_eq.symm.trans h.now_eq, hal.health_eq.symm.trans h.health_eq, fun x hx => ?_⟩
  rw [← hal.record_eq]
  exact h.kept x hx

theorem Refused.feedPool (h : Refused w w') : Refused w (feedPool caller rt w') := by
  refine ⟨h.now_eq, ?_, fun x hx => ?_⟩
  · show w'.health.recordFailure caller.tenantId rt.target.provider w'.now = default
    rw [h.health_eq]
    rfl
  · rw [record_feedPool]
    exact List.mem_append_left _ (h.kept x hx)

variable (st caller rt key) in
/-- The first round of a key. -/
theorem attemptRound_refused (ht : deadline.remaining w.now ≠ 0) (hw : w.health = default) :
    ∃ v, attemptRound (answering refusal 0) st caller deadline rt key 0 none w =
        (.failed refusal false, v) ∧ Refused w v ∧
      .dispatched ⟨rt.idx, rt.target.provider, key, rt.shaped⟩ ∈ v.record := by
  obtain ⟨now, health, calls, events⟩ := w
  obtain rfl : health = default := hw
  obtain ⟨timeout, htimeout⟩ : ∃ t, deadline.nextAttemptTimeoutCapped rt.target.timeoutMs now =
      some t := by
    unfold Deadline.nextAttemptTimeoutCapped Deadline.nextAttemptTimeout
    rw [if_neg ht]
    exact ⟨_, rfl⟩
  have hback : ∀ late, backOff (answering refusal 0) late rt.target.retry deadline 0 none
      ⟨now, default, calls, events⟩ = .ok ⟨now, default, calls, events⟩ := fun late => if_pos rfl
  have hallow : ∀ late, ∃ bounded, admitTry late caller.tenantId rt.target deadline
      ⟨now, default, calls, events⟩ =
        (.go timeout bounded .untracked, ⟨now, default, calls, events⟩) := by
    intro late
    unfold admitTry
    simp only [htimeout]
    exact ⟨_, rfl⟩
  unfold attemptRound
  simp only [hback]
  obtain ⟨bounded, hgo⟩ := hallow "request deadline exceeded before all providers were tried"
  simp only [hgo]
  -- the answer takes no time, so no timeout comes first
  simp only [callProvider, answering, Nat.zero_le, if_true, Nat.zero_min, Nat.add_zero]
  generalize hcalled : World.log ⟨now, _, calls + 1, events⟩ _ = called
  have hspeaks : (Fault.error refusal).speaks bounded = false := rfl
  obtain ⟨event, hrecorded⟩ : ∃ event,
      recordAttemptFailure st caller rt key refusal (.error refusal) bounded 0 called =
        ((Fault.error refusal).speaks bounded, failureWorld st caller rt key refusal (.error refusal)
          bounded 0 event called) := recordAttemptFailure_eq st caller rt key called rfl 0
  rw [hspeaks] at hrecorded
  simp only [hrecorded]
  refine ⟨_, rfl, ⟨?_, ?_, ?_⟩, ?_⟩
  · rw [← hcalled]
    rfl
  · show failureHealth st caller rt key refusal bounded 0 called.now called.health = default
    rw [← hcalled]
    unfold failureHealth coolKeyFor
    rw [hspeaks, Bool.and_false]
    cases bounded <;> cases key.1 <;> rfl
  · intro x hx
    rw [record_failureWorld, ← hcalled, record_log]
    exact List.mem_append_left _ (List.mem_append_left _ hx)
  · rw [record_failureWorld, ← hcalled, record_log]
    exact List.mem_append_left _ (List.mem_append_right _ (List.mem_singleton.2 rfl))

variable (key) in
theorem attemptTarget_refused
    (hres : (st.resolveProvider caller.tenantId rt.target.provider).isSome)
    (ht : deadline.remaining w.now ≠ 0) (hw : w.health = default) :
    ∃ v e status, attemptTarget (answering refusal 0) st caller deadline rt key w =
        (.exhausted e false status, v) ∧ Refused w v ∧
      .dispatched ⟨rt.idx, rt.target.provider, key, rt.shaped⟩ ∈ v.record := by
  obtain ⟨adapter, hadapter⟩ := Option.isSome_iff_exists.1 hres
  obtain ⟨v, hround, hv, hd⟩ := attemptRound_refused st caller rt key ht hw
  refine ⟨v, refusal.display, upstreamClientStatus refusal, ?_, hv, hd⟩
  unfold attemptTarget
  rw [hadapter]
  -- a refusal is not retried
  unfold attemptLoop
  rw [hround]
  simp only
  cases rt.target.retry.attempts with
  | zero => rfl
  | succ left => rfl

/-- **The keys of a target**, by induction. -/
theorem walkKeys_refused (hres : (st.resolveProvider caller.tenantId rt.target.provider).isSome)
    (keys : List PoolKey) (verdict : Bool) (notes : Notes) (ht : deadline.remaining w.now ≠ 0)
    (hw : w.health = default) :
    ∃ verdict' notes' v,
      walkKeys (attemptTarget (answering refusal 0) st caller deadline rt) keys verdict notes w =
        (none, verdict', notes', v) ∧ Refused w v ∧
      ∀ key ∈ keys, .dispatched ⟨rt.idx, rt.target.provider, key, rt.shaped⟩ ∈ v.record := by
  induction keys generalizing verdict notes w with
  | nil => exact ⟨verdict, notes, w, rfl, .refl hw, fun key hkey => absurd hkey List.not_mem_nil⟩
  | cons key keys ih =>
    obtain ⟨u, e, status, htarget, hu, hd⟩ := attemptTarget_refused key hres ht hw
    obtain ⟨verdict', notes', v, hrest, hv, hall⟩ := ih (verdict || false)
      (notes.exhausted e status) (by rw [hu.now_eq]; exact ht) hu.health_eq
    refine ⟨verdict', notes', v, ?_, hu.trans hv, ?_⟩
    · unfold walkKeys
      rw [htarget]
      exact hrest
    · intro key' hkey'
      rcases List.mem_cons.1 hkey' with rfl | hkey'
      · exact hv.kept _ hd
      · exact hall key' hkey'

/-- The calls of a target are on record. -/
def Called (rt : ReadyTarget) (es : List Event) : Prop :=
  ∃ key, .dispatched ⟨rt.idx, rt.target.provider, key, rt.shaped⟩ ∈ es

/-- **The buffered walk**, by induction on the targets. -/
theorem bufferedWalk_refused {ready : List ReadyTarget} (hres : Resolved st caller ready)
    (notes : Notes) (ht : deadline.remaining w.now ≠ 0) (hw : w.health = default) :
    Refused w (bufferedWalk (answering refusal 0) st caller deadline ready notes w).2.2 ∧
      ∀ rt ∈ ready, Called rt
        (bufferedWalk (answering refusal 0) st caller deadline ready notes w).2.2.record := by
  induction ready generalizing notes w with
  | nil => exact ⟨.refl hw, fun rt hrt => absurd hrt List.not_mem_nil⟩
  | cons rt rest ih =>
    obtain ⟨verdict, n, u, hkeys, hu, hcalled⟩ := walkKeys_refused
      (hres rt List.mem_cons_self) rt.keys false notes ht hw
    have hfed : ∀ closed : Bool, Refused w (if closed then feedPool caller rt u else u) := by
      intro closed
      cases closed with
      | false => exact hu
      | true => exact hu.feedPool
    have hclosed := hfed (rt.firstKey.1.isSome && verdict)
    obtain ⟨hrest, hall⟩ := ih (fun r hr => hres r (List.mem_cons_of_mem _ hr)) n
      (by rw [hclosed.now_eq]; exact ht) hclosed.health_eq
    have hwalk : bufferedWalk (answering refusal 0) st caller deadline (rt :: rest) notes w =
        bufferedWalk (answering refusal 0) st caller deadline rest n
          (if rt.firstKey.1.isSome && verdict then feedPool caller rt u else u) := by
      conv_lhs => unfold bufferedWalk sequentialWalk
      rw [hkeys]
      rfl
    rw [hwalk]
    refine ⟨hclosed.trans hrest, ?_⟩
    intro r hr
    rcases List.mem_cons.1 hr with rfl | hr
    · have hfirst := hcalled r.firstKey (List.head_mem r.keys_ne)
      refine ⟨r.firstKey, hrest.kept _ ?_⟩
      split
      · rw [record_feedPool]
        exact List.mem_append_left _ hfirst
      · exact hfirst
    · exact hall r hr

/-! ## The targets that can be called -/

/-- The calls to a target are on record. -/
def Sent (t : TargetPlan) (payload : ChatCompletionRequest) (es : List Event) : Prop :=
  ∃ d, .dispatched d ∈ es ∧ d.provider = t.provider ∧ d.request = t.params.apply payload

/-- Whether a provider has a key at all does not depend on the moment. -/
theorem targetKeys_ne_nil {tenant provider : String} {health health' : HealthTracker}
    {now now' : ℕ} {seed seed' : BitVec 64}
    (h : targetKeys st k tenant provider health now seed ≠ []) :
    targetKeys st k tenant provider health' now' seed' ≠ [] := by
  unfold targetKeys at h ⊢
  split at h
  · rename_i value _
    intro hnil
    refine h (List.map_eq_nil_iff.2 ?_)
    have hperm : ∀ (h : HealthTracker) (now : ℕ) (seed : BitVec 64),
        (orderPoolKeys (st.resolvePool value) tenant provider h now (Rng.seeded seed)).Perm
          (st.resolvePool value) := fun h now seed => orderPoolKeys_perm _
    have hresolved : st.resolvePool value = [] := by
      have hother := hperm health' now' seed'
      rw [List.map_eq_nil_iff.1 hnil] at hother
      exact hother.nil_eq.symm
    have hown := hperm health now seed
    rw [hresolved] at hown ⊢
    exact hown.eq_nil
  · exact h

theorem Callable.ready {target : TargetPlan}
    (h : Callable st k caller.tenantId target.provider) (payload : ChatCompletionRequest)
    (seed : BitVec 64) (health : HealthTracker) (now idx : ℕ) :
    ∃ rt, readyTarget st k caller.tenantId payload seed health now target idx = .ok rt := by
  cases hready : readyTarget st k caller.tenantId payload seed health now target idx with
  | ok rt => exact ⟨rt, rfl⟩
  | error e =>
    unfold readyTarget at hready
    simp only at hready
    split at hready
    · rename_i hunknown
      rw [AppState.knows_eq, h.known] at hunknown
      cases hunknown
    · split at hready
      · rename_i hof
        obtain ⟨health', now', seed', hkeyed⟩ := h.keyed
        unfold ReadyTarget.of? at hof
        split at hof
        · rename_i hnil
          exact absurd hnil (targetKeys_ne_nil hkeyed)
        · cases hof
      · cases hready

theorem Called.sent {payload : ChatCompletionRequest} {seed : BitVec 64} {health : HealthTracker}
    {now idx : ℕ} {target : TargetPlan} {es : List Event}
    (hok : readyTarget st k caller.tenantId payload seed health now target idx = .ok rt)
    (h : Called rt es) : Sent target payload es := by
  obtain ⟨key, hkey⟩ := h
  obtain ⟨-, htarget, -, -⟩ := readyTarget_ok hok
  refine ⟨_, hkey, ?_, readyTarget_shaped hok⟩
  rw [← htarget]

variable (st k caller) in
/-- **The streaming walk**, by induction on the targets. -/
theorem streamTargets_refused (payload : ChatCompletionRequest) (backoffSeed : ℕ → BitVec 64)
    (nowMs : ℕ) (targets : List TargetPlan) (idx : ℕ) (notes : Notes)
    (ht : deadline.remaining w.now ≠ 0) (hw : w.health = default) :
    Refused w (streamTargets (answering refusal 0) st k caller deadline payload backoffSeed nowMs
        targets idx notes w).2.2 ∧
      ∀ t ∈ targets, Callable st k caller.tenantId t.provider →
        Sent t payload (streamTargets (answering refusal 0) st k caller deadline payload backoffSeed
          nowMs targets idx notes w).2.2.record := by
  induction targets generalizing idx notes w with
  | nil => exact ⟨.refl hw, fun t ht => absurd ht List.not_mem_nil⟩
  | cons target rest ih =>
    unfold streamTargets
    simp only
    split
    · rename_i e herror
      obtain ⟨hrest, hall⟩ := ih (idx + 1) { notes with lastError := e } ht hw
      refine ⟨hrest, fun t hmem hcallable => ?_⟩
      rcases List.mem_cons.1 hmem with rfl | hmem
      · obtain ⟨rt, hok⟩ := hcallable.ready payload (backoffSeed idx) w.health nowMs idx
        rw [hok] at herror
        cases herror
      · exact hall t hmem hcallable
    · rename_i rt hok
      obtain ⟨-, htarget, hres, -⟩ := readyTarget_ok hok
      rw [← htarget] at hres
      have hkeys : KeysAlike caller deadline rt rt.keys w.record false false
          (walkKeys (attemptTarget (answering refusal 0) st caller deadline rt) rt.keys false notes w)
          (establishKeys (answering refusal 0) st caller deadline rt rt.keys false notes w) :=
        establishKeys_alike hres rt.keys_nodup (.refl w)
      obtain ⟨verdict, n, u, hwalk, hu, hcalled⟩ := walkKeys_refused hres rt.keys false notes ht hw
      rw [hwalk] at hkeys
      generalize establishKeys (answering refusal 0) st caller deadline rt rt.keys false notes w = s
        at hkeys ⊢
      cases hkeys with
      | @exhausted n n' v v' seg hal hr hof =>
        simp only
        have hv' : Refused w v' := hu.of_alike hal
        have hfirst : Called rt v'.record := by
          refine ⟨rt.firstKey, ?_⟩
          rw [← hal.record_eq]
          exact hcalled rt.firstKey (List.head_mem rt.keys_ne)
        -- a verdict adds one event and changes nothing else
        have hgo : ∀ x : World, Refused w x → (∀ e ∈ v'.record, e ∈ x.record) →
            Refused w (streamTargets (answering refusal 0) st k caller deadline payload backoffSeed
                nowMs rest (idx + 1) n' x).2.2 ∧
              ∀ t ∈ target :: rest, Callable st k caller.tenantId t.provider →
                Sent t payload (streamTargets (answering refusal 0) st k caller deadline payload
                  backoffSeed nowMs rest (idx + 1) n' x).2.2.record := by
          intro x hx hkept
          obtain ⟨hrest, hall⟩ := ih (idx + 1) n' (by rw [hx.now_eq]; exact ht) hx.health_eq
          refine ⟨hx.trans hrest, fun t hmem hcallable => ?_⟩
          rcases List.mem_cons.1 hmem with rfl | hmem
          · obtain ⟨key, hkey⟩ := hfirst
            have hsent : Called rt (streamTargets (answering refusal 0) st k caller deadline payload
                backoffSeed nowMs rest (idx + 1) n' x).2.2.record :=
              ⟨key, hrest.kept _ (hkept _ hkey)⟩
            exact hsent.sent hok
          · exact hall t hmem hcallable
        split
        · refine hgo _ hv'.feedPool fun e he => ?_
          rw [record_feedPool]
          exact List.mem_append_left _ he
        · exact hgo _ hv' fun e he => he

end

/-! ## Every executor -/

section

variable (st : AppState) (cfg : DeadlineConfig) (r : PlannedRequest) (now : ℕ)

/-- The attempts of the hedged path, each refused at once and kept whole. -/
def refusedStrand (rt : ReadyTarget) : Strand Unit where
  env := answering refusal 0
  now := now
  health := default
  kept := (hedgedAttempt st r.caller (r.deadline cfg) rt
    ⟨answering refusal 0, now, default, 0⟩).2.record.length

variable {st cfg r now} in
theorem mem_readyTargets {t : TargetPlan} (ht : t ∈ r.targets)
    (hcallable : Callable st r.key r.caller.tenantId t.provider) (seed : BitVec 64)
    (health : HealthTracker) (now : ℕ) :
    ∃ rt idx, rt ∈ readyTargets st r.key r.caller.tenantId r.payload seed health now r.targets ∧
      readyTarget st r.key r.caller.tenantId r.payload seed health now t idx = .ok rt := by
  obtain ⟨idx, hidx, hat⟩ := List.getElem_of_mem ht
  obtain ⟨rt, hok⟩ := hcallable.ready r.payload seed health now idx
  refine ⟨rt, idx, List.mem_filterMap.2 ⟨(t, idx), ?_, ?_⟩, hok⟩
  · rw [List.mem_zipIdx_iff_getElem?]
    exact List.getElem?_eq_some_iff.2 ⟨hidx, hat⟩
  · simp only [hok]
    rfl

/-- What such an attempt comes to. -/
def refusedAttempt (rt : ReadyTarget) : Attempt Unit :=
  let (outcome, w) := hedgedAttempt st r.caller (r.deadline cfg) rt (refusedStrand st cfg r now rt)
  ⟨outcome, w.now - (refusedStrand st cfg r now rt).now⟩

theorem refusedAttempt_called {rt : ReadyTarget} (ht : (r.deadline cfg).remaining now ≠ 0)
    (hres : (st.resolveProvider r.caller.tenantId rt.target.provider).isSome) :
    (∃ e status, (refusedAttempt st cfg r now rt).outcome = .exhausted e false status) ∧
      Called rt (hedgedAttempt st r.caller (r.deadline cfg) rt
        (refusedStrand st cfg r now rt)).2.record := by
  have hstart : (World.start now default).health = default := rfl
  obtain ⟨v, e, status, htarget, -, hd⟩ := attemptTarget_refused (none, rt.firstKey.2) hres ht hstart
  unfold refusedAttempt hedgedAttempt refusedStrand
  simp only
  rw [htarget]
  exact ⟨⟨e, status, rfl⟩, _, hd⟩

/-- **A race that nobody wins launches every target.** -/
theorem exists_launched (policy : HedgePolicy) (pick : List (Flight Unit) → ℕ)
    {ready : List ReadyTarget} (hres : Resolved st r.caller ready) (notes : Notes)
    (ht : (r.deadline cfg).remaining now ≠ 0) :
    ∃ steps, (runHedgedTargets pick (refusedAttempt st cfg r now) policy (r.deadline cfg) ready now
      notes steps).launched = ready := by
  obtain ⟨steps, hreturned⟩ : ∃ n, (runHedgedTargets pick (refusedAttempt st cfg r now) policy
      (r.deadline cfg) ready now notes n).returned.isSome := runHedgedTargets_returns
  refine ⟨steps, ?_⟩
  have hstanding : Standing (refusedAttempt st cfg r now) policy ready
      (runHedgedTargets pick (refusedAttempt st cfg r now) policy (r.deadline cfg) ready now notes
        steps) := runHedgedTargets_standing steps
  obtain ⟨winner, hwinner⟩ := Option.isSome_iff_exists.1 hreturned
  cases winner with
  | none => exact (hstanding.all_failed hwinner).1
  | some winner =>
    obtain ⟨rt, hrt, -, hwon⟩ := hstanding.winner hwinner
    obtain ⟨e, status, hlost⟩ := (refusedAttempt_called st cfg r now ht (hres rt hrt)).1
    rw [hlost] at hwon
    cases hwon

/-- **One run calls every target that can be called**, whichever executor drives it. -/
theorem Service.exists_dispatched (ht : (r.deadline cfg).remaining now ≠ 0)
    (c : Circumstances Unit) (henv : c.env = answering refusal 0) (isStream : Bool)
    (hedge : Option HedgePolicy) :
    ∃ steps, ∀ t ∈ r.targets, Callable st r.key r.caller.tenantId t.provider →
      Sent t r.payload (Service.record st cfg
        ⟨r, { c with strands := refusedStrand st cfg r now, steps := steps }.execution isStream hedge,
          now, default⟩) := by
  unfold Circumstances.execution
  cases isStream with
  | true =>
    refine ⟨0, fun t hmem hcallable => ?_⟩
    show Sent t r.payload (streamWalk c.env st r.key r.caller _ _ _ _ _).2.2.record
    rw [henv]
    exact (streamTargets_refused st r.key r.caller r.payload r.backoffSeed now r.targets 0 {} ht
      rfl).2 t hmem hcallable
  | false =>
    have hready : Resolved st r.caller (readyTargets st r.key r.caller.tenantId r.payload
        r.requestSeed default now r.targets) := fun rt hrt => (readies_of_mem hrt).callable.known
    cases hedge with
    | none =>
      refine ⟨0, fun t hmem hcallable => ?_⟩
      show Sent t r.payload (bufferedRun c.env st r.key r.caller _ _ _ _ _).2.2.record
      rw [henv]
      obtain ⟨rt, idx, hrt, hok⟩ := mem_readyTargets hmem hcallable r.requestSeed default now
      have hstart : (World.start now default).health = default := rfl
      have hcalled := (bufferedWalk_refused hready
        (readyNotes st r.key r.caller.tenantId r.payload r.requestSeed default now r.targets) ht
        hstart).2 rt hrt
      exact hcalled.sent hok
    | some policy =>
      obtain ⟨steps, hlaunched⟩ := exists_launched st cfg r now policy c.pick hready
        (readyNotes st r.key r.caller.tenantId r.payload r.requestSeed default now r.targets) ht
      refine ⟨steps, fun t hmem hcallable => ?_⟩
      obtain ⟨rt, idx, hrt, hok⟩ := mem_readyTargets hmem hcallable r.requestSeed default now
      obtain ⟨d, hd, hsent⟩ :=
        (refusedAttempt_called st cfg r now ht (hready rt hrt)).2.sent hok
      refine ⟨d, List.mem_flatMap.2 ⟨rt, ?_, ?_⟩, hsent⟩
      · show rt ∈ (runHedgedTargets c.pick (refusedAttempt st cfg r now) policy (r.deadline cfg) _ now
          _ steps).launched
        rw [hlaunched]
        exact hrt
      · show Event.dispatched d ∈ (hedgedAttempt st r.caller (r.deadline cfg) rt
          (refusedStrand st cfg r now rt)).2.record.take (refusedStrand st cfg r now rt).kept
        have hkept : (refusedStrand st cfg r now rt).kept = (hedgedAttempt st r.caller
            (r.deadline cfg) rt (refusedStrand st cfg r now rt)).2.record.length := rfl
        rw [hkept, List.take_length]
        exact hd

end

end Routeplane
