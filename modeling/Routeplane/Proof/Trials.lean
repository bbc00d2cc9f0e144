import Routeplane.Proof.InFlight
import Routeplane.Router.InFlight

/-!
# Trials of a half-open provider

A probe that finds the breaker half-open reserves its place in the gauge under the cap. Calls that are
started in any other way are not counted: those to the other endpoints, and those of a probe that
found the breaker closed and takes its place after it has turned half-open. Without them the cap
holds.

* `Inv.moveGauge`: a guard taken while half-open is a reservation, and the gauge is within the cap.
* `Inv.apply`: the step lemma. `trials_capped`: the cap holds in every state of a run.
* `embeddings_flood`: four calls to embeddings are under way at a half-open provider whose cap is
  three.
-/

namespace Routeplane.InFlight

variable {ι : Type} [Fintype ι] [DecidableEq ι] {s : State ι} {i : ι}

/-! ## One caller of the gauges -/

@[simp] theorem successThreshold_apply (e : Event ι) :
    (apply s e).successThreshold = s.successThreshold := by
  cases e with
  | enterInFlight i owner provider | tryEnterProbe i owner provider =>
    simp only [apply, State.withHealth]
    split
    · split <;> rfl
    · rfl
  | register i owner name =>
    simp only [apply]
    split
    · split <;> rfl
    · rfl
  | answer i state =>
    simp only [apply]
    split <;> rfl
  | miss i =>
    simp only [apply]
    split <;> rfl
  | step i =>
    simp only [apply, State.step]
    split <;> first | rfl | (split <;> rfl)

/-- Where an event may take its caller: a guard is taken by a reservation or by an unconditional
add, and given back. -/
inductive Moves (e : Event ι) : Phase → Phase → Prop
  | stays (phase : Phase) : Moves e phase phase
  | reserves (c cur : ℕ) : Moves e (.reserving c cur) (.holding c)
  | adds (c : ℕ) (he : e = .step e.caller) : Moves e (.adding c) (.holding c)
  | drops (c : ℕ) : Moves e (.holding c) .idle
  | goes {phase phase' : Phase} (h : phase.guard = none) (h' : phase'.guard = none) :
    Moves e phase phase'

/-- One step of a caller, by its phase. -/
theorem caller_step (s : State ι) (i : ι) : ∃ phase, (s.step i).caller =
    Function.update s.caller i phase ∧ Moves (.step i) (s.caller i) phase := by
  have hstays : ∃ phase, s.caller = Function.update s.caller i phase ∧
      Moves (.step i) (s.caller i) phase :=
    ⟨s.caller i, (Function.update_eq_self ..).symm, .stays _⟩
  unfold State.step
  cases hphase : s.caller i with
  | idle | asking cell =>
    rw [hphase] at hstays
    exact hstays
  | cloning cell probe =>
    rw [hphase] at hstays
    dsimp only
    split
    · exact ⟨_, rfl, .goes rfl (by cases probe <;> rfl)⟩
    · exact hstays
  | loading cell =>
    dsimp only
    split
    · exact ⟨_, rfl, .goes rfl rfl⟩
    · exact ⟨_, rfl, .goes rfl rfl⟩
  | reserving cell cur =>
    dsimp only
    split
    · exact ⟨_, rfl, .reserves cell cur⟩
    · exact ⟨_, rfl, .goes rfl rfl⟩
  | adding cell => exact ⟨_, rfl, .adds cell rfl⟩
  | holding cell => exact ⟨_, rfl, .drops cell⟩
  | registering owner name => exact ⟨_, rfl, .goes rfl rfl⟩
  | swapping owner name snapshot version =>
    dsimp only
    split
    · exact ⟨_, rfl, .goes rfl rfl⟩
    · exact ⟨_, rfl, .goes rfl rfl⟩

/-- **What an event does to the callers**: it moves its own. -/
theorem caller_apply (s : State ι) (e : Event ι) : ∃ phase, (apply s e).caller =
    Function.update s.caller e.caller phase ∧ Moves e (s.caller e.caller) phase := by
  have hstays : ∃ phase, s.caller = Function.update s.caller e.caller phase ∧
      Moves e (s.caller e.caller) phase :=
    ⟨s.caller e.caller, (Function.update_eq_self ..).symm, .stays _⟩
  cases e with
  | step i => exact caller_step s i
  | enterInFlight i owner provider | tryEnterProbe i owner provider =>
    simp only [apply, Event.caller, State.withHealth] at hstays ⊢
    split
    · rename_i hidle
      split
      · exact ⟨_, rfl, hidle ▸ .goes rfl rfl⟩
      · exact hstays
    · exact hstays
  | register i owner name =>
    simp only [apply, Event.caller] at hstays ⊢
    split
    · rename_i hidle
      split
      · exact hstays
      · exact ⟨_, rfl, hidle ▸ .goes rfl rfl⟩
    · exact hstays
  | answer i state =>
    simp only [apply, Event.caller] at hstays ⊢
    split
    · rename_i hasking
      exact ⟨_, rfl, hasking ▸ .goes rfl rfl⟩
    · rename_i hasking
      exact ⟨_, rfl, hasking ▸ .goes rfl rfl⟩
    · rename_i hasking
      exact ⟨_, rfl, hasking ▸ .goes rfl rfl⟩
    · exact hstays
  | miss i =>
    simp only [apply, Event.caller] at hstays ⊢
    split
    · rename_i hreserving
      exact ⟨_, rfl, hreserving ▸ .goes rfl rfl⟩
    · exact hstays

theorem caller_apply_of_ne {e : Event ι} {j : ι} (hj : j ≠ e.caller) :
    (apply s e).caller j = s.caller j := by
  obtain ⟨phase, hcaller, -⟩ := caller_apply s e
  rw [hcaller, Function.update_of_ne hj]

omit [Fintype ι] [DecidableEq ι] in
theorem Phase.eq_holding {phase : Phase} {c : ℕ} (h : phase.guard = some c) : phase = .holding c := by
  cases phase with
  | holding d => exact congrArg Phase.holding (Option.some_inj.1 h)
  | _ => cases h

/-- A guard is taken by a reservation or by an unconditional add. -/
theorem holding_apply {e : Event ι} {c : ℕ} (hold : (s.caller e.caller).guard = none)
    (hnew : (apply s e).caller e.caller = .holding c) :
    (∃ cur, s.caller e.caller = .reserving c cur) ∨
      (e = .step e.caller ∧ s.caller e.caller = .adding c) := by
  obtain ⟨phase, hcaller, hmoves⟩ := caller_apply s e
  rw [hcaller, Function.update_self] at hnew
  subst hnew
  generalize hphase : s.caller e.caller = old at hold hmoves
  cases hmoves with
  | stays => cases hold
  | reserves c cur => exact .inl ⟨cur, rfl⟩
  | adds c he => exact .inr ⟨he, rfl⟩
  | goes _ hguard => cases hguard

/-- A guard is kept or dropped. -/
theorem apply_of_holding {e : Event ι} {c : ℕ} (hold : s.caller e.caller = .holding c) :
    (apply s e).caller e.caller = .holding c ∨ (apply s e).caller e.caller = .idle := by
  obtain ⟨phase, hcaller, hmoves⟩ := caller_apply s e
  rw [hcaller, Function.update_self]
  rw [hold] at hmoves
  cases hmoves with
  | stays => exact .inl rfl
  | drops => exact .inr rfl
  | goes hguard _ => cases hguard

end Routeplane.InFlight

namespace Routeplane.Atomics

variable {ι : Type} [DecidableEq ι]

/-- The settings of a breaker stay as they are. -/
@[simp] theorem successThreshold_apply (s : State ι) (e : Event ι) :
    (apply s e).words.successThreshold = s.words.successThreshold := by
  cases e with
  | enter i op =>
    simp only [apply]
    split
    · unfold State.enter
      cases op <;> dsimp only <;> split <;> rfl
    · rfl
  | step i =>
    simp only [apply, State.step]
    split <;> first | rfl | (split <;> rfl)
  | tick ms => rfl

end Routeplane.Atomics

namespace Routeplane.Trials

variable {ι : Type} {s : State ι} {i : ι}

/-! ## The cap -/

/-- A guard counts for one trial at most. -/
theorem guardedTrials_le (s : State ι) (c : ℕ) (j : ι) :
    s.guardedTrials c j ≤ (s.flight.caller j).guards c := by
  unfold State.guardedTrials
  split
  · exact Nat.le_refl _
  · exact Nat.zero_le _

variable [Fintype ι]

/-- While a breaker is half-open its trials under way are at most its cap. -/
def Capped (s : State ι) : Prop :=
  ∀ c, (s.breakers c).words.raw = .halfOpen → s.trials c ≤ (s.breakers c).words.successThreshold

/-- No call is started while the breaker is half-open but by a reservation. -/
def Reserved (s : State ι) : Event ι → Prop
  | .dispatch i =>
    match s.visit i with
    | .available _ _ c false => (s.breakers c).words.raw ≠ .halfOpen
    | _ => True
  | .gauge i =>
    match s.flight.caller i with
    | .adding c => (s.breakers c).words.raw ≠ .halfOpen
    | _ => True
  | _ => True

instance (s : State ι) : DecidablePred (Reserved s)
  | .dispatch i => by
    unfold Reserved
    dsimp only
    split <;> infer_instance
  | .gauge i => by
    unfold Reserved
    dsimp only
    split <;> infer_instance
  | .check .. | .enter .. | .breaker .. | .tick _ | .probe _ | .miss _ | .register .. | .finish _ =>
    isTrue trivial

/-- Every trial has a guard, and they are at most the cap. -/
structure Inv (s : State ι) : Prop where
  flight : InFlight.Inv s.flight
  threshold : ∀ c, (s.breakers c).words.successThreshold = s.flight.successThreshold c
  unguarded : ∀ i c, (s.visit i).trials c = 0
  capped : ∀ c, ∑ i, s.guardedTrials c i ≤ s.flight.successThreshold c

theorem Inv.holds (h : Inv s) : Capped s := by
  intro c _
  have hunguarded : ∑ i, (s.visit i).trials c = 0 := Finset.sum_eq_zero fun i _ => h.unguarded i c
  unfold State.trials
  rw [hunguarded, Nat.add_zero, h.threshold]
  exact h.capped c

theorem inv_start (builtins : List String) (words : ℕ → CircuitBreaker) (clock : ℕ) :
    Inv (start builtins words clock : State ι) where
  flight := InFlight.inv_start builtins fun cell => (words cell).successThreshold
  threshold _ := rfl
  unguarded _ _ := rfl
  capped c := by
    have hzero : ∑ i : ι, (start builtins words clock : State ι).guardedTrials c i = 0 :=
      Finset.sum_eq_zero fun _ _ => rfl
    rw [hzero]
    exact Nat.zero_le _

variable [DecidableEq ι]

theorem Inv.goto (h : Inv s) {visit : Visit} (hvisit : ∀ c, visit.trials c = 0) :
    Inv (s.goto i visit) where
  flight := h.flight
  threshold := h.threshold
  unguarded j c := by
    simp only [State.goto, Function.update_apply]
    split
    · exact hvisit c
    · exact h.unguarded j c
  capped := h.capped

section Gauge

variable {e : InFlight.Event ι}

/-- The others count for what they counted for. -/
theorem guardedTrials_moveGauge_of_ne {j : ι} (hj : j ≠ e.caller) (c : ℕ) :
    (s.moveGauge e.caller e).guardedTrials c j = s.guardedTrials c j := by
  have hcaller := InFlight.caller_apply_of_ne (s := s.flight) hj
  have htaken : (s.moveGauge e.caller e).taken j = s.taken j := by
    unfold State.moveGauge
    dsimp only
    split
    · rfl
    · exact Function.update_of_ne hj ..
    · rfl
  unfold State.guardedTrials
  rw [htaken]
  show (if _ then ((InFlight.apply s.flight e).caller j).guards c else 0) = _
  rw [hcaller]

theorem Inv.sum_moveGauge_le (h : Inv s) {c : ℕ}
    (hown : (s.moveGauge e.caller e).guardedTrials c e.caller ≤ s.guardedTrials c e.caller) :
    ∑ j, (s.moveGauge e.caller e).guardedTrials c j ≤ s.flight.successThreshold c := by
  refine (Finset.sum_le_sum fun j _ => ?_).trans (h.capped c)
  by_cases hj : j = e.caller
  · rw [hj]
    exact hown
  · exact (guardedTrials_moveGauge_of_ne hj c).le

/-- A guard that is there is kept or dropped, and with it the state it was taken in. -/
theorem guardedTrials_of_holding {d : ℕ} (hholding : s.flight.caller e.caller = .holding d)
    (c : ℕ) : (s.moveGauge e.caller e).guardedTrials c e.caller ≤ s.guardedTrials c e.caller := by
  have htaken : (s.moveGauge e.caller e).taken = s.taken := by
    unfold State.moveGauge
    rw [hholding]
  unfold State.guardedTrials
  rw [htaken]
  show (if _ then ((InFlight.apply s.flight e).caller e.caller).guards c else 0) ≤ _
  rcases InFlight.apply_of_holding hholding with hkept | hdropped
  · rw [hkept, hholding]
  · rw [hdropped]
    exact (ite_self _).le.trans (Nat.zero_le _)

theorem guardedTrials_of_no_guard
    (hguard : ((InFlight.apply s.flight e).caller e.caller).guard = none) (c : ℕ) :
    (s.moveGauge e.caller e).guardedTrials c e.caller = 0 := by
  have hnone : ((InFlight.apply s.flight e).caller e.caller).guards c = 0 :=
    InFlight.Phase.guards_of_guard hguard c
  exact Nat.eq_zero_of_le_zero ((guardedTrials_le _ c _).trans hnone.le)

/-- A guard that is taken now counts when the breaker is half-open now. -/
theorem guardedTrials_of_taken {d : ℕ} (hold : (s.flight.caller e.caller).guard = none)
    (hnew : (InFlight.apply s.flight e).caller e.caller = .holding d) (c : ℕ) :
    (s.moveGauge e.caller e).guardedTrials c e.caller =
      if (s.breakers d).words.raw = .halfOpen then if d = c then 1 else 0 else 0 := by
  have htaken : (s.moveGauge e.caller e).taken e.caller = (s.breakers d).words.raw := by
    unfold State.moveGauge
    dsimp only
    rw [hnew]
    cases hphase : s.flight.caller e.caller with
    | holding c =>
      rw [hphase] at hold
      cases hold
    | _ => exact Function.update_self ..
  unfold State.guardedTrials
  rw [htaken]
  show (if _ then ((InFlight.apply s.flight e).caller e.caller).guards c else 0) = _
  rw [hnew]
  rfl

/-- **A step of the gauges**: a guard taken while half-open is a reservation, and the gauge, which
counts every guard, is within the cap. -/
theorem Inv.moveGauge (h : Inv s) (hi : e.caller = i)
    (hreserved : ∀ c, e = .step i → s.flight.caller i = .adding c →
      (s.breakers c).words.raw ≠ .halfOpen) : Inv (s.moveGauge i e) := by
  subst hi
  have hflight := h.flight.apply e
  refine ⟨hflight, ?_, h.unguarded, ?_⟩
  · intro c
    exact (h.threshold c).trans (congrFun (InFlight.successThreshold_apply e).symm c)
  intro c
  show ∑ j, (s.moveGauge e.caller e).guardedTrials c j ≤
    (InFlight.apply s.flight e).successThreshold c
  rw [InFlight.successThreshold_apply]
  cases hold : (s.flight.caller e.caller).guard with
  | some d =>
    exact h.sum_moveGauge_le (guardedTrials_of_holding (InFlight.Phase.eq_holding hold) c)
  | none =>
    cases hguard : ((InFlight.apply s.flight e).caller e.caller).guard with
    | none =>
      refine h.sum_moveGauge_le ?_
      rw [guardedTrials_of_no_guard hguard]
      exact Nat.zero_le _
    | some d =>
      have hnew := InFlight.Phase.eq_holding hguard
      by_cases htrial : (s.breakers d).words.raw = .halfOpen ∧ d = c
      · obtain ⟨hraw, rfl⟩ := htrial
        -- an unconditional add is excluded, so the gauge is within the cap after this reservation
        have hcount : (InFlight.apply s.flight e).count d ≤ s.flight.successThreshold d := by
          rcases InFlight.holding_apply hold hnew with ⟨cur, hcur⟩ | ⟨hstep, hadding⟩
          · exact (h.flight.capped e hcur hguard).2
          · exact absurd hraw (hreserved d hstep hadding)
        have hguards : ∑ j, (s.moveGauge e.caller e).guardedTrials d j ≤
            (InFlight.apply s.flight e).guards d :=
          Finset.sum_le_sum fun j _ => guardedTrials_le (s.moveGauge e.caller e) d j
        rw [← hflight.count_eq d] at hguards
        exact hguards.trans hcount
      · refine h.sum_moveGauge_le ?_
        have hzero : (if (s.breakers d).words.raw = .halfOpen then if d = c then 1 else 0 else 0) =
            0 := by
          split
          · rename_i hraw
            exact if_neg fun hd => htrial ⟨hraw, hd⟩
          · rfl
        rw [guardedTrials_of_taken hold hnew, hzero]
        exact Nat.zero_le _

end Gauge

/-! ## Steps -/

theorem Inv.moveGauge_of_ne (h : Inv s) {e : InFlight.Event ι} (hi : e.caller = i)
    (hstep : e ≠ .step i) : Inv (s.moveGauge i e) :=
  h.moveGauge hi fun _ heq _ => absurd heq hstep

theorem Inv.tellProbe (h : Inv s) (c : ℕ) (state : CircuitState) : Inv (s.tellProbe i c state) := by
  unfold State.tellProbe
  split
  · split
    · exact h.moveGauge_of_ne rfl (by simp)
    · exact h
  · exact h

theorem Inv.tellCheck (h : Inv s) (c : ℕ) (state : CircuitState) : Inv (s.tellCheck i c state) := by
  unfold State.tellCheck
  split
  · split
    · split
      · exact h.goto fun _ => rfl
      · exact h.goto fun _ => rfl
    · exact h
  · exact h

theorem Inv.moveBreaker (h : Inv s) (c : ℕ) (e : Atomics.Event ι) :
    Inv (s.moveBreaker i c e) := by
  have hmoved : Inv { s with
      breakers := Function.update s.breakers c (Atomics.apply (s.breakers c) e) } := by
    refine ⟨h.flight, ?_, h.unguarded, h.capped⟩
    intro d
    dsimp only
    by_cases hd : d = c
    · rw [hd, Function.update_self, Atomics.successThreshold_apply]
      exact h.threshold c
    · rw [Function.update_of_ne hd]
      exact h.threshold d
  unfold State.moveBreaker
  dsimp only
  split
  · exact (hmoved.tellProbe c _).tellCheck c _
  · exact hmoved

/-- **The step lemma.** -/
theorem Inv.apply (h : Inv s) (e : Event ι) (he : Reserved s e) : Inv (Trials.apply s e) := by
  cases e with
  | check i owner provider isChat =>
    simp only [Trials.apply]
    split
    · exact h.goto fun _ => rfl
    · exact h
  | enter i c op => exact h.moveBreaker c _
  | breaker i c => exact h.moveBreaker c _
  | tick ms =>
    refine ⟨h.flight, ?_, h.unguarded, h.capped⟩
    intro c
    exact (Atomics.successThreshold_apply _ _).trans (h.threshold c)
  | probe i =>
    simp only [Trials.apply]
    split
    · rename_i owner provider c hvisit
      have hprobe : Inv (s.moveGauge i (.tryEnterProbe i owner provider)) :=
        h.moveGauge_of_ne rfl (by simp)
      exact hprobe.goto fun _ => rfl
    · exact h
  | gauge i =>
    refine h.moveGauge rfl ?_
    intro c _ hadding
    unfold Reserved at he
    dsimp only at he
    rw [hadding] at he
    exact he
  | miss i => exact h.moveGauge_of_ne rfl (by simp)
  | register i owner name => exact h.moveGauge_of_ne rfl (by simp)
  | dispatch i =>
    unfold Reserved at he
    simp only [Trials.apply]
    dsimp only at he
    split
    · rename_i owner provider c hvisit
      rw [hvisit] at he
      refine h.goto fun d => ?_
      -- the call is started in another state
      cases hraw : (s.breakers c).words.raw with
      | halfOpen => exact absurd hraw he
      | closed | opened => rfl
    · exact h
  | finish i =>
    simp only [Trials.apply]
    split
    · exact h.goto fun _ => rfl
    · exact h

/-- **The cap holds in every state of a run** in which no call is started at a half-open provider but
by a reservation. -/
theorem trials_capped (builtins : List String) (words : ℕ → CircuitBreaker) (clock : ℕ)
    (events : List (Event ι))
    (h : Run.Steps Trials.apply Reserved (start builtins words clock) events) :
    Run.States Trials.apply Capped (start builtins words clock) events := by
  have hstates := Run.Steps.states (I := Inv) (fun s e hinv he => hinv.apply e he)
    (inv_start builtins words clock) h
  exact hstates.mono fun s hinv => hinv.holds

/-! ### Runs of one provider -/

/-- A request asks for the provider, and its breaker needs no healing. -/
def asks {n : ℕ} (i : Fin n) (isChat : Bool) : List (Event (Fin n)) :=
  [.check i globalOwner "openai" isChat, .enter i 0 .state]

/-- A call to embeddings that fails. -/
def fails {n : ℕ} (i : Fin n) : List (Event (Fin n)) :=
  asks i false ++ [.dispatch i, .finish i, .enter i 0 .recordFailure, .breaker i 0]

/-- Five failures open the breaker; after the cooldown the next request turns it half-open. -/
def recovers {n : ℕ} (i : Fin n) (isChat : Bool) : List (Event (Fin n)) :=
  (List.replicate 5 (fails i)).flatten ++ List.replicate 4 (.breaker i 0) ++ [.tick 30000] ++
    asks i isChat ++ List.replicate 4 (.breaker i 0)

/-- Two chat requests probe the recovering provider. -/
def probes : List (Event (Fin 2)) :=
  recovers 0 true ++ [.probe 0, .gauge 0, .enter 0 0 .state, .gauge 0, .gauge 0] ++
    asks 1 true ++ [.probe 1, .gauge 1, .enter 1 0 .state, .gauge 1, .gauge 1]

theorem trials_capped_probes :
    Run.States Trials.apply Capped (start ["openai"] (fun _ => .new) 0) probes ∧
      (Run.run Trials.apply (start ["openai"] (fun _ => .new) 0) probes).trials 0 = 2 :=
  ⟨trials_capped ["openai"] (fun _ => .new) 0 probes (by decide), by decide⟩

/-- Four requests to embeddings, each let through by its check of the recovering provider. -/
def flood : List (Event (Fin 4)) :=
  recovers 0 false ++ [.dispatch 0] ++ asks 1 false ++ [.dispatch 1] ++ asks 2 false ++
    [.dispatch 2] ++ asks 3 false ++ [.dispatch 3]

/-- **Four calls to embeddings are under way at a half-open provider whose cap is three.** -/
theorem embeddings_flood :
    ((Run.run Trials.apply (start ["openai"] (fun _ => .new) 0) flood).breakers 0).words.raw =
        .halfOpen ∧
      ((Run.run Trials.apply (start ["openai"] (fun _ => .new) 0) flood).breakers
        0).words.successThreshold = 3 ∧
      (Run.run Trials.apply (start ["openai"] (fun _ => .new) 0) flood).trials 0 = 4 :=
  ⟨by decide +kernel, by decide +kernel, by decide +kernel⟩

end Routeplane.Trials
