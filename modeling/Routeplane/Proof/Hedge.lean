import Routeplane.Proxy.Hedge

/-!
# Hedging and availability

* `runHedgedTargets_first_keys`: the race wins iff the first key of some ready target does,
  which is when the sequential walk over the same targets, each cut to its first key, wins;
  at no time are more than `maxExtra + 1` attempts in flight, targets are launched in order,
  once each, and the race ends empty-handed only after every target was tried and failed.
* `runHedgedTargets_second_key`: a key behind the first is never tried.
-/

namespace Routeplane

open HedgedRace

variable {ρ : Type}

/-- The same target with its first key only. -/
def ReadyTarget.firstOnly (rt : ReadyTarget) : ReadyTarget where
  idx := rt.idx
  target := rt.target
  shaped := rt.shaped
  keys := [rt.firstKey]
  keys_ne := by simp
  keys_nodup := by simp
  keys_uniform := by simp

/-- The attempts of the race, off an assignment of attempts to targets and keys. -/
def firstAttempt (assigned : ℕ → String → Attempt ρ) (rt : ReadyTarget) : Attempt ρ :=
  assigned rt.idx rt.firstKey.2

/-- The sequential walk off the same assignment. -/
def assignedWalk (assigned : ℕ → String → Attempt ρ) (ready : List ReadyTarget) (notes : Notes) :
    Option (Winner ρ) :=
  (sequentialWalk (fun rt key (_ : Unit) => ((assigned rt.idx key.2).outcome, ())) (fun _ s => s)
    ready notes ()).1

section

variable {pick : List (Flight ρ) → ℕ} {attempt : ReadyTarget → Attempt ρ} {hedge : HedgePolicy}
  {deadline : Deadline} {ready : List ReadyTarget} {now : ℕ} {notes : Notes} {s : HedgedRace ρ}

/-- A state of the windowed race over the ready targets. -/
def Raced (attempt : ReadyTarget → Attempt ρ) (hedge : HedgePolicy) (ready : List ReadyTarget)
    (a : Race.State ReadyTarget) : Prop :=
  Relation.ReflTransGen (Race.Step (Wins attempt) (hedge.maxExtra + 1)) (Race.start ready) a

/-- What the race can be found in: running, returned with a winner, or returned without. -/
inductive Standing (attempt : ReadyTarget → Attempt ρ) (hedge : HedgePolicy)
    (ready : List ReadyTarget) (s : HedgedRace ρ) : Prop
  | running (hr : s.returned = none) (ok : Ok attempt ready s)
      (raced : Raced attempt hedge ready (view ready s))
  | won (rt : ReadyTarget) (hrt : rt ∈ ready) (response : ρ) (elapsedMs : ℕ) (hedged : Bool)
      (hout : (attempt rt).outcome = .won response elapsedMs)
      (hr : s.returned = some (some ⟨rt.idx, response, elapsedMs, hedged⟩))
      (hempty : s.inFlight = []) (hpre : s.launched <+: ready)
  | lost (hr : s.returned = some none) (ok : Ok attempt ready s)
      (raced : Raced attempt hedge ready (view ready s)) (hempty : s.inFlight = [])

theorem Raced.inv {a : Race.State ReadyTarget} (h : Raced attempt hedge ready a) :
    Race.Inv (Wins attempt) (hedge.maxExtra + 1) ready a :=
  Race.Inv.run (Nat.succ_pos _) h

theorem HedgedRace.Ok.launched_initial (h : Ok attempt ready s) : s.launched <+: ready := by
  rw [h.launched_eq]
  exact List.take_prefix _ _

theorem standing_enter : Standing attempt hedge ready (enter attempt ready now notes) := by
  unfold enter
  cases ready with
  | nil =>
    refine .lost rfl ⟨le_rfl, rfl, by simp⟩ ?_ rfl
    exact Relation.ReflTransGen.refl
  | cons rt rest =>
    have hok : Ok attempt (rt :: rest) { now := now, notes := notes } :=
      ⟨Nat.zero_le _, rfl, by simp⟩
    refine .running ?_ (hok.launch false) ?_
    · rw [List.isEmpty_cons]
      simp only [Bool.false_eq_true, if_false, launch_returned]
    · simp only [List.isEmpty_cons, Bool.false_eq_true, if_false, view_launch]
      exact Relation.ReflTransGen.refl

/-- **One iteration keeps the standing.** -/
theorem Standing.step (h : Standing attempt hedge ready s) :
    Standing attempt hedge ready (step pick attempt hedge deadline ready s) := by
  cases h with
  | running hr ok raced =>
    rcases step_refines pick hedge deadline ok hr with
      ⟨hr', ok', hstep⟩ | ⟨f, hf, response, elapsedMs, hout, hret, hlaunched, hempty⟩ |
        ⟨hempty, heq⟩
    · exact .running hr' ok' (raced.tail hstep)
    · -- what flies was launched, so it is one of the ready targets
      obtain ⟨launched, heq, hperm⟩ := raced.inv.started
      have hmem : f.rt ∈ ready := by
        have hin : f.rt ∈ launched :=
          hperm.subset (List.mem_append_left _ (List.mem_map_of_mem hf))
        rw [← heq]
        exact List.mem_append_left _ hin
      refine .won f.rt hmem response elapsedMs f.wasHedge hout hret hempty ?_
      rw [hlaunched]
      exact ok.launched_initial
    · rw [heq]
      exact .lost rfl ⟨ok.next_le, ok.launched_eq, ok.outcome_eq⟩ raced hempty
  | won rt hrt response elapsedMs hedged hout hr hempty hpre =>
    have hfix : HedgedRace.step pick attempt hedge deadline ready s = s := by
      unfold HedgedRace.step
      rw [if_pos (by rw [hr]; rfl)]
    rw [hfix]
    exact .won rt hrt response elapsedMs hedged hout hr hempty hpre
  | lost hr ok raced hempty =>
    have hfix : HedgedRace.step pick attempt hedge deadline ready s = s := by
      unfold HedgedRace.step
      rw [if_pos (by rw [hr]; rfl)]
    rw [hfix]
    exact .lost hr ok raced hempty

/-- **Every state of the loop has a standing.** -/
theorem runHedgedTargets_standing (n : ℕ) :
    Standing attempt hedge ready
      (runHedgedTargets pick attempt hedge deadline ready now notes n) := by
  unfold runHedgedTargets
  induction n with
  | zero => exact standing_enter
  | succ n ih =>
    rw [Function.iterate_succ_apply']
    exact ih.step

/-- An unfinished race returns within as many iterations as it has steps left, and one more. -/
theorem returns_within (n : ℕ) (h : Standing attempt hedge ready s)
    (hcost : (view ready s).cost ≤ n) :
    ((HedgedRace.step pick attempt hedge deadline ready)^[n + 1] s).returned.isSome := by
  induction n generalizing s with
  | zero =>
    -- a state with no step left is not a running one, and the others have returned
    cases h with
    | running hr ok raced =>
      have : 0 < (view ready s).cost := by simp [Race.State.cost, view]
      omega
    | won rt hrt response elapsedMs hedged hout hr hempty hpre =>
      simp [HedgedRace.step, hr]
    | lost hr ok raced hempty => simp [HedgedRace.step, hr]
  | succ n ih =>
    rw [Function.iterate_succ_apply]
    have hnext : Standing attempt hedge ready (HedgedRace.step pick attempt hedge deadline ready s) :=
      h.step
    cases hret : (HedgedRace.step pick attempt hedge deadline ready s).returned with
    | some r =>
      -- it has returned, and stays so
      have hfix : ∀ m, (HedgedRace.step pick attempt hedge deadline ready)^[m]
          (HedgedRace.step pick attempt hedge deadline ready s) =
            HedgedRace.step pick attempt hedge deadline ready s := by
        intro m
        refine Function.iterate_fixed ?_ m
        rw [HedgedRace.step, if_pos (by rw [hret]; rfl)]
      rw [hfix, hret]
      rfl
    | none =>
      refine ih hnext ?_
      cases h with
      | running hr ok raced =>
        rcases step_refines pick hedge deadline ok hr with
          ⟨-, -, hstep⟩ | ⟨f, -, r, ms, -, hret', -⟩ | ⟨-, heq⟩
        · have := hstep.cost_lt
          omega
        · rw [hret] at hret'
          simp at hret'
        · rw [heq] at hret
          simp at hret
      | won rt hrt r ms hedged hout hr hempty hpre =>
        rw [HedgedRace.step, if_pos (by rw [hr]; rfl), hr] at hret
        simp at hret
      | lost hr ok raced hempty =>
        rw [HedgedRace.step, if_pos (by rw [hr]; rfl), hr] at hret
        simp at hret

theorem runHedgedTargets_returns :
    ∃ n, (runHedgedTargets pick attempt hedge deadline ready now notes n).returned.isSome :=
  ⟨_, returns_within _ standing_enter le_rfl⟩

theorem Standing.inFlight_le (h : Standing attempt hedge ready s) :
    s.inFlight.length ≤ hedge.maxExtra + 1 := by
  cases h with
  | running hr ok raced => simpa [view] using raced.inv.running_le
  | won rt hrt r ms hedged hout hr hempty hpre => simp [hempty]
  | lost hr ok raced hempty => simp [hempty]

theorem Standing.launched_initial (h : Standing attempt hedge ready s) :
    s.launched <+: ready := by
  cases h with
  | running hr ok raced => exact ok.launched_initial
  | won rt hrt r ms hedged hout hr hempty hpre => exact hpre
  | lost hr ok raced hempty => exact ok.launched_initial

/-- A race that returned without a winner tried every target, and every one failed. -/
theorem Standing.all_failed (h : Standing attempt hedge ready s) (hn : s.returned = some none) :
    s.launched = ready ∧ s.failed.Perm ready ∧ ∀ rt ∈ ready, ¬Wins attempt rt := by
  cases h with
  | running hr ok raced => rw [hr] at hn; simp at hn
  | won rt hrt r ms hedged hout hr hempty hpre => rw [hr] at hn; simp at hn
  | lost hr ok raced hempty =>
    have hended : (view ready s).Ended := .inr (by simp [view, hempty])
    have hperm : s.failed.Perm ready := raced.inv.lost_perm hended rfl
    refine ⟨?_, hperm, ?_⟩
    · have hwait : ready.drop s.next = [] := raced.inv.busy (by simp [view, hempty])
      rw [ok.launched_eq, ← List.take_append_drop s.next ready, hwait, List.append_nil,
        List.take_take, Nat.min_self]
    · intro rt hrt
      exact raced.inv.lost_loses rt (hperm.symm.subset hrt)

/-- A race that returned a winner returned the attempt of a ready target. -/
theorem Standing.winner (h : Standing attempt hedge ready s) {w : Winner ρ}
    (hw : s.returned = some (some w)) :
    ∃ rt ∈ ready, w.idx = rt.idx ∧ (attempt rt).outcome = .won w.response w.elapsedMs := by
  cases h with
  | running hr ok raced => rw [hr] at hw; simp at hw
  | won rt hrt r ms hedged hout hr hempty hpre =>
    rw [hr] at hw
    obtain rfl := Option.some.inj (Option.some.inj hw)
    exact ⟨rt, hrt, rfl, hout⟩
  | lost hr ok raced hempty => rw [hr] at hw; simp at hw

end

/-- **Hedging costs no availability on first keys.** Whatever the attempts of the targets and
their durations, the race returns; it returns a winner iff the sequential walk over the same
targets, each cut to its first key, finds one; and along the way it keeps to its window and
to the order of the targets. -/
theorem runHedgedTargets_first_keys (pick : List (Flight ρ) → ℕ)
    (assigned : ℕ → String → Attempt ρ) (hedge : HedgePolicy) (deadline : Deadline)
    (ready : List ReadyTarget) (now : ℕ) (notes : Notes) :
    let race := runHedgedTargets pick (firstAttempt assigned) hedge deadline ready now notes
    (∃ n, (race n).returned.isSome) ∧
    ∀ n,
      (race n).inFlight.length ≤ hedge.maxExtra + 1 ∧
      (race n).launched <+: ready ∧
      (∀ w, (race n).returned = some (some w) → ∃ rt ∈ ready, w.idx = rt.idx ∧
        (assigned rt.idx rt.firstKey.2).outcome = .won w.response w.elapsedMs) ∧
      (∀ result, (race n).returned = some result →
        (result.isSome ↔ (assignedWalk assigned (ready.map ReadyTarget.firstOnly) notes).isSome)) ∧
      ((race n).returned = some none → (race n).launched = ready ∧ (race n).failed.Perm ready ∧
        ∀ rt ∈ ready, ¬(assigned rt.idx rt.firstKey.2).outcome.isWon) := by
  intro race
  refine ⟨runHedgedTargets_returns, fun n => ?_⟩
  have hst : Standing (firstAttempt assigned) hedge ready (race n) := runHedgedTargets_standing n
  have hwalk : (assignedWalk assigned (ready.map ReadyTarget.firstOnly) notes).isSome ↔
      ∃ rt ∈ ready, (assigned rt.idx rt.firstKey.2).outcome.isWon := by
    unfold assignedWalk
    rw [sequentialWalk_isSome fun rt key => (assigned rt.idx key.2).outcome]
    constructor
    · rintro ⟨cut, hcut, key, hkey, hwin⟩
      obtain ⟨rt, hrt, rfl⟩ := List.mem_map.1 hcut
      obtain rfl := List.mem_singleton.1 hkey
      exact ⟨rt, hrt, hwin⟩
    · rintro ⟨rt, hrt, hwin⟩
      exact ⟨rt.firstOnly, List.mem_map_of_mem hrt, rt.firstKey, List.mem_singleton.2 rfl, hwin⟩
  refine ⟨hst.inFlight_le, hst.launched_initial, fun w hw => hst.winner hw, ?_,
    fun hn => hst.all_failed hn⟩
  intro result hres
  rw [hwalk]
  cases result with
  | none =>
    obtain ⟨-, -, hall⟩ := hst.all_failed hres
    constructor
    · intro h
      exact absurd h (by simp)
    · rintro ⟨rt, hrt, hwin⟩
      exact absurd hwin (hall rt hrt)
  | some w =>
    obtain ⟨rt, hrt, -, hout⟩ := hst.winner hres
    refine ⟨fun _ => ⟨rt, hrt, ?_⟩, fun _ => rfl⟩
    change (firstAttempt assigned rt).outcome.isWon
    rw [hout]
    rfl

/-- One target with a pool of two keys. -/
def pooledTarget : ReadyTarget where
  idx := 0
  target := { provider := "openai" }
  shaped := default
  keys := [(some 0, "spent"), (some 1, "good")]
  keys_ne := by simp
  keys_nodup := by decide
  keys_uniform := by decide

/-- The first key of the pool is throttled, the second answers. -/
def secondKeyAnswers (_ : ℕ) (key : String) : Attempt Unit where
  outcome := if key = "good" then .won () 10 else .exhausted "throttled" false none
  takes := 10

/-- **A key behind the first is never tried**: the sequential walk wins with it, the race
returns without a winner. -/
theorem runHedgedTargets_second_key :
    (assignedWalk secondKeyAnswers [pooledTarget] {}).isSome = true ∧
    (runHedgedTargets (fun _ => 0) (firstAttempt secondKeyAnswers) ⟨100, 1⟩ ⟨60000, 30000, false⟩
      [pooledTarget] 0 {} 2).returned.map Option.isSome = some false := by
  decide

end Routeplane
