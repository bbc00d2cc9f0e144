import Routeplane.Lib.Race
import Routeplane.Proxy.Walk
import Mathlib.Data.List.MinMax

/-!
# The hedged walk

With a hedge policy the ready targets are raced: the next target is started when an
attempt fails, and also when the ones in flight stay silent for `hedge.delay` while the
window of `hedge.maxExtra + 1` is not full. Only the first key of each target is used.
Attempts are given as an outcome and a duration; which of several attempts that end at the
same instant is seen first is left to `pick`.

* `runHedgedTargets`: the states of the race, iteration by iteration.
* `step_refines`: an iteration is a step of the windowed race.
-/

namespace Routeplane

/-- What an attempt comes to, and how long it takes. -/
structure Attempt (ρ : Type) where
  outcome : TargetOutcome ρ
  takes : ℕ

/-- A launched attempt. -/
structure Flight (ρ : Type) where
  rt : ReadyTarget
  wasHedge : Bool
  doneAt : ℕ
  outcome : TargetOutcome ρ

structure HedgedRace (ρ : Type) where
  now : ℕ
  /-- The position of the next target to launch. -/
  next : ℕ := 0
  inFlight : List (Flight ρ) := []
  notes : Notes
  /-- The targets launched so far, and those seen to fail. -/
  launched : List ReadyTarget := []
  failed : List ReadyTarget := []
  returned : Option (Option (Winner ρ)) := none

namespace HedgedRace

variable {ρ : Type} (pick : List (Flight ρ) → ℕ) (attempt : ReadyTarget → Attempt ρ)
  (hedge : HedgePolicy) (deadline : Deadline) (ready : List ReadyTarget)

def launch (wasHedge : Bool) (s : HedgedRace ρ) : HedgedRace ρ :=
  match ready[s.next]? with
  | none => s
  | some rt =>
    let a := attempt rt
    { s with
      next := s.next + 1
      inFlight := s.inFlight ++ [⟨rt, wasHedge, s.now + a.takes, a.outcome⟩]
      launched := s.launched ++ [rt] }

/-- May another attempt be started before anything resolves? -/
def canHedge (s : HedgedRace ρ) : Bool :=
  !s.inFlight.isEmpty && decide (s.inFlight.length < hedge.maxExtra + 1) &&
    decide (s.next < ready.length) && (deadline.nextAttemptTimeout s.now).isSome

/-- The attempts that end first, with their places. -/
def due (flights : List (Flight ρ)) : List (Flight ρ × ℕ) :=
  flights.zipIdx.filter fun f => flights.all fun g => decide (f.1.doneAt ≤ g.doneAt)

/-- The attempt whose end is seen next. -/
def nextDone (flights : List (Flight ρ)) : Option (Flight ρ × ℕ) :=
  (due flights)[pick flights % (due flights).length]?

/-- The hedge delay passes in silence. -/
def wait (delay : ℕ) (s : HedgedRace ρ) : HedgedRace ρ := { s with now := s.now + delay }

/-- The attempt at `i` has failed. -/
def settle (f : Flight ρ) (i : ℕ) (error : String) (status : Option ℕ) (s : HedgedRace ρ) :
    HedgedRace ρ :=
  { s with
    now := max s.now f.doneAt
    inFlight := s.inFlight.eraseIdx i
    notes := s.notes.exhausted error status
    failed := s.failed ++ [f.rt] }

/-- An attempt has won; the others are dropped with the race. -/
def finish (f : Flight ρ) (response : ρ) (elapsedMs : ℕ) (s : HedgedRace ρ) : HedgedRace ρ :=
  { s with
    now := max s.now f.doneAt
    inFlight := []
    returned := some (some ⟨f.rt.idx, response, elapsedMs, f.wasHedge⟩) }

/-- The attempt at `i` has ended. -/
def resolve (f : Flight ρ) (i : ℕ) (s : HedgedRace ρ) : HedgedRace ρ :=
  match f.outcome with
  | .won response elapsedMs => s.finish f response elapsedMs
  | .exhausted e _ status => launch attempt ready false (s.settle f i e status)

/-- One iteration of the loop: an end that is not later than the timer comes first. -/
def step (s : HedgedRace ρ) : HedgedRace ρ :=
  if s.returned.isSome then s
  else
    match nextDone pick s.inFlight with
    | none => { s with returned := some none }
    | some (f, i) =>
      if s.canHedge hedge deadline ready && decide (s.now + hedge.delay < f.doneAt) then
        launch attempt ready true (s.wait hedge.delay)
      else resolve attempt ready f i s

/-- The loop is entered with the first target launched. -/
def enter (now : ℕ) (notes : Notes) : HedgedRace ρ :=
  if ready.isEmpty then { now := now, notes := notes, returned := some none }
  else launch attempt ready false { now := now, notes := notes }

end HedgedRace

/-- The race after `n` iterations. -/
def runHedgedTargets {ρ : Type} (pick : List (Flight ρ) → ℕ) (attempt : ReadyTarget → Attempt ρ)
    (hedge : HedgePolicy) (deadline : Deadline) (ready : List ReadyTarget) (now : ℕ)
    (notes : Notes) (n : ℕ) : HedgedRace ρ :=
  (HedgedRace.step pick attempt hedge deadline ready)^[n] (.enter attempt ready now notes)

/-! ## The race it is -/

namespace HedgedRace

variable {ρ : Type} {pick : List (Flight ρ) → ℕ} {attempt : ReadyTarget → Attempt ρ}
  {hedge : HedgePolicy} {deadline : Deadline} {ready : List ReadyTarget} {s : HedgedRace ρ}
  {f : Flight ρ} {i : ℕ}

theorem exists_earliest {flights : List (Flight ρ)} (h : flights ≠ []) :
    ∃ f ∈ flights, ∀ g ∈ flights, f.doneAt ≤ g.doneAt := by
  cases hm : flights.argmin Flight.doneAt with
  | none => exact absurd (List.argmin_eq_none.1 hm) h
  | some f =>
    have hmem : f ∈ flights.argmin Flight.doneAt := hm
    exact ⟨f, List.argmin_mem hmem, fun g hg => List.le_of_mem_argmin hg hmem⟩

theorem due_ne_nil {flights : List (Flight ρ)} (h : flights ≠ []) : due flights ≠ [] := by
  obtain ⟨f, hf, hmin⟩ := exists_earliest h
  obtain ⟨i, hi⟩ := List.mem_iff_getElem?.1 hf
  have hmem : (f, i) ∈ due flights := by
    rw [due, List.mem_filter]
    exact ⟨List.mem_zipIdx_iff_getElem?.2 hi, by simpa using hmin⟩
  exact List.ne_nil_of_mem hmem

/-- While attempts are in flight one of them is the next to end. -/
theorem nextDone_isSome {flights : List (Flight ρ)} (h : flights ≠ []) :
    (nextDone pick flights).isSome := by
  have hpos := List.length_pos_iff.2 (due_ne_nil h)
  have hlt := Nat.mod_lt (pick flights) hpos
  unfold nextDone
  rw [List.getElem?_eq_getElem hlt]
  rfl

theorem nextDone_get {flights : List (Flight ρ)} (h : nextDone pick flights = some (f, i)) :
    flights[i]? = some f := by
  have hmem := List.mem_of_getElem? h
  exact List.mem_zipIdx_iff_getElem?.1 (List.mem_of_mem_filter hmem)

theorem nextDone_none {flights : List (Flight ρ)} (h : nextDone pick flights = none) :
    flights = [] := by
  by_contra hne
  have hsome : (nextDone pick flights).isSome := nextDone_isSome hne
  rw [h] at hsome
  exact absurd hsome (by simp)

/-- The state of the windowed race. -/
def view (ready : List ReadyTarget) (s : HedgedRace ρ) : Race.State ReadyTarget where
  waiting := ready.drop s.next
  running := s.inFlight.map Flight.rt
  lost := s.failed

/-- A first-key attempt wins. -/
def Wins (attempt : ReadyTarget → Attempt ρ) (rt : ReadyTarget) : Prop :=
  (attempt rt).outcome.isWon

/-- The record agrees with the state: what was launched is what is no longer waiting, and
what flies has its target's outcome. -/
structure Ok (attempt : ReadyTarget → Attempt ρ) (ready : List ReadyTarget) (s : HedgedRace ρ) :
    Prop where
  next_le : s.next ≤ ready.length
  launched_eq : s.launched = ready.take s.next
  outcome_eq : ∀ f ∈ s.inFlight, f.outcome = (attempt f.rt).outcome

theorem view_launch (wasHedge : Bool) :
    view ready (launch attempt ready wasHedge s) = (view ready s).launch := by
  unfold launch Race.State.launch view
  cases h : ready[s.next]? with
  | none =>
    have hle : ready.length ≤ s.next := List.getElem?_eq_none_iff.1 h
    simp [List.drop_eq_nil_of_le hle]
  | some rt =>
    obtain ⟨hlt, rfl⟩ := List.getElem?_eq_some_iff.1 h
    rw [List.drop_eq_getElem_cons hlt]
    simp

theorem Ok.launch (hs : Ok attempt ready s) (wasHedge : Bool) :
    Ok attempt ready (launch attempt ready wasHedge s) := by
  unfold HedgedRace.launch
  cases h : ready[s.next]? with
  | none => exact hs
  | some rt =>
    obtain ⟨hlt, rfl⟩ := List.getElem?_eq_some_iff.1 h
    refine ⟨hlt, ?_, ?_⟩
    · rw [hs.launched_eq, List.take_succ_eq_append_getElem hlt]
    · intro f hf
      rcases List.mem_append.1 hf with hf | hf
      · exact hs.outcome_eq f hf
      · obtain rfl := List.mem_singleton.1 hf
        rfl

@[simp] theorem launch_returned (wasHedge : Bool) :
    (launch attempt ready wasHedge s).returned = s.returned := by
  unfold launch; split <;> rfl

@[simp] theorem launch_failed (wasHedge : Bool) :
    (launch attempt ready wasHedge s).failed = s.failed := by
  unfold launch; split <;> rfl

variable (pick hedge deadline) in
/-- What an iteration of an unfinished race comes to: a step of the windowed race, the
return of a winner, or the return without one when nothing is in flight. -/
theorem step_refines (hs : Ok attempt ready s) (hr : s.returned = none) :
    ((step pick attempt hedge deadline ready s).returned = none ∧
      Ok attempt ready (step pick attempt hedge deadline ready s) ∧
      Race.Step (Wins attempt) (hedge.maxExtra + 1) (view ready s)
        (view ready (step pick attempt hedge deadline ready s))) ∨
    (∃ f ∈ s.inFlight, ∃ response elapsedMs,
      (attempt f.rt).outcome = .won response elapsedMs ∧
      (step pick attempt hedge deadline ready s).returned =
        some (some ⟨f.rt.idx, response, elapsedMs, f.wasHedge⟩) ∧
      (step pick attempt hedge deadline ready s).launched = s.launched ∧
      (step pick attempt hedge deadline ready s).inFlight = []) ∨
    (s.inFlight = [] ∧
      step pick attempt hedge deadline ready s = { s with returned := some none }) := by
  unfold step
  rw [hr]
  simp only [Option.isSome_none, Bool.false_eq_true, if_false]
  cases hd : nextDone pick s.inFlight with
  | none => exact .inr (.inr ⟨nextDone_none hd, rfl⟩)
  | some fi =>
    obtain ⟨f, i⟩ := fi
    have hget := nextDone_get hd
    have hmem := List.mem_of_getElem? hget
    simp only
    split
    · -- the timer fires first
      rename_i hh
      simp only [canHedge, Bool.and_eq_true, decide_eq_true_eq, Bool.not_eq_true',
        List.isEmpty_eq_false_iff] at hh
      obtain ⟨⟨⟨⟨hne, hlt⟩, hnext⟩, -⟩, -⟩ := hh
      have hok : Ok attempt ready (s.wait hedge.delay) :=
        ⟨hs.next_le, hs.launched_eq, hs.outcome_eq⟩
      refine .inl ⟨by rw [launch_returned]; exact hr, hok.launch true, ?_⟩
      rw [view_launch]
      refine Race.Step.hedge (s := view ready s) rfl ?_ ?_ ?_
      · simpa [view] using hne
      · simpa [view] using hlt
      · simpa [view] using hnext
    · -- a strand is done: it wins, or the next target is launched in its place
      unfold resolve
      have hout := hs.outcome_eq f hmem
      cases ho : f.outcome with
      | won response elapsedMs =>
        exact .inr (.inl ⟨f, hmem, response, elapsedMs, by rw [← hout, ho], rfl, rfl, rfl⟩)
      | exhausted e hf status =>
        have hok : Ok attempt ready (s.settle f i e status) :=
          ⟨hs.next_le, hs.launched_eq, fun g hg => hs.outcome_eq g (List.mem_of_mem_eraseIdx hg)⟩
        refine .inl ⟨by simp only [launch_returned]; exact hr, hok.launch false, ?_⟩
        simp only [view_launch]
        have hlose : ¬Wins attempt f.rt := by
          simp [Wins, ← hout, ho, TargetOutcome.isWon]
        have hrun : (view ready s).running[i]? = some f.rt := by
          simp [view, List.getElem?_map, hget]
        have hview : view ready (s.settle f i e status) = (view ready s).lose i f.rt := by
          simp [view, settle, Race.State.lose, List.eraseIdx_map]
        rw [hview]
        exact Race.Step.lost rfl hrun hlose

end HedgedRace

end Routeplane
