import Routeplane.Proof.UsageLanes

/-!
# The usage lanes lose nearly no wakeup

* `Covered.apply`: an event that waits has the flag set, or someone about to try it.
* `no_event_stranded`: when an event that waits has its token. `event_stranded`: a run where it
  has not.
-/

namespace Routeplane.Usage

section

variable {reg : Registry} {ι : Type*} [Fintype ι] [DecidableEq ι] {s : State ι reg} {i : ι}
  {k : Fin reg.tenantCount}

/-! ## Events that wait -/

/-- An event that waits has the flag set, or someone about to try it. -/
def View.Covered (v : View) : Prop :=
  v.lane.queue ≠ [] → v.lane.scheduled = true ∨ v.hand = .rechecking ∨ v.hand = .rescheduling ∨
    0 < v.schedules

/-- While tokens are served, every lane is covered. -/
def Covered (s : State ι reg) : Prop :=
  s.writer.mode = .serving → ∀ k, (view s k).Covered

/-- The flag of a stale token is cleared only while the lane is empty, or before a producer that has
put an event in has tried the flag. -/
def Fresh (s : State ι reg) : Event ι → Prop
  | .write => ∀ k, s.writer = .stale k →
    (s.lane k).queue = [] ∨ ∃ i, s.producer i = .scheduling k
  | _ => True

/-- A producer at a lane moves on: an event there has the flag, or this producer to try it, unless
it was covered before. -/
theorem Covered.moved (h : ∀ k, (view s k).Covered) (lane : Lane) (phase : ProducerPhase reg)
    (hlane : (s.producer i).lane = some k) (hphase : phase.lane = none ∨ phase.lane = some k)
    (hk : lane.scheduled = true ∨ 0 < phase.schedules k ∨
      lane.queue = (s.lane k).queue ∧ lane.scheduled = (s.lane k).scheduled ∧
        (s.producer i).schedules k = 0) (k' : Fin reg.tenantCount) :
    (view ((s.setLane k lane).goto i phase) k').Covered := by
  by_cases heq : k' = k
  · subst heq
    rw [view_producer]
    intro hqueue
    rcases hk with hflag | hhere | ⟨hold, hflag, hzero⟩
    · exact .inl hflag
    · exact .inr (.inr (.inr (Nat.lt_of_lt_of_le hhere (Nat.le_add_left _ _))))
    · simp only [hold] at hqueue
      rcases h k' hqueue with hset | hre | hre | hcaller
      · exact .inl (hflag.trans hset)
      · exact .inr (.inl hre)
      · exact .inr (.inr (.inl hre))
      · refine .inr (.inr (.inr ?_))
        simp only
        omega
  · rw [view_moved_of_ne lane hlane hphase heq]
    exact h k'

/-- A producer that has nothing at any lane keeps what is covered. -/
theorem Covered.arrive (h : ∀ k, (view s k).Covered) (phase : ProducerPhase reg)
    (hold : (s.producer i).lane = none) (hquiet : ∀ k, phase.Quiet k) (k : Fin reg.tenantCount) :
    (view (s.goto i phase) k).Covered := by
  rw [view_goto_of_quiet (ProducerPhase.quiet_of_lane (by rw [hold]; nofun)) (hquiet k)]
  exact h k

theorem Covered.stepProducer (h : Inv s) (hlive : s.writer.mode ≠ .over)
    (hs : ∀ k, (view s k).Covered) (i : ι) (k' : Fin reg.tenantCount) :
    (view (stepProducer s i) k').Covered := by
  unfold Usage.stepProducer
  cases hp : s.producer i with
  | idle => exact hs k'
  | admitting call tenantId event =>
    have hold : (s.producer i).lane = none := by rw [hp]; rfl
    simp only
    split
    · exact Covered.arrive hs _ hold (admit_lane reg call tenantId event).2.1 k'
    · exact Covered.arrive hs _ hold (fun _ => ⟨rfl, rfl, rfl⟩) k'
  | refusing drop =>
    have hold : (s.producer i).lane = none := by rw [hp]; rfl
    exact Covered.arrive (s := s.recordDrop drop) hs .idle hold (fun _ => ⟨rfl, rfl, rfl⟩) k'
  | reserving k queued =>
    have hlane : (s.producer i).lane = some k := by rw [hp]; rfl
    have hzero : (s.producer i).schedules k = 0 := by rw [hp]; rfl
    simp only
    split
    · exact Covered.moved hs { s.lane k with slots := (s.lane k).slots - 1 } (.sending k queued)
        hlane (.inr rfl) (.inr (.inr ⟨rfl, rfl, hzero⟩)) k'
    · have hsame := Covered.moved hs (s.lane k)
        (.refusing ⟨queued.call, some (reg.tenantId k), .full⟩) hlane (.inl rfl)
        (.inr (.inr ⟨rfl, rfl, hzero⟩)) k'
      rw [setLane_self] at hsame
      exact hsame
  | sending k queued =>
    have hlane : (s.producer i).lane = some k := by rw [hp]; rfl
    have hzero : (s.producer i).schedules k = 0 := by rw [hp]; rfl
    simp only
    split
    · have hhere : 0 < (ProducerPhase.scheduling k).schedules k := by
        rw [ProducerPhase.schedules, if_pos rfl]
        exact Nat.one_pos
      exact Covered.moved hs _ (.scheduling k) hlane (.inr rfl) (.inr (.inl hhere)) k'
    · exact Covered.moved hs { s.lane k with slots := (s.lane k).slots + 1 } .idle hlane (.inl rfl)
        (.inr (.inr ⟨rfl, rfl, hzero⟩)) k'
  | scheduling k =>
    have hlane : (s.producer i).lane = some k := by rw [hp]; rfl
    simp only
    split
    · rename_i hflag
      have hsame := Covered.moved hs (s.lane k) .idle hlane (.inl rfl) (.inl hflag) k'
      rw [setLane_self] at hsame
      exact hsame
    · exact Covered.moved hs _ (.signalling k) hlane (.inr rfl) (.inl rfl) k'
  | signalling k =>
    have hlane : (s.producer i).lane = some k := by rw [hp]; rfl
    have hsignals := signals_pos hp
    have htoken := (h.lanes k).token hlive
    have hflag : (s.lane k).scheduled = true := by
      by_contra hno
      rw [view_lane, if_neg hno] at htoken
      omega
    have hmoves := fun phase hphase =>
      Covered.moved hs (s.lane k) phase hlane hphase (.inl hflag) k'
    rw [setLane_self] at hmoves
    simp only
    split
    · rename_i s' hsent
      obtain rfl := sendReady_eq hsent
      exact hmoves .idle (.inl rfl)
    · exact hmoves (.unscheduling k) (.inr rfl)
  | unscheduling k => exact absurd hp ((h.sent hlive).1 i k)

/-- The lane of the turn, if there is a turn. -/
def WriterPhase.At (w : WriterPhase reg) (k : Fin reg.tenantCount) : Prop :=
  w.turn = none ∨ w.turn.map Prod.fst = some k

theorem WriterPhase.At.away {w : WriterPhase reg} (h : w.At k) {k' : Fin reg.tenantCount}
    (hne : k' ≠ k) : w.hand k' = .away := by
  rcases h with hnone | hsome
  · exact hand_none hnone k'
  · obtain ⟨turn, hturn, rfl⟩ := Option.map_eq_some_iff.1 hsome
    exact hand_of_ne hturn hne

omit [DecidableEq ι] in
/-- The dispatcher moves on at a lane and leaves it covered. -/
theorem Covered.served (h : Covered s) (lane : Lane) (ready : List (Fin reg.tenantCount))
    {w w' : WriterPhase reg} (hw : s.writer = w) (hmode : w.mode = .serving)
    (hold : w.At k) (hnew : w'.At k)
    (hk : (∀ k, (view s k).Covered) → View.Covered { view s k with
      lane := lane, tokens := ready.count k, hand := w'.hand k }) :
    Covered { s.setLane k lane with ready := ready, writer := w' } := by
  intro _ k'
  have hs := h (by rw [hw]; exact hmode)
  by_cases heq : k' = k
  · subst heq
    have hview : view { s.setLane k' lane with ready := ready, writer := w' } k' =
        { view s k' with lane := lane, tokens := ready.count k', hand := w'.hand k' } := by
      unfold view State.setLane
      simp only [Function.update_self]
    rw [hview]
    exact hk hs
  · have hview : view { s.setLane k lane with ready := ready, writer := w' } k' =
        { view s k' with tokens := ready.count k' } := by
      unfold view State.setLane
      simp only [Function.update_of_ne heq, hw, hnew.away heq, hold.away heq]
    rw [hview]
    exact hs k'

omit [DecidableEq ι] in
/-- Where tokens are not served nothing has to be covered. -/
theorem Covered.vacuous (h : s.writer.mode ≠ .serving) : Covered s := fun hmode => absurd hmode h

omit [DecidableEq ι] in
/-- The dispatcher moves on at the lane of its turn, and leaves the flag set. -/
theorem Covered.flagged (h : Covered s) (lane : Lane) (ready : List (Fin reg.tenantCount))
    {w w' : WriterPhase reg} (hw : s.writer = w) (hmode : w.mode = .serving)
    (hold : w.At k) (hnew : w'.At k) (hflag : lane.scheduled = true) :
    Covered { s.setLane k lane with ready := ready, writer := w' } :=
  h.served lane ready hw hmode hold hnew fun _ _ => .inl hflag

omit [DecidableEq ι] in
/-- The same, where the lane stays as it is. -/
theorem Covered.turns (h : Covered s) (ready : List (Fin reg.tenantCount))
    {w w' : WriterPhase reg} (hw : s.writer = w) (hmode : w.mode = .serving)
    (hold : w.At k) (hnew : w'.At k) (hflag : (s.lane k).scheduled = true) :
    Covered { s with ready := ready, writer := w' } := by
  have hsame := h.flagged (s.lane k) ready hw hmode hold hnew hflag
  rw [setLane_self] at hsame
  exact hsame

omit [DecidableEq ι] in
theorem Covered.stepWriter (h : Inv s) (hs : Covered s)
    (hfresh : ∀ k, s.writer = .stale k →
      (s.lane k).queue = [] ∨ ∃ i, s.producer i = .scheduling k) : Covered (stepWriter s) := by
  unfold Usage.stepWriter
  cases hw : s.writer with
  | waiting =>
    cases hready : s.ready with
    | nil => exact hs
    | cons k rest =>
      -- the token is in the queue, so the flag is set
      have hflag : (s.lane k).scheduled = true := by
        have htoken := (h.lanes k).token (by rw [hw]; nofun)
        have hone : (view s k).tokens = rest.count k + 1 := by
          change s.ready.count k = _
          rw [hready, List.count_cons_self]
        by_contra hno
        rw [view_lane, if_neg hno] at htoken
        omega
      exact hs.turns rest hw rfl (.inl rfl) (.inr rfl) hflag
  | taking k =>
    have hflag := h.flag_of_token hw rfl nofun rfl
    simp only
    split
    · exact hs.turns s.ready hw rfl (.inr rfl) (.inr rfl) hflag
    · exact hs.flagged _ s.ready hw rfl (.inr rfl) (.inr rfl) hflag
  | stale k =>
    refine hs.served _ s.ready hw rfl (.inr rfl) (.inl rfl) fun _ hqueue => ?_
    rcases hfresh k hw with hempty | ⟨i, hi⟩
    · exact absurd hempty hqueue
    · exact .inr (.inr (.inr (schedules_pos hi)))
  | dispatching k queued turn =>
    cases turn with
    | token =>
      have hflag := h.flag_of_token hw rfl nofun rfl
      exact hs.turns s.ready hw rfl (.inr rfl) (.inr rfl) hflag
    | drain rest => exact Covered.vacuous nofun
  | retaining k queued sequence turn =>
    cases turn with
    | token =>
      have hflag := h.flag_of_token hw rfl nofun rfl
      exact hs.flagged ((s.lane k).retain (reg.usageShare k) ⟨sequence, queued.call, queued.event⟩)
        s.ready hw rfl (.inr rfl) (.inr rfl) hflag
    | drain rest => exact Covered.vacuous nofun
  | clearing k =>
    refine hs.served _ s.ready hw rfl (.inr rfl) (.inr rfl) fun _ _ => ?_
    exact .inr (.inl (hand_self (w := .rechecking k) rfl))
  | rechecking k =>
    simp only
    have hstay := fun (w' : WriterPhase reg) (hnew : w'.At k) =>
      hs.served (s.lane k) s.ready hw rfl (.inr rfl) hnew
    rw [setLane_self] at hstay
    split
    · rename_i hempty
      refine hstay .waiting (.inl rfl) fun _ hqueue => ?_
      exact absurd (List.isEmpty_iff.1 hempty) hqueue
    · refine hstay (.rescheduling k) (.inr rfl) fun _ _ => ?_
      exact .inr (.inr (.inl (hand_self (w := .rescheduling k) rfl)))
  | rescheduling k =>
    simp only
    split
    · rename_i hflag
      exact hs.turns s.ready hw rfl (.inr rfl) (.inl rfl) hflag
    · exact hs.flagged _ s.ready hw rfl (.inr rfl) (.inr rfl) rfl
  | signalling k =>
    have hflag := h.flag_of_token hw rfl nofun rfl
    simp only
    split
    · rename_i s' hsent
      obtain rfl := sendReady_eq hsent
      exact hs.turns _ hw rfl (.inr rfl) (.inl rfl) hflag
    · exact hs.turns _ hw rfl (.inr rfl) (.inr rfl) hflag
  | unscheduling k => exact absurd hw ((h.sent (by rw [hw]; nofun)).2 k)
  | closing rest =>
    cases rest with
    | nil => exact Covered.vacuous nofun
    | cons k rest => exact Covered.vacuous nofun
  | draining rest progressed =>
    cases rest with
    | nil => cases progressed <;> exact Covered.vacuous nofun
    | cons k rest =>
      simp only
      split <;> exact Covered.vacuous nofun
  | yielding rest => exact Covered.vacuous nofun
  | leaving rest =>
    have hleaving : ∀ s' : State ι reg, s'.writer.mode = .over → Covered s' := fun s' hover =>
      Covered.vacuous (by rw [hover]; nofun)
    cases rest with
    | nil => exact hleaving _ rfl
    | cons k rest =>
      simp only
      split
      · split
        · exact hleaving _ rfl
        · exact hleaving _ (congrArg WriterPhase.mode hw)
      · exact hleaving _ (congrArg WriterPhase.mode hw)
  | done => exact hs

/-- **A fresh event keeps waiting events covered.** -/
theorem Covered.apply (h : Inv s) (hs : Covered s) {e : Event ι} (hfresh : Fresh s e) :
    Covered (apply s e) := by
  cases e with
  | record i tenantId event =>
    simp only [Usage.apply]
    split
    · rename_i hp
      intro hmode
      exact Covered.arrive (hs hmode) (.admitting s.calls tenantId event) (by rw [hp]; rfl)
        fun _ => ⟨rfl, rfl, rfl⟩
    · exact hs
  | step i =>
    intro hmode
    have hwriter : (Usage.apply s (.step i)).writer = s.writer := stepProducer_writer s i
    rw [hwriter] at hmode
    exact Covered.stepProducer h (by rw [hmode]; intro hclosed; cases hclosed) (hs hmode) i
  | write => exact hs.stepWriter h hfresh
  | notice =>
    simp only [Usage.apply]
    split
    · exact Covered.vacuous fun hmode => by cases hmode
    · exact hs
  | shutdown =>
    simp only [Usage.apply]
    split
    · exact hs
    · exact hs
  | abort =>
    simp only [Usage.apply]
    split
    · unfold abortWriter
      split
      · exact Covered.vacuous fun hmode => by cases hmode
      · exact Covered.vacuous fun hmode => by cases hmode
      · exact Covered.vacuous fun hmode => by cases hmode
      · exact hs
    · exact hs

/-- No producer is between its event put in and the token sent, and the dispatcher is between turns
or over. -/
structure Settled (s : State ι reg) : Prop where
  producers : ∀ i k, s.producer i ≠ .scheduling k ∧ s.producer i ≠ .signalling k
  writer : s.writer = .waiting ∨ s.writer = .done

omit [DecidableEq ι] in
theorem Settled.tallies (h : Settled s) (k : Fin reg.tenantCount) :
    (view s k).schedules = 0 ∧ (view s k).signals = 0 := by
  refine ⟨Finset.sum_eq_zero fun i _ => ?_, Finset.sum_eq_zero fun i _ => ?_⟩
  · cases hphase : s.producer i with
    | scheduling k' => exact absurd hphase (h.producers i k').1
    | _ => rfl
  · cases hphase : s.producer i with
    | signalling k' => exact absurd hphase (h.producers i k').2
    | _ => rfl

/-- **No event is stranded** in a run that clears no flag of a stale token over an event that waits:
when nobody is in the middle of it, a lane with events has its one token, and without tokens there
are no events. -/
theorem no_event_stranded (reg : Registry) (es : List (Event ι))
    (hfresh : Run.Steps apply Fresh (start ι reg) es) :
    Run.States apply (fun s => Settled s →
      (∀ k, (s.lane k).queue ≠ [] → s.ready.count k = 1) ∧
      (s.ready = [] → ∀ k, (s.lane k).queue = [])) (start ι reg) es := by
  have hinv : Run.States apply (fun s => Inv s ∧ Covered s) (start ι reg) es := by
    refine hfresh.states (fun s e h hcond => ⟨h.1.apply e, h.2.apply h.1 hcond⟩) ⟨inv_start, ?_⟩
    exact fun _ _ hqueue => absurd rfl hqueue
  refine hinv.mono fun s ⟨h, hcovered⟩ hsettled => ?_
  have htokens : ∀ k, (s.lane k).queue ≠ [] → s.ready.count k = 1 := by
    intro k hqueue
    rcases hsettled.writer with hw | hw
    · obtain ⟨hschedules, hsignals⟩ := hsettled.tallies k
      have hhand : (view s k).hand = .away := by
        change s.writer.hand k = .away
        rw [hw]
        exact hand_none rfl k
      have htoken := (h.lanes k).token (by rw [hw]; nofun)
      rw [hhand, hsignals] at htoken
      rcases hcovered (by rw [hw]; rfl) k hqueue with hflag | hre | hre | hcaller
      · rw [hflag, if_pos rfl] at htoken
        exact htoken
      · exact absurd (hhand.symm.trans hre) nofun
      · exact absurd (hhand.symm.trans hre) nofun
      · omega
    · -- the dispatcher has left, with every lane shut
      cases hactive : reg.active k with
      | true => exact absurd (h.left k hactive (by rw [hw]; trivial)).2 hqueue
      | false => exact absurd (h.inactive k hactive) hqueue
  refine ⟨htokens, fun hready k => ?_⟩
  by_contra hqueue
  have hone := htokens k hqueue
  rw [hready] at hone
  exact absurd hone nofun

/-- **Where the condition fails, an event is stranded**: it waits without a token, a set flag or a
producer to set it. -/
theorem stranded_of_not_fresh (h : Inv s) (hnot : ¬Fresh s .write) :
    ∃ k, ((apply s .write).lane k).queue ≠ [] ∧ ((apply s .write).lane k).scheduled = false ∧
      (apply s .write).ready.count k = 0 ∧
      ∀ i, (apply s .write).producer i ≠ .scheduling k ∧
        (apply s .write).producer i ≠ .signalling k := by
  unfold Fresh at hnot
  push Not at hnot
  obtain ⟨k, hstale, hqueue, hnobody⟩ := hnot
  have hnext : apply s .write =
      { s.setLane k { s.lane k with scheduled := false } with writer := .waiting } := by
    simp only [Usage.apply, stepWriter, hstale]
  have hone := (h.lanes k).token_le (by rw [hstale]; intro hclosed; cases hclosed)
  have hhand : (view s k).hand.token = 1 := by
    change (s.writer.hand k).token = 1
    rw [hstale, hand_self rfl]
    rfl
  rw [hnext]
  refine ⟨k, ?_, ?_, ?_, fun i => ⟨hnobody i, fun hsignalling => ?_⟩⟩
  · simp only [State.setLane, Function.update_self]
    exact hqueue
  · simp only [State.setLane, Function.update_self]
  · change (view s k).tokens = 0
    omega
  · have hsignals := signals_pos (s := s) hsignalling
    omega

end

/-! ## A run that strands an event -/

theorem sortedLT_solo : (["t"] : List String).SortedLT := List.Pairwise.sortedLT (by decide)

def soloRegistry : Registry where
  tenantIds := ["t"]
  sorted := sortedLT_solo

def someUsage : UsageEvent := .ofSuccess "t" "key" "openai" "gpt-4o" 1 1 2 none false

/-- `n` steps of the dispatcher. -/
def dispatches {ι : Type} (n : ℕ) : List (Event ι) := List.replicate n .write

/-- A producer records an event up to its reservation, puts it in and takes `n` more steps. -/
def records {ι : Type} (i : ι) (n : ℕ) : List (Event ι) :=
  .record i (some "t") someUsage :: List.replicate (3 + n) (.step i)

local instance neZero_three : NeZero 3 := ⟨three_ne_zero⟩

/-- Two producers, of which the second's token is stale: its event was dispatched before it tried
the flag. -/
def staleRun : List (Event (Fin 3)) :=
  records 0 2 ++ records 1 0 ++ dispatches 14 ++ [.step 1, .step 1] ++ dispatches 2

/-- A stale token alone strands nothing. -/
theorem no_event_stranded_stale :
    let s := Run.run apply (start (Fin 3) soloRegistry) (staleRun ++ dispatches 1)
    ∀ k, (s.lane k).queue = [] := by
  have hempty : Run.Steps apply (fun s _ => ∀ k, s.writer = .stale k → (s.lane k).queue = [])
      (start (Fin 3) soloRegistry) (staleRun ++ dispatches 1) := by
    decide
  have hfresh : Run.Steps apply Fresh (start (Fin 3) soloRegistry) (staleRun ++ dispatches 1) := by
    refine hempty.mono fun s e h => ?_
    cases e with
    | write => exact fun k hstale => .inl (h k hstale)
    | _ => trivial
  have hend := Run.states_iff.1 (no_event_stranded soloRegistry _ hfresh) _ (Nat.le_refl _)
  rw [List.take_length] at hend
  have hidle : ∀ i, (Run.run apply (start (Fin 3) soloRegistry)
      (staleRun ++ dispatches 1)).producer i = .idle := by
    decide
  refine (hend ⟨fun i k => ?_, .inl (by decide)⟩).2 (by decide)
  rw [hidle i]
  exact ⟨nofun, nofun⟩

/-- **An event is stranded**: the dispatcher finds the lane empty, the third producer puts its event
in and finds the flag set, and the dispatcher clears the flag. Everybody is done, the event waits
and nothing is ready. -/
theorem event_stranded :
    let s := Run.run apply (start (Fin 3) soloRegistry) (staleRun ++ records 2 1 ++ dispatches 1)
    (∀ i, s.producer i = .idle) ∧ s.writer = .waiting ∧ s.ready = [] ∧
      (s.lane ⟨0, by decide⟩).queue = [⟨2, someUsage⟩] := by
  decide

end Routeplane.Usage
