import Routeplane.Lib.Rollup
import Routeplane.Lib.Run
import Routeplane.Observability.Lanes

/-!
# What holds of the usage lanes

* `view`: the state as one lane sees it; a party at another lane changes nothing of it.
* `Balanced`: one token for a flag that is set, and slots that add up.
* `Inv.stepProducer`, `Inv.stepWriter`, `Inv.apply`: every event keeps the invariant.
-/

namespace Routeplane.Usage

/-! ## What one lane sees -/

/-- Where the dispatcher is at the lane. -/
inductive Hand
  | away
  | taking
  | stale
  | holding (queued : QueuedUsage) (token : Bool)
  | clearing
  | rechecking
  | rescheduling
  | signalling
  | unscheduling

namespace Hand

/-- Whether the dispatcher has the lane's token, or is about to send it. -/
def token : Hand → ℕ
  | taking | stale | holding _ true | clearing | signalling => 1
  | away | holding _ false | rechecking | rescheduling | unscheduling => 0

/-- The slots of what it has in hand. -/
def held : Hand → ℕ
  | holding _ _ => 1
  | _ => 0

end Hand

section

variable {reg : Registry}

def Turn.isToken : Turn reg → Bool
  | .token => true
  | .drain _ => false

/-- The lane of a dispatcher's turn, and where in the turn it is. -/
def WriterPhase.turn : WriterPhase reg → Option (Fin reg.tenantCount × Hand)
  | taking k => some (k, .taking)
  | stale k => some (k, .stale)
  | dispatching k queued turn | retaining k queued _ turn => some (k, .holding queued turn.isToken)
  | clearing k => some (k, .clearing)
  | rechecking k => some (k, .rechecking)
  | rescheduling k => some (k, .rescheduling)
  | signalling k => some (k, .signalling)
  | unscheduling k => some (k, .unscheduling)
  | waiting | closing _ | draining _ _ | yielding _ | leaving _ | done => none

def WriterPhase.hand (k : Fin reg.tenantCount) (w : WriterPhase reg) : Hand :=
  match w.turn with
  | none => .away
  | some (k', hand) => if k' = k then hand else .away

/-- Whether the dispatcher serves tokens, drains the lanes, or is over. -/
inductive Mode
  | serving
  | draining
  | over

def WriterPhase.mode : WriterPhase reg → Mode
  | dispatching _ _ (.drain _) | retaining _ _ _ (.drain _) => .draining
  | closing _ | draining _ _ | yielding _ => .draining
  | leaving _ | done => .over
  | _ => .serving

namespace ProducerPhase

/-- The lane a producer is at. -/
def lane : ProducerPhase reg → Option (Fin reg.tenantCount)
  | idle | admitting _ _ _ | refusing _ => none
  | reserving k _ | sending k _ | scheduling k | signalling k | unscheduling k => some k

/-- Whether it has a slot of the lane. -/
def sends (k : Fin reg.tenantCount) : ProducerPhase reg → ℕ
  | sending k' _ => if k' = k then 1 else 0
  | _ => 0

/-- Whether it has put an event in and not tried the flag. -/
def schedules (k : Fin reg.tenantCount) : ProducerPhase reg → ℕ
  | scheduling k' => if k' = k then 1 else 0
  | _ => 0

def signals (k : Fin reg.tenantCount) : ProducerPhase reg → ℕ
  | signalling k' => if k' = k then 1 else 0
  | _ => 0

end ProducerPhase

/-- A lane, the tokens on their way, the dispatcher's hand and the producers at it. -/
structure View where
  lane : Lane
  tokens : ℕ
  hand : Hand
  sends : ℕ
  schedules : ℕ
  signals : ℕ

variable {ι : Type*} [Fintype ι] [DecidableEq ι] {s : State ι reg} {i : ι}
  {k : Fin reg.tenantCount}

/-- The state as one lane sees it. -/
def view (s : State ι reg) (k : Fin reg.tenantCount) : View where
  lane := s.lane k
  tokens := s.ready.count k
  hand := s.writer.hand k
  sends := ∑ i, (s.producer i).sends k
  schedules := ∑ i, (s.producer i).schedules k
  signals := ∑ i, (s.producer i).signals k

omit [DecidableEq ι] in
@[simp] theorem view_lane (s : State ι reg) (k : Fin reg.tenantCount) :
    (view s k).lane = s.lane k := rfl

omit [DecidableEq ι] in
theorem sends_pos {queued : QueuedUsage} (h : s.producer i = .sending k queued) :
    0 < (view s k).sends := by
  have hle := Tally.le (ProducerPhase.sends k) s.producer i
  rw [h, ProducerPhase.sends, if_pos rfl] at hle
  exact hle

omit [DecidableEq ι] in
theorem schedules_pos (h : s.producer i = .scheduling k) : 0 < (view s k).schedules := by
  have hle := Tally.le (ProducerPhase.schedules k) s.producer i
  rw [h, ProducerPhase.schedules, if_pos rfl] at hle
  exact hle

omit [DecidableEq ι] in
theorem signals_pos (h : s.producer i = .signalling k) : 0 < (view s k).signals := by
  have hle := Tally.le (ProducerPhase.signals k) s.producer i
  rw [h, ProducerPhase.signals, if_pos rfl] at hle
  exact hle

/-- What a lane sees of a producer that moves. -/
theorem view_goto (s : State ι reg) (i : ι) (phase : ProducerPhase reg)
    (k : Fin reg.tenantCount) :
    view (s.goto i phase) k =
      { view s k with
        sends := (view s k).sends - (s.producer i).sends k + phase.sends k
        schedules := (view s k).schedules - (s.producer i).schedules k + phase.schedules k
        signals := (view s k).signals - (s.producer i).signals k + phase.signals k } := by
  unfold view State.goto
  simp only
  rw [Tally.update (ProducerPhase.sends k), Tally.update (ProducerPhase.schedules k),
    Tally.update (ProducerPhase.signals k)]

/-- A phase that counts for nothing at the lane. -/
structure ProducerPhase.Quiet (k : Fin reg.tenantCount) (phase : ProducerPhase reg) : Prop where
  sends : phase.sends k = 0
  schedules : phase.schedules k = 0
  signals : phase.signals k = 0

omit [Fintype ι] [DecidableEq ι] in
theorem ProducerPhase.quiet_of_lane {phase : ProducerPhase reg} (h : phase.lane ≠ some k) :
    phase.Quiet k := by
  have hne : ∀ k', some k' ≠ some k → k' ≠ k := fun k' hk heq => hk (congrArg some heq)
  cases phase with
  | sending k' queued => exact ⟨if_neg (hne k' h), rfl, rfl⟩
  | scheduling k' => exact ⟨rfl, if_neg (hne k' h), rfl⟩
  | signalling k' => exact ⟨rfl, rfl, if_neg (hne k' h)⟩
  | _ => exact ⟨rfl, rfl, rfl⟩

theorem view_goto_of_quiet {phase : ProducerPhase reg} (hold : (s.producer i).Quiet k)
    (hnew : phase.Quiet k) : view (s.goto i phase) k = view s k := by
  rw [view_goto, hold.sends, hold.schedules, hold.signals, hnew.sends, hnew.schedules,
    hnew.signals]
  rfl

omit [DecidableEq ι] in
theorem view_setLane_of_ne {k' : Fin reg.tenantCount} (h : k ≠ k') (lane : Lane) :
    view (s.setLane k' lane) k = view s k := by
  unfold view State.setLane
  simp only [Function.update_of_ne h]

omit [DecidableEq ι] in
theorem view_setLane_self (s : State ι reg) (k : Fin reg.tenantCount) (lane : Lane) :
    view (s.setLane k lane) k = { view s k with lane := lane } := by
  unfold view State.setLane
  simp only [Function.update_self]

/-! ## What holds in every state -/

/-- The slots of a lane, and its one token. -/
structure Balanced (reg : Registry) (mode : Mode) (k : Fin reg.tenantCount) (v : View) : Prop where
  slots : v.lane.slots + v.lane.queue.length + v.sends + v.hand.held = reg.ingestShare k
  token : mode ≠ .over → v.tokens + v.hand.token + v.signals = if v.lane.scheduled then 1 else 0

/-- **One token** at most, wherever it is. -/
theorem Balanced.token_le {mode : Mode} {v : View} (h : Balanced reg mode k v)
    (hlive : mode ≠ .over) : v.tokens + v.hand.token + v.signals ≤ 1 := by
  have htoken := h.token hlive
  split at htoken <;> omega

def Lane.Shut (lane : Lane) : Prop := lane.closed = true ∧ lane.queue = []

/-- The lanes the dispatcher still comes to at shutdown. -/
def WriterPhase.ahead : WriterPhase reg → List (Fin reg.tenantCount)
  | dispatching _ _ (.drain rest) | retaining _ _ _ (.drain rest) => rest
  | closing rest | draining rest _ | yielding rest | leaving rest => rest
  | _ => []

/-- The lanes whose receivers are dropped. -/
def WriterPhase.left (w : WriterPhase reg) (k : Fin reg.tenantCount) : Prop :=
  match w with
  | leaving rest => k ∉ rest
  | done => True
  | _ => False

structure Inv (s : State ι reg) : Prop where
  lanes : ∀ k, Balanced reg s.writer.mode k (view s k)
  producer_active : ∀ i k, (s.producer i).lane = some k → reg.active k = true
  ready_active : ∀ k ∈ s.ready, reg.active k = true
  writer_active : ∀ k hand, s.writer.turn = some (k, hand) → reg.active k = true
  ahead_active : ∀ k ∈ s.writer.ahead, reg.active k = true
  inactive : ∀ k, reg.active k = false → (s.lane k).queue = []
  left : ∀ k, reg.active k = true → s.writer.left k → (s.lane k).Shut
  opened : s.writer.mode ≠ .over → s.readyClosed = false
  sent : s.writer.mode ≠ .over → (∀ i k, s.producer i ≠ .unscheduling k) ∧
    ∀ k, s.writer ≠ .unscheduling k

omit [DecidableEq ι] in
theorem inv_start : Inv (start ι reg) where
  lanes k := by
    refine ⟨?_, fun _ => ?_⟩
    · change reg.ingestShare k + 0 + ∑ _i : ι, 0 + 0 = _
      rw [Finset.sum_const_zero]
      rfl
    · change 0 + 0 + ∑ _i : ι, 0 = _
      rw [Finset.sum_const_zero]
      rfl
  producer_active _ _ h := nomatch h
  ready_active _ h := absurd h List.not_mem_nil
  writer_active _ _ h := nomatch h
  ahead_active _ h := absurd h List.not_mem_nil
  inactive _ _ := rfl
  left _ _ h := h.elim
  opened _ := rfl
  sent _ := ⟨nofun, nofun⟩

omit [DecidableEq ι] in
/-- **There is room for a token** while the lane has none in the queue. -/
theorem Inv.room (h : Inv s) (hlive : s.writer.mode ≠ .over) (hk : reg.active k = true)
    (htokens : (view s k).tokens = 0) :
    s.sendReady k = some { s with ready := s.ready ++ [k] } := by
  have hnodup : (k :: s.ready).Nodup := by
    refine List.nodup_cons.2 ⟨List.count_eq_zero.1 htokens, List.nodup_iff_count_le_one.2 ?_⟩
    intro k'
    have htoken := (h.lanes k').token_le hlive
    simp only [view] at htoken
    omega
  have hsub : k :: s.ready ⊆ reg.writerLanes := by
    intro k' hk'
    refine List.mem_filter.2 ⟨List.mem_finRange k', ?_⟩
    rcases List.mem_cons.1 hk' with rfl | hk'
    · exact hk
    · exact h.ready_active k' hk'
  have hle := (hnodup.subperm hsub).length_le
  rw [List.length_cons] at hle
  unfold State.sendReady
  rw [if_pos ⟨h.opened hlive, by omega⟩]

/-! ## A producer's step -/

/-- The other lanes see nothing of it. -/
theorem view_moved_of_ne (lane : Lane) {phase : ProducerPhase reg} {k' : Fin reg.tenantCount}
    (hlane : (s.producer i).lane = some k) (hphase : phase.lane = none ∨ phase.lane = some k)
    (hne : k' ≠ k) : view ((s.setLane k lane).goto i phase) k' = view s k' := by
  have hquiet : ∀ p : ProducerPhase reg, p.lane = none ∨ p.lane = some k → p.Quiet k' := by
    intro p hp
    refine ProducerPhase.quiet_of_lane fun hp' => ?_
    rcases hp with hp | hp
    · rw [hp] at hp'
      exact absurd hp' nofun
    · exact hne (Option.some.inj (hp'.symm.trans hp))
  rw [view_goto_of_quiet (s := s.setLane k lane) (hquiet _ (.inr hlane)) (hquiet _ hphase),
    view_setLane_of_ne hne]

/-- A producer at a lane moves on; it may change the lane, and the tokens of it. -/
theorem Inv.moved (h : Inv s) {phase : ProducerPhase reg} {lane : Lane}
    {ready : List (Fin reg.tenantCount)} (hlane : (s.producer i).lane = some k)
    (hphase : phase.lane = none ∨ phase.lane = some k)
    (hk : Balanced reg s.writer.mode k
      { view ((s.setLane k lane).goto i phase) k with tokens := ready.count k })
    (hcount : ∀ k' ≠ k, ready.count k' = s.ready.count k')
    (hready : ∀ k' ∈ ready, k' ∈ s.ready ∨ k' = k)
    (hshut : (s.lane k).Shut → lane.Shut)
    (hsent : s.writer.mode ≠ .over → ∀ k', phase ≠ .unscheduling k') :
    Inv { (s.setLane k lane).goto i phase with ready := ready } where
  lanes k' := by
    by_cases heq : k' = k
    · subst heq
      exact hk
    · have hsame := view_moved_of_ne lane hlane hphase heq
      change Balanced reg s.writer.mode k'
        { view ((s.setLane k lane).goto i phase) k' with tokens := ready.count k' }
      rw [hsame, hcount k' heq]
      exact h.lanes k'
  producer_active j k' hj := by
    by_cases hji : j = i
    · subst hji
      simp only [State.goto, Function.update_self] at hj
      rcases hphase with hphase | hphase
      · rw [hphase] at hj
        exact absurd hj nofun
      · obtain rfl := Option.some.inj (hphase.symm.trans hj)
        exact h.producer_active j k hlane
    · simp only [State.goto, Function.update_of_ne hji] at hj
      exact h.producer_active j k' hj
  ready_active k' hk' := by
    rcases hready k' hk' with hold | rfl
    · exact h.ready_active k' hold
    · exact h.producer_active i k' hlane
  writer_active := h.writer_active
  ahead_active := h.ahead_active
  inactive k' hk' := by
    have hne : k' ≠ k := by
      rintro rfl
      rw [h.producer_active i k' hlane] at hk'
      exact absurd hk' nofun
    simp only [State.goto, State.setLane, Function.update_of_ne hne]
    exact h.inactive k' hk'
  left k' hactive hleft := by
    have hold := h.left k' hactive hleft
    by_cases heq : k' = k
    · subst heq
      simp only [State.goto, State.setLane, Function.update_self]
      exact hshut hold
    · simp only [State.goto, State.setLane, Function.update_of_ne heq]
      exact hold
  opened := h.opened
  sent hlive := by
    refine ⟨fun j k' => ?_, (h.sent hlive).2⟩
    by_cases hji : j = i
    · subst hji
      simp only [State.goto, Function.update_self]
      exact hsent hlive k'
    · simp only [State.goto, Function.update_of_ne hji]
      exact (h.sent hlive).1 j k'

/-- A producer at a lane moves on, and may change the lane. -/
theorem Inv.producer (h : Inv s) (lane : Lane) {phase : ProducerPhase reg}
    (hlane : (s.producer i).lane = some k)
    (hphase : phase.lane = none ∨ phase.lane = some k)
    (hk : Balanced reg s.writer.mode k (view ((s.setLane k lane).goto i phase) k))
    (hshut : (s.lane k).Shut → lane.Shut)
    (hsent : s.writer.mode ≠ .over → ∀ k', phase ≠ .unscheduling k') :
    Inv ((s.setLane k lane).goto i phase) :=
  h.moved hlane hphase hk (fun _ _ => rfl) (fun _ => .inl) hshut hsent

/-- What the lane of the producer sees of it. -/
theorem view_producer (s : State ι reg) (i : ι) (k : Fin reg.tenantCount) (lane : Lane)
    (phase : ProducerPhase reg) : view ((s.setLane k lane).goto i phase) k =
      { view s k with
        lane := lane
        sends := (view s k).sends - (s.producer i).sends k + phase.sends k
        schedules := (view s k).schedules - (s.producer i).schedules k + phase.schedules k
        signals := (view s k).signals - (s.producer i).signals k + phase.signals k } := by
  rw [view_goto, view_setLane_self]
  rfl

omit [Fintype ι] [DecidableEq ι] in
theorem setLane_self (s : State ι reg) (k : Fin reg.tenantCount) : s.setLane k (s.lane k) = s := by
  rw [State.setLane, Function.update_eq_self]

/-- A producer at a lane moves on, and leaves the lane as it is. -/
theorem Inv.moves (h : Inv s) {phase : ProducerPhase reg} (hlane : (s.producer i).lane = some k)
    (hphase : phase.lane = none ∨ phase.lane = some k)
    (hk : Balanced reg s.writer.mode k
      { view s k with
        sends := (view s k).sends - (s.producer i).sends k + phase.sends k
        schedules := (view s k).schedules - (s.producer i).schedules k + phase.schedules k
        signals := (view s k).signals - (s.producer i).signals k + phase.signals k })
    (hsent : s.writer.mode ≠ .over → ∀ k', phase ≠ .unscheduling k') : Inv (s.goto i phase) := by
  have hview := view_producer s i k (s.lane k) phase
  have hsame := h.producer (s.lane k) hlane hphase (hview ▸ hk) id hsent
  rw [setLane_self] at hsame
  exact hsame

/-- A producer that is at no lane goes to one with nothing of it. -/
theorem Inv.arrive (h : Inv s) {phase : ProducerPhase reg} (hold : (s.producer i).lane = none)
    (hquiet : ∀ k, phase.Quiet k) (hactive : ∀ k, phase.lane = some k → reg.active k = true)
    (hsent : ∀ k, phase ≠ .unscheduling k) : Inv (s.goto i phase) where
  lanes k := by
    have hnone : (s.producer i).Quiet k := ProducerPhase.quiet_of_lane (by rw [hold]; nofun)
    rw [view_goto_of_quiet hnone (hquiet k)]
    exact h.lanes k
  producer_active j k hj := by
    by_cases hji : j = i
    · subst hji
      simp only [State.goto, Function.update_self] at hj
      exact hactive k hj
    · simp only [State.goto, Function.update_of_ne hji] at hj
      exact h.producer_active j k hj
  ready_active := h.ready_active
  writer_active := h.writer_active
  ahead_active := h.ahead_active
  inactive := h.inactive
  left := h.left
  opened := h.opened
  sent hlive := by
    refine ⟨fun j k => ?_, (h.sent hlive).2⟩
    by_cases hji : j = i
    · subst hji
      simp only [State.goto, Function.update_self]
      exact hsent k
    · simp only [State.goto, Function.update_of_ne hji]
      exact (h.sent hlive).1 j k

omit [DecidableEq ι] in
/-- Counters, flags and records do not matter. -/
theorem Inv.of_same (h : Inv s) {s' : State ι reg} (hlane : s'.lane = s.lane)
    (hready : s'.ready = s.ready) (hclosed : s'.readyClosed = s.readyClosed)
    (hproducer : s'.producer = s.producer) (hwriter : s'.writer = s.writer) : Inv s' := by
  have hview : view s' = view s := by
    funext k
    unfold view
    rw [hlane, hready, hproducer, hwriter]
  constructor
  · rw [hview, hwriter]
    exact h.lanes
  · rw [hproducer]
    exact h.producer_active
  · rw [hready]
    exact h.ready_active
  · rw [hwriter]
    exact h.writer_active
  · rw [hwriter]
    exact h.ahead_active
  · rw [hlane]
    exact h.inactive
  · rw [hlane, hwriter]
    exact h.left
  · rw [hwriter, hclosed]
    exact h.opened
  · rw [hwriter, hproducer]
    exact h.sent

omit [DecidableEq ι] in
theorem Inv.recordDrop (h : Inv s) (drop : Drop) : Inv (s.recordDrop drop) :=
  h.of_same rfl rfl rfl rfl rfl

omit [Fintype ι] [DecidableEq ι] in
theorem admit_lane (reg : Registry) (call : ℕ) (tenantId : Option String) (event : UsageEvent) :
    (∀ k, (admitEvent reg call tenantId event).lane = some k → reg.active k = true) ∧
      (∀ k, (admitEvent reg call tenantId event).Quiet k) ∧
      ∀ k, admitEvent reg call tenantId event ≠ .unscheduling k := by
  unfold admitEvent
  cases tenantId with
  | none => exact ⟨nofun, fun _ => ⟨rfl, rfl, rfl⟩, nofun⟩
  | some t =>
    simp only
    cases reg.tenantIndex t with
    | none => exact ⟨nofun, fun _ => ⟨rfl, rfl, rfl⟩, nofun⟩
    | some k =>
      simp only
      split
      · rename_i hactive
        refine ⟨fun k' hk' => ?_, fun _ => ⟨rfl, rfl, rfl⟩, nofun⟩
        obtain rfl := Option.some.inj hk'
        exact hactive
      · exact ⟨nofun, fun _ => ⟨rfl, rfl, rfl⟩, nofun⟩

omit [Fintype ι] [DecidableEq ι] in
theorem sendReady_eq {s' : State ι reg} (h : s.sendReady k = some s') :
    s' = { s with ready := s.ready ++ [k] } := by
  unfold State.sendReady at h
  split at h
  · exact (Option.some.inj h).symm
  · exact absurd h nofun

/-- A producer sends the token of the flag it has set. -/
theorem Inv.signal (h : Inv s) (hp : s.producer i = .signalling k) :
    Inv ({ s with ready := s.ready ++ [k] }.goto i .idle) := by
  have hlane : (s.producer i).lane = some k := by rw [hp]; rfl
  have hsignals := signals_pos hp
  have hk := h.lanes k
  have hsame : Inv { (s.setLane k (s.lane k)).goto i .idle with ready := s.ready ++ [k] } := by
    refine h.moved hlane (.inl rfl) ?_ (fun k' hne => ?_) (fun k' hmem => ?_) id fun _ => nofun
    · rw [view_producer, hp]
      refine ⟨hk.slots, fun hlive => ?_⟩
      have htoken := hk.token hlive
      have htokens : (s.ready ++ [k]).count k = (view s k).tokens + 1 := by
        rw [List.count_append, List.count_singleton_self]
        rfl
      change (s.ready ++ [k]).count k + (view s k).hand.token +
        ((view s k).signals - (ProducerPhase.signalling k).signals k + 0) =
          if (view s k).lane.scheduled then 1 else 0
      rw [← htoken, htokens, ProducerPhase.signals, if_pos rfl]
      omega
    · rw [List.count_append, List.count_singleton, if_neg (by simpa using hne.symm), Nat.add_zero]
    · exact (List.mem_append.1 hmem).imp_right List.mem_singleton.1
  rw [setLane_self] at hsame
  exact hsame

/-- A producer takes a slot of its lane, -/
theorem Inv.takeSlot (h : Inv s) {queued : QueuedUsage} (hp : s.producer i = .reserving k queued)
    (hroom : 0 < (s.lane k).slots) :
    Inv ((s.setLane k { s.lane k with slots := (s.lane k).slots - 1 }).goto i
      (.sending k queued)) := by
  have hlane : (s.producer i).lane = some k := by rw [hp]; rfl
  have hk := h.lanes k
  refine h.producer _ hlane (.inr rfl) ?_ id fun _ => nofun
  rw [view_producer, hp]
  refine ⟨?_, hk.token⟩
  have hslots := hk.slots
  simp only [view_lane, ProducerPhase.sends, if_true] at hslots ⊢
  omega

/-- puts its event there, -/
theorem Inv.push (h : Inv s) {queued : QueuedUsage} (hp : s.producer i = .sending k queued)
    (hopen : (s.lane k).closed = false) :
    Inv ((s.setLane k { s.lane k with queue := (s.lane k).queue ++ [queued] }).goto i
      (.scheduling k)) := by
  have hlane : (s.producer i).lane = some k := by rw [hp]; rfl
  have hk := h.lanes k
  have hsends := sends_pos hp
  have hslots := hk.slots
  simp only [view_lane] at hslots
  refine h.producer _ hlane (.inr rfl) ?_ (fun hshut => ?_) fun _ => nofun
  · rw [view_producer, hp]
    refine ⟨?_, hk.token⟩
    simp only [ProducerPhase.sends, if_true, List.length_append, List.length_singleton]
    omega
  · rw [hshut.1] at hopen
    exact absurd hopen nofun

/-- or drops it and gives the slot back, -/
theorem Inv.giveUp (h : Inv s) {queued : QueuedUsage} (hp : s.producer i = .sending k queued) :
    Inv ((s.abandon k queued).goto i .idle) := by
  have hlane : (s.producer i).lane = some k := by rw [hp]; rfl
  have hk := h.lanes k
  have hsends := sends_pos hp
  have hslots := hk.slots
  simp only [view_lane] at hslots
  have hmoved : Inv ((s.setLane k { s.lane k with slots := (s.lane k).slots + 1 }).goto i
      .idle) := by
    refine h.producer _ hlane (.inl rfl) ?_ id fun _ => nofun
    rw [view_producer, hp]
    refine ⟨?_, hk.token⟩
    simp only [ProducerPhase.sends, if_true]
    omega
  exact hmoved.recordDrop ⟨queued.call, some (reg.tenantId k), .closed⟩

/-- sets the flag it finds clear, -/
theorem Inv.raise (h : Inv s) (hp : s.producer i = .scheduling k)
    (hflag : ¬(s.lane k).scheduled = true) :
    Inv ((s.setLane k { s.lane k with scheduled := true }).goto i (.signalling k)) := by
  have hlane : (s.producer i).lane = some k := by rw [hp]; rfl
  have hk := h.lanes k
  refine h.producer _ hlane (.inr rfl) ?_ id fun _ => nofun
  rw [view_producer, hp]
  refine ⟨hk.slots, fun hlive => ?_⟩
  -- the token that goes with the flag is the one this producer is about to send
  have htoken := hk.token hlive
  rw [view_lane, if_neg hflag] at htoken
  simp only [ProducerPhase.signals, if_true]
  omega

/-- and finds room for its token while the dispatcher is there. -/
theorem Inv.full (h : Inv s) (hp : s.producer i = .signalling k) (hfull : s.sendReady k = none) :
    Inv (s.goto i (.unscheduling k)) := by
  have hlane : (s.producer i).lane = some k := by rw [hp]; rfl
  have hk := h.lanes k
  have hsignals := signals_pos hp
  have hover : ¬s.writer.mode ≠ .over := by
    intro hlive
    have htoken := hk.token_le hlive
    rw [h.room hlive (h.producer_active i k hlane) (by omega)] at hfull
    exact absurd hfull nofun
  refine h.moves hlane (.inr rfl) ?_ fun hlive => absurd hlive hover
  rw [hp]
  exact ⟨hk.slots, fun hlive => absurd hlive hover⟩

/-- **A producer's step keeps the invariant.** One case for each phase. -/
theorem Inv.stepProducer (h : Inv s) (i : ι) : Inv (stepProducer s i) := by
  unfold Usage.stepProducer
  cases hp : s.producer i with
  | idle => exact h
  | admitting call tenantId event =>
    obtain ⟨hactive, hquiet, hsent⟩ := admit_lane reg call tenantId event
    have hold : (s.producer i).lane = none := by rw [hp]; rfl
    simp only
    split
    · exact h.arrive hold hquiet hactive hsent
    · exact h.arrive hold (fun _ => ⟨rfl, rfl, rfl⟩) nofun nofun
  | refusing drop =>
    have hold : ((s.recordDrop drop).producer i).lane = none := by
      change (s.producer i).lane = none
      rw [hp]
      rfl
    exact (h.recordDrop drop).arrive hold (fun _ => ⟨rfl, rfl, rfl⟩) nofun nofun
  | reserving k queued =>
    have hlane : (s.producer i).lane = some k := by rw [hp]; rfl
    have hk := h.lanes k
    simp only
    split
    · rename_i hroom
      exact h.takeSlot hp hroom
    · refine h.moves hlane (.inl rfl) ?_ fun _ => nofun
      rw [hp]
      exact ⟨hk.slots, hk.token⟩
  | sending k queued =>
    simp only
    split
    · rename_i hroom
      exact h.push hp hroom.1
    · exact h.giveUp hp
  | scheduling k =>
    have hlane : (s.producer i).lane = some k := by rw [hp]; rfl
    have hk := h.lanes k
    simp only
    split
    · refine h.moves hlane (.inl rfl) ?_ fun _ => nofun
      rw [hp]
      exact ⟨hk.slots, hk.token⟩
    · rename_i hflag
      exact h.raise hp hflag
  | signalling k =>
    simp only
    split
    · rename_i s' hsent
      obtain rfl := sendReady_eq hsent
      exact h.signal hp
    · rename_i hfull
      exact h.full hp hfull
  | unscheduling k =>
    have hlane : (s.producer i).lane = some k := by rw [hp]; rfl
    have hk := h.lanes k
    refine h.producer _ hlane (.inl rfl) ?_ id fun _ => nofun
    rw [view_producer, hp]
    exact ⟨hk.slots, fun hlive => absurd hp ((h.sent hlive).1 i k)⟩

omit [Fintype ι] in
/-- Producers leave the dispatcher where it is. -/
theorem stepProducer_writer (s : State ι reg) (i : ι) : (stepProducer s i).writer = s.writer := by
  unfold stepProducer
  cases s.producer i with
  | idle | refusing drop | unscheduling k => rfl
  | signalling k =>
    simp only
    split
    · rename_i s' hsent
      obtain rfl := sendReady_eq hsent
      rfl
    · rfl
  | admitting call tenantId event =>
    simp only
    split <;> rfl
  | reserving k queued =>
    simp only
    split <;> rfl
  | sending k queued =>
    simp only
    split <;> rfl
  | scheduling k =>
    simp only
    split <;> rfl

/-! ## The dispatcher's step -/

omit [Fintype ι] [DecidableEq ι] in
theorem hand_self {w : WriterPhase reg} {hand : Hand} (h : w.turn = some (k, hand)) :
    w.hand k = hand := by
  rw [WriterPhase.hand, h]
  exact if_pos rfl

theorem hand_of_ne {w : WriterPhase reg} {k' : Fin reg.tenantCount} {hand : Hand}
    (h : w.turn = some (k, hand)) (hne : k' ≠ k) : w.hand k' = .away := by
  rw [WriterPhase.hand, h]
  exact if_neg hne.symm

theorem hand_none {w : WriterPhase reg} (h : w.turn = none) (k : Fin reg.tenantCount) :
    w.hand k = .away := by
  rw [WriterPhase.hand, h]

omit [DecidableEq ι] in
/-- The dispatcher moves on at a lane; it may change the lane, and the tokens of it. -/
theorem Inv.served (h : Inv s) {lane : Lane} {ready : List (Fin reg.tenantCount)}
    {w : WriterPhase reg} (hold : ∀ k' ≠ k, s.writer.hand k' = .away)
    (hnew : ∀ k' ≠ k, w.hand k' = .away)
    (hk : Balanced reg w.mode k
      { view s k with lane := lane, tokens := ready.count k, hand := w.hand k })
    (hcount : ∀ k' ≠ k, ready.count k' = s.ready.count k')
    (hready : ∀ k' ∈ ready, reg.active k' = true)
    (hmode : w.mode ≠ .over → s.writer.mode ≠ .over)
    (hactive : ∀ k' hand, w.turn = some (k', hand) → reg.active k' = true)
    (hahead : ∀ k' ∈ w.ahead, reg.active k' = true)
    (hqueue : reg.active k = false → lane.queue = [])
    (hleft : ∀ k', reg.active k' = true → w.left k' →
      (Function.update s.lane k lane k').Shut)
    (hsent : ∀ k', w ≠ .unscheduling k') :
    Inv { s.setLane k lane with ready := ready, writer := w } where
  lanes k' := by
    by_cases heq : k' = k
    · subst heq
      have hview : view { s.setLane k' lane with ready := ready, writer := w } k' =
          { view s k' with lane := lane, tokens := ready.count k', hand := w.hand k' } := by
        unfold view State.setLane
        simp only [Function.update_self]
      rw [hview]
      exact hk
    · have hview : view { s.setLane k lane with ready := ready, writer := w } k' = view s k' := by
        unfold view State.setLane
        simp only [Function.update_of_ne heq, hcount k' heq, hnew k' heq, hold k' heq]
      rw [hview]
      exact ⟨(h.lanes k').slots, fun hlive => (h.lanes k').token (hmode hlive)⟩
  producer_active := h.producer_active
  ready_active := hready
  writer_active := hactive
  ahead_active := hahead
  inactive k' hk' := by
    by_cases heq : k' = k
    · subst heq
      simp only [State.setLane, Function.update_self]
      exact hqueue hk'
    · simp only [State.setLane, Function.update_of_ne heq]
      exact h.inactive k' hk'
  left := hleft
  opened hlive := h.opened (hmode hlive)
  sent hlive := ⟨(h.sent (hmode hlive)).1, hsent⟩

omit [DecidableEq ι] in
/-- The dispatcher moves on between its turns. -/
theorem Inv.rests (h : Inv s) {w : WriterPhase reg} (hold : s.writer.turn = none)
    (hnew : w.turn = none) (hmode : w.mode ≠ .over → s.writer.mode ≠ .over)
    (hahead : ∀ k ∈ w.ahead, reg.active k = true)
    (hleft : ∀ k, reg.active k = true → w.left k → (s.lane k).Shut) :
    Inv { s with writer := w } where
  lanes k := by
    have hview : view { s with writer := w } k = view s k := by
      unfold view
      simp only [hand_none hold, hand_none hnew]
    rw [hview]
    exact ⟨(h.lanes k).slots, fun hlive => (h.lanes k).token (hmode hlive)⟩
  producer_active := h.producer_active
  ready_active := h.ready_active
  writer_active k hand hturn := by
    rw [hnew] at hturn
    exact absurd hturn nofun
  ahead_active := hahead
  inactive := h.inactive
  left := hleft
  opened hlive := h.opened (hmode hlive)
  sent hlive := by
    refine ⟨(h.sent (hmode hlive)).1, ?_⟩
    rintro k rfl
    exact absurd hnew nofun

omit [DecidableEq ι] in
theorem Inv.lane_active (h : Inv s) {w : WriterPhase reg} (hw : s.writer = w) {hand : Hand}
    (hturn : w.turn = some (k, hand)) : reg.active k = true :=
  h.writer_active k hand (hw ▸ hturn)

omit [DecidableEq ι] in
/-- The dispatcher goes from one place to another at the lane of its turn. -/
theorem Inv.serves (h : Inv s) (lane : Lane) (ready : List (Fin reg.tenantCount))
    (w' : WriterPhase reg) (hand' : Hand) {w : WriterPhase reg} {hand : Hand} (hw : s.writer = w)
    (hturn : w.turn = some (k, hand) ∨ w.turn = none ∧ hand = .away) (hlive : w.mode ≠ .over)
    (hactive : reg.active k = true)
    (hturn' : w'.turn = some (k, hand') ∨ w'.turn = none ∧ hand' = .away)
    (hlive' : w'.mode ≠ .over) (hahead : ∀ k' ∈ w'.ahead, reg.active k' = true)
    (hslots : lane.slots + lane.queue.length + hand'.held =
      (s.lane k).slots + (s.lane k).queue.length + hand.held)
    (htoken : (if (s.lane k).scheduled then 1 else 0) + ready.count k + hand'.token =
      (if lane.scheduled then 1 else 0) + s.ready.count k + hand.token)
    (hcount : ∀ k' ≠ k, ready.count k' = s.ready.count k')
    (hready : ∀ k' ∈ ready, k' ∈ s.ready ∨ k' = k) (hsent : ∀ k', w' ≠ .unscheduling k') :
    Inv { s.setLane k lane with ready := ready, writer := w' } := by
  have hhand' : w'.hand k = hand' := by
    rcases hturn' with hturn' | ⟨hturn', rfl⟩
    · exact hand_self hturn'
    · exact hand_none hturn' k
  have hhand : (view s k).hand = hand := by
    change s.writer.hand k = hand
    rw [hw]
    rcases hturn with hturn | ⟨hturn, rfl⟩
    · exact hand_self hturn
    · exact hand_none hturn k
  have hk := h.lanes k
  refine h.served (fun k' hne => ?_) (fun k' hne => ?_) ?_ hcount (fun k' hmem => ?_)
    (fun _ => hw ▸ hlive) (fun k' hand₀ hturn₀ => ?_) hahead (fun hno => ?_)
    (fun k' _ hgone => ?_) hsent
  · rw [hw]
    rcases hturn with hturn | ⟨hturn, -⟩
    · exact hand_of_ne hturn hne
    · exact hand_none hturn k'
  · rcases hturn' with hturn' | ⟨hturn', -⟩
    · exact hand_of_ne hturn' hne
    · exact hand_none hturn' k'
  · rw [hhand']
    refine ⟨?_, fun _ => ?_⟩
    · have hold := hk.slots
      rw [hhand] at hold
      simp only [view_lane] at hold ⊢
      omega
    · have hold := hk.token (hw ▸ hlive)
      rw [hhand] at hold
      change s.ready.count k + hand.token + (view s k).signals =
        (if (s.lane k).scheduled then 1 else 0) at hold
      change ready.count k + hand'.token + (view s k).signals = (if lane.scheduled then 1 else 0)
      omega
  · rcases hready k' hmem with hmem | rfl
    · exact h.ready_active k' hmem
    · exact hactive
  · rcases hturn' with hturn' | ⟨hturn', -⟩
    · rw [hturn'] at hturn₀
      obtain ⟨rfl, -⟩ := Prod.mk.inj (Option.some.inj hturn₀)
      exact hactive
    · rw [hturn'] at hturn₀
      exact absurd hturn₀ nofun
  · rw [hactive] at hno
    exact absurd hno nofun
  · cases w' with
    | leaving rest => exact absurd rfl hlive'
    | done => exact absurd rfl hlive'
    | _ => exact hgone.elim

omit [DecidableEq ι] in
/-- While the dispatcher has the token the flag is set. -/
theorem Inv.flag_of_token (h : Inv s) {w : WriterPhase reg} {hand : Hand} (hw : s.writer = w)
    (hturn : w.turn = some (k, hand)) (hlive : w.mode ≠ .over) (hhand : hand.token = 1) :
    (s.lane k).scheduled = true := by
  have htoken := (h.lanes k).token (hw ▸ hlive)
  have hsame : (view s k).hand = hand := by
    change s.writer.hand k = hand
    rw [hw]
    exact hand_self hturn
  rw [hsame, hhand] at htoken
  by_contra hno
  rw [view_lane, if_neg hno] at htoken
  omega

omit [DecidableEq ι] in
/-- The dispatcher clears a flag, whose token it has. -/
theorem Inv.cleared (h : Inv s) {w w' : WriterPhase reg} {hand : Hand} (hw : s.writer = w)
    (hturn : w.turn = some (k, hand)) (hlive : w.mode ≠ .over) (hhand : hand.token = 1)
    (hheld : hand.held = 0) (hturn' : w' = .waiting ∨ w' = .rechecking k)
    (hsent : ∀ k', w' ≠ .unscheduling k') :
    Inv { s.setLane k { s.lane k with scheduled := false } with writer := w' } := by
  have hactive := h.lane_active hw hturn
  have hflag := h.flag_of_token hw hturn hlive hhand
  have htoken : (if (s.lane k).scheduled then 1 else 0) + s.ready.count k + 0 =
      0 + s.ready.count k + hand.token := by
    rw [if_pos hflag, hhand]
    omega
  have hslots : (s.lane k).slots + (s.lane k).queue.length + 0 =
      (s.lane k).slots + (s.lane k).queue.length + hand.held := by rw [hheld]
  rcases hturn' with rfl | rfl
  · exact h.serves _ s.ready _ .away hw (.inl hturn) hlive hactive
      (.inr ⟨rfl, rfl⟩) nofun nofun hslots htoken (fun _ _ => rfl) (fun _ => .inl) hsent
  · exact h.serves _ s.ready _ .rechecking hw (.inl hturn) hlive hactive
      (.inl rfl) nofun nofun hslots htoken (fun _ _ => rfl) (fun _ => .inl) hsent

omit [DecidableEq ι] in
/-- The dispatcher moves on at a lane, and leaves the lane as it is. -/
theorem Inv.turns (h : Inv s) (hand' : Hand) {w w' : WriterPhase reg} {hand : Hand}
    (hw : s.writer = w)
    (hturn : w.turn = some (k, hand)) (hlive : w.mode ≠ .over)
    (hturn' : w'.turn = some (k, hand') ∨ w'.turn = none ∧ hand' = .away)
    (hlive' : w'.mode ≠ .over) (hahead : ∀ k' ∈ w'.ahead, reg.active k' = true)
    (hheld : hand'.held = hand.held)
    (htoken : hand'.token = hand.token) (hsent : ∀ k', w' ≠ .unscheduling k') :
    Inv { s with writer := w' } := by
  have hsame := h.serves (s.lane k) s.ready w' hand' hw (.inl hturn) hlive
    (h.lane_active hw hturn) hturn' hlive' hahead (by rw [hheld]) (by rw [htoken]) (fun _ _ => rfl)
    (fun _ => .inl) hsent
  rw [setLane_self] at hsame
  exact hsame

omit [DecidableEq ι] in
/-- The receiver of a lane is dropped, bit by bit. -/
theorem Inv.leaves (h : Inv s) (lane : Lane) {rest : List (Fin reg.tenantCount)}
    (hw : s.writer = .leaving (k :: rest))
    (hslots : lane.slots + lane.queue.length = (s.lane k).slots + (s.lane k).queue.length) :
    Inv { s.setLane k lane with ready := s.ready, writer := .leaving (k :: rest) } := by
  have hahead := h.ahead_active
  have hleft := h.left
  rw [hw] at hahead hleft
  have haway : ∀ k', s.writer.hand k' = .away := by
    rw [hw]
    exact hand_none rfl
  have hnew : (WriterPhase.leaving (k :: rest)).hand k = .away := hand_none rfl k
  have hk : Balanced reg .over k
      { view s k with lane := lane, tokens := s.ready.count k, hand := .away } := by
    refine ⟨?_, fun hlive => absurd rfl hlive⟩
    have hold := (h.lanes k).slots
    have hhand : (view s k).hand = .away := haway k
    rw [hhand] at hold
    simp only [view_lane] at hold ⊢
    omega
  have hover : (WriterPhase.leaving (k :: rest)).mode = .over := rfl
  refine h.served (fun k' _ => haway k') (fun k' _ => hand_none rfl k') (by rw [hnew]; exact hk)
    (fun _ _ => rfl) h.ready_active (fun hlive => absurd hover hlive)
    (fun _ _ hturn => absurd hturn (by rw [WriterPhase.turn]; nofun)) hahead (fun hno => ?_)
    (fun k' hk' hgone => ?_) (fun _ => by simp)
  · rw [hahead k List.mem_cons_self] at hno
    exact absurd hno nofun
  · have hne : k' ≠ k := by
      rintro rfl
      exact hgone List.mem_cons_self
    rw [Function.update_of_ne hne]
    exact hleft k' hk' hgone

theorem writerLanes_active {k : Fin reg.tenantCount} (h : k ∈ reg.writerLanes) :
    reg.active k = true := (List.mem_filter.1 h).2

omit [DecidableEq ι] in
theorem Inv.stepWriter (h : Inv s) : Inv (stepWriter s) := by
  unfold Usage.stepWriter
  cases hw : s.writer with
  | waiting =>
    cases hready : s.ready with
    | nil => exact h
    | cons k rest =>
      have hactive : reg.active k = true := h.ready_active k (hready ▸ List.mem_cons_self)
      have htake := h.serves (s.lane k) rest (.taking k) .taking hw
        (.inr ⟨rfl, rfl⟩) nofun hactive (.inl rfl) nofun nofun rfl ?_ (fun k' hne => ?_)
        (fun k' hmem => ?_) nofun
      · rw [setLane_self] at htake
        exact htake
      · rw [hready, List.count_cons_self]
        simp only [Hand.token]
        omega
      · rw [hready, List.count_cons_of_ne hne.symm]
      · exact .inl (hready ▸ List.mem_cons_of_mem k hmem)
  | taking k =>
    have hactive := h.lane_active hw rfl
    simp only
    split
    · exact h.turns .stale hw rfl nofun (.inl rfl) nofun nofun rfl rfl nofun
    · rename_i queued rest hqueue
      refine h.serves _ s.ready _ (.holding queued true) hw (.inl rfl) nofun hactive
        (.inl rfl) nofun nofun ?_ rfl (fun _ _ => rfl) (fun _ => .inl) nofun
      simp only [hqueue, List.length_cons, Hand.held]
      omega
  | stale k => exact h.cleared hw rfl nofun rfl rfl (.inl rfl) nofun
  | dispatching k queued turn =>
    have hnext : Inv { s with writer := .retaining k queued s.sequence turn } := by
      have hahead := h.ahead_active
      rw [hw] at hahead
      cases turn with
      | token =>
        exact h.turns (.holding queued true) hw rfl nofun (.inl rfl) nofun nofun rfl rfl nofun
      | drain rest =>
        exact h.turns (.holding queued false) hw rfl nofun (.inl rfl) nofun hahead rfl rfl
          nofun
    exact hnext.of_same rfl rfl rfl rfl rfl
  | retaining k queued sequence turn =>
    have hactive := h.lane_active hw rfl
    have hahead := h.ahead_active
    rw [hw] at hahead
    -- what is in the ring does not matter, its slot is free
    have hslots : (s.lane k).slots + 1 + (s.lane k).queue.length + 0 =
        (s.lane k).slots + (s.lane k).queue.length + 1 := by omega
    cases turn with
    | token =>
      have hnext := h.serves
        ((s.lane k).retain (reg.usageShare k) ⟨sequence, queued.call, queued.event⟩)
        s.ready (.clearing k) .clearing hw (.inl rfl) nofun hactive
        (.inl rfl) nofun nofun hslots rfl (fun _ _ => rfl) (fun _ => .inl) nofun
      exact hnext.of_same rfl rfl rfl rfl rfl
    | drain rest =>
      have hnext := h.serves
        ((s.lane k).retain (reg.usageShare k) ⟨sequence, queued.call, queued.event⟩)
        s.ready (.yielding rest) .away hw (.inl rfl) nofun hactive
        (.inr ⟨rfl, rfl⟩) nofun hahead hslots rfl (fun _ _ => rfl) (fun _ => .inl) nofun
      exact hnext.of_same rfl rfl rfl rfl rfl
  | clearing k => exact h.cleared hw rfl nofun rfl rfl (.inr rfl) nofun
  | rechecking k =>
    simp only
    split
    · exact h.turns .away hw rfl nofun (.inr ⟨rfl, rfl⟩) nofun nofun rfl rfl nofun
    · exact h.turns .rescheduling hw rfl nofun (.inl rfl) nofun nofun rfl rfl nofun
  | rescheduling k =>
    simp only
    split
    · exact h.turns .away hw rfl nofun (.inr ⟨rfl, rfl⟩) nofun nofun rfl rfl nofun
    · rename_i hflag
      refine h.serves _ s.ready _ .signalling hw (.inl rfl) nofun
        (h.lane_active hw rfl) (.inl rfl) nofun nofun rfl ?_ (fun _ _ => rfl) (fun _ => .inl) nofun
      rw [if_neg hflag]
      simp only [if_true, Hand.token]
      omega
  | signalling k =>
    have hactive := h.lane_active hw rfl
    have hlive : s.writer.mode ≠ .over := by rw [hw]; nofun
    have htoken := (h.lanes k).token_le hlive
    have hhand : (view s k).hand.token = 1 := by
      change (s.writer.hand k).token = 1
      rw [hw, hand_self rfl]
      rfl
    simp only [h.room hlive hactive (by omega)]
    have hsend := h.serves (s.lane k) (s.ready ++ [k]) .waiting .away hw (.inl rfl) nofun hactive
      (.inr ⟨rfl, rfl⟩) nofun nofun rfl ?_
      (fun k' hne => ?_) (fun k' hmem => ?_) nofun
    · rw [setLane_self] at hsend
      exact hsend
    · rw [List.count_append, List.count_singleton_self]
      simp only [Hand.token]
      omega
    · rw [List.count_append, List.count_singleton, if_neg (by simpa using hne.symm), Nat.add_zero]
    · exact (List.mem_append.1 hmem).imp_right List.mem_singleton.1
  | unscheduling k => exact absurd hw ((h.sent (by rw [hw]; nofun)).2 k)
  | closing rest =>
    have hahead := h.ahead_active
    rw [hw] at hahead
    cases rest with
    | nil =>
      refine h.rests (by rw [hw]; rfl) rfl (fun _ => by rw [hw]; nofun) (fun k => writerLanes_active)
        fun _ _ hgone => hgone.elim
    | cons k rest =>
      exact h.serves _ s.ready _ .away hw (.inr ⟨rfl, rfl⟩) nofun
        (hahead k List.mem_cons_self) (.inr ⟨rfl, rfl⟩) nofun
        (fun k' hk' => hahead k' (List.mem_cons_of_mem k hk')) rfl rfl (fun _ _ => rfl)
        (fun _ => .inl) nofun
  | draining rest progressed =>
    have hahead := h.ahead_active
    rw [hw] at hahead
    cases rest with
    | nil =>
      simp only
      cases progressed with
      | true =>
        exact h.rests (by rw [hw]; rfl) rfl (fun _ => by rw [hw]; nofun)
          (fun k => writerLanes_active) fun _ _ hgone => hgone.elim
      | false =>
        refine h.rests (by rw [hw]; rfl) rfl (fun _ => by rw [hw]; nofun)
          (fun k => writerLanes_active) fun k hactive hgone => ?_
        exact absurd (List.mem_filter.2 ⟨List.mem_finRange k, hactive⟩) hgone
    | cons k rest =>
      have hrest : ∀ k' ∈ rest, reg.active k' = true :=
        fun k' hk' => hahead k' (List.mem_cons_of_mem k hk')
      simp only
      split
      · exact h.rests (by rw [hw]; rfl) rfl (fun _ => by rw [hw]; nofun) hrest
          fun _ _ hgone => hgone.elim
      · rename_i queued queue hqueue
        refine h.serves _ s.ready _ (.holding queued false) hw (.inr ⟨rfl, rfl⟩) nofun
          (hahead k List.mem_cons_self) (.inl rfl) nofun hrest ?_ rfl (fun _ _ => rfl)
          (fun _ => .inl) nofun
        simp only [hqueue, List.length_cons, Hand.held]
        omega
  | yielding rest =>
    have hahead := h.ahead_active
    rw [hw] at hahead
    exact h.rests (by rw [hw]; rfl) rfl (fun _ => by rw [hw]; nofun) hahead
      fun _ _ hgone => hgone.elim
  | leaving rest =>
    have hahead := h.ahead_active
    have hleft := h.left
    rw [hw] at hahead hleft
    cases rest with
    | nil =>
      constructor
      · intro k
        have hhand : (view s k).hand = .away := by
          change s.writer.hand k = .away
          rw [hw]
          rfl
        have hslots := (h.lanes k).slots
        rw [hhand] at hslots
        exact ⟨hslots, fun hlive => absurd rfl hlive⟩
      · exact h.producer_active
      · exact fun _ hmem => absurd hmem List.not_mem_nil
      · exact fun _ _ hturn => absurd hturn nofun
      · exact fun _ hmem => absurd hmem List.not_mem_nil
      · exact h.inactive
      · exact fun k hactive _ => hleft k hactive List.not_mem_nil
      · exact fun hlive => absurd rfl hlive
      · exact fun hlive => absurd rfl hlive
    | cons k rest =>
      have hactive := hahead k List.mem_cons_self
      simp only
      split
      · rename_i hclosed
        split
        · rename_i hqueue
          refine h.rests (by rw [hw]; rfl) rfl (fun hlive => absurd rfl hlive)
            (fun k' hk' => hahead k' (List.mem_cons_of_mem k hk')) fun k' hk' hgone => ?_
          by_cases heq : k' = k
          · subst heq
            exact ⟨hclosed, hqueue⟩
          · exact hleft k' hk' fun hmem => (List.mem_cons.1 hmem).elim heq hgone
        · rename_i queued queue hqueue
          have hpop := h.leaves { s.lane k with
            queue := queue, slots := (s.lane k).slots + 1 } hw ?_
          · refine hpop.of_same ?_ rfl rfl rfl hw
            simp only [State.abandon, State.setLane, State.recordDrop, Function.update_self,
              Function.update_idem]
          · simp only [hqueue, List.length_cons]
            omega
      · have hclose := h.leaves { s.lane k with closed := true } hw rfl
        exact hclose.of_same rfl rfl rfl rfl hw
  | done => exact h

omit [DecidableEq ι] in
theorem Inv.abort (h : Inv s) : Inv (abortWriter s) := by
  have hnone : ∀ k, reg.active k = true → (WriterPhase.leaving reg.writerLanes).left k → False :=
    fun k hactive hgone => hgone (List.mem_filter.2 ⟨List.mem_finRange k, hactive⟩)
  have hover : (WriterPhase.leaving reg.writerLanes).mode = .over := rfl
  have hrest : s.writer.turn = none → Inv { s with writer := .leaving reg.writerLanes } := by
    intro hturn
    exact h.rests hturn rfl (fun hlive => absurd hover hlive) (fun _ => writerLanes_active)
      fun k hactive hgone => (hnone k hactive hgone).elim
  unfold abortWriter
  cases hw : s.writer with
  | waiting => exact hrest (by rw [hw]; rfl)
  | yielding rest => exact hrest (by rw [hw]; rfl)
  | retaining k queued sequence turn =>
    have hactive := h.lane_active hw rfl
    have hk : Balanced reg .over k
        { view s k with
          lane := { s.lane k with slots := (s.lane k).slots + 1 }
          tokens := s.ready.count k
          hand := .away } := by
      refine ⟨?_, fun hlive => absurd rfl hlive⟩
      have hold := (h.lanes k).slots
      have hhand : (view s k).hand = .holding queued turn.isToken := by
        change s.writer.hand k = _
        rw [hw]
        exact hand_self rfl
      rw [hhand] at hold
      simp only [view_lane, Hand.held] at hold ⊢
      omega
    have hdrop := h.served (w := .leaving reg.writerLanes) (fun k' hne => by
        rw [hw]; exact hand_of_ne rfl hne) (fun k' _ => hand_none rfl k')
      (by rw [hand_none rfl k]; exact hk) (fun _ _ => rfl) h.ready_active
      (fun hlive => absurd hover hlive)
      (fun _ _ hturn => absurd hturn (by rw [WriterPhase.turn]; nofun))
      (fun _ => writerLanes_active)
      (fun hno => absurd (hno.symm.trans hactive) nofun)
      (fun k' hk' hgone => (hnone k' hk' hgone).elim) (fun _ => by simp)
    exact hdrop.of_same rfl rfl rfl rfl rfl
  | _ => exact h

/-- **Every event keeps the invariant.** -/
theorem Inv.apply (h : Inv s) (e : Event ι) : Inv (apply s e) := by
  cases e with
  | record i tenantId event =>
    simp only [Usage.apply]
    split
    · rename_i hp
      have hnext : Inv (s.goto i (.admitting s.calls tenantId event)) :=
        h.arrive (by rw [hp]; rfl) (fun _ => ⟨rfl, rfl, rfl⟩) nofun nofun
      exact hnext.of_same rfl rfl rfl rfl rfl
    · exact h
  | step i => exact h.stepProducer i
  | write => exact h.stepWriter
  | notice =>
    simp only [Usage.apply]
    split
    · rename_i hw _
      exact h.rests (by rw [hw]; rfl) rfl (fun _ => by rw [hw]; nofun)
        (fun _ => writerLanes_active) fun _ _ hgone => hgone.elim
    · exact h
  | shutdown =>
    simp only [Usage.apply]
    split
    · exact h.of_same rfl rfl rfl rfl rfl
    · exact h.of_same rfl rfl rfl rfl rfl
  | abort =>
    simp only [Usage.apply]
    split
    · exact h.abort
    · exact h

end

end Routeplane.Usage
