import Routeplane.Proof.UsageBooks

/-!
# The usage lanes keep tenants apart

* `Owned`: in a tenant's lane and ring are its own events, and the reason of a drop is about its
  tenant.
* `Isolated`: a step is a matter of one tenant, and leaves the lanes and drops of the others.
-/

namespace Routeplane.Usage

variable {reg : Registry} {ι : Type*} [DecidableEq ι] {s : State ι reg} {i : ι}
  {k : Fin reg.tenantCount}

/-! ## Whose event it is -/

/-- The reason of a drop is about its tenant. -/
def Drop.Justified (reg : Registry) (drop : Drop) : Prop :=
  match drop.reason with
  | .unregisteredTenant => drop.tenantId.bind reg.tenantIndex = none
  | .zeroShare => ∃ k, drop.tenantId = some (reg.tenantId k) ∧ reg.active k = false
  | .full => ∃ k, drop.tenantId = some (reg.tenantId k) ∧ reg.active k = true
  | .closed => True

/-- Its event is its tenant's, and so is the reason it refuses it for. -/
def ProducerPhase.Proper : ProducerPhase reg → Prop
  | refusing drop => drop.Justified reg
  | reserving k queued | sending k queued =>
    reg.active k = true ∧ queued.event.tenantId = reg.tenantId k
  | _ => True

/-- In a tenant's lane and ring are its own events. -/
structure Owned (s : State ι reg) : Prop where
  producers : ∀ i, (s.producer i).Proper
  queues : ∀ k, ∀ queued ∈ (s.lane k).queue, queued.event.tenantId = reg.tenantId k
  hand : ∀ k queued token, s.writer.turn = some (k, .holding queued token) →
    queued.event.tenantId = reg.tenantId k
  histories : ∀ k, ∀ stored ∈ (s.lane k).history, stored.event.tenantId = reg.tenantId k
  drops : ∀ drop ∈ s.dropped, drop.Justified reg

theorem tenantId_of_tenantIndex {t : String} {k : Fin reg.tenantCount}
    (h : reg.tenantIndex t = some k) : reg.tenantId k = t :=
  (List.finIdxOf?_eq_some_iff.1 h).1

theorem admit_proper (reg : Registry) (call : ℕ) (tenantId : Option String) (event : UsageEvent) :
    (admitEvent reg call tenantId event).Proper ∧
      (admitEvent reg call tenantId event).caller = some tenantId := by
  unfold admitEvent
  cases tenantId with
  | none => exact ⟨rfl, rfl⟩
  | some t =>
    simp only
    split
    · rename_i hindex
      exact ⟨hindex, rfl⟩
    · rename_i k hindex
      have ht := tenantId_of_tenantIndex hindex
      split
      · rename_i hactive
        exact ⟨⟨hactive, ht.symm⟩, congrArg (fun t => some (some t)) ht⟩
      · rename_i hinactive
        exact ⟨⟨k, congrArg some ht.symm, by simpa using hinactive⟩, rfl⟩

/-- A producer stays in its tenant's call until it is done. -/
theorem stepProducer_phase (s : State ι reg) (i : ι) (h : (s.producer i).Proper) :
    ∃ phase, (stepProducer s i).producer = Function.update s.producer i phase ∧
      phase.Proper ∧ (phase = .idle ∨ phase.caller = (s.producer i).caller) := by
  unfold stepProducer
  cases hp : s.producer i with
  | idle =>
    have hsame : Function.update s.producer i .idle = s.producer := by
      rw [← hp, Function.update_eq_self]
    exact ⟨.idle, hsame.symm, trivial, .inl rfl⟩
  | admitting call tenantId event =>
    simp only
    split
    · exact ⟨_, rfl, (admit_proper reg call tenantId event).1,
        .inr (admit_proper reg call tenantId event).2⟩
    · exact ⟨_, rfl, trivial, .inr rfl⟩
  | refusing drop => exact ⟨_, rfl, trivial, .inl rfl⟩
  | reserving k queued =>
    rw [hp] at h
    simp only
    split
    · exact ⟨_, rfl, h, .inr rfl⟩
    · exact ⟨_, rfl, ⟨k, rfl, h.1⟩, .inr rfl⟩
  | sending k queued =>
    simp only
    split
    · exact ⟨_, rfl, trivial, .inr rfl⟩
    · exact ⟨_, rfl, trivial, .inl rfl⟩
  | scheduling k =>
    simp only
    split
    · exact ⟨_, rfl, trivial, .inl rfl⟩
    · exact ⟨_, rfl, trivial, .inr rfl⟩
  | signalling k =>
    simp only
    split
    · rename_i s' hsent
      obtain rfl := sendReady_eq hsent
      exact ⟨_, rfl, trivial, .inl rfl⟩
    · exact ⟨_, rfl, trivial, .inr rfl⟩
  | unscheduling k => exact ⟨_, rfl, trivial, .inl rfl⟩

omit [DecidableEq ι] in
/-- What the dispatcher has in hand it has taken from the lane. -/
theorem stepWriter_hand {queued : QueuedUsage} {token : Bool}
    (h : (stepWriter s).writer.turn = some (k, .holding queued token)) :
    s.writer.turn = some (k, .holding queued token) ∨ queued ∈ (s.lane k).queue := by
  have htaken : ∀ {k' : Fin reg.tenantCount} {queued' : QueuedUsage} {token' : Bool}
      {rest : List QueuedUsage}, (s.lane k').queue = queued' :: rest →
      some (k', Hand.holding queued' token') = some (k, .holding queued token) →
      queued ∈ (s.lane k).queue := by
    intro k' queued' token' rest hqueue hsome
    obtain ⟨rfl, hhand⟩ := Prod.mk.inj (Option.some.inj hsome)
    obtain ⟨rfl, -⟩ := Hand.holding.inj hhand
    exact hqueue ▸ List.mem_cons_self
  unfold stepWriter at h
  cases hw : s.writer with
  | waiting =>
    rw [hw] at h
    simp only at h
    split at h
    · rw [hw] at h
      exact absurd h nofun
    · exact absurd h nofun
  | taking k' =>
    rw [hw] at h
    simp only at h
    split at h
    · exact absurd h nofun
    · rename_i queued' rest hqueue
      exact .inr (htaken hqueue h)
  | dispatching k' queued' turn =>
    rw [hw] at h
    exact .inl h
  | retaining k' queued' sequence turn =>
    rw [hw] at h
    cases turn with
    | token => exact absurd h nofun
    | drain rest => exact absurd h nofun
  | stale k' | clearing k' | unscheduling k' | yielding rest =>
    rw [hw] at h
    exact absurd h nofun
  | rechecking k' | rescheduling k' =>
    rw [hw] at h
    simp only at h
    split at h <;> exact absurd h nofun
  | signalling k' =>
    rw [hw] at h
    simp only at h
    split at h
    · exact absurd h nofun
    · exact absurd h nofun
  | closing rest =>
    rw [hw] at h
    cases rest with
    | nil => exact absurd h nofun
    | cons k' rest => exact absurd h nofun
  | draining rest progressed =>
    rw [hw] at h
    cases rest with
    | nil =>
      simp only at h
      split at h <;> exact absurd h nofun
    | cons k' rest =>
      simp only at h
      split at h
      · exact absurd h nofun
      · rename_i queued' queue hqueue
        exact .inr (htaken hqueue h)
  | leaving rest =>
    rw [hw] at h
    cases rest with
    | nil => exact absurd h nofun
    | cons k' rest =>
      simp only at h
      split at h
      · split at h
        · exact absurd h nofun
        · change s.writer.turn = _ at h
          rw [hw] at h
          exact absurd h nofun
      · change s.writer.turn = _ at h
        rw [hw] at h
        exact absurd h nofun
  | done =>
    rw [hw] at h
    simp only at h
    rw [hw] at h
    exact absurd h nofun

omit [DecidableEq ι] in
theorem owned_start : Owned (start ι reg) where
  producers _ := trivial
  queues _ _ h := absurd h List.not_mem_nil
  hand _ _ _ h := absurd h nofun
  histories _ _ h := absurd h List.not_mem_nil
  drops _ h := absurd h List.not_mem_nil

omit [DecidableEq ι] in
theorem Owned.drops_of_drop (h : Owned s) {b : Books reg} {drop : Drop}
    (hdrop : drop.Justified reg) (hbooks : b = s.books.drop drop) :
    ∀ d ∈ b.dropped, d.Justified reg := by
  intro d hd
  rw [hbooks] at hd
  rcases List.mem_append.1 hd with hold | hnew
  · exact h.drops d hold
  · rw [List.mem_singleton.1 hnew]
    exact hdrop

theorem justified_closed (call : ℕ) (tenantId : Option String) :
    (Drop.mk call tenantId .closed).Justified reg := trivial

theorem Owned.stepProducer (h : Owned s) (i : ι) : Owned (stepProducer s i) where
  producers j := by
    obtain ⟨phase, hproducer, hproper, -⟩ := stepProducer_phase s i (h.producers i)
    rw [hproducer]
    by_cases hji : j = i
    · rw [hji, Function.update_self]
      exact hproper
    · rw [Function.update_of_ne hji]
      exact h.producers j
  queues k queued hqueued := by
    rcases stepProducer_lane s i k with hsame | ⟨-, hsame | ⟨put, hp, hput⟩⟩
    · exact h.queues k queued (hsame ▸ hqueued)
    · exact h.queues k queued (hsame ▸ hqueued)
    · rw [hput] at hqueued
      rcases List.mem_append.1 hqueued with hold | hnew
      · exact h.queues k queued hold
      · rw [List.mem_singleton.1 hnew]
        have hproper := h.producers i
        rw [hp] at hproper
        exact hproper.2
  hand k queued token hturn := by
    rw [stepProducer_writer] at hturn
    exact h.hand k queued token hturn
  histories k stored hstored := by
    change stored ∈ (Usage.stepProducer s i).books.history k at hstored
    rcases stepProducer_books s i with hbooks | ⟨_, -, -, hbooks⟩
    · rw [hbooks] at hstored
      exact h.histories k stored hstored
    · rw [hbooks] at hstored
      exact h.histories k stored hstored
  drops := by
    change ∀ drop ∈ (Usage.stepProducer s i).books.dropped, drop.Justified reg
    rcases stepProducer_books s i with hbooks | ⟨drop, hreason, -, hbooks⟩
    · rw [hbooks]
      exact h.drops
    · refine h.drops_of_drop ?_ hbooks
      rcases hreason with hclosed | hp
      · unfold Drop.Justified
        rw [hclosed]
        trivial
      · have hproper := h.producers i
        rw [hp] at hproper
        exact hproper

omit [DecidableEq ι] in
theorem stepWriter_producer (s : State ι reg) : (stepWriter s).producer = s.producer := by
  unfold stepWriter
  cases s.writer with
  | waiting =>
    cases s.ready <;> rfl
  | taking k | rechecking k | rescheduling k =>
    simp only
    split <;> rfl
  | signalling k =>
    simp only
    split
    · rename_i s' hsent
      obtain rfl := sendReady_eq hsent
      rfl
    · rfl
  | closing rest =>
    cases rest <;> rfl
  | draining rest progressed =>
    cases rest with
    | nil => rfl
    | cons k rest =>
      simp only
      split <;> rfl
  | leaving rest =>
    cases rest with
    | nil => rfl
    | cons k rest =>
      simp only
      split
      · split <;> rfl
      · rfl
  | _ => rfl

omit [DecidableEq ι] in
theorem Owned.stepWriter (h : Owned s) : Owned (stepWriter s) where
  producers := by
    rw [stepWriter_producer]
    exact h.producers
  queues k queued hqueued := by
    rcases stepWriter_lane s k with hsame | ⟨-, hsuffix⟩
    · exact h.queues k queued (hsame ▸ hqueued)
    · exact h.queues k queued (hsuffix.subset hqueued)
  hand k queued token hturn := by
    rcases stepWriter_hand hturn with hold | hqueued
    · exact h.hand k queued token hold
    · exact h.queues k queued hqueued
  histories k stored hstored := by
    change stored ∈ (Usage.stepWriter s).books.history k at hstored
    rcases stepWriter_books s with
      hbooks | ⟨_, _, -, hbooks⟩ | ⟨k', queued, sequence, turn, hw, hbooks⟩
    · rw [hbooks] at hstored
      exact h.histories k stored hstored
    · rw [hbooks] at hstored
      exact h.histories k stored hstored
    · rw [hbooks] at hstored
      by_cases heq : k = k'
      · subst heq
        simp only [Books.retain, Function.update_self] at hstored
        rcases List.mem_append.1 hstored with hold | hnew
        · exact h.histories k stored hold
        · rw [List.mem_singleton.1 hnew]
          exact h.hand k queued turn.isToken (by rw [hw]; rfl)
      · simp only [Books.retain, Function.update_of_ne heq] at hstored
        exact h.histories k stored hstored
  drops := by
    change ∀ drop ∈ (Usage.stepWriter s).books.dropped, drop.Justified reg
    rcases stepWriter_books s with hbooks | ⟨k, queued, -, hbooks⟩ | ⟨_, _, _, _, -, hbooks⟩
    · rw [hbooks]
      exact h.drops
    · exact h.drops_of_drop (justified_closed _ _) hbooks
    · rw [hbooks]
      exact h.drops

omit [DecidableEq ι] in
theorem Owned.abortWriter (h : Owned s) : Owned (abortWriter s) where
  producers := by
    have hproducer : (Usage.abortWriter s).producer = s.producer := by
      unfold Usage.abortWriter
      split <;> rfl
    rw [hproducer]
    exact h.producers
  queues k queued hqueued := by
    rcases abortWriter_lane s k with hsame | ⟨-, hsame⟩
    · exact h.queues k queued (hsame ▸ hqueued)
    · exact h.queues k queued (hsame ▸ hqueued)
  hand k queued token hturn := by
    unfold Usage.abortWriter at hturn
    split at hturn
    · exact absurd hturn nofun
    · exact absurd hturn nofun
    · exact absurd hturn nofun
    · exact h.hand k queued token hturn
  histories k stored hstored := by
    change stored ∈ (Usage.abortWriter s).books.history k at hstored
    rcases abortWriter_books s with hbooks | ⟨_, _, -, hbooks⟩
    · rw [hbooks] at hstored
      exact h.histories k stored hstored
    · rw [hbooks] at hstored
      exact h.histories k stored hstored
  drops := by
    change ∀ drop ∈ (Usage.abortWriter s).books.dropped, drop.Justified reg
    rcases abortWriter_books s with hbooks | ⟨k, queued, -, hbooks⟩
    · rw [hbooks]
      exact h.drops
    · exact h.drops_of_drop (justified_closed _ _) hbooks

theorem Owned.apply (h : Owned s) (e : Event ι) : Owned (apply s e) := by
  cases e with
  | record i tenantId event =>
    simp only [Usage.apply]
    split
    · refine ⟨fun j => ?_, h.queues, h.hand, h.histories, h.drops⟩
      by_cases hji : j = i
      · simp only [State.goto, hji, Function.update_self]
        trivial
      · simp only [State.goto, Function.update_of_ne hji]
        exact h.producers j
    · exact h
  | step i => exact h.stepProducer i
  | write => exact h.stepWriter
  | notice =>
    simp only [Usage.apply]
    split
    · exact ⟨h.producers, h.queues, fun _ _ _ hturn => (by cases hturn), h.histories, h.drops⟩
    · exact h
  | shutdown =>
    simp only [Usage.apply]
    split
    · exact ⟨h.producers, h.queues, h.hand, h.histories, h.drops⟩
    · exact ⟨h.producers, h.queues, h.hand, h.histories, h.drops⟩
  | abort =>
    simp only [Usage.apply]
    split
    · exact h.abortWriter
    · exact h

/-! ## Tenants do not see each other -/

/-- Whose call an event of the run is part of, or whose lane the dispatcher is at. -/
def State.actor (s : State ι reg) : Event ι → Option (Option String)
  | .record _ tenantId _ => some tenantId
  | .step i => (s.producer i).caller
  | .write | .abort => s.writer.lane.map fun k => some (reg.tenantId k)
  | .notice | .shutdown => none

/-- The event whose dispatch the dispatcher's next step finishes, in its tenant's lane. -/
def WriterPhase.dispatched (k : Fin reg.tenantCount) : WriterPhase reg → List StoredUsage
  | retaining k' queued sequence _ =>
    if k' = k then [⟨sequence, queued.call, queued.event⟩] else []
  | _ => []

def State.dispatched (s : State ι reg) (e : Event ι) (k : Fin reg.tenantCount) : List StoredUsage :=
  match e with
  | .write => s.writer.dispatched k
  | _ => []

/-- An event of the run changes the lane and the drops of its tenant only, and the history of a
ring by the event that is dispatched. -/
structure Isolated (s : State ι reg) (e : Event ι) : Prop where
  callers : ∀ i, (apply s e).producer i = s.producer i ∨ (apply s e).producer i = .idle ∨
    ((apply s e).producer i).caller = s.actor e
  lanes : ∀ k, s.actor e ≠ some (some (reg.tenantId k)) → (apply s e).lane k = s.lane k
  drops : ∀ tenantId, s.actor e ≠ some tenantId →
    (apply s e).dropped.filter (fun drop => drop.tenantId = tenantId) =
      s.dropped.filter fun drop => drop.tenantId = tenantId
  histories : ∀ k, ((apply s e).lane k).history = (s.lane k).history ++ s.dispatched e k

omit [DecidableEq ι] in
theorem caller_of_lane {phase : ProducerPhase reg} (h : phase.lane = some k) :
    phase.caller = some (some (reg.tenantId k)) := by
  cases phase with
  | idle | admitting _ _ _ | refusing _ => exact absurd h nofun
  | reserving k' _ | sending k' _ | scheduling k' | signalling k' | unscheduling k' =>
    exact congrArg (fun k => some (some (reg.tenantId k))) (Option.some.inj h)

omit [DecidableEq ι] in
/-- A drop of another tenant does not count. -/
theorem filter_drop {b : Books reg} {drop : Drop} {tenantId : Option String}
    (h : drop.tenantId ≠ tenantId) :
    (b.drop drop).dropped.filter (fun drop => drop.tenantId = tenantId) =
      b.dropped.filter fun drop => drop.tenantId = tenantId := by
  unfold Books.drop
  rw [List.filter_append, List.filter_singleton, decide_eq_false h, cond_false, List.append_nil]

theorem isolated_step (h : (s.producer i).Proper) : Isolated s (.step i) where
  callers j := by
    obtain ⟨phase, hproducer, -, hphase⟩ := stepProducer_phase s i h
    change (stepProducer s i).producer j = _ ∨ (stepProducer s i).producer j = _ ∨
      ((stepProducer s i).producer j).caller = _
    rw [hproducer]
    by_cases hji : j = i
    · rw [hji, Function.update_self]
      exact .inr hphase
    · exact .inl (Function.update_of_ne hji _ _)
  lanes k hactor := by
    rcases stepProducer_lane s i k with hsame | ⟨hlane, -⟩
    · exact hsame
    · exact absurd (caller_of_lane hlane) hactor
  drops tenantId hactor := by
    rcases stepProducer_books s i with hbooks | ⟨drop, -, hcaller, hbooks⟩
    · exact congrArg (List.filter _) (congrArg Books.dropped hbooks)
    · have hne : drop.tenantId ≠ tenantId := fun heq => hactor (heq ▸ hcaller)
      exact (congrArg (List.filter _) (congrArg Books.dropped hbooks)).trans (filter_drop hne)
  histories k := by
    change _ = (s.lane k).history ++ []
    rw [List.append_nil]
    rcases stepProducer_books s i with hbooks | ⟨drop, -, -, hbooks⟩
    · exact congrFun (congrArg Books.history hbooks) k
    · exact congrFun (congrArg Books.history hbooks) k

omit [DecidableEq ι] in
/-- A history grows where a dispatch is finished. -/
theorem stepWriter_history (s : State ι reg) (k : Fin reg.tenantCount) :
    ((stepWriter s).lane k).history = (s.lane k).history ++ s.writer.dispatched k := by
  have hquiet : s.writer.dispatched k = [] ∨ ∃ k' queued sequence turn,
      s.writer = .retaining k' queued sequence turn := by
    cases s.writer with
    | retaining k' queued sequence turn => exact .inr ⟨k', queued, sequence, turn, rfl⟩
    | _ => exact .inl rfl
  rcases hquiet with hnone | ⟨k', queued, sequence, turn, hw⟩
  · rw [hnone, List.append_nil]
    rcases stepWriter_books s with hbooks | ⟨_, _, -, hbooks⟩ | ⟨k', _, _, _, hw, hbooks⟩
    · exact congrFun (congrArg Books.history hbooks) k
    · exact congrFun (congrArg Books.history hbooks) k
    · refine (congrFun (congrArg Books.history hbooks) k).trans (Function.update_of_ne ?_ _ _)
      rintro rfl
      rw [hw, WriterPhase.dispatched, if_pos rfl] at hnone
      exact absurd hnone nofun
  · have hlane : (stepWriter s).lane = Function.update s.lane k'
        ((s.lane k').retain (reg.usageShare k') ⟨sequence, queued.call, queued.event⟩) := by
      unfold stepWriter
      rw [hw]
      rfl
    rw [hlane, hw, WriterPhase.dispatched]
    by_cases heq : k = k'
    · subst heq
      rw [Function.update_self, if_pos rfl]
      rfl
    · rw [Function.update_of_ne heq, if_neg (Ne.symm heq), List.append_nil]

theorem isolated_write : Isolated s .write where
  callers i := .inl (congrFun (stepWriter_producer s) i)
  lanes k hactor := by
    rcases stepWriter_lane s k with hsame | ⟨hlane, -⟩
    · exact hsame
    · exact absurd (congrArg (Option.map fun k => some (reg.tenantId k)) hlane) hactor
  drops tenantId hactor := by
    rcases stepWriter_books s with hbooks | ⟨k, queued, hlane, hbooks⟩ | ⟨_, _, _, _, -, hbooks⟩
    · exact congrArg (List.filter _) (congrArg Books.dropped hbooks)
    · have hne : some (reg.tenantId k) ≠ tenantId := fun heq =>
        hactor (heq ▸ congrArg (Option.map fun k => some (reg.tenantId k)) hlane)
      exact (congrArg (List.filter _) (congrArg Books.dropped hbooks)).trans (filter_drop hne)
    · exact congrArg (List.filter _) (congrArg Books.dropped hbooks)
  histories := stepWriter_history s

theorem Isolated.of_same {e : Event ι} (hproducer : (apply s e).producer = s.producer)
    (hlane : (apply s e).lane = s.lane) (hdropped : (apply s e).dropped = s.dropped)
    (hnone : ∀ k, s.dispatched e k = []) : Isolated s e where
  callers i := .inl (congrFun hproducer i)
  lanes k _ := congrFun hlane k
  drops _ _ := congrArg (List.filter _) hdropped
  histories k := by rw [hlane, hnone, List.append_nil]

theorem isolated_abort : Isolated s .abort := by
  have hnothing : ∀ k, (s.lane k).history = (s.lane k).history ++ s.dispatched .abort k := fun k =>
    (List.append_nil _).symm
  by_cases hshutdown : s.shutdown = true
  · have hnext : apply s .abort = abortWriter s := if_pos hshutdown
    constructor
    · intro i
      rw [hnext]
      refine .inl (congrFun ?_ i)
      unfold abortWriter
      split <;> rfl
    · intro k hactor
      rw [hnext]
      rcases abortWriter_lane s k with hsame | ⟨hlane, -⟩
      · exact hsame
      · exact absurd (congrArg (Option.map fun k => some (reg.tenantId k)) hlane) hactor
    · intro tenantId hactor
      rw [hnext]
      rcases abortWriter_books s with hbooks | ⟨k, queued, hlane, hbooks⟩
      · exact congrArg (List.filter _) (congrArg Books.dropped hbooks)
      · have hne : some (reg.tenantId k) ≠ tenantId := fun heq =>
          hactor (heq ▸ congrArg (Option.map fun k => some (reg.tenantId k)) hlane)
        exact (congrArg (List.filter _) (congrArg Books.dropped hbooks)).trans (filter_drop hne)
    · intro k
      rw [hnext, ← hnothing]
      rcases abortWriter_books s with hbooks | ⟨_, _, -, hbooks⟩
      · exact congrFun (congrArg Books.history hbooks) k
      · exact congrFun (congrArg Books.history hbooks) k
  · have hnext : apply s .abort = s := if_neg hshutdown
    exact .of_same (congrArg State.producer hnext) (congrArg State.lane hnext)
      (congrArg State.dropped hnext) fun _ => rfl

theorem isolated_record {tenantId : Option String} {event : UsageEvent} :
    Isolated s (.record i tenantId event) := by
  by_cases hp : s.producer i = .idle
  · have hnext : apply s (.record i tenantId event) =
        { s.goto i (.admitting s.calls tenantId event) with calls := s.calls + 1 } := by
      simp only [apply, hp]
    constructor
    · intro j
      rw [hnext]
      by_cases hji : j = i
      · subst hji
        simp only [State.goto, Function.update_self]
        exact .inr (.inr rfl)
      · exact .inl (Function.update_of_ne hji _ _)
    · intro k _
      rw [hnext]
      rfl
    · intro _ _
      rw [hnext]
      rfl
    · intro k
      rw [hnext]
      exact (List.append_nil _).symm
  · have hnext : apply s (.record i tenantId event) = s := by
      simp only [apply]
    exact .of_same (congrArg State.producer hnext) (congrArg State.lane hnext)
      (congrArg State.dropped hnext) fun _ => rfl

/-- **An event of the run is a matter of its tenant.** -/
theorem Owned.isolated (h : Owned s) (e : Event ι) : Isolated s e := by
  cases e with
  | record i tenantId event => exact isolated_record
  | step i => exact isolated_step (h.producers i)
  | write => exact isolated_write
  | notice =>
    have hsame : (Usage.apply s .notice).producer = s.producer ∧
        (Usage.apply s .notice).lane = s.lane ∧ (Usage.apply s .notice).dropped = s.dropped := by
      simp only [Usage.apply]
      split <;> exact ⟨rfl, rfl, rfl⟩
    exact .of_same hsame.1 hsame.2.1 hsame.2.2 fun _ => rfl
  | shutdown =>
    have hsame : (Usage.apply s .shutdown).producer = s.producer ∧
        (Usage.apply s .shutdown).lane = s.lane ∧
        (Usage.apply s .shutdown).dropped = s.dropped := by
      simp only [Usage.apply]
      split <;> exact ⟨rfl, rfl, rfl⟩
    exact .of_same hsame.1 hsame.2.1 hsame.2.2 fun _ => rfl
  | abort => exact isolated_abort

end Routeplane.Usage
