import Routeplane.Proof.UsageLanes

/-!
# The books of the usage lanes

What a run records: the rings with their histories, the counters and the drops.

* `Books.Exact`: the counters are what was dropped and evicted, a ring is the end of its history.
* `stepProducer_books`, `stepWriter_books`: what a step records.
* `stepProducer_lane`, `stepWriter_lane`: the lane it changes.
-/

namespace Routeplane.Usage

variable {reg : Registry}

/-! ## What the run has recorded -/

/-- The rings with their histories, the counters with the drops, and the number of calls. -/
structure Books (reg : Registry) where
  ring : Fin reg.tenantCount → List StoredUsage
  history : Fin reg.tenantCount → List StoredUsage
  counters : Counters
  dropped : List Drop
  calls : ℕ

namespace Books

def drop (b : Books reg) (d : Drop) : Books reg :=
  { b with counters := b.counters.recordDrop d.reason, dropped := b.dropped ++ [d] }

def retain (b : Books reg) (k : Fin reg.tenantCount) (stored : StoredUsage) : Books reg :=
  { b with
    ring := Function.update b.ring k
      ((if reg.usageShare k ≤ (b.ring k).length then (b.ring k).tail else b.ring k) ++ [stored])
    history := Function.update b.history k (b.history k ++ [stored])
    counters :=
      if reg.usageShare k ≤ (b.ring k).length then
        { b.counters with usageEvictions := b.counters.usageEvictions + 1 }
      else b.counters }

/-- How many drops have the reason. -/
def drops (b : Books reg) (reason : DropReason) : UInt64 :=
  .ofNat (b.dropped.countP fun d => d.reason = reason)

/-- The counters count, and a ring is the end of its history. -/
structure Exact (b : Books reg) : Prop where
  admissionDrops : ∀ reason, b.counters.admissionDrops reason = b.drops reason
  dropUnregistered : b.counters.dropUnregistered = b.drops .unregisteredTenant
  dropCapacity : b.counters.dropCapacity = b.drops .zeroShare + b.drops .full
  dropClosed : b.counters.dropClosed = b.drops .closed
  usageEvictions : b.counters.usageEvictions =
    .ofNat (∑ k, ((b.history k).length - (b.ring k).length))
  recent : ∀ k, b.ring k = (b.history k).drop ((b.history k).length - reg.usageShare k)

variable {b : Books reg} {k : Fin reg.tenantCount}

theorem recordDrop_admissionDrops (c : Counters) (r reason : DropReason) :
    (c.recordDrop r).admissionDrops reason =
      c.admissionDrops reason + if r = reason then 1 else 0 := by
  have hsame : (c.recordDrop r).admissionDrops =
      Function.update c.admissionDrops r (c.admissionDrops r + 1) := by cases r <;> rfl
  rw [hsame]
  by_cases h : r = reason
  · rw [if_pos h, h, Function.update_self]
  · rw [if_neg h, Function.update_of_ne (Ne.symm h), UInt64.add_zero]

theorem recordDrop_unregistered (c : Counters) (r : DropReason) :
    (c.recordDrop r).dropUnregistered =
      c.dropUnregistered + if r = .unregisteredTenant then 1 else 0 := by
  cases r <;> simp [Counters.recordDrop]

theorem recordDrop_capacity (c : Counters) (r : DropReason) :
    (c.recordDrop r).dropCapacity =
      c.dropCapacity + ((if r = .zeroShare then 1 else 0) + if r = .full then 1 else 0) := by
  cases r <;> simp [Counters.recordDrop]

theorem recordDrop_closed (c : Counters) (r : DropReason) :
    (c.recordDrop r).dropClosed = c.dropClosed + if r = .closed then 1 else 0 := by
  cases r <;> simp [Counters.recordDrop]

theorem recordDrop_evictions (c : Counters) (r : DropReason) :
    (c.recordDrop r).usageEvictions = c.usageEvictions := by
  cases r <;> rfl

theorem drops_drop (d : Drop) (reason : DropReason) :
    (b.drop d).drops reason = b.drops reason + if d.reason = reason then 1 else 0 := by
  unfold drops drop
  rw [List.countP_append, List.countP_singleton, UInt64.ofNat_add]
  by_cases h : d.reason = reason
  · rw [if_pos h, if_pos (decide_eq_true h)]
    rfl
  · rw [if_neg h, if_neg (by rw [decide_eq_true_eq]; exact h)]
    rfl

/-- **A drop is counted under its reason.** -/
theorem Exact.drop (h : b.Exact) (d : Drop) : (b.drop d).Exact where
  admissionDrops reason := by
    rw [drops_drop, ← h.admissionDrops, Books.drop, recordDrop_admissionDrops]
  dropUnregistered := by
    rw [drops_drop, ← h.dropUnregistered, Books.drop, recordDrop_unregistered]
  dropCapacity := by
    rw [drops_drop, drops_drop, Books.drop, recordDrop_capacity, h.dropCapacity]
    ac_rfl
  dropClosed := by
    rw [drops_drop, ← h.dropClosed, Books.drop, recordDrop_closed]
  usageEvictions := by
    rw [Books.drop, recordDrop_evictions]
    exact h.usageEvictions
  recent := h.recent

/-- The end of a history that grows. -/
theorem drop_concat {α : Type*} (l : List α) (x : α) {share : ℕ} (hshare : 0 < share) :
    (l ++ [x]).drop (l.length + 1 - share) =
      (if share ≤ (l.drop (l.length - share)).length then (l.drop (l.length - share)).tail
        else l.drop (l.length - share)) ++ [x] := by
  rw [List.drop_append_of_le_length (by omega), List.length_drop]
  split
  · rw [List.tail_drop]
    congr 2
    omega
  · congr 2
    omega

/-- **The ring takes an event**, for the oldest one of a full ring. -/
theorem Exact.retain (h : b.Exact) (hshare : 0 < reg.usageShare k) (stored : StoredUsage) :
    (b.retain k stored).Exact where
  admissionDrops := by
    unfold Books.retain
    simp only
    split <;> exact h.admissionDrops
  dropUnregistered := by
    unfold Books.retain
    simp only
    split <;> exact h.dropUnregistered
  dropCapacity := by
    unfold Books.retain
    simp only
    split <;> exact h.dropCapacity
  dropClosed := by
    unfold Books.retain
    simp only
    split <;> exact h.dropClosed
  usageEvictions := by
    have hring : (b.ring k).length =
        (b.history k).length - ((b.history k).length - reg.usageShare k) := by
      rw [h.recent, List.length_drop]
    have hle : (b.history k).length - (b.ring k).length ≤
        ∑ k', ((b.history k').length - (b.ring k').length) :=
      Tally.le (fun n => n) (fun k' => (b.history k').length - (b.ring k').length) k
    have hsum := Tally.update (fun n => n) (fun k' => (b.history k').length - (b.ring k').length) k
      (((b.retain k stored).history k).length - ((b.retain k stored).ring k).length)
    -- only the books of one tenant move, so only its term of the sum does
    have hupdate : (fun k' => ((b.retain k stored).history k').length -
        ((b.retain k stored).ring k').length) =
          Function.update (fun k' => (b.history k').length - (b.ring k').length) k
            (((b.retain k stored).history k).length - ((b.retain k stored).ring k).length) := by
      funext k'
      by_cases heq : k' = k
      · rw [heq, Function.update_self]
      · simp only [Books.retain, Function.update_of_ne heq]
    rw [hupdate, hsum]
    simp only [Books.retain, Function.update_self, List.length_append, List.length_singleton]
    split
    · -- a full ring gives up its oldest for the one it takes
      rename_i hfull
      have hmore : ∑ k', ((b.history k').length - (b.ring k').length) -
          ((b.history k).length - (b.ring k).length) +
            ((b.history k).length + 1 - ((b.ring k).length - 1 + 1)) =
          ∑ k', ((b.history k').length - (b.ring k').length) + 1 := by omega
      rw [List.length_tail, hmore, h.usageEvictions, UInt64.ofNat_add]
      rfl
    · rename_i hroom
      have hnone : (b.history k).length - (b.ring k).length = 0 := by omega
      rw [h.usageEvictions, hnone, Nat.sub_zero]
      congr 1
      omega
  recent k' := by
    by_cases heq : k' = k
    · subst heq
      simp only [Books.retain, Function.update_self]
      rw [List.length_append, List.length_singleton, drop_concat _ _ hshare, ← h.recent]
    · simp only [Books.retain, Function.update_of_ne heq]
      exact h.recent k'

end Books

variable {ι : Type*}

def State.books (s : State ι reg) : Books reg where
  ring k := (s.lane k).ring
  history k := (s.lane k).history
  counters := s.counters
  dropped := s.dropped
  calls := s.calls

namespace State

variable {s : State ι reg} {k : Fin reg.tenantCount} {lane : Lane}

theorem books_setLane (s : State ι reg) (k : Fin reg.tenantCount) (lane : Lane) :
    (s.setLane k lane).books = { s.books with
      ring := Function.update s.books.ring k lane.ring
      history := Function.update s.books.history k lane.history } := by
  have hring := Function.comp_update Lane.ring s.lane k lane
  have hhistory := Function.comp_update Lane.history s.lane k lane
  exact congrArg₂ (fun ring history => { s.books with ring := ring, history := history })
    hring hhistory

theorem books_setLane_of_same (hring : lane.ring = (s.lane k).ring)
    (hhistory : lane.history = (s.lane k).history) : (s.setLane k lane).books = s.books := by
  have hsame : Function.update s.books.ring k (s.lane k).ring = s.books.ring ∧
      Function.update s.books.history k (s.lane k).history = s.books.history :=
    ⟨Function.update_eq_self k s.books.ring, Function.update_eq_self k s.books.history⟩
  rw [books_setLane, hring, hhistory, hsame.1, hsame.2]

theorem books_abandon (k : Fin reg.tenantCount) (queued : QueuedUsage) :
    (s.abandon k queued).books =
      s.books.drop ⟨queued.call, some (reg.tenantId k), .closed⟩ := by
  have hlane : (s.setLane k { s.lane k with slots := (s.lane k).slots + 1 }).books = s.books :=
    books_setLane_of_same rfl rfl
  rw [← hlane]
  rfl

theorem books_retain (k : Fin reg.tenantCount) (queued : QueuedUsage) (sequence : UInt64) :
    (s.retain k queued sequence).books =
      s.books.retain k ⟨sequence, queued.call, queued.event⟩ := by
  have hlane := books_setLane s k
    ((s.lane k).retain (reg.usageShare k) ⟨sequence, queued.call, queued.event⟩)
  unfold retain
  exact congrArg (fun b : Books reg => { b with
    counters := (s.books.retain k ⟨sequence, queued.call, queued.event⟩).counters }) hlane

end State

variable {s : State ι reg}

/-- Whose call it is, if the producer is in one. -/
def ProducerPhase.caller : ProducerPhase reg → Option (Option String)
  | idle => none
  | admitting _ tenantId _ => some tenantId
  | refusing drop => some drop.tenantId
  | reserving k _ | sending k _ | scheduling k | signalling k | unscheduling k =>
    some (some (reg.tenantId k))

/-- What a producer's step records. -/
theorem stepProducer_books [DecidableEq ι] (s : State ι reg) (i : ι) :
    (stepProducer s i).books = s.books ∨
      ∃ drop, (drop.reason = .closed ∨ s.producer i = .refusing drop) ∧
        (s.producer i).caller = some drop.tenantId ∧
        (stepProducer s i).books = s.books.drop drop := by
  unfold stepProducer
  cases hp : s.producer i with
  | idle => exact .inl rfl
  | admitting call tenantId event =>
    simp only
    split <;> exact .inl rfl
  | refusing drop => exact .inr ⟨drop, .inr rfl, rfl, rfl⟩
  | reserving k queued =>
    simp only
    split
    · exact .inl (State.books_setLane_of_same rfl rfl)
    · exact .inl rfl
  | sending k queued =>
    simp only
    split
    · exact .inl (State.books_setLane_of_same rfl rfl)
    · exact .inr ⟨⟨queued.call, some (reg.tenantId k), .closed⟩, .inl rfl, rfl,
        State.books_abandon k queued⟩
  | scheduling k =>
    simp only
    split
    · exact .inl rfl
    · exact .inl (State.books_setLane_of_same rfl rfl)
  | signalling k =>
    simp only
    split
    · rename_i s' hsent
      obtain rfl := sendReady_eq hsent
      exact .inl rfl
    · exact .inl rfl
  | unscheduling k => exact .inl (State.books_setLane_of_same rfl rfl)

/-- The lane a dispatcher's step is about. -/
def WriterPhase.lane : WriterPhase reg → Option (Fin reg.tenantCount)
  | taking k | stale k | dispatching k _ _ | retaining k _ _ _ | clearing k | rechecking k
  | rescheduling k | signalling k | unscheduling k => some k
  | closing rest | draining rest _ | leaving rest => rest.head?
  | waiting | yielding _ | done => none

/-- What the dispatcher's step records. -/
theorem stepWriter_books (s : State ι reg) :
    (stepWriter s).books = s.books ∨
      (∃ k, ∃ queued : QueuedUsage, s.writer.lane = some k ∧
        (stepWriter s).books = s.books.drop ⟨queued.call, some (reg.tenantId k), .closed⟩) ∨
      ∃ k queued sequence turn, s.writer = .retaining k queued sequence turn ∧
        (stepWriter s).books = s.books.retain k ⟨sequence, queued.call, queued.event⟩ := by
  unfold stepWriter
  cases hw : s.writer with
  | waiting =>
    cases s.ready <;> exact .inl rfl
  | taking k =>
    simp only
    split
    · exact .inl rfl
    · exact .inl (State.books_setLane_of_same rfl rfl)
  | dispatching k queued turn => exact .inl rfl
  | retaining k queued sequence turn =>
    exact .inr (.inr ⟨k, queued, sequence, turn, rfl, State.books_retain k queued sequence⟩)
  | stale k | clearing k | unscheduling k => exact .inl (State.books_setLane_of_same rfl rfl)
  | rechecking k =>
    simp only
    split <;> exact .inl rfl
  | rescheduling k =>
    simp only
    split
    · exact .inl rfl
    · exact .inl (State.books_setLane_of_same rfl rfl)
  | signalling k =>
    simp only
    split
    · rename_i s' hsent
      obtain rfl := sendReady_eq hsent
      exact .inl rfl
    · exact .inl rfl
  | closing rest =>
    cases rest with
    | nil => exact .inl rfl
    | cons k rest => exact .inl (State.books_setLane_of_same rfl rfl)
  | draining rest progressed =>
    cases rest with
    | nil => exact .inl rfl
    | cons k rest =>
      simp only
      split
      · exact .inl rfl
      · exact .inl (State.books_setLane_of_same rfl rfl)
  | yielding rest => exact .inl rfl
  | leaving rest =>
    cases rest with
    | nil => exact .inl rfl
    | cons k rest =>
      simp only
      split
      · split
        · exact .inl rfl
        · rename_i queued queue hqueue
          refine .inr (.inl ⟨k, queued, rfl, ?_⟩)
          have hpop : (s.setLane k { s.lane k with queue := queue }).books = s.books :=
            State.books_setLane_of_same rfl rfl
          rw [← hpop]
          exact State.books_abandon k queued
      · exact .inl (State.books_setLane_of_same rfl rfl)
  | done => exact .inl rfl

theorem abortWriter_books (s : State ι reg) :
    (abortWriter s).books = s.books ∨
      ∃ k, ∃ queued : QueuedUsage, s.writer.lane = some k ∧
        (abortWriter s).books = s.books.drop ⟨queued.call, some (reg.tenantId k), .closed⟩ := by
  unfold abortWriter
  cases hw : s.writer with
  | retaining k queued sequence turn =>
    exact .inr ⟨k, queued, rfl, State.books_abandon k queued⟩
  | _ => exact .inl rfl

/-! A step leaves the lanes it is not at. -/

/-- What holds of the lane that was set, at that lane. -/
theorem lane_cases {s' : State ι reg} {k k' : Fin reg.tenantCount} {lane : Lane}
    (P : Lane → Prop) (hlane : s'.lane = Function.update s.lane k' lane) (h : k' = k → P lane) :
    s'.lane k = s.lane k ∨ some k' = some k ∧ P (s'.lane k) := by
  rw [hlane]
  by_cases heq : k = k'
  · subst heq
    rw [Function.update_self]
    exact .inr ⟨rfl, h rfl⟩
  · exact .inl (Function.update_of_ne heq _ _)

/-- The queue stays, or takes the event the producer sends. -/
def ProducerPhase.Puts (phase : ProducerPhase reg) (k : Fin reg.tenantCount) (lane lane' : Lane) :
    Prop :=
  lane'.queue = lane.queue ∨
    ∃ queued, phase = .sending k queued ∧ lane'.queue = lane.queue ++ [queued]

theorem stepProducer_lane [DecidableEq ι] (s : State ι reg) (i : ι) (k : Fin reg.tenantCount) :
    (stepProducer s i).lane k = s.lane k ∨ (s.producer i).lane = some k ∧
      (s.producer i).Puts k (s.lane k) ((stepProducer s i).lane k) := by
  unfold stepProducer
  cases hp : s.producer i with
  | idle | refusing drop => exact .inl rfl
  | admitting call tenantId event =>
    simp only
    split <;> exact .inl rfl
  | reserving k' queued =>
    simp only
    split
    · exact lane_cases (ProducerPhase.Puts _ k _) rfl fun heq => .inl (by rw [heq])
    · exact .inl rfl
  | sending k' queued =>
    simp only
    split
    · exact lane_cases (ProducerPhase.Puts _ k _) rfl fun heq =>
        .inr ⟨queued, by rw [heq], by rw [heq]⟩
    · exact lane_cases (ProducerPhase.Puts _ k _) rfl fun heq => .inl (by rw [heq])
  | scheduling k' =>
    simp only
    split
    · exact .inl rfl
    · exact lane_cases (ProducerPhase.Puts _ k _) rfl fun heq => .inl (by rw [heq])
  | signalling k' =>
    simp only
    split
    · rename_i s' hsent
      obtain rfl := sendReady_eq hsent
      exact .inl rfl
    · exact .inl rfl
  | unscheduling k' => exact lane_cases (ProducerPhase.Puts _ k _) rfl fun heq => .inl (by rw [heq])

/-- The dispatcher takes events from the front. -/
theorem stepWriter_lane (s : State ι reg) (k : Fin reg.tenantCount) :
    (stepWriter s).lane k = s.lane k ∨ s.writer.lane = some k ∧
      ((stepWriter s).lane k).queue <:+ (s.lane k).queue := by
  unfold stepWriter
  cases hw : s.writer with
  | waiting =>
    cases s.ready <;> exact .inl rfl
  | taking k' =>
    simp only
    split
    · exact .inl rfl
    · rename_i queued rest hqueue
      refine lane_cases (·.queue <:+ (s.lane k).queue) rfl fun heq => ?_
      rw [← heq, hqueue]
      exact List.suffix_cons queued rest
  | dispatching k' queued turn => exact .inl rfl
  | retaining k' queued sequence turn =>
    exact lane_cases (·.queue <:+ (s.lane k).queue) rfl fun heq => heq ▸ List.suffix_refl _
  | stale k' | clearing k' | unscheduling k' =>
    exact lane_cases (·.queue <:+ (s.lane k).queue) rfl fun heq => by rw [heq]
  | rechecking k' =>
    simp only
    split <;> exact .inl rfl
  | rescheduling k' =>
    simp only
    split
    · exact .inl rfl
    · exact lane_cases (·.queue <:+ (s.lane k).queue) rfl fun heq => by rw [heq]
  | signalling k' =>
    simp only
    split
    · rename_i s' hsent
      obtain rfl := sendReady_eq hsent
      exact .inl rfl
    · exact .inl rfl
  | closing rest =>
    cases rest with
    | nil => exact .inl rfl
    | cons k' rest => exact lane_cases (·.queue <:+ (s.lane k).queue) rfl fun heq => by rw [heq]
  | draining rest progressed =>
    cases rest with
    | nil => exact .inl rfl
    | cons k' rest =>
      simp only
      split
      · exact .inl rfl
      · rename_i queued queue hqueue
        refine lane_cases (·.queue <:+ (s.lane k).queue) rfl fun heq => ?_
        rw [← heq, hqueue]
        exact List.suffix_cons queued queue
  | yielding rest => exact .inl rfl
  | leaving rest =>
    cases rest with
    | nil => exact .inl rfl
    | cons k' rest =>
      simp only
      split
      · split
        · exact .inl rfl
        · -- what is left in the queue is dropped from its front
          rename_i queued queue hqueue
          have hlane : ((s.setLane k' { s.lane k' with queue := queue }).abandon k' queued).lane =
              Function.update s.lane k' { s.lane k' with
                queue := queue, slots := (s.lane k').slots + 1 } := by
            simp only [State.abandon, State.setLane, State.recordDrop, Function.update_self,
              Function.update_idem]
          refine lane_cases (·.queue <:+ (s.lane k).queue) hlane fun heq => ?_
          rw [← heq, hqueue]
          exact List.suffix_cons queued queue
      · exact lane_cases (·.queue <:+ (s.lane k).queue) rfl fun heq => by rw [heq]
  | done => exact .inl rfl

theorem abortWriter_lane (s : State ι reg) (k : Fin reg.tenantCount) :
    (abortWriter s).lane k = s.lane k ∨ s.writer.lane = some k ∧
      ((abortWriter s).lane k).queue = (s.lane k).queue := by
  unfold abortWriter
  cases hw : s.writer with
  | retaining k' queued sequence turn =>
    exact lane_cases (·.queue = (s.lane k).queue) rfl fun heq => by rw [heq]
  | _ => exact .inl rfl

end Routeplane.Usage
