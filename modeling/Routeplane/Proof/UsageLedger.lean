import Routeplane.Proof.Capacity
import Routeplane.Proof.UsageTenants

/-!
# The usage lanes account for every call

* `weigh_apply`: an event moves from place to place and is never copied or lost.
* `Ledger.places`, `Ledger.numbers`: all places together are the calls.
* `usage_conserved`: in every run.
-/

namespace Routeplane.Usage

variable {reg : Registry} {ι : Type*}

/-! ## Where the event of a call is -/

namespace ProducerPhase

/-- The call whose event the producer has. -/
def call : ProducerPhase reg → Option ℕ
  | admitting call _ _ => some call
  | refusing drop => some drop.call
  | reserving _ queued | sending _ queued => some queued.call
  | idle | scheduling _ | signalling _ | unscheduling _ => none

def weigh (f : ℕ → ℕ) (phase : ProducerPhase reg) : ℕ := phase.call.elim 0 f

end ProducerPhase

namespace WriterPhase

/-- The call whose event the dispatcher has. -/
def call : WriterPhase reg → Option ℕ
  | dispatching _ queued _ | retaining _ queued _ _ => some queued.call
  | _ => none

def weigh (f : ℕ → ℕ) (w : WriterPhase reg) : ℕ := w.call.elim 0 f

end WriterPhase

namespace Lane

/-- What was in the ring and is no more. -/
def evicted (lane : Lane) : List StoredUsage :=
  lane.history.take (lane.history.length - lane.ring.length)

def weigh (f : ℕ → ℕ) (lane : Lane) : ℕ :=
  (lane.queue.map fun queued => f queued.call).sum +
    (lane.history.map fun stored => f stored.call).sum

end Lane

variable [Fintype ι]

namespace State

/-! What the calls at each place weigh together, a call `f call`. -/

variable (f : ℕ → ℕ) (s : State ι reg)

/-- With a producer or the dispatcher. -/
def inFlight : ℕ := ∑ i, (s.producer i).weigh f + s.writer.weigh f

def queued : ℕ := ∑ k, ((s.lane k).queue.map fun queued => f queued.call).sum

def retained : ℕ := ∑ k, ((s.lane k).ring.map fun stored => f stored.call).sum

def evicted : ℕ := ∑ k, ((s.lane k).evicted.map fun stored => f stored.call).sum

def lost : ℕ := (s.dropped.map fun drop => f drop.call).sum

def weigh : ℕ := s.inFlight f + ∑ k, (s.lane k).weigh f + s.lost f

end State

variable {s s' : State ι reg} {i : ι} {k : Fin reg.tenantCount} {f : ℕ → ℕ}

theorem weigh_recordDrop (drop : Drop) : (s.recordDrop drop).weigh f = s.weigh f + f drop.call := by
  unfold State.weigh State.inFlight State.lost State.recordDrop
  simp only [List.map_append, List.sum_append, List.map_cons, List.map_nil, List.sum_cons,
    List.sum_nil]
  omega

/-- The dispatcher moves on. -/
theorem weigh_turned {n : ℕ} (hproducer : s'.producer = s.producer) (hlane : s'.lane = s.lane)
    (hdropped : s'.dropped = s.dropped)
    (h : n + s.writer.weigh f = s.weigh f + s'.writer.weigh f) : s'.weigh f = n := by
  unfold State.weigh State.inFlight State.lost at *
  rw [hproducer, hlane, hdropped]
  omega

/-- It keeps the event it has. -/
theorem weigh_keeps {w : WriterPhase reg} (hw : s.writer = w) (hproducer : s'.producer = s.producer)
    (hlane : s'.lane = s.lane) (hdropped : s'.dropped = s.dropped)
    (h : s'.writer.weigh f = w.weigh f) : s'.weigh f = s.weigh f :=
  weigh_turned hproducer hlane hdropped (by rw [h, hw])

/-- The dispatcher moves on and changes a lane. -/
theorem weigh_served (lane : Lane) {n : ℕ} (hproducer : s'.producer = s.producer)
    (hlane : s'.lane = Function.update s.lane k lane) (hdropped : s'.dropped = s.dropped)
    (h : n + s.writer.weigh f + (s.lane k).weigh f =
      s.weigh f + s'.writer.weigh f + lane.weigh f) : s'.weigh f = n := by
  have hle := Tally.le (Lane.weigh f) s.lane k
  have hmoved := Tally.update (Lane.weigh f) s.lane k lane
  unfold State.weigh State.inFlight State.lost at *
  rw [hproducer, hlane, hdropped]
  omega

/-- It changes nothing of a lane that an event is in. -/
theorem weigh_tends {w : WriterPhase reg} (hw : s.writer = w) (lane : Lane)
    (hproducer : s'.producer = s.producer) (hlane : s'.lane = Function.update s.lane k lane)
    (hdropped : s'.dropped = s.dropped) (h : s'.writer.weigh f = w.weigh f)
    (heq : lane.weigh f = (s.lane k).weigh f) : s'.weigh f = s.weigh f :=
  weigh_served lane hproducer hlane hdropped (by rw [h, hw, heq])

/-- Its event is dropped, its lane keeps the others. -/
theorem weigh_abandon (queued : QueuedUsage) :
    (s.abandon k queued).weigh f = s.weigh f + f queued.call := by
  unfold State.abandon
  rw [weigh_recordDrop, Nat.add_right_cancel_iff]
  exact weigh_served (s := s) _ rfl rfl rfl rfl

/-- What is left in a queue is dropped from it. -/
theorem weigh_leave {queued : QueuedUsage} {queue : List QueuedUsage}
    (hqueue : (s.lane k).queue = queued :: queue) :
    ((s.setLane k { s.lane k with queue := queue }).abandon k queued).weigh f = s.weigh f := by
  have hback : s.lane = Function.update (Function.update s.lane k
      { s.lane k with queue := queue }) k (s.lane k) := by
    rw [Function.update_idem, Function.update_eq_self]
  rw [weigh_abandon]
  symm
  refine weigh_served (s := s.setLane k { s.lane k with queue := queue }) _ rfl hback rfl ?_
  simp only [State.setLane, Function.update_self, Lane.weigh, hqueue, List.map_cons,
    List.sum_cons]
  omega

variable [DecidableEq ι]

/-- A producer moves on. -/
theorem weigh_moves (phase : ProducerPhase reg) {n : ℕ}
    (hproducer : s'.producer = Function.update s.producer i phase) (hwriter : s'.writer = s.writer)
    (hlane : s'.lane = s.lane) (hdropped : s'.dropped = s.dropped)
    (h : n + (s.producer i).weigh f = s.weigh f + phase.weigh f) : s'.weigh f = n := by
  have hle := Tally.le (ProducerPhase.weigh f) s.producer i
  have hmoved := Tally.update (ProducerPhase.weigh f) s.producer i phase
  unfold State.weigh State.inFlight State.lost at *
  rw [hproducer, hwriter, hlane, hdropped]
  omega

/-- It keeps the event it has. -/
theorem weigh_carries {p phase : ProducerPhase reg} (hp : s.producer i = p)
    (hproducer : s'.producer = Function.update s.producer i phase) (hwriter : s'.writer = s.writer)
    (hlane : s'.lane = s.lane) (hdropped : s'.dropped = s.dropped)
    (h : phase.weigh f = p.weigh f) : s'.weigh f = s.weigh f :=
  weigh_moves phase hproducer hwriter hlane hdropped (by rw [h, hp])

/-- A producer moves on and changes a lane. -/
theorem weigh_moved (phase : ProducerPhase reg) (lane : Lane) {n : ℕ}
    (hproducer : s'.producer = Function.update s.producer i phase) (hwriter : s'.writer = s.writer)
    (hlane : s'.lane = Function.update s.lane k lane) (hdropped : s'.dropped = s.dropped)
    (h : n + (s.producer i).weigh f + (s.lane k).weigh f =
      s.weigh f + phase.weigh f + lane.weigh f) : s'.weigh f = n := by
  have hle := Tally.le (ProducerPhase.weigh f) s.producer i
  have hmoved := Tally.update (ProducerPhase.weigh f) s.producer i phase
  have hlaneLe := Tally.le (Lane.weigh f) s.lane k
  have hlaneMoved := Tally.update (Lane.weigh f) s.lane k lane
  unfold State.weigh State.inFlight State.lost at *
  rw [hproducer, hwriter, hlane, hdropped]
  omega

omit [Fintype ι] [DecidableEq ι] in
theorem admit_weigh (reg : Registry) (call : ℕ) (tenantId : Option String) (event : UsageEvent) :
    (admitEvent reg call tenantId event).weigh f = f call := by
  unfold admitEvent
  cases tenantId with
  | none => rfl
  | some t =>
    simp only
    cases reg.tenantIndex t with
    | none => rfl
    | some k =>
      simp only
      split <;> rfl

/-- **A producer's step moves its event.** -/
theorem weigh_stepProducer (s : State ι reg) (i : ι) : (stepProducer s i).weigh f = s.weigh f := by
  unfold stepProducer
  cases hp : s.producer i with
  | idle => rfl
  | admitting call tenantId event =>
    simp only
    split
    · refine weigh_moves (s := s) _ rfl rfl rfl rfl ?_
      rw [hp, admit_weigh]
      rfl
    · exact weigh_carries hp rfl rfl rfl rfl rfl
  | refusing drop =>
    refine weigh_moves (s := s.recordDrop drop) _ rfl rfl rfl rfl ?_
    have hold : (s.recordDrop drop).producer i = .refusing drop := hp
    rw [hold, weigh_recordDrop]
    rfl
  | reserving k queued =>
    simp only
    split
    · refine weigh_moved (s := s) _ _ rfl rfl rfl rfl ?_
      rw [hp]
      rfl
    · exact weigh_carries hp rfl rfl rfl rfl rfl
  | sending k queued =>
    simp only
    split
    · have hput : ((s.lane k).queue.map fun queued => f queued.call).sum + f queued.call =
          (((s.lane k).queue ++ [queued]).map fun queued => f queued.call).sum := by
        rw [List.map_append, List.sum_append, List.map_singleton, List.sum_singleton]
      refine weigh_moved (s := s) _ _ rfl rfl rfl rfl ?_
      rw [hp]
      simp only [ProducerPhase.weigh, ProducerPhase.call, Option.elim, Lane.weigh, ← hput]
      omega
    · refine weigh_moves (s := s.abandon k queued) _ rfl rfl rfl rfl ?_
      have hold : (s.abandon k queued).producer i = .sending k queued := hp
      rw [hold, weigh_abandon]
      rfl
  | scheduling k =>
    simp only
    split
    · exact weigh_carries hp rfl rfl rfl rfl rfl
    · refine weigh_moved (s := s) _ _ rfl rfl rfl rfl ?_
      rw [hp]
      rfl
  | signalling k =>
    simp only
    split
    · rename_i s' hsent
      obtain rfl := sendReady_eq hsent
      exact weigh_carries hp rfl rfl rfl rfl rfl
    · exact weigh_carries hp rfl rfl rfl rfl rfl
  | unscheduling k =>
    refine weigh_moved (s := s) _ _ rfl rfl rfl rfl ?_
    rw [hp]
    rfl

omit [DecidableEq ι] in
/-- **The dispatcher's step moves its event.** -/
theorem weigh_stepWriter (s : State ι reg) : (stepWriter s).weigh f = s.weigh f := by
  unfold stepWriter
  cases hw : s.writer with
  | waiting =>
    cases s.ready with
    | nil => rfl
    | cons k rest => exact weigh_keeps hw rfl rfl rfl rfl
  | taking k =>
    simp only
    split
    · exact weigh_keeps hw rfl rfl rfl rfl
    · rename_i queued rest hqueue
      refine weigh_served (s := s) _ rfl rfl rfl ?_
      rw [hw]
      simp only [WriterPhase.weigh, WriterPhase.call, Option.elim, Lane.weigh, hqueue,
        List.map_cons, List.sum_cons]
      omega
  | dispatching k queued turn => exact weigh_keeps hw rfl rfl rfl rfl
  | retaining k queued sequence turn =>
    have hkept : ∀ stored : StoredUsage,
        (((s.lane k).history ++ [stored]).map fun stored => f stored.call).sum =
          ((s.lane k).history.map fun stored => f stored.call).sum + f stored.call := by
      intro stored
      rw [List.map_append, List.sum_append, List.map_singleton, List.sum_singleton]
    refine weigh_served (s := s) _ rfl rfl rfl ?_
    rw [hw]
    cases turn with
    | token =>
      simp only [WriterPhase.weigh, WriterPhase.call, Option.elim, Lane.weigh, Lane.retain, hkept]
      omega
    | drain rest =>
      simp only [WriterPhase.weigh, WriterPhase.call, Option.elim, Lane.weigh, Lane.retain, hkept]
      omega
  | stale k | clearing k | unscheduling k => exact weigh_tends hw _ rfl rfl rfl rfl rfl
  | rechecking k =>
    simp only
    split <;> exact weigh_keeps hw rfl rfl rfl rfl
  | rescheduling k =>
    simp only
    split
    · exact weigh_keeps hw rfl rfl rfl rfl
    · exact weigh_tends hw _ rfl rfl rfl rfl rfl
  | signalling k =>
    simp only
    split
    · rename_i s' hsent
      obtain rfl := sendReady_eq hsent
      exact weigh_keeps hw rfl rfl rfl rfl
    · exact weigh_keeps hw rfl rfl rfl rfl
  | closing rest =>
    cases rest with
    | nil => exact weigh_keeps hw rfl rfl rfl rfl
    | cons k rest => exact weigh_tends hw _ rfl rfl rfl rfl rfl
  | draining rest progressed =>
    cases rest with
    | nil =>
      refine weigh_turned (s := s) rfl rfl rfl ?_
      rw [hw]
      cases progressed <;> rfl
    | cons k rest =>
      simp only
      split
      · exact weigh_keeps hw rfl rfl rfl rfl
      · rename_i queued queue hqueue
        refine weigh_served (s := s) _ rfl rfl rfl ?_
        rw [hw]
        simp only [WriterPhase.weigh, WriterPhase.call, Option.elim, Lane.weigh, hqueue,
          List.map_cons, List.sum_cons]
        omega
  | yielding rest => exact weigh_keeps hw rfl rfl rfl rfl
  | leaving rest =>
    cases rest with
    | nil => exact weigh_keeps hw rfl rfl rfl rfl
    | cons k rest =>
      simp only
      split
      · split
        · exact weigh_keeps hw rfl rfl rfl rfl
        · rename_i queued queue hqueue
          exact weigh_leave hqueue
      · refine weigh_served (s := s) _ rfl rfl rfl ?_
        rfl
  | done => rfl

omit [DecidableEq ι] in
theorem weigh_abortWriter (s : State ι reg) : (abortWriter s).weigh f = s.weigh f := by
  unfold abortWriter
  cases hw : s.writer with
  | waiting | yielding rest => exact weigh_keeps hw rfl rfl rfl rfl
  | retaining k queued sequence turn =>
    refine weigh_turned (s := s.abandon k queued) rfl rfl rfl ?_
    have hold : (s.abandon k queued).writer = .retaining k queued sequence turn := hw
    rw [hold, weigh_abandon]
    rfl
  | _ => rfl

/-- **An event moves from place to place**, and a call brings a new one. -/
theorem weigh_apply (s : State ι reg) (e : Event ι) :
    (apply s e).weigh f + ∑ call ∈ Finset.range s.calls, f call =
      s.weigh f + ∑ call ∈ Finset.range (apply s e).calls, f call := by
  cases e with
  | record i tenantId event =>
    simp only [apply]
    split
    · rename_i hp
      have hnext : (s.goto i (.admitting s.calls tenantId event)).weigh f =
          s.weigh f + f s.calls := by
        refine weigh_moves (s := s) _ rfl rfl rfl rfl ?_
        rw [hp]
        rfl
      change (s.goto i (.admitting s.calls tenantId event)).weigh f + _ = _
      rw [hnext, Finset.sum_range_succ]
      omega
    · rfl
  | step i =>
    have hcalls : (stepProducer s i).calls = s.calls := by
      rcases stepProducer_books s i with hbooks | ⟨drop, -, -, hbooks⟩
      · exact congrArg Books.calls hbooks
      · exact congrArg Books.calls hbooks
    simp only [apply]
    rw [weigh_stepProducer, hcalls]
  | write =>
    have hcalls : (stepWriter s).calls = s.calls := by
      rcases stepWriter_books s with
        hbooks | ⟨k, queued, -, hbooks⟩ | ⟨k, queued, sequence, turn, -, hbooks⟩
      · exact congrArg Books.calls hbooks
      · exact congrArg Books.calls hbooks
      · exact congrArg Books.calls hbooks
    simp only [apply]
    rw [weigh_stepWriter, hcalls]
  | notice =>
    simp only [apply]
    split
    · rename_i hw _
      rw [Nat.add_right_cancel_iff]
      exact weigh_keeps hw rfl rfl rfl rfl
    · rfl
  | shutdown =>
    simp only [apply]
    split <;> rfl
  | abort =>
    have hcalls : (abortWriter s).calls = s.calls := by
      rcases abortWriter_books s with hbooks | ⟨k, queued, -, hbooks⟩
      · exact congrArg Books.calls hbooks
      · exact congrArg Books.calls hbooks
    simp only [apply]
    split
    · rw [weigh_abortWriter, hcalls]
    · rfl

/-! ## Every call is accounted for -/

/-- Everything that holds of the books in every state. -/
structure Ledger (s : State ι reg) : Prop where
  inv : Inv s
  owned : Owned s
  books : s.books.Exact
  weighed : ∀ f, s.weigh f = ∑ call ∈ Finset.range s.calls, f call

theorem usageShare_pos (h : reg.active k = true) : 0 < reg.usageShare k := by
  unfold Registry.active at h
  rw [Bool.and_eq_true, decide_eq_true_eq, decide_eq_true_eq] at h
  exact h.2

omit [DecidableEq ι] in
theorem ledger_start : Ledger (start ι reg) where
  inv := inv_start
  owned := owned_start
  books := by
    refine ⟨fun _ => rfl, rfl, rfl, rfl, ?_, fun _ => List.drop_nil.symm⟩
    change 0 = UInt64.ofNat (∑ _k : Fin reg.tenantCount, 0)
    rw [Finset.sum_const_zero]
    rfl
  weighed f := by
    change ∑ _i : ι, 0 + 0 + ∑ _k : Fin reg.tenantCount, (0 + 0) + 0 = ∑ call ∈ Finset.range 0, f call
    simp only [Nat.add_zero, Finset.sum_const_zero, Finset.sum_range_zero]

theorem Ledger.apply (h : Ledger s) (e : Event ι) : Ledger (apply s e) where
  inv := h.inv.apply e
  owned := h.owned.apply e
  books := by
    cases e with
    | record i tenantId event =>
      simp only [Usage.apply]
      split
      · exact ⟨h.books.1, h.books.2, h.books.3, h.books.4, h.books.5, h.books.6⟩
      · exact h.books
    | step i =>
      simp only [Usage.apply]
      rcases stepProducer_books s i with hbooks | ⟨drop, -, -, hbooks⟩
      · exact hbooks ▸ h.books
      · exact hbooks ▸ h.books.drop drop
    | write =>
      simp only [Usage.apply]
      rcases stepWriter_books s with
        hbooks | ⟨k, queued, -, hbooks⟩ | ⟨k, queued, sequence, turn, hw, hbooks⟩
      · exact hbooks ▸ h.books
      · exact hbooks ▸ h.books.drop _
      · exact hbooks ▸ h.books.retain (usageShare_pos (h.inv.lane_active hw rfl)) _
    | notice =>
      simp only [Usage.apply]
      split <;> exact h.books
    | shutdown =>
      simp only [Usage.apply]
      split <;> exact h.books
    | abort =>
      simp only [Usage.apply]
      split
      · rcases abortWriter_books s with hbooks | ⟨k, queued, -, hbooks⟩
        · exact hbooks ▸ h.books
        · exact hbooks ▸ h.books.drop _
      · exact h.books
  weighed f := by
    have hmoved := weigh_apply (f := f) s e
    have hold := h.weighed f
    omega

/-- What was in a ring once: what was evicted, and the ring. -/
theorem Books.Exact.split {b : Books reg} (h : b.Exact) (k : Fin reg.tenantCount) :
    (b.history k).take ((b.history k).length - (b.ring k).length) ++ b.ring k = b.history k := by
  have hring := h.recent k
  have hlength := congrArg List.length hring
  rw [List.length_drop] at hlength
  have hcut : (b.history k).length - (b.ring k).length =
      (b.history k).length - reg.usageShare k := by omega
  rw [hcut, hring]
  exact List.take_append_drop _ _

/-- The weight of one call, once. -/
def one (call : ℕ) : ℕ → ℕ := fun c => if c = call then 1 else 0

omit [DecidableEq ι] in
/-- All places together. -/
theorem Ledger.places (h : Ledger s) (f : ℕ → ℕ) :
    s.inFlight f + s.queued f + s.retained f + s.evicted f + s.lost f =
      ∑ call ∈ Finset.range s.calls, f call := by
  have hlanes : ∑ k, (s.lane k).weigh f = s.queued f + (s.retained f + s.evicted f) := by
    unfold State.queued State.retained State.evicted
    rw [← Finset.sum_add_distrib, ← Finset.sum_add_distrib]
    refine Finset.sum_congr rfl fun k _ => ?_
    have hsplit := h.books.split k
    change (s.lane k).evicted ++ (s.lane k).ring = (s.lane k).history at hsplit
    unfold Lane.weigh
    rw [← hsplit, List.map_append, List.sum_append]
    omega
  have hall := h.weighed f
  unfold State.weigh at hall
  omega

theorem length_eq_countP (drops : List Drop) :
    drops.length = drops.countP (fun d => d.reason = .unregisteredTenant) +
      (drops.countP (fun d => d.reason = .zeroShare) + drops.countP (fun d => d.reason = .full)) +
      drops.countP (fun d => d.reason = .closed) := by
  induction drops with
  | nil => rfl
  | cons d drops ih =>
    simp only [List.countP_cons, List.length_cons, ih]
    cases d.reason <;> simp <;> omega

omit [DecidableEq ι] in
/-- How many there are at each place. -/
theorem Ledger.numbers (h : Ledger s) (hflight : s.inFlight (fun _ => 1) = 0) :
    ∑ k, (s.lane k).queue.length + ∑ k, (s.lane k).ring.length +
      ∑ k, ((s.lane k).history.length - (s.lane k).ring.length) + s.dropped.length = s.calls := by
  have hones : ∀ {α : Type} (l : List α), (l.map fun _ => 1).sum = l.length := by
    intro α l
    rw [List.map_const', List.sum_replicate, smul_eq_mul, Nat.mul_one]
  have hall := h.places fun _ => 1
  rw [hflight, Finset.sum_const, Finset.card_range, smul_eq_mul, Nat.mul_one] at hall
  unfold State.queued State.retained State.evicted State.lost at hall
  simp only [hones, Lane.evicted, List.length_take] at hall
  have hevicted : ∀ k, min ((s.lane k).history.length - (s.lane k).ring.length)
      (s.lane k).history.length = (s.lane k).history.length - (s.lane k).ring.length := by
    intro k
    omega
  simp only [hevicted] at hall
  omega

omit [DecidableEq ι] in
/-- The three counters of drops. -/
theorem Ledger.counted (h : Ledger s) : ∃ unregistered capacity closed,
    s.counters.dropUnregistered = .ofNat unregistered ∧ s.counters.dropCapacity = .ofNat capacity ∧
      s.counters.dropClosed = .ofNat closed ∧
      unregistered + capacity + closed = s.dropped.length :=
  ⟨_, _, _, h.books.dropUnregistered, h.books.dropCapacity.trans (UInt64.ofNat_add _ _).symm,
    h.books.dropClosed, (length_eq_countP s.dropped).symm⟩

/-- What holds of every state. -/
structure Conserved (s : State ι reg) : Prop where
  /-- The event of a call is in one place. -/
  once : ∀ call, s.inFlight (one call) + s.queued (one call) + s.retained (one call) +
    s.evicted (one call) + s.lost (one call) = if call < s.calls then 1 else 0
  books : s.books.Exact
  owned : Owned s
  share : ∀ k, (s.lane k).ring.length ≤ reg.usageShare k
  /-- The counters are 64-bit and wrap. -/
  total : s.inFlight (fun _ => 1) = 0 →
    s.counters.dropUnregistered + s.counters.dropCapacity + s.counters.dropClosed +
      s.counters.usageEvictions + .ofNat (∑ k, (s.lane k).queue.length) +
      .ofNat (∑ k, (s.lane k).ring.length) = .ofNat s.calls
  /-- For fewer calls the sum is one of numbers. -/
  exact : s.inFlight (fun _ => 1) = 0 → s.calls < UInt64.size →
    s.counters.dropUnregistered.toNat + s.counters.dropCapacity.toNat +
      s.counters.dropClosed.toNat + s.counters.usageEvictions.toNat +
      ∑ k, (s.lane k).queue.length + ∑ k, (s.lane k).ring.length = s.calls

omit [DecidableEq ι] in
theorem Ledger.conserved (h : Ledger s) : Conserved s where
  once call := by
    rw [h.places]
    unfold one
    rw [Finset.sum_ite_eq']
    simp only [Finset.mem_range]
  books := h.books
  owned := h.owned
  share k := by
    have hring : (s.lane k).ring.length = (s.lane k).history.length -
        ((s.lane k).history.length - reg.usageShare k) :=
      (congrArg List.length (h.books.recent k)).trans List.length_drop
    omega
  total hflight := by
    have hnumbers := h.numbers hflight
    have hevictions : s.counters.usageEvictions = _ := h.books.usageEvictions
    obtain ⟨unregistered, capacity, closed, hunregistered, hcapacity, hclosed, hdrops⟩ := h.counted
    rw [hunregistered, hcapacity, hclosed, hevictions]
    simp only [← UInt64.ofNat_add, State.books]
    congr 1
    omega
  exact hflight hcalls := by
    have hnumbers := h.numbers hflight
    have hevictions : s.counters.usageEvictions = _ := h.books.usageEvictions
    obtain ⟨unregistered, capacity, closed, hunregistered, hcapacity, hclosed, hdrops⟩ := h.counted
    rw [hunregistered, hcapacity, hclosed, hevictions]
    simp only [State.books]
    -- none of the four wraps, being part of the calls
    rw [UInt64.toNat_ofNat_of_lt' (by omega), UInt64.toNat_ofNat_of_lt' (by omega),
      UInt64.toNat_ofNat_of_lt' (by omega), UInt64.toNat_ofNat_of_lt' (by omega)]
    omega

theorem sum_share (total : ℕ) (reg : Registry) :
    ∑ k, Cache.partition total reg.tenantCount k = if reg.tenantCount = 0 then 0 else total := by
  split
  · rename_i hnone
    have hempty : IsEmpty (Fin reg.tenantCount) := by
      rw [hnone]
      exact Fin.isEmpty
    rw [Finset.univ_eq_empty, Finset.sum_empty]
  · rename_i hsome
    exact Cache.sum_partition total (Nat.pos_of_ne_zero hsome)

/-- **Usage events are conserved and tenants isolated**, in every run. -/
theorem usage_conserved (reg : Registry) (es : List (Event ι)) :
    Run.States apply Conserved (start ι reg) es ∧ Run.Steps apply Isolated (start ι reg) es ∧
      (∑ k, reg.ingestShare k = if reg.tenantCount = 0 then 0 else ingestChannelCapacity) ∧
      ∑ k, reg.usageShare k = if reg.tenantCount = 0 then 0 else maxRetainedEvents := by
  have hany : Run.Steps apply (fun _ _ => True) (start ι reg) es := Run.Steps.true
  refine ⟨?_, ?_, sum_share _ reg, sum_share _ reg⟩
  · exact (hany.states (fun _ e h _ => h.apply e) ledger_start).mono fun _ h => h.conserved
  · exact hany.imp (fun _ e h _ => h.apply e) (fun _ e h _ => h.isolated e) owned_start

/-- Without tenants there is nothing to share. -/
theorem no_share_without_tenants :
    ∑ k, (Registry.new []).usageShare k ≠ maxRetainedEvents := by
  have hnone : (Registry.new []).tenantCount = 0 := by
    change (Finset.sort ([] : List String).toFinset).length = 0
    rw [Finset.length_sort]
    rfl
  have hsum := sum_share maxRetainedEvents (Registry.new [])
  rw [if_pos hnone] at hsum
  change ∑ k, Cache.partition maxRetainedEvents (Registry.new []).tenantCount k ≠ _
  rw [hsum]
  exact nofun

end Routeplane.Usage
