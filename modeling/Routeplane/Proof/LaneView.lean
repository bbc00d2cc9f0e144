import Routeplane.Cache.Lanes
import Routeplane.Lib.Rollup
import Routeplane.Lib.Wakeup
import Routeplane.Proof.Capacity

/-!
# The writer lanes, seen from one lane

Each lane is a lane of work with a wakeup flag: what a party does at one lane is a step there, and
the others do not see it.

* `view`: the state as one lane sees it.
* `view_stepCaller`, `view_stepWriter`, `view_apply`: every event is a step of each lane.
-/

namespace Routeplane.Cache.Lanes

open Limits (u64Max)

variable {ι : Type*} [Fintype ι] [DecidableEq ι] {plan : TenantCapacityPlan}
  {s : State ι plan} {i : ι} {k : Fin plan.tenantCount}

/-! ## What one lane sees -/

/-- Whether a caller has put something into the lane and not tried its flag. -/
def CallerPhase.schedules (k : Fin plan.tenantCount) : CallerPhase plan → ℕ
  | .scheduling k' _ => if k' = k then 1 else 0
  | _ => 0

def CallerPhase.signals (k : Fin plan.tenantCount) : CallerPhase plan → ℕ
  | .signalling k' _ => if k' = k then 1 else 0
  | _ => 0

/-- What a caller has reserved and neither put in nor given back. -/
def CallerPhase.holds (k : Fin plan.tenantCount) : CallerPhase plan → ℕ
  | .sending k' _ entry | .refused k' _ entry => if k' = k then entry.cost else 0
  | _ => 0

/-- What makes a caller count at the lane is not there. -/
structure CallerPhase.Quiet (k : Fin plan.tenantCount) (phase : CallerPhase plan) : Prop where
  schedules : phase.schedules k = 0
  signals : phase.signals k = 0
  holds : phase.holds k = 0

/-- The lane a caller is at. -/
def CallerPhase.lane : CallerPhase plan → Option (Fin plan.tenantCount)
  | idle | waiting _ => none
  | loading k _ _ | reserving k _ _ _ | sending k _ _ | refused k _ _ => some k
  | scheduling k _ | signalling k _ | unscheduling k _ => some k
  | flushing next => if h : next < plan.tenantCount then some ⟨next, h⟩ else none

theorem CallerPhase.quiet_of_lane {phase : CallerPhase plan} (h : phase.lane ≠ some k) :
    phase.Quiet k := by
  have hne : ∀ k', some k' ≠ some k → k' ≠ k := fun k' hk heq => hk (congrArg some heq)
  cases phase with
  | sending k' key entry => exact ⟨rfl, rfl, if_neg (hne k' h)⟩
  | refused k' key entry => exact ⟨rfl, rfl, if_neg (hne k' h)⟩
  | scheduling k' errand => exact ⟨if_neg (hne k' h), rfl, rfl⟩
  | signalling k' errand => exact ⟨rfl, if_neg (hne k' h), rfl⟩
  | _ => exact ⟨rfl, rfl, rfl⟩

theorem Errand.next_quiet (errand : Errand) (k : Fin plan.tenantCount) :
    (errand.next : CallerPhase plan).Quiet k := by
  cases errand with
  | insert => exact ⟨rfl, rfl, rfl⟩
  | flush next => exact ⟨rfl, rfl, rfl⟩

/-- The lane of the writer's turn, and where in the turn it is. -/
def WriterPhase.turn : WriterPhase ι plan → Option (Fin plan.tenantCount × Wakeup.Hand (LaneOp ι))
  | merging | choosing | waiting => none
  | taking k => some (k, .taking)
  | stale k => some (k, .stale)
  | applying k op => some (k, .applying op)
  | dropping k op => some (k, .dropping op)
  | finishing k => some (k, .finishing)
  | clearing k => some (k, .clearing)
  | rechecking k => some (k, .rechecking)
  | rescheduling k => some (k, .rescheduling)

def WriterPhase.hand (k : Fin plan.tenantCount) (w : WriterPhase ι plan) :
    Wakeup.Hand (LaneOp ι) :=
  match w.turn with
  | none => .away
  | some (k', hand) => if k' = k then hand else .away

/-- The state as one lane sees it. -/
def view (s : State ι plan) (k : Fin plan.tenantCount) : Wakeup.Lane (LaneOp ι) where
  queue := s.lanes k
  pending := s.pending k
  flag := s.scheduled k
  tokens := s.ready.count k + s.localReady.count k
  hand := s.writer.hand k
  signalling := ∑ i, (s.caller i).signals k
  scheduling := ∑ i, (s.caller i).schedules k
  reserved := ∑ i, (s.caller i).holds k
  weight := s.queuedBytes k
  accepted := s.accepted k
  applied := s.applied k
  finished := s.finished k

/-- What a lane sees of a caller that moves. -/
theorem view_goto (s : State ι plan) (i : ι) (phase : CallerPhase plan)
    (k : Fin plan.tenantCount) :
    view (s.goto i phase) k =
      { view s k with
        signalling := (view s k).signalling - (s.caller i).signals k + phase.signals k
        scheduling := (view s k).scheduling - (s.caller i).schedules k + phase.schedules k
        reserved := (view s k).reserved - (s.caller i).holds k + phase.holds k } := by
  unfold view State.goto
  simp only
  rw [Tally.update (CallerPhase.signals k), Tally.update (CallerPhase.schedules k),
    Tally.update (CallerPhase.holds k)]

theorem fetchSub_eq {counter n : ℕ} (hle : n ≤ counter) (hcounter : counter ≤ u64Max) :
    fetchSub counter n = counter - n := by
  have hlt : counter < 2 ^ 64 := by
    unfold u64Max at hcounter
    omega
  unfold fetchSub
  rw [Nat.sub_add_comm hle, Nat.add_mod_right, Nat.mod_eq_of_lt (by omega)]

theorem writerBudgets_le (plan : TenantCapacityPlan) (k : Fin plan.tenantCount) :
    plan.writerBudgets k ≤ u64Max := by
  have hnonneg : ∀ j ∈ Finset.univ, 0 ≤ plan.writerBudgets j := fun _ _ => Nat.zero_le _
  have hcount : 0 < plan.tenantCount := Nat.lt_of_le_of_lt (Nat.zero_le _) k.isLt
  calc plan.writerBudgets k
      ≤ ∑ j, plan.writerBudgets j := Finset.single_le_sum hnonneg (Finset.mem_univ k)
    _ = plan.writerBudgetBytes := sum_partition _ hcount
    _ ≤ plan.budgetBytes := Nat.le_trans (Nat.min_le_left _ _) (Nat.div_le_self _ 2)
    _ ≤ u64Max := plan.bounded

/-! ## Every event is a step of each lane -/

/-- What holds in every state. -/
structure Inv (s : State ι plan) : Prop where
  lanes : ∀ k, Wakeup.Inv LaneOp.cost (plan.writerBudgets k) (view s k)
  sent : ∀ i k errand, s.caller i ≠ .unscheduling k errand
  idle : s.writer = .waiting → s.localReady = []

omit [DecidableEq ι] in
/-- **One token for each lane** in the two queues. -/
theorem Inv.tokens_nodup (h : Inv s) : (s.ready ++ s.localReady).Nodup := by
  rw [List.nodup_iff_count_le_one]
  intro k
  rw [List.count_append]
  exact (h.lanes k).tokens_le

omit [DecidableEq ι] in
/-- So the ready queue has a slot to spare. -/
theorem Inv.ready_le (h : Inv s) : s.ready.length ≤ plan.tenantCount := by
  have hnodup : s.ready.Nodup := h.tokens_nodup.of_append_left
  have hcard := hnodup.length_le_card
  rw [Fintype.card_fin] at hcard
  exact hcard

omit [DecidableEq ι] in
theorem Inv.room (h : Inv s) : s.ready.length < plan.tenantCount + 1 :=
  Nat.lt_succ_of_le h.ready_le

variable {laneCapacity : ℕ+} {shard : CacheKey → Fin cacheShardCount}

/-- A lane sees nothing of a caller that moves at another. -/
theorem view_goto_of_quiet {s' : State ι plan} {phase : CallerPhase plan}
    (hview : view s' k = view s k) (hcaller : s'.caller = s.caller)
    (hbefore : (s.caller i).Quiet k) (hafter : phase.Quiet k) :
    view (s'.goto i phase) k = view s k := by
  rw [view_goto, hview, hcaller, hbefore.schedules, hbefore.signals, hbefore.holds,
    hafter.schedules, hafter.signals, hafter.holds]
  rfl

omit [DecidableEq ι] in
theorem view_send_self (s : State ι plan) (k : Fin plan.tenantCount) (op : LaneOp ι) :
    view (s.send k op) k =
      { view s k with
        queue := (view s k).queue ++ [op]
        accepted := (view s k).accepted ++ [op] } := by
  unfold view State.send
  simp only [Function.update_self]

omit [DecidableEq ι] in
theorem view_send_of_ne {k' : Fin plan.tenantCount} (hne : k ≠ k') (op : LaneOp ι) :
    view (s.send k' op) k = view s k := by
  unfold view State.send
  simp only [Function.update_of_ne hne]

theorem view_stepCaller_of_ne (hlane : (s.caller i).lane ≠ some k) :
    view (stepCaller laneCapacity s i) k = view s k := by
  have hquiet := CallerPhase.quiet_of_lane hlane
  have hne : ∀ {k'}, (s.caller i).lane = some k' → k ≠ k' :=
    fun hat heq => hlane (heq ▸ hat)
  unfold stepCaller
  cases hphase : s.caller i with
  | idle => rfl
  | loading k' key entry => exact view_goto_of_quiet rfl rfl hquiet ⟨rfl, rfl, rfl⟩
  | reserving k' key entry current =>
    rw [hphase] at hlane
    simp only
    split
    · exact view_goto_of_quiet rfl rfl hquiet ⟨rfl, rfl, rfl⟩
    · split
      · refine view_goto_of_quiet ?_ rfl hquiet (CallerPhase.quiet_of_lane hlane)
        unfold view
        simp only [Function.update_of_ne (hne (congrArg _ hphase))]
      · exact view_goto_of_quiet rfl rfl hquiet ⟨rfl, rfl, rfl⟩
  | sending k' key entry =>
    rw [hphase] at hlane
    simp only
    split
    · exact view_goto_of_quiet (view_send_of_ne (hne (congrArg _ hphase)) _) rfl hquiet
        (CallerPhase.quiet_of_lane hlane)
    · exact view_goto_of_quiet rfl rfl hquiet (CallerPhase.quiet_of_lane hlane)
  | refused k' key entry =>
    refine view_goto_of_quiet ?_ rfl hquiet ⟨rfl, rfl, rfl⟩
    unfold view State.dropWrite
    simp only [Function.update_of_ne (hne (congrArg _ hphase))]
  | scheduling k' errand =>
    rw [hphase] at hlane
    simp only
    split
    · exact view_goto_of_quiet rfl rfl hquiet (errand.next_quiet k)
    · refine view_goto_of_quiet ?_ rfl hquiet (CallerPhase.quiet_of_lane hlane)
      unfold view
      simp only [Function.update_of_ne (hne (congrArg _ hphase))]
  | signalling k' errand =>
    simp only
    split
    · refine view_goto_of_quiet ?_ rfl hquiet (errand.next_quiet k)
      have hcount : [k'].count k = 0 :=
        List.count_singleton.trans (if_neg fun heq => hne (congrArg _ hphase) (beq_iff_eq.1 heq).symm)
      unfold view
      simp only [List.count_append, hcount, Nat.add_zero]
    · exact view_goto_of_quiet rfl rfl hquiet ⟨rfl, rfl, rfl⟩
  | unscheduling k' errand =>
    refine view_goto_of_quiet ?_ rfl hquiet (errand.next_quiet k)
    unfold view
    simp only [Function.update_of_ne (hne (congrArg _ hphase))]
  | flushing next =>
    rw [hphase] at hlane
    simp only
    split
    · rename_i hnext
      have hat : CallerPhase.lane (.flushing next : CallerPhase plan) = some ⟨next, hnext⟩ :=
        dif_pos hnext
      rw [hat] at hlane
      split
      · have hlane' : k ≠ ⟨next, hnext⟩ := fun heq => hlane (congrArg some heq.symm)
        exact view_goto_of_quiet (view_send_of_ne hlane' _) rfl hquiet
          (CallerPhase.quiet_of_lane hlane)
      · rfl
    · exact view_goto_of_quiet rfl rfl hquiet ⟨rfl, rfl, rfl⟩
  | waiting remaining =>
    simp only
    split
    · exact view_goto_of_quiet rfl rfl hquiet ⟨rfl, rfl, rfl⟩
    · split
      · rfl
      · exact view_goto_of_quiet rfl rfl hquiet ⟨rfl, rfl, rfl⟩

omit [DecidableEq ι] in
theorem view_dropWrite (s : State ι plan) (k : Fin plan.tenantCount) :
    view s.dropWrite k = view s k := rfl

omit [DecidableEq ι] in
theorem view_counted (s : State ι plan) (k : Fin plan.tenantCount) (n : ℕ) :
    view { s with queuedBytes := Function.update s.queuedBytes k n } k =
      { view s k with weight := n } := by
  unfold view
  simp only [Function.update_self]

omit [DecidableEq ι] in
theorem view_flagged (s : State ι plan) (k : Fin plan.tenantCount) (set : Bool) :
    view { s with scheduled := Function.update s.scheduled k set } k =
      { view s k with flag := set } := by
  unfold view
  simp only [Function.update_self]

omit [DecidableEq ι] in
theorem view_signalled (s : State ι plan) (k : Fin plan.tenantCount) :
    view { s with ready := s.ready ++ [k] } k =
      { view s k with tokens := (view s k).tokens + 1 } := by
  unfold view
  simp only [List.count_append, List.count_singleton_self, Nat.add_right_comm]

/-- What a caller does at a lane is a step of the lane: it reserves, -/
theorem view_reserving {key : CacheKey} {entry : CacheEntry} {current : ℕ}
    (hphase : s.caller i = .reserving k key entry current) :
    Wakeup.Step LaneOp.cost (plan.writerBudgets k) (view s k)
      (view (stepCaller laneCapacity s i) k) := by
  have hbefore : (s.caller i).Quiet k := hphase.symm ▸ ⟨rfl, rfl, rfl⟩
  unfold stepCaller
  rw [hphase]
  simp only
  split
  · have heq : view (s.dropWrite.goto i .idle) k = view s k :=
      view_goto_of_quiet rfl rfl hbefore ⟨rfl, rfl, rfl⟩
    rw [heq]
    exact Wakeup.Step.stay _
  · rename_i hfits
    split
    · -- the exchange finds the sum it read, so the sum grows by the write's own cost
      rename_i hsame
      have hweight : (view s k).weight = current := hsame
      have heq : view ({ s with
          queuedBytes := Function.update s.queuedBytes k (current + entry.cost) }.goto i
            (.sending k key entry)) k =
          { view s k with
            reserved := (view s k).reserved + entry.cost
            weight := (view s k).weight + entry.cost } := by
        rw [view_goto, view_counted, hweight]
        simp only [hphase, CallerPhase.signals, CallerPhase.schedules, CallerPhase.holds, if_true,
          Nat.sub_zero, Nat.add_zero]
      rw [heq]
      refine Wakeup.Step.reserve _ _ ?_
      rw [hweight]
      omega
    · rw [view_goto_of_quiet rfl rfl hbefore ⟨rfl, rfl, rfl⟩]
      exact Wakeup.Step.stay _

/-- sends what it reserved for, -/
theorem view_sending {key : CacheKey} {entry : CacheEntry} (hphase : s.caller i = .sending k key entry) :
    Wakeup.Step LaneOp.cost (plan.writerBudgets k) (view s k)
      (view (stepCaller laneCapacity s i) k) := by
  have hholds : entry.cost ≤ (view s k).reserved := by
    have hle := Tally.le (CallerPhase.holds k) s.caller i
    rw [hphase, CallerPhase.holds, if_pos rfl] at hle
    exact hle
  unfold stepCaller
  rw [hphase]
  simp only
  split
  · have heq : view ((s.send k (.insert key entry)).goto i (.scheduling k .insert)) k =
        { view s k with
          queue := (view s k).queue ++ [LaneOp.insert key entry]
          accepted := (view s k).accepted ++ [LaneOp.insert key entry]
          reserved := (view s k).reserved - entry.cost
          scheduling := (view s k).scheduling + 1 } := by
      rw [view_goto, view_send_self]
      have hcaller : (s.send k (.insert key entry)).caller i = .sending k key entry := hphase
      simp only [hcaller, CallerPhase.signals, CallerPhase.schedules, CallerPhase.holds, if_true,
        Nat.sub_zero, Nat.add_zero]
    rw [heq]
    exact Wakeup.Step.enqueue _ (LaneOp.insert key entry) hholds
  · -- a full lane refuses the write: the reservation is still held
    have heq : view (s.goto i (.refused k key entry)) k = view s k := by
      rw [view_goto]
      simp only [hphase, CallerPhase.signals, CallerPhase.schedules, CallerPhase.holds, if_true,
        Nat.sub_zero, Nat.add_zero, Nat.sub_add_cancel hholds]
    rw [heq]
    exact Wakeup.Step.stay _

/-- gives back what a full lane refuses, -/
theorem view_refused (h : Inv s) {key : CacheKey} {entry : CacheEntry}
    (hphase : s.caller i = .refused k key entry) :
    Wakeup.Step LaneOp.cost (plan.writerBudgets k) (view s k)
      (view (stepCaller laneCapacity s i) k) := by
  have hheld : entry.cost ≤ (view s k).reserved := by
    have hle := Tally.le (CallerPhase.holds k) s.caller i
    rw [hphase, CallerPhase.holds, if_pos rfl] at hle
    exact hle
  have hbytes : entry.cost ≤ s.queuedBytes k := by
    have hweight : s.queuedBytes k = _ := (h.lanes k).weight
    omega
  have hbound : s.queuedBytes k ≤ u64Max :=
    Nat.le_trans (h.lanes k).limit (writerBudgets_le plan k)
  have heq : view ({ s with
        queuedBytes := Function.update s.queuedBytes k
          (fetchSub (s.queuedBytes k) entry.cost) }.dropWrite.goto i .idle) k =
      { view s k with
        reserved := (view s k).reserved - entry.cost
        weight := (view s k).weight - entry.cost } := by
    -- the reservation is part of the sum, so the subtraction does not wrap
    rw [view_goto, view_dropWrite, view_counted, fetchSub_eq hbytes hbound]
    have hcaller : ∀ bytes, ({ s with queuedBytes := bytes } : State ι plan).dropWrite.caller i =
        .refused k key entry := fun _ => hphase
    simp only [hcaller, CallerPhase.signals, CallerPhase.schedules, CallerPhase.holds, if_true,
      Nat.sub_zero, Nat.add_zero]
    rfl
  unfold stepCaller
  rw [hphase]
  simp only
  rw [heq]
  exact Wakeup.Step.refuse _ _ hheld

/-- tries the flag, -/
theorem view_scheduling {errand : Errand} (hphase : s.caller i = .scheduling k errand) :
    Wakeup.Step LaneOp.cost (plan.writerBudgets k) (view s k)
      (view (stepCaller laneCapacity s i) k) := by
  have hnext := errand.next_quiet k
  unfold stepCaller
  rw [hphase]
  simp only
  split
  · rename_i hflag
    have heq : view (s.goto i errand.next) k =
        { view s k with scheduling := (view s k).scheduling - 1 } := by
      rw [view_goto, hnext.schedules, hnext.signals, hnext.holds]
      simp only [hphase, CallerPhase.signals, CallerPhase.schedules, CallerPhase.holds, if_true,
        Nat.sub_zero, Nat.add_zero]
    rw [heq]
    exact Wakeup.Step.lose _ hflag
  · rename_i hflag
    have heq : view ({ s with
          scheduled := Function.update s.scheduled k true }.goto i (.signalling k errand)) k =
        { view s k with
          flag := true
          scheduling := (view s k).scheduling - 1
          signalling := (view s k).signalling + 1 } := by
      rw [view_goto, view_flagged]
      simp only [hphase, CallerPhase.signals, CallerPhase.schedules, CallerPhase.holds, if_true,
        Nat.sub_zero, Nat.add_zero]
    rw [heq]
    exact Wakeup.Step.win _ (Bool.eq_false_iff.2 hflag)

/-- sends the token, for which the ready queue has room, -/
theorem view_signalling (h : Inv s) {errand : Errand}
    (hphase : s.caller i = .signalling k errand) :
    Wakeup.Step LaneOp.cost (plan.writerBudgets k) (view s k)
      (view (stepCaller laneCapacity s i) k) := by
  have hnext := errand.next_quiet k
  have hsent : 0 < (view s k).signalling := by
    have hsignals := Tally.le (CallerPhase.signals k) s.caller i
    rw [hphase, CallerPhase.signals, if_pos rfl] at hsignals
    exact hsignals
  unfold stepCaller
  rw [hphase]
  simp only
  rw [if_pos h.room]
  have heq : view ({ s with ready := s.ready ++ [k] }.goto i errand.next) k =
      { view s k with
        signalling := (view s k).signalling - 1
        tokens := (view s k).tokens + 1 } := by
    rw [view_goto, view_signalled, hnext.schedules, hnext.signals, hnext.holds]
    simp only [hphase, CallerPhase.signals, CallerPhase.schedules, CallerPhase.holds, if_true,
      Nat.sub_zero, Nat.add_zero]
  rw [heq]
  exact Wakeup.Step.signal _ hsent

/-- and puts a barrier in where it flushes. -/
theorem view_flushing {next : ℕ} (hphase : s.caller i = .flushing next)
    (hlane : (s.caller i).lane = some k) :
    Wakeup.Step LaneOp.cost (plan.writerBudgets k) (view s k)
      (view (stepCaller laneCapacity s i) k) := by
  have hbefore : (s.caller i).Quiet k := hphase.symm ▸ ⟨rfl, rfl, rfl⟩
  unfold stepCaller
  rw [hphase]
  simp only
  split
  · rename_i hnext
    obtain rfl : (⟨next, hnext⟩ : Fin plan.tenantCount) = k := by
      rw [hphase, CallerPhase.lane, dif_pos hnext] at hlane
      exact Option.some.inj hlane
    split
    · have heq : view ((s.send ⟨next, hnext⟩ (.barrier i)).goto i
            (.scheduling ⟨next, hnext⟩ (.flush next))) ⟨next, hnext⟩ =
          { view s ⟨next, hnext⟩ with
            queue := (view s ⟨next, hnext⟩).queue ++ [LaneOp.barrier i]
            accepted := (view s ⟨next, hnext⟩).accepted ++ [LaneOp.barrier i]
            scheduling := (view s ⟨next, hnext⟩).scheduling + 1 } := by
        rw [view_goto, view_send_self]
        have hcaller : (s.send ⟨next, hnext⟩ (.barrier i)).caller i = .flushing next := hphase
        simp only [hcaller, CallerPhase.signals, CallerPhase.schedules, CallerPhase.holds,
          if_true, Nat.sub_zero, Nat.add_zero]
      rw [heq]
      -- a barrier costs nothing, so nothing has to be reserved for it
      exact Wakeup.Step.enqueue _ (LaneOp.barrier i) (Nat.zero_le _)
    · exact Wakeup.Step.stay _
  · rw [view_goto_of_quiet rfl rfl hbefore ⟨rfl, rfl, rfl⟩]
    exact Wakeup.Step.stay _

/-- Whatever a caller does is a step of every lane: at its own by its phase, elsewhere none. -/
theorem view_stepCaller (h : Inv s) (i : ι) (k : Fin plan.tenantCount) :
    Wakeup.Step LaneOp.cost (plan.writerBudgets k) (view s k)
      (view (stepCaller laneCapacity s i) k) := by
  by_cases hlane : (s.caller i).lane = some k
  swap
  · rw [view_stepCaller_of_ne hlane]
    exact Wakeup.Step.stay _
  have hown : ∀ {k' : Fin plan.tenantCount} {phase : CallerPhase plan}, s.caller i = phase →
      phase.lane = some k' → k' = k := by
    intro k' phase hphase hat
    rw [hphase, hat] at hlane
    exact Option.some.inj hlane
  cases hphase : s.caller i with
  | idle =>
    unfold stepCaller
    rw [hphase]
    exact Wakeup.Step.stay _
  | loading k' key entry =>
    have hbefore : (s.caller i).Quiet k := hphase.symm ▸ ⟨rfl, rfl, rfl⟩
    have heq : view (s.goto i (.reserving k' key entry (s.queuedBytes k'))) k = view s k :=
      view_goto_of_quiet rfl rfl hbefore ⟨rfl, rfl, rfl⟩
    unfold stepCaller
    rw [hphase]
    simp only
    rw [heq]
    exact Wakeup.Step.stay _
  | reserving k' key entry current =>
    obtain rfl := hown hphase rfl
    exact view_reserving hphase
  | sending k' key entry =>
    obtain rfl := hown hphase rfl
    exact view_sending hphase
  | refused k' key entry =>
    obtain rfl := hown hphase rfl
    exact view_refused h hphase
  | scheduling k' errand =>
    obtain rfl := hown hphase rfl
    exact view_scheduling hphase
  | signalling k' errand =>
    obtain rfl := hown hphase rfl
    exact view_signalling h hphase
  | unscheduling k' errand => exact absurd hphase (h.sent i k' errand)
  | flushing next => exact view_flushing hphase hlane
  | waiting remaining =>
    rw [hphase] at hlane
    cases hlane

omit [DecidableEq ι] in
theorem view_hand {hand : Wakeup.Hand (LaneOp ι)} (h : s.writer.turn = some (k, hand)) :
    (view s k).hand = hand := by
  show s.writer.hand k = hand
  unfold WriterPhase.hand
  rw [h]
  exact if_pos rfl

/-- What the writer does in its turn at a lane, the other lanes do not see. -/
theorem view_stepWriter_of_ne (hbusy : s.writer.turn ≠ none)
    (hother : ∀ k' hand, s.writer.turn = some (k', hand) → k' ≠ k) (now : ℕ) :
    view (stepWriter shard now s) k = view s k := by
  have hne : ∀ {k' hand}, s.writer.turn = some (k', hand) → k' ≠ k := fun h => hother _ _ h
  have hcount : ∀ {k' : Fin plan.tenantCount}, k' ≠ k → [k'].count k = 0 := fun hk =>
    List.count_singleton.trans (if_neg fun heq => hk (beq_iff_eq.1 heq))
  unfold stepWriter
  cases hphase : s.writer with
  | merging => exact absurd (congrArg WriterPhase.turn hphase) hbusy
  | choosing => exact absurd (congrArg WriterPhase.turn hphase) hbusy
  | waiting => exact absurd (congrArg WriterPhase.turn hphase) hbusy
  | taking k' =>
    have hk := hne (congrArg WriterPhase.turn hphase)
    simp only
    split
    · simp only [view, hphase, WriterPhase.hand, WriterPhase.turn, if_neg hk,
        Function.update_of_ne hk.symm]
    · split
      · simp only [view, hphase, WriterPhase.hand, WriterPhase.turn, if_neg hk]
      · simp only [view, hphase, WriterPhase.hand, WriterPhase.turn, if_neg hk,
          Function.update_of_ne hk.symm]
  | stale k' =>
    have hk := hne (congrArg WriterPhase.turn hphase)
    simp only [view, hphase, WriterPhase.hand, WriterPhase.turn, if_neg hk,
      Function.update_of_ne hk.symm]
  | applying k' op =>
    have hk := hne (congrArg WriterPhase.turn hphase)
    simp only [view, hphase, WriterPhase.hand, WriterPhase.turn, if_neg hk,
      Function.update_of_ne hk.symm]
  | dropping k' op =>
    have hk := hne (congrArg WriterPhase.turn hphase)
    simp only [view, hphase, WriterPhase.hand, WriterPhase.turn, if_neg hk,
      Function.update_of_ne hk.symm]
  | finishing k' =>
    have hk := hne (congrArg WriterPhase.turn hphase)
    simp only
    split
    · simp only [view, hphase, WriterPhase.hand, WriterPhase.turn, if_neg hk]
    · simp only [view, hphase, WriterPhase.hand, WriterPhase.turn, if_neg hk,
        Function.update_of_ne hk.symm, List.count_append, hcount hk, Nat.add_zero]
  | clearing k' =>
    have hk := hne (congrArg WriterPhase.turn hphase)
    simp only [view, hphase, WriterPhase.hand, WriterPhase.turn, if_neg hk,
      Function.update_of_ne hk.symm]
  | rechecking k' =>
    have hk := hne (congrArg WriterPhase.turn hphase)
    simp only
    split
    · simp only [view, hphase, WriterPhase.hand, WriterPhase.turn, if_neg hk]
    · simp only [view, hphase, WriterPhase.hand, WriterPhase.turn, if_neg hk,
        Function.update_of_ne hk.symm]
  | rescheduling k' =>
    have hk := hne (congrArg WriterPhase.turn hphase)
    simp only
    split
    · simp only [view, hphase, WriterPhase.hand, WriterPhase.turn, if_neg hk]
    · simp only [view, hphase, WriterPhase.hand, WriterPhase.turn, if_neg hk,
        Function.update_of_ne hk.symm, List.count_append, hcount hk, Nat.add_zero]

omit [Fintype ι] [DecidableEq ι] in
theorem hand_of_turn_none {w : WriterPhase ι plan} (h : w.turn = none)
    (k : Fin plan.tenantCount) : w.hand k = .away := by
  unfold WriterPhase.hand
  rw [h]

omit [Fintype ι] [DecidableEq ι] in
theorem turn_of_hand {w : WriterPhase ι plan} {hand : Wakeup.Hand (LaneOp ι)}
    (h : w.hand k = hand) (hne : hand ≠ .away) : w.turn = some (k, hand) := by
  unfold WriterPhase.hand at h
  split at h
  · exact absurd h.symm hne
  · rename_i k' hand' hturn
    split at h
    · rename_i hk
      rw [hturn, hk, h]
    · exact absurd h.symm hne

omit [Fintype ι] [DecidableEq ι] in
theorem writer_of_turn_stale {w : WriterPhase ι plan} (h : w.turn = some (k, .stale)) :
    w = .stale k := by
  cases w with
  | stale k' =>
    cases h
    rfl
  | _ => cases h

omit [Fintype ι] [DecidableEq ι] in
theorem writer_of_turn_applying {w : WriterPhase ι plan} {op : LaneOp ι}
    (h : w.turn = some (k, .applying op)) : w = .applying k op := by
  cases w with
  | applying k' op' =>
    cases h
    rfl
  | _ => cases h

omit [DecidableEq ι] in
/-- Between turns the writer is at no lane. -/
theorem view_between {w : WriterPhase ι plan} (hbefore : s.writer.turn = none)
    (hafter : w.turn = none) (k : Fin plan.tenantCount) :
    view { s with writer := w } k = view s k := by
  unfold view
  simp only [hand_of_turn_none hbefore, hand_of_turn_none hafter]

omit [DecidableEq ι] in
/-- A token that moves from one queue to the other is the same token. -/
theorem view_merged {w : WriterPhase ι plan} {k' : Fin plan.tenantCount}
    {rest : List (Fin plan.tenantCount)} (hready : s.ready = k' :: rest)
    (hbefore : s.writer.turn = none) (hafter : w.turn = none) (k : Fin plan.tenantCount) :
    view { s with ready := rest, localReady := s.localReady ++ [k'], writer := w } k =
      view s k := by
  have htokens : rest.count k + (s.localReady ++ [k']).count k =
      s.ready.count k + s.localReady.count k := by
    rw [hready, List.count_append, List.count_singleton, List.count_cons]
    omega
  unfold view
  simp only [htokens, hand_of_turn_none hbefore, hand_of_turn_none hafter]

/-- Between turns the tokens move, and a turn takes one. -/
theorem view_choosing (hphase : s.writer = .choosing) (now : ℕ) (k : Fin plan.tenantCount) :
    Wakeup.Step LaneOp.cost (plan.writerBudgets k) (view s k)
      (view (stepWriter shard now s) k) := by
  unfold stepWriter
  rw [hphase]
  have hturn : s.writer.turn = none := congrArg WriterPhase.turn hphase
  simp only
  split
  · rw [view_between (w := .waiting) hturn rfl]
    exact Wakeup.Step.stay _
  · rename_i k' rest hlocal
    by_cases hk : k' = k
    · subst hk
      have htokens : (view s k').tokens = s.ready.count k' + rest.count k' + 1 := by
        show s.ready.count k' + s.localReady.count k' = _
        rw [hlocal, List.count_cons_self, Nat.add_assoc]
      have heq : view { s with localReady := rest, writer := .taking k' } k' =
          { view s k' with tokens := (view s k').tokens - 1, hand := .taking } := by
        rw [htokens]
        simp only [view, WriterPhase.hand, WriterPhase.turn, if_true, Nat.add_sub_cancel]
      rw [heq]
      exact Wakeup.Step.take _ (hand_of_turn_none hturn k') (htokens ▸ Nat.succ_pos _)
    · have heq : view { s with localReady := rest, writer := .taking k' } k = view s k := by
        simp only [view, hphase, hlocal, WriterPhase.hand, WriterPhase.turn, if_neg hk,
          List.count_cons_of_ne hk]
      rw [heq]
      exact Wakeup.Step.stay _

/-- It takes what is pending before it looks at the queue. -/
theorem view_taking (hphase : s.writer = .taking k) (now : ℕ) :
    Wakeup.Step LaneOp.cost (plan.writerBudgets k) (view s k)
      (view (stepWriter shard now s) k) := by
  unfold stepWriter
  rw [hphase]
  have hhand := view_hand (congrArg WriterPhase.turn hphase)
  simp only
  split
  · rename_i op hpending
    have heq : view { s with
          pending := Function.update s.pending k none, writer := .applying k op } k =
        { view s k with pending := none, hand := .applying op } := by
      simp only [view, hphase, WriterPhase.hand, WriterPhase.turn, if_true, Function.update_self]
    rw [heq]
    exact Wakeup.Step.pick _ op hhand hpending
  · rename_i hpending
    split
    · rename_i hqueue
      have heq : view { s with writer := .stale k } k = { view s k with hand := .stale } := by
        simp only [view, hphase, WriterPhase.hand, WriterPhase.turn, if_true]
      rw [heq]
      exact Wakeup.Step.miss _ hhand hpending hqueue
    · rename_i op rest hqueue
      have heq : view { s with
            lanes := Function.update s.lanes k rest, writer := .applying k op } k =
          { view s k with queue := rest, hand := .applying op } := by
        simp only [view, hphase, WriterPhase.hand, WriterPhase.turn, if_true,
          Function.update_self]
      rw [heq]
      exact Wakeup.Step.pull _ op rest hhand hpending hqueue

/-- Nothing was there: the flag goes down. -/
theorem view_stale (hphase : s.writer = .stale k) (now : ℕ) :
    Wakeup.Step LaneOp.cost (plan.writerBudgets k) (view s k)
      (view (stepWriter shard now s) k) := by
  unfold stepWriter
  rw [hphase]
  have heq : view { s with
        scheduled := Function.update s.scheduled k false, writer := .merging } k =
      { view s k with flag := false, hand := .away } := by
    simp only [view, hphase, WriterPhase.hand, WriterPhase.turn, Function.update_self]
  simp only
  rw [heq]
  exact Wakeup.Step.settle _ (view_hand (congrArg WriterPhase.turn hphase))

theorem view_applying {op : LaneOp ι} (hphase : s.writer = .applying k op) (now : ℕ) :
    Wakeup.Step LaneOp.cost (plan.writerBudgets k) (view s k)
      (view (stepWriter shard now s) k) := by
  unfold stepWriter
  rw [hphase]
  have heq : view { s with
        core := op.applyTo shard now s.core
        acks := op.ack s.acks
        applied := Function.update s.applied k (s.applied k ++ [op])
        writer := .dropping k op } k =
      { view s k with applied := (view s k).applied ++ [op], hand := .dropping op } := by
    simp only [view, WriterPhase.hand, WriterPhase.turn, if_true, Function.update_self]
  simp only
  rw [heq]
  exact Wakeup.Step.apply _ op (view_hand (congrArg WriterPhase.turn hphase))

/-- The bytes of the operation are given back, those of a barrier are none. -/
theorem view_dropping (h : Inv s) {op : LaneOp ι} (hphase : s.writer = .dropping k op) (now : ℕ) :
    Wakeup.Step LaneOp.cost (plan.writerBudgets k) (view s k)
      (view (stepWriter shard now s) k) := by
  unfold stepWriter
  rw [hphase]
  have hhand := view_hand (congrArg WriterPhase.turn hphase)
  have hbytes : op.dropFrom (s.queuedBytes k) = s.queuedBytes k - op.cost := by
    cases op with
    | insert key entry =>
      exact fetchSub_eq ((h.lanes k).cost_le hhand)
        (Nat.le_trans (h.lanes k).limit (writerBudgets_le plan k))
    | barrier j => rfl
  have heq : view { s with
        queuedBytes := Function.update s.queuedBytes k (op.dropFrom (s.queuedBytes k))
        finished := Function.update s.finished k (s.finished k ++ [op])
        writer := .finishing k } k =
      { view s k with
        finished := (view s k).finished ++ [op]
        weight := (view s k).weight - op.cost
        hand := .finishing } := by
    simp only [view, WriterPhase.hand, WriterPhase.turn, if_true, Function.update_self, hbytes]
  simp only
  rw [heq]
  exact Wakeup.Step.drop _ op hhand

/-- It goes on to the next lane, or clears the flag of this one. -/
theorem view_finishing (hphase : s.writer = .finishing k) (now : ℕ) :
    Wakeup.Step LaneOp.cost (plan.writerBudgets k) (view s k)
      (view (stepWriter shard now s) k) := by
  unfold stepWriter
  rw [hphase]
  have hhand := view_hand (congrArg WriterPhase.turn hphase)
  simp only
  split
  · rename_i hqueue
    have heq : view { s with writer := .clearing k } k =
        { view s k with hand := .clearing } := by
      simp only [view, WriterPhase.hand, WriterPhase.turn, if_true]
    rw [heq]
    exact Wakeup.Step.done _ hhand hqueue
  · rename_i op rest hqueue
    have heq : view { s with
          lanes := Function.update s.lanes k rest
          pending := Function.update s.pending k (some op)
          localReady := s.localReady ++ [k]
          writer := .merging } k =
        { view s k with
          queue := rest
          pending := some op
          tokens := (view s k).tokens + 1
          hand := .away } := by
      simp only [view, WriterPhase.hand, WriterPhase.turn, Function.update_self,
        List.count_append, List.count_singleton_self, Nat.add_assoc]
    rw [heq]
    exact Wakeup.Step.more _ op rest hhand hqueue

theorem view_clearing (hphase : s.writer = .clearing k) (now : ℕ) :
    Wakeup.Step LaneOp.cost (plan.writerBudgets k) (view s k)
      (view (stepWriter shard now s) k) := by
  unfold stepWriter
  rw [hphase]
  have heq : view { s with
        scheduled := Function.update s.scheduled k false, writer := .rechecking k } k =
      { view s k with flag := false, hand := .rechecking } := by
    simp only [view, WriterPhase.hand, WriterPhase.turn, if_true, Function.update_self]
  simp only
  rw [heq]
  exact Wakeup.Step.clear _ (view_hand (congrArg WriterPhase.turn hphase))

/-- What came in between the last look and the flag going down is found here. -/
theorem view_rechecking (hphase : s.writer = .rechecking k) (now : ℕ) :
    Wakeup.Step LaneOp.cost (plan.writerBudgets k) (view s k)
      (view (stepWriter shard now s) k) := by
  unfold stepWriter
  rw [hphase]
  have hhand := view_hand (congrArg WriterPhase.turn hphase)
  simp only
  split
  · rename_i hqueue
    have heq : view { s with writer := .merging } k = { view s k with hand := .away } := by
      simp only [view, WriterPhase.hand, WriterPhase.turn]
    rw [heq]
    exact Wakeup.Step.idle _ hhand hqueue
  · rename_i op rest hqueue
    have heq : view { s with
          lanes := Function.update s.lanes k rest
          pending := Function.update s.pending k (some op)
          writer := .rescheduling k } k =
        { view s k with queue := rest, pending := some op, hand := .rescheduling } := by
      simp only [view, WriterPhase.hand, WriterPhase.turn, if_true, Function.update_self]
    rw [heq]
    exact Wakeup.Step.found _ op rest hhand hqueue

/-- A caller may have raised the flag first. -/
theorem view_rescheduling (hphase : s.writer = .rescheduling k) (now : ℕ) :
    Wakeup.Step LaneOp.cost (plan.writerBudgets k) (view s k)
      (view (stepWriter shard now s) k) := by
  unfold stepWriter
  rw [hphase]
  have hhand := view_hand (congrArg WriterPhase.turn hphase)
  simp only
  split
  · rename_i hflag
    have heq : view { s with writer := .merging } k = { view s k with hand := .away } := by
      simp only [view, WriterPhase.hand, WriterPhase.turn]
    rw [heq]
    exact Wakeup.Step.taken _ hhand hflag
  · rename_i hflag
    have heq : view { s with
          scheduled := Function.update s.scheduled k true
          localReady := s.localReady ++ [k]
          writer := .merging } k =
        { view s k with flag := true, tokens := (view s k).tokens + 1, hand := .away } := by
      simp only [view, WriterPhase.hand, WriterPhase.turn, Function.update_self,
        List.count_append, List.count_singleton_self, Nat.add_assoc]
    rw [heq]
    exact Wakeup.Step.rescheduled _ hhand (Bool.eq_false_iff.2 hflag)

/-- What the writer does at a lane is a step of the lane. -/
theorem view_stepWriter (h : Inv s) (now : ℕ) (k : Fin plan.tenantCount) :
    Wakeup.Step LaneOp.cost (plan.writerBudgets k) (view s k)
      (view (stepWriter shard now s) k) := by
  by_cases hother : s.writer.turn ≠ none ∧ ∀ k' hand, s.writer.turn = some (k', hand) → k' ≠ k
  · rw [view_stepWriter_of_ne hother.1 hother.2]
    exact Wakeup.Step.stay _
  have hself : ∀ {k' hand}, s.writer.turn = some (k', hand) → k' = k := by
    intro k' hand hturn
    by_contra hne
    refine hother ⟨by rw [hturn]; exact nofun, fun k'' hand' hturn' heq => hne ?_⟩
    rw [hturn] at hturn'
    exact (congrArg Prod.fst (Option.some.inj hturn')).trans heq
  cases hphase : s.writer with
  | merging =>
    unfold stepWriter
    rw [hphase]
    have hturn : s.writer.turn = none := congrArg WriterPhase.turn hphase
    simp only
    split
    · rw [view_between (w := .choosing) hturn rfl]
      exact Wakeup.Step.stay _
    · rename_i k' rest hready
      rw [view_merged (w := .merging) hready hturn rfl]
      exact Wakeup.Step.stay _
  | choosing => exact view_choosing hphase now k
  | waiting =>
    unfold stepWriter
    rw [hphase]
    have hturn : s.writer.turn = none := congrArg WriterPhase.turn hphase
    simp only
    split
    · exact Wakeup.Step.stay _
    · rename_i k' rest hready
      rw [view_merged (w := .merging) hready hturn rfl]
      exact Wakeup.Step.stay _
  | taking k' =>
    obtain rfl := hself (congrArg WriterPhase.turn hphase)
    exact view_taking hphase now
  | stale k' =>
    obtain rfl := hself (congrArg WriterPhase.turn hphase)
    exact view_stale hphase now
  | applying k' op =>
    obtain rfl := hself (congrArg WriterPhase.turn hphase)
    exact view_applying hphase now
  | dropping k' op =>
    obtain rfl := hself (congrArg WriterPhase.turn hphase)
    exact view_dropping h hphase now
  | finishing k' =>
    obtain rfl := hself (congrArg WriterPhase.turn hphase)
    exact view_finishing hphase now
  | clearing k' =>
    obtain rfl := hself (congrArg WriterPhase.turn hphase)
    exact view_clearing hphase now
  | rechecking k' =>
    obtain rfl := hself (congrArg WriterPhase.turn hphase)
    exact view_rechecking hphase now
  | rescheduling k' =>
    obtain rfl := hself (congrArg WriterPhase.turn hphase)
    exact view_rescheduling hphase now

/-- **Every event is a step of each lane.** -/
theorem view_apply (h : Inv s) (e : Event ι) (k : Fin plan.tenantCount) :
    Wakeup.Step LaneOp.cost (plan.writerBudgets k) (view s k)
      (view (apply laneCapacity shard s e) k) := by
  unfold apply
  cases e with
  | insert i write now =>
    simp only
    split
    · rename_i hidle
      have hbegin : view (beginInsert s i write now) k = view s k := by
        unfold beginInsert
        split
        · exact view_dropWrite s k
        · simp only
          split
          · rfl
          · exact view_goto_of_quiet rfl rfl (hidle.symm ▸ ⟨rfl, rfl, rfl⟩) ⟨rfl, rfl, rfl⟩
      rw [hbegin]
      exact Wakeup.Step.stay _
    · exact Wakeup.Step.stay _
  | flush i =>
    simp only
    split
    · rename_i hidle
      rw [view_goto_of_quiet rfl rfl (hidle.symm ▸ ⟨rfl, rfl, rfl⟩) ⟨rfl, rfl, rfl⟩]
      exact Wakeup.Step.stay _
    · exact Wakeup.Step.stay _
  | step i => exact view_stepCaller h i k
  | write now => exact view_stepWriter h now k

end Routeplane.Cache.Lanes
