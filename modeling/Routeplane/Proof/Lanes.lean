import Routeplane.Lib.Run
import Routeplane.Proof.LaneView

/-!
# The writer lanes lose no work, and nearly no wakeup

* `Inv.apply`: the invariant of every event.
* `no_lost_wakeup`: when work that waits has its token. `insert_forgotten`: a run where it has not.
* `lanes_exact`: what every run keeps. `reserved_before_accepted`: bytes counted before acceptance.
-/

namespace Routeplane.Cache.Lanes

variable {ι : Type*} [Fintype ι] [DecidableEq ι] {plan : TenantCapacityPlan}
  {s : State ι plan} {i : ι} {k : Fin plan.tenantCount}
  {laneCapacity : ℕ+} {shard : CacheKey → Fin cacheShardCount}

/-! ## Every run -/

omit [Fintype ι] in
/-- A caller does not touch what is the writer's. -/
theorem stepCaller_frame (s : State ι plan) (i : ι) :
    (stepCaller laneCapacity s i).writer = s.writer ∧
      (stepCaller laneCapacity s i).localReady = s.localReady := by
  unfold stepCaller
  repeat' split
  all_goals exact ⟨rfl, rfl⟩

omit [Fintype ι] in
theorem beginInsert_frame (s : State ι plan) (i : ι) (write : CacheWrite) (now : ℕ) :
    (beginInsert s i write now).writer = s.writer ∧
      (beginInsert s i write now).localReady = s.localReady := by
  unfold beginInsert
  simp only
  repeat' split
  all_goals exact ⟨rfl, rfl⟩

variable (laneCapacity shard) in
omit [Fintype ι] in
/-- Only the writer moves the writer. -/
theorem apply_frame (s : State ι plan) (e : Event ι) :
    (∃ now, e = .write now) ∨
      (apply laneCapacity shard s e).writer = s.writer ∧
        (apply laneCapacity shard s e).localReady = s.localReady := by
  cases e with
  | insert i write now =>
    refine Or.inr ?_
    unfold apply
    simp only
    split
    · exact beginInsert_frame s i write now
    · exact ⟨rfl, rfl⟩
  | flush i =>
    refine Or.inr ?_
    unfold apply
    simp only
    split
    · exact ⟨rfl, rfl⟩
    · exact ⟨rfl, rfl⟩
  | step i => exact Or.inr (stepCaller_frame s i)
  | write now => exact Or.inl ⟨now, rfl⟩

omit [Fintype ι] in
theorem stepWriter_caller (now : ℕ) (s : State ι plan) :
    (stepWriter shard now s).caller = s.caller := by
  unfold stepWriter
  repeat' split
  all_goals rfl

omit [Fintype ι] in
/-- The writer blocks only when it knows of no lane. -/
theorem stepWriter_idle (hidle : s.writer = .waiting → s.localReady = []) (now : ℕ)
    (hwaiting : (stepWriter shard now s).writer = .waiting) :
    (stepWriter shard now s).localReady = [] := by
  unfold stepWriter at hwaiting ⊢
  cases hphase : s.writer with
  | merging =>
    simp only [hphase] at hwaiting ⊢
    split at hwaiting
    all_goals cases hwaiting
  | choosing =>
    simp only [hphase] at hwaiting ⊢
    split at hwaiting
    · rename_i hnone
      rw [hnone]
    · cases hwaiting
  | waiting =>
    simp only [hphase] at hwaiting ⊢
    split at hwaiting
    · exact hidle hphase
    · cases hwaiting
  | _ =>
    simp only [hphase] at hwaiting
    repeat' split at hwaiting
    all_goals cases hwaiting

/-- A caller that moves goes where its step says. -/
theorem sent_goto {s' : State ι plan} {phase : CallerPhase plan} (h : Inv s)
    (hcaller : s'.caller = s.caller) (hphase : ∀ k errand, phase ≠ .unscheduling k errand)
    (i j : ι) (k : Fin plan.tenantCount) (errand : Errand) :
    (s'.goto i phase).caller j ≠ .unscheduling k errand := by
  unfold State.goto
  simp only [hcaller]
  by_cases hj : j = i
  · rw [hj, Function.update_self]
    exact hphase k errand
  · rw [Function.update_of_ne hj]
    exact h.sent j k errand

/-- The token is always sent: the ready queue has room. -/
theorem stepCaller_sent (h : Inv s) (i j : ι) (k : Fin plan.tenantCount) (errand : Errand) :
    (stepCaller laneCapacity s i).caller j ≠ .unscheduling k errand := by
  have hnext : ∀ (errand' : Errand) (k : Fin plan.tenantCount) errand,
      (errand'.next : CallerPhase plan) ≠ .unscheduling k errand := by
    intro errand' k errand
    cases errand' with
    | insert => exact nofun
    | flush next => exact nofun
  unfold stepCaller
  cases hphase : s.caller i with
  | idle => exact h.sent j k errand
  | loading k' key entry => exact sent_goto h rfl (by exact nofun) i j k errand
  | reserving k' key entry current =>
    simp only
    repeat' split
    all_goals exact sent_goto h rfl (by exact nofun) i j k errand
  | sending k' key entry =>
    simp only
    split
    all_goals exact sent_goto h rfl (by exact nofun) i j k errand
  | refused k' key entry => exact sent_goto h rfl (by exact nofun) i j k errand
  | scheduling k' errand' =>
    simp only
    split
    · exact sent_goto h rfl (hnext errand') i j k errand
    · exact sent_goto h rfl (by exact nofun) i j k errand
  | signalling k' errand' =>
    simp only
    rw [if_pos h.room]
    exact sent_goto h rfl (hnext errand') i j k errand
  | unscheduling k' errand' => exact absurd hphase (h.sent i k' errand')
  | flushing next =>
    simp only
    repeat' split
    · exact sent_goto h rfl (by exact nofun) i j k errand
    · exact h.sent j k errand
    · exact sent_goto h rfl (by exact nofun) i j k errand
  | waiting remaining =>
    simp only
    repeat' split
    · exact sent_goto h rfl (by exact nofun) i j k errand
    · exact h.sent j k errand
    · exact sent_goto h rfl (by exact nofun) i j k errand

/-- **Every event keeps the invariant.** -/
theorem Inv.apply (h : Inv s) (e : Event ι) : Inv (apply laneCapacity shard s e) := by
  refine ⟨fun k => (h.lanes k).step (view_apply h e k), ?_, ?_⟩
  · intro j k errand
    cases e with
    | insert i write now =>
      unfold Lanes.apply beginInsert
      simp only
      repeat' split
      · exact h.sent j k errand
      · exact h.sent j k errand
      · exact sent_goto h rfl (by exact nofun) i j k errand
      · exact h.sent j k errand
    | flush i =>
      unfold Lanes.apply
      simp only
      split
      · exact sent_goto h rfl (by exact nofun) i j k errand
      · exact h.sent j k errand
    | step i => exact stepCaller_sent h i j k errand
    | write now =>
      show (stepWriter shard now s).caller j ≠ _
      rw [stepWriter_caller]
      exact h.sent j k errand
  · intro hwaiting
    rcases apply_frame laneCapacity shard s e with
      ⟨now, rfl⟩ | ⟨hwriter, hlocal⟩
    · exact stepWriter_idle h.idle now hwaiting
    · rw [hlocal]
      exact h.idle (hwriter.symm.trans hwaiting)

omit [DecidableEq ι] in
theorem Inv.start : Inv (start ι plan) where
  lanes k := by
    have hnone : ∀ f : CallerPhase plan → ℕ, f .idle = 0 →
        ∑ i, f ((Lanes.start ι plan).caller i) = 0 := fun f hf =>
      Finset.sum_eq_zero fun _ _ => hf
    have hreserved : (view (Lanes.start ι plan) k).reserved = 0 :=
      hnone (CallerPhase.holds k) rfl
    have hsignalling : (view (Lanes.start ι plan) k).signalling = 0 :=
      hnone (CallerPhase.signals k) rfl
    refine ⟨?_, fun hne => absurd rfl hne, rfl, rfl, ?_, Nat.zero_le _⟩
    · rw [hsignalling]
      rfl
    · rw [hreserved]
      rfl
  sent _ _ _ := nofun
  idle := nofun

/-! ## Wakeups -/

/-- When the writer clears the flag of a stale token, the lane is empty, or a caller that has put
something in has still to try the flag. -/
def Fresh (s : State ι plan) : Event ι → Prop
  | .write _ => ∀ k, s.writer = .stale k →
      s.lanes k = [] ∨ ∃ i errand, s.caller i = .scheduling k errand
  | _ => True

/-- Nobody is between an operation put in and its token sent, and the writer is between turns. -/
structure Settled (s : State ι plan) : Prop where
  callers : ∀ i k errand, s.caller i ≠ .scheduling k errand ∧ s.caller i ≠ .signalling k errand
  writer : s.writer = .merging ∨ s.writer = .choosing ∨ s.writer = .waiting

/-- A fresh event is careful at each lane. -/
theorem Fresh.careful {e : Event ι} (h : Fresh s e) (k : Fin plan.tenantCount) :
    Wakeup.Careful (view s k) (view (apply laneCapacity shard s e) k) := by
  intro hstale hmoved
  rcases apply_frame laneCapacity shard s e with
    ⟨now, rfl⟩ | ⟨hwriter, -⟩
  · rcases h k (writer_of_turn_stale (turn_of_hand hstale nofun)) with hempty | ⟨i, errand, hcaller⟩
    · exact Or.inl hempty
    · have htally := Tally.le (CallerPhase.schedules k) s.caller i
      rw [hcaller, CallerPhase.schedules, if_pos rfl] at htally
      exact Or.inr htally
  · have hhand : (view (apply laneCapacity shard s e) k).hand = (view s k).hand :=
      congrArg (WriterPhase.hand k) hwriter
    exact absurd (hhand.trans hstale) hmoved

omit [DecidableEq ι] in
theorem Settled.tallies (h : Settled s) (k : Fin plan.tenantCount) :
    (view s k).scheduling = 0 ∧ (view s k).signalling = 0 ∧ (view s k).hand = .away := by
  refine ⟨Finset.sum_eq_zero fun i _ => ?_, Finset.sum_eq_zero fun i _ => ?_, ?_⟩
  · cases hphase : s.caller i with
    | scheduling k' errand => exact absurd hphase (h.callers i k' errand).1
    | _ => rfl
  · cases hphase : s.caller i with
    | signalling k' errand => exact absurd hphase (h.callers i k' errand).2
    | _ => rfl
  · refine hand_of_turn_none ?_ k
    rcases h.writer with hwriter | hwriter | hwriter
    all_goals exact congrArg WriterPhase.turn hwriter

/-- **No wakeup is lost** in a run that clears no flag of a stale token over waiting work: when
nobody is in the middle of it, work that waits has its one token, and the writer blocks only when
none waits. -/
theorem no_lost_wakeup (es : List (Event ι))
    (hfresh : Run.Steps (apply laneCapacity shard) Fresh (start ι plan) es) :
    Run.States (apply laneCapacity shard) (fun s => Settled s →
      (∀ k, s.lanes k ≠ [] ∨ s.pending k ≠ none →
        s.ready.count k + s.localReady.count k = 1) ∧
      (s.writer = .waiting → s.ready = [] → ∀ k, s.lanes k = [] ∧ s.pending k = none))
      (start ι plan) es := by
  have hinv : Run.States (apply laneCapacity shard)
      (fun s => Inv s ∧ ∀ k, Wakeup.Covered (view s k)) (start ι plan) es := by
    refine hfresh.states (fun s e h hcond => ⟨h.1.apply e, fun k => ?_⟩) ⟨Inv.start, fun k => ?_⟩
    · exact (h.2 k).step (h.1.lanes k) (view_apply h.1 e k) (hcond.careful k)
    · rintro (hwork | hwork)
      · exact absurd rfl hwork
      · exact absurd rfl hwork
  refine hinv.mono fun s h hsettled => ?_
  have htokens : ∀ k, s.lanes k ≠ [] ∨ s.pending k ≠ none →
      s.ready.count k + s.localReady.count k = 1 := by
    intro k hwork
    obtain ⟨hscheduling, hsignalling, hhand⟩ := hsettled.tallies k
    exact (h.2 k).tokens_eq (h.1.lanes k) hhand hscheduling hsignalling hwork
  refine ⟨htokens, fun hwaiting hready k => ?_⟩
  -- A blocked writer has no token left, so no lane has one.
  by_contra hwork
  have hone := htokens k (by
    by_contra hnone
    rw [not_or, not_not, not_not] at hnone
    exact hwork hnone)
  rw [hready, h.1.idle hwaiting] at hone
  cases hone

/-- **Where the condition fails, work is forgotten**: it waits without a token, a set flag or a
caller to set it. -/
theorem forgotten_of_not_fresh (h : Inv s) {now : ℕ} (hnot : ¬Fresh s (.write now)) :
    ∃ k, (apply laneCapacity shard s (.write now)).lanes k ≠ [] ∧
      (apply laneCapacity shard s (.write now)).scheduled k = false ∧
      (view (apply laneCapacity shard s (.write now)) k).tokens = 0 ∧
      ∀ i errand, (apply laneCapacity shard s (.write now)).caller i ≠ .scheduling k errand ∧
        (apply laneCapacity shard s (.write now)).caller i ≠ .signalling k errand := by
  unfold Fresh at hnot
  push Not at hnot
  obtain ⟨k, hstale, hwork, hnobody⟩ := hnot
  have hkeep := (h.apply (.write now) : Inv (apply laneCapacity shard s (.write now)))
  have hcleared : (apply laneCapacity shard s (.write now)).scheduled k = false := by
    unfold apply stepWriter
    rw [hstale]
    exact Function.update_self _ _ _
  have hlanes : (apply laneCapacity shard s (.write now)).lanes = s.lanes := by
    unfold apply stepWriter
    rw [hstale]
  have hcaller : (apply laneCapacity shard s (.write now)).caller = s.caller :=
    stepWriter_caller now s
  have htoken := (hkeep.lanes k).token
  have hflag : (view (apply laneCapacity shard s (.write now)) k).flag = false := hcleared
  rw [hflag, if_neg Bool.false_ne_true] at htoken
  refine ⟨k, by rw [hlanes]; exact hwork, hcleared, by omega, fun i errand => ⟨?_, ?_⟩⟩
  · rw [hcaller]
    exact hnobody i errand
  · intro hsignalling
    have htally := Tally.le (CallerPhase.signals k)
      (apply laneCapacity shard s (.write now)).caller i
    rw [hsignalling, CallerPhase.signals, if_pos rfl] at htally
    have hzero : (view (apply laneCapacity shard s (.write now)) k).signalling = 0 := by omega
    exact absurd hzero (Nat.ne_of_gt htally)

def soloPlan : TenantCapacityPlan where
  budgetBytes := 2000
  tenantIds := ["t"]
  bounded := by decide
  sorted := List.Pairwise.sortedLT (by decide)

def emptyWrite : CacheWrite where
  key := ⟨"t", "default", []⟩
  body := []
  ttlSeconds := 60
  model := ""
  promptTokens := 0
  completionTokens := 0
  totalTokens := 0

/-- `n` steps of the writer. -/
def writes {ι : Type} (n : ℕ) : List (Event ι) := List.replicate n (.write 0)

/-- A caller inserts up to its reservation, puts the insert in and takes `n` more steps. -/
def inserts {ι : Type} (i : ι) (n : ℕ) : List (Event ι) :=
  .insert i emptyWrite 0 :: List.replicate (3 + n) (.step i)

/-- The second caller's token is stale, since the writer has served its insert before it tried the
flag. The writer finds the lane empty, the third caller puts its insert in and finds the flag set,
and the writer clears the flag. -/
def forgetfulRun : List (Event (Fin 3)) :=
  inserts 0 2 ++ inserts 1 0 ++ writes 17 ++ [.step 1, .step 1] ++ writes 4 ++ inserts 2 1 ++
    writes 3

/-- Two callers, of which the second's token is stale. -/
def staleRun : List (Event (Fin 3)) :=
  inserts 0 2 ++ inserts 1 0 ++ writes 17 ++ [.step 1, .step 1] ++ writes 7

/-- A stale token alone loses nothing. -/
theorem no_lost_wakeup_stale :
    let s := Run.run (apply 16 fun _ => 0) (start (Fin 3) soloPlan) staleRun
    ∀ k, s.lanes k = [] ∧ s.pending k = none := by
  have hempty : Run.Steps (apply 16 fun _ => 0)
      (fun s _ => ∀ k, s.writer = .stale k → s.lanes k = []) (start (Fin 3) soloPlan) staleRun := by
    decide
  have hfresh : Run.Steps (apply 16 fun _ => 0) Fresh (start (Fin 3) soloPlan) staleRun := by
    refine hempty.mono fun s e h => ?_
    cases e with
    | write now => exact fun k hstale => Or.inl (h k hstale)
    | _ => trivial
  have hend := Run.states_iff.1 (no_lost_wakeup staleRun hfresh) staleRun.length (Nat.le_refl _)
  rw [List.take_length] at hend
  have hidle : ∀ i, (Run.run (apply 16 fun _ => 0) (start (Fin 3) soloPlan) staleRun).caller i =
      .idle := by
    decide
  refine (hend ⟨fun i k errand => ?_, Or.inr (Or.inr (by decide))⟩).2 (by decide) (by decide)
  rw [hidle i]
  exact ⟨nofun, nofun⟩

/-- **A wakeup is lost**: everybody is done, an insert waits and the writer is blocked. -/
theorem insert_forgotten :
    let s := Run.run (apply 16 fun _ => 0) (start (Fin 3) soloPlan) forgetfulRun
    (∀ i, s.caller i = .idle) ∧ s.writer = .waiting ∧ s.ready = [] ∧ s.localReady = [] ∧
      s.lanes ⟨0, by decide⟩ = [.insert emptyWrite.key (emptyWrite.entry 0)] := by
  decide

/-! ## Work and bytes -/

/-- What a lane accepted and the writer has not applied, in order. -/
def State.unapplied (s : State ι plan) (k : Fin plan.tenantCount) : List (LaneOp ι) :=
  (s.writer.hand k).unapplied ++ ((s.pending k).toList ++ s.lanes k)

/-- What holds of the lanes in every state. -/
structure Accounted (s : State ι plan) : Prop where
  /-- Applied in the order of acceptance, each once, and the rest still there. -/
  served : ∀ k, s.accepted k = s.applied k ++ s.unapplied k
  finished : ∀ k, s.finished k <+: s.applied k
  tokens : (s.ready ++ s.localReady).Nodup
  room : s.ready.length < plan.tenantCount + 1
  /-- The counter: what was accepted and is not finished, and what callers hold that were granted
  bytes and have no answer from the lane. -/
  bytes : ∀ k, s.queuedBytes k =
    (((s.accepted k).drop (s.finished k).length).map LaneOp.cost).sum +
      ∑ i, (s.caller i).holds k
  budget : ∀ k, s.queuedBytes k ≤ plan.writerBudgets k
  returned : ∀ k, s.finished k = s.accepted k → (∀ i, (s.caller i).holds k = 0) →
    s.queuedBytes k = 0

/-- What every event does: an operation in the slot stays until its turn, and the store changes by
the operations that count as applied. -/
structure Serves (shard : CacheKey → Fin cacheShardCount) (s s' : State ι plan) : Prop where
  pending : ∀ k op, s.pending k = some op →
    s'.pending k = some op ∨ s'.pending k = none ∧ s'.writer = .applying k op
  applied :
    (s'.applied = s.applied ∧ s'.core.shards = s.core.shards ∧
      s'.core.tenantBytes = s.core.tenantBytes) ∨
    ∃ k op now, s.writer = .applying k op ∧ s'.core = op.applyTo shard now s.core ∧
      s'.applied = Function.update s.applied k (s.applied k ++ [op])

omit [DecidableEq ι] in
theorem Inv.accounted (h : Inv s) : Accounted s := by
  have happlied : ∀ k, s.applied k = s.finished k ++ (s.writer.hand k).unfinished :=
    fun k => (h.lanes k).applied
  have horder : ∀ k, s.accepted k = s.finished k ++ (view s k).unfinished :=
    fun k => (h.lanes k).order
  have hbytes : ∀ k, s.queuedBytes k =
      ∑ i, (s.caller i).holds k + ((view s k).unfinished.map LaneOp.cost).sum :=
    fun k => (h.lanes k).weight
  refine ⟨fun k => ?_, fun k => ⟨_, (happlied k).symm⟩, h.tokens_nodup, h.room, fun k => ?_,
    fun k => (h.lanes k).limit, fun k hdone hheld => ?_⟩
  · rw [horder k, happlied k, List.append_assoc]
    rfl
  · rw [horder k, List.drop_left, hbytes k, Nat.add_comm]
  · have hnone : (view s k).unfinished = [] := by
      have hall := horder k
      rw [← hdone] at hall
      exact List.append_right_eq_self.1 hall.symm
    have hsum : ∑ i, (s.caller i).holds k = 0 := Finset.sum_eq_zero fun i _ => hheld i
    rw [hbytes k, hnone, hsum]
    rfl

omit [Fintype ι] in
/-- Callers count what they drop and leave the store and the history of its writes. -/
theorem stepCaller_store (s : State ι plan) (i : ι) :
    (stepCaller laneCapacity s i).applied = s.applied ∧
      (stepCaller laneCapacity s i).core.shards = s.core.shards ∧
      (stepCaller laneCapacity s i).core.tenantBytes = s.core.tenantBytes := by
  unfold stepCaller
  repeat' split
  all_goals exact ⟨rfl, rfl, rfl⟩

omit [Fintype ι] in
theorem beginInsert_store (s : State ι plan) (i : ι) (write : CacheWrite) (now : ℕ) :
    (beginInsert s i write now).applied = s.applied ∧
      (beginInsert s i write now).core.shards = s.core.shards ∧
      (beginInsert s i write now).core.tenantBytes = s.core.tenantBytes := by
  unfold beginInsert
  simp only
  repeat' split
  all_goals exact ⟨rfl, rfl, rfl⟩

variable (shard) in
omit [Fintype ι] in
/-- The writer changes the store where it applies an operation, and nowhere else. -/
theorem stepWriter_store (now : ℕ) (s : State ι plan) :
    ((stepWriter shard now s).applied = s.applied ∧ (stepWriter shard now s).core = s.core) ∨
      ∃ k op, s.writer = .applying k op ∧
        (stepWriter shard now s).core = op.applyTo shard now s.core ∧
        (stepWriter shard now s).applied =
          Function.update s.applied k (s.applied k ++ [op]) := by
  unfold stepWriter
  cases hphase : s.writer with
  | applying k op => exact Or.inr ⟨k, op, rfl, rfl, rfl⟩
  | _ =>
    refine Or.inl ?_
    dsimp only
    repeat' split
    all_goals exact ⟨rfl, rfl⟩

theorem Inv.serves (h : Inv s) (e : Event ι) :
    Serves shard s (Lanes.apply laneCapacity shard s e) := by
  constructor
  · intro k op hpending
    rcases (view_apply h e k).pending_kept (h.lanes k) hpending with hkept | ⟨hnone, hhand⟩
    · exact Or.inl hkept
    · exact Or.inr ⟨hnone, writer_of_turn_applying (turn_of_hand hhand nofun)⟩
  · cases e with
    | insert i write now =>
      refine Or.inl ?_
      unfold Lanes.apply
      simp only
      split
      · exact beginInsert_store s i write now
      · exact ⟨rfl, rfl, rfl⟩
    | flush i =>
      refine Or.inl ?_
      unfold Lanes.apply
      simp only
      split
      · exact ⟨rfl, rfl, rfl⟩
      · exact ⟨rfl, rfl, rfl⟩
    | step i => exact Or.inl (stepCaller_store s i)
    | write now =>
      rcases stepWriter_store shard now s with ⟨happlied, hcore⟩ | ⟨k, op, happly⟩
      · exact Or.inl ⟨happlied, congrArg CacheCore.shards hcore,
          congrArg CacheCore.tenantBytes hcore⟩
      · exact Or.inr ⟨k, op, now, happly⟩

/-- **Lanes neither lose, repeat, reorder nor leak**, in every run. -/
theorem lanes_exact (es : List (Event ι)) :
    Run.States (apply laneCapacity shard) Accounted (start ι plan) es ∧
      Run.Steps (apply laneCapacity shard)
        (fun s e => Serves shard s (apply laneCapacity shard s e)) (start ι plan) es := by
  have hany : Run.Steps (apply laneCapacity shard) (fun _ _ => True) (start ι plan) es :=
    Run.Steps.true
  constructor
  · exact (hany.states (fun _ e h _ => h.apply e) Inv.start).mono fun _ h => h.accounted
  · exact hany.imp (fun _ e h _ => h.apply e) (fun _ e h _ => h.serves e) Inv.start

/-- **Bytes are counted before the insert is accepted.** -/
theorem reserved_before_accepted :
    let s := Run.run (apply 16 fun _ => 0) (start (Fin 3) soloPlan)
      [.insert 0 emptyWrite 0, .step 0, .step 0]
    s.queuedBytes ⟨0, by decide⟩ = 160 ∧ s.accepted ⟨0, by decide⟩ = [] := by
  decide

end Routeplane.Cache.Lanes
