import Routeplane.Proof.Capacity
import Routeplane.Proof.Lanes

/-!
# Admission and storage agree on size

The lane refuses what is over the smaller of a tenant's two shares, the store what is over the one
share it keeps; the proxy is told beforehand how long a body may be. The three bounds fit together.

* `oversize_iff`: a body is refused for its size iff it is longer than the tenant may store.
* `Fitting.apply`: whatever is on its way to the store has been admitted.
* `sizes_agree`: admission by the announced length, and nothing admitted is dropped for its size.
-/

namespace Routeplane.Cache.Lanes

variable {ι : Type*} [DecidableEq ι] {plan : TenantCapacityPlan}
  {s : State ι plan} {i : ι} {k : Fin plan.tenantCount} {key : CacheKey} {entry : CacheEntry}
  {laneCapacity : ℕ+} {shard : CacheKey → Fin cacheShardCount}

/-- What `try_insert` admits to a lane. -/
structure Admitted (plan : TenantCapacityPlan) (k : Fin plan.tenantCount) (key : CacheKey)
    (entry : CacheEntry) : Prop where
  tenant : plan.tenantIndex key.tenantId = some k
  body : entry.body.length ≤ maxEntryBytes
  cost : entry.cost ≤ min (plan.storageBudgets k) (plan.writerBudgets k)

/-! ## The announced length -/

/-- The converse of `admitted_of_maxResponse`: a body that is admitted is within the length. -/
theorem maxResponse_of_admitted (h : Admitted plan k key entry) :
    entry.body.length ≤
      plan.maxResponseBytesForTenant key.tenantId (utf8 entry.model).length := by
  obtain ⟨htenant, hbody, hcost⟩ := h
  unfold TenantCapacityPlan.maxResponseBytesForTenant
  rw [htenant]
  unfold TenantCapacityPlan.effectivePayloadBudgetBytes
  unfold CacheEntry.cost at hcost
  simp only
  omega

theorem admitted_iff (htenant : plan.tenantIndex key.tenantId = some k)
    (hbody : 0 < entry.body.length) :
    Admitted plan k key entry ↔ entry.body.length ≤
      plan.maxResponseBytesForTenant key.tenantId (utf8 entry.model).length := by
  constructor
  · exact maxResponse_of_admitted
  · intro hle
    obtain ⟨hmax, hcost⟩ := plan.admitted_of_maxResponse hbody hle htenant
    exact ⟨htenant, hmax, hcost⟩

/-- An insert for a registered tenant is refused for its size, or goes to reserve its bytes. -/
theorem beginInsert_eq (s : State ι plan) (i : ι) (write : CacheWrite) (now : ℕ)
    (htenant : plan.tenantIndex write.key.tenantId = some k) :
    (Admitted plan k write.key (write.entry now) →
        beginInsert s i write now = s.goto i (.loading k write.key (write.entry now))) ∧
      (¬Admitted plan k write.key (write.entry now) →
        beginInsert s i write now =
          { s with core := { s.core with oversizeDrops := s.core.oversizeDrops + 1 } }) := by
  unfold beginInsert
  rw [htenant]
  dsimp only
  constructor
  · rintro ⟨-, hbody, hcost⟩
    rw [if_neg]
    omega
  · intro hnot
    rw [if_pos]
    by_contra hfits
    exact hnot ⟨htenant, by omega, by omega⟩

/-- **A body is refused for its size iff it is longer than the tenant may store.** -/
theorem oversize_iff (s : State ι plan) (i : ι) (write : CacheWrite) (now : ℕ)
    (hbody : write.body ≠ []) (htenant : plan.tenantIndex write.key.tenantId = some k) :
    (beginInsert s i write now).core.oversizeDrops = s.core.oversizeDrops + 1 ↔
      plan.maxResponseBytesForTenant write.key.tenantId (utf8 write.model).length <
        write.body.length := by
  obtain ⟨hyes, hno⟩ := beginInsert_eq s i write now htenant
  have hpos : 0 < (write.entry now).body.length := List.length_pos_iff.2 hbody
  have hiff := admitted_iff htenant hpos
  by_cases hadmitted : Admitted plan k write.key (write.entry now)
  · rw [hyes hadmitted]
    have hle := hiff.1 hadmitted
    exact iff_of_false (Nat.ne_of_lt (Nat.lt_succ_self _)) (Nat.not_lt.2 hle)
  · rw [hno hadmitted]
    have hgt : ¬write.body.length ≤
        plan.maxResponseBytesForTenant write.key.tenantId (utf8 write.model).length :=
      fun hle => hadmitted (hiff.2 hle)
    exact iff_of_true rfl (Nat.lt_of_not_le hgt)

/-! ## What is on its way -/

/-- What a caller is bringing to a lane. -/
def CallerPhase.carries : CallerPhase plan → Option (Fin plan.tenantCount × CacheKey × CacheEntry)
  | .loading k key entry | .reserving k key entry _ | .sending k key entry => some (k, key, entry)
  | _ => none

/-- Everything on its way to the store, or there, has been admitted. -/
structure Fitting (s : State ι plan) : Prop where
  callers : ∀ i k key entry, (s.caller i).carries = some (k, key, entry) → Admitted plan k key entry
  accepted : ∀ k key entry, .insert key entry ∈ s.accepted k → Admitted plan k key entry

theorem Fitting.goto (h : Fitting s) {phase : CallerPhase plan}
    (hp : ∀ k key entry, phase.carries = some (k, key, entry) → Admitted plan k key entry) :
    Fitting (s.goto i phase) := by
  refine ⟨fun j k key entry hc => ?_, h.accepted⟩
  by_cases hj : j = i
  · subst hj
    have hself : (s.goto j phase).caller j = phase := Function.update_self _ _ _
    rw [hself] at hc
    exact hp k key entry hc
  · have hother : (s.goto i phase).caller j = s.caller j := Function.update_of_ne hj _ _
    rw [hother] at hc
    exact h.callers j k key entry hc

omit [DecidableEq ι] in
theorem Fitting.send (h : Fitting s) {op : LaneOp ι}
    (hop : ∀ key entry, op = .insert key entry → Admitted plan k key entry) :
    Fitting (s.send k op) := by
  refine ⟨h.callers, fun k' key entry hmem => ?_⟩
  by_cases hk : k' = k
  · subst hk
    have hself : (s.send k' op).accepted k' = s.accepted k' ++ [op] := Function.update_self _ _ _
    rw [hself] at hmem
    rcases List.mem_append.1 hmem with hold | hnew
    · exact h.accepted k' key entry hold
    · exact hop key entry (List.mem_singleton.1 hnew).symm
  · have hother : (s.send k op).accepted k' = s.accepted k' := Function.update_of_ne hk _ _
    rw [hother] at hmem
    exact h.accepted k' key entry hmem

omit [DecidableEq ι] in
/-- A step that leaves the callers and the history of the lanes leaves them admitted. -/
theorem Fitting.frame (h : Fitting s) (s' : State ι plan) (hcaller : s'.caller = s.caller)
    (haccepted : s'.accepted = s.accepted) : Fitting s' := by
  refine ⟨?_, ?_⟩
  · rw [hcaller]
    exact h.callers
  · rw [haccepted]
    exact h.accepted

theorem stepCaller_fitting (h : Fitting s) (i : ι) : Fitting (stepCaller laneCapacity s i) := by
  have hidle : ∀ k key entry, (CallerPhase.idle : CallerPhase plan).carries = some (k, key, entry) →
      Admitted plan k key entry := by
    intro k key entry hc
    cases hc
  have herrand : ∀ (errand : Errand) k key entry,
      (errand.next : CallerPhase plan).carries = some (k, key, entry) →
      Admitted plan k key entry := by
    intro errand k key entry hc
    cases errand with
    | insert => cases hc
    | flush next => cases hc
  -- a caller that goes on brings what it was bringing
  have hsame : ∀ phase : CallerPhase plan, phase.carries = (s.caller i).carries →
      ∀ k key entry, phase.carries = some (k, key, entry) → Admitted plan k key entry :=
    fun phase heq k key entry hc => h.callers i k key entry (heq.symm.trans hc)
  unfold stepCaller
  cases hphase : s.caller i with
  | idle => exact h
  | loading k key entry =>
    refine h.goto (hsame _ ?_)
    rw [hphase]
    rfl
  | reserving k key entry current =>
    dsimp only
    split
    · exact (h.frame s.dropWrite rfl rfl).goto hidle
    · split
      · refine (h.frame { s with
          queuedBytes := Function.update s.queuedBytes k (current + entry.cost) } rfl rfl).goto
            (hsame _ ?_)
        rw [hphase]
        rfl
      · refine h.goto (hsame _ ?_)
        rw [hphase]
        rfl
  | sending k key entry =>
    have hadmitted : Admitted plan k key entry := by
      refine h.callers i k key entry ?_
      rw [hphase]
      rfl
    dsimp only
    split
    · have hsent : Fitting (s.send k (.insert key entry)) := by
        refine h.send fun key' entry' heq => ?_
        obtain ⟨rfl, rfl⟩ := LaneOp.insert.inj heq
        exact hadmitted
      exact hsent.goto (fun k key entry hc => by cases hc)
    · exact h.goto fun k key entry hc => by cases hc
  | refused k key entry =>
    exact (h.frame ({ s with
      queuedBytes := Function.update s.queuedBytes k
        (fetchSub (s.queuedBytes k) entry.cost) } : State ι plan).dropWrite rfl rfl).goto hidle
  | scheduling k errand =>
    dsimp only
    split
    · exact h.goto (herrand errand)
    · exact (h.frame { s with
        scheduled := Function.update s.scheduled k true } rfl rfl).goto
          fun k key entry hc => by cases hc
  | signalling k errand =>
    dsimp only
    split
    · exact (h.frame { s with ready := s.ready ++ [k] } rfl rfl).goto (herrand errand)
    · exact h.goto fun k key entry hc => by cases hc
  | unscheduling k errand =>
    exact (h.frame { s with
      scheduled := Function.update s.scheduled k false } rfl rfl).goto (herrand errand)
  | flushing next =>
    dsimp only
    split
    · split
      · rename_i hlt _
        have hsent : Fitting (s.send ⟨next, hlt⟩ (.barrier i)) :=
          h.send fun key entry heq => by cases heq
        exact hsent.goto fun k key entry hc => by cases hc
      · exact h
    · exact h.goto fun k key entry hc => by cases hc
  | waiting remaining =>
    dsimp only
    split
    · exact h.goto hidle
    · split
      · exact h
      · exact (h.frame { s with
          acks := Function.update s.acks i (s.acks i - 1) } rfl rfl).goto
            fun k key entry hc => by cases hc

theorem stepWriter_accepted (now : ℕ) (s : State ι plan) :
    (stepWriter shard now s).accepted = s.accepted := by
  unfold stepWriter
  repeat' split
  all_goals rfl

theorem beginInsert_fitting (h : Fitting s) (i : ι) (write : CacheWrite) (now : ℕ) :
    Fitting (beginInsert s i write now) := by
  cases htenant : plan.tenantIndex write.key.tenantId with
  | none =>
    have hdrop : beginInsert s i write now = s.dropWrite := by
      unfold beginInsert
      rw [htenant]
    rw [hdrop]
    exact h.frame _ rfl rfl
  | some k =>
    obtain ⟨hyes, hno⟩ := beginInsert_eq s i write now htenant
    by_cases hadmitted : Admitted plan k write.key (write.entry now)
    · rw [hyes hadmitted]
      refine h.goto fun k' key entry hc => ?_
      obtain ⟨rfl, hrest⟩ := Prod.mk.inj (Option.some.inj hc)
      obtain ⟨rfl, rfl⟩ := Prod.mk.inj hrest
      exact hadmitted
    · rw [hno hadmitted]
      exact h.frame _ rfl rfl

/-- **Whatever the event**, what is on its way has been admitted. -/
theorem Fitting.apply (h : Fitting s) (e : Event ι) :
    Fitting (Lanes.apply laneCapacity shard s e) := by
  unfold Lanes.apply
  cases e with
  | insert i write now =>
    dsimp only
    split
    · exact beginInsert_fitting h i write now
    · exact h
  | flush i =>
    dsimp only
    split
    · exact h.goto fun k key entry hc => absurd hc (by unfold CallerPhase.carries; simp)
    · exact h
  | step i => exact stepCaller_fitting h i
  | write now => exact h.frame _ (stepWriter_caller now s) (stepWriter_accepted now s)

omit [DecidableEq ι] in
theorem Fitting.start : Fitting (start ι plan) where
  callers i k key entry hc := by cases hc
  accepted k key entry hmem := absurd hmem List.not_mem_nil

/-- What has been admitted is not too large for the store. -/
theorem Admitted.applyInsert (h : Admitted plan k key entry) (now : ℕ) (c : CacheCore plan) :
    (c.applyInsert shard key entry now).oversizeDrops = c.oversizeDrops := by
  obtain ⟨htenant, hbody, hcost⟩ := h
  unfold CacheCore.applyInsert
  rw [htenant]
  dsimp only
  rw [if_neg (by omega)]
  split
  · rfl
  · rfl

variable [Fintype ι]

/-- The writer drops nothing for its size. -/
theorem Fitting.stepWriter (h : Fitting s) (hi : Inv s) (now : ℕ) :
    (Lanes.stepWriter shard now s).core.oversizeDrops = s.core.oversizeDrops := by
  rcases stepWriter_store shard now s with ⟨-, hcore⟩ | ⟨k, op, hphase, hcore, -⟩
  · rw [hcore]
  · rw [hcore]
    cases op with
    | barrier j => rfl
    | insert key entry =>
      have hserved := hi.accounted.served k
      have hmem : LaneOp.insert key entry ∈ s.accepted k := by
        rw [hserved]
        refine List.mem_append_right _ (List.mem_append_left _ ?_)
        unfold WriterPhase.hand WriterPhase.turn
        rw [hphase]
        dsimp only
        rw [if_pos rfl]
        exact List.mem_singleton_self _
      exact (h.accepted k key entry hmem).applyInsert now s.core

/-- **Admission and storage agree on size.** In every run, whatever the callers and the writer do: an
insert for a tenant of the plan, with a body, is refused for its size iff the body is longer than the
tenant may store with the model's name; one for another tenant, who may store nothing, is counted as
a dropped write; and the writer drops nothing for its size. -/
theorem sizes_agree (es : List (Event ι)) :
    Run.Steps (apply laneCapacity shard)
      (fun s e =>
        let s' := apply laneCapacity shard s e
        (∀ i write now, e = .insert i write now → s.caller i = .idle → write.body ≠ [] →
          let length := plan.maxResponseBytesForTenant write.key.tenantId (utf8 write.model).length
          ((plan.tenantIndex write.key.tenantId).isSome = true →
            (s'.core.oversizeDrops = s.core.oversizeDrops + 1 ↔ length < write.body.length)) ∧
          (plan.tenantIndex write.key.tenantId = none → length = 0 ∧
            s'.core.oversizeDrops = s.core.oversizeDrops ∧
            s'.core.writeDrops = s.core.writeDrops + 1)) ∧
        ∀ now, e = .write now → s'.core.oversizeDrops = s.core.oversizeDrops)
      (start ι plan) es := by
  have hany : Run.Steps (apply laneCapacity shard) (fun _ _ => True) (start ι plan) es :=
    Run.Steps.true
  refine hany.imp (I := fun s => Inv s ∧ Fitting s)
    (fun s e h _ => ⟨h.1.apply e, h.2.apply e⟩) ?_ ⟨Inv.start, Fitting.start⟩
  rintro s e ⟨hi, hf⟩ -
  refine ⟨?_, ?_⟩
  · rintro i write now rfl hidle hbody
    have hbegin : apply laneCapacity shard s (.insert i write now) = beginInsert s i write now := by
      unfold apply
      dsimp only
      rw [hidle]
    dsimp only
    rw [hbegin]
    constructor
    · intro hsome
      obtain ⟨k, htenant⟩ := Option.isSome_iff_exists.1 hsome
      exact oversize_iff s i write now hbody htenant
    · intro hnone
      have hdrop : beginInsert s i write now = s.dropWrite := by
        unfold beginInsert
        rw [hnone]
      rw [hdrop]
      refine ⟨?_, rfl, rfl⟩
      unfold TenantCapacityPlan.maxResponseBytesForTenant
      rw [hnone]
  · rintro now rfl
    exact hf.stepWriter hi now

/-- A body of so many bytes, for a model of one letter. -/
def bodyOf (tenantId : String) (n : ℕ) : CacheWrite :=
  { emptyWrite with key := ⟨tenantId, "default", []⟩, body := List.replicate n 0, model := "m" }

/-- Of 1000 bytes in each share, 160 are overhead and one is the model's: 839 are the body's. -/
theorem body_at_the_bound :
    (apply 16 (fun _ => 0) (start (Fin 3) soloPlan)
        (.insert 0 (bodyOf "t" 840) 0)).core.oversizeDrops = 1 ∧
      (apply 16 (fun _ => 0) (start (Fin 3) soloPlan)
        (.insert 0 (bodyOf "t" 839) 0)).core.oversizeDrops ≠ 1 := by
  have hover : Run.Steps (apply 16 fun _ => 0) _ (start (Fin 3) soloPlan)
      [.insert 0 (bodyOf "t" 840) 0] := sizes_agree _
  have hwithin : Run.Steps (apply 16 fun _ => 0) _ (start (Fin 3) soloPlan)
      [.insert 0 (bodyOf "t" 839) 0] := sizes_agree _
  have hrefused := (hover.1.1 0 (bodyOf "t" 840) 0 rfl rfl (by decide)).1 (by decide)
  have hadmitted := (hwithin.1.1 0 (bodyOf "t" 839) 0 rfl rfl (by decide)).1
    (by decide)
  exact ⟨hrefused.2 (by decide +kernel), fun h => absurd (hadmitted.1 h) (by decide +kernel)⟩

/-- A body of a tenant that is not in the plan is over what the tenant may store, and is not refused
for its size. -/
theorem unknown_tenant_not_oversize :
    soloPlan.maxResponseBytesForTenant "u" 1 < (bodyOf "u" 1).body.length ∧
      (apply 16 (fun _ => 0) (start (Fin 3) soloPlan)
        (.insert 0 (bodyOf "u" 1) 0)).core.oversizeDrops = 0 ∧
      (apply 16 (fun _ => 0) (start (Fin 3) soloPlan)
        (.insert 0 (bodyOf "u" 1) 0)).core.writeDrops = 1 := by
  decide

end Routeplane.Cache.Lanes
