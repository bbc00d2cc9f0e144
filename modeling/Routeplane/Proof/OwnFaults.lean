import Routeplane.Proof.Hedge
import Routeplane.Proof.Walks
import Routeplane.Proxy.Executors

/-!
# A caller's own faults

* `served_harmless`: on every path a throttle, a rejected request and a timeout of the
  caller's own header budget leave every breaker as it was, each failure counted against a
  provider has an earlier try to answer for it, and a pool counts at most once per request.
* `ownFaults_felt`: a timeout of a routing config, a refused credential and a hedged pool do
  reach the shared breaker.
-/

namespace Routeplane

/-- The try was bounded by the caller's header: the header won the fold, and what was left of it
was less than the server would have allowed the attempt. -/
def PlannedRequest.OwnBudget (r : PlannedRequest) (cfg : DeadlineConfig) (t : FailedTry) : Prop :=
  ∃ ms target, r.headerTimeoutMs = some ms ∧ r.targets[t.target]? = some target ∧
    r.clientCappedAt + ms < (r.serverDeadline cfg).expiresAt ∧
    r.clientCappedAt + ms - t.startedAt < (r.serverDeadline cfg).serverAttemptBound target.timeoutMs

/-- The try failed on the caller's own account. -/
def PlannedRequest.OwnFault (r : PlannedRequest) (cfg : DeadlineConfig) (t : FailedTry) : Prop :=
  match t.fault with
  | .error (.rateLimited ..) | .error (.badRequest ..) => True
  | .error (.timeout ..) | .elapsed => r.OwnBudget cfg t
  | _ => False

/-- Every failure counted has an earlier failed try of its target to answer for it. -/
def Justified (es : List Event) : Prop :=
  ∀ before i p after, es = before ++ .fed i p :: after →
    ∃ t, .failed t ∈ before ∧ t.target = i ∧ t.speaks = true

/-- A resolved target is one of the plan. -/
structure Planned (k : VirtualKey) (targets : List TargetPlan) (rt : ReadyTarget) : Prop where
  target_eq : targets[rt.idx]? = some rt.target
  pool_eq : rt.isPool = targetIsPool k rt.target.provider

/-- What the targets from position `idx` on leave behind. -/
structure Tally (k : VirtualKey) (targets : List TargetPlan) (deadline : Deadline) (idx : ℕ)
    (seg : List Event) : Prop where
  at_ge : ∀ x ∈ seg, ∃ i, x.at = some i ∧ idx ≤ i
  tried : ∀ t, .failed t ∈ seg → ∃ rt key, Planned k targets rt ∧ t.Of deadline rt key
  justified : Justified seg
  pool_once : ∀ i target, targets[i]? = some target → targetIsPool k target.provider = true →
    fedCount i seg ≤ 1

section

variable {es es' : List Event}

theorem Justified.nil : Justified [] := by
  intro before i p after h
  simp at h

theorem Justified.of_no_fed (h : ∀ i p, .fed i p ∉ es) : Justified es := by
  intro before i p after heq
  refine absurd ?_ (h i p)
  rw [heq]
  simp

theorem Justified.append (h : Justified es) (h' : Justified es') : Justified (es ++ es') := by
  intro before i p after heq
  rcases List.append_eq_append_iff.1 heq with ⟨mid, hbefore, hes'⟩ | ⟨mid, hes, hafter⟩
  · obtain ⟨t, ht, hspeaks⟩ := h' mid i p after hes'
    exact ⟨t, by rw [hbefore]; exact List.mem_append_right _ ht, hspeaks⟩
  · cases mid with
    | nil =>
      obtain ⟨t, ht, -⟩ := h' [] i p after (by simpa using hafter.symm)
      simp at ht
    | cons x mid =>
      obtain ⟨rfl, -⟩ := List.cons.inj hafter
      exact h before i p mid hes

/-- A count after its cause. -/
theorem Justified.fed (h : Justified es) {t : FailedTry} (ht : .failed t ∈ es)
    (hspeaks : t.speaks = true) (p : String) : Justified (es ++ [.fed t.target p]) := by
  intro before i p' after heq
  rcases List.eq_nil_or_concat after with rfl | ⟨after, x, rfl⟩
  · obtain ⟨rfl, hlast⟩ := List.append_inj' heq rfl
    injection (List.cons.inj hlast).1 with hi
    exact ⟨t, ht, hi, hspeaks⟩
  · rw [List.concat_eq_append, ← List.cons_append, ← List.append_assoc] at heq
    exact h before i p' after (List.append_inj' heq rfl).1

/-- A cause comes before the count, so dropping the end keeps it. -/
theorem Justified.take (h : Justified es) (n : ℕ) : Justified (es.take n) := by
  intro before i p after heq
  refine h before i p (after ++ es.drop n) ?_
  rw [← List.cons_append, ← List.append_assoc, ← heq, List.take_append_drop]

end

section

variable {ρ : Type} {env : Env ρ} {st : AppState} {k : VirtualKey} {caller : Caller}
  {deadline : Deadline} {rt : ReadyTarget} {key : PoolKey} {w : World} {attempt left : ℕ}
  {hint : Option ℕ} {start : List Event}

/-! ## The tries of a key -/

theorem justified_failureRecord {t : FailedTry} (ht : t.Of deadline rt key) :
    Justified (failureRecord rt t) := by
  unfold failureRecord
  split
  · rename_i hfeeds
    have hspeaks : t.speaks = true := (Bool.and_eq_true_iff.1 hfeeds).2
    intro before i p after heq
    -- the record is the try and its count, in this order
    cases before with
    | nil => simp at heq
    | cons x before =>
      obtain ⟨rfl, hrest⟩ := List.cons.inj heq
      cases before with
      | nil =>
        have hi : rt.idx = i := by
          have hfed := (List.cons.inj hrest).1
          injection hfed
        exact ⟨t, List.mem_cons_self, by rw [ht.target_eq, hi], hspeaks⟩
      | cons y before => simp at hrest
  · refine .of_no_fed fun i p hfed => ?_
    simp at hfed

theorem fedCount_failureRecord (i : ℕ) (t : FailedTry) : fedCount i (failureRecord rt t) ≤ 1 := by
  unfold failureRecord
  rw [fedCount_append]
  have htry : fedCount i [.failed t] = 0 := rfl
  rw [htry, Nat.zero_add]
  split
  · exact List.countP_le_length
  · exact Nat.zero_le 1

theorem record_recordAttemptSuccess (elapsed : ℕ) :
    (recordAttemptSuccess caller rt key elapsed w).record = w.record := by
  unfold recordAttemptSuccess
  simp only
  split <;> rfl

variable (env st caller deadline rt key attempt hint w) in
/-- One round of a key adds tries of that key, each count with its cause, at most one. -/
theorem attemptRound_record :
    ∃ seg, (attemptRound env st caller deadline rt key attempt hint w).2.record = w.record ++ seg ∧
      (∀ x ∈ seg, x.isTry deadline rt key) ∧ Justified seg ∧ ∀ i, fedCount i seg ≤ 1 := by
  have hround : RoundAlike caller deadline rt key w.record false
      (attemptRound env st caller deadline rt key attempt hint w)
      (establishRound env st caller deadline rt key attempt hint false {} w) :=
    establishRound_alike (.refl w)
  have hlone : ∀ {x : Event}, (∀ i p, x ≠ .fed i p) → Justified [x] ∧ ∀ i, fedCount i [x] ≤ 1 := by
    intro x hx
    refine ⟨.of_no_fed fun i p hmem => ?_, fun i => List.countP_le_length⟩
    exact hx i p (List.mem_singleton.1 hmem).symm
  generalize attemptRound env st caller deadline rt key attempt hint w = b at hround ⊢
  generalize establishRound env st caller deadline rt key attempt hint false {} w = s at hround
  cases hround with
  | skipped hal hr =>
    obtain ⟨hjust, hfed⟩ := hlone (x := .skipped rt.idx key) (by simp)
    refine ⟨_, hr, ?_, hjust, hfed⟩
    intro x hx
    obtain rfl := List.mem_singleton.1 hx
    exact ⟨rfl, rfl⟩
  | won hal hr =>
    obtain ⟨hjust, hfed⟩ :=
      hlone (x := .dispatched ⟨rt.idx, rt.target.provider, key, rt.shaped⟩) (by simp)
    refine ⟨_, by rw [record_recordAttemptSuccess, hr], ?_, hjust, hfed⟩
    intro x hx
    obtain rfl := List.mem_singleton.1 hx
    exact rfl
  | @failed e t notes v v' hal ht hr =>
    obtain ⟨hjust, hfed⟩ :=
      hlone (x := .dispatched ⟨rt.idx, rt.target.provider, key, rt.shaped⟩) (by simp)
    rw [List.append_assoc] at hr
    refine ⟨_, hr, fun x hx => isTry_failure ht hx, hjust.append (justified_failureRecord ht),
      fun i => ?_⟩
    rw [fedCount_append]
    have hcount : fedCount i (failureRecord rt t) ≤ 1 := fedCount_failureRecord i t
    exact (Nat.zero_add _).trans_le hcount

variable (env st caller deadline rt key left attempt hint w) in
/-- **The loop of a key**, by induction on the retries left. -/
theorem attemptLoop_record :
    ∃ seg, (attemptLoop env st caller deadline rt key left attempt hint w).2.record =
        w.record ++ seg ∧
      (∀ x ∈ seg, x.isTry deadline rt key) ∧ Justified seg ∧ ∀ i, fedCount i seg ≤ left + 1 := by
  induction left generalizing attempt hint w with
  | zero =>
    obtain ⟨seg, hr, hof, hjust, hfed⟩ :=
      attemptRound_record env st caller deadline rt key w attempt hint
    unfold attemptLoop
    split
    · rename_i o v heq
      rw [heq] at hr
      exact ⟨seg, hr, hof, hjust, hfed⟩
    · rename_i e f v heq
      rw [heq] at hr
      exact ⟨seg, hr, hof, hjust, hfed⟩
  | succ left ih =>
    obtain ⟨seg, hr, hof, hjust, hfed⟩ :=
      attemptRound_record env st caller deadline rt key w attempt hint
    have hle : ∀ i, fedCount i seg ≤ left + 1 + 1 := fun i => (hfed i).trans (by omega)
    unfold attemptLoop
    split
    · rename_i o v heq
      rw [heq] at hr
      exact ⟨seg, hr, hof, hjust, hle⟩
    · rename_i e f v heq
      rw [heq] at hr
      simp only
      split
      · -- the round, then the rest of the loop
        obtain ⟨rest, hr', hof', hjust', hfed'⟩ := ih v (attempt + 1) (retryAfterHint e)
        refine ⟨seg ++ rest, by rw [hr', hr, List.append_assoc], ?_, hjust.append hjust', ?_⟩
        · intro x hx
          exact (List.mem_append.1 hx).elim (hof x) (hof' x)
        · intro i
          have hround := hfed i
          have hrest := hfed' i
          rw [fedCount_append]
          omega
      · exact ⟨seg, hr, hof, hjust, hle⟩

variable (env st caller deadline rt key w) in
theorem attemptTarget_record :
    ∃ seg, (attemptTarget env st caller deadline rt key w).2.record = w.record ++ seg ∧
      (∀ x ∈ seg, x.isTry deadline rt key) ∧ Justified seg ∧
        ∀ i, fedCount i seg ≤ rt.target.retry.attempts + 1 := by
  unfold attemptTarget
  split
  · refine ⟨[], (List.append_nil _).symm, by simp, .nil, fun i => Nat.zero_le _⟩
  · exact attemptLoop_record env st caller deadline rt key w _ _ _

variable (env st caller deadline rt) in
/-- The keys of a target add tries whose counts have their causes. -/
theorem walkKeys_justified (keys : List PoolKey) (verdict : Bool) (notes : Notes) (w : World) :
    ∃ seg, (walkKeys (attemptTarget env st caller deadline rt) keys verdict notes w).2.2.2.record =
      w.record ++ seg ∧ Justified seg := by
  have htry : ∀ key ∈ keys, ∀ v : World, (∃ seg, v.record = w.record ++ seg ∧ Justified seg) →
      ∃ seg, (attemptTarget env st caller deadline rt key v).2.record = w.record ++ seg ∧
        Justified seg := by
    rintro key - v ⟨seg, hv, hjust⟩
    obtain ⟨seg', hr, -, hjust', -⟩ := attemptTarget_record env st caller deadline rt key v
    exact ⟨seg ++ seg', by rw [hr, hv, List.append_assoc], hjust.append hjust'⟩
  exact walkKeys_preserves htry verdict notes w ⟨[], (List.append_nil _).symm, .nil⟩

/-! ## Targets -/

variable {targets rest : List TargetPlan} {idx i : ℕ} {es tries after seg : List Event}
  {target : TargetPlan} {payload : ChatCompletionRequest} {seed : BitVec 64} {h₀ : HealthTracker}
  {now : ℕ} {notes : Notes}

theorem planned_of_ready
    (hok : readyTarget st k caller.tenantId payload seed h₀ now target idx = .ok rt)
    (htarget : targets[idx]? = some target) : Planned k targets rt := by
  obtain ⟨hidx, heq, -, -⟩ := readyTarget_ok hok
  refine ⟨by rw [hidx, heq]; exact htarget, ?_⟩
  rw [heq]
  exact (isPool_eq hok).symm

/-- The targets resolved at the start are of the plan. -/
theorem planned_of_mem
    (hrt : rt ∈ readyTargets st k caller.tenantId payload seed h₀ now targets) :
    Planned k targets rt := by
  obtain ⟨⟨t, i⟩, hmem, hto⟩ := List.mem_filterMap.1 hrt
  cases hok : readyTarget st k caller.tenantId payload seed h₀ now t i with
  | error e => simp [hok, Except.toOption] at hto
  | ok rt' =>
    simp only [hok, Except.toOption, Option.some.injEq] at hto
    subst hto
    exact planned_of_ready hok (List.mem_zipIdx_iff_getElem?.1 hmem)

theorem Tally.nil : Tally k targets deadline idx [] :=
  ⟨by simp, by simp, .nil, fun _ _ _ _ => Nat.zero_le _⟩

theorem Tally.mono (h : Tally k targets deadline (idx + 1) seg) :
    Tally k targets deadline idx seg := by
  refine ⟨fun x hx => ?_, h.tried, h.justified, h.pool_once⟩
  obtain ⟨i, hat, hle⟩ := h.at_ge x hx
  exact ⟨i, hat, by omega⟩

theorem speaker_of_trail (h : true ∈ trail i key es) :
    ∃ t, .failed t ∈ es ∧ t.target = i ∧ t.speaks = true := by
  obtain ⟨x, hx, hverdict⟩ := List.mem_filterMap.1 h
  cases x with
  | failed t =>
    have hverdict' : (if t.target = i ∧ t.key = key then some t.speaks else none) = some true :=
      hverdict
    split at hverdict'
    · rename_i hof
      exact ⟨t, hx, hof.1, Option.some.inj hverdict'⟩
    · simp at hverdict'
  | skipped j key' =>
    have hverdict' : (if j = i ∧ key' = key then some false else none) = some true := hverdict
    split at hverdict' <;> simp at hverdict'
  | dispatched d => simp [Event.verdict] at hverdict
  | fed j p => simp [Event.verdict] at hverdict
  | usage e => simp [Event.verdict] at hverdict

theorem tried_of_tries (hrt : Planned k targets rt)
    (htries : ∀ x ∈ tries, ∃ key ∈ rt.keys, x.isTry deadline rt key) {t : FailedTry}
    (ht : .failed t ∈ tries) : ∃ rt key, Planned k targets rt ∧ t.Of deadline rt key := by
  obtain ⟨key, -, hof⟩ := htries _ ht
  exact ⟨rt, key, hrt, hof⟩

/-- No try of a pool key counts a failure. -/
theorem fedCount_poolTries (hrt : Planned k targets rt)
    (htries : ∀ x ∈ tries, ∃ key ∈ rt.keys, x.isTry deadline rt key)
    (htarget : targets[i]? = some target) (hpool : targetIsPool k target.provider = true) :
    fedCount i tries = 0 := by
  by_cases hi : rt.idx = i
  · have heq : rt.target = target := by
      have htarget' := hrt.target_eq
      rw [hi, htarget] at htarget'
      exact (Option.some.inj htarget').symm
    have hpooled : rt.isPool = true := by rw [hrt.pool_eq, heq, hpool]
    have hsome : ∀ x ∈ tries, ∃ key : PoolKey, key.1.isSome ∧ x.isTry deadline rt key := by
      intro x hx
      obtain ⟨key, hkey, hof⟩ := htries x hx
      exact ⟨key, by rw [ReadyTarget.isSome_eq hkey, hpooled], hof⟩
    exact fedCount_tries hsome
  · refine fedCount_elsewhere fun x hx hat => ?_
    obtain ⟨key, -, hof⟩ := htries x hx
    exact hi (Option.some.inj ((at_of_isTry hof).symm.trans hat))

/-- A target that wins. -/
theorem Tally.won (hrt : Planned k targets rt) (hidx : rt.idx = idx)
    (htries : ∀ x ∈ tries, ∃ key ∈ rt.keys, x.isTry deadline rt key) (hjust : Justified tries) :
    Tally k targets deadline idx tries := by
  refine ⟨fun x hx => ?_, fun t ht => tried_of_tries hrt htries ht, hjust, ?_⟩
  · obtain ⟨key, -, hof⟩ := htries x hx
    exact ⟨rt.idx, at_of_isTry hof, hidx.ge⟩
  · intro i target htarget hpool
    rw [fedCount_poolTries hrt htries htarget hpool]
    exact Nat.zero_le 1

/-- Put an exhausted target in front of a walk: its pool may count one failure, of its own. -/
theorem Tally.exhausted (hrt : Planned k targets rt) (hidx : rt.idx = idx)
    (htries : ∀ x ∈ tries, ∃ key ∈ rt.keys, x.isTry deadline rt key) (hjust : Justified tries)
    {verdict : Bool} (hverdict : verdict = true → ∃ key, true ∈ trail rt.idx key tries)
    (h : Tally k targets deadline (idx + 1) after) :
    Tally k targets deadline idx (tries ++ closing rt verdict ++ after) := by
  have hat := at_tries htries verdict
  refine ⟨fun x hx => ?_, fun t ht => ?_, ?_, ?_⟩
  · rcases List.mem_append.1 hx with hx | hx
    · exact ⟨rt.idx, hat x hx, hidx.ge⟩
    · exact h.mono.at_ge x hx
  · rcases List.mem_append.1 ht with ht | ht
    · rcases List.mem_append.1 ht with ht | ht
      · exact tried_of_tries hrt htries ht
      · unfold closing at ht
        split at ht <;> simp at ht
    · exact h.tried t ht
  · refine Justified.append ?_ h.justified
    unfold closing
    split
    · rename_i hfeeds
      obtain ⟨key, hkey⟩ := hverdict (Bool.and_eq_true_iff.1 hfeeds).2
      obtain ⟨t, ht, hi, hspeaks⟩ := speaker_of_trail hkey
      rw [← hi]
      exact hjust.fed ht hspeaks _
    · rwa [List.append_nil]
  · intro i target htarget hpool
    have htries0 := fedCount_poolTries hrt htries htarget hpool
    have hclosing : fedCount i (closing rt verdict) ≤ 1 := by
      unfold closing
      split
      · exact List.countP_le_length
      · exact Nat.zero_le 1
    have hafter := h.pool_once i target htarget hpool
    rw [fedCount_append, fedCount_append, htries0, Nat.zero_add]
    by_cases hi : i = idx
    · have hafter0 : fedCount i after = 0 := by
        refine fedCount_elsewhere fun x hx hx' => ?_
        obtain ⟨j, hj, hle⟩ := h.at_ge x hx
        have hij : j = i := Option.some.inj (hj.symm.trans hx')
        omega
      omega
    · have hclosing0 : fedCount i (closing rt verdict) = 0 := by
        refine fedCount_elsewhere fun x hx hx' => ?_
        have hx'' := hat x (List.mem_append_right _ hx)
        exact hi (by rw [← hidx]; exact Option.some.inj (hx'.symm.trans hx''))
      omega

/-! ## Walks -/

variable {all : List TargetPlan}

theorem drop_cons (hdrop : all.drop idx = target :: rest) :
    all[idx]? = some target ∧ all.drop (idx + 1) = rest := by
  refine ⟨?_, ?_⟩
  · have hhead := congrArg (fun l => l[0]?) hdrop
    simpa [List.getElem?_drop] using hhead
  · rw [← List.drop_drop, hdrop]
    rfl

variable (env st k caller deadline payload) in
/-- **The buffered walk**, by induction on the targets. -/
theorem bufferedWalk_tally (seed : BitVec 64) (h₀ : HealthTracker) (now : ℕ)
    (hdrop : all.drop idx = rest) (notes : Notes) (w : World) :
    ∃ seg, (bufferedWalk env st caller deadline
        (readyFrom st k caller payload seed h₀ now rest idx) notes w).2.2.record = w.record ++ seg ∧
      Tally k all deadline idx seg := by
  induction rest generalizing idx notes w with
  | nil => exact ⟨[], (List.append_nil _).symm, .nil⟩
  | cons target rest ih =>
    obtain ⟨htarget, hdrop'⟩ := drop_cons hdrop
    rw [readyFrom_cons]
    split
    · rename_i rt hok
      obtain ⟨hidx, heq, hres, -⟩ := readyTarget_ok hok
      have hplanned := planned_of_ready hok htarget
      have hkeys : KeysAlike caller deadline rt rt.keys w.record false false
          (walkKeys (attemptTarget env st caller deadline rt) rt.keys false notes w)
          (establishKeys env st caller deadline rt rt.keys false notes w) :=
        establishKeys_alike (by rw [heq]; exact hres) rt.keys_nodup (.refl w)
      obtain ⟨seg, hseg, hjust⟩ := walkKeys_justified env st caller deadline rt rt.keys false notes w
      rw [bufferedWalk_cons]
      generalize walkKeys (attemptTarget env st caller deadline rt) rt.keys false notes w = b
        at hkeys hseg ⊢
      generalize establishKeys env st caller deadline rt rt.keys false notes w = s at hkeys
      cases hkeys with
      | @exhausted n n' v v' tries hal hr hof =>
        obtain rfl : seg = tries := List.append_cancel_left (hseg.symm.trans hr)
        simp only [Bool.false_or]
        obtain ⟨after, hrec, hafter⟩ := ih hdrop' n
          (closeTarget caller rt (endsAgainst rt.idx rt.keys seg) v)
        refine ⟨seg ++ closing rt (endsAgainst rt.idx rt.keys seg) ++ after, ?_,
          .exhausted hplanned hidx hof hjust ?_ hafter⟩
        · rw [hrec, record_closeTarget, hr]
          simp only [List.append_assoc]
        · intro hends
          obtain ⟨key, hlast⟩ := (endsAgainst_iff hof).1 hends
          exact ⟨key, List.mem_of_getLast? hlast⟩
      | @won response elapsed l a n n' v v' tries hal hr hof =>
        obtain rfl : seg = tries := List.append_cancel_left (hseg.symm.trans hr)
        exact ⟨seg, hr, .won hplanned hidx hof hjust⟩
    · obtain ⟨seg, hrec, hseg⟩ := ih hdrop' notes w
      exact ⟨seg, hrec, hseg.mono⟩

variable (env st k caller deadline payload) in
/-- **The streaming walk**, by induction on the targets. -/
theorem streamTargets_tally (backoffSeed : ℕ → BitVec 64) (now : ℕ)
    (hdrop : all.drop idx = rest) (notes : Notes) (w : World) :
    ∃ seg, (streamTargets env st k caller deadline payload backoffSeed now rest idx notes
        w).2.2.record = w.record ++ seg ∧ Tally k all deadline idx seg := by
  induction rest generalizing idx notes w with
  | nil => exact ⟨[], (List.append_nil _).symm, .nil⟩
  | cons target rest ih =>
    obtain ⟨htarget, hdrop'⟩ := drop_cons hdrop
    unfold streamTargets
    simp only
    split
    · obtain ⟨seg, hrec, hseg⟩ := ih hdrop' _ w
      exact ⟨seg, hrec, hseg.mono⟩
    · rename_i rt hok
      obtain ⟨hidx, heq, hres, -⟩ := readyTarget_ok hok
      have hplanned := planned_of_ready hok htarget
      have hkeys : KeysAlike caller deadline rt rt.keys w.record false false
          (walkKeys (attemptTarget env st caller deadline rt) rt.keys false notes w)
          (establishKeys env st caller deadline rt rt.keys false notes w) :=
        establishKeys_alike (by rw [heq]; exact hres) rt.keys_nodup (.refl w)
      obtain ⟨seg, hseg, hjust⟩ := walkKeys_justified env st caller deadline rt rt.keys false notes w
      generalize walkKeys (attemptTarget env st caller deadline rt) rt.keys false notes w = b
        at hkeys hseg
      generalize establishKeys env st caller deadline rt rt.keys false notes w = s at hkeys ⊢
      cases hkeys with
      | @exhausted n n' v v' tries hal hr hof =>
        obtain rfl : seg = tries := List.append_cancel_left (hseg.symm.trans hr)
        simp only [Bool.false_or]
        have hclose : (if targetIsPool k target.provider && speaksAgainst rt.idx rt.keys seg then
            feedPool caller rt v' else v') =
              closeTarget caller rt (speaksAgainst rt.idx rt.keys seg) v' := by
          rw [isPool_eq hok]
          rfl
        rw [hclose]
        obtain ⟨after, hrec, hafter⟩ := ih hdrop' n'
          (closeTarget caller rt (speaksAgainst rt.idx rt.keys seg) v')
        refine ⟨seg ++ closing rt (speaksAgainst rt.idx rt.keys seg) ++ after, ?_,
          .exhausted hplanned hidx hof hjust ?_ hafter⟩
        · rw [hrec, record_closeTarget, ← hal.record_eq, hr]
          simp only [List.append_assoc]
        · intro hspoke
          obtain ⟨key, -, htrue⟩ := (speaksAgainst_iff hof).1 hspoke
          exact ⟨key, htrue⟩
      | @won response elapsed l a n n' v v' tries hal hr hof =>
        obtain rfl : seg = tries := List.append_cancel_left (hseg.symm.trans hr)
        refine ⟨seg, ?_, .won hplanned hidx hof hjust⟩
        rw [← hr, hal.record_eq]
        rfl

end

/-! ## The hedged path -/

section

variable {ρ : Type} {st : AppState} {caller : Caller} {deadline : Deadline}

/-- Events of distinct targets are counted apart. -/
theorem fedCount_flatMap {launched : List ReadyTarget} (hidx : DistinctIdx launched)
    {f : ReadyTarget → List Event} (hat : ∀ rt ∈ launched, ∀ x ∈ f rt, x.at = some rt.idx)
    {i n : ℕ} (hle : ∀ rt ∈ launched, rt.idx = i → fedCount i (f rt) ≤ n) :
    fedCount i (launched.flatMap f) ≤ n := by
  induction launched with
  | nil => exact Nat.zero_le n
  | cons rt rest ih =>
    obtain ⟨hnot, hidx'⟩ := hidx.cons
    rw [List.flatMap_cons, fedCount_append]
    have hat' : ∀ r ∈ rest, ∀ x ∈ f r, x.at = some r.idx :=
      fun r hr => hat r (List.mem_cons_of_mem _ hr)
    by_cases hi : rt.idx = i
    · have hrest : fedCount i (rest.flatMap f) = 0 := by
        refine fedCount_elsewhere fun x hx hx' => ?_
        obtain ⟨r, hr, hxr⟩ := List.mem_flatMap.1 hx
        have hri : r.idx = i := Option.some.inj ((hat' r hr x hxr).symm.trans hx')
        exact hnot r hr (by rw [hri, hi])
      rw [hrest, Nat.add_zero]
      exact hle rt List.mem_cons_self hi
    · have hfirst : fedCount i (f rt) = 0 := by
        refine fedCount_elsewhere fun x hx hx' => hi ?_
        exact Option.some.inj ((hat rt List.mem_cons_self x hx).symm.trans hx')
      rw [hfirst, Nat.zero_add]
      exact ih hidx' hat' fun r hr => hle r (List.mem_cons_of_mem _ hr)

theorem justified_flatMap {launched : List ReadyTarget} {f : ReadyTarget → List Event}
    (h : ∀ rt ∈ launched, Justified (f rt)) : Justified (launched.flatMap f) := by
  induction launched with
  | nil => exact .nil
  | cons rt rest ih =>
    rw [List.flatMap_cons]
    exact (h rt List.mem_cons_self).append (ih fun r hr => h r (List.mem_cons_of_mem _ hr))

variable (st caller deadline) in
/-- What is kept of a hedged attempt. -/
theorem hedgedAttempt_record (rt : ReadyTarget) (strand : Strand ρ) (n : ℕ) :
    let kept := (hedgedAttempt st caller deadline rt strand).2.record.take n
    (∀ x ∈ kept, x.isTry deadline rt (none, rt.firstKey.2)) ∧ Justified kept ∧
      ∀ i, fedCount i kept ≤ rt.target.retry.attempts + 1 := by
  intro kept
  obtain ⟨seg, hr, hof, hjust, hfed⟩ := attemptTarget_record strand.env st caller deadline rt
    (none, rt.firstKey.2) (.start strand.now strand.health)
  have hkept : kept = seg.take n := by
    unfold kept hedgedAttempt
    rw [hr]
    rfl
  rw [hkept]
  refine ⟨fun x hx => hof x (List.mem_of_mem_take hx), hjust.take n, fun i => ?_⟩
  have hsub : fedCount i (seg.take n) ≤ fedCount i seg := (List.take_sublist n seg).countP_le
  exact hsub.trans (hfed i)

end

/-! ## Services -/

/-- The race of the hedged path passes each target its first key only. -/
def Execution.isHedged {ρ : Type} : Execution ρ → Bool
  | .hedged .. => true
  | _ => false

/-- What serving a request may do to the breakers. -/
structure Service.Harmless {ρ : Type} (st : AppState) (cfg : DeadlineConfig) (s : Service ρ) :
    Prop where
  /-- A fault of the caller's own leaves every breaker as it was. -/
  own_fault : ∀ t, .failed t ∈ s.record st cfg → s.request.OwnFault cfg t →
    t.before.SameBreakers t.after
  /-- So does any fault of a pool key, a refused credential included. -/
  pool_key : ∀ t, .failed t ∈ s.record st cfg → t.key.1.isSome = true →
    t.before.SameBreakers t.after
  /-- A failure counted answers to a try that did not fail on the caller's own account. -/
  fed_cause : ∀ i p, .fed i p ∈ s.record st cfg →
    ∃ t, .failed t ∈ s.record st cfg ∧ t.target = i ∧ ¬s.request.OwnFault cfg t
  /-- A pool counts at most one failure. -/
  pool_once : s.execution.isHedged = false → ∀ i target, s.request.targets[i]? = some target →
    targetIsPool s.request.key target.provider = true → fedCount i (s.record st cfg) ≤ 1
  /-- A hedged target counts at most one failure for each try. -/
  hedged_le : s.execution.isHedged = true → ∀ i target, s.request.targets[i]? = some target →
    fedCount i (s.record st cfg) ≤ target.retry.attempts + 1

section

variable {ρ : Type} {st : AppState} {cfg : DeadlineConfig} {r : PlannedRequest} {rt : ReadyTarget}
  {key : PoolKey} {t : FailedTry}

/-- **A budget of the caller's own is recognised on each try it bounds.** -/
theorem clientBounded_of_ownBudget (hrt : r.targets[rt.idx]? = some rt.target)
    (hof : t.Of (r.deadline cfg) rt key) (hown : r.OwnBudget cfg t) : t.clientBounded = true := by
  obtain ⟨ms, target, hms, htarget, hwon, hbound⟩ := hown
  obtain ⟨timeout, htimeout, hcb⟩ := hof.bounded
  have heq : rt.target = target := by
    rw [hof.target_eq, hrt] at htarget
    exact Option.some.inj htarget
  have hdeadline : r.deadline cfg =
      { r.serverDeadline cfg with expiresAt := r.clientCappedAt + ms, clientCapped := true } := by
    unfold PlannedRequest.deadline Deadline.withClientRequestCap
    rw [hms]
    exact if_pos hwon
  rw [hcb]
  refine Deadline.bounded_of_tighter ?_ htimeout ?_
  · rw [hdeadline]
  · rw [hdeadline, heq]
    exact hbound

theorem speaks_of_ownFault (hrt : r.targets[rt.idx]? = some rt.target)
    (hof : t.Of (r.deadline cfg) rt key) (hown : r.OwnFault cfg t) : t.speaks = false := by
  unfold FailedTry.speaks
  unfold PlannedRequest.OwnFault at hown
  split at hown
  · rename_i hfault
    rw [hfault]
    rfl
  · rename_i hfault
    rw [hfault]
    rfl
  · rename_i hfault
    rw [hfault, clientBounded_of_ownBudget hrt hof hown]
    rfl
  · rename_i hfault
    rw [hfault, clientBounded_of_ownBudget hrt hof hown]
    rfl
  · exact hown.elim

/-- What is harmless about a record whose tries and counts are accounted for. -/
theorem Service.Harmless.of_tries {s : Service ρ}
    (htried : ∀ t, .failed t ∈ s.record st cfg → ∃ rt key,
      s.request.targets[rt.idx]? = some rt.target ∧ t.Of (s.request.deadline cfg) rt key)
    (hjust : Justified (s.record st cfg))
    (hpool : s.execution.isHedged = false → ∀ i target, s.request.targets[i]? = some target →
      targetIsPool s.request.key target.provider = true → fedCount i (s.record st cfg) ≤ 1)
    (hhedged : s.execution.isHedged = true → ∀ i target, s.request.targets[i]? = some target →
      fedCount i (s.record st cfg) ≤ target.retry.attempts + 1) : s.Harmless st cfg where
  own_fault t ht hown := by
    obtain ⟨rt, key, hrt, hof⟩ := htried t ht
    refine hof.excused ?_
    rw [speaks_of_ownFault hrt hof hown, Bool.and_false]
  pool_key t ht hkey := by
    obtain ⟨rt, key, hrt, hof⟩ := htried t ht
    rw [hof.key_eq] at hkey
    refine hof.excused ?_
    rw [Option.isNone_eq_false_iff.2 hkey, Bool.false_and]
  fed_cause i p hfed := by
    obtain ⟨before, after, heq⟩ := List.append_of_mem hfed
    obtain ⟨t, ht, hi, hspeaks⟩ := hjust before i p after heq
    have hmem : .failed t ∈ s.record st cfg := by
      rw [heq]
      exact List.mem_append_left _ ht
    refine ⟨t, hmem, hi, fun hown => ?_⟩
    obtain ⟨rt, key, hrt, hof⟩ := htried t hmem
    rw [speaks_of_ownFault hrt hof hown] at hspeaks
    exact Bool.false_ne_true hspeaks
  pool_once := hpool
  hedged_le := hhedged

theorem Service.Harmless.of_tally {s : Service ρ} {seg : List Event}
    (hnot : s.execution.isHedged = false) (hrec : s.record st cfg = seg)
    (hseg : Tally s.request.key s.request.targets (s.request.deadline cfg) 0 seg) :
    s.Harmless st cfg := by
  subst hrec
  refine .of_tries (fun t ht => ?_) hseg.justified (fun _ => hseg.pool_once) fun h => ?_
  · obtain ⟨rt, key, hrt, hof⟩ := hseg.tried t ht
    exact ⟨rt, key, hrt.target_eq, hof⟩
  · rw [hnot] at h
    exact absurd h Bool.false_ne_true

variable (st cfg) in
/-- **A caller's own faults reach no breaker.** -/
theorem served_harmless (s : Service ρ) : s.Harmless st cfg := by
  obtain ⟨r, execution, now, health⟩ := s
  cases execution with
  | buffered env =>
    have hdrop : r.targets.drop 0 = r.targets := List.drop_zero
    obtain ⟨seg, hrec, hseg⟩ := bufferedWalk_tally env st r.key r.caller (r.deadline cfg) r.payload
      r.requestSeed health now hdrop
      (readyNotes st r.key r.caller.tenantId r.payload r.requestSeed health now r.targets)
      (.start now health)
    exact .of_tally rfl hrec hseg
  | streaming env =>
    have hdrop : r.targets.drop 0 = r.targets := List.drop_zero
    obtain ⟨seg, hrec, hseg⟩ := streamTargets_tally env st r.key r.caller (r.deadline cfg) r.payload
      r.backoffSeed now hdrop {} (.start now health)
    exact .of_tally rfl hrec hseg
  | hedged policy pick strands steps =>
    set ready := readyTargets st r.key r.caller.tenantId r.payload r.requestSeed health now r.targets
      with hready
    set notes := readyNotes st r.key r.caller.tenantId r.payload r.requestSeed health now r.targets
    set kept : ReadyTarget → List Event := fun rt =>
      (hedgedAttempt st r.caller (r.deadline cfg) rt (strands rt)).2.record.take (strands rt).kept
      with hkept
    set attempt : ReadyTarget → Attempt ρ := fun rt =>
      ⟨(hedgedAttempt st r.caller (r.deadline cfg) rt (strands rt)).1,
        (hedgedAttempt st r.caller (r.deadline cfg) rt (strands rt)).2.now - (strands rt).now⟩
    set launched := (runHedgedTargets pick attempt policy (r.deadline cfg) ready now notes
      steps).launched with hlaunched
    -- targets are launched in their order, each once
    have hpre : launched <+: ready := (runHedgedTargets_standing steps).launched_initial
    have hplanned : ∀ rt ∈ launched, Planned r.key r.targets rt := fun rt hrt =>
      planned_of_mem (hpre.subset hrt)
    have hidx : DistinctIdx launched := by
      have hall : DistinctIdx ready := readyFrom_distinct
      exact hall.sublist (hpre.sublist.map _)
    have htries := fun rt => hedgedAttempt_record st r.caller (r.deadline cfg) rt (strands rt)
      (strands rt).kept
    have hrec : Service.record st cfg ⟨r, .hedged policy pick strands steps, now, health⟩ =
        launched.flatMap kept := rfl
    refine .of_tries ?_ ?_ (fun h => absurd h (by simp [Execution.isHedged])) ?_
    · intro t ht
      rw [hrec] at ht
      obtain ⟨rt, hrt, ht'⟩ := List.mem_flatMap.1 ht
      exact ⟨rt, _, (hplanned rt hrt).target_eq, (htries rt).1 _ ht'⟩
    · rw [hrec]
      exact justified_flatMap fun rt _ => (htries rt).2.1
    · intro _ i target htarget
      rw [hrec]
      refine fedCount_flatMap hidx (fun rt _ x hx => at_of_isTry ((htries rt).1 x hx)) ?_
      intro rt hrt hi
      have heq : rt.target = target := by
        have htarget' := (hplanned rt hrt).target_eq
        rw [hi, htarget] at htarget'
        exact (Option.some.inj htarget').symm
      rw [← heq]
      exact (htries rt).2.2 i

end

/-! ## What is felt -/

/-- The failures the shared breaker of a provider counted before and after each failed try. -/
def feltFailures (provider : String) (es : List Event) : List (Option ℕ × Option ℕ) :=
  let count (h : HealthTracker) := (h.providers globalOwner provider).map (·.breaker.failures)
  es.filterMap fun
    | .failed t => some (count t.before, count t.after)
    | _ => none

/-- A request for `openai` under one key and one target. -/
def askOpenai (key : String) (target : TargetPlan) (requestTimeoutMs : Option ℕ) :
    PlannedRequest where
  key := { name := "acme", providerKeys := [("openai", key)] }
  caller := acme
  payload := default
  targets := [target]
  requestTimeoutMs := requestTimeoutMs

/-- Every call is answered alike. -/
def answering (e : ProviderError) (takes : ℕ) : Env Unit where
  reply _ := ⟨.error e, takes⟩

/-- **What is felt nevertheless.** A key the provider refuses, a `request_timeout_ms` of 50 and a
hedged pool that is retried once: the first two count a failure each, the third counts two. -/
theorem ownFaults_felt :
    feltFailures "openai" (Service.record openaiGateway {}
      ⟨askOpenai "revoked" { provider := "openai" } none,
        .buffered (answering (.auth "openai" 401 "") 10), 0, openaiHealth⟩) = [(some 0, some 1)] ∧
    feltFailures "openai" (Service.record openaiGateway {}
      ⟨askOpenai "k1" { provider := "openai" } (some 50),
        .buffered (answering (.upstream5xx "openai" 503 "") 1000), 0, openaiHealth⟩) =
      [(some 0, some 1)] ∧
    fedCount 0 (Service.record openaiGateway {}
      ⟨askOpenai "k1,k2" retriedOnce none,
        .hedged ⟨100, 1⟩ (fun _ => 0) (fun _ => ⟨answering (.upstream5xx "openai" 503 "") 10, 0,
          openaiHealth, 9⟩) 1, 0, openaiHealth⟩) = 2 := by
  refine ⟨?_, ?_, ?_⟩ <;> decide +kernel

end Routeplane
