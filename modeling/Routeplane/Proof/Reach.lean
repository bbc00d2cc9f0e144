import Routeplane.Endpoints.Handlers

/-!
# Which providers a slice can reach

A slice hands its payload to a provider in some run exactly when the provider is eligible,
admitted by its breaker, known and keyed, and the request itself is admitted in time.

* `Slice.run_events`: what the events of a run can be.
* `Slice.reaches_iff`: the providers that are handed the payload in some run.
-/

namespace Routeplane

/-! ## Ordering -/

section Order

variable (r : Router) (owner : String) (names : List String) (strategy : RoutingStrategy)
  (h : HealthTracker) (now : ℕ) (nanos : BitVec 64)

/-- The attempt order is made of the eligible names whose breaker admits them. -/
theorem Router.mem_orderCandidates {name : String} :
    name ∈ (r.orderCandidates owner names strategy h now nanos).1 ↔
      name ∈ names ∧ h.admits owner name now = true := by
  have hperm := r.orderLive_perm owner strategy h now (SplitMix.Rng.seeded nanos) id
    (names.map fun name => ({ name := name } : CandidateSpec))
  have hfst : (r.orderCandidates owner names strategy h now nanos).1 =
      (r.orderLive owner strategy h now (SplitMix.Rng.seeded nanos) id
        (names.map fun name => ({ name := name } : CandidateSpec))).1.map (·.name) := rfl
  rw [hfst, (hperm.map (·.name)).mem_iff]
  constructor
  · intro hm
    obtain ⟨spec, hspec, rfl⟩ := List.mem_map.1 hm
    obtain ⟨hmem, hadmits⟩ := List.mem_filter.1 hspec
    obtain ⟨n, hn, rfl⟩ := List.mem_map.1 hmem
    exact ⟨hn, hadmits⟩
  · rintro ⟨hn, hadmits⟩
    exact List.mem_map.2 ⟨{ name := name },
      List.mem_filter.2 ⟨List.mem_map.2 ⟨name, hn, rfl⟩, hadmits⟩, rfl⟩

/-- Ordering heals breakers it asks about, and changes no answer. -/
theorem Router.admits_orderCandidates (o p : String) :
    (r.orderCandidates owner names strategy h now nanos).2.2.admits o p now = h.admits o p now :=
  (keepAvailable_health (fun x : CandidateSpec => (id x).name) o p
    (names.map fun name => { name := name }) h).1

end Order

namespace Endpoint

open Limits (LimitGuards)

/-! ## What the events of a run can be -/

section

variable {π ρ : Type} {site : Site} {call : Call} {s : Slice π ρ}

/-- What the walk over some names adds to the record. -/
def Slice.Emits (site : Site) (call : Call) (s : Slice π ρ) (names : List String) :
    Event π → Prop
  | .handed h => h.provider ∈ names ∧ s.resolve site call h.provider = some h.adapter ∧
      s.apiKey site call h.provider = some h.apiKey ∧ h.payload = s.payload ∧
      0 < site.deadlineConfig.requestDeadline
  | .settled scopes _ _ => scopes = guards site call
  | .admitted .. => False
  | .usage _ | .decision _ | .alert _ => True

theorem Slice.Emits.mono {names names' : List String} {e : Event π} (h : s.Emits site call names e)
    (hsub : ∀ n ∈ names, n ∈ names') : s.Emits site call names' e := by
  cases e with
  | handed hd => exact ⟨hsub _ h.1, h.2⟩
  | admitted => exact h
  | settled => exact h
  | usage => trivial
  | decision => trivial
  | alert => trivial

/-- A state reached from `w` by a walk over `names`. -/
structure Slice.Grows (site : Site) (call : Call) (s : Slice π ρ) (names : List String)
    (w w' : World π) : Prop where
  later : w.now ≤ w'.now
  events : ∃ es, w'.events = w.events ++ es ∧ ∀ e ∈ es, s.Emits site call names e

namespace Slice.Grows

variable {names names' : List String} {w w' w'' : World π}

theorem refl (w : World π) : s.Grows site call names w w :=
  ⟨Nat.le_refl _, [], by simp, by simp⟩

theorem trans (h : s.Grows site call names w w') (h' : s.Grows site call names w' w'') :
    s.Grows site call names w w'' := by
  obtain ⟨hle, es, heq, hes⟩ := h
  obtain ⟨hle', es', heq', hes'⟩ := h'
  refine ⟨Nat.le_trans hle hle', es ++ es', by rw [heq', heq, List.append_assoc], ?_⟩
  intro e he
  rcases List.mem_append.1 he with he | he
  · exact hes e he
  · exact hes' e he

theorem mono (h : s.Grows site call names w w') (hsub : ∀ n ∈ names, n ∈ names') :
    s.Grows site call names' w w' := by
  obtain ⟨hle, es, heq, hes⟩ := h
  exact ⟨hle, es, heq, fun e he => (hes e he).mono hsub⟩

/-- Appending to the record, whatever else changes. -/
theorem of_log {es : List (Event π)} (hlater : w.now ≤ w'.now)
    (hevents : w'.events = w.events ++ es) (hes : ∀ e ∈ es, s.Emits site call names e) :
    s.Grows site call names w w' :=
  ⟨hlater, es, hevents, hes⟩

end Slice.Grows

theorem recordSuccess_grows (name : String) (adapter : Provider) (response : ρ) (elapsedMs : ℕ)
    (names : List String) (w : World π) :
    s.Grows site call names w (recordSuccess site call s name adapter response elapsedMs w).2 := by
  unfold recordSuccess
  refine .of_log (Nat.le_refl _) rfl ?_
  intro e he
  rcases List.mem_append.1 he with he | he
  · simp only [List.mem_cons, List.not_mem_nil, or_false] at he
    rcases he with rfl | rfl | rfl
    · trivial
    · trivial
    · rfl
  · obtain ⟨a, -, rfl⟩ := List.mem_map.1 he
    trivial

theorem recordFailure_grows (name : String) (e : ProviderError) (elapsedMs : ℕ)
    (names : List String) (w : World π) :
    s.Grows site call names w (recordFailure site call s name e elapsedMs w).2 := by
  unfold recordFailure
  refine .of_log (Nat.le_refl _) rfl ?_
  intro ev hev
  rw [List.mem_singleton.1 hev]
  trivial

variable {env : Env ρ} {t₀ : ℕ}

/-- **One provider of the chain**: at most one call, with the slice's payload. -/
theorem attemptProvider_grows (name : String) (w : World π) (ht : t₀ ≤ w.now) :
    s.Grows site call [name] w
      (attemptProvider site call s env (.start site.deadlineConfig t₀) name w).2 := by
  unfold attemptProvider
  split
  · exact .refl w
  · rename_i adapter hadapter
    simp only
    split
    · exact .of_log (Nat.le_refl _) (List.append_nil _).symm (by simp)
    · split
      · exact .of_log (Nat.le_refl _) (List.append_nil _).symm (by simp)
      · rename_i key hkey
        split
        · exact .of_log (Nat.le_refl _) (List.append_nil _).symm (by simp)
        · rename_i timeout htimeout
          -- the deadline has time left, so it had some to begin with
          have htime : 0 < site.deadlineConfig.requestDeadline := by
            unfold Deadline.nextAttemptTimeout at htimeout
            split at htimeout
            · cases htimeout
            · rename_i hr
              unfold Deadline.remaining Deadline.start at hr
              simp only at hr
              omega
          have hcall : s.Grows site call [name] w
              (callProvider env ⟨name, adapter, key, s.payload⟩ timeout
                { w with health := (w.health.isAvailable call.tenantId name w.now).2 }).2.2 := by
            refine .of_log (Nat.le_add_right _ _) rfl ?_
            intro e he
            rw [List.mem_singleton.1 he]
            exact ⟨List.mem_singleton.2 rfl, hadapter, hkey, rfl, htime⟩
          split
          · rename_i response elapsed w' heq
            rw [heq] at hcall
            exact hcall.trans (recordSuccess_grows ..)
          · rename_i e elapsed w' heq
            rw [heq] at hcall
            exact hcall.trans (recordFailure_grows ..)

theorem attemptAll_grows (names : List String) (notes : Notes) (w : World π) (ht : t₀ ≤ w.now) :
    s.Grows site call names w
      (attemptAll site call s env (.start site.deadlineConfig t₀) names notes w).2.2 := by
  induction names generalizing notes w with
  | nil => exact .refl w
  | cons name names ih =>
    have hone : s.Grows site call (name :: names) w
        (attemptProvider site call s env (.start site.deadlineConfig t₀) name w).2 :=
      (attemptProvider_grows name w ht).mono fun n hn =>
        List.mem_cons.2 (.inl (List.mem_singleton.1 hn))
    have hrest : ∀ {w'} notes', s.Grows site call (name :: names) w w' →
        s.Grows site call (name :: names) w
          (attemptAll site call s env (.start site.deadlineConfig t₀) names notes' w').2.2 := by
      intro w' notes' hw'
      refine hw'.trans ((ih notes' w' (ht.trans hw'.later)).mono ?_)
      exact fun n hn => List.mem_cons_of_mem _ hn
    unfold attemptAll
    split
    · rename_i heq
      rw [heq] at hone
      exact hone
    · rename_i heq
      rw [heq] at hone
      exact hone
    · rename_i heq
      rw [heq] at hone
      exact hrest _ hone
    · rename_i heq
      rw [heq] at hone
      exact hrest _ hone

theorem runAttempts_grows (ordered : List String) (w : World π) (ht : t₀ ≤ w.now) :
    s.Grows site call ordered w
      (runAttempts site call s env (.start site.deadlineConfig t₀) ordered w).2 := by
  have hall : s.Grows site call ordered w
      (attemptAll site call s env (.start site.deadlineConfig t₀) ordered {} w).2.2 :=
    attemptAll_grows ordered {} w ht
  unfold runAttempts
  split
  · rename_i heq
    rw [heq] at hall
    exact hall
  · rename_i heq
    rw [heq] at hall
    split
    · exact hall
    · refine hall.trans (.of_log (Nat.le_refl _) rfl ?_)
      intro e he
      rw [List.mem_singleton.1 he]
      trivial

end

/-! ## The run -/

section

variable {π ρ : Type} (site : Site) (call : Call) (s : Slice π ρ) (env : Env ρ) (w : World π)

/-- The attempt order of a run over the eligible names. -/
def ordering (names : List String) : List String × Router × HealthTracker :=
  w.router.orderCandidates call.tenantId names call.routingStrategy w.health w.now env.nanos

/-- What the limits say to a run. -/
def admission : Limits.Admission := ((guards site call).admitRequest w.now w.heap).1

/-- The state a run walks from. -/
def admittedWorld (names : List String) (a : Limits.Admission) : World π :=
  { w with
      router := (ordering call env w names).2.1
      health := (ordering call env w names).2.2
      heap := ((guards site call).admitRequest w.now w.heap).2 }.log
    [.admitted (guards site call) a]

variable {site call s env w}

variable (site call s env w) in
/-- **A run is blocked, denied, or a walk over the available eligible providers.** -/
theorem Slice.run_cases :
    (∃ region, s.eligible site call = .error region ∧
        s.run site call env w = blockSovereign site call s region w) ∨
      ∃ names, s.eligible site call = .ok names ∧
        ((∃ breach, admission site call w = .denied breach ∧
            (s.run site call env w).1 = .error (limitRejection breach) ∧
            s.Grows site call [] (admittedWorld site call env w names (.denied breach))
              (s.run site call env w).2) ∨
          ∃ a, admission site call w = .allowed a ∧
            s.run site call env w = runAttempts site call s env
              (.start site.deadlineConfig w.now) (ordering call env w names).1
              (admittedWorld site call env w names (.allowed a))) := by
  unfold Slice.run
  cases he : s.eligible site call with
  | error region => exact .inl ⟨region, rfl, rfl⟩
  | ok names =>
    refine .inr ⟨names, rfl, ?_⟩
    unfold runEligible
    simp only
    cases ha : ((guards site call).admitRequest w.now w.heap).1 with
    | denied breach =>
      refine .inl ⟨breach, ha, rfl, .of_log (Nat.le_refl _) rfl ?_⟩
      intro e he
      rw [List.mem_singleton.1 he]
      trivial
    | allowed a => exact .inr ⟨a, ha, rfl⟩

/-! ## What is handed out -/

/-- A provider the payload may be handed to, with the key it is called with. -/
structure Slice.Reaches (site : Site) (call : Call) (s : Slice π ρ) (w : World π) (name : String)
    (adapter : Provider) (key : String) : Prop where
  eligible : ∃ names, s.eligible site call = .ok names ∧ name ∈ names
  available : w.health.admits call.tenantId name w.now = true
  resolved : s.resolve site call name = some adapter
  keyed : s.apiKey site call name = some key
  allowed : ∃ a, admission site call w = .allowed a
  inTime : 0 < site.deadlineConfig.requestDeadline

@[simp] theorem World.handed_log (w : World π) (es : List (Event π)) :
    (w.log es).handed = w.handed ++ es.filterMap Event.handed? := by
  simp [World.log, World.handed]

theorem Slice.Grows.mem_handed {names : List String} {w w' : World π} {h : Handed π}
    (hg : s.Grows site call names w w') (hh : h ∈ w'.handed) :
    h ∈ w.handed ∨ s.Emits site call names (.handed h) := by
  obtain ⟨-, es, heq, hes⟩ := hg
  unfold World.handed at hh ⊢
  rw [heq, List.filterMap_append] at hh
  rcases List.mem_append.1 hh with hh | hh
  · exact .inl hh
  · obtain ⟨e, he, hhe⟩ := List.mem_filterMap.1 hh
    cases e <;> simp only [Event.handed?, Option.some.injEq, reduceCtorEq] at hhe
    subst hhe
    exact .inr (hes _ he)

theorem admittedWorld_handed (names : List String) (a : Limits.Admission) :
    (admittedWorld site call env w names a).handed = w.handed := by
  unfold admittedWorld
  rw [World.handed_log]
  exact List.append_nil _

/-- **A run hands its payload only to providers it may reach.** -/
theorem Slice.reaches_of_handed (hw : w.handed = []) {h : Handed π}
    (hh : h ∈ (s.run site call env w).2.handed) :
    s.Reaches site call w h.provider h.adapter h.apiKey ∧ h.payload = s.payload := by
  rcases Slice.run_cases site call s env w with
    ⟨region, -, hrun⟩ | ⟨names, heligible, ⟨breach, -, -, hgrows⟩ | ⟨a, ha, hrun⟩⟩
  · rw [hrun] at hh
    unfold blockSovereign at hh
    rw [World.handed_log, hw] at hh
    cases hh
  · rcases hgrows.mem_handed hh with hh | hh
    · rw [admittedWorld_handed, hw] at hh
      cases hh
    · exact absurd hh.1 List.not_mem_nil
  · rw [hrun] at hh
    have hgrows : s.Grows site call (ordering call env w names).1
        (admittedWorld site call env w names (.allowed a))
        (runAttempts site call s env (.start site.deadlineConfig w.now)
          (ordering call env w names).1 (admittedWorld site call env w names (.allowed a))).2 :=
      runAttempts_grows _ _ (Nat.le_refl w.now)
    rcases hgrows.mem_handed hh with hh | hh
    · rw [admittedWorld_handed, hw] at hh
      cases hh
    · obtain ⟨hname, hresolved, hkeyed, hpayload, htime⟩ := hh
      obtain ⟨hmem, hadmits⟩ := (Router.mem_orderCandidates ..).1 hname
      exact ⟨⟨⟨names, heligible, hmem⟩, hadmits, hresolved, hkeyed, ⟨a, ha⟩, htime⟩, hpayload⟩

/-- The environment in which every provider at once reports that it lacks the endpoint. -/
def Slice.gapEnv (s : Slice π ρ) : Env ρ where
  reply _ := ⟨.error (.badRequest "" 422 s.notSupported.code), 0⟩

theorem isSome_dropHead?_self (t : String) : (dropHead? t t).isSome = true := by
  have hself := dropHead?_append t ""
  rw [String.append_empty] at hself
  rw [hself]
  rfl

/-- Neither the clock nor a breaker's answer has changed, and no call is forgotten. -/
structure Quiet (w w' : World π) : Prop where
  now : w'.now = w.now
  admits : ∀ o p, w'.health.admits o p w.now = w.health.admits o p w.now
  handed : ∀ h ∈ w.handed, h ∈ w'.handed

theorem Quiet.refl (w : World π) : Quiet w w := ⟨rfl, fun _ _ => rfl, fun _ h => h⟩

theorem Quiet.trans {w w' w'' : World π} (h : Quiet w w') (h' : Quiet w' w'') : Quiet w w'' := by
  refine ⟨h'.now.trans h.now, ?_, fun x hx => h'.handed x (h.handed x hx)⟩
  intro o p
  have := h'.admits o p
  rw [h.now] at this
  exact this.trans (h.admits o p)

variable (site call s) in
theorem attemptProvider_gap {deadline : Deadline} (name : String) (w : World π)
    (ht : deadline.remaining w.now ≠ 0) :
    ((∃ e, (attemptProvider site call s s.gapEnv deadline name w).1 = .skip e) ∨
        ∃ e, (attemptProvider site call s s.gapEnv deadline name w).1 = .failed true e) ∧
      Quiet w (attemptProvider site call s s.gapEnv deadline name w).2 ∧
      ∀ adapter key, s.resolve site call name = some adapter →
        s.apiKey site call name = some key →
        w.health.admits call.tenantId name w.now = true →
        ⟨name, adapter, key, s.payload⟩ ∈
          (attemptProvider site call s s.gapEnv deadline name w).2.handed := by
  have hquiet : Quiet w { w with health := (w.health.isAvailable call.tenantId name w.now).2 } :=
    ⟨rfl, fun o p => HealthTracker.admits_isAvailable .., fun _ h => h⟩
  unfold attemptProvider
  split
  · rename_i hnone
    refine ⟨.inl ⟨_, rfl⟩, .refl w, ?_⟩
    intro adapter key hadapter
    rw [hnone] at hadapter
    cases hadapter
  · rename_i adapter hadapter
    simp only
    split
    · rename_i hclosed
      refine ⟨.inl ⟨_, rfl⟩, hquiet, ?_⟩
      intro _ _ _ _ hadmits
      have hno : (w.health.isAvailable call.tenantId name w.now).1 = false := by
        simpa using hclosed
      have hboth := hadmits.symm.trans hno
      cases hboth
    · split
      · rename_i hnone
        refine ⟨.inl ⟨_, rfl⟩, hquiet, ?_⟩
        intro _ key _ hkey
        rw [hnone] at hkey
        cases hkey
      · rename_i key hkey
        have htimeout : deadline.nextAttemptTimeout w.now =
            some (min (deadline.remaining w.now) deadline.perAttempt) := if_neg ht
        simp only [htimeout]
        -- the request is handed over, and the gap is the answer to it
        have hgap : s.isNotSupported (.badRequest "" 422 s.notSupported.code) = true :=
          isSome_dropHead?_self _
        simp only [callProvider, Slice.gapEnv, Nat.zero_le, if_true, Nat.zero_min, Nat.add_zero,
          recordFailure, hgap]
        refine ⟨.inr ⟨_, rfl⟩, ⟨rfl, hquiet.admits, ?_⟩, ?_⟩
        · intro h hh
          show h ∈ ((w.events ++ [Event.handed _]) ++ [Event.usage _]).filterMap Event.handed?
          simp only [List.filterMap_append]
          exact List.mem_append_left _ (List.mem_append_left _ hh)
        · intro adapter' key' hadapter' hkey' _
          rw [hadapter] at hadapter'
          rw [hkey] at hkey'
          cases hadapter'
          cases hkey'
          show _ ∈ ((w.events ++ [Event.handed _]) ++ [Event.usage _]).filterMap Event.handed?
          simp [List.filterMap_append, Event.handed?]

variable (site call s) in
/-- Under capability gaps the whole chain is tried. -/
theorem attemptAll_gap {deadline : Deadline} (names : List String) (notes : Notes) (w : World π)
    (ht : deadline.remaining w.now ≠ 0) :
    Quiet w (attemptAll site call s s.gapEnv deadline names notes w).2.2 ∧
      ∀ name ∈ names, ∀ adapter key, s.resolve site call name = some adapter →
        s.apiKey site call name = some key →
        w.health.admits call.tenantId name w.now = true →
        ⟨name, adapter, key, s.payload⟩ ∈
          (attemptAll site call s s.gapEnv deadline names notes w).2.2.handed := by
  induction names generalizing notes w with
  | nil => exact ⟨.refl w, by simp⟩
  | cons name names ih =>
    obtain ⟨hstep, hquiet, hone⟩ :=
      attemptProvider_gap site call s name w ht
    -- the walk goes on after this provider, whatever it came to
    have hnext : ∀ notes' (w' : World π), Quiet w w' →
        (∀ adapter key, s.resolve site call name = some adapter →
          s.apiKey site call name = some key →
          w.health.admits call.tenantId name w.now = true →
          ⟨name, adapter, key, s.payload⟩ ∈ w'.handed) →
        Quiet w (attemptAll site call s s.gapEnv deadline names notes' w').2.2 ∧
        ∀ n ∈ name :: names, ∀ adapter key, s.resolve site call n = some adapter →
          s.apiKey site call n = some key →
          w.health.admits call.tenantId n w.now = true →
          ⟨n, adapter, key, s.payload⟩ ∈
            (attemptAll site call s s.gapEnv deadline names notes' w').2.2.handed := by
      intro notes' w' hq hfirst
      have ht' : deadline.remaining w'.now ≠ 0 := by rw [hq.now]; exact ht
      obtain ⟨hq', hrest⟩ := ih notes' w' ht'
      refine ⟨hq.trans hq', ?_⟩
      intro n hn adapter key hadapter hkey hadmits
      rcases List.mem_cons.1 hn with rfl | hn
      · exact hq'.handed _ (hfirst adapter key hadapter hkey hadmits)
      · refine hrest n hn adapter key hadapter hkey ?_
        rw [hq.now, hq.admits]
        exact hadmits
    unfold attemptAll
    split
    · rename_i heq
      simp [heq] at hstep
    · rename_i heq
      simp [heq] at hstep
    · rename_i heq
      rw [heq] at hquiet hone
      exact hnext _ _ hquiet hone
    · rename_i heq
      rw [heq] at hquiet hone
      exact hnext _ _ hquiet hone

/-- **Every provider a run may reach is handed the payload in some run**: the one in which the
providers before it lack the endpoint. -/
theorem Slice.handed_of_reaches {name : String} {adapter : Provider} {key : String}
    (h : s.Reaches site call w name adapter key) :
    ⟨name, adapter, key, s.payload⟩ ∈ (s.run site call s.gapEnv w).2.handed := by
  obtain ⟨⟨names, heligible, hmem⟩, hadmits, hresolved, hkeyed, ⟨a, ha⟩, htime⟩ := h
  have hordered : name ∈ (ordering call s.gapEnv w names).1 :=
    (Router.mem_orderCandidates ..).2 ⟨hmem, hadmits⟩
  have hrun : s.run site call s.gapEnv w = runAttempts site call s s.gapEnv
      (.start site.deadlineConfig w.now) (ordering call s.gapEnv w names).1
      (admittedWorld site call s.gapEnv w names (.allowed a)) := by
    rcases Slice.run_cases site call s s.gapEnv w with
      ⟨region, he, -⟩ | ⟨names', he, ⟨breach, hd, -⟩ | ⟨a', ha', hrun⟩⟩
    · rw [heligible] at he
      cases he
    · rw [ha] at hd
      cases hd
    · rw [heligible] at he
      rw [ha] at ha'
      cases he
      cases ha'
      exact hrun
  have hleft : (Deadline.start site.deadlineConfig w.now).remaining
      (admittedWorld site call s.gapEnv w names (.allowed a)).now ≠ 0 := by
    show w.now + site.deadlineConfig.requestDeadline - w.now ≠ 0
    omega
  obtain ⟨-, hall⟩ := attemptAll_gap site call s
    (ordering call s.gapEnv w names).1 {} _ hleft
  have hadmits' : (admittedWorld site call s.gapEnv w names (.allowed a)).health.admits
      call.tenantId name w.now = true :=
    (Router.admits_orderCandidates w.router call.tenantId names call.routingStrategy w.health
      w.now s.gapEnv.nanos call.tenantId name).trans hadmits
  have hin := hall name hordered adapter key hresolved hkeyed hadmits'
  rw [hrun]
  unfold runAttempts
  split
  · rename_i heq
    rw [heq] at hin
    exact hin
  · rename_i heq
    rw [heq] at hin
    split
    · exact hin
    · rw [World.handed_log]
      exact List.mem_append_left _ hin

/-- **The providers some run hands the payload to are those it may reach.** -/
theorem Slice.reaches_iff (hw : w.handed = []) {name : String} {adapter : Provider} {key : String} :
    (∃ env, ⟨name, adapter, key, s.payload⟩ ∈ (s.run site call env w).2.handed) ↔
      s.Reaches site call w name adapter key := by
  constructor
  · rintro ⟨env, hh⟩
    exact (s.reaches_of_handed hw hh).1
  · intro h
    exact ⟨s.gapEnv, s.handed_of_reaches h⟩

end

end Endpoint

end Routeplane
