import Routeplane.Proof.OwnFaults
import Routeplane.Proxy.Pipeline

/-!
# What the executors hand out

Whichever executor serves a planned request, each provider it calls is the one of a target of the
plan, and what it is handed is the payload as that target shapes it.

* `Service.record_handed`: the calls of every executor.
* `chatCompletionsPipeline_cases`: a chat request that leaves a record of calls went through every
  stage before.
-/

namespace Routeplane

open Limits (LimitGuards DistributedLimiter)

/-- A provider that can be called: known, and with a key. -/
structure Callable (st : AppState) (k : VirtualKey) (tenant provider : String) : Prop where
  known : (st.resolveProvider tenant provider).isSome
  keyed : ∃ health now seed, targetKeys st k tenant provider health now seed ≠ []

/-- A call of a planned request: to the provider of a target, with the payload it shapes. -/
structure PlannedRequest.Hands (st : AppState) (r : PlannedRequest) (d : Dispatch)
    (t : TargetPlan) : Prop where
  planned : r.targets[d.target]? = some t
  provider : d.provider = t.provider
  request : d.request = t.params.apply r.payload
  callable : Callable st r.key r.caller.tenantId t.provider

/-- An event that, if it is a call, is one of the plan. -/
def Event.Handed (st : AppState) (r : PlannedRequest) : Event → Prop
  | .dispatched d => ∃ t, r.Hands st d t
  | _ => True

/-- A resolved target of a planned request. -/
structure PlannedRequest.Readies (st : AppState) (r : PlannedRequest) (rt : ReadyTarget) : Prop where
  planned : r.targets[rt.idx]? = some rt.target
  shaped : rt.shaped = rt.target.params.apply r.payload
  callable : Callable st r.key r.caller.tenantId rt.target.provider

section

variable {ρ : Type} {env : Env ρ} {st : AppState} {r : PlannedRequest} {deadline : Deadline}
  {rt : ReadyTarget} {key : PoolKey}

theorem PlannedRequest.Readies.handed (h : r.Readies st rt) {x : Event}
    (hx : x.isTry deadline rt key) : x.Handed st r := by
  cases x with
  | dispatched d =>
    have hd : d = ⟨rt.idx, rt.target.provider, key, rt.shaped⟩ := hx
    subst hd
    exact ⟨rt.target, h.planned, rfl, h.shaped, h.callable⟩
  | skipped => trivial
  | failed => trivial
  | fed => trivial
  | usage => trivial

variable {target : TargetPlan} {idx now : ℕ} {seed : BitVec 64} {h₀ : HealthTracker}

theorem readyTarget_shaped {k : VirtualKey} {tenant : String} {payload : ChatCompletionRequest}
    (hok : readyTarget st k tenant payload seed h₀ now target idx = .ok rt) :
    rt.shaped = target.params.apply payload := by
  unfold readyTarget at hok
  simp only at hok
  split at hok
  · cases hok
  · split at hok
    · cases hok
    · rename_i rt' hof
      obtain rfl := Except.ok.inj hok
      unfold ReadyTarget.of? at hof
      split at hof
      · cases hof
      · obtain rfl := Option.some.inj hof
        rfl

theorem readies_of_ok (hat : r.targets[idx]? = some target)
    (hok : readyTarget st r.key r.caller.tenantId r.payload seed h₀ now target idx = .ok rt) :
    r.Readies st rt := by
  obtain ⟨hidx, heq, hres, hkeys⟩ := readyTarget_ok hok
  rw [← heq] at hat hres hkeys
  refine ⟨by rw [hidx]; exact hat, ?_, hres, h₀, now, targetRngSeed seed idx, ?_⟩
  · rw [heq]
    exact readyTarget_shaped hok
  · rw [← hkeys]
    exact rt.keys_ne

theorem readies_of_mem
    (hrt : rt ∈ readyTargets st r.key r.caller.tenantId r.payload seed h₀ now r.targets) :
    r.Readies st rt := by
  obtain ⟨⟨t, i⟩, hmem, hto⟩ := List.mem_filterMap.1 hrt
  cases hok : readyTarget st r.key r.caller.tenantId r.payload seed h₀ now t i with
  | error e => simp [hok, Except.toOption] at hto
  | ok rt' =>
    simp only [hok, Except.toOption, Option.some.injEq] at hto
    subst hto
    exact readies_of_ok (List.mem_zipIdx_iff_getElem?.1 hmem) hok

/-! ## The three executors -/

theorem record_feedPool (caller : Caller) (w : World) :
    (feedPool caller rt w).record = w.record ++ [.fed rt.idx rt.target.provider] := by
  simp [feedPool, World.log, World.record, Event.isUsage]

variable (env st r deadline) in
/-- **The buffered walk.** -/
theorem bufferedWalk_handed {ready : List ReadyTarget} (hready : ∀ rt ∈ ready, r.Readies st rt)
    (notes : Notes) (w : World) (hw : ∀ x ∈ w.record, x.Handed st r) :
    ∀ x ∈ (bufferedWalk env st r.caller deadline ready notes w).2.2.record, x.Handed st r := by
  refine sequentialWalk_preserves (P := fun w => ∀ x ∈ w.record, x.Handed st r) ?_ ?_ notes w hw
  · intro rt hrt key _ v hv
    obtain ⟨seg, hseg, hof, -⟩ := attemptTarget_record env st r.caller deadline rt key v
    show ∀ x ∈ (attemptTarget env st r.caller deadline rt key v).2.record, x.Handed st r
    rw [hseg]
    intro x hx
    rcases List.mem_append.1 hx with hx | hx
    · exact hv x hx
    · exact (hready rt hrt).handed (hof x hx)
  · intro rt _ v hv x hx
    rw [record_feedPool] at hx
    rcases List.mem_append.1 hx with hx | hx
    · exact hv x hx
    · rw [List.mem_singleton.1 hx]
      trivial

variable (env st deadline rt) in
/-- The keys of a target add tries of it. -/
theorem establishKeys_tries (caller : Caller)
    (hres : (st.resolveProvider caller.tenantId rt.target.provider).isSome) (any : Bool)
    (notes : Notes) (w : World) :
    ∃ seg, (establishKeys env st caller deadline rt rt.keys any notes w).2.2.2.record =
        w.record ++ seg ∧ ∀ x ∈ seg, ∃ key ∈ rt.keys, x.isTry deadline rt key := by
  have hkeys : KeysAlike caller deadline rt rt.keys w.record false any
      (walkKeys (attemptTarget env st caller deadline rt) rt.keys false notes w)
      (establishKeys env st caller deadline rt rt.keys any notes w) :=
    establishKeys_alike hres rt.keys_nodup (.refl w)
  generalize walkKeys (attemptTarget env st caller deadline rt) rt.keys false notes w = b at hkeys
  generalize establishKeys env st caller deadline rt rt.keys any notes w = s at hkeys ⊢
  cases hkeys with
  | @exhausted n n' v v' seg hal hr hof => exact ⟨seg, by rw [← hal.record_eq, hr], hof⟩
  | @won response elapsed l a n n' v v' seg hal hr hof =>
    refine ⟨seg, ?_, hof⟩
    rw [← hr, hal.record_eq]
    rfl

variable (env st r deadline) in
/-- **The streaming walk**, by induction on the targets. -/
theorem streamTargets_handed (backoffSeed : ℕ → BitVec 64) (now : ℕ) {rest : List TargetPlan}
    (hdrop : r.targets.drop idx = rest) (notes : Notes) (w : World)
    (hw : ∀ x ∈ w.record, x.Handed st r) :
    ∀ x ∈ (streamTargets env st r.key r.caller deadline r.payload backoffSeed now rest idx notes
      w).2.2.record, x.Handed st r := by
  induction rest generalizing idx notes w with
  | nil => exact hw
  | cons target rest ih =>
    obtain ⟨htarget, hdrop'⟩ := drop_cons hdrop
    unfold streamTargets
    simp only
    split
    · exact ih hdrop' _ w hw
    · rename_i rt hok
      have hrt := readies_of_ok htarget hok
      obtain ⟨seg, hseg, hof⟩ := establishKeys_tries env st deadline rt r.caller
        hrt.callable.known false notes w
      have hkeys : ∀ x ∈ (establishKeys env st r.caller deadline rt rt.keys false notes
          w).2.2.2.record, x.Handed st r := by
        rw [hseg]
        intro x hx
        rcases List.mem_append.1 hx with hx | hx
        · exact hw x hx
        · obtain ⟨key, -, htry⟩ := hof x hx
          exact hrt.handed htry
      split
      · rename_i heq
        rw [heq] at hkeys
        exact hkeys
      · rename_i verdict n v heq
        rw [heq] at hkeys
        refine ih hdrop' n _ ?_
        split
        · intro x hx
          rw [record_feedPool] at hx
          rcases List.mem_append.1 hx with hx | hx
          · exact hkeys x hx
          · rw [List.mem_singleton.1 hx]
            trivial
        · exact hkeys

end

variable {ρ : Type} {st : AppState}

variable (st) in
/-- **Every call of every executor is one of the plan.** -/
theorem Service.record_handed (cfg : DeadlineConfig) (s : Service ρ) :
    ∀ x ∈ s.record st cfg, x.Handed st s.request := by
  obtain ⟨r, execution, now, health⟩ := s
  have hstart : ∀ x ∈ (World.start now health).record, x.Handed st r := by
    intro x hx
    cases hx
  cases execution with
  | buffered env =>
    exact bufferedWalk_handed env st r (r.deadline cfg) (fun rt hrt => readies_of_mem hrt) _ _ hstart
  | streaming env =>
    exact streamTargets_handed env st r (r.deadline cfg) r.backoffSeed now List.drop_zero {} _ hstart
  | hedged policy pick strands steps =>
    intro x hx
    obtain ⟨rt, hrt, hx'⟩ := List.mem_flatMap.1 hx
    have hmem := (runHedgedTargets_standing steps).launched_initial.subset hrt
    have hof := (hedgedAttempt_record st r.caller (r.deadline cfg) rt (strands rt)
      (strands rt).kept).1 x hx'
    exact (readies_of_mem hmem).handed hof

/-! ## What a served request has been through -/

def ChatEvent.dispatch? : ChatEvent → Option Dispatch
  | .tried (.dispatched d) => some d
  | _ => none

/-- The provider calls of a run. -/
def ChatRun.dispatches (run : ChatRun ρ) : List Dispatch := run.events.filterMap ChatEvent.dispatch?

/-- A gated request that goes to the executors, with the config that routes it, the targets it may
go to, and the service that results. -/
structure Serves (gw : Gateway) (call : ChatCall) (c : Circumstances ρ)
    (payload : ChatCompletionRequest) (combo config : Option RoutingConfig) (metadata : Metadata)
    (targets : List TargetPlan) (s : Service ρ) : Prop where
  fits : gw.checkChatInput payload = none
  routed : gw.routingConfig call combo = .ok config
  parsed : parseMetadata gw.parsers call.metadata = .ok metadata
  eligible : gw.attemptTargets (gw.required call payload) config.isSome
    (gw.flatTargets call payload config metadata c.seed).targets = .ok targets
  admitted : ∃ a,
    gw.admitRequest (gw.guards call payload) c.admittedAt c.trips (c.heap, c.redis) = .allowed a
  service : s = plannedService gw call c payload config
    (gw.flatTargets call payload config metadata c.seed) targets

/-- The targets of a service are among those the request may go to. -/
theorem Serves.mem_targets {gw : Gateway} {call : ChatCall} {c : Circumstances ρ}
    {payload : ChatCompletionRequest} {combo config : Option RoutingConfig} {metadata : Metadata}
    {targets : List TargetPlan} {s : Service ρ}
    (h : Serves gw call c payload combo config metadata targets s) {t : TargetPlan}
    (ht : t ∈ s.request.targets) : t ∈ targets := by
  rw [h.service] at ht
  have hlive := (orderTargets_perm c.router call.tenantId
    (gw.flatTargets call payload config metadata c.seed).strategy c.health c.orderedAt c.nanos
    targets).subset ht
  exact (List.mem_filter.1 hlive).1

/-- The tail of a served run: what the executor did, and one settlement at most. -/
def servedEvents (gw : Gateway) (guards : LimitGuards) (s : Service ρ) : List ChatEvent :=
  (s.record gw.site.app gw.site.deadlineConfig).map ChatEvent.tried ++
    if (s.winner gw.site.app gw.site.deadlineConfig).isSome then [.settled guards] else []

theorem mem_record_of_served {gw : Gateway} {guards : LimitGuards}
    {limiter : Option DistributedLimiter} {admission : Limits.Admission} {asked : List String}
    {s : Service ρ} {e : ChatEvent} {d : Dispatch}
    (he : e ∈ asked.map ChatEvent.embedded ++
      .admitted guards limiter admission :: servedEvents gw guards s) (hd : e.dispatch? = some d) :
    .dispatched d ∈ s.record gw.site.app gw.site.deadlineConfig := by
  rcases List.mem_append.1 he with he | he
  · obtain ⟨p, -, rfl⟩ := List.mem_map.1 he
    cases hd
  · rcases List.mem_cons.1 he with rfl | he
    · cases hd
    · unfold servedEvents at he
      rcases List.mem_append.1 he with he | he
      · obtain ⟨x, hx, rfl⟩ := List.mem_map.1 he
        cases x <;> simp only [ChatEvent.dispatch?, Option.some.injEq, reduceCtorEq] at hd
        rw [← hd]
        exact hx
      · split at he
        · rw [List.mem_singleton.1 he] at hd
          cases hd
        · cases he

/-- A run that calls no provider for the request itself. -/
def ChatRun.Idle (run : ChatRun ρ) : Prop :=
  ∀ e ∈ run.events,
    (∃ p, e = .embedded p) ∨ ∃ guards limiter b, e = .admitted guards limiter (.denied b)

section

variable (gw : Gateway) (call : ChatCall) (c : Circumstances ρ) (payload : ChatCompletionRequest)

/-- **A run of the pipeline is idle, or goes through every stage.** -/
theorem chatCompletionsPipeline_cases (combo : Option RoutingConfig) :
    (chatCompletionsPipeline gw call c payload combo).Idle ∨
      ∃ config metadata targets s, ∃ asked : List String,
        Serves gw call c payload combo config metadata targets s ∧
        ∃ a, (chatCompletionsPipeline gw call c payload combo).events =
          asked.map ChatEvent.embedded ++
            .admitted (gw.guards call payload) gw.limiter (.allowed a) ::
              servedEvents gw (gw.guards call payload) s := by
  have hnone : ∀ run : ChatRun ρ, run.events = [] → run.Idle := by
    intro run hrun e he
    rw [hrun] at he
    cases he
  unfold chatCompletionsPipeline
  split
  · exact .inl (hnone (.refuse _) rfl)
  · rename_i hfits
    split
    · exact .inl (hnone (.refuse _) rfl)
    · rename_i config hrouted
      split
      · exact .inl (hnone (.refuse _) rfl)
      · rename_i metadata hparsed
        simp only
        split
        · exact .inl (hnone { answer := .cached } rfl)
        · rename_i hmiss
          -- what the semantic cache was asked
          have hasked : ∀ (plan : SemanticPlan) (targets : List TargetPlan),
              ∃ asked : List String,
                (semanticLookup gw call c plan targets).1 = asked.map ChatEvent.embedded := by
            intro plan targets
            unfold semanticLookup
            split
            · exact ⟨[], rfl⟩
            · exact ⟨_, rfl⟩
          generalize hlookup : semanticLookup gw call c _ _ = lookup
          obtain ⟨asked, heq⟩ := hasked _ _
          rw [hlookup] at heq
          obtain ⟨events, hit⟩ := lookup
          simp only at heq
          subst heq
          simp only
          split
          · refine .inl fun e he => ?_
            obtain ⟨p, -, rfl⟩ := List.mem_map.1 he
            exact .inl ⟨p, rfl⟩
          · unfold serveFlat
            split
            · refine .inl fun e he => ?_
              simp only [ChatRun.refuse, List.append_nil] at he
              obtain ⟨p, -, rfl⟩ := List.mem_map.1 he
              exact .inl ⟨p, rfl⟩
            · rename_i targets heligible
              unfold serveTargets
              simp only
              split
              · rename_i breach hdenied
                refine .inl fun e he => ?_
                simp only [ChatRun.refuse] at he
                rcases List.mem_append.1 he with he | he
                · obtain ⟨p, -, rfl⟩ := List.mem_map.1 he
                  exact .inl ⟨p, rfl⟩
                · rw [List.mem_singleton.1 he, hdenied]
                  exact .inr ⟨_, _, breach, rfl⟩
              · rename_i a hallowed
                refine .inr ⟨config, metadata, targets, plannedService gw call c payload config
                  (gw.flatTargets call payload config metadata c.seed) targets, asked,
                  ⟨hfits, hrouted, hparsed, heligible, ⟨a, hallowed⟩, rfl⟩, a, ?_⟩
                simp only [hallowed, servedEvents, List.cons_append]

end

end Routeplane
