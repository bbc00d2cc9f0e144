import Routeplane.Endpoints.Messages
import Routeplane.Proof.Dispatch
import Routeplane.Proof.Reach

/-!
# Per-model controls, endpoint by endpoint

The chat core holds a request to the limit of its model, asks the shared limiter and runs the model
gates. The slice of the other endpoints does none of it.

* `model_controls_iff`: every dispatch is under the controls of its model iff, on the endpoints
  beside the chat core, nothing can be dispatched or the model has no controls to miss.
* `model_limit_bypassed`: an embedding of a model whose limit is used up.
-/

namespace Routeplane

open Limits (LimitGuards DistributedLimiter)

/-- The slots a request for a model is to be held to. -/
def Gateway.modelGuards (gw : Gateway) (call : ChatCall) (model : String) : LimitGuards :=
  gw.site.limits.resolveForModel call.routeplaneKey call.tenantId model

/-- The model gates, by the way a chat request addresses a model: the models a combo pins pass, and
its name is neither disabled nor excluded; any other model passes. -/
def Gateway.Eligible (gw : Gateway) (k : VirtualKey) (tenant : TenantContext) (requested : String) :
    Prop :=
  match gw.policies.combo requested with
  | none => Passes gw.overlay k tenant (gw.addressedModel k tenant requested)
  | some cfg =>
    gw.overlay.modelEnabled tenant.tenantId requested ≠ some false ∧
    (tenant.complianceMode = .strict → complianceExcludedFrameworks requested tenant = []) ∧
    ∀ m, some m ∈ cfg.targetModels → Passes gw.overlay k tenant m

def ServingRequest.Eligible (gw : Gateway) (call : ChatCall) : ServingRequest → Prop
  | chatCompletions payload => gw.Eligible call.key call.tenant payload.model
  | messages req => gw.Eligible call.key call.tenant req.model
  | other r => ∀ model ∈ (other r).model? gw call, Passes gw.overlay call.key call.tenant model

/-- The slot of the most specific pattern, if there is one, is among some guards. -/
def HeldTo (wanted guards : LimitGuards) : Prop :=
  ∀ slot, wanted.model = some slot → guards.model = some slot

/-- The shared limiter is the one that admitted, if it is configured and there is a request limit
to share. -/
def SharedBy (gw : Gateway) (wanted : LimitGuards) (limiter : Option DistributedLimiter) : Prop :=
  ∀ d, gw.limiter = some d → wanted.requestRateSpecs ≠ [] → limiter = some d

/-- A record whose dispatches are under the controls of the model. -/
structure Controlled (gw : Gateway) (wanted : LimitGuards) (eligible : Prop)
    (trace : List Control) : Prop where
  admitted : ∀ before after, trace = before ++ .dispatched :: after →
    ∃ guards limiter, .admitted guards limiter ∈ before ∧ HeldTo wanted guards ∧
      SharedBy gw wanted limiter
  settled : .dispatched ∈ trace → ∀ guards, .settled guards ∈ trace → HeldTo wanted guards
  eligible : .dispatched ∈ trace → eligible

/-- A model without controls to miss: no limit pattern of the key matches it, no request limit is
shared, and it passes the gates anyway. -/
structure Uncontrolled (gw : Gateway) (call : ChatCall) (model : String) : Prop where
  unlimited : (gw.modelGuards call model).model = none
  unshared : gw.limiter = none ∨ (gw.modelGuards call model).requestRateSpecs = []
  passes : Passes gw.overlay call.key call.tenant model

/-- The requests the controls do not miss. -/
def ServingRequest.Safe (gw : Gateway) (call : ChatCall) (at_ : Moment) : ServingRequest → Prop
  | chatCompletions _ | messages _ => True
  | other r => ∀ payload model, r.read gw.site = .ok payload → r.model payload = some model →
      (∀ name adapter key, ¬(r.slice gw.site call.toCall payload).Reaches gw.site call.toCall
        (.start at_.now at_.health at_.router at_.heap) name adapter key) ∨
      Uncontrolled gw call model

section

variable {gw : Gateway} {wanted : LimitGuards} {eligible : Prop}

theorem Controlled.of_idle {trace : List Control} (h : Control.dispatched ∉ trace) :
    Controlled gw wanted eligible trace := by
  refine ⟨?_, fun hd => absurd hd h, fun hd => absurd hd h⟩
  intro before after heq
  refine absurd ?_ h
  rw [heq]
  exact List.mem_append_right _ List.mem_cons_self

/-- A record that starts with the admission. -/
theorem Controlled.of_first {guards : LimitGuards} {limiter : Option DistributedLimiter}
    {rest : List Control} (hheld : HeldTo wanted guards) (hshared : SharedBy gw wanted limiter)
    (hsettled : ∀ g, .settled g ∈ rest → HeldTo wanted g) (heligible : eligible) :
    Controlled gw wanted eligible (.admitted guards limiter :: rest) := by
  refine ⟨?_, ?_, fun _ => heligible⟩
  · intro before after heq
    cases before with
    | nil => cases heq
    | cons first before =>
      rw [List.cons_append] at heq
      injection heq with hfirst _
      exact ⟨guards, limiter, by rw [hfirst]; exact List.mem_cons_self, hheld, hshared⟩
  · intro _ g hg
    rcases List.mem_cons.1 hg with hg | hg
    · cases hg
    · exact hsettled g hg

end

/-! ## The chat core -/

section

variable {ρ : Type} {gw : Gateway} {call : ChatCall}

/-- What the gates let through is for the model addressed, and eligible. -/
theorem coreGates_eligible {payload : ChatCompletionRequest} {g : Gated}
    (h : coreGates gw.overlay call.key call.tenant gw.policies payload = .ok g) :
    g.payload.model = gw.addressedModel call.key call.tenant payload.model ∧
      gw.Eligible call.key call.tenant payload.model := by
  have hopen := coreGates_ok h
  have hmodel : g.payload.model = gw.addressedModel call.key call.tenant payload.model := by
    unfold Gateway.addressedModel
    unfold coreGates at h
    simp only at h
    -- past every gate, so only what the catalog made of the model is left to read
    split at h
    · cases h
    · split at h
      · cases h
      · rename_i model hcatalog
        split at h
        · cases h
        · split at h
          · cases h
          · cases h
            show model = _
            split at hcatalog
            · rename_i hask
              rw [if_pos hask]
              unfold catalogGate at hcatalog
              split at hcatalog
              · cases hcatalog
              · cases hcatalog
                rename_i heq
                rw [heq]
              · rename_i heq
                rw [heq]
                split at hcatalog
                · cases hcatalog
                  rfl
                · cases hcatalog
            · rename_i hask
              rw [if_neg hask]
              cases hcatalog
              rfl
  refine ⟨hmodel, ?_⟩
  unfold Gateway.Eligible
  cases hcombo : gw.policies.combo payload.model with
  | none =>
    have hpasses := hopen.passes (hopen.combo_eq.trans hcombo)
    rw [hmodel] at hpasses
    exact hpasses
  | some cfg =>
    have hsome : g.combo = some cfg := hopen.combo_eq.trans hcombo
    have hname := hopen.named (by rw [hsome]; rfl)
    refine ⟨by rw [← hname]; exact hopen.enabled, by rw [← hname]; exact hopen.compliant, ?_⟩
    intro m hm
    obtain ⟨l, hl, hpin⟩ := List.mem_map.1 hm
    exact hopen.pinned cfg hsome l hl m hpin

/-- What the executor leaves of a served request settles on the guards that admitted it. -/
theorem settled_servedEvents {guards g : LimitGuards} {s : Service ρ}
    (h : .settled g ∈ (servedEvents gw guards s).filterMap ChatEvent.control?) : g = guards := by
  obtain ⟨e, he, hcontrol⟩ := List.mem_filterMap.1 h
  unfold servedEvents at he
  rcases List.mem_append.1 he with he | he
  · obtain ⟨x, -, rfl⟩ := List.mem_map.1 he
    cases x <;> simp [ChatEvent.control?] at hcontrol
  · split at he
    · rw [List.mem_singleton.1 he] at hcontrol
      simp only [ChatEvent.control?, Option.some.injEq, Control.settled.injEq] at hcontrol
      exact hcontrol.symm
    · cases he

variable (gw call) in
/-- **Every dispatch of the chat core is under the controls of its model.** -/
theorem chatCompletionsCore_controlled (c : Circumstances ρ) (payload : ChatCompletionRequest) :
    Controlled gw (gw.modelGuards call (gw.addressedModel call.key call.tenant payload.model))
      (gw.Eligible call.key call.tenant payload.model)
      ((chatCompletionsCore gw call c payload).events.filterMap ChatEvent.control?) := by
  unfold chatCompletionsCore
  split
  · exact .of_idle List.not_mem_nil
  · rename_i g hg
    obtain ⟨hmodel, heligible⟩ := coreGates_eligible hg
    have hguards : gw.guards call g.payload =
        gw.modelGuards call (gw.addressedModel call.key call.tenant payload.model) := by
      rw [← hmodel]
      rfl
    rcases chatCompletionsPipeline_cases gw call c g.payload g.combo with
      hidle | ⟨config, metadata, targets, s, asked, -, a, hevents⟩
    · refine .of_idle fun hd => ?_
      obtain ⟨e, he, hcontrol⟩ := List.mem_filterMap.1 hd
      rcases hidle e he with ⟨p, rfl⟩ | ⟨guards, limiter, b, rfl⟩
      · cases hcontrol
      · cases hcontrol
    · have hasked : (asked.map ChatEvent.embedded).filterMap ChatEvent.control? = [] := by
        refine List.filterMap_eq_nil_iff.2 fun e he => ?_
        obtain ⟨p, -, rfl⟩ := List.mem_map.1 he
        rfl
      show Controlled gw _ _ ((chatCompletionsPipeline gw call c g.payload
        g.combo).events.filterMap ChatEvent.control?)
      rw [hevents, List.filterMap_append, hasked, List.nil_append, hguards]
      refine .of_first (fun slot h => h) (fun d hd _ => hd) ?_ heligible
      intro g' hg'
      rw [settled_servedEvents hg']
      exact fun slot h => h

end

/-! ## The slices -/

section

open Endpoint (Slice)

variable {gw : Gateway} {call : ChatCall} {at_ : Moment} {π ρ : Type} {s : Slice π ρ}

theorem mem_trace_handed {w : Endpoint.World π} :
    .dispatched ∈ w.events.filterMap Endpoint.Event.control? ↔ ∃ h, h ∈ w.handed := by
  unfold Endpoint.World.handed
  constructor
  · intro h
    obtain ⟨e, he, hcontrol⟩ := List.mem_filterMap.1 h
    cases e with
    | handed x => exact ⟨x, List.mem_filterMap.2 ⟨_, he, rfl⟩⟩
    | admitted guards a => cases a <;> cases hcontrol
    | settled => cases hcontrol
    | usage => cases hcontrol
    | decision => cases hcontrol
    | alert => cases hcontrol
  · rintro ⟨x, hx⟩
    obtain ⟨e, he, heq⟩ := List.mem_filterMap.1 hx
    refine List.mem_filterMap.2 ⟨e, he, ?_⟩
    cases e <;> simp only [Endpoint.Event.handed?, reduceCtorEq, Option.some.injEq] at heq
    rfl

variable (s) in
/-- The record of a slice: its own admission, then nothing but calls and settlements. -/
theorem Slice.run_trace (env : Endpoint.Env ρ) (w : Endpoint.World π) (hw : w.events = []) :
    (¬∃ h, h ∈ (s.run gw.site call.toCall env w).2.handed) ∨
      ∃ rest, (s.run gw.site call.toCall env w).2.events.filterMap Endpoint.Event.control? =
          .admitted (Endpoint.guards gw.site call.toCall) none :: rest ∧
        (∀ guards limiter, .admitted guards limiter ∉ rest) ∧
        ∀ guards, .settled guards ∈ rest → guards = Endpoint.guards gw.site call.toCall := by
  have hhanded : w.handed = [] := by
    unfold Endpoint.World.handed
    rw [hw]
    rfl
  rcases Slice.run_cases gw.site call.toCall s env w with
    ⟨region, -, hrun⟩ | ⟨names, -, ⟨breach, -, -, hgrows⟩ | ⟨a, -, hrun⟩⟩
  · left
    rintro ⟨h, hh⟩
    rw [hrun] at hh
    unfold Endpoint.blockSovereign at hh
    rw [Endpoint.World.handed_log, hhanded] at hh
    cases hh
  · left
    rintro ⟨h, hh⟩
    rcases hgrows.mem_handed hh with hh | hh
    · rw [Endpoint.admittedWorld_handed, hhanded] at hh
      cases hh
    · exact absurd hh.1 List.not_mem_nil
  · right
    obtain ⟨-, es, hes, hemits⟩ : s.Grows gw.site call.toCall _ _ _ :=
      Endpoint.runAttempts_grows (Endpoint.ordering call.toCall env w names).1
        (Endpoint.admittedWorld gw.site call.toCall env w names (.allowed a)) (Nat.le_refl w.now)
    refine ⟨es.filterMap Endpoint.Event.control?, ?_, ?_, ?_⟩
    · rw [hrun, hes]
      have hfirst : (Endpoint.admittedWorld gw.site call.toCall env w names (.allowed a)).events =
          [.admitted (Endpoint.guards gw.site call.toCall) (.allowed a)] := by
        unfold Endpoint.admittedWorld Endpoint.World.log
        simp only [hw, List.nil_append]
      rw [hfirst]
      rfl
    · intro guards limiter h
      obtain ⟨e, he, hcontrol⟩ := List.mem_filterMap.1 h
      have hemit := hemits e he
      cases e with
      | admitted => exact hemit
      | handed => cases hcontrol
      | settled => cases hcontrol
      | usage => cases hcontrol
      | decision => cases hcontrol
      | alert => cases hcontrol
    · intro guards h
      obtain ⟨e, he, hcontrol⟩ := List.mem_filterMap.1 h
      have hemit := hemits e he
      cases e with
      | settled scopes tokens cost =>
        simp only [Endpoint.Event.control?, Option.some.injEq, Control.settled.injEq] at hcontrol
        rw [← hcontrol]
        exact hemit
      | admitted => exact hemit.elim
      | handed => cases hcontrol
      | usage => cases hcontrol
      | decision => cases hcontrol
      | alert => cases hcontrol

variable (s) in
/-- **A slice is under the controls of a model in every run iff it cannot dispatch, or the model
has none to miss.** -/
theorem slice_controlled_iff (model : String) (w : Endpoint.World π) (hw : w.events = []) :
    (∀ env, Controlled gw (gw.modelGuards call model) (Passes gw.overlay call.key call.tenant model)
        ((s.run gw.site call.toCall env w).2.events.filterMap Endpoint.Event.control?)) ↔
      (∀ name adapter key, ¬s.Reaches gw.site call.toCall w name adapter key) ∨
        Uncontrolled gw call model := by
  have hhanded : w.handed = [] := by
    unfold Endpoint.World.handed
    rw [hw]
    rfl
  constructor
  · intro h
    by_cases hreach : ∃ name adapter key, s.Reaches gw.site call.toCall w name adapter key
    · right
      obtain ⟨name, adapter, key, hreach⟩ := hreach
      have hmem : ∃ x, x ∈ (s.run gw.site call.toCall s.gapEnv w).2.handed :=
        ⟨_, s.handed_of_reaches hreach⟩
      obtain ⟨hadmitted, -, hpasses⟩ := h s.gapEnv
      have hd := mem_trace_handed.2 hmem
      rcases Slice.run_trace s s.gapEnv w hw with hno | ⟨rest, htrace, hrest, -⟩
      · exact absurd hmem hno
      · obtain ⟨before, after, hsplit⟩ := List.append_of_mem hd
        obtain ⟨guards, limiter, hin, hheld, hshared⟩ := hadmitted before after hsplit
        -- the only admission on record is the slice's own
        have hown : guards = Endpoint.guards gw.site call.toCall ∧ limiter = none := by
          have hin' : Control.admitted guards limiter ∈ before ++ .dispatched :: after :=
            List.mem_append_left _ hin
          rw [← hsplit, htrace] at hin'
          rcases List.mem_cons.1 hin' with heq | hin'
          · injection heq with hg hl
            exact ⟨hg, hl⟩
          · exact absurd hin' (hrest guards limiter)
        obtain ⟨rfl, rfl⟩ := hown
        refine ⟨?_, ?_, hpasses hd⟩
        · cases hslot : (gw.modelGuards call model).model with
          | none => rfl
          | some slot => cases hheld slot hslot
        · cases hlimiter : gw.limiter with
          | none => exact .inl rfl
          | some d =>
            right
            by_contra hspecs
            cases hshared d hlimiter hspecs
    · left
      intro name adapter key hr
      exact hreach ⟨name, adapter, key, hr⟩
  · rintro (hnone | hfree) env
    · refine .of_idle fun hd => ?_
      obtain ⟨x, hx⟩ := mem_trace_handed.1 hd
      exact hnone _ _ _ (s.reaches_of_handed hhanded hx).1
    · rcases Slice.run_trace s env w hw with hno | ⟨rest, htrace, -, hsettled⟩
      · exact .of_idle fun hd => hno (mem_trace_handed.1 hd)
      · rw [htrace]
        have hheld : ∀ guards, HeldTo (gw.modelGuards call model) guards := by
          intro guards slot hslot
          rw [hfree.unlimited] at hslot
          cases hslot
        refine .of_first (hheld _) ?_ (fun g _ => hheld g) hfree.passes
        intro d hd hspecs
        rcases hfree.unshared with hnone | hempty
        · rw [hnone] at hd
          cases hd
        · exact absurd hempty hspecs

end

/-! ## Every endpoint -/

theorem messagesCall_same (gw : Gateway) (call : ChatCall) (model : String) :
    (messagesCall gw call model).key = call.key ∧
      (messagesCall gw call model).routeplaneKey = call.routeplaneKey ∧
      (messagesCall gw call model).tenant = call.tenant := by
  unfold messagesCall
  simp only
  split
  · exact ⟨rfl, rfl, rfl⟩
  · exact ⟨rfl, rfl, rfl⟩

/-- **The endpoints beside the chat core.** -/
theorem other_controlled_iff {gw : Gateway} {call : ChatCall} {at_ : Moment} (r : Endpoint.Request) :
    (∀ trace ∈ (ServingRequest.other r).traces gw call at_,
        ∀ model ∈ (ServingRequest.other r).model? gw call,
        Controlled gw (gw.modelGuards call model) ((ServingRequest.other r).Eligible gw call) trace) ↔
      (ServingRequest.other r).Safe gw call at_ := by
  show _ ↔ ∀ payload model, _
  constructor
  · intro h payload model hread hmodel
    refine (slice_controlled_iff (r.slice gw.site call.toCall payload) model _ rfl).1 ?_
    intro env
    have hm : model ∈ (ServingRequest.other r).model? gw call := by
      unfold ServingRequest.model?
      simp only [hread]
      exact hmodel
    have hcontrolled := h _ ⟨env, rfl⟩ model hm
    rw [Endpoint.Request.handle_of_read hread] at hcontrolled
    exact ⟨hcontrolled.admitted, hcontrolled.settled, fun hd => hcontrolled.eligible hd model hm⟩
  · rintro h trace ⟨env, rfl⟩ model hm
    cases hread : r.read gw.site with
    | error e =>
      rw [Endpoint.Request.handle_eq, hread]
      exact .of_idle List.not_mem_nil
    | ok payload =>
      have hmodel : r.model payload = some model := by
        have hm' : (ServingRequest.other r).model? gw call = some model := hm
        unfold ServingRequest.model? at hm'
        simp only [hread] at hm'
        exact hm'
      rw [Endpoint.Request.handle_of_read hread]
      have hcontrolled := (slice_controlled_iff (r.slice gw.site call.toCall payload) model _
        rfl).2 (h payload model hread hmodel) env
      refine ⟨hcontrolled.admitted, hcontrolled.settled, fun hd m hm' => ?_⟩
      rw [← Option.some.inj (hm.symm.trans hm')]
      exact hcontrolled.eligible hd

/-- **The controls of a model cover every dispatch exactly of the safe requests**: all chat and
messages requests, and on the other endpoints those that cannot be dispatched or whose model has no
controls to miss. -/
theorem model_controls_iff (gw : Gateway) (call : ChatCall) (at_ : Moment) (r : ServingRequest) :
    (∀ trace ∈ r.traces gw call at_, ∀ model ∈ r.model? gw call,
        Controlled gw (gw.modelGuards call model) (r.Eligible gw call) trace) ↔
      r.Safe gw call at_ := by
  cases r with
  | chatCompletions payload =>
    refine ⟨fun _ => trivial, ?_⟩
    rintro - trace ⟨ρ, c, rfl⟩ model hmodel
    rw [← Option.some.inj hmodel]
    exact chatCompletionsCore_controlled gw call c payload
  | messages req =>
    refine ⟨fun _ => trivial, ?_⟩
    rintro - trace ⟨ρ, c, rfl⟩ model hmodel
    rw [← Option.some.inj hmodel]
    unfold messages
    split
    · exact .of_idle List.not_mem_nil
    · split
      · exact .of_idle List.not_mem_nil
      · obtain ⟨hkey, hrouteplane, htenant⟩ := messagesCall_same gw call req.model
        have hcore := chatCompletionsCore_controlled gw (messagesCall gw call req.model) c
          (toCanonicalRequest req)
        unfold Gateway.modelGuards Endpoint.Call.tenantId at hcore
        rw [hkey, hrouteplane, htenant] at hcore
        exact hcore
  | other r => exact other_controlled_iff r

/-! ## A model whose limit is used up -/

/-- A gateway with one provider; a key that may make no request for embedding models. -/
def cappedGateway : Gateway where
  site :=
    { app := { providers := [("openai", { name := "openai", residentRegions := ["US"] })] }
      limits := (Limits.LimitRegistry.buildWithReplicas
        [⟨"rp-batch", "acme", { modelLimits :=
          [("text-embedding", { rate := some { requestsPerMin := some 0 } })] }⟩] 1 {}).1
      classify := fun _ => ⟨false, []⟩
      processText := id }
  parsers := ⟨fun e => .error e, fun _ => .error (.notFound "")⟩
  cache := { toVec := fun _ => [] }

def cappedCall : ChatCall where
  key := { name := "batch", providerKeys := [("openai", "sk-openai")] }
  routeplaneKey := "rp-batch"
  tenant := { tenantId := "acme" }

def embedOne : EmbeddingRequest where
  model := "text-embedding-3-small"
  input := .single "a cat"

/-- **A model that is limited to no request at all is embedded with.** -/
theorem model_limit_bypassed :
    ((cappedGateway.modelGuards cappedCall embedOne.model).admitRequest 0 {}).1.isAllowed = false ∧
    ¬∀ trace ∈ (ServingRequest.other (.embeddings embedOne)).traces cappedGateway cappedCall
        ⟨0, default, {}, {}⟩,
      ∀ model ∈ (ServingRequest.other (.embeddings embedOne)).model? cappedGateway cappedCall,
      Controlled cappedGateway (cappedGateway.modelGuards cappedCall model)
        ((ServingRequest.other (.embeddings embedOne)).Eligible cappedGateway cappedCall) trace := by
  refine ⟨by decide, fun h => ?_⟩
  have hsafe := (other_controlled_iff _).1 h embedOne embedOne.model rfl rfl
  rcases hsafe with hnone | hfree
  · refine hnone "openai" { name := "openai", residentRegions := ["US"] } "sk-openai" ?_
    exact ⟨⟨["openai"], by decide, by decide⟩, rfl, rfl, by decide, ⟨{}, rfl⟩, by decide⟩
  · have hlimited : (cappedGateway.modelGuards cappedCall embedOne.model).model.isSome = true := by
      decide
    rw [hfree.unlimited] at hlimited
    cases hlimited

end Routeplane
