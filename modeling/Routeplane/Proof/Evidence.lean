import Routeplane.Ledger.Entry
import Routeplane.Proof.Reach
import Routeplane.Proof.EndpointResidency
import Routeplane.Providers.Registry
import Routeplane.Proxy.SseBody

/-!
# What a decision's draft is evidence of

The provider that served is recorded by a code, the regions by theirs, and the draft says whether
the localization rules of India are concerned. A name loses what comes after its sixteenth
character, and India is asked for by one spelling only, while residency is matched without case.

* `Drafted`: the decisions the handlers draft; `Slice.drafted_of_mem` and `drafted_of_stream`, that
  a run and the body of a stream draft no other.
* `evidence_faithful_iff`: **when a draft is faithful evidence.**
-/

namespace Routeplane.Ledger

/-! ## Codes -/

theorem isCodeChar_toLower (c : Char) : isCodeChar c.toLower = isCodeChar c := by
  have hlower := toNat_toLower c
  by_cases h : 65 ≤ c.toNat ∧ c.toNat ≤ 90
  · -- a letter, in capitals and in small letters
    rw [if_pos h] at hlower
    have hletter : ∀ d : Char, 65 ≤ d.toNat ∧ d.toNat ≤ 90 ∨ 97 ≤ d.toNat ∧ d.toNat ≤ 122 →
        isCodeChar d = true := by
      intro d hd
      have halpha : d.isAlpha = true := by
        unfold Char.isAlpha Char.isUpper Char.isLower
        simp only [Bool.or_eq_true, Bool.and_eq_true, decide_eq_true_eq]
        exact hd
      unfold isCodeChar Char.isAlphanum
      rw [halpha]
      rfl
    rw [hletter c (by omega), hletter c.toLower (by omega)]
  · rw [if_neg h] at hlower
    rw [Char.toNat_inj.1 hlower]

/-- The code characters of a text, as many as a code takes. -/
def codeChars (s : String) : List Char := (s.toList.filter isCodeChar).take maxCodeLen

theorem sanitized_text (s : String) :
    (CodeStr.sanitized s).text =
      if (codeChars s).isEmpty then "invalid" else String.ofList (codeChars s) := rfl

theorem codeChars_map_toLower (s : String) :
    (codeChars s).map Char.toLower = codeChars (asciiLower s) := by
  unfold codeChars asciiLower
  rw [String.toList_ofList, List.map_take, List.filter_map]
  have hsame : isCodeChar ∘ Char.toLower = isCodeChar := funext isCodeChar_toLower
  rw [hsame]

/-- **A code keeps what a text says up to letter case.** -/
theorem sanitized_eqIgnoreCase {a b : String} (h : eqIgnoreCase a b = true) :
    eqIgnoreCase (CodeStr.sanitized a).text (CodeStr.sanitized b).text = true := by
  have hlower : asciiLower a = asciiLower b := beq_iff_eq.1 h
  have hchars : (codeChars a).map Char.toLower = (codeChars b).map Char.toLower := by
    rw [codeChars_map_toLower, codeChars_map_toLower, hlower]
  have hempty : (codeChars a).isEmpty = (codeChars b).isEmpty := by
    have hmap := congrArg List.isEmpty hchars
    rw [List.isEmpty_map, List.isEmpty_map] at hmap
    exact hmap
  unfold eqIgnoreCase
  rw [sanitized_text, sanitized_text, hempty, beq_iff_eq]
  split
  · rfl
  · unfold asciiLower
    rw [String.toList_ofList, String.toList_ofList, hchars]

theorem sanitized_of_codeChars {s : String} (hne : s.isEmpty = false)
    (hchars : ∀ c ∈ s.toList, isCodeChar c = true) :
    (CodeStr.sanitized s).text = String.ofList (s.toList.take maxCodeLen) := by
  have hkept : codeChars s = s.toList.take maxCodeLen := by
    unfold codeChars
    rw [List.filter_eq_self.2 hchars]
  have hsome : (s.toList.take maxCodeLen).isEmpty = false := by
    rw [List.isEmpty_eq_false_iff]
    intro hnil
    rw [List.take_eq_nil_iff] at hnil
    rcases hnil with hzero | hnil
    · exact absurd hzero (by decide)
    · have hs : s = "" := String.toList_eq_nil_iff.1 hnil
      rw [hs] at hne
      cases hne
  rw [sanitized_text, hkept, hsome]
  rfl

/-! ## Names -/

/-- A name a tenant can route to: a built-in provider's, or that of a custom provider that was
accepted. -/
def Available (st : AppState) (tenant name : String) : Prop :=
  (st.providers.lookup name).isSome = true ∨
    st.customProviders.contains tenant name = true ∧ ∃ raw, Custom.validateName raw = .ok name

theorem isCodeChar_of_isNameChar {c : Char} (h : Custom.isNameChar c = true) :
    isCodeChar c = true := by
  unfold Custom.isNameChar at h
  unfold isCodeChar Char.isAlphanum Char.isAlpha
  simp only [Bool.or_eq_true] at h ⊢
  rcases h with ((hlower | hdigit) | hunder) | hdash
  · exact .inl (.inl (.inl (.inr hlower)))
  · exact .inl (.inl (.inr hdigit))
  · exact .inl (.inr hunder)
  · exact .inr hdash

/-- What is asked of the name of a custom provider. -/
theorem chars_of_validateName {raw name : String} (h : Custom.validateName raw = .ok name) :
    name.isEmpty = false ∧ ∀ c ∈ name.toList, isCodeChar c = true := by
  unfold Custom.validateName at h
  dsimp only at h
  split at h
  · cases h
  rename_i hsize
  split at h
  · cases h
  rename_i hall
  obtain rfl := Except.ok.inj h
  rw [Bool.or_eq_true, not_or, Bool.not_eq_true] at hsize
  have hchars : (trimText raw).toList.all Custom.isNameChar = true := by simpa using hall
  exact ⟨hsize.1, fun c hc => isCodeChar_of_isNameChar (List.all_eq_true.1 hchars c hc)⟩

section

variable {env : EnvVars} {st : AppState} {tenant : String}

theorem chars_of_available (hst : st.providers = buildProviderRegistry env) {name : String}
    (h : Available st tenant name) :
    name.isEmpty = false ∧ ∀ c ∈ name.toList, isCodeChar c = true := by
  rcases h with hbuiltin | ⟨-, raw, haccepted⟩
  · have hname : name ∈ builtinNames := by
      obtain ⟨p, hp⟩ := Option.isSome_iff_exists.1 hbuiltin
      rw [hst] at hp
      exact mem_keys_of_lookup hp
    have hall : ∀ n ∈ builtinNames, n.isEmpty = false ∧ n.toList.all isCodeChar = true := by decide
    obtain ⟨hne, hchars⟩ := hall name hname
    exact ⟨hne, List.all_eq_true.1 hchars⟩
  · exact chars_of_validateName haccepted

/-- **The code of an available name is what it starts with.** -/
theorem sanitized_of_available (hst : st.providers = buildProviderRegistry env) {name : String}
    (h : Available st tenant name) :
    (CodeStr.sanitized name).text = String.ofList (name.toList.take maxCodeLen) := by
  obtain ⟨hne, hchars⟩ := chars_of_available hst h
  exact sanitized_of_codeChars hne hchars

end

/-! ## Drafted decisions -/

/-- A decision that the handlers draft for a request of a tenant: a provider served it, a resident
one if a region is required, or it has neither a provider nor a route. -/
structure Drafted (st : AppState) (tenant : String) (d : Decision) : Prop where
  owner : d.tenantId = tenant
  answered : d.outcome = .ok ∨ d.outcome = .streamTruncated → d.provider.isSome = true
  unrouted : d.provider = none → d.routeRegion = none
  served : ∀ name ∈ d.provider, ∃ p, st.resolveProvider tenant name = some p ∧
    d.routeRegion = p.residentRegions.head? ∧
    ∀ r ∈ d.requiredRegion, st.providers.lookup name = some p ∧ p.isResidentIn r = true

end Routeplane.Ledger

namespace Routeplane.Endpoint

open Ledger (Drafted Decision)

def Event.decision? {π : Type} : Event π → Option DecisionDraft
  | .decision d => some d
  | _ => none

/-- The decisions in the record. -/
def World.decisions {π : Type} (w : World π) : List DecisionDraft :=
  w.events.filterMap Event.decision?

section

variable {π ρ : Type} (site : Site) (call : Call) (s : Slice π ρ)

/-- The decision that a slice drafts, with the values it has for every one of them. -/
def Slice.decided (model : String) (provider routeRegion : Option String) (outcome : Outcome)
    (usage : UsageTotals) : Decision where
  tenantId := call.tenantId
  requestId := call.requestId
  model := model
  provider := provider
  routeRegion := routeRegion
  classification := s.classification site
  requiredRegion := (s.requiredRegion site call).map (·.code)
  sovereignRouted := (s.requiredRegion site call).isSome
  clientProviderRequested := call.provider.isSome
  outcome := outcome
  usage := usage

/-- A draft in the record of a walk over some names. -/
def Slice.Decides (names : List String) (d : DecisionDraft) : Prop :=
  (∃ model name adapter usage, name ∈ names ∧ s.resolve site call name = some adapter ∧
    d = s.decision site call model (some name) adapter.residentRegions.head? .ok usage) ∨
  ∃ model outcome usage, outcome ≠ .ok ∧ outcome ≠ .streamTruncated ∧
    d = s.decision site call model none none outcome usage

end

section

variable {π ρ : Type} {site : Site} {call : Call} {s : Slice π ρ} {env : Env ρ} {w : World π}
  {deadline : Deadline}

@[simp] theorem World.decisions_log (w : World π) (es : List (Event π)) :
    (w.log es).decisions = w.decisions ++ es.filterMap Event.decision? := by
  unfold World.decisions World.log
  rw [List.filterMap_append]

theorem recordSuccess_decisions (name : String) (adapter : Provider) (response : ρ)
    (elapsedMs : ℕ) : ∃ model usage,
      (recordSuccess site call s name adapter response elapsedMs w).2.decisions = w.decisions ++
        [s.decision site call model (some name) adapter.residentRegions.head? .ok usage] := by
  refine ⟨(s.bill response).model, ⟨(s.bill response).promptTokens, 0,
    (s.bill response).totalTokens⟩, ?_⟩
  unfold recordSuccess
  dsimp only
  rw [World.decisions_log]
  have halerts : ∀ alerts : List Limits.SpendAlert,
      (alerts.map (Event.alert (π := π))).filterMap Event.decision? = [] := by
    intro alerts
    rw [List.filterMap_map, List.filterMap_eq_nil_iff]
    intro a _
    rfl
  rw [List.filterMap_append, halerts, List.append_nil]
  rfl

/-- **What one provider of the chain adds to the decisions**: the one of its answer. -/
theorem attemptProvider_decisions (name : String) (w : World π) :
    ∀ d ∈ (attemptProvider site call s env deadline name w).2.decisions,
      d ∈ w.decisions ∨ s.Decides site call [name] d := by
  intro d hd
  unfold attemptProvider at hd
  split at hd
  · exact .inl hd
  rename_i adapter hresolve
  simp only at hd
  split at hd
  · exact .inl hd
  split at hd
  · exact .inl hd
  split at hd
  · exact .inl hd
  rename_i _ apiKey hkey _ timeout htimeout
  cases hcall : callProvider env ⟨name, adapter, apiKey, s.payload⟩ timeout
      { w with health := (w.health.isAvailable call.tenantId name w.now).2 } with
  | mk outcome rest =>
    obtain ⟨elapsed, w₁⟩ := rest
    have hsame : w₁.decisions = w.decisions := by
      have hw₁ := congrArg (fun r => r.2.2.decisions) hcall
      have hlog : (callProvider env ⟨name, adapter, apiKey, s.payload⟩ timeout
          { w with health := (w.health.isAvailable call.tenantId name w.now).2 }).2.2.decisions =
          w.decisions ++ [] := World.decisions_log _ _
      rw [List.append_nil] at hlog
      exact hw₁.symm.trans hlog
    rw [hcall] at hd
    cases outcome with
    | ok response =>
      have hmem : d ∈ (recordSuccess site call s name adapter response elapsed w₁).2.decisions := hd
      obtain ⟨model, usage, hdecisions⟩ : ∃ model usage,
          (recordSuccess site call s name adapter response elapsed w₁).2.decisions =
            w₁.decisions ++
              [s.decision site call model (some name) adapter.residentRegions.head? .ok usage] :=
        recordSuccess_decisions name adapter response elapsed
      rw [hdecisions] at hmem
      rcases List.mem_append.1 hmem with hmem | hmem
      · exact .inl (hsame ▸ hmem)
      · exact .inr (.inl ⟨model, name, adapter, usage, List.mem_singleton_self name, hresolve,
          List.mem_singleton.1 hmem⟩)
    | error e =>
      refine .inl ?_
      have hmem : d ∈ (recordFailure site call s name e elapsed w₁).2.decisions := hd
      unfold recordFailure at hmem
      rw [World.decisions_log] at hmem
      rw [← hsame]
      rcases List.mem_append.1 hmem with hmem | hmem
      · exact hmem
      · exact absurd hmem List.not_mem_nil

theorem Slice.Decides.mono {names names' : List String} {d : DecisionDraft}
    (h : s.Decides site call names d) (hsub : ∀ n ∈ names, n ∈ names') :
    s.Decides site call names' d := by
  rcases h with ⟨model, name, adapter, usage, hname, hrest⟩ | hnone
  · exact .inl ⟨model, name, adapter, usage, hsub _ hname, hrest⟩
  · exact .inr hnone

/-- By induction on the chain. -/
theorem attemptAll_decisions (names : List String) (notes : Notes) (w : World π) :
    ∀ d ∈ (attemptAll site call s env deadline names notes w).2.2.decisions,
      d ∈ w.decisions ∨ s.Decides site call names d := by
  induction names generalizing notes w with
  | nil => exact fun d hd => .inl hd
  | cons name names ih =>
    have hfirst : ∀ n ∈ [name], n ∈ name :: names :=
      fun n hn => List.mem_cons.2 (.inl (List.mem_singleton.1 hn))
    have hone : ∀ d ∈ (attemptProvider site call s env deadline name w).2.decisions,
        d ∈ w.decisions ∨ s.Decides site call (name :: names) d :=
      fun d hd => (attemptProvider_decisions name w d hd).imp_right fun h => h.mono hfirst
    have hrest : ∀ {w'} notes', (∀ d ∈ w'.decisions,
        d ∈ w.decisions ∨ s.Decides site call (name :: names) d) →
        ∀ d ∈ (attemptAll site call s env deadline names notes' w').2.2.decisions,
          d ∈ w.decisions ∨ s.Decides site call (name :: names) d := by
      intro w' notes' hw' d hd
      rcases ih notes' w' d hd with hd | hd
      · exact hw' d hd
      · exact .inr (hd.mono fun n hn => List.mem_cons_of_mem _ hn)
    unfold attemptAll
    split
    · rename_i heq
      rw [heq] at hone
      exact hone
    · rename_i heq
      rw [heq] at hone
      exact hone
    · rename_i heq
      rw [heq] at hone
      exact hrest _ hone
    · rename_i heq
      rw [heq] at hone
      exact hrest _ hone

theorem runAttempts_decisions (ordered : List String) (w : World π) :
    ∀ d ∈ (runAttempts site call s env deadline ordered w).2.decisions,
      d ∈ w.decisions ∨ s.Decides site call ordered d := by
  have hall : ∀ d ∈ (attemptAll site call s env deadline ordered {} w).2.2.decisions,
      d ∈ w.decisions ∨ s.Decides site call ordered d := attemptAll_decisions ordered {} w
  unfold runAttempts
  split
  · rename_i heq
    rw [heq] at hall
    exact hall
  · rename_i heq
    rw [heq] at hall
    split
    · exact hall
    · intro d hd
      rw [World.decisions_log] at hd
      rcases List.mem_append.1 hd with hd | hd
      · exact hall d hd
      · exact .inr (.inr ⟨s.modelLabel, .allFailed, _, by decide, by decide,
          List.mem_singleton.1 hd⟩)

/-- **The decisions of a run**: the one of its answer, by an eligible provider, or one without a
provider. -/
theorem Slice.run_decisions (hw : w.decisions = []) {d : DecisionDraft}
    (hd : d ∈ (s.run site call env w).2.decisions) :
    ∃ names, s.Decides site call names d ∧
      ∀ name ∈ names, ∃ eligible, s.eligible site call = .ok eligible ∧ name ∈ eligible := by
  unfold Slice.run at hd
  cases heligible : s.eligible site call with
  | error region =>
    rw [heligible] at hd
    have hmem : d ∈ (blockSovereign site call s region w).2.decisions := hd
    unfold blockSovereign at hmem
    rw [World.decisions_log, hw] at hmem
    exact ⟨[], .inr ⟨s.modelLabel, .residencyBlocked, _, by decide, by decide,
      List.mem_singleton.1 hmem⟩, fun name hname => absurd hname List.not_mem_nil⟩
  | ok names =>
    rw [heligible] at hd
    have hmem : d ∈ (runEligible site call s env (.start site.deadlineConfig w.now) names
      w).2.decisions := hd
    have hnone : (admittedWorld site call env w names (admission site call w)).decisions = [] := by
      unfold admittedWorld
      rw [World.decisions_log]
      show w.decisions ++ _ = _
      rw [hw]
      rfl
    unfold runEligible at hmem
    simp only at hmem
    split at hmem
    · rename_i breach hbreach
      rw [World.decisions_log] at hmem
      rcases List.mem_append.1 hmem with hmem | hmem
      · have hin : d ∈ (admittedWorld site call env w names (admission site call w)).decisions :=
          hmem
        rw [hnone] at hin
        cases hin
      · exact absurd hmem List.not_mem_nil
    · rcases runAttempts_decisions _ _ d hmem with hin | hin
      · have hin : d ∈ (admittedWorld site call env w names (admission site call w)).decisions :=
          hin
        rw [hnone] at hin
        cases hin
      · refine ⟨_, hin, fun name hname => ⟨names, rfl, ?_⟩⟩
        exact ((Router.mem_orderCandidates ..).1 hname).1

/-- **A run drafts no other decisions.** -/
theorem Slice.drafted_of_mem (hw : w.decisions = []) {d : DecisionDraft}
    (hd : d ∈ (s.run site call env w).2.decisions) (now : String) :
    ∃ decided, Drafted site.app call.tenantId decided ∧
      d = (Ledger.decisionDraft now decided).toDecisionDraft := by
  obtain ⟨names, hdecides, heligible⟩ := Slice.run_decisions hw hd
  rcases hdecides with ⟨model, name, adapter, usage, hname, hresolve, rfl⟩ |
    ⟨model, outcome, usage, hok, htruncated, rfl⟩
  · refine ⟨s.decided site call model (some name) adapter.residentRegions.head? .ok usage, ?_, rfl⟩
    have hprovided : some name ≠ none := Option.some_ne_none name
    refine ⟨rfl, fun _ => rfl, fun h => absurd h hprovided, ?_⟩
    intro name' hname'
    obtain rfl := Option.some.inj hname'
    have hboth : site.app.resolveProvider call.tenantId name = some adapter := by
      unfold Slice.resolve at hresolve
      split at hresolve
      · exact hresolve
      · unfold AppState.resolveProvider
        rw [hresolve]
        rfl
    refine ⟨adapter, hboth, rfl, fun r hr => ?_⟩
    -- a required region leaves resident built-in providers only
    obtain ⟨region, hregion, rfl⟩ := Option.map_eq_some_iff.1 hr
    obtain ⟨eligible, helig, hmem⟩ := heligible name hname
    unfold Slice.eligible at helig
    rw [hregion] at helig
    simp only at helig
    split at helig
    · cases helig
    · obtain rfl := Except.ok.inj helig
      obtain ⟨p, hp, hres⟩ := mem_residentNames.1 hmem
      have hsame := hresolve.symm.trans (Slice.resolve_builtin hp)
      obtain rfl := Option.some.inj hsame
      exact ⟨hp, hres⟩
  · refine ⟨s.decided site call model none none outcome usage, ?_, rfl⟩
    refine ⟨rfl, ?_, fun _ => rfl, ?_⟩
    · rintro (h | h)
      · exact absurd h hok
      · exact absurd h htruncated
    · intro name hname
      cases hname

end

end Routeplane.Endpoint

namespace Routeplane

open Ledger (Drafted Decision)

/-! ## Streams -/

/-- The chat handler has committed a stream to a provider. -/
structure StreamContext.Committed (st : AppState) (ctx : StreamContext) (p : Provider) : Prop where
  resolved : st.resolveProvider ctx.tenantId ctx.provider = some p
  routed : ctx.routeRegion = p.residentRegions.head?
  resident : ∀ r ∈ ctx.region, st.providers.lookup ctx.provider = some p ∧ p.isResidentIn r = true

/-- The decision of a stream. -/
def StreamContext.decided (ctx : StreamContext) (model : String) (usage : Usage)
    (outcome : Outcome) : Decision where
  tenantId := ctx.tenantId
  requestId := ctx.requestId
  model := model
  provider := some ctx.provider
  routeRegion := ctx.routeRegion
  classification := ctx.classification
  requiredRegion := ctx.region
  sovereignRouted := ctx.sovereign
  clientProviderRequested := ctx.clientProviderRequested
  outcome := outcome
  usage := ⟨usage.promptTokens, usage.completionTokens, usage.totalTokens⟩

/-- The log holds decisions of the stream only. -/
def BodyLog.OfStream (ctx : StreamContext) (log : BodyLog) : Prop :=
  ∀ d ∈ log.decisions, ∃ model usage outcome, d = decisionOf ctx model usage outcome

section

variable {st : AppState} {ctx : StreamContext} {p : Provider} {first : ChatCompletionChunk}
  {log : BodyLog}

theorem StreamContext.Committed.drafted (h : ctx.Committed st p) (model : String) (usage : Usage)
    (outcome : Outcome) : Drafted st ctx.tenantId (ctx.decided model usage outcome) := by
  refine ⟨rfl, fun _ => rfl, fun hnone => ?_, fun name hname => ?_⟩
  · cases hnone
  · obtain rfl := Option.some.inj hname
    exact ⟨p, h.resolved, h.routed, h.resident⟩

theorem BodyLog.OfStream.add (h : log.OfStream ctx) (model : String) (usage : Usage)
    (outcome : Outcome) :
    ∀ d ∈ log.decisions ++ [decisionOf ctx model usage outcome],
      ∃ model usage outcome, d = decisionOf ctx model usage outcome := by
  intro d hd
  rcases List.mem_append.1 hd with hd | hd
  · exact h d hd
  · exact ⟨model, usage, outcome, List.mem_singleton.1 hd⟩

theorem ofStream_forwardChunk (h : log.OfStream ctx) (s : StreamLocals) (c : ChatCompletionChunk) :
    (forwardChunk ctx s c log).log.OfStream ctx := by
  unfold forwardChunk
  dsimp only
  split
  · exact h
  · exact h

theorem ofStream_continueLoop (h : log.OfStream ctx) (s : StreamLocals) (next : NextItem) :
    (continueLoop ctx s next log).log.OfStream ctx := by
  cases next with
  | pending => exact h
  | item r =>
    cases r with
    | ok c => exact ofStream_forwardChunk h s c
    | error e => exact h
  | ended => exact h
  | elapsed =>
    unfold continueLoop
    dsimp only
    split
    · exact h
    · exact h

theorem ofStream_poll {b : Body} (h : b.log.OfStream ctx) (next : NextItem) :
    (poll ctx first b next).log.OfStream ctx := by
  unfold poll
  split
  · exact ofStream_forwardChunk h _ first
  · exact ofStream_continueLoop h _ next
  · exact ofStream_continueLoop h _ next
  · exact h.add _ _ _
  · exact h

/-- By induction on the polls. -/
theorem ofStream_foldl (polls : List NextItem) {b : Body} (h : b.log.OfStream ctx) :
    (polls.foldl (poll ctx first) b).log.OfStream ctx := by
  induction polls generalizing b with
  | nil => exact h
  | cons next polls ih => exact ih (ofStream_poll h next)

theorem ofStream_dropBody {b : Body} (h : b.log.OfStream ctx) :
    (dropBody ctx b).OfStream ctx := by
  have hguard : ∀ s : StreamLocals,
      (if s.abortAcct.armed then s.abortAcct.run ctx b.log else b.log).OfStream ctx := by
    intro s
    split
    · exact h.add _ _ _
    · exact h
  unfold dropBody
  split
  · exact h
  · exact hguard _
  · exact hguard _
  · exact hguard _
  · exact h

/-- **The body of a stream drafts no other decisions**, whenever it is dropped. -/
theorem drafted_of_stream (h : ctx.Committed st p) (polls : List NextItem) {d : DecisionDraft}
    (hd : d ∈ (runBody ctx first polls).decisions) (now : String) :
    ∃ decided, Drafted st ctx.tenantId decided ∧
      d = (Ledger.decisionDraft now decided).toDecisionDraft := by
  have hstart : ({} : BodyLog).OfStream ctx := fun d hd => absurd hd List.not_mem_nil
  have hpolls : (runPolls ctx first polls).log.OfStream ctx :=
    ofStream_foldl (b := ⟨.created, {}⟩) polls hstart
  obtain ⟨model, usage, outcome, rfl⟩ := ofStream_dropBody hpolls d hd
  exact ⟨_, h.drafted model usage outcome, rfl⟩

end

end Routeplane

namespace Routeplane.Ledger

/-! ## The law -/

/-- What makes a draft evidence of its decision: no two names a tenant can route to have one code,
the localization rules are concerned exactly when the region that is required selects the providers
resident in India, and the region of the route is the required one. -/
structure Faithful (st : AppState) (tenant now : String) (d : Decision) : Prop where
  providers : ∀ name name', Available st tenant name → Available st tenant name' → name ≠ name' →
    (decisionDraft now { d with provider := some name }).provider ≠
      (decisionDraft now { d with provider := some name' }).provider
  localization : ∃ b,
    (decisionDraft now d).ext.get (.known "rbi.localization_relevant") = some (.bool b) ∧
      (b = true ↔ ∃ r ∈ d.requiredRegion, ∀ p : Provider, p.isResidentIn r = p.isResidentIn "IN")
  region : d.outcome = .ok → ∀ c ∈ (decisionDraft now d).requiredRegions,
    ∃ g, (decisionDraft now d).region = some g ∧ eqIgnoreCase g.text c.text = true

/-- Two regions select the same providers exactly when they differ in letter case at most. -/
theorem selects_same_iff (r r' : String) :
    (∀ p : Provider, p.isResidentIn r = p.isResidentIn r') ↔ eqIgnoreCase r r' = true := by
  constructor
  · intro h
    have hone := h { name := "", residentRegions := [r] }
    unfold Provider.isResidentIn at hone
    simp only [List.any_cons, List.any_nil, Bool.or_false] at hone
    rw [← hone]
    exact beq_self_eq_true _
  · intro h p
    have hlower : asciiLower r = asciiLower r' := beq_iff_eq.1 h
    unfold Provider.isResidentIn eqIgnoreCase
    rw [hlower]

theorem localization_get (now : String) (d : Decision) :
    (decisionDraft now d).ext.get (.known "rbi.localization_relevant") =
      some (.bool (d.requiredRegion == some "IN")) := by
  have hne : ExtKey.known "dpdp.personal_data_present" ≠ .known "rbi.localization_relevant" := by
    decide
  unfold decisionDraft
  rw [Assoc.get_cons, if_neg hne, Assoc.get_cons, if_pos rfl]

section

variable {env : EnvVars} {st : AppState} {tenant : String} {d : Decision}

/-- Names whose codes agree start alike. -/
theorem provider_eq_iff (hst : st.providers = buildProviderRegistry env) {name name' : String}
    (h : Available st tenant name) (h' : Available st tenant name') (now : String) :
    (decisionDraft now { d with provider := some name }).provider =
        (decisionDraft now { d with provider := some name' }).provider ↔
      name.toList.take maxCodeLen = name'.toList.take maxCodeLen := by
  have htext := sanitized_of_available hst h
  have htext' := sanitized_of_available hst h'
  have hcode : (decisionDraft now { d with provider := some name }).provider =
      (decisionDraft now { d with provider := some name' }).provider ↔
      (CodeStr.sanitized name).text = (CodeStr.sanitized name').text := by
    have hshow : (decisionDraft now { d with provider := some name }).provider =
        (decisionDraft now { d with provider := some name' }).provider ↔
        some (CodeStr.sanitized name) = some (CodeStr.sanitized name') := Iff.rfl
    rw [hshow, Option.some.injEq, CodeStr.mk.injEq]
  rw [hcode, htext, htext', String.ofList_inj]

/-- A provider with one region is resident in a required region under its name only. -/
theorem region_faithful (hst : st.providers = buildProviderRegistry env)
    (h : Drafted st tenant d) (now : String) (hok : d.outcome = .ok) :
    ∀ c ∈ (decisionDraft now d).requiredRegions,
      ∃ g, (decisionDraft now d).region = some g ∧ eqIgnoreCase g.text c.text = true := by
  intro c hc
  obtain ⟨name, hname⟩ := Option.isSome_iff_exists.1 (h.answered (.inl hok))
  obtain ⟨p, -, hroute, hresident⟩ := h.served name hname
  cases hrequired : d.requiredRegion with
  | none =>
    have hnil : (decisionDraft now d).requiredRegions = [] := by
      show (d.requiredRegion.map fun r => [CodeStr.sanitized r]).getD [] = []
      rw [hrequired]
      rfl
    rw [hnil] at hc
    cases hc
  | some r =>
    have hone : (decisionDraft now d).requiredRegions = [CodeStr.sanitized r] := by
      show (d.requiredRegion.map fun r => [CodeStr.sanitized r]).getD [] = _
      rw [hrequired]
      rfl
    rw [hone, List.mem_singleton] at hc
    subst hc
    obtain ⟨hbuiltin, hres⟩ := hresident r hrequired
    rw [hst, Assoc.lookup_eq_get] at hbuiltin
    have hlen := residentRegions_length_le env _ (Assoc.mem_of_get hbuiltin)
    obtain ⟨g, hg, hsame⟩ := List.any_eq_true.1 hres
    have hregions : p.residentRegions = [g] := by
      have hpos := List.length_pos_of_mem hg
      obtain ⟨only, honly⟩ := List.length_eq_one_iff.1 (Nat.le_antisymm hlen hpos)
      rw [honly] at hg ⊢
      rw [List.mem_singleton.1 hg]
    refine ⟨CodeStr.sanitized g, ?_, sanitized_eqIgnoreCase hsame⟩
    show d.routeRegion.map CodeStr.sanitized = _
    rw [hroute, hregions]
    rfl

end

/-- **A draft is faithful evidence exactly if** the names that the tenant can route to differ in
their first sixteen characters, and India is not required in small letters. -/
theorem evidence_faithful_iff {env : EnvVars} {st : AppState} {tenant : String} {d : Decision}
    (hst : st.providers = buildProviderRegistry env) (h : Drafted st tenant d) (now : String) :
    Faithful st tenant now d ↔
      (∀ name name', Available st tenant name → Available st tenant name' → name ≠ name' →
        name.toList.take maxCodeLen ≠ name'.toList.take maxCodeLen) ∧
      ∀ r ∈ d.requiredRegion, eqIgnoreCase r "IN" = true → r = "IN" := by
  constructor
  · intro hf
    refine ⟨fun name name' ha ha' hne heq => ?_, fun r hr hsame => ?_⟩
    · exact hf.providers name name' ha ha' hne ((provider_eq_iff hst ha ha' now).2 heq)
    · obtain ⟨b, hget, hb⟩ := hf.localization
      rw [localization_get] at hget
      have htrue : b = true := hb.2 ⟨r, hr, (selects_same_iff r "IN").2 hsame⟩
      have hspelled : (d.requiredRegion == some "IN") = true := by
        rw [← htrue]
        simpa using hget
      have hr' : d.requiredRegion = some r := hr
      rw [hr'] at hspelled
      exact Option.some.inj (beq_iff_eq.1 hspelled)
  · rintro ⟨hnames, hspelled⟩
    refine ⟨fun name name' ha ha' hne heq => ?_, ⟨_, localization_get now d, ?_⟩,
      region_faithful hst h now⟩
    · exact hnames name name' ha ha' hne ((provider_eq_iff hst ha ha' now).1 heq)
    · rw [beq_iff_eq]
      constructor
      · intro hrequired
        exact ⟨"IN", hrequired, fun _ => rfl⟩
      · rintro ⟨r, hr, hselects⟩
        rw [← hspelled r hr ((selects_same_iff r "IN").1 hselects)]
        exact hr

/-! ## Two unfaithful drafts -/

def noVars : EnvVars := fun _ => none

/-- A patient's record, sent to the provider in India. -/
def patientDecision (required : String) : Decision where
  tenantId := "acme"
  requestId := "req_1"
  model := "gpt-4o"
  provider := some "azure_openai"
  routeRegion := some "IN"
  classification := ⟨true, [.aadhaar]⟩
  requiredRegion := some required
  sovereignRouted := true
  clientProviderRequested := false
  outcome := .ok
  usage := ⟨12, 7, 19⟩

theorem drafted_patientDecision {required : String} (h : eqIgnoreCase "IN" required = true)
    (custom : CustomProviders) :
    Drafted { providers := buildProviderRegistry noVars, customProviders := custom } "acme"
      (patientDecision required) := by
  refine ⟨rfl, fun _ => rfl, fun hnone => ?_, fun name hname => ?_⟩
  · cases hnone
  · obtain rfl := Option.some.inj hname
    refine ⟨{ name := "azure_openai", residentRegions := ["IN"] }, rfl, rfl, fun r hr => ?_⟩
    obtain rfl := Option.some.inj hr
    refine ⟨rfl, ?_⟩
    unfold Provider.isResidentIn
    rw [List.any_cons, h]
    rfl

/-- **A record that was kept in India is not marked as concerned by its localization rules**: the
region was asked for in small letters. -/
theorem localization_unmarked :
    Drafted { providers := buildProviderRegistry noVars } "acme" (patientDecision "in") ∧
      ¬Faithful { providers := buildProviderRegistry noVars } "acme" "" (patientDecision "in") := by
  refine ⟨drafted_patientDecision (by decide) {}, fun hf => ?_⟩
  obtain ⟨b, hget, hb⟩ := hf.localization
  have hselects := hb.2 ⟨"in", rfl, (selects_same_iff "in" "IN").2 (by decide)⟩
  rw [localization_get, hselects] at hget
  exact absurd hget (by simp [patientDecision])

/-- Two clusters of a tenant, named alike. -/
def clusters : CustomProviders where
  byName := [(("acme", "mumbai-gpu-cluster-a"), ⟨"sk-a", { name := "self_hosted" }⟩),
    (("acme", "mumbai-gpu-cluster-b"), ⟨"sk-b", { name := "self_hosted" }⟩)]

/-- Two clusters of one tenant are recorded as one provider. -/
theorem clusters_confused :
    ¬Faithful { providers := buildProviderRegistry noVars, customProviders := clusters } "acme" ""
      (patientDecision "IN") := by
  intro hf
  have hnames := ((evidence_faithful_iff rfl (drafted_patientDecision (by decide) clusters) "").1
    hf).1
  have hcluster : ∀ name ∈ ["mumbai-gpu-cluster-a", "mumbai-gpu-cluster-b"],
      Available { providers := buildProviderRegistry noVars, customProviders := clusters } "acme"
        name := by
    intro name hname
    refine .inr ⟨?_, name, ?_⟩
    · revert name
      decide
    · revert name
      decide
  exact hnames "mumbai-gpu-cluster-a" "mumbai-gpu-cluster-b" (hcluster _ (by decide))
    (hcluster _ (by decide)) (by decide) (by decide)

end Routeplane.Ledger
