import Routeplane.Cache.Key
import Routeplane.Proxy.Pipeline

/-!
# What the exact cache tells apart

The key of a request is made of the names of its plan and of what the first target is sent. What the
other targets are sent is not in it, names that contain the separator run together, and numbers that
are not finite look alike.

* `exact_key_iff`: equal keys mean equal plans exactly for the requests that hide no such difference.
* `Lookup.Seen.not_hidden_of_uniform`: as do those whose targets all shape alike.
* `fallback_unseen`: two configs with one key and different fallbacks.
-/

namespace Routeplane

/-- A chat request where it consults the exact cache: the gateway at that moment, and the config
that routes it. -/
structure Lookup where
  gw : Gateway
  call : ChatCall
  payload : ChatCompletionRequest
  config : Option RoutingConfig
  metadata : Metadata
  seed : BitVec 64

namespace Lookup

variable (a b : Lookup)

/-- The flattened plan. -/
def targets : List TargetPlan :=
  (a.gw.flatTargets a.call a.payload a.config a.metadata a.seed).targets

def plan : CachePlan :=
  cachePlan a.gw.cache a.call.key (a.config.bind (·.cache)) a.call.noStore
    ((a.gw.classification a.payload).containsPersonalData ||
      (a.gw.required a.call a.payload).isSome)
    (a.payload.stream.getD false) a.targets a.payload

def key : Option CacheKey :=
  match a.plan with
  | .active key .. => some key
  | _ => none

def generation (key : CacheKey) : ℕ :=
  a.gw.cache.flush.generationEffective key.tenantId key.namespaceName

/-- The names of the plan, normalised. -/
def chain : List String := planChain a.targets

/-- The request the key is made of. -/
def keyed : ChatCompletionRequest := keyedRequest a.payload a.targets

/-- What each target is sent, but for `stream` and `user`. -/
def views : List KeyView := a.targets.map fun t => (t.params.apply a.payload).keyView

/-- The plan as providers see it: normalised names, with what they are sent. -/
def sends : List (String × KeyView) :=
  a.targets.map fun t => (normalizedProvider t.provider, (t.params.apply a.payload).keyView)

/-- The requests agree in what the key is made of. -/
structure Seen : Prop where
  chain : chainBytes a.chain = chainBytes b.chain
  first : a.keyed.keyView.SameWire b.keyed.keyView

/-- The requests differ where the key does not show it: in names that run together because one of
them contains the separator, in numbers of the first target's request that are not finite, or in
what a later target is sent. -/
inductive Hidden : Prop
  | name (hsplit : ∃ p ∈ a.chain ++ b.chain, ¬Unsplit p) (h : a.chain ≠ b.chain)
  | number (hinfinite : ¬a.keyed.keyView.Finite) (h : a.views[0]? ≠ b.views[0]?)
  | later (i : ℕ) (h : a.views[i + 1]? ≠ b.views[i + 1]?)

end Lookup

section

variable {a b : Lookup} {key key' : CacheKey}

theorem Lookup.key_eq (h : a.key = some key) :
    key = exactKeyGen a.gw.cache.toVec key.tenantId key.namespaceName a.keyed a.chain
      (a.generation key) := by
  unfold Lookup.key Lookup.plan cachePlan at h
  split at h
  · rename_i hplan
    obtain rfl := Option.some.inj h
    split at hplan
    · cases hplan
    · split at hplan
      · cases hplan
      · split at hplan
        · cases hplan
        · cases hplan
          rfl
  · cases h

/-- **The pipeline answers from the exact cache only what it holds under this key.** -/
theorem cached_of_answer {ρ : Type} {gw : Gateway} {call : ChatCall} {c : Circumstances ρ}
    {payload : ChatCompletionRequest} {combo : Option RoutingConfig}
    (h : (chatCompletionsPipeline gw call c payload combo).answer = .cached) :
    ∃ config metadata key, gw.routingConfig call combo = .ok config ∧
      parseMetadata gw.parsers call.metadata = .ok metadata ∧
      (Lookup.mk gw call payload config metadata c.seed).key = some key ∧ c.cached key = true := by
  unfold chatCompletionsPipeline at h
  split at h
  · cases h
  · split at h
    · cases h
    · rename_i config hrouted
      split at h
      · cases h
      · rename_i metadata hparsed
        simp only at h
        split at h
        · rename_i hhit
          unfold exactHit at hhit
          split at hhit
          · rename_i key ttl max hplan
            refine ⟨config, metadata, key, hrouted, hparsed, ?_, hhit⟩
            show (match cachePlan _ _ _ _ _ _ _ _ with
              | .active key .. => some key
              | _ => none) = _
            unfold Lookup.targets
            rw [hplan]
          · cases hhit
        · split at h
          · cases h
          · unfold serveFlat at h
            split at h
            · cases h
            · unfold serveTargets at h
              simp only at h
              split at h
              · cases h
              · cases h

/-- **Equal keys are what is seen alike.** -/
theorem Lookup.key_eq_iff_seen {toVec : KeyView → List UInt8} (ha : a.key = some key)
    (hb : b.key = some key') (hvecA : a.gw.cache.toVec = toVec) (hvecB : b.gw.cache.toVec = toVec)
    (hvec : Serialises toVec a.keyed.keyView b.keyed.keyView)
    (hscope : key.tenantId = key'.tenantId ∧ key.namespaceName = key'.namespaceName)
    (hgeneration : a.generation key = b.generation key') : key = key' ↔ a.Seen b := by
  rw [a.key_eq ha, b.key_eq hb, hvecA, hvecB, ← hgeneration, exactKeyGen_eq_iff hvec]
  constructor
  · rintro ⟨-, hfirst, hchain⟩
    exact ⟨hchain, hfirst⟩
  · intro h
    exact ⟨hscope, h.first, h.chain⟩

/-! ## What equal plans are -/

theorem keyedRequest_cons (payload : ChatCompletionRequest) (t : TargetPlan)
    (targets : List TargetPlan) : keyedRequest payload (t :: targets) = t.params.apply payload := by
  show (if t.params.isNoop then payload else t.params.apply payload) = _
  split
  · rename_i hnoop
    exact (if_pos hnoop).symm
  · rfl

theorem Lookup.sends_chain (a : Lookup) : a.sends.map Prod.fst = a.chain := by
  unfold Lookup.sends Lookup.chain planChain
  rw [List.map_map]
  rfl

theorem Lookup.sends_views (a : Lookup) : a.sends.map Prod.snd = a.views := by
  unfold Lookup.sends Lookup.views
  rw [List.map_map]
  rfl

/-- The first target is sent the request of the key. -/
theorem Lookup.views_head (a : Lookup) (h : a.chain ≠ []) : a.views[0]? = some a.keyed.keyView := by
  unfold Lookup.chain planChain at h
  unfold Lookup.views Lookup.keyed
  cases htargets : a.targets with
  | nil => exact absurd (by rw [htargets]; rfl) h
  | cons t targets =>
    rw [keyedRequest_cons]
    rfl

/-- **Names that do not contain the separator are seen.** -/
theorem Lookup.Seen.chain_eq (h : a.Seen b) (hunsplit : ∀ p ∈ a.chain ++ b.chain, Unsplit p) :
    a.chain = b.chain := by
  have hnormal : ∀ c : Lookup, c.chain.map normalizedProvider = c.chain := by
    intro c
    refine (List.map_congr_left fun p hp => ?_).trans (List.map_id _)
    obtain ⟨t, -, rfl⟩ := List.mem_map.1 hp
    exact normalizedProvider_idem t.provider
  have hseen := chainBytes_inj (fun p hp => hunsplit p (List.mem_append_left _ hp))
    (fun p hp => hunsplit p (List.mem_append_right _ hp)) h.chain
  rw [hnormal a, hnormal b] at hseen
  exact hseen

/-- **Requests seen alike have one plan iff they hide no difference.** -/
theorem Lookup.Seen.sends_eq_iff (h : a.Seen b) : a.sends = b.sends ↔ ¬a.Hidden b := by
  constructor
  · intro heq hidden
    have hviews : a.views = b.views := by rw [← a.sends_views, ← b.sends_views, heq]
    cases hidden with
    | name _ hne => exact hne (by rw [← a.sends_chain, ← b.sends_chain, heq])
    | number _ hne => exact hne (by rw [hviews])
    | later i hne => exact hne (by rw [hviews])
  · intro hidden
    have hchain : a.chain = b.chain := by
      by_contra hne
      refine hne (h.chain_eq fun p hp => ?_)
      by_contra hsplit
      exact hidden (.name ⟨p, hp, hsplit⟩ hne)
    have hfirst : a.views[0]? = b.views[0]? := by
      by_contra hne
      refine hidden (.number (fun hfinite => hne ?_) hne)
      have hkeyed := h.first.eq_of_finite hfinite
      by_cases hempty : a.chain = []
      · -- neither plan has a target
        have hnone : ∀ c : Lookup, c.chain = [] → c.views = [] := by
          intro c hc
          unfold Lookup.views
          rw [List.map_eq_nil_iff.1 hc]
          rfl
        rw [hnone a hempty, hnone b (hchain ▸ hempty)]
      · rw [a.views_head hempty, b.views_head (hchain ▸ hempty), hkeyed]
    have hviews : a.views = b.views := by
      refine List.ext_getElem? fun i => ?_
      cases i with
      | zero => exact hfirst
      | succ i =>
        by_contra hne
        exact hidden (.later i hne)
    have hzip : ∀ c : Lookup, c.sends = c.chain.zip c.views := by
      intro c
      exact List.zip_of_prod c.sends_chain c.sends_views
    rw [hzip a, hzip b, hchain, hviews]

/-- A plan whose targets all shape alike. -/
def Lookup.Uniform (a : Lookup) : Prop := ∀ t ∈ a.targets, ∀ t' ∈ a.targets, t.params = t'.params

/-- Each target of such a plan is sent the request of the key. -/
theorem Lookup.Uniform.views_eq (h : a.Uniform) :
    a.views = List.replicate a.chain.length a.keyed.keyView := by
  unfold Lookup.Uniform at h
  unfold Lookup.views Lookup.chain planChain Lookup.keyed
  rw [List.length_map]
  cases htargets : a.targets with
  | nil => rfl
  | cons t targets =>
    rw [htargets] at h
    rw [keyedRequest_cons, List.eq_replicate_iff]
    refine ⟨List.length_map _, fun v hv => ?_⟩
    obtain ⟨t', ht', rfl⟩ := List.mem_map.1 hv
    rw [h t' ht' t List.mem_cons_self]

/-- **Uniform plans hide nothing**, with names that do not contain the separator and finite numbers:
in particular plans with one target, and plans that shape nothing. -/
theorem Lookup.Seen.not_hidden_of_uniform (h : a.Seen b) (ha : a.Uniform) (hb : b.Uniform)
    (hunsplit : ∀ p ∈ a.chain ++ b.chain, Unsplit p) (hfinite : a.keyed.keyView.Finite) :
    ¬a.Hidden b := by
  have hviews : a.views = b.views := by
    rw [ha.views_eq, hb.views_eq, h.chain_eq hunsplit, h.first.eq_of_finite hfinite]
  intro hidden
  cases hidden with
  | name hsplit _ =>
    obtain ⟨p, hp, hno⟩ := hsplit
    exact hno (hunsplit p hp)
  | number hinfinite _ => exact hinfinite hfinite
  | later i hne => exact hne (by rw [hviews])

end

/-- **A hit is for the same plan, for requests of one scope and generation, exactly if the requests
hide nothing when the key sees them alike.** -/
theorem exact_key_iff {toVec : KeyView → List UInt8} (a b : Lookup) (key key' : CacheKey)
    (ha : a.key = some key) (hb : b.key = some key') (hvecA : a.gw.cache.toVec = toVec)
    (hvecB : b.gw.cache.toVec = toVec)
    (hvec : Serialises toVec a.keyed.keyView b.keyed.keyView)
    (hscope : key.tenantId = key'.tenantId ∧ key.namespaceName = key'.namespaceName)
    (hgeneration : a.generation key = b.generation key') :
    (key = key' → a.sends = b.sends) ↔ (a.Seen b → ¬a.Hidden b) := by
  rw [Lookup.key_eq_iff_seen ha hb hvecA hvecB hvec hscope hgeneration]
  exact ⟨fun h hseen => hseen.sends_eq_iff.1 (h hseen),
    fun h hseen => hseen.sends_eq_iff.2 (h hseen)⟩

/-! ## Two fallbacks -/

/-- A cached config that falls back to a model of its own. -/
def fallbackConfig (fallback : String) : RoutingConfig where
  targets :=
    [.leaf { provider := "openai" }, .leaf { provider := "anthropic", params := .pin fallback }]
  cache := some { mode := .simple }
  targets_ne := by simp
  flattened_le := by simp [Node.leaves, maxFlattenedTargets]

/-- The bytes are those of the one request that is asked. -/
def cachingGateway : Gateway where
  site :=
    { app :=
        { providers :=
            [("openai", { name := "openai" }), ("anthropic", { name := "anthropic" })] }
      classify := fun _ => ⟨false, []⟩
      processText := id }
  parsers := ⟨fun e => .error e, fun _ => .error (.notFound "")⟩
  cache :=
    { payloadBudget := fun _ => 1048576
      toVec := fun _ => utf8
        "\x7b\"model\":\"gpt-4o\",\"messages\":[\x7b\"role\":\"user\",\"content\":\"hi\"\x7d]\x7d" }

def cachingCall : ChatCall where
  key := { name := "web", tenantId := some "acme", providerKeys := [("openai", "sk-openai")] }
  routeplaneKey := "rp-web"
  tenant := { tenantId := "acme", capabilities := [.routingPolicy] }

def fallbackLookup (fallback : String) : Lookup where
  gw := cachingGateway
  call := cachingCall
  payload := { model := "gpt-4o", messages := [{ role := "user", content := .text "hi" }] }
  config := some (fallbackConfig fallback)
  metadata := []
  seed := 0

/-- The key both have. -/
def fallbackKey : CacheKey :=
  exactKeyGen cachingGateway.cache.toVec "acme" "default" (fallbackLookup "").payload
    ["openai", "anthropic"] 0

theorem fallbackLookup_key (fallback : String) :
    (fallbackLookup fallback).key = some fallbackKey := by
  have htargets : (fallbackLookup fallback).targets =
      [{ provider := "openai" }, { provider := "anthropic", params := .pin fallback }] := rfl
  have hchain : planChain [{ provider := "openai" },
      { provider := "anthropic", params := .pin fallback }] = ["openai", "anthropic"] := by
    show [normalizedProvider "openai", normalizedProvider "anthropic"] = _
    decide
  have htenant : cacheTenantId cachingGateway.cache cachingCall.key = some "acme" := by decide
  unfold Lookup.key Lookup.plan
  rw [htargets]
  show (match cachePlan cachingGateway.cache cachingCall.key (some { mode := .simple }) false false
      false _ (fallbackLookup "").payload with
    | .active key .. => some key
    | _ => none) = _
  unfold cachePlan
  simp only [htenant, hchain, Bool.or_self, Bool.false_eq_true, if_false]
  rfl

theorem exact_key_iff_fallback :
    (fallbackKey = fallbackKey →
        (fallbackLookup "claude-3-haiku").sends = (fallbackLookup "claude-3-opus").sends) ↔
      ((fallbackLookup "claude-3-haiku").Seen (fallbackLookup "claude-3-opus") →
        ¬(fallbackLookup "claude-3-haiku").Hidden (fallbackLookup "claude-3-opus")) := by
  refine exact_key_iff _ _ _ _ (fallbackLookup_key _) (fallbackLookup_key _) rfl rfl ?_ ⟨rfl, rfl⟩
    rfl
  refine ⟨by decide, by decide, ?_⟩
  exact ⟨fun _ => KeyView.SameWire.refl _, fun _ => rfl⟩

/-- **One key, two plans**: an answer of one fallback model is served for the other. -/
theorem fallback_unseen :
    ¬∀ (a b : Lookup) (key : CacheKey), a.gw = b.gw → a.call = b.call → a.payload = b.payload →
      a.key = some key → b.key = some key → a.sends = b.sends := by
  intro h
  have hsame := h (fallbackLookup "claude-3-haiku") (fallbackLookup "claude-3-opus") fallbackKey rfl
    rfl rfl (fallbackLookup_key _) (fallbackLookup_key _)
  have hmodel := congrArg (fun sends => sends.map fun s => s.2.model) hsame
  exact absurd hmodel (by decide)

end Routeplane
