import Routeplane.Policy.RequestJson

/-!
# What a parameter override may change

Shaping serialises the whole request, edits the object and parses it back. Here that is
followed through every field. The edit names only the ten shapeable fields (`user` is one of
them), so that the others are written and read back, and the round trip returns them as they
were. Shaping twice gives what shaping once gives, but for one thing: a number that is not a
finite `f32` is written as `null`, so that what was present at the first pass is absent at
the second, or the other way round, and a default then answers differently.

* `seen`, `get_edit`: the edited object under each name.
* `eq_of_reparse`: what parsing back can change.
* `applyJson_eq_apply`: the shorter model of shaping says the same.
* `shaping_frame`: the frame, and exactly when shaping is idempotent.
-/

namespace Routeplane.ParamShaping

open ChatCompletionRequest FloatFormats

variable {p : ParamShaping} {req r : ChatCompletionRequest} {obj : Fields}

/-- The three edits of an object: fill, then set, then remove. -/
def edit (p : ParamShaping) (obj : Fields) : Fields :=
  let obj := p.default.foldl (fun obj f => obj.entry f.1 f.2) obj
  let obj := p.overrides.foldl (fun obj f => obj.insert f.1 f.2) obj
  p.drop.foldl (fun obj k => obj.remove k) obj

/-- Shaping through the JSON form of the whole request. -/
def applyJson (p : ParamShaping) (req : ChatCompletionRequest) : ChatCompletionRequest :=
  if p.isNoop then req else (ofJson (p.edit req.toJson)).getD req

/-- The edited request parses, so the shaping takes effect. -/
def takesEffect (p : ParamShaping) (req : ChatCompletionRequest) : Bool :=
  !p.isNoop && (ofJson (p.edit req.toJson)).isSome

/-- What the edited object holds under a name, given what the written one held. -/
def seen (p : ParamShaping) (k : String) (o : Option Value) : Option Value :=
  if k ∈ p.drop then none else (p.overrides.get k).or (o.or (p.default.get k))

/-- **The edited object, name by name.** -/
theorem get_edit (p : ParamShaping) (obj : Fields) (k : String) :
    (p.edit obj).get k = p.seen k (obj.get k) := by
  rw [edit, seen]
  refine (Fields.get_foldl_remove _ _ _).trans ?_
  rw [Fields.get_foldl_insert _ _ _ p.overrides_nodup, Fields.get_foldl_entry]

/-- Under a name that may not be shaped the edited object holds what the written one did. -/
theorem get_edit_of_not_allowed (p : ParamShaping) (obj : Fields) {k : String}
    (hk : k ∉ paramAllowlist) : (p.edit obj).get k = obj.get k := by
  have hdrop : k ∉ p.drop := fun h => hk (p.drop_allowed k h)
  have hset : p.overrides.get k = none :=
    Fields.get_eq_none_iff.2 fun h => hk (p.overrides_allowed k h)
  have hfill : p.default.get k = none :=
    Fields.get_eq_none_iff.2 fun h => hk (p.default_allowed k h)
  rw [get_edit, seen, if_neg hdrop, hset, hfill, Option.none_or, Option.or_none]

/-- **What parsing back can change**: the shapeable fields, and explicit nulls. -/
theorem eq_of_reparse (h : ofJson (p.edit req.toJson) = some r) :
    r = { req.noNulls with
      model := r.model, temperature := r.temperature, topP := r.topP,
      maxTokens := r.maxTokens, maxCompletionTokens := r.maxCompletionTokens, stop := r.stop,
      n := r.n, presencePenalty := r.presencePenalty,
      frequencyPenalty := r.frequencyPenalty, user := r.user } := by
  have hr := ofJson_eq_some.1 h
  have hw := writes_toJson req
  have hkeep : ∀ k, k ∉ paramAllowlist → (p.edit req.toJson).get k = req.toJson.get k :=
    fun k hk => get_edit_of_not_allowed p req.toJson hk
  have hmessages := hr.messages
  have hstream := hr.stream
  have htools := hr.tools
  have htoolChoice := hr.toolChoice
  have hparallel := hr.parallelToolCalls
  have hformat := hr.responseFormat
  have hseed := hr.seed
  have hlogprobs := hr.logprobs
  have htop := hr.topLogprobs
  have hbias := hr.logitBias
  have htier := hr.serviceTier
  have heffort := hr.reasoningEffort
  rw [hkeep _ (by decide), hw.messages, Option.bind_some,
    carries_message.list.read_write] at hmessages
  rw [hkeep _ (by decide), hw.stream, carries_bool.readOption, Option.map_id] at hstream
  rw [hkeep _ (by decide), hw.tools, carries_tool.list.readOption] at htools
  rw [hkeep _ (by decide), hw.toolChoice, readOption_raw] at htoolChoice
  rw [hkeep _ (by decide), hw.parallelToolCalls, carries_bool.readOption,
    Option.map_id] at hparallel
  rw [hkeep _ (by decide), hw.responseFormat, readOption_raw] at hformat
  rw [hkeep _ (by decide), hw.seed] at hseed
  rw [hkeep _ (by decide), hw.logprobs, carries_bool.readOption, Option.map_id] at hlogprobs
  rw [hkeep _ (by decide), hw.topLogprobs, carries_u32.readOption, Option.map_id] at htop
  rw [hkeep _ (by decide), hw.logitBias] at hbias
  rw [hkeep _ (by decide), hw.serviceTier, carries_str.readOption, Option.map_id] at htier
  rw [hkeep _ (by decide), hw.reasoningEffort, carries_str.readOption, Option.map_id] at heffort
  have hseed' := eq_of_readOption (fun _ => Value.noConfusion) (fun _ _ => read_seed) hseed
  have hbias' := eq_of_readOption (fun _ => Value.noConfusion) (fun _ _ => read_bias) hbias
  clear hr h
  obtain ⟨⟩ := r
  simp only [Option.some.injEq] at hmessages hstream htools htoolChoice hparallel hformat
  simp only [Option.some.injEq] at hlogprobs htop htier heffort
  dsimp only at hseed' hbias'
  subst hmessages hstream htools htoolChoice hparallel hformat
  subst hseed' hlogprobs htop hbias' htier heffort
  rfl

/-- **The other fields read back as they were written**, in a request without explicit nulls
whose seed and biases do. -/
theorem readsRest_of_clean (hclean : req.noNulls = req)
    (hkeep : ∀ k, k ∉ paramAllowlist → obj.get k = req.toJson.get k)
    (hseed : readOption readI64 (req.seed.map i64Json) = some req.seed)
    (hbias : readOption (readMap readF32) (req.logitBias.map fun bs =>
      .obj (bs.map fun b => (b.1, f32Json b.2))) = some req.logitBias) :
    ReadsRest obj req := by
  have hw := writes_toJson req
  exact {
    messages := by
      rw [hkeep _ (by decide), hw.messages, Option.bind_some, carries_message.list.read_write]
      exact congrArg (fun q => some q.messages) hclean
    stream := by
      rw [hkeep _ (by decide), hw.stream, carries_bool.readOption, Option.map_id, id]
    tools := by
      rw [hkeep _ (by decide), hw.tools, carries_tool.list.readOption]
      exact congrArg (fun q => some q.tools) hclean
    toolChoice := by
      rw [hkeep _ (by decide), hw.toolChoice, readOption_raw]
      exact congrArg (fun q => some q.toolChoice) hclean
    parallelToolCalls := by
      rw [hkeep _ (by decide), hw.parallelToolCalls, carries_bool.readOption, Option.map_id, id]
    responseFormat := by
      rw [hkeep _ (by decide), hw.responseFormat, readOption_raw]
      exact congrArg (fun q => some q.responseFormat) hclean
    seed := by rw [hkeep _ (by decide), hw.seed, hseed]
    logprobs := by
      rw [hkeep _ (by decide), hw.logprobs, carries_bool.readOption, Option.map_id, id]
    topLogprobs := by
      rw [hkeep _ (by decide), hw.topLogprobs, carries_u32.readOption, Option.map_id, id]
    logitBias := by rw [hkeep _ (by decide), hw.logitBias, hbias]
    serviceTier := by
      rw [hkeep _ (by decide), hw.serviceTier, carries_str.readOption, Option.map_id, id]
    reasoningEffort := by
      rw [hkeep _ (by decide), hw.reasoningEffort, carries_str.readOption, Option.map_id, id] }

/-! ## Shaping twice -/

section Twice

variable {α : Type}

/-- The request's own value, or else what the default reads as, is one that is kept. -/
def Lasting (read : Value → Option α) (kept : α → Prop) (fill : Value) : Option α → Prop
  | some a => kept a
  | none => ∀ a, read fill = some a → kept a

/-- A field that is only filled does not switch between a value that is written and one that is
lost. -/
def Steady (p : ParamShaping) (k : String) (read : Value → Option α) (kept : α → Prop)
    (x : Option α) : Prop :=
  k ∉ p.drop → p.overrides.get k = none → ∀ v, p.default.get k = some v → v ≠ .null →
    Lasting read kept v x

/-- A value is written and reads back, or it is lost. -/
structure KeptOrLost (write : α → Value) (read : Value → Option α) (kept : α → Prop) : Prop where
  read_write : ∀ a, kept a → write a ≠ .null ∧ read (write a) = some a
  write_lost : ∀ a, ¬kept a → write a = .null

theorem keptOrLost_f32 : KeptOrLost f32Json readF32 fun f => f.isFinite = true where
  read_write f hf := by
    rw [f32Json, if_pos hf]
    refine ⟨Value.noConfusion, ?_⟩
    rw [readF32, narrow_widen hf]
  write_lost f hf := by rw [f32Json, if_neg hf]

/-- **A second pass reads a field as the first did iff the field is steady.** -/
theorem seen_again {write : α → Value} {read : Value → Option α} {kept : α → Prop}
    (hk : KeptOrLost write read kept) {k : String} {x y : Option α}
    (h : readOption read (p.seen k (x.map write)) = some y) :
    readOption read (p.seen k (y.map write)) = some y ↔ p.Steady k read kept x := by
  unfold seen at h ⊢
  by_cases hdrop : k ∈ p.drop
  · rw [if_pos hdrop] at h ⊢
    exact iff_of_true h fun hnot => absurd hdrop hnot
  rw [if_neg hdrop] at h ⊢
  cases hset : p.overrides.get k with
  | some w =>
    rw [hset, Option.some_or] at h
    rw [Option.some_or]
    refine iff_of_true h fun _ hnone => ?_
    rw [hset] at hnone
    cases hnone
  | none =>
    rw [hset, Option.none_or] at h
    rw [Option.none_or]
    -- nothing but the request and the default decides the field
    have hsteady : p.Steady k read kept x ↔
        ∀ v, p.default.get k = some v → v ≠ .null → Lasting read kept v x :=
      ⟨fun hs => hs hdrop hset, fun hs _ _ => hs⟩
    rw [hsteady]
    cases x with
    | some a =>
      by_cases hkept : kept a
      · obtain ⟨hne, hread⟩ := hk.read_write a hkept
        rw [Option.map_some, Option.some_or, readOption_of_ne_null hne, hread] at h
        obtain rfl := Option.some.inj h
        refine iff_of_true ?_ fun _ _ _ => hkept
        rw [Option.map_some, Option.some_or, readOption_of_ne_null hne, hread]
        rfl
      · rw [Option.map_some, Option.some_or, hk.write_lost a hkept] at h
        obtain rfl := Option.some.inj h
        rw [Option.map_none, Option.none_or]
        constructor
        · intro hagain v hv hne
          rw [hv, readOption_of_ne_null hne] at hagain
          obtain ⟨_, _, hsome⟩ := Option.map_eq_some_iff.1 hagain
          cases hsome
        · intro hs
          cases hfill : p.default.get k with
          | none => rfl
          | some v =>
            by_cases hnull : v = .null
            · rw [hnull]
              rfl
            · exact absurd (hs v hfill hnull) hkept
    | none =>
      rw [Option.map_none, Option.none_or] at h
      cases y with
      | none =>
        refine iff_of_true h fun v hv hne => ?_
        rw [hv, readOption_of_ne_null hne] at h
        obtain ⟨_, _, hsome⟩ := Option.map_eq_some_iff.1 h
        cases hsome
      | some a =>
        obtain ⟨v, hv, hne, hread⟩ : ∃ v, p.default.get k = some v ∧ v ≠ .null ∧
            read v = some a := by
          cases hfill : p.default.get k with
          | none =>
            rw [hfill] at h
            cases h
          | some v =>
            by_cases hnull : v = .null
            · rw [hfill, hnull] at h
              cases h
            · rw [hfill, readOption_of_ne_null hnull] at h
              obtain ⟨b, hb, hsome⟩ := Option.map_eq_some_iff.1 h
              exact ⟨v, rfl, hnull, by rw [hb, Option.some.inj hsome]⟩
        rw [Option.map_some, Option.some_or]
        constructor
        · intro hagain w hw _ b hb
          rw [hv] at hw
          obtain rfl := Option.some.inj hw
          rw [hread] at hb
          obtain rfl := Option.some.inj hb
          by_contra hlost
          rw [hk.write_lost a hlost] at hagain
          cases hagain
        · intro hs
          obtain ⟨hne', hback⟩ := hk.read_write a (hs v hv hne a hread)
          rw [readOption_of_ne_null hne', hback]
          rfl

/-- The same of the edited objects. -/
theorem edit_again {write : α → Value} {read : Value → Option α} {kept : α → Prop}
    (hk : KeptOrLost write read kept) {k : String} {x y : Option α} {obj obj' : Fields}
    (hx : obj.get k = x.map write) (hy : obj'.get k = y.map write)
    (h : readOption read ((p.edit obj).get k) = some y) :
    readOption read ((p.edit obj').get k) = some y ↔ p.Steady k read kept x := by
  rw [get_edit, hx] at h
  rw [get_edit, hy]
  exact seen_again hk h

/-- A field of which nothing is lost reads the same again. -/
theorem edit_again_of_carries {write : α → Value} {read : Value → Option α}
    (hc : Carries write read id) {k : String} {x y : Option α} {obj obj' : Fields}
    (hx : obj.get k = x.map write) (hy : obj'.get k = y.map write)
    (h : readOption read ((p.edit obj).get k) = some y) :
    readOption read ((p.edit obj').get k) = some y := by
  have hkept : KeptOrLost write read fun _ => True :=
    ⟨fun a _ => ⟨hc.ne_null a, hc.read_write a⟩, fun _ hlost => absurd trivial hlost⟩
  refine (edit_again hkept hx hy h).2 fun _ _ v _ _ => ?_
  cases x with
  | some a => trivial
  | none => exact fun _ _ => trivial

end Twice

/-- The numbers that are only filled stay finite: what the request brings, or else what the
default reads as. -/
def Settled (p : ParamShaping) (req : ChatCompletionRequest) : Prop :=
  p.Steady "temperature" readF32 (fun f => f.isFinite = true) req.temperature ∧
  p.Steady "top_p" readF32 (fun f => f.isFinite = true) req.topP ∧
  p.Steady "presence_penalty" readF32 (fun f => f.isFinite = true) req.presencePenalty ∧
  p.Steady "frequency_penalty" readF32 (fun f => f.isFinite = true) req.frequencyPenalty

/-- A model that was read is read again: set, or the request's own. -/
theorem model_again {obj obj' : Fields} (hw : Writes req obj) (hw' : Writes r obj')
    (h : ((p.edit obj).get "model").bind Value.asStr = some r.model) :
    ((p.edit obj').get "model").bind Value.asStr = some r.model := by
  rw [get_edit, hw.model, seen] at h
  rw [get_edit, hw'.model, seen]
  split at h
  · cases h
  · rename_i hdrop
    rw [if_neg hdrop]
    cases hset : p.overrides.get "model" with
    | some v =>
      rw [hset] at h
      exact h
    | none => rfl

/-- **What a first pass gave, a second one gives iff the numbers are settled.** -/
theorem reparse_again (h : ofJson (p.edit req.toJson) = some r) :
    ofJson (p.edit r.toJson) = some r ↔ p.Settled req := by
  have hclean := ofJson_noNulls h
  have hframe := eq_of_reparse h
  have hr := ofJson_eq_some.1 h
  have hw := writes_toJson req
  have hw' := writes_toJson r
  have hkeep : ∀ k, k ∉ paramAllowlist → (p.edit r.toJson).get k = r.toJson.get k :=
    fun k hk => get_edit_of_not_allowed p r.toJson hk
  have htemperature := edit_again keptOrLost_f32 hw.temperature hw'.temperature hr.temperature
  have htopP := edit_again keptOrLost_f32 hw.topP hw'.topP hr.topP
  have hpresence :=
    edit_again keptOrLost_f32 hw.presencePenalty hw'.presencePenalty hr.presencePenalty
  have hfrequency :=
    edit_again keptOrLost_f32 hw.frequencyPenalty hw'.frequencyPenalty hr.frequencyPenalty
  rw [ofJson_eq_some]
  constructor
  · intro hagain
    exact ⟨htemperature.1 hagain.temperature, htopP.1 hagain.topP,
      hpresence.1 hagain.presencePenalty, hfrequency.1 hagain.frequencyPenalty⟩
  · rintro ⟨hsteady, hsteadyP, hsteadyPresence, hsteadyFrequency⟩
    have hsameSeed : r.seed = req.seed := congrArg (fun q => q.seed) hframe
    have hsameBias : r.logitBias = req.logitBias := congrArg (fun q => q.logitBias) hframe
    refine ⟨?_, readsRest_of_clean hclean hkeep ?_ ?_⟩
    · exact {
        model := model_again hw hw' hr.model
        temperature := htemperature.2 hsteady
        topP := htopP.2 hsteadyP
        maxTokens := edit_again_of_carries carries_u32 hw.maxTokens hw'.maxTokens hr.maxTokens
        maxCompletionTokens := edit_again_of_carries carries_u32 hw.maxCompletionTokens
          hw'.maxCompletionTokens hr.maxCompletionTokens
        stop := edit_again_of_carries carries_stop hw.stop hw'.stop hr.stop
        n := edit_again_of_carries carries_u32 hw.n hw'.n hr.n
        presencePenalty := hpresence.2 hsteadyPresence
        frequencyPenalty := hfrequency.2 hsteadyFrequency
        user := edit_again_of_carries carries_str hw.user hw'.user hr.user }
    · rw [hsameSeed, ← hw.seed, ← get_edit_of_not_allowed p req.toJson (by decide), hr.seed,
        hsameSeed]
    · rw [hsameBias, ← hw.logitBias, ← get_edit_of_not_allowed p req.toJson (by decide),
        hr.logitBias, hsameBias]

theorem applyJson_of_takesEffect (h : p.takesEffect req = true) :
    ofJson (p.edit req.toJson) = some (p.applyJson req) := by
  rw [takesEffect, Bool.and_eq_true, Bool.not_eq_true'] at h
  obtain ⟨r, hr⟩ := Option.isSome_iff_exists.1 h.2
  rw [applyJson, h.1, hr]
  rfl

theorem applyJson_of_no_effect (h : p.takesEffect req = false) : p.applyJson req = req := by
  rw [applyJson]
  split
  · rfl
  · rename_i hnoop
    rw [Bool.not_eq_true] at hnoop
    rw [takesEffect, hnoop, Bool.not_false, Bool.true_and, Option.isSome_eq_false_iff,
      Option.isNone_iff_eq_none] at h
    rw [h, Option.getD_none]

/-- **Shaping twice is shaping once, exactly when the numbers are settled** or one of the two
passes does not take effect. -/
theorem applyJson_applyJson (p : ParamShaping) (req : ChatCompletionRequest) :
    p.applyJson (p.applyJson req) = p.applyJson req ↔
      (p.takesEffect req = true → p.takesEffect (p.applyJson req) = true → p.Settled req) := by
  cases hfirst : p.takesEffect req with
  | false =>
    have hsame := applyJson_of_no_effect hfirst
    exact iff_of_true (by rw [hsame, hsame]) fun hfalse => absurd hfalse Bool.false_ne_true
  | true =>
    have hr := applyJson_of_takesEffect hfirst
    cases hsecond : p.takesEffect (p.applyJson req) with
    | false =>
      exact iff_of_true (applyJson_of_no_effect hsecond)
        fun _ hfalse => absurd hfalse Bool.false_ne_true
    | true =>
      have hr' := applyJson_of_takesEffect hsecond
      have hagain := reparse_again hr
      rw [hr'] at hagain
      constructor
      · intro heq _ _
        exact hagain.1 (congrArg some heq)
      · intro hsettled
        exact Option.some.inj (hagain.2 (hsettled rfl rfl))

/-- **What shaping leaves alone.** -/
theorem applyJson_frame (p : ParamShaping) (req : ChatCompletionRequest) :
    p.applyJson req = { (if p.takesEffect req then req.noNulls else req) with
      model := (p.applyJson req).model, temperature := (p.applyJson req).temperature,
      topP := (p.applyJson req).topP, maxTokens := (p.applyJson req).maxTokens,
      maxCompletionTokens := (p.applyJson req).maxCompletionTokens,
      stop := (p.applyJson req).stop, n := (p.applyJson req).n,
      presencePenalty := (p.applyJson req).presencePenalty,
      frequencyPenalty := (p.applyJson req).frequencyPenalty,
      user := (p.applyJson req).user } := by
  cases heffect : p.takesEffect req with
  | true => exact eq_of_reparse (applyJson_of_takesEffect heffect)
  | false => rw [applyJson_of_no_effect heffect]; rfl

/-! ## The shorter model

`ParamShaping.apply` serialises the shapeable fields only and takes the rest as read. Where the
conversions between floats are those of the standard, that is what the whole round trip gives. -/

section Shorter

theorem get_append (fs gs : Fields) (k : String) :
    Fields.get (fs ++ gs) k = (fs.get k).or (gs.get k) := by
  unfold Fields.get
  rw [List.find?_append]
  cases fs.find? fun f => f.1 == k <;> rfl

theorem get_optField (k k' : String) (o : Option Value) :
    Fields.get (optField k' o) k = if k' = k then o else none := by
  cases o with
  | none => exact (ite_self none).symm
  | some v => exact Fields.get_cons k k' v []

variable (hwiden : ∀ f : Float32, f.toFloat = widen f)
  (hnarrow : ∀ d : Float, d.toFloat32 = narrow d)

include hwiden

theorem f32Value_eq : f32Value = f32Json := by
  funext f
  rw [f32Value, f32Json, hwiden]

/-- The shapeable fields are written alike. -/
theorem get_toValue (req : ChatCompletionRequest) :
    ∀ k ∈ paramAllowlist, req.toValue.get k = req.toJson.get k := by
  have hf32 := f32Value_eq hwiden
  have hu32 : u32Json = fun n => .num (.int n.toNat) := rfl
  simp only [paramAllowlist, List.forall_mem_cons, List.not_mem_nil, false_imp_iff, implies_true,
    and_true]
  refine ⟨?_, ?_, ?_, ?_, ?_, ?_, ?_, ?_, ?_, ?_⟩ <;>
    simp [ChatCompletionRequest.toValue, toJson, get_append, get_optField, hf32, hu32]

theorem get_shaped (p : ParamShaping) (req : ChatCompletionRequest) :
    ∀ k ∈ paramAllowlist, (p.shapedObject req).get k = (p.edit req.toJson).get k := by
  intro k hk
  have hsame : p.shapedObject req = p.edit req.toValue := rfl
  rw [hsame, get_edit, get_edit, get_toValue hwiden req k hk]

omit hwiden in
theorem readMap_bias {bs : List (String × Float32)} (h : bs.all (fun b => b.2.isFinite) = true) :
    readMap readF32 (.obj (bs.map fun b => (b.1, f32Json b.2))) = some bs := by
  change (bs.map _).mapM _ = some bs
  induction bs with
  | nil => rfl
  | cons b bs ih =>
    rw [List.all_cons, Bool.and_eq_true] at h
    obtain ⟨_, hread⟩ := keptOrLost_f32.read_write b.2 h.1
    rw [List.map_cons, List.mapM_cons, ih h.2, hread]
    rfl

omit hwiden in
theorem all_finite_of_readMap {bs bs' : List (String × Float32)}
    (h : readMap readF32 (.obj (bs.map fun b => (b.1, f32Json b.2))) = some bs') :
    bs.all (fun b => b.2.isFinite) = true := by
  change (bs.map _).mapM _ = some bs' at h
  induction bs generalizing bs' with
  | nil => rfl
  | cons b bs ih =>
    rw [List.map_cons, List.mapM_cons] at h
    obtain ⟨b', hb, h⟩ := Option.bind_eq_some_iff.1 h
    obtain ⟨bs'', hbs, _⟩ := Option.bind_eq_some_iff.1 h
    obtain ⟨f, hf, _⟩ := Option.map_eq_some_iff.1 hb
    rw [List.all_cons, ih hbs, Bool.and_true]
    by_contra hlost
    dsimp only at hf
    rw [keptOrLost_f32.write_lost b.2 hlost] at hf
    cases hf

omit hwiden in
theorem readOption_seed {seed : Option ℤ} (hseed : ∀ i ∈ seed, -2 ^ 63 ≤ i ∧ i < 2 ^ 63) :
    readOption readI64 (seed.map i64Json) = some seed := by
  cases hs : seed with
  | none => rfl
  | some i =>
    rw [Option.map_some, readOption_of_ne_null Value.noConfusion, i64Json, readI64,
      if_pos (hseed i hs)]
    rfl

omit hwiden in
/-- A bias with finite weights is read back, -/
theorem readOption_bias {req : ChatCompletionRequest} (hfinite : req.finiteBias = true) :
    readOption (readMap readF32) (req.logitBias.map fun bs =>
      .obj (bs.map fun b => (b.1, f32Json b.2))) = some req.logitBias := by
  cases hb : req.logitBias with
  | none => rfl
  | some bs =>
    rw [ChatCompletionRequest.finiteBias, hb, Option.getD_some] at hfinite
    rw [Option.map_some, readOption_of_ne_null Value.noConfusion, readMap_bias hfinite]
    rfl

omit hwiden in
/-- and what is read has finite weights. -/
theorem finiteBias_of_reads {req : ChatCompletionRequest} {read : Option _}
    (h : readOption (readMap readF32) (req.logitBias.map fun bs =>
      .obj (bs.map fun b => (b.1, f32Json b.2))) = some read) : req.finiteBias = true := by
  unfold ChatCompletionRequest.finiteBias
  cases hb : req.logitBias with
  | none => rfl
  | some bs =>
    rw [hb, Option.map_some, readOption_of_ne_null Value.noConfusion] at h
    obtain ⟨bs', hread, _⟩ := Option.map_eq_some_iff.1 h
    exact all_finite_of_readMap hread

include hnarrow

/-- **The shorter model says the same**, of a request as read from the wire. -/
theorem applyJson_eq_apply (p : ParamShaping) {req : ChatCompletionRequest}
    (hclean : req.noNulls = req) (hseed : ∀ i ∈ req.seed, -2 ^ 63 ≤ i ∧ i < 2 ^ 63) :
    p.applyJson req = p.apply req := by
  have hw := writes_toJson req
  have hget := get_shaped hwiden p req
  have hf32 : Value.asF32 = readF32 := by
    funext v
    cases v with
    | num n =>
      cases n with
      | int i => rfl
      | float d => rw [Value.asF32, readF32, hnarrow]
    | null | bool _ | str _ | arr _ | obj _ => rfl
  suffices hsame : ofJson (p.edit req.toJson) = p.reparse req by
    rw [applyJson, apply, hsame]
  have hkeep : ∀ k, k ∉ paramAllowlist → (p.edit req.toJson).get k = req.toJson.get k :=
    fun k hk => get_edit_of_not_allowed p req.toJson hk
  refine Option.ext fun r => ?_
  -- the shorter model reads the fields of the allow-list and takes the others from the request
  rw [ofJson_eq_some, reparse, ChatCompletionRequest.ofValue, hf32, hget _ (by decide),
    hget _ (by decide), hget _ (by decide), hget _ (by decide), hget _ (by decide),
    hget _ (by decide), hget _ (by decide), hget _ (by decide), hget _ (by decide),
    hget _ (by decide)]
  simp only [Option.bind_eq_bind]
  constructor
  · intro hr
    have hframe := eq_of_reparse (ofJson_eq_some.2 hr)
    have hfinite : req.finiteBias = true := by
      have hbias := hr.logitBias
      rw [hkeep _ (by decide), hw.logitBias] at hbias
      exact finiteBias_of_reads hbias
    rw [hr.model, hr.temperature, hr.topP, hr.maxTokens, hr.maxCompletionTokens, hr.stop, hr.n,
      hr.presencePenalty, hr.frequencyPenalty, hr.user]
    simp only [Option.bind_some, hfinite, if_true]
    rw [hclean] at hframe
    rw [← hframe]
  · intro h
    obtain ⟨model, hmodel, h⟩ := Option.bind_eq_some_iff.1 h
    obtain ⟨temperature, htemperature, h⟩ := Option.bind_eq_some_iff.1 h
    obtain ⟨topP, htopP, h⟩ := Option.bind_eq_some_iff.1 h
    obtain ⟨maxTokens, hmaxTokens, h⟩ := Option.bind_eq_some_iff.1 h
    obtain ⟨maxCompletion, hmaxCompletion, h⟩ := Option.bind_eq_some_iff.1 h
    obtain ⟨stop, hstop, h⟩ := Option.bind_eq_some_iff.1 h
    obtain ⟨n, hn, h⟩ := Option.bind_eq_some_iff.1 h
    obtain ⟨presence, hpresence, h⟩ := Option.bind_eq_some_iff.1 h
    obtain ⟨frequency, hfrequency, h⟩ := Option.bind_eq_some_iff.1 h
    obtain ⟨user, huser, h⟩ := Option.bind_eq_some_iff.1 h
    split at h
    · rename_i hfinite
      have hrest : ReadsRest (p.edit req.toJson) req :=
        readsRest_of_clean hclean hkeep (readOption_seed hseed) (readOption_bias hfinite)
      obtain rfl := Option.some.inj h
      exact ⟨⟨hmodel, htemperature, htopP, hmaxTokens, hmaxCompletion, hstop, hn, hpresence,
        hfrequency, huser⟩, ⟨hrest.messages, hrest.stream, hrest.tools, hrest.toolChoice,
          hrest.parallelToolCalls, hrest.responseFormat, hrest.seed, hrest.logprobs,
          hrest.topLogprobs, hrest.logitBias, hrest.serviceTier, hrest.reasoningEffort⟩⟩
    · cases h

end Shorter

/-! ## The law -/

/-- **A parameter override changes only what it may.** Every field outside the allow-list is as
it was, up to explicit nulls, of which a request read from the wire has none; and shaping twice
gives what shaping once gives unless a number that is only filled is not finite. -/
theorem shaping_frame (p : ParamShaping) (req : ChatCompletionRequest) :
    (p.applyJson req = { (if p.takesEffect req then req.noNulls else req) with
      model := (p.applyJson req).model, temperature := (p.applyJson req).temperature,
      topP := (p.applyJson req).topP, maxTokens := (p.applyJson req).maxTokens,
      maxCompletionTokens := (p.applyJson req).maxCompletionTokens,
      stop := (p.applyJson req).stop, n := (p.applyJson req).n,
      presencePenalty := (p.applyJson req).presencePenalty,
      frequencyPenalty := (p.applyJson req).frequencyPenalty,
      user := (p.applyJson req).user }) ∧
    (∀ obj, ofJson obj = some req → req.noNulls = req) ∧
    (p.applyJson (p.applyJson req) = p.applyJson req ↔
      (p.takesEffect req = true → p.takesEffect (p.applyJson req) = true → p.Settled req)) :=
  ⟨applyJson_frame p req, fun _ hread => ofJson_noNulls hread, applyJson_applyJson p req⟩

/-- A shaping that fills the temperature and nothing else. -/
def fillTemperature (v : Value) : ParamShaping where
  default := [("temperature", v)]
  overrides := []
  drop := []
  default_allowed := by simp [Fields.keys, paramAllowlist]
  overrides_allowed := noop.overrides_allowed
  drop_allowed := noop.drop_allowed
  overrides_nodup := noop.overrides_nodup
  drop_not_override := noop.drop_not_override

/-- A shaping that sets the user and nothing else. -/
def setUser (user : String) : ParamShaping where
  default := []
  overrides := [("user", .str user)]
  drop := []
  default_allowed := noop.default_allowed
  overrides_allowed := by simp [Fields.keys, paramAllowlist]
  drop_allowed := noop.drop_allowed
  overrides_nodup := by simp [Fields.keys]
  drop_not_override := by simp

/-- A request of one message. -/
def greeting : ChatCompletionRequest where
  model := "gpt-4o"
  messages := [{ role := "user", content := .text "hi" }]

/-- A default of one half is filled once and for all, and the message stays. -/
theorem half_filled_once :
    let p := fillTemperature (.num (.float 0.5))
    (p.applyJson greeting).messages = greeting.messages ∧
      p.applyJson (p.applyJson greeting) = p.applyJson greeting := by
  obtain ⟨hframe, hclean, htwice⟩ :=
    shaping_frame (fillTemperature (.num (.float 0.5))) greeting
  have hread : ofJson greeting.toJson = some greeting :=
    ofJson_eq_some.2 ⟨by constructor <;> rfl, by constructor <;> rfl⟩
  have hfinite : (narrow 0.5).isFinite = true := by decide
  refine ⟨?_, htwice.2 fun _ _ => ?_⟩
  · have hmessages := congrArg (fun q => q.messages) hframe
    rw [hclean _ hread, ite_self] at hmessages
    exact hmessages
  · refine ⟨?_, ?_, ?_, ?_⟩
    · intro _ _ v hv _ f hf
      have heq : v = .num (.float 0.5) := by simpa [fillTemperature] using hv.symm
      rw [heq, readF32] at hf
      rw [← Option.some.inj hf]
      exact hfinite
    · intro _ _ v hv
      simp [fillTemperature] at hv
    · intro _ _ v hv
      simp [fillTemperature] at hv
    · intro _ _ v hv
      simp [fillTemperature] at hv

/-- The user of a request is shaped like the nine other fields, and a default too large for
an `f32` is filled by one pass and lost by the next. -/
theorem shaping_exceptions :
    (¬∀ (p : ParamShaping) (req : ChatCompletionRequest), (p.applyJson req).user = req.user) ∧
    ¬∀ (p : ParamShaping) (req : ChatCompletionRequest),
      p.applyJson (p.applyJson req) = p.applyJson req := by
  constructor
  · intro hall
    have huser := hall (setUser "team-a") greeting
    have hset : ((setUser "team-a").applyJson greeting).user = some "team-a" := by decide
    rw [hset] at huser
    cases huser
  · intro hall
    have htwice := hall (fillTemperature (.num (.float 1e39))) greeting
    have hsame := congrArg (fun q => q.temperature.isSome) htwice
    exact absurd hsame (by decide +kernel)

end Routeplane.ParamShaping
