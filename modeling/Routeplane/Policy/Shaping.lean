import Routeplane.Types.Chat
import Mathlib.Data.List.Nodup

/-!
# Param shaping

A routing target may rewrite the request it is sent: fill absent fields (`default`),
set fields (`override`) and remove fields (`drop`). The rewrite goes through JSON: the
request is serialised, the object edited, the object parsed back; when it no longer
parses, the request goes out as it came.

* `ParamShaping`: the loaded shaping, with the loader's checks as fields.
* `apply_messages`, `apply_stream`: shaping never touches what is said or how it is sent.
* `apply_model`: the model sent is the pinned one, or the request's when nothing applies.
-/

namespace Routeplane

/-- The request fields a routing config may shape. -/
def paramAllowlist : List String :=
  ["model", "temperature", "max_tokens", "max_completion_tokens", "top_p", "stop", "n",
    "presence_penalty", "frequency_penalty", "user"]

structure ParamShaping where
  default : Fields
  overrides : Fields
  drop : List String
  default_allowed : ∀ k ∈ default.keys, k ∈ paramAllowlist
  overrides_allowed : ∀ k ∈ overrides.keys, k ∈ paramAllowlist
  drop_allowed : ∀ k ∈ drop, k ∈ paramAllowlist
  overrides_nodup : overrides.keys.Nodup
  drop_not_override : ∀ k ∈ drop, k ∉ overrides.keys

/-- The shaping of a target without `params`. -/
def ParamShaping.noop : ParamShaping where
  default := []
  overrides := []
  drop := []
  default_allowed := by simp [Fields.keys]
  overrides_allowed := by simp [Fields.keys]
  drop_allowed := by simp
  overrides_nodup := by simp [Fields.keys]
  drop_not_override := by simp

instance : Inhabited ParamShaping := ⟨.noop⟩

/-- The shaping that sets the model and nothing else. -/
def ParamShaping.pin (model : String) : ParamShaping where
  default := []
  overrides := [("model", .str model)]
  drop := []
  default_allowed := by simp [Fields.keys]
  overrides_allowed := by simp [Fields.keys, paramAllowlist]
  drop_allowed := by simp
  overrides_nodup := by simp [Fields.keys]
  drop_not_override := by simp

/-- An optional field of the wire form: omitted when absent. -/
def optField (k : String) : Option Value → Fields
  | some v => [(k, v)]
  | none => []

/-- The shapeable fields of the serialised request. -/
def ChatCompletionRequest.toValue (req : ChatCompletionRequest) : Fields :=
  ("model", .str req.model) ::
    (optField "temperature" (req.temperature.map f32Value) ++
      optField "top_p" (req.topP.map f32Value) ++
      optField "max_tokens" (req.maxTokens.map fun n => .num (.int n.toNat)) ++
      optField "max_completion_tokens" (req.maxCompletionTokens.map fun n => .num (.int n.toNat)) ++
      optField "stop" (req.stop.map fun ss => .arr (ss.map .str)) ++
      optField "n" (req.n.map fun n => .num (.int n.toNat)) ++
      optField "presence_penalty" (req.presencePenalty.map f32Value) ++
      optField "frequency_penalty" (req.frequencyPenalty.map f32Value) ++
      optField "user" (req.user.map .str))

/-- An optional field read back: absent and `null` are both `None`. -/
def readOption {α : Type} (f : Value → Option α) : Option Value → Option (Option α)
  | none => some none
  | some .null => some none
  | some v => (f v).map some

/-- `stop` accepts a bare string or a list of strings. -/
def readStop : Value → Option (List String)
  | .str s => some [s]
  | v => v.asStrings

/-- Every bias is a finite number. -/
def ChatCompletionRequest.finiteBias (req : ChatCompletionRequest) : Bool :=
  (req.logitBias.getD []).all fun b => b.2.isFinite

/-- Parse the request back. The fields shaping cannot name come back as they were, but a
non-finite bias was written as `null`, which is no number. -/
def ChatCompletionRequest.ofValue (req : ChatCompletionRequest) (obj : Fields) :
    Option ChatCompletionRequest := do
  let model ← (obj.get "model").bind Value.asStr
  let temperature ← readOption Value.asF32 (obj.get "temperature")
  let topP ← readOption Value.asF32 (obj.get "top_p")
  let maxTokens ← readOption Value.asU32 (obj.get "max_tokens")
  let maxCompletionTokens ← readOption Value.asU32 (obj.get "max_completion_tokens")
  let stop ← readOption readStop (obj.get "stop")
  let n ← readOption Value.asU32 (obj.get "n")
  let presencePenalty ← readOption Value.asF32 (obj.get "presence_penalty")
  let frequencyPenalty ← readOption Value.asF32 (obj.get "frequency_penalty")
  let user ← readOption Value.asStr (obj.get "user")
  if req.finiteBias then
    some { req with
      model, temperature, topP, maxTokens, maxCompletionTokens, stop, n, presencePenalty,
      frequencyPenalty, user }
  else none

namespace ParamShaping

def isNoop (p : ParamShaping) : Bool :=
  p.default.isEmpty && p.overrides.isEmpty && p.drop.isEmpty

/-- The edited object: fill, then set, then remove. -/
def shapedObject (p : ParamShaping) (req : ChatCompletionRequest) : Fields :=
  let obj := p.default.foldl (fun obj f => obj.entry f.1 f.2) req.toValue
  let obj := p.overrides.foldl (fun obj f => obj.insert f.1 f.2) obj
  p.drop.foldl (fun obj k => obj.remove k) obj

/-- The request the shaping parses back to, if it does. -/
def reparse (p : ParamShaping) (req : ChatCompletionRequest) : Option ChatCompletionRequest :=
  req.ofValue (p.shapedObject req)

def apply (p : ParamShaping) (req : ChatCompletionRequest) : ChatCompletionRequest :=
  if p.isNoop then req else (p.reparse req).getD req

/-- The concrete model the shaping pins. Only an override counts: a request always names a
model, so a `default.model` never applies. -/
def pinnedModel (p : ParamShaping) : Option String := (p.overrides.get "model").bind Value.asStr

/-- The edited request parses, so the shaping takes effect. -/
def applies (p : ParamShaping) (req : ChatCompletionRequest) : Bool :=
  !p.isNoop && (p.reparse req).isSome

end ParamShaping

namespace Fields

theorem get_foldl_entry (k : String) (ds : Fields) : ∀ obj : Fields,
    get (ds.foldl (fun obj f => entry obj f.1 f.2) obj) k = (get obj k).or (get ds k) := by
  induction ds with
  | nil => exact fun _ => Option.or_none.symm
  | cons d ds ih =>
    intro obj
    rw [List.foldl_cons, ih]
    have hcons : get (d :: ds) k = if d.1 = k then some d.2 else get ds k := get_cons _ _ _ _
    rw [hcons]
    by_cases hd : d.1 = k
    · subst hd
      rw [if_pos rfl, entry]
      cases hobj : get obj d.1 with
      | none =>
        rw [Option.isSome_none, if_neg Bool.false_ne_true, get_insert_self]
        rfl
      | some v =>
        rw [Option.isSome_some, if_pos rfl, hobj]
        rfl
    · have hne : k ≠ d.1 := fun heq => hd heq.symm
      have hentry : get (entry obj d.1 d.2) k = get obj k := by
        unfold entry
        split
        · rfl
        · exact get_insert_ne _ hne _
      rw [if_neg hd, hentry]

theorem get_foldl_insert (k : String) (ovs : Fields) :
    ∀ obj : Fields, (keys ovs).Nodup →
      get (ovs.foldl (fun obj f => insert obj f.1 f.2) obj) k = (get ovs k).or (get obj k) := by
  induction ovs with
  | nil => intro obj _; rfl
  | cons o ovs ih =>
    intro obj hnd
    obtain ⟨ko, vo⟩ := o
    simp only [keys, List.map_cons, List.nodup_cons] at hnd
    rw [List.foldl_cons, ih _ hnd.2, get_cons]
    by_cases h : ko = k
    · subst h
      have hnone : get ovs ko = none := by
        simp only [get, Option.map_eq_none_iff, List.find?_eq_none, beq_iff_eq]
        intro f hf hfk
        exact hnd.1 (List.mem_map.2 ⟨f, hf, hfk⟩)
      rw [hnone, get_insert_self, if_pos rfl]
      rfl
    · rw [get_insert_ne _ (fun e => h e.symm), if_neg h]

theorem get_foldl_remove (k : String) (ds : List String) :
    ∀ obj : Fields, get (ds.foldl remove obj) k = if k ∈ ds then none else get obj k := by
  induction ds with
  | nil => intro obj; simp
  | cons d ds ih =>
    intro obj
    rw [List.foldl_cons, ih]
    by_cases h : k = d
    · subst h; simp [get_remove_self]
    · simp [get_remove_ne obj h, h]

end Fields

namespace ParamShaping

variable {p : ParamShaping} {req r : ChatCompletionRequest}

theorem apply_of_applies (h : p.applies req = true) :
    ∃ r, p.reparse req = some r ∧ p.apply req = r := by
  simp only [applies, Bool.and_eq_true, Bool.not_eq_true', Option.isSome_iff_exists] at h
  obtain ⟨hn, r, hr⟩ := h
  exact ⟨r, hr, by simp [apply, hn, hr]⟩

theorem apply_of_not_applies (h : p.applies req = false) : p.apply req = req := by
  rw [apply]
  split
  · rfl
  · rename_i hn
    simp only [applies, Bool.not_eq_true] at h hn
    rw [hn] at h
    cases hr : p.reparse req with
    | none => rfl
    | some r => rw [hr] at h; simp at h

/-- What parsing back can change. -/
theorem ofValue_eq {obj : Fields} (h : req.ofValue obj = some r) :
    (obj.get "model").bind Value.asStr = some r.model ∧ req.finiteBias = true ∧
      r = { req with
        model := r.model, temperature := r.temperature, topP := r.topP,
        maxTokens := r.maxTokens, maxCompletionTokens := r.maxCompletionTokens, stop := r.stop,
        n := r.n, presencePenalty := r.presencePenalty,
        frequencyPenalty := r.frequencyPenalty, user := r.user } := by
  simp only [ChatCompletionRequest.ofValue, Option.bind_eq_bind, Option.bind_eq_some_iff] at h
  obtain ⟨m, hm, _, -, _, -, _, -, _, -, _, -, _, -, _, -, _, -, _, -, h⟩ := h
  by_cases hb : req.finiteBias = true
  · rw [if_pos hb, Option.some.injEq] at h
    subst h
    exact ⟨Option.bind_eq_some_iff.2 hm, hb, rfl⟩
  · rw [if_neg hb] at h
    exact absurd h (by simp)

/-- **Shaping never touches the messages, nor anything it has no name for.** -/
theorem apply_frame (p : ParamShaping) (req : ChatCompletionRequest) :
    p.apply req = { req with
      model := (p.apply req).model, temperature := (p.apply req).temperature,
      topP := (p.apply req).topP, maxTokens := (p.apply req).maxTokens,
      maxCompletionTokens := (p.apply req).maxCompletionTokens, stop := (p.apply req).stop,
      n := (p.apply req).n, presencePenalty := (p.apply req).presencePenalty,
      frequencyPenalty := (p.apply req).frequencyPenalty, user := (p.apply req).user } := by
  by_cases h : p.applies req = true
  · obtain ⟨r, hr, he⟩ := apply_of_applies h
    rw [he]
    exact (ofValue_eq hr).2.2
  · rw [apply_of_not_applies (by simpa using h)]

theorem apply_messages (p : ParamShaping) (req : ChatCompletionRequest) :
    (p.apply req).messages = req.messages := by rw [apply_frame]

theorem apply_stream (p : ParamShaping) (req : ChatCompletionRequest) :
    (p.apply req).stream = req.stream := by rw [apply_frame]

/-- The edited object's model: the override's, or the request's, unless it is dropped. -/
theorem get_model_shapedObject (p : ParamShaping) (req : ChatCompletionRequest) :
    (p.shapedObject req).get "model" =
      if "model" ∈ p.drop then none
      else some ((p.overrides.get "model").getD (.str req.model)) := by
  have hreq : req.toValue.get "model" = some (.str req.model) := by
    simp [ChatCompletionRequest.toValue]
  rw [shapedObject]
  refine (Fields.get_foldl_remove _ _ _).trans ?_
  rw [Fields.get_foldl_insert _ _ _ p.overrides_nodup, Fields.get_foldl_entry, hreq,
    Option.some_or]
  split
  · rfl
  · cases p.overrides.get "model" <;> rfl

/-- **The model sent**: the pinned one when the shaping takes effect, else the request's. -/
theorem apply_model (p : ParamShaping) (req : ChatCompletionRequest) :
    (p.apply req).model =
      if p.applies req then p.pinnedModel.getD req.model else req.model := by
  by_cases h : p.applies req = true
  · obtain ⟨r, hr, he⟩ := apply_of_applies h
    have hm := (ofValue_eq hr).1
    rw [get_model_shapedObject] at hm
    rw [he, if_pos h, pinnedModel]
    split at hm
    · simp at hm
    · cases ho : p.overrides.get "model" with
      | none =>
        rw [ho] at hm
        simpa [Value.asStr, eq_comm] using hm
      | some v =>
        rw [ho] at hm
        have hv : v.asStr = some r.model := by simpa using hm
        simp [hv]
  · rw [apply_of_not_applies (by simpa using h), if_neg h]

end ParamShaping

end Routeplane
