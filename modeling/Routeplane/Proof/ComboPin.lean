import Routeplane.Policy.Parse

/-!
# The models of a combo

A combo's targets each pin a model, as one override among the others of its params: the request is
edited as a whole or not at all.

* `reparse_isSome_iff`: when the edited request still parses.
* `combo_of_load`: where a combo of a loaded registry comes from.
* `combo_pinned_iff`: when a target of a combo is sent the model it pins.
-/

namespace Routeplane

open Fallible Policy

/-! ## When the edited request parses -/

def Value.isNull : Value → Bool
  | .null => true
  | _ => false

/-- The type of a shapeable field of the request takes the value. -/
def accepts (k : String) (v : Value) : Bool :=
  match k with
  | "model" => v.asStr.isSome
  | "temperature" | "top_p" | "presence_penalty" | "frequency_penalty" =>
    v.isNull || v.asF32.isSome
  | "max_tokens" | "max_completion_tokens" | "n" => v.isNull || v.asU32.isSome
  | "stop" => v.isNull || (readStop v).isSome
  | "user" => v.isNull || v.asStr.isSome
  | _ => true

/-- Every value the request is given fits its field: the overrides, the defaults of what is neither
there nor overridden nor dropped, and the request's own biases. -/
structure WellTyped (p : ParamShaping) (req : ChatCompletionRequest) : Prop where
  overrides : ∀ k v, p.overrides.get k = some v → accepts k v = true
  defaults : ∀ k v, p.default.get k = some v → req.toValue.get k = none →
    p.overrides.get k = none → k ∉ p.drop → accepts k v = true
  bias : req.finiteBias = true

theorem Fields.mem_of_get {fs : Fields} {k : String} {v : Value} (h : get fs k = some v) :
    (k, v) ∈ fs := by
  unfold get at h
  obtain ⟨f, hfind, rfl⟩ := Option.map_eq_some_iff.1 h
  have hkey := List.find?_some hfind
  have hmem := List.mem_of_find?_eq_some hfind
  rw [← eq_of_beq hkey]
  exact hmem

theorem Fields.mem_keys_of_get {fs : Fields} {k : String} {v : Value} (h : get fs k = some v) :
    k ∈ fs.keys := List.mem_map_of_mem (mem_of_get h)

/-- What a field of the edited object holds. -/
theorem ParamShaping.get_shapedObject (p : ParamShaping) (req : ChatCompletionRequest)
    (k : String) : (p.shapedObject req).get k =
      if k ∈ p.drop then none
      else (p.overrides.get k).or ((req.toValue.get k).or (p.default.get k)) := by
  rw [shapedObject]
  refine (Fields.get_foldl_remove _ _ _).trans ?_
  rw [Fields.get_foldl_insert _ _ _ p.overrides_nodup, Fields.get_foldl_entry]

/-- What a request is written as fits its fields. -/
theorem accepts_toValue {req : ChatCompletionRequest} {k : String} {v : Value}
    (h : req.toValue.get k = some v) : accepts k v = true := by
  have hf32 : ∀ f : Float32, ((f32Value f).isNull || (f32Value f).asF32.isSome) = true := by
    intro f
    unfold f32Value
    split
    · rfl
    · rfl
  have hu32 : ∀ n : UInt32, (Value.isNull (.num (.int n.toNat)) ||
      (Value.asU32 (.num (.int n.toNat))).isSome) = true := by
    intro n
    have hlt := n.toNat_lt
    have hrange : 0 ≤ (n.toNat : ℤ) ∧ (n.toNat : ℤ) < 2 ^ 32 := by omega
    have hread : (Value.num (.int n.toNat)).asU32.isSome = true := by
      simp only [Value.asU32, if_pos hrange, Option.isSome_some]
    rw [hread, Bool.or_true]
  have hstop : ∀ ss : List String, (readStop (.arr (ss.map .str))).isSome = true := by
    intro ss
    have hread : (ss.map Value.str).mapM Value.asStr = some ss := by
      induction ss with
      | nil => rfl
      | cons s ss ih => simp [List.mapM_cons, Value.asStr, ih]
    have hstop : readStop (.arr (ss.map .str)) = some ss := hread
    rw [hstop]
    rfl
  have hfield : ∀ {k' : String} {o : Option Value}, (k, v) ∈ optField k' o →
      (∀ w, o = some w → accepts k' w = true) → accepts k v = true := by
    intro k' o hmem hall
    cases o with
    | none => cases hmem
    | some w =>
      obtain ⟨rfl, rfl⟩ := Prod.mk.inj (List.mem_singleton.1 hmem)
      exact hall v rfl
  have hmap : ∀ {α : Type} {f : α → Value} {o : Option α} {k' : String},
      (∀ a, accepts k' (f a) = true) → ∀ w, o.map f = some w → accepts k' w = true := by
    intro α f o k' hall w hw
    obtain ⟨a, -, rfl⟩ := Option.map_eq_some_iff.1 hw
    exact hall a
  have hmem := Fields.mem_of_get h
  unfold ChatCompletionRequest.toValue at hmem
  simp only [List.mem_cons, List.mem_append] at hmem
  rcases hmem with hmodel | ((((((((hmem | hmem) | hmem) | hmem) | hmem) | hmem) | hmem) | hmem) |
    hmem)
  · obtain ⟨rfl, rfl⟩ := Prod.mk.inj hmodel
    rfl
  · exact hfield hmem (hmap hf32)
  · exact hfield hmem (hmap hf32)
  · exact hfield hmem (hmap hu32)
  · exact hfield hmem (hmap hu32)
  · exact hfield hmem (hmap hstop)
  · exact hfield hmem (hmap hu32)
  · exact hfield hmem (hmap hf32)
  · exact hfield hmem (hmap hf32)
  · exact hfield hmem (hmap fun _ => rfl)

/-- A field read back parses when its value fits. -/
theorem isSome_readOption {α : Type} (read : Value → Option α) (o : Option Value) :
    (readOption read o).isSome = o.all fun v => v.isNull || (read v).isSome := by
  unfold readOption
  split
  · rfl
  · rfl
  · rename_i v hnull
    have hfalse : v.isNull = false := by
      cases v with
      | null => exact absurd rfl hnull
      | bool _ | num _ | str _ | arr _ | obj _ => rfl
    rw [Option.isSome_map, Option.all_some, hfalse, Bool.false_or]

/-- The fields a request is read back from, but the model. -/
def optionalFields : List String :=
  ["temperature", "top_p", "max_tokens", "max_completion_tokens", "stop", "n", "presence_penalty",
    "frequency_penalty", "user"]

theorem ofValue_isSome_iff {req : ChatCompletionRequest} {obj : Fields} :
    (req.ofValue obj).isSome = true ↔
      ((obj.get "model").bind Value.asStr).isSome = true ∧
        (∀ k ∈ optionalFields, (obj.get k).all (accepts k) = true) ∧ req.finiteBias = true := by
  have hbind : ∀ {α β : Type} (o : Option α) (f : α → Option β),
      (o.bind f).isSome = true ↔ ∃ a, o = some a ∧ (f a).isSome = true := by
    intro α β o f
    cases o with
    | none => simp
    | some a => simp
  have hbias : ∀ r : ChatCompletionRequest,
      (if req.finiteBias = true then some r else none).isSome = true ↔ req.finiteBias = true := by
    intro r
    split
    · rename_i h
      exact iff_of_true rfl h
    · rename_i h
      exact iff_of_false Bool.false_ne_true h
  have hall : (∀ k ∈ optionalFields, (obj.get k).all (accepts k) = true) ↔
      (readOption Value.asF32 (obj.get "temperature")).isSome = true ∧
      (readOption Value.asF32 (obj.get "top_p")).isSome = true ∧
      (readOption Value.asU32 (obj.get "max_tokens")).isSome = true ∧
      (readOption Value.asU32 (obj.get "max_completion_tokens")).isSome = true ∧
      (readOption readStop (obj.get "stop")).isSome = true ∧
      (readOption Value.asU32 (obj.get "n")).isSome = true ∧
      (readOption Value.asF32 (obj.get "presence_penalty")).isSome = true ∧
      (readOption Value.asF32 (obj.get "frequency_penalty")).isSome = true ∧
      (readOption Value.asStr (obj.get "user")).isSome = true := by
    unfold optionalFields
    simp only [isSome_readOption, List.forall_mem_cons, List.not_mem_nil, false_imp_iff,
      implies_true, and_true]
    exact Iff.rfl
  rw [hall]
  unfold ChatCompletionRequest.ofValue
  simp only [Option.bind_eq_bind, hbind, hbias, exists_and_right, ← Option.isSome_iff_exists,
    and_assoc]

section

variable {p : ParamShaping} {req : ChatCompletionRequest} {m : String}

theorem ParamShaping.get_model_of_pinned (hpin : p.pinnedModel = some m) :
    p.overrides.get "model" = some (.str m) := by
  unfold pinnedModel at hpin
  obtain ⟨v, hget, hv⟩ := Option.bind_eq_some_iff.1 hpin
  cases v with
  | str s => rw [hget, Option.some_inj.1 hv]
  | null | bool _ | num _ | arr _ | obj _ => cases hv

theorem ParamShaping.model_not_dropped (hpin : p.pinnedModel = some m) : "model" ∉ p.drop := by
  intro hdrop
  refine p.drop_not_override "model" hdrop ?_
  by_contra hout
  have hnone := Fields.get_eq_none_iff.2 hout
  rw [get_model_of_pinned hpin] at hnone
  cases hnone

theorem mem_allowlist {k : String} (h : k ∈ paramAllowlist) (hk : k ≠ "model") :
    k ∈ optionalFields := by
  have hcases : k = "model" ∨ k ∈ ["temperature", "max_tokens", "max_completion_tokens", "top_p",
      "stop", "n", "presence_penalty", "frequency_penalty", "user"] := List.mem_cons.1 h
  rcases hcases with heq | hmem
  · exact absurd heq hk
  · simp only [List.mem_cons, List.not_mem_nil, or_false] at hmem
    unfold optionalFields
    simp only [List.mem_cons, List.not_mem_nil, or_false]
    tauto

/-- **When an edited request still parses**: when every value it is given fits its field. -/
theorem reparse_isSome_iff (hpin : p.pinnedModel = some m) :
    (p.reparse req).isSome = true ↔ WellTyped p req := by
  have hmodel : (p.shapedObject req).get "model" = some (.str m) := by
    rw [p.get_shapedObject, if_neg (p.model_not_dropped hpin), p.get_model_of_pinned hpin]
    rfl
  unfold ParamShaping.reparse
  rw [ofValue_isSome_iff, hmodel]
  constructor
  · rintro ⟨-, hfields, hbias⟩
    -- what the edited object holds under a shapeable name fits it
    have hfits : ∀ k ∈ paramAllowlist, ∀ v, (p.shapedObject req).get k = some v →
        accepts k v = true := by
      intro k hk v hv
      by_cases heq : k = "model"
      · subst heq
        rw [hmodel] at hv
        rw [← Option.some_inj.1 hv]
        rfl
      · have hall := hfields k (mem_allowlist hk heq)
        rw [hv] at hall
        exact hall
    refine ⟨?_, ?_, hbias⟩
    · intro k v hv
      have hdrop : k ∉ p.drop := fun hdrop => p.drop_not_override k hdrop (Fields.mem_keys_of_get hv)
      refine hfits k (p.overrides_allowed k (Fields.mem_keys_of_get hv)) v ?_
      rw [p.get_shapedObject, if_neg hdrop, hv]
      rfl
    · intro k v hv hreq hover hdrop
      refine hfits k (p.default_allowed k (Fields.mem_keys_of_get hv)) v ?_
      rw [p.get_shapedObject, if_neg hdrop, hover, hreq, hv]
      rfl
  · intro hty
    refine ⟨rfl, ?_, hty.bias⟩
    intro k _
    rw [p.get_shapedObject]
    by_cases hdrop : k ∈ p.drop
    · rw [if_pos hdrop]
      rfl
    · rw [if_neg hdrop]
      cases hover : p.overrides.get k with
      | some v => exact hty.overrides k v hover
      | none =>
        cases hreq : req.toValue.get k with
        | some v => exact accepts_toValue hreq
        | none =>
          cases hdef : p.default.get k with
          | none => rfl
          | some v => exact hty.defaults k v hdef hreq hover hdrop

/-- The model a target of a combo is sent. -/
theorem apply_model_of_pinned (hpin : p.pinnedModel = some m) :
    (p.apply req).model = m ↔ WellTyped p req ∨ req.model = m := by
  have hnoop : p.isNoop = false := by
    have hget := p.get_model_of_pinned hpin
    unfold ParamShaping.isNoop
    cases hover : p.overrides with
    | nil =>
      rw [hover] at hget
      cases hget
    | cons f fs => rw [List.isEmpty_cons, Bool.and_false, Bool.false_and]
  have happlies : p.applies req = true ↔ WellTyped p req := by
    rw [← reparse_isSome_iff hpin]
    unfold ParamShaping.applies
    rw [hnoop, Bool.not_false, Bool.true_and]
  rw [ParamShaping.apply_model, hpin, Option.getD_some]
  by_cases h : p.applies req = true
  · rw [if_pos h]
    exact iff_of_true rfl (Or.inl (happlies.1 h))
  · rw [if_neg h]
    constructor
    · exact Or.inr
    · rintro (hty | heq)
      · exact absurd (happlies.2 hty) h
      · exact heq

end

/-! ## The combos of a file -/

section

variable {readToString : String → Except String String} {fromStr : String → Except String Value}
  {path name : String} {registry next : PolicyRegistry} {cfg : RoutingConfig}

/-- An entry of the file that offers a config as a combo. -/
structure Offers (entry : Value) (name : String) (cfg : RoutingConfig) : Prop where
  named : ∃ raw, (entry.get "combo").bind Value.asStr = some raw ∧ trimText raw = name
  parsed : ∃ routing id, entry.get "routing" = some routing ∧
    RoutingConfig.parse routing (.saved id) = .ok cfg
  pinned : ∀ model ∈ cfg.targetModels, model.isSome = true

theorem combo_insertSaved (id : SavedId) (cfg : RoutingConfig) (name : String) :
    (registry.insertSaved id cfg).combo name = registry.combo name := by
  have hne : (comboRegistryKey name == id.1) = false :=
    beq_false_of_ne (comboRegistryKey_not_saved name id)
  unfold PolicyRegistry.combo PolicyRegistry.get PolicyRegistry.insertSaved
  rw [List.lookup_cons, hne]

theorem combo_registerCombo {i : ℕ} {entry : Value} {cfg cfg' : RoutingConfig}
    (h : registerCombo path i entry cfg registry = .ok next)
    (hcombo : next.combo name = some cfg') :
    registry.combo name = some cfg' ∨ (cfg' = cfg ∧
      (∃ raw, (entry.get "combo").bind Value.asStr = some raw ∧ trimText raw = name) ∧
      ∀ model ∈ cfg.targetModels, model.isSome = true) := by
  unfold registerCombo at h
  split at h
  · exact Or.inl (Except.ok.inj h ▸ hcombo)
  · rename_i raw hraw
    obtain ⟨_, -, h⟩ := bind_eq_ok h
    split at h
    · rename_i hpinned
      obtain ⟨_, -, h⟩ := bind_eq_ok h
      rw [← Except.ok.inj h] at hcombo
      unfold PolicyRegistry.combo PolicyRegistry.get PolicyRegistry.insertCombo at hcombo
      rw [List.lookup_cons] at hcombo
      split at hcombo
      · rename_i heq
        refine Or.inr ⟨(Option.some_inj.1 hcombo).symm, ⟨raw, hraw, ?_⟩, hpinned⟩
        have hkey : "combo:" ++ name = "combo:" ++ trimText raw := eq_of_beq heq
        exact ((String.append_right_inj _).1 hkey).symm
      · exact Or.inl hcombo
    · cases h

theorem combo_loadEntries {entries : List Value} : ∀ {i : ℕ} {registry next : PolicyRegistry},
    loadEntries path i entries registry = .ok next → next.combo name = some cfg →
      registry.combo name = some cfg ∨ ∃ entry ∈ entries, Offers entry name cfg := by
  induction entries with
  | nil =>
    intro i registry next h hcombo
    exact Or.inl (Except.ok.inj h ▸ hcombo)
  | cons entry entries ih =>
    intro i registry next h hcombo
    obtain ⟨middle, hentry, h⟩ := bind_eq_ok h
    rcases ih h hcombo with hmiddle | ⟨entry', hmem, hoffers⟩
    · unfold loadEntry at hentry
      obtain ⟨id, -, hentry⟩ := bind_eq_ok hentry
      obtain ⟨routing, hrouting, hentry⟩ := bind_eq_ok hentry
      obtain ⟨cfg', hparse, hentry⟩ := bind_eq_ok hentry
      obtain ⟨offered, hoffered, hentry⟩ := bind_eq_ok hentry
      rw [← Except.ok.inj hentry, combo_insertSaved] at hmiddle
      rcases combo_registerCombo hoffered hmiddle with hbefore | ⟨rfl, hname, hpinned⟩
      · exact Or.inl hbefore
      · refine Or.inr ⟨entry, List.mem_cons_self, hname, ?_, hpinned⟩
        exact ⟨routing, id.1, eq_some_of_okOr hrouting, of_mapError hparse⟩
    · exact Or.inr ⟨entry', List.mem_cons_of_mem _ hmem, hoffers⟩

/-- The entries of the file, as it was read. -/
def entriesOf (readToString : String → Except String String)
    (fromStr : String → Except String Value) (path : String) : List Value :=
  (((readToString path).toOption.bind fun content => (fromStr content).toOption).bind fun value =>
    (value.get "configs").bind Value.asArray).getD []

/-- **A combo of a loaded registry is offered by an entry of the file.** -/
theorem combo_of_load (hload : loadRegistryFromFile readToString fromStr path = .ok registry)
    (hcombo : registry.combo name = some cfg) :
    ∃ entry ∈ entriesOf readToString fromStr path, Offers entry name cfg := by
  unfold loadRegistryFromFile at hload
  obtain ⟨content, hcontent, hload⟩ := bind_eq_ok hload
  obtain ⟨value, hvalue, hload⟩ := bind_eq_ok hload
  obtain ⟨configs, hconfigs, hload⟩ := bind_eq_ok hload
  have hentries : entriesOf readToString fromStr path = configs := by
    unfold entriesOf
    rw [of_mapError hcontent, Except.toOption, Option.bind_some, of_mapError hvalue,
      Except.toOption, Option.bind_some, eq_some_of_okOr hconfigs]
    rfl
  rw [hentries]
  rcases combo_loadEntries hload hcombo with hempty | hoffered
  · cases hempty
  · exact hoffered

/-- **When a target of a combo is sent the model it pins, and never the combo's own name**: when
every value the request is given fits its field, or the request names the model already; and the
model is not named like the combo. -/
theorem combo_pinned_iff (hload : loadRegistryFromFile readToString fromStr path = .ok registry)
    (hcombo : registry.combo name = some cfg) :
    ∃ entry ∈ entriesOf readToString fromStr path, Offers entry name cfg ∧
      ∀ l ∈ cfg.leaves, ∃ m, l.params.pinnedModel = some m ∧
        ∀ req, ((l.params.apply req).model = m ∧ (l.params.apply req).model ≠ name) ↔
          (WellTyped l.params req ∨ req.model = m) ∧ m ≠ name := by
  obtain ⟨entry, hentry, hoffers⟩ := combo_of_load hload hcombo
  refine ⟨entry, hentry, hoffers, ?_⟩
  intro l hl
  have hpinned := hoffers.pinned l.params.pinnedModel (List.mem_map_of_mem hl)
  obtain ⟨m, hm⟩ := Option.isSome_iff_exists.1 hpinned
  refine ⟨m, hm, ?_⟩
  intro req
  rw [← apply_model_of_pinned hm]
  constructor
  · rintro ⟨hmodel, hname⟩
    exact ⟨hmodel, hmodel ▸ hname⟩
  · rintro ⟨hmodel, hname⟩
    exact ⟨hmodel, hmodel.symm ▸ hname⟩

end

/-! ## A combo that goes out under its own name -/

/-- A combo of one target, with an override that is no temperature. -/
def comboText : String :=
  "\x7b\"configs\": [\x7b\"id\": \"cfg_fast\", \"combo\": \"fast\", \"routing\": \x7b\"targets\": " ++
  "[\x7b\"provider\": \"openai\", \"params\": \x7b\"override\": \x7b\"model\": " ++
  "\"gpt-4o-mini\", \"temperature\": \"hot\"\x7d\x7d\x7d]\x7d\x7d]\x7d"

/-- What `comboText` parses to. -/
def comboFile : Value :=
  .obj [("configs", .arr [.obj [("id", .str "cfg_fast"), ("combo", .str "fast"),
    ("routing", .obj [("targets", .arr [.obj [("provider", .str "openai"),
      ("params", .obj [("override", .obj [("model", .str "gpt-4o-mini"),
        ("temperature", .str "hot")])])]])])]])]

def loadCombo : Except RegistryLoadError PolicyRegistry :=
  loadRegistryFromFile (fun _ => .ok comboText) (fun _ => .ok comboFile)
    "configs/routing-policies.json"

def comboRequest : ChatCompletionRequest where
  model := "fast"
  messages := []

theorem loadCombo_ok : ∃ registry cfg, loadCombo = .ok registry ∧
    registry.combo "fast" = some cfg ∧
    cfg.leaves.map (fun l => (l.params.pinnedModel, (l.params.apply comboRequest).model)) =
      [(some "gpt-4o-mini", "fast")] := by
  have heval : ((loadCombo.toOption.bind fun registry => registry.combo "fast").map fun cfg =>
      cfg.leaves.map fun l => (l.params.pinnedModel, (l.params.apply comboRequest).model)) =
        some [(some "gpt-4o-mini", "fast")] := by decide
  obtain ⟨cfg, hcfg, hsent⟩ := Option.map_eq_some_iff.1 heval
  obtain ⟨registry, hregistry, hcombo⟩ := Option.bind_eq_some_iff.1 hcfg
  refine ⟨registry, cfg, ?_, hcombo, hsent⟩
  cases hload : loadCombo with
  | error e =>
    rw [hload] at hregistry
    cases hregistry
  | ok registry' =>
    rw [hload] at hregistry
    rw [Option.some_inj.1 hregistry]

theorem combo_pinned_iff_fast : ∃ registry cfg, loadCombo = .ok registry ∧
    registry.combo "fast" = some cfg ∧
    ∃ entry ∈ entriesOf (fun _ => .ok comboText) (fun _ => .ok comboFile)
        "configs/routing-policies.json", Offers entry "fast" cfg ∧
      ∀ l ∈ cfg.leaves, ∃ m, l.params.pinnedModel = some m ∧
        ∀ req, ((l.params.apply req).model = m ∧ (l.params.apply req).model ≠ "fast") ↔
          (WellTyped l.params req ∨ req.model = m) ∧ m ≠ "fast" := by
  obtain ⟨registry, cfg, hload, hcombo, -⟩ := loadCombo_ok
  exact ⟨registry, cfg, hload, hcombo, combo_pinned_iff hload hcombo⟩

/-- The temperature does not parse, so the request goes out with the combo's name for a model. -/
theorem combo_name_sent : ∃ registry cfg, loadCombo = .ok registry ∧
    registry.combo "fast" = some cfg ∧
    ∃ l ∈ cfg.leaves, l.params.pinnedModel = some "gpt-4o-mini" ∧
      (l.params.apply comboRequest).model = "fast" := by
  obtain ⟨registry, cfg, hload, hcombo, hsent⟩ := loadCombo_ok
  have hmem : (some "gpt-4o-mini", "fast") ∈ cfg.leaves.map fun l =>
      (l.params.pinnedModel, (l.params.apply comboRequest).model) := by
    rw [hsent]
    exact List.mem_cons_self
  obtain ⟨l, hl, heq⟩ := List.mem_map.1 hmem
  obtain ⟨hpin, hmodel⟩ := Prod.mk.inj heq
  exact ⟨registry, cfg, hload, hcombo, l, hl, hpin, hmodel⟩

end Routeplane
