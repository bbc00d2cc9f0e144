import Routeplane.Guardrails.Schema

/-!
# What the schema check enforces

The check knows nine assertions and the subschemas of properties and items. It refuses the keywords
of a list; eight assertions of the standard are in neither list and are dropped.

* `validate_iff`: **the check passes what meets the keywords it knows.**
* `validate_iff_of_supported`: it passes what satisfies a schema with none of the dropped keywords
  and no number in an enum.
* `sound_iff`: when it passes what satisfies the schema, and nothing else.
-/

namespace Routeplane.Guardrails

open JsonSchema Fallible
open SchemaNode (mk parseAt validateAt validateProperties validateItems refuse ifSome checkString checkNumber
  checkRequired checkAdditional checkCount)

/-- The assertions that the check knows, for an equality of the values of an enum. -/
def known (eq : Json → Json → Bool) : List Keyword :=
  [.type, .enum eq, .minLength, .maxLength, .minimum, .maximum, .required, .minItems, .maxItems]

/-- The assertions that it drops. -/
def dropped : List Keyword :=
  [.const, .multipleOf, .exclusiveMinimum, .exclusiveMaximum, .uniqueItems, .minProperties,
    .maxProperties, .dependentRequired]

theorem mem_assertions_iff {k : Keyword} :
    k ∈ assertions ↔ k ∈ known Json.equal ++ dropped := by
  unfold assertions known dropped
  simp only [List.cons_append, List.nil_append, List.mem_cons, List.not_mem_nil, or_false]
  constructor <;> (intro h; tauto)

/-! ## What the checks say -/

theorem refuse_eq_ok {violated : Bool} {path message : String} :
    refuse violated path message = .ok () ↔ violated = false := by
  cases violated <;> simp [refuse]

theorem ifSome_eq_ok {α : Type} {part : Option α} {check : α → Except String Unit} :
    ifSome part check = .ok () ↔ ∀ a, part = some a → check a = .ok () := by
  cases part <;> simp [ifSome]

theorem any_eq_false_iff {α : Type} {o : Option α} {p : α → Bool} :
    o.any p = false ↔ ∀ a, o = some a → p a = false := by
  cases o <;> simp

section

variable {v : Json} {path : String}

theorem checkString_eq_ok {minLength maxLength : Option ℕ} {s : String} :
    checkString minLength maxLength path s = .ok () ↔
      (∀ m, minLength = some m → m ≤ s.toList.length) ∧
        ∀ m, maxLength = some m → s.toList.length ≤ m := by
  unfold checkString
  simp only [seq_eq_ok_iff, refuse_eq_ok, any_eq_false_iff, decide_eq_false_iff_not, Nat.not_lt]

theorem checkNumber_eq_ok {minimum maximum : Option ℤ} {n : JsonSchema.Num} :
    checkNumber minimum maximum path n = .ok () ↔
      (∀ m, minimum = some m → m ≤ n.value) ∧ ∀ m, maximum = some m → n.value ≤ m := by
  unfold checkNumber
  simp only [seq_eq_ok_iff, refuse_eq_ok, any_eq_false_iff, decide_eq_false_iff_not, Int.not_lt]

theorem checkCount_eq_ok {minItems maxItems : Option ℕ} {arr : List Json} :
    checkCount minItems maxItems path arr = .ok () ↔
      (∀ m, minItems = some m → m ≤ arr.length) ∧ ∀ m, maxItems = some m → arr.length ≤ m := by
  unfold checkCount
  simp only [seq_eq_ok_iff, refuse_eq_ok, any_eq_false_iff, decide_eq_false_iff_not, Nat.not_lt]

theorem checkRequired_eq_ok {required : List String} {obj : Fields} :
    checkRequired required path obj = .ok () ↔ ∀ req ∈ required, obj.has req = true := by
  unfold checkRequired
  simp only [forM_eq_ok_iff, refuse_eq_ok, Bool.not_eq_false']

theorem checkAdditional_eq_ok {names : List String} {additionalProperties : Option Bool}
    {obj : Fields} : checkAdditional names additionalProperties path obj = .ok () ↔
      (additionalProperties = some false → ∀ f ∈ obj, f.1 ∈ names) := by
  unfold checkAdditional
  split
  · rename_i hfalse
    simp only [forM_eq_ok_iff, refuse_eq_ok, Bool.not_eq_false', List.contains_iff_mem, hfalse,
      forall_const]
  · rename_i hnot
    exact iff_of_true rfl fun hfalse => absurd hfalse hnot

/-- By induction on the properties. -/
theorem validateProperties_eq_ok {properties : List (String × SchemaNode)} {obj : Fields} :
    validateProperties properties obj path = .ok () ↔ ∀ name sub x, (name, sub) ∈ properties →
      obj.get name = some x → sub.validateAt x (path ++ "." ++ name) = .ok () := by
  induction properties with
  | nil => exact iff_of_true rfl fun name sub x hsub => absurd hsub List.not_mem_nil
  | cons p properties ih =>
    obtain ⟨name, sub⟩ := p
    unfold validateProperties
    rw [seq_eq_ok_iff, ifSome_eq_ok, ih]
    constructor
    · rintro ⟨hfirst, hrest⟩ name' sub' x hmem hx
      rcases List.mem_cons.1 hmem with heq | hmem
      · obtain ⟨rfl, rfl⟩ := Prod.mk.inj heq
        exact hfirst x hx
      · exact hrest name' sub' x hmem hx
    · intro h
      exact ⟨fun x hx => h name sub x List.mem_cons_self hx,
        fun name' sub' x hmem hx => h name' sub' x (List.mem_cons_of_mem _ hmem) hx⟩

theorem validateItems_eq_ok {items : Option SchemaNode} {arr : List Json} :
    validateItems items arr path = .ok () ↔ ∀ sub, items = some sub → ∀ x i, (x, i) ∈ arr.zipIdx →
      sub.validateAt x (path ++ "[" ++ toString i ++ "]") = .ok () := by
  cases items with
  | none =>
    unfold validateItems
    refine iff_of_true rfl ?_
    intro sub hsub
    cases hsub
  | some items =>
    unfold validateItems
    rw [forM_eq_ok_iff, Prod.forall]
    simp only [Option.some.injEq, forall_eq']

end

/-- What the check of a node asks of a value. -/
structure Passes (types : Option (List SchemaType)) (properties : List (String × SchemaNode))
    (required : List String) (items : Option SchemaNode) (enumValues : Option (List Json))
    (minLength maxLength : Option ℕ) (minimum maximum : Option ℤ) (minItems maxItems : Option ℕ)
    (additionalProperties : Option Bool) (v : Json) (path : String) : Prop where
  types : ∀ ts, types = some ts → ts.any (·.isMatch v) = true
  enum : ∀ allowed, enumValues = some allowed → (allowed.any fun a => sameValue a v) = true
  length : ∀ s, v.str? = some s → (∀ m, minLength = some m → m ≤ s.toList.length) ∧
    ∀ m, maxLength = some m → s.toList.length ≤ m
  range : ∀ n, v.num? = some n → (∀ m, minimum = some m → m ≤ n.value) ∧
    ∀ m, maximum = some m → n.value ≤ m
  fields : ∀ obj, v.fields? = some obj → (∀ req ∈ required, Fields.has obj req = true) ∧
    (∀ name sub x, (name, sub) ∈ properties → Fields.get obj name = some x →
      sub.validateAt x (path ++ "." ++ name) = .ok ()) ∧
    (additionalProperties = some false → ∀ f ∈ obj, f.1 ∈ properties.map Prod.fst)
  count : ∀ arr, v.items? = some arr → (∀ m, minItems = some m → m ≤ arr.length) ∧
    ∀ m, maxItems = some m → arr.length ≤ m
  items : ∀ arr, v.items? = some arr → ∀ sub, items = some sub → ∀ x i, (x, i) ∈ arr.zipIdx →
    sub.validateAt x (path ++ "[" ++ toString i ++ "]") = .ok ()

theorem validateAt_eq_ok {types : Option (List SchemaType)}
    {properties : List (String × SchemaNode)} {required : List String} {items : Option SchemaNode}
    {enumValues : Option (List Json)} {minLength maxLength : Option ℕ} {minimum maximum : Option ℤ}
    {minItems maxItems : Option ℕ} {additionalProperties : Option Bool} {v : Json} {path : String} :
    (mk types properties required items enumValues minLength maxLength minimum maximum minItems
      maxItems additionalProperties).validateAt v path = .ok () ↔
    Passes types properties required items enumValues minLength maxLength minimum maximum minItems
      maxItems additionalProperties v path := by
  unfold validateAt
  simp only [seq_eq_ok_iff, refuse_eq_ok, any_eq_false_iff, Bool.not_eq_false', ifSome_eq_ok,
    checkString_eq_ok, checkNumber_eq_ok, checkCount_eq_ok, checkRequired_eq_ok,
    checkAdditional_eq_ok, validateProperties_eq_ok, validateItems_eq_ok]
  constructor
  · rintro ⟨htypes, henum, hlength, hrange, hfields, harr⟩
    exact ⟨htypes, henum, hlength, hrange, hfields, fun arr h => (harr arr h).1,
      fun arr h => (harr arr h).2⟩
  · intro h
    exact ⟨h.types, h.enum, h.length, h.range, h.fields,
      fun arr ha => ⟨h.count arr ha, h.items arr ha⟩⟩

/-! ## What the parser reads -/

/-- A value that every parsed list has, every list read has, one for one. -/
theorem any_congr {α β : Type} {R : α → β → Prop} {as : List α} {bs : List β} {p : α → Bool}
    {q : β → Bool} (h : List.Forall₂ R as bs) (hpq : ∀ a b, R a b → p a = q b) :
    as.any p = bs.any q := by
  induction h with
  | nil => rfl
  | cons hr _ ih => rw [List.any_cons, List.any_cons, hpq _ _ hr, ih]

theorem hasType_of_parse {s : String} {t : SchemaType} (h : SchemaType.parse s = .ok t) (v : Json) :
    v.hasType s = t.isMatch v := by
  unfold SchemaType.parse at h
  repeat' split at h
  all_goals cases h
  all_goals
    subst s
    cases v <;> simp [Json.hasType, SchemaType.isMatch]

theorem type_iff {arg : Json} {ts : List SchemaType} (h : parseTypes arg = .ok ts) (v : Json) :
    Keyword.type.holds arg v = true ↔ ts.any (·.isMatch v) = true := by
  unfold parseTypes at h
  split at h
  · rename_i s
    obtain ⟨t, ht, rfl⟩ := map_eq_ok h
    have hone : Keyword.type.holds (.str s) v = v.hasType s := rfl
    rw [hone, hasType_of_parse ht, List.any_cons, List.any_nil, Bool.or_false]
  · rename_i names
    have hall : Keyword.type.holds (.arr names) v =
        names.any fun name => name.str?.any v.hasType := rfl
    rw [hall, any_congr (mapM_eq_ok_iff.1 h)]
    intro name t ht
    obtain ⟨s, hs, ht⟩ := bind_eq_ok ht
    rw [eq_some_of_okOr hs, Option.any_some]
    exact hasType_of_parse ht v
  · cases h

theorem enum_iff {arg : Json} {allowed : List Json} {e : String}
    (h : okOr arg.items? e = .ok allowed) (v : Json) :
    (Keyword.enum sameValue).holds arg v = true ↔ (allowed.any fun a => sameValue a v) = true := by
  have hall : (Keyword.enum sameValue).holds arg v =
      arg.items?.all fun allowed => allowed.any fun a => sameValue a v := rfl
  rw [hall, eq_some_of_okOr h, Option.all_some]

theorem required_iff {arg : Json} {names : List String} (h : parseRequired arg = .ok names)
    (v : Json) : Keyword.required.holds arg v = true ↔
      ∀ obj, v.fields? = some obj → ∀ req ∈ names, Fields.has obj req = true := by
  unfold parseRequired at h
  obtain ⟨list, hlist, h⟩ := bind_eq_ok h
  have hread := mapM_eq_ok_iff.1 h
  have hall : Keyword.required.holds arg v = arg.items?.all fun names =>
      v.fields?.all fun fields => names.all fun name => name.str?.all (Fields.has fields) := rfl
  rw [hall, eq_some_of_okOr hlist, Option.all_some, Option.all_eq_true]
  refine forall₂_congr fun obj _ => ?_
  rw [List.all_eq_true]
  constructor
  · intro hnames req hreq
    obtain ⟨name, hname, hread⟩ := mem_of_forall₂ hread hreq
    have hone := hnames name hname
    rw [eq_some_of_okOr hread, Option.all_some] at hone
    exact hone
  · intro hnames name hname
    obtain ⟨req, hreq, hread⟩ := mem_of_forall₂ hread.flip hname
    rw [eq_some_of_okOr hread, Option.all_some]
    exact hnames req hreq

/-- A bound is kept by a measure that an instance has. -/
theorem bound_iff {α β : Type} {name : String} {limit? : Json → Option α}
    {measure? : Json → Option β} {within : α → β → Bool} {arg : Json} {limit : α}
    (h : limit? arg = some limit) (v : Json) :
    (Keyword.bound name limit? measure? within).holds arg v = true ↔
      ∀ n, measure? v = some n → within limit n = true := by
  have hall : (Keyword.bound name limit? measure? within).holds arg v =
      (limit? arg).all fun limit => (measure? v).all (within limit) := rfl
  rw [hall, h, Option.all_some, Option.all_eq_true]

theorem count?_of_asU64 {arg : Json} {m : ℕ} {e : String} (h : okOr (asU64 arg) e = .ok m) :
    arg.count? = some m := by
  have hread := eq_some_of_okOr h
  unfold asU64 at hread
  split at hread
  · split at hread
    · rename_i hsmall
      rw [← hread]
      exact if_pos hsmall.1
    · cases hread
  · cases hread

theorem value?_of_num? {arg : Json} {m : ℤ} {e : String}
    (h : okOr (arg.num?.map (·.value)) e = .ok m) : Keyword.value? arg = some m :=
  eq_some_of_okOr h

/-! ## The parts -/

/-- The properties of a node are read from those of the schema, one for one. -/
def PropertiesRead (left : ℕ) (p : Option Json) (properties : List (String × SchemaNode)) : Prop :=
  (p = none ∧ properties = []) ∨ ∃ map, p = some (.obj map) ∧
    List.Forall₂ (fun f node => node.1 = f.1 ∧ parseAt left f.2 = .ok node.2) map properties

/-- What a node is parsed from. -/
structure Reads (left : ℕ) (schema : Fields) (types : Option (List SchemaType))
    (properties : List (String × SchemaNode)) (required : List String) (items : Option SchemaNode)
    (enumValues : Option (List Json)) (minLength maxLength : Option ℕ) (minimum maximum : Option ℤ)
    (minItems maxItems : Option ℕ) (additionalProperties : Option Bool) : Prop where
  types : optional parseTypes (schema.get "type") = .ok types
  properties : PropertiesRead left (schema.get "properties") properties
  required : ∃ names, optional parseRequired (schema.get "required") = .ok names ∧
    required = names.getD []
  items : optional (parseAt left) (schema.get "items") = .ok items
  enum : optional (fun e => okOr (Json.items? e) "`enum` must be an array") (schema.get "enum") =
    .ok enumValues
  additional : optional parseAdditional (schema.get "additionalProperties") =
    .ok additionalProperties
  minLength : getU64 schema "minLength" = .ok minLength
  maxLength : getU64 schema "maxLength" = .ok maxLength
  minimum : getF64 schema "minimum" = .ok minimum
  maximum : getF64 schema "maximum" = .ok maximum
  minItems : getU64 schema "minItems" = .ok minItems
  maxItems : getU64 schema "maxItems" = .ok maxItems

theorem propertiesRead_of_optional {left : ℕ} {p : Option Json}
    {read : Option (List (String × SchemaNode))}
    (h : optional (fun p => do
      let map ← okOr (Json.fields? p) "`properties` must be an object"
      map.mapM fun f => do
        let sub ← parseAt left f.2
        return (f.1, sub)) p = .ok read) : PropertiesRead left p (read.getD []) := by
  rcases of_optional h with ⟨rfl, rfl⟩ | ⟨a, nodes, rfl, rfl, hread⟩
  · exact .inl ⟨rfl, rfl⟩
  · obtain ⟨map, hmap, hread⟩ := bind_eq_ok hread
    have hobj : a = .obj map := by
      have hfields := eq_some_of_okOr hmap
      cases a <;> cases hfields
      rfl
    refine .inr ⟨map, by rw [hobj], (mapM_eq_ok_iff.1 hread).imp ?_⟩
    intro f node hnode
    obtain ⟨sub, hsub, hnode⟩ := bind_eq_ok hnode
    rw [← Except.ok.inj hnode]
    exact ⟨rfl, hsub⟩

/-- **A node that is parsed was read from an object.** -/
theorem reads_of_parseAt {left : ℕ} {raw : Json} {node : SchemaNode}
    (h : parseAt (left + 1) raw = .ok node) :
    ∃ schema types properties required items enumValues minLength maxLength minimum maximum
      minItems maxItems additionalProperties, raw = .obj schema ∧
      node = mk types properties required items enumValues minLength maxLength minimum maximum
        minItems maxItems additionalProperties ∧
      Reads left schema types properties required items enumValues minLength maxLength minimum
        maximum minItems maxItems additionalProperties := by
  unfold parseAt at h
  obtain ⟨schema, hschema, h⟩ := bind_eq_ok h
  have hraw : raw = .obj schema := by
    have hfields := eq_some_of_okOr hschema
    cases raw <;> cases hfields
    rfl
  split at h
  · cases h
  · obtain ⟨types, htypes, h⟩ := bind_eq_ok h
    obtain ⟨properties, hproperties, h⟩ := bind_eq_ok h
    obtain ⟨required, hrequired, h⟩ := bind_eq_ok h
    obtain ⟨items, hitems, h⟩ := bind_eq_ok h
    obtain ⟨enumValues, henum, h⟩ := bind_eq_ok h
    obtain ⟨additional, hadditional, h⟩ := bind_eq_ok h
    obtain ⟨minLength, hminLength, h⟩ := bind_eq_ok h
    obtain ⟨maxLength, hmaxLength, h⟩ := bind_eq_ok h
    obtain ⟨minimum, hminimum, h⟩ := bind_eq_ok h
    obtain ⟨maximum, hmaximum, h⟩ := bind_eq_ok h
    obtain ⟨minItems, hminItems, h⟩ := bind_eq_ok h
    obtain ⟨maxItems, hmaxItems, h⟩ := bind_eq_ok h
    exact ⟨schema, types, properties.getD [], required.getD [], items, enumValues, minLength,
      maxLength, minimum, maximum, minItems, maxItems, additional, hraw, (Except.ok.inj h).symm,
      htypes, propertiesRead_of_optional hproperties, ⟨required, hrequired, rfl⟩, hitems, henum,
      hadditional, hminLength, hmaxLength, hminimum, hmaximum, hminItems, hmaxItems⟩

section

variable {left : ℕ} {schema : Fields} {v : Json} {path : String}

/-- A node and the schema it was read from ask the same of every value. -/
def Agrees (left : ℕ) : Prop :=
  ∀ raw node, parseAt left raw = .ok node → ∀ v path,
    node.validateAt v path = .ok () ↔ Meets (known sameValue) raw v

/-- The names of the properties of a node. -/
theorem covers_iff {properties : List (String × SchemaNode)}
    (h : PropertiesRead left (schema.get "properties") properties) (name : String) :
    covers schema name = true ↔ name ∈ properties.map Prod.fst := by
  unfold covers
  rcases h with ⟨hnone, rfl⟩ | ⟨map, hmap, hread⟩
  · rw [hnone]
    simp
  · have hnames : properties.map Prod.fst = map.map Prod.fst := by
      clear hmap
      induction hread with
      | nil => rfl
      | cons hr _ ih => rw [List.map_cons, List.map_cons, hr.1, ih]
    rw [hmap, hnames]
    simp [Json.fields?, Fields.has]

variable (v path) in
theorem properties_iff (ih : Agrees left) {properties : List (String × SchemaNode)}
    (h : PropertiesRead left (schema.get "properties") properties) :
    (∀ subs, schema.get "properties" = some (.obj subs) → ∀ name sub x, (name, sub) ∈ subs →
        v.fields?.bind (Fields.get · name) = some x → Meets (known sameValue) sub x) ↔
      ∀ obj, v.fields? = some obj → ∀ name sub x, (name, sub) ∈ properties →
        Fields.get obj name = some x → sub.validateAt x (path ++ "." ++ name) = .ok () := by
  rcases h with ⟨hnone, rfl⟩ | ⟨map, hmap, hread⟩
  · rw [hnone]
    refine iff_of_true ?_ ?_
    · intro subs hsubs
      cases hsubs
    · intro obj _ name sub x hsub
      cases hsub
  · rw [hmap]
    constructor
    · intro hmeets obj hobj name node x hnode hx
      obtain ⟨f, hf, hname, hparse⟩ := mem_of_forall₂ hread hnode
      obtain ⟨name', sub⟩ := f
      obtain rfl : name = name' := hname
      refine (ih sub node hparse x _).2 (hmeets map rfl name sub x hf ?_)
      rw [hobj]
      exact hx
    · intro hvalid subs hsubs name sub x hsub hx
      cases hsubs
      obtain ⟨obj, hobj, hx⟩ := Option.bind_eq_some_iff.1 hx
      obtain ⟨node, hnode, hname, hparse⟩ := mem_of_forall₂ hread.flip hsub
      obtain ⟨name', node⟩ := node
      obtain rfl : name' = name := hname
      exact (ih sub node hparse x _).1 (hvalid obj hobj name' node x hnode hx)

variable (v path) in
theorem items_iff (ih : Agrees left) {items : Option SchemaNode}
    (h : optional (parseAt left) (schema.get "items") = .ok items) :
    (∀ sub, schema.get "items" = some sub → ∀ xs, v.items? = some xs → ∀ x ∈ xs,
        Meets (known sameValue) sub x) ↔
      ∀ arr, v.items? = some arr → ∀ sub, items = some sub → ∀ x i, (x, i) ∈ arr.zipIdx →
        sub.validateAt x (path ++ "[" ++ toString i ++ "]") = .ok () := by
  have hone : ∀ raw node, parseAt left raw = .ok node →
      ((∀ xs, v.items? = some xs → ∀ x ∈ xs, Meets (known sameValue) raw x) ↔
        ∀ arr, v.items? = some arr → ∀ x i, (x, i) ∈ arr.zipIdx →
          node.validateAt x (path ++ "[" ++ toString i ++ "]") = .ok ()) := by
    intro raw node hparse
    refine forall₂_congr fun arr _ => ?_
    constructor
    · intro hmeets x i hx
      exact (ih raw node hparse x _).2 (hmeets x (List.fst_mem_of_mem_zipIdx hx))
    · intro hvalid x hx
      obtain ⟨i, hi⟩ := List.getElem?_of_mem hx
      exact (ih raw node hparse x _).1 (hvalid x i (List.mk_mem_zipIdx_iff_getElem?.2 hi))
  rw [forall_of_optional h hone]
  exact ⟨fun h arr harr sub hsub => h sub hsub arr harr,
    fun h sub hsub arr harr => h arr harr sub hsub⟩

variable (v) in
theorem additional_iff (ks : List Keyword) {properties : List (String × SchemaNode)}
    (hproperties : PropertiesRead left (schema.get "properties") properties)
    {additionalProperties : Option Bool}
    (h : optional parseAdditional (schema.get "additionalProperties") = .ok additionalProperties) :
    (∀ sub, schema.get "additionalProperties" = some sub → ∀ fields, v.fields? = some fields →
        ∀ name x, (name, x) ∈ fields → covers schema name = false → Meets ks sub x) ↔
      ∀ obj, v.fields? = some obj → additionalProperties = some false →
        ∀ f ∈ obj, f.1 ∈ properties.map Prod.fst := by
  have hone : ∀ raw b, parseAdditional raw = .ok b →
      ((∀ fields, v.fields? = some fields → ∀ name x, (name, x) ∈ fields →
          covers schema name = false → Meets ks raw x) ↔
        ∀ obj, v.fields? = some obj → b = false →
          ∀ f ∈ obj, f.1 ∈ properties.map Prod.fst) := by
    intro raw b hb
    unfold parseAdditional at hb
    split at hb
    · obtain rfl := Except.ok.inj hb
      rename_i b
      refine forall₂_congr fun obj _ => ?_
      cases b with
      | true =>
        refine iff_of_true (fun name x _ _ => .yes x) ?_
        intro hfalse
        cases hfalse
      | false =>
        constructor
        · intro hmeets _ f hf
          rw [← covers_iff hproperties]
          by_contra hno
          cases hmeets f.1 f.2 hf (Bool.not_eq_true _ ▸ hno)
        · intro hin name x hx hcovers
          rw [(covers_iff hproperties name).2 (hin rfl (name, x) hx)] at hcovers
          cases hcovers
    · cases hb
  rw [forall_of_optional h hone]
  exact ⟨fun h obj hobj hfalse => h false hfalse obj hobj rfl,
    fun h b hb obj hobj hfalse => h obj hobj (hfalse ▸ hb)⟩

/-! ## The assertions -/

theorem u64_iff {key : String} {m : Option ℕ} (h : getU64 schema key = .ok m)
    {measure? : Json → Option ℕ} {within : ℕ → ℕ → Bool} :
    (∀ arg, schema.get key = some arg →
        (Keyword.bound key Json.count? measure? within).holds arg v = true) ↔
      ∀ limit, m = some limit → ∀ n, measure? v = some n → within limit n = true :=
  forall_of_optional h fun _ _ hread => bound_iff (count?_of_asU64 hread) v

theorem f64_iff {key : String} {m : Option ℤ} (h : getF64 schema key = .ok m)
    {within : ℤ → ℤ → Bool} :
    (∀ arg, schema.get key = some arg →
        (Keyword.bound key Keyword.value? Keyword.value? within).holds arg v = true) ↔
      ∀ limit, m = some limit → ∀ n, Keyword.value? v = some n → within limit n = true :=
  forall_of_optional h fun _ _ hread => bound_iff (value?_of_num? hread) v

/-- Two limits of a measure of a part, said of the part. -/
theorem limits_iff {α γ : Type} [LE γ] [DecidableLE γ] {lo hi : Option γ} {part : Option α}
    {f : α → γ} :
    ((∀ limit, lo = some limit → ∀ n, part.map f = some n → decide (limit ≤ n) = true) ∧
        ∀ limit, hi = some limit → ∀ n, part.map f = some n → decide (n ≤ limit) = true) ↔
      ∀ a, part = some a → (∀ m, lo = some m → m ≤ f a) ∧ ∀ m, hi = some m → f a ≤ m := by
  simp only [decide_eq_true_eq, Option.map_eq_some_iff, forall_exists_index, and_imp]
  constructor
  · rintro ⟨hlo, hhi⟩ a ha
    exact ⟨fun m hm => hlo m hm (f a) a ha rfl, fun m hm => hhi m hm (f a) a ha rfl⟩
  · intro h
    refine ⟨?_, ?_⟩
    · rintro m hm n a ha rfl
      exact (h a ha).1 m hm
    · rintro m hm n a ha rfl
      exact (h a ha).2 m hm

theorem required_reads_iff {required : List String}
    (h : ∃ names, optional parseRequired (schema.get "required") = .ok names ∧
      required = names.getD []) :
    (∀ arg, schema.get "required" = some arg → Keyword.required.holds arg v = true) ↔
      ∀ obj, v.fields? = some obj → ∀ req ∈ required, Fields.has obj req = true := by
  obtain ⟨names, hread, rfl⟩ := h
  rw [forall_of_optional hread fun _ _ hnames => required_iff hnames v]
  cases names with
  | none => simp
  | some names => simp

end

/-- A keyword holds of an instance, if the schema has it. -/
def Asserts (schema : Fields) (v : Json) (k : Keyword) : Prop :=
  ∀ arg, schema.get k.name = some arg → k.holds arg v = true

theorem asserts_known_iff (eq : Json → Json → Bool) (schema : Fields) (v : Json) :
    (∀ k ∈ known eq, Asserts schema v k) ↔ Asserts schema v .type ∧ Asserts schema v (.enum eq) ∧
      (Asserts schema v .minLength ∧ Asserts schema v .maxLength) ∧
      (Asserts schema v .minimum ∧ Asserts schema v .maximum) ∧ Asserts schema v .required ∧
      (Asserts schema v .minItems ∧ Asserts schema v .maxItems) := by
  unfold known
  simp only [List.forall_mem_cons, List.not_mem_nil, false_imp_iff, implies_true, and_true,
    and_assoc]

/-- **A schema is met by what its node passes.** By induction on the levels that are left. -/
theorem agrees : ∀ left, Agrees left
  | 0 => by
    intro raw node h
    cases h
  | left + 1 => by
    intro raw node h v path
    obtain ⟨schema, types, properties, required, items, enumValues, minLength, maxLength, minimum,
      maximum, minItems, maxItems, additional, rfl, rfl, hreads⟩ := reads_of_parseAt h
    have ih := agrees left
    have htypes : Asserts schema v .type ↔ _ :=
      forall_of_optional hreads.types fun arg ts hts => type_iff hts v
    have henum : Asserts schema v (.enum sameValue) ↔ _ :=
      forall_of_optional hreads.enum fun arg allowed hread => enum_iff hread v
    have hlength : Asserts schema v .minLength ∧ Asserts schema v .maxLength ↔
        ∀ s, v.str? = some s → (∀ m, minLength = some m → m ≤ s.toList.length) ∧
          ∀ m, maxLength = some m → s.toList.length ≤ m :=
      (and_congr (u64_iff hreads.minLength) (u64_iff hreads.maxLength)).trans limits_iff
    have hrange : Asserts schema v .minimum ∧ Asserts schema v .maximum ↔
        ∀ n, v.num? = some n → (∀ m, minimum = some m → m ≤ n.value) ∧
          ∀ m, maximum = some m → n.value ≤ m :=
      (and_congr (f64_iff hreads.minimum) (f64_iff hreads.maximum)).trans limits_iff
    have hcount : Asserts schema v .minItems ∧ Asserts schema v .maxItems ↔
        ∀ arr, v.items? = some arr → (∀ m, minItems = some m → m ≤ arr.length) ∧
          ∀ m, maxItems = some m → arr.length ≤ m :=
      (and_congr (u64_iff hreads.minItems) (u64_iff hreads.maxItems)).trans limits_iff
    have hrequired : Asserts schema v .required ↔ _ := required_reads_iff hreads.required
    have hproperties := properties_iff v path ih hreads.properties
    have hadditional := additional_iff v (known sameValue) hreads.properties hreads.additional
    have hitems := items_iff v path ih hreads.items
    have hasserted := asserts_known_iff sameValue schema v
    rw [htypes, henum, hlength, hrange, hrequired, hcount] at hasserted
    rw [validateAt_eq_ok]
    constructor
    · intro hp
      refine .obj (hasserted.2 ⟨hp.types, hp.enum, hp.length, hp.range, fun obj hobj =>
        (hp.fields obj hobj).1, hp.count⟩) (hproperties.2 fun obj hobj => (hp.fields obj hobj).2.1)
        (hadditional.2 fun obj hobj => (hp.fields obj hobj).2.2) (hitems.2 hp.items)
    · intro hm
      cases hm with
      | obj asserted props extra parts =>
        obtain ⟨htypes, henum, hlength, hrange, hrequired, hcount⟩ := hasserted.1 asserted
        exact ⟨htypes, henum, hlength, hrange, fun obj hobj => ⟨hrequired obj hobj,
          hproperties.1 props obj hobj, hadditional.1 extra obj hobj⟩, hcount, hitems.1 parts⟩

/-- **The check passes what meets the keywords it knows.** -/
theorem validate_iff {raw : Json} {node : SchemaNode} (h : SchemaNode.parse raw = .ok node)
    (v : Json) : node.validate v = .ok () ↔ Meets (known sameValue) raw v :=
  agrees _ raw node h v "$"

/-! ## The law -/

theorem equal_of_sameValue {x y : Json} (h : sameValue x y = true) : x.equal y = true := by
  refine Json.eqWith_mono x y (fun a _ b hab => ?_) h
  exact (Bool.and_eq_true _ _).mp hab |>.1

/-- Without numbers the two equalities are one. -/
theorem sameValue_of_equal {x y : Json} (hnone : x.numbers = []) (h : x.equal y = true) :
    sameValue x y = true :=
  Json.eqWith_mono x y (fun a ha => by rw [hnone] at ha; cases ha) h

/-- What the check knows is a part of the standard. -/
theorem known_of_satisfies {raw v : Json} (h : Meets (known sameValue) raw v) :
    Meets (known Json.equal) raw v := by
  refine h.imp fun k hk => ?_
  have hcases : k = .enum Json.equal ∨ k ∈ known sameValue := by
    unfold known at hk ⊢
    simp only [List.mem_cons, List.not_mem_nil, or_false] at hk ⊢
    tauto
  rcases hcases with rfl | hsame
  · refine ⟨.enum sameValue, List.mem_cons_of_mem _ List.mem_cons_self, rfl, fun arg v hv => ?_⟩
    have hall : (Keyword.enum sameValue).holds arg v =
        arg.items?.all fun allowed => allowed.any fun a => sameValue a v := rfl
    rw [hall, Option.all_eq_true] at hv
    show (arg.items?.all fun allowed => allowed.any fun a => a.equal v) = true
    rw [Option.all_eq_true]
    intro allowed hallowed
    obtain ⟨a, ha, hsame⟩ := List.any_eq_true.1 (hv allowed hallowed)
    exact List.any_eq_true.2 ⟨a, ha, equal_of_sameValue hsame⟩
  · exact ⟨k, hsame, rfl, fun arg v => id⟩

theorem satisfies_iff {raw v : Json} :
    Satisfies raw v ↔ Meets (known Json.equal) raw v ∧ Meets dropped raw v := by
  rw [← meets_append_iff]
  exact ⟨fun h => h.mono fun k hk => mem_assertions_iff.2 hk,
    fun h => h.mono fun k hk => mem_assertions_iff.1 hk⟩

/-- An enum as it is written, and the rest of what the check knows. -/
theorem known_of_written {raw v : Json} (hwritten : Meets [.enum sameValue] raw v)
    (hknown : Meets (known Json.equal) raw v) : Meets (known sameValue) raw v := by
  refine (hwritten.append hknown).mono fun k hk => ?_
  unfold known at hk ⊢
  simp only [List.cons_append, List.nil_append, List.mem_cons, List.not_mem_nil, or_false] at hk ⊢
  tauto

/-- None of the dropped keywords, and no number in an enum. -/
def Supported (schema : Fields) : Prop :=
  (∀ k ∈ dropped, schema.get k.name = none) ∧
    ∀ allowed, schema.get "enum" = some (.arr allowed) → ∀ a ∈ allowed, a.numbers = []

/-- **A schema of what is supported is checked in full.** -/
theorem validate_iff_of_supported {raw : Json} {node : SchemaNode}
    (h : SchemaNode.parse raw = .ok node) (hraw : Throughout Supported raw) (v : Json) :
    node.validate v = .ok () ↔ Satisfies raw v := by
  rw [validate_iff h, satisfies_iff]
  constructor
  · intro hk
    refine ⟨known_of_satisfies hk, hk.throughout hraw fun schema v hschema _ k hdropped arg harg => ?_⟩
    rw [hschema.1 k hdropped] at harg
    cases harg
  · rintro ⟨hknown, -⟩
    refine known_of_written (hknown.throughout hraw fun schema v hschema hasserted k hk arg harg => ?_)
      hknown
    obtain rfl := List.mem_singleton.1 hk
    have hequal : (Keyword.enum Json.equal).holds arg v = true :=
      hasserted _ (List.mem_cons_of_mem _ List.mem_cons_self) arg harg
    cases arg with
    | arr allowed =>
      obtain ⟨a, ha, hsame⟩ := List.any_eq_true.1 hequal
      exact List.any_eq_true.2 ⟨a, ha, sameValue_of_equal (hschema.2 allowed harg a ha) hsame⟩
    | _ => rfl

/-- **The check passes what satisfies the schema, and nothing else, exactly if** what meets the
keywords it knows meets the ones it drops, and what satisfies the schema is in its enums as it is
written. -/
theorem sound_iff {raw : Json} {node : SchemaNode} (h : SchemaNode.parse raw = .ok node) (v : Json) :
    (node.validate v = .ok () ↔ Satisfies raw v) ↔
      (Meets (known sameValue) raw v → Meets dropped raw v) ∧
        (Satisfies raw v → Meets [.enum sameValue] raw v) := by
  have henum : ∀ k ∈ [Keyword.enum sameValue], k ∈ known sameValue := fun k hk =>
    List.mem_singleton.1 hk ▸ List.mem_cons_of_mem _ List.mem_cons_self
  rw [validate_iff h]
  constructor
  · intro hiff
    exact ⟨fun hk => (satisfies_iff.1 (hiff.1 hk)).2, fun hs => (hiff.2 hs).mono henum⟩
  · rintro ⟨hdropped, hwritten⟩
    exact ⟨fun hk => satisfies_iff.2 ⟨known_of_satisfies hk, hdropped hk⟩, fun hs =>
      known_of_written (hwritten hs) (satisfies_iff.1 hs).1⟩

/-! ## An answer that is let through -/

def seventeen : JsonSchema.Num := { value := 17 }

/-- Grown-ups, by a limit that is left out. -/
def grownUp : Json := .obj [("exclusiveMinimum", .num seventeen)]

/-- **A value that a keyword excludes passes the check.** -/
theorem excluded_passes : ∃ node, SchemaNode.parse grownUp = .ok node ∧
    node.validate (.num seventeen) = .ok () ∧ ¬Satisfies grownUp (.num seventeen) := by
  refine ⟨_, rfl, rfl, fun h => ?_⟩
  cases h with
  | obj asserted =>
    have hmem : Keyword.exclusiveMinimum ∈ assertions := by simp [assertions]
    exact absurd (asserted _ hmem _ rfl) (by decide)

def atLeastSeventeen : Fields := [("minimum", .num seventeen)]

/-- A limit that the check knows is enforced. -/
theorem minimum_enforced : ∃ node, SchemaNode.parse (.obj atLeastSeventeen) = .ok node ∧
    (node.validate (.num { value := 16 }) = .ok () ↔
      Satisfies (.obj atLeastSeventeen) (.num { value := 16 })) := by
  have hdropped : ∀ k ∈ dropped, (atLeastSeventeen.get k.name).isNone = true := by decide
  have henum : ∀ k ∈ [Keyword.enum sameValue], (atLeastSeventeen.get k.name).isNone = true := by
    decide
  refine ⟨_, rfl, (sound_iff rfl _).2 ⟨fun _ => ?_, fun _ => ?_⟩⟩
  · exact meets_of_absent (fun k hk => Option.isNone_iff_eq_none.1 (hdropped k hk)) rfl rfl rfl
  · exact meets_of_absent (fun k hk => Option.isNone_iff_eq_none.1 (henum k hk)) rfl rfl rfl

end Routeplane.Guardrails
