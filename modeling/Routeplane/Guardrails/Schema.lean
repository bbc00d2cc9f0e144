import Routeplane.Lib.Fallible
import Routeplane.Lib.JsonSchema

/-!
# The schema check

A schema is parsed into the keywords the check knows, and an answer is checked against these. The
keywords that would change the meaning most are refused when a schema is parsed.

* `SchemaNode.parse`: the parser, up to a depth.
* `SchemaNode.validate`: the first violation, with its path.
-/

namespace Routeplane.Guardrails

open Fallible (okOr optional)
open JsonSchema (Json Fields)

def maxSchemaDepth : ℕ := 16

def unsupportedKeywords : List String :=
  ["$ref", "$dynamicRef", "oneOf", "anyOf", "allOf", "not", "if", "then", "else", "pattern",
    "patternProperties", "propertyNames", "prefixItems", "contains", "dependentSchemas",
    "unevaluatedProperties", "unevaluatedItems"]

inductive SchemaType
  | object
  | array
  | string
  | number
  | integer
  | boolean
  | null
  deriving DecidableEq, Repr, Inhabited

namespace SchemaType

def parse (s : String) : Except String SchemaType :=
  if s = "object" then .ok object
  else if s = "array" then .ok array
  else if s = "string" then .ok string
  else if s = "number" then .ok number
  else if s = "integer" then .ok integer
  else if s = "boolean" then .ok boolean
  else if s = "null" then .ok null
  else .error ("unsupported schema type '" ++ s ++ "'")

def isMatch (t : SchemaType) (v : Json) : Bool :=
  match t, v with
  | object, .obj _ => true
  | array, .arr _ => true
  | string, .str _ => true
  | boolean, .bool _ => true
  | null, .null => true
  | number, .num _ => true
  -- a double without a fraction, as every number here
  | integer, .num _ => true
  | _, _ => false

def name : SchemaType → String
  | object => "object"
  | array => "array"
  | string => "string"
  | number => "number"
  | integer => "integer"
  | boolean => "boolean"
  | null => "null"

end SchemaType

/-- Equality of values: `1` and `1.0` are two. -/
def sameValue : Json → Json → Bool :=
  Json.eqWith fun a b => a.value == b.value && a.fraction == b.fraction

/-- A parsed schema. -/
inductive SchemaNode
  | mk (types : Option (List SchemaType)) (properties : List (String × SchemaNode))
      (required : List String) (items : Option SchemaNode) (enumValues : Option (List Json))
      (minLength maxLength : Option ℕ) (minimum maximum : Option ℤ) (minItems maxItems : Option ℕ)
      (additionalProperties : Option Bool)

/-! ## The parser -/

/-- `Value::as_u64`. -/
def asU64 : Json → Option ℕ
  | .num n => if 0 ≤ n.value ∧ n.fraction = false then some n.value.toNat else none
  | _ => none

def parseTypes : Json → Except String (List SchemaType)
  | .str s => (SchemaType.parse s).map fun t => [t]
  | .arr list => list.mapM fun t => do
    let s ← okOr t.str? "`type` array entries must be strings"
    SchemaType.parse s
  | _ => .error "`type` must be a string or array of strings"

def parseRequired (r : Json) : Except String (List String) := do
  let list ← okOr r.items? "`required` must be an array"
  list.mapM fun entry => okOr entry.str? "`required` entries must be strings"

def getU64 (obj : Fields) (key : String) : Except String (Option ℕ) :=
  optional (fun v => okOr (asU64 v) ("`" ++ key ++ "` must be a non-negative integer"))
    (obj.get key)

/-- `Value::as_f64`; the numbers are exact. -/
def getF64 (obj : Fields) (key : String) : Except String (Option ℤ) :=
  optional (fun v => okOr (v.num?.map (·.value)) ("`" ++ key ++ "` must be a number")) (obj.get key)

def parseAdditional : Json → Except String Bool
  | .bool b => .ok b
  | _ => .error "`additionalProperties` supports only the boolean form in this subset"

def unsupportedKeyword (key : String) : String :=
  "unsupported schema keyword '" ++ key ++ "' (the Routeplane json_schema check supports a " ++
    "documented structural subset; rejecting rather than silently not enforcing)"

namespace SchemaNode

/-- The parser; `left` levels of nesting are left. -/
def parseAt : ℕ → Json → Except String SchemaNode
  | 0, _ => .error ("schema nesting exceeds " ++ toString maxSchemaDepth ++ " levels")
  | left + 1, value => do
    let obj ← okOr value.fields? "schema must be a JSON object"
    if let some f := obj.find? fun f => unsupportedKeywords.contains f.1 then
      .error (unsupportedKeyword f.1)
    else
      let types ← optional parseTypes (obj.get "type")
      let properties ← optional (fun p => do
        let map ← okOr (Json.fields? p) "`properties` must be an object"
        map.mapM fun f => do
          let sub ← parseAt left f.2
          return (f.1, sub)) (obj.get "properties")
      let required ← optional parseRequired (obj.get "required")
      let items ← optional (parseAt left) (obj.get "items")
      let enumValues ← optional (fun e => okOr (Json.items? e) "`enum` must be an array")
        (obj.get "enum")
      let additionalProperties ← optional parseAdditional (obj.get "additionalProperties")
      let minLength ← getU64 obj "minLength"
      let maxLength ← getU64 obj "maxLength"
      let minimum ← getF64 obj "minimum"
      let maximum ← getF64 obj "maximum"
      let minItems ← getU64 obj "minItems"
      let maxItems ← getU64 obj "maxItems"
      return mk types (properties.getD []) (required.getD []) items enumValues minLength maxLength
        minimum maximum minItems maxItems additionalProperties

def parse (value : Json) : Except String SchemaNode := parseAt (maxSchemaDepth + 1) value

/-! ## The check -/

/-- What an instance must be, beside what its parts must be. -/
def refuse (violated : Bool) (path message : String) : Except String Unit :=
  if violated then .error (path ++ message) else .ok ()

/-- A check of a part that an instance may not have. -/
def ifSome {α : Type} (part : Option α) (check : α → Except String Unit) : Except String Unit :=
  part.elim (.ok ()) check

def expectedTypes (types : List SchemaType) : String :=
  ": expected type " ++ "|".intercalate (types.map SchemaType.name)

def checkString (minLength maxLength : Option ℕ) (path s : String) : Except String Unit := do
  let len := s.toList.length
  refuse (minLength.any fun m => len < m) path ": string shorter than minLength"
  refuse (maxLength.any fun m => m < len) path ": string longer than maxLength"

def checkNumber (minimum maximum : Option ℤ) (path : String) (n : JsonSchema.Num) : Except String Unit := do
  refuse (minimum.any fun m => n.value < m) path ": number below minimum"
  refuse (maximum.any fun m => m < n.value) path ": number above maximum"

def checkRequired (required : List String) (path : String) (obj : Fields) : Except String Unit :=
  required.forM fun req => refuse (!obj.has req) path (": missing required property '" ++ req ++ "'")

def checkAdditional (names : List String) (additionalProperties : Option Bool) (path : String)
    (obj : Fields) : Except String Unit :=
  if additionalProperties = some false then
    obj.forM fun f => refuse (!names.contains f.1) path ": unexpected additional property"
  else .ok ()

def checkCount (minItems maxItems : Option ℕ) (path : String) (arr : List Json) :
    Except String Unit := do
  let len := arr.length
  refuse (minItems.any fun m => len < m) path ": fewer items than minItems"
  refuse (maxItems.any fun m => m < len) path ": more items than maxItems"

mutual
def validateAt : SchemaNode → Json → String → Except String Unit
  | mk types properties required items enumValues minLength maxLength minimum maximum minItems
      maxItems additionalProperties, value, path => do
    refuse (types.any fun types => !types.any (·.isMatch value)) path
      (expectedTypes (types.getD []))
    refuse (enumValues.any fun allowed => !allowed.any fun a => sameValue a value) path
      ": value not in enum"
    ifSome value.str? (checkString minLength maxLength path)
    ifSome value.num? (checkNumber minimum maximum path)
    ifSome value.fields? fun obj => do
      checkRequired required path obj
      validateProperties properties obj path
      checkAdditional (properties.map Prod.fst) additionalProperties path obj
    ifSome value.items? fun arr => do
      checkCount minItems maxItems path arr
      validateItems items arr path

/-- The properties, in order. -/
def validateProperties : List (String × SchemaNode) → Fields → String → Except String Unit
  | [], _, _ => .ok ()
  | (name, sub) :: properties, obj, path => do
    ifSome (obj.get name) fun v => sub.validateAt v (path ++ "." ++ name)
    validateProperties properties obj path

def validateItems : Option SchemaNode → List Json → String → Except String Unit
  | none, _, _ => .ok ()
  | some items, arr, path =>
    arr.zipIdx.forM fun v => items.validateAt v.1 (path ++ "[" ++ toString v.2 ++ "]")
end

/-- The first violation; the path starts at `$`. -/
def validate (node : SchemaNode) (value : Json) : Except String Unit := node.validateAt value "$"

end SchemaNode

end Routeplane.Guardrails
