import Mathlib.Algebra.Ring.Nat
import Mathlib.Data.Int.Notation
import Mathlib.Data.List.Basic
import Mathlib.Data.Nat.Notation
import Mathlib.Tactic.Common

/-!
# The meaning of a JSON schema

JSON documents whose numbers are integers, and what it is for one to satisfy a schema: at the
document itself and at the parts that the schema has subschemas for, every keyword holds. The
schemas are those without references, regular expressions and subschemas for the whole document.

A keyword is its name and what it says of an instance, so the meaning is a relation for any list of
them; a validator that knows some keywords is compared with the one that knows all.

* `Json`: documents. `Json.eqWith`: their equality, for an equality of numbers.
* `Meets`: an instance meets the keywords of a schema.
* `Satisfies`: it meets the assertions of JSON Schema 2020-12.
* `meets_append_iff`, `Meets.imp`: more keywords, and weaker ones.
* `Meets.throughout`: keywords that follow in every schema of a kind.
-/

namespace JsonSchema

/-- An integer in the range in which doubles are exact, written as one or with a fraction (`1.0`). -/
structure Num where
  value : ℤ
  fraction : Bool := false
  bound : value.natAbs ≤ 2 ^ 53 := by decide
  deriving DecidableEq

/-- A document; the fields of an object are in the order of their names, each once. -/
inductive Json
  | null
  | bool (b : Bool)
  | num (n : Num)
  | str (s : String)
  | arr (xs : List Json)
  | obj (fields : List (String × Json))

/-- The fields of an object. -/
abbrev Fields := List (String × Json)

def Fields.get (fields : Fields) (name : String) : Option Json :=
  (fields.find? fun f => f.1 == name).map (·.2)

def Fields.has (fields : Fields) (name : String) : Bool := fields.any fun f => f.1 == name

namespace Json

/-! ## Equality -/

section

variable (same : Num → Num → Bool)

mutual
/-- Equality of documents, for an equality of numbers. -/
def eqWith : Json → Json → Bool
  | null, null => true
  | bool a, bool b => a == b
  | num a, num b => same a b
  | str a, str b => a == b
  | arr xs, arr ys => eqWithList xs ys
  | obj fs, obj gs => eqWithFields fs gs
  | _, _ => false

def eqWithList : List Json → List Json → Bool
  | [], [] => true
  | x :: xs, y :: ys => x.eqWith y && eqWithList xs ys
  | _, _ => false

def eqWithFields : List (String × Json) → List (String × Json) → Bool
  | [], [] => true
  | (k, x) :: fs, (l, y) :: gs => k == l && x.eqWith y && eqWithFields fs gs
  | _, _ => false
end

end

/-- Numbers are equal by their value. -/
def equal : Json → Json → Bool := eqWith fun a b => a.value == b.value

mutual
/-- The numbers in a document. -/
def numbers : Json → List Num
  | num n => [n]
  | arr xs => numbersList xs
  | obj fs => numbersFields fs
  | _ => []

def numbersList : List Json → List Num
  | [] => []
  | x :: xs => x.numbers ++ numbersList xs

def numbersFields : List (String × Json) → List Num
  | [] => []
  | (_, x) :: fs => x.numbers ++ numbersFields fs
end

section

variable {same weaker : Num → Num → Bool}

mutual
/-- Only the numbers that are there are compared. -/
theorem eqWith_mono : ∀ x y : Json,
    (∀ a ∈ x.numbers, ∀ b, same a b = true → weaker a b = true) →
    x.eqWith same y = true → x.eqWith weaker y = true
  | null, y, _ => by cases y <;> simp [eqWith]
  | bool a, y, _ => by cases y <;> simp [eqWith]
  | num a, y, himp => by
    cases y with
    | num b => exact himp a (by simp [numbers]) b
    | null => exact id
    | bool b => exact id
    | str s => exact id
    | arr ys => exact id
    | obj gs => exact id
  | str a, y, _ => by cases y <;> simp [eqWith]
  | arr xs, y, himp => by
    cases y with
    | arr ys => exact eqWithList_mono xs ys himp
    | null => exact id
    | bool b => exact id
    | num n => exact id
    | str s => exact id
    | obj gs => exact id
  | obj fs, y, himp => by
    cases y with
    | obj gs => exact eqWithFields_mono fs gs himp
    | null => exact id
    | bool b => exact id
    | num n => exact id
    | str s => exact id
    | arr ys => exact id

theorem eqWithList_mono : ∀ xs ys : List Json,
    (∀ a ∈ numbersList xs, ∀ b, same a b = true → weaker a b = true) →
    eqWithList same xs ys = true → eqWithList weaker xs ys = true
  | [], ys, _ => by cases ys <;> simp [eqWithList]
  | x :: xs, [], _ => by simp [eqWithList]
  | x :: xs, y :: ys, himp => by
    simp only [eqWithList, Bool.and_eq_true]
    exact fun h => ⟨eqWith_mono x y (fun a ha => himp a (List.mem_append_left _ ha)) h.1,
      eqWithList_mono xs ys (fun a ha => himp a (List.mem_append_right _ ha)) h.2⟩

theorem eqWithFields_mono : ∀ fs gs : List (String × Json),
    (∀ a ∈ numbersFields fs, ∀ b, same a b = true → weaker a b = true) →
    eqWithFields same fs gs = true → eqWithFields weaker fs gs = true
  | [], gs, _ => by cases gs <;> simp [eqWithFields]
  | (k, x) :: fs, [], _ => by simp [eqWithFields]
  | (k, x) :: fs, (l, y) :: gs, himp => by
    simp only [eqWithFields, Bool.and_eq_true]
    exact fun h => ⟨⟨h.1.1, eqWith_mono x y (fun a ha => himp a (List.mem_append_left _ ha)) h.1.2⟩,
      eqWithFields_mono fs gs (fun a ha => himp a (List.mem_append_right _ ha)) h.2⟩
end

end

/-! ## Parts -/

/-- The fields of an instance, if it is an object. -/
def fields? : Json → Option Fields
  | obj fs => some fs
  | _ => none

/-- The items of an instance, if it is an array. -/
def items? : Json → Option (List Json)
  | arr xs => some xs
  | _ => none

def num? : Json → Option Num
  | num n => some n
  | _ => none

def str? : Json → Option String
  | str s => some s
  | _ => none

/-- What keywords that take a count have. -/
def count? : Json → Option ℕ
  | num n => if 0 ≤ n.value then some n.value.toNat else none
  | _ => none

/-- The names of a type keyword; every number is an integer. -/
def hasType (v : Json) (name : String) : Bool :=
  match v with
  | null => name == "null"
  | bool _ => name == "boolean"
  | num _ => name == "number" || name == "integer"
  | str _ => name == "string"
  | arr _ => name == "array"
  | obj _ => name == "object"

end Json

open Json

/-! ## Keywords -/

/-- A keyword: its name, and whether it holds of an instance, given its value in the schema. -/
structure Keyword where
  name : String
  holds : Json → Json → Bool

namespace Keyword

/-- A bound on a measure that only some instances have. -/
def bound {α β : Type} (name : String) (limit? : Json → Option α) (measure? : Json → Option β)
    (within : α → β → Bool) : Keyword where
  name := name
  holds arg v := (limit? arg).all fun limit => (measure? v).all (within limit)

def type : Keyword where
  name := "type"
  holds arg v :=
    match arg with
    | .str name => v.hasType name
    | .arr names => names.any fun name => name.str?.any v.hasType
    | _ => true

/-- An instance is one of some values, for an equality of documents. -/
def enum (eq : Json → Json → Bool) : Keyword where
  name := "enum"
  holds arg v := arg.items?.all fun allowed => allowed.any fun a => eq a v

def const : Keyword := ⟨"const", fun arg v => arg.equal v⟩

def charCount? (v : Json) : Option ℕ := v.str?.map fun s => s.toList.length

def itemCount? (v : Json) : Option ℕ := v.items?.map List.length

def fieldCount? (v : Json) : Option ℕ := v.fields?.map List.length

def value? (v : Json) : Option ℤ := v.num?.map (·.value)

def minLength : Keyword := bound "minLength" count? charCount? fun m n => m ≤ n

def maxLength : Keyword := bound "maxLength" count? charCount? fun m n => n ≤ m

def minItems : Keyword := bound "minItems" count? itemCount? fun m n => m ≤ n

def maxItems : Keyword := bound "maxItems" count? itemCount? fun m n => n ≤ m

def minProperties : Keyword := bound "minProperties" count? fieldCount? fun m n => m ≤ n

def maxProperties : Keyword := bound "maxProperties" count? fieldCount? fun m n => n ≤ m

def minimum : Keyword := bound "minimum" value? value? fun m n => m ≤ n

def maximum : Keyword := bound "maximum" value? value? fun m n => n ≤ m

def exclusiveMinimum : Keyword := bound "exclusiveMinimum" value? value? fun m n => m < n

def exclusiveMaximum : Keyword := bound "exclusiveMaximum" value? value? fun m n => n < m

/-- The divisor is positive. -/
def multipleOf : Keyword :=
  bound "multipleOf" value? value? fun d n => decide (d ≤ 0) || decide (d ∣ n)

def required : Keyword where
  name := "required"
  holds arg v := arg.items?.all fun names => v.fields?.all fun fields =>
    names.all fun name => name.str?.all fields.has

/-- For each name an instance has, the names it must have as well. -/
def dependentRequired : Keyword where
  name := "dependentRequired"
  holds arg v := arg.fields?.all fun rules => v.fields?.all fun fields =>
    rules.all fun rule => !fields.has rule.1 ||
      rule.2.items?.all fun names => names.all fun name => name.str?.all fields.has

def distinct : List Json → Bool
  | [] => true
  | x :: xs => xs.all (fun y => !x.equal y) && distinct xs

def uniqueItems : Keyword where
  name := "uniqueItems"
  holds arg v :=
    match arg with
    | .bool true => v.items?.all distinct
    | _ => true

end Keyword

/-! ## Schemas -/

/-- Whether a name is covered by the `properties` of a schema. -/
def covers (schema : Fields) (name : String) : Bool :=
  ((schema.get "properties").bind fields?).any fun properties => Fields.has properties name

/-- An instance meets the keywords `ks` of a schema, and so do the parts the schema is about: the
fields and the items that it has a subschema for. -/
inductive Meets (ks : List Keyword) : Json → Json → Prop
  | yes (v : Json) : Meets ks (.bool true) v
  | obj {schema : Fields} {v : Json}
      (asserted : ∀ k ∈ ks, ∀ arg, schema.get k.name = some arg → k.holds arg v = true)
      (properties : ∀ subs, schema.get "properties" = some (.obj subs) → ∀ name sub x,
        (name, sub) ∈ subs → v.fields?.bind (Fields.get · name) = some x → Meets ks sub x)
      (additional : ∀ sub, schema.get "additionalProperties" = some sub → ∀ fields,
        v.fields? = some fields → ∀ name x, (name, x) ∈ fields → covers schema name = false →
          Meets ks sub x)
      (items : ∀ sub, schema.get "items" = some sub → ∀ xs, v.items? = some xs → ∀ x ∈ xs,
        Meets ks sub x) : Meets ks (.obj schema) v

section

variable {ks ks' : List Keyword} {schema v : Json}

/-- **Weaker keywords are met as well.** By induction on the derivation. -/
theorem Meets.imp (h : Meets ks schema v)
    (himp : ∀ k' ∈ ks', ∃ k ∈ ks, k.name = k'.name ∧
      ∀ arg v, k.holds arg v = true → k'.holds arg v = true) : Meets ks' schema v := by
  induction h with
  | yes v => exact .yes v
  | obj asserted properties additional items ihp iha ihi =>
    refine .obj (fun k' hk' arg harg => ?_) ihp iha ihi
    obtain ⟨k, hk, hname, hweaker⟩ := himp k' hk'
    rw [← hname] at harg
    exact hweaker arg _ (asserted k hk arg harg)

theorem Meets.mono (h : Meets ks schema v) (hsub : ∀ k ∈ ks', k ∈ ks) : Meets ks' schema v :=
  h.imp fun k hk => ⟨k, hsub k hk, rfl, fun _ _ => id⟩

/-- **More keywords are met one by one.** By induction on the derivation. -/
theorem Meets.append (h : Meets ks schema v) (h' : Meets ks' schema v) :
    Meets (ks ++ ks') schema v := by
  induction h with
  | yes v => exact .yes v
  | obj asserted properties additional items ihp iha ihi =>
    cases h' with
    | obj asserted' properties' additional' items' =>
      refine .obj (fun k hk arg harg => ?_) ?_ ?_ ?_
      · rcases List.mem_append.1 hk with hk | hk
        · exact asserted k hk arg harg
        · exact asserted' k hk arg harg
      · exact fun subs hsubs name sub x hsub hx =>
          ihp subs hsubs name sub x hsub hx (properties' subs hsubs name sub x hsub hx)
      · exact fun sub hsub fields hfields name x hx hcovers =>
          iha sub hsub fields hfields name x hx hcovers
            (additional' sub hsub fields hfields name x hx hcovers)
      · exact fun sub hsub xs hxs x hx => ihi sub hsub xs hxs x hx (items' sub hsub xs hxs x hx)

/-- A schema without the keywords and without subschemas is met. -/
theorem meets_of_absent {schema : Fields} (hks : ∀ k ∈ ks, schema.get k.name = none)
    (hproperties : schema.get "properties" = none)
    (hadditional : schema.get "additionalProperties" = none) (hitems : schema.get "items" = none) :
    Meets ks (.obj schema) v := by
  refine .obj (fun k hk arg harg => ?_) (fun subs hsubs => ?_) (fun sub hsub => ?_) fun sub hsub => ?_
  · rw [hks k hk] at harg
    cases harg
  · rw [hproperties] at hsubs
    cases hsubs
  · rw [hadditional] at hsub
    cases hsub
  · rw [hitems] at hsub
    cases hsub

/-- The schema has `p` wherever it is an object, and so have the schemas inside. -/
inductive Throughout (p : Fields → Prop) : Json → Prop
  | plain {schema : Json} (h : schema.fields? = none) : Throughout p schema
  | obj {schema : Fields} (here : p schema)
      (properties : ∀ subs, schema.get "properties" = some (.obj subs) → ∀ name sub,
        (name, sub) ∈ subs → Throughout p sub)
      (additional : ∀ sub, schema.get "additionalProperties" = some sub → Throughout p sub)
      (items : ∀ sub, schema.get "items" = some sub → Throughout p sub) : Throughout p (.obj schema)

/-- **Keywords that follow from others**, in every schema of a kind. By induction on the derivation. -/
theorem Meets.throughout {p : Fields → Prop} (h : Meets ks schema v) (hp : Throughout p schema)
    (himp : ∀ schema v, p schema →
      (∀ k ∈ ks, ∀ arg, schema.get k.name = some arg → k.holds arg v = true) →
        ∀ k ∈ ks', ∀ arg, schema.get k.name = some arg → k.holds arg v = true) :
    Meets ks' schema v := by
  induction h with
  | yes v => exact .yes v
  | obj asserted properties additional items ihp iha ihi =>
    cases hp with
    | plain hplain => cases hplain
    | obj here properties' additional' items' =>
      refine .obj (himp _ _ here asserted) ?_ ?_ ?_
      · exact fun subs hsubs name sub x hsub hx =>
          ihp subs hsubs name sub x hsub hx (properties' subs hsubs name sub hsub)
      · exact fun sub hsub fields hfields name x hx hcovers =>
          iha sub hsub fields hfields name x hx hcovers (additional' sub hsub)
      · exact fun sub hsub xs hxs x hx => ihi sub hsub xs hxs x hx (items' sub hsub)

theorem meets_append_iff :
    Meets (ks ++ ks') schema v ↔ Meets ks schema v ∧ Meets ks' schema v := by
  refine ⟨fun h => ⟨h.mono fun k hk => ?_, h.mono fun k hk => ?_⟩, fun h => h.1.append h.2⟩
  · exact List.mem_append_left ks' hk
  · exact List.mem_append_right ks hk

end

/-- The assertions of JSON Schema 2020-12; the limits on matches of `contains` say nothing without
it. -/
def assertions : List Keyword :=
  [.type, .enum equal, .const, .multipleOf, .maximum, .exclusiveMaximum, .minimum,
    .exclusiveMinimum, .maxLength, .minLength, .maxItems, .minItems, .uniqueItems, .maxProperties,
    .minProperties, .required, .dependentRequired]

/-- An instance satisfies a schema. -/
def Satisfies (schema v : Json) : Prop := Meets assertions schema v

end JsonSchema
