import Routeplane.Prompts.Registry

/-!
# Rendering

A template's tree is walked from left to right into one text. Three budgets bound the walk: the
bytes of the text, the partials expanded and how deep they nest; a partial that is being expanded
already is refused.

* `renderNodes`: the walk.
* `PromptRegistry.renderWithCohort`: a reference resolved and rendered, with the model and the
  parameters of the variant it is served from.
-/

namespace Routeplane.Prompts

open Fallible

def maxPartialDepth : ℕ := 3

def maxRenderOutputBytes : ℕ := 256 * 1024

def maxPartialExpansions : ℕ := 64

/-- What a variable that was not given renders as. -/
inductive MissingPolicy
  | error
  | empty
  deriving DecidableEq, Repr

structure RenderCtx where
  registry : PromptRegistry
  tenantId : String
  vars : Assoc String Value
  missing : MissingPolicy
  /-- `serde_json`'s compact text of a value. -/
  jsonText : Value → String

/-- The prompts being expanded, the number of partials so far and the text so far. -/
structure RenderState where
  stack : List String
  includes : ℕ
  out : String
  deriving DecidableEq, Repr

/-- Text as it is, `null` as nothing. -/
def valueToString (jsonText : Value → String) : Value → String
  | .str s => s
  | .null => ""
  | other => jsonText other

/-- `true` and text that is not empty. -/
def isTruthy : Value → Bool
  | .bool b => b
  | .str s => s ≠ ""
  | _ => false

def checkOutputCap (out : String) : Except PromptError Unit :=
  ensure (out.utf8ByteSize ≤ maxRenderOutputBytes)
    (.tooLarge ("rendered output exceeds the " ++ toString maxRenderOutputBytes ++ "-byte cap"))

def RenderState.pushStr (st : RenderState) (t : String) : Except PromptError RenderState := do
  checkOutputCap (st.out ++ t)
  return { st with out := st.out ++ t }

/-- A variable that is declared optional renders as nothing when it was not given. -/
def renderVar (ctx : RenderCtx) (declared : Assoc String Bool) (name : String) (st : RenderState) :
    Except PromptError RenderState :=
  match ctx.vars.get name with
  | some v => st.pushStr (valueToString ctx.jsonText v)
  | none =>
    match ctx.missing with
    | .empty => .ok st
    | .error =>
      if declared.get name ≠ some false then
        .error (.renderFailed ("missing value for required variable '" ++ name ++ "'") (some name))
      else .ok st

/-- Whether a section is shown. -/
def RenderCtx.shows (ctx : RenderCtx) (name : String) (inverted : Bool) : Bool :=
  ((ctx.vars.get name).map isTruthy).getD false != inverted

def tooDeep (reference : String) (st : RenderState) : PromptError :=
  .partialCycle ("partial include depth exceeds " ++ toString maxPartialDepth ++ " at '" ++
    reference ++ "' (chain: " ++ " -> ".intercalate st.stack ++ ")")

def expandedAlready (promptId : String) (st : RenderState) : PromptError :=
  .partialCycle ("partial cycle: " ++ " -> ".intercalate st.stack ++ " -> " ++ promptId)

def tooManyPartials : PromptError :=
  .tooLarge ("render exceeds the " ++ toString maxPartialExpansions ++ "-partial-expansion cap")

def unresolvedPartial (reference : String) (e : PromptError) : PromptError :=
  .renderFailed ("unresolved partial '" ++ reference ++ "': " ++ e.message) (some reference)

/-- The prompt a partial stands for, and the state its template is rendered in. -/
def enterPartial (ctx : RenderCtx) (reference : String) (st : RenderState) :
    Except PromptError (Resolved × RenderState) := do
  let resolved ← (ctx.registry.resolve ctx.tenantId reference).mapError (unresolvedPartial reference)
  ensure (resolved.promptId ∉ st.stack) (expandedAlready resolved.promptId st)
  ensure (st.includes + 1 ≤ maxPartialExpansions) tooManyPartials
  return (resolved,
    { st with stack := st.stack ++ [resolved.promptId], includes := st.includes + 1 })

/-- A template's tree at a depth of partials: the state after it, or the error that ended it. -/
def renderNodes (ctx : RenderCtx) (declared : Assoc String Bool) (depth : ℕ) (nodes : List Node)
    (st : RenderState) : Except PromptError RenderState :=
  match nodes with
  | [] => .ok st
  | .text t :: rest => do
    let st ← st.pushStr t
    renderNodes ctx declared depth rest st
  | .var name :: rest => do
    let st ← renderVar ctx declared name st
    renderNodes ctx declared depth rest st
  | .sect name inverted children :: rest =>
    if ctx.shows name inverted then do
      let st ← renderNodes ctx declared depth children st
      checkOutputCap st.out
      renderNodes ctx declared depth rest st
    else renderNodes ctx declared depth rest st
  | .partialRef reference :: rest =>
    if _hdeep : depth + 1 > maxPartialDepth then .error (tooDeep reference st)
    else do
      let (resolved, st) ← enterPartial ctx reference st
      let st ← renderNodes ctx resolved.version.declared (depth + 1) resolved.version.nodes st
      checkOutputCap st.out
      renderNodes ctx declared depth rest { st with stack := st.stack.dropLast }
termination_by (maxPartialDepth - depth, sizeOf nodes)

/-! ## A whole prompt -/

/-- A variant's parameters over its version's, key by key where both are objects. -/
def mergeParams (version variant : Option Value) : Option Value :=
  match version, variant with
  | none, none => none
  | some v, none => some v
  | none, some o => some o
  | some (.obj base), some (.obj overrides) =>
    some (.obj (overrides.foldl (fun merged e => Fields.insert merged e.1 e.2) base))
  | some _, some o => some o

structure Rendered where
  promptId : String
  version : UInt32
  label : Option String
  variant : Option String
  model : Option String
  params : Option Value
  text : String

namespace PromptRegistry

variable (jsonText : Value → String)

def renderWithCohort (registry : PromptRegistry) (tenantId reference : String)
    (vars : Assoc String Value) (missing : MissingPolicy) (cohortKey : Option String) :
    Except PromptError Rendered := do
  let resolved ← registry.resolveWithCohort tenantId reference cohortKey
  let ctx : RenderCtx := { registry, tenantId, vars, missing, jsonText }
  let st ← renderNodes ctx resolved.version.declared 0 resolved.version.nodes
    { stack := [resolved.promptId], includes := 0, out := "" }
  checkOutputCap st.out
  let served := resolved.variant.bind fun label =>
    resolved.prompt.variants.find? fun v => v.label = label
  return { promptId := resolved.promptId, version := resolved.versionNumber,
           label := resolved.label, variant := resolved.variant,
           model := (served.bind Variant.model).or resolved.version.defaultModel,
           params := mergeParams resolved.version.defaultParams (served.bind Variant.params),
           text := st.out }

/-- Without a cohort a split renders its control arm. -/
def render (registry : PromptRegistry) (tenantId reference : String) (vars : Assoc String Value)
    (missing : MissingPolicy) : Except PromptError Rendered :=
  registry.renderWithCohort jsonText tenantId reference vars missing none

end PromptRegistry

end Routeplane.Prompts
