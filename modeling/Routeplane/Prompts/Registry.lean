import Routeplane.Lib.Assoc
import Routeplane.Lib.Fallible
import Routeplane.Prompts.Template
import Routeplane.Types.Value

/-!
# The prompt registry

Each tenant has named prompts, each prompt numbered versions. A reference names a prompt alone, or
pins one of its versions, or follows one of its labels; a prompt named alone may be split between
variants.

The registry is read from a file at startup and refused as a whole for one bad prompt.

* `parseReference`: the three forms of a reference.
* `assignVariant`: the arm of a split a cohort is in.
* `PromptRegistry.resolveWithCohort`: the version a reference stands for.
* `loadVersion`, `loadVariant`: one version or variant of a record, checked against what came before.
* `loadPrompt`: one record.
* `PromptRegistry.loadFromJson`: the registry of a document, or why it is refused.
-/

namespace Routeplane.Prompts

open Fallible

structure Variable where
  name : String
  required : Bool := true

/-- An immutable version, with the tree of its template and which variables it declares. -/
structure Version where
  version : UInt32
  template : String
  «variables» : List Variable
  defaultModel : Option String
  defaultParams : Option Value
  nodes : List Node
  declared : Assoc String Bool

/-- A weighted pointer at a version, with the model and parameters it overrides. -/
structure Variant where
  label : String
  version : UInt32
  weight : UInt32
  model : Option String
  params : Option Value

/-- A prompt; the first of its variants is the control arm. -/
structure StoredPrompt where
  id : String
  name : String
  description : Option String
  latestVersion : UInt32
  labels : Assoc String UInt32
  variants : List Variant
  versions : Assoc UInt32 Version

inductive PromptError
  | promptNotFound (reference : String)
  | versionNotFound (reference : String)
  | renderFailed (message : String) (param : Option String)
  | partialCycle (message : String)
  | tooLarge (message : String)
  deriving DecidableEq, Repr

namespace PromptError

def code : PromptError → String
  | .promptNotFound _ => "prompt_not_found"
  | .versionNotFound _ => "prompt_version_not_found"
  | .renderFailed _ _ => "prompt_render_failed"
  | .partialCycle _ => "prompt_partial_cycle"
  | .tooLarge _ => "prompt_too_large"

def status : PromptError → ℕ
  | .promptNotFound _ | .versionNotFound _ => 404
  | .renderFailed _ _ | .partialCycle _ | .tooLarge _ => 400

def message : PromptError → String
  | .promptNotFound reference => "prompt '" ++ reference ++ "' not found"
  | .versionNotFound reference => "no such version/label for reference '" ++ reference ++ "'"
  | .renderFailed message _ => message
  | .partialCycle message => message
  | .tooLarge message => message

def param : PromptError → Option String
  | .renderFailed _ param => param
  | _ => none

end PromptError

/-! ## References -/

inductive Selector
  | latest
  | label (l : String)
  | version (n : UInt32)
  deriving DecidableEq, Repr

/-- The number some decimal digits stand for. -/
def digitsValue (digits : List Char) : ℕ :=
  digits.foldl (fun n c => 10 * n + (c.toNat - '0'.toNat)) 0

/-- `v` and digits of a `u32` pin a version. -/
def versionPin (sel : String) : Option UInt32 :=
  match sel.toList with
  | 'v' :: num =>
    if num ≠ [] ∧ num.all Char.isDigit = true ∧ digitsValue num < 2 ^ 32 then
      some (digitsValue num).toUInt32
    else none
  | _ => none

/-- A label that reads as a version pin is never followed. -/
def parseReference (reference : String) : String × Selector :=
  match splitOnce '@' reference with
  | none => (reference, .latest)
  | some (id, sel) =>
    match versionPin sel with
    | some n => (id, .version n)
    | none => (id, .label sel)

/-! ## Splits -/

/-- One byte of the FNV-1a hash. -/
def mixByte (hash : UInt64) (b : UInt8) : UInt64 := (hash ^^^ b.toUInt64) * 0x100000001b3

/-- The FNV-1a hash of a prompt and a cohort, a zero byte between them. -/
def stableBucket (name cohortKey : String) : UInt64 :=
  let hash := name.toUTF8.toList.foldl mixByte 0xcbf29ce484222325
  cohortKey.toUTF8.toList.foldl mixByte (mixByte hash 0)

section

variable {K : Type} [Add K] [Div K] [LT K] [DecidableLT K]

/-- The first arm whose cumulative share is beyond `u`. -/
def walkArms (weight : Variant → K) (u total : K) : K → List Variant → Option Variant
  | _, [] => none
  | cumulative, variant :: variants =>
    let cumulative := cumulative + weight variant / total
    if u < cumulative then some variant else walkArms weight u total cumulative variants

end

/-- The arm of a cohort, the control arm without one. What the rounding leaves over is the last
arm's. -/
def assignVariant (promptId : String) (variants : List Variant) (cohortKey : Option String) :
    Option Variant :=
  match variants, cohortKey with
  | [], _ => none
  | first :: _, none => some first
  | first :: _, some key =>
    let total := (variants.map fun v => v.weight.toNat).sum
    if total = 0 then some first
    else
      let u := (stableBucket promptId key).toFloat / ((0xffffffffffffffff : UInt64).toFloat + 1.0)
      (walkArms (fun v => v.weight.toFloat) u total.toUInt64.toFloat 0.0 variants).or
        variants.getLast?

/-! ## Resolution -/

structure Resolved where
  promptId : String
  versionNumber : UInt32
  label : Option String
  variant : Option String
  version : Version
  prompt : StoredPrompt

/-- The prompts of each tenant, by id. -/
structure PromptRegistry where
  tenants : Assoc String (Assoc String StoredPrompt) := []

namespace PromptRegistry

def lookup (registry : PromptRegistry) (tenantId id : String) : Option StoredPrompt :=
  (registry.tenants.get tenantId).bind fun m => m.get id

/-- The version number a selector stands for, with the label or the variant it was reached by. -/
def select (prompt : StoredPrompt) (reference : String) (cohortKey : Option String) :
    Selector → Except PromptError (UInt32 × Option String × Option String)
  | .latest =>
    match assignVariant prompt.id prompt.variants cohortKey with
    | some v => .ok (v.version, none, some v.label)
    | none => .ok (prompt.latestVersion, none, none)
  | .label l =>
    match prompt.labels.get l with
    | some v => .ok (v, some l, none)
    | none => .error (.versionNotFound reference)
  | .version n =>
    if (prompt.versions.get n).isSome then .ok (n, none, none)
    else .error (.versionNotFound reference)

def resolveWithCohort (registry : PromptRegistry) (tenantId reference : String)
    (cohortKey : Option String) : Except PromptError Resolved := do
  let (id, selector) := parseReference reference
  let prompt ← okOr (registry.lookup tenantId id) (.promptNotFound reference)
  let (versionNumber, label, variant) ← select prompt reference cohortKey selector
  let version ← okOr (prompt.versions.get versionNumber) (.versionNotFound reference)
  return { promptId := prompt.id, versionNumber, label, variant, version, prompt }

/-- Without a cohort a split serves its control arm. -/
def resolve (registry : PromptRegistry) (tenantId reference : String) :
    Except PromptError Resolved :=
  registry.resolveWithCohort tenantId reference none

end PromptRegistry

/-! ## The file of prompts -/

open Fallible

structure Bounds where
  maxTemplateBytes : ℕ := 64 * 1024
  maxVariables : ℕ := 128
  maxLabels : ℕ := 32
  maxPromptsPerTenant : ℕ := 1000

def maxVariants : ℕ := 16

structure VersionRecord where
  version : UInt32
  template : String
  «variables» : List Variable := []
  defaultModel : Option String := none
  defaultParams : Option Value := none

structure VariantRecord where
  label : String
  version : UInt32
  weight : UInt32
  model : Option String := none
  params : Option Value := none

/-- A prompt as the file has it; the labels come in the order of their names. -/
structure PromptRecord where
  tenantId : String
  id : String
  name : String
  description : Option String := none
  latestVersion : Option UInt32 := none
  labels : Assoc String UInt32 := []
  experiments : Option Value := none
  variants : List VariantRecord := []
  versions : List VersionRecord

structure PromptFile where
  prompts : List PromptRecord

inductive PromptLoadError
  | read (path source : String)
  | parse (origin source : String)
  | duplicatePrompt (tenant id : String)
  | noVersions (id : String)
  | duplicateVersion (id : String) (version : UInt32)
  | invalidVersionNumber (id : String) (version : UInt32)
  | templateParse (id : String) (version : UInt32) (reason : String)
  | templateTooLarge (id : String) (version : UInt32) (size max : ℕ)
  | tooManyVariables (id : String) (version : UInt32) (count max : ℕ)
  | tooManyLabels (id : String) (count max : ℕ)
  | tooManyPrompts (tenant : String) (max : ℕ)
  | labelTargetMissing (id label : String) (version : UInt32)
  | latestVersionMissing (id : String) (version : UInt32)
  | legacyExperimentsBlock (id : String)
  | tooManyVariants (id : String) (count max : ℕ)
  | variantLabelInvalid (id label : String)
  | variantLabelCollision (id label : String)
  | variantVersionMissing (id label : String) (version : UInt32)
  | variantsZeroWeight (id : String)
  deriving DecidableEq, Repr

/-- Letters, digits, `_` and `-`, at most 64 of them, and not `v` and digits. -/
def variantLabelIsSane (label : String) : Bool :=
  label.utf8ByteSize ≠ 0 && label.utf8ByteSize ≤ 64 &&
    (label.toList.all fun c => c.isAlphanum || c = '_' || c = '-') &&
    match label.toList with
    | 'v' :: digits => digits.isEmpty || !digits.all Char.isDigit
    | _ => true

/-- Which variables a version declares, and whether it requires them; the last of one name counts. -/
def declaredOf (vs : List Variable) : Assoc String Bool :=
  vs.foldl (fun declared v => declared.insert v.name v.required) []

def loadVersion (bounds : Bounds) (id : String) (versions : Assoc UInt32 Version)
    (vrec : VersionRecord) : Except PromptLoadError (Assoc UInt32 Version) := do
  ensure (1 ≤ vrec.version) (.invalidVersionNumber id vrec.version)
  ensure (vrec.template.utf8ByteSize ≤ bounds.maxTemplateBytes)
    (.templateTooLarge id vrec.version vrec.template.utf8ByteSize bounds.maxTemplateBytes)
  ensure (vrec.variables.length ≤ bounds.maxVariables)
    (.tooManyVariables id vrec.version vrec.variables.length bounds.maxVariables)
  ensure (versions.get vrec.version).isNone (.duplicateVersion id vrec.version)
  let nodes ← (parseTemplate vrec.template).mapError (.templateParse id vrec.version)
  return versions.insert vrec.version
    { version := vrec.version, template := vrec.template, «variables» := vrec.variables,
      defaultModel := vrec.defaultModel, defaultParams := vrec.defaultParams, nodes,
      declared := declaredOf vrec.variables }

def loadVersions (bounds : Bounds) (rec : PromptRecord) :
    Except PromptLoadError (Assoc UInt32 Version) :=
  rec.versions.foldlM (loadVersion bounds rec.id) []

def checkLabels (rec : PromptRecord) (versions : Assoc UInt32 Version) :
    Except PromptLoadError Unit := do
  let _ ← each (fun _ e => ensure (versions.get e.2).isSome (.labelTargetMissing rec.id e.1 e.2)) 0
    rec.labels

def loadVariant (rec : PromptRecord) (versions : Assoc UInt32 Version) (variants : List Variant)
    (vrec : VariantRecord) : Except PromptLoadError (List Variant) := do
  ensure (variantLabelIsSane vrec.label = true) (.variantLabelInvalid rec.id vrec.label)
  ensure ((∀ v ∈ variants, v.label ≠ vrec.label) ∧ (rec.labels.get vrec.label).isNone)
    (.variantLabelCollision rec.id vrec.label)
  ensure (versions.get vrec.version).isSome (.variantVersionMissing rec.id vrec.label vrec.version)
  return variants ++
    [{ label := vrec.label, version := vrec.version, weight := vrec.weight, model := vrec.model,
       params := vrec.params }]

/-- The variants of a split; a split that is declared carries weight. -/
def loadVariants (rec : PromptRecord) (versions : Assoc UInt32 Version) :
    Except PromptLoadError (List Variant) := do
  ensure (rec.variants.length ≤ maxVariants)
    (.tooManyVariants rec.id rec.variants.length maxVariants)
  let variants ← rec.variants.foldlM (loadVariant rec versions) []
  ensure (variants = [] ∨ (variants.map fun v => v.weight.toNat).sum ≠ 0)
    (.variantsZeroWeight rec.id)
  return variants

/-- The greatest version of a map that is not empty. -/
def greatestVersion (versions : Assoc UInt32 Version) : UInt32 :=
  (versions.map (·.1)).foldl (fun m v => if m < v then v else m) 0

/-- The version the record names as its latest, else the greatest one. -/
def loadLatest (rec : PromptRecord) (versions : Assoc UInt32 Version) :
    Except PromptLoadError UInt32 :=
  match rec.latestVersion with
  | some v => do
    ensure (versions.get v).isSome (.latestVersionMissing rec.id v)
    return v
  | none => .ok (greatestVersion versions)

def loadPrompt (bounds : Bounds) (rec : PromptRecord) : Except PromptLoadError StoredPrompt := do
  ensure rec.experiments.isNone (.legacyExperimentsBlock rec.id)
  ensure (rec.versions ≠ []) (.noVersions rec.id)
  ensure (rec.labels.length ≤ bounds.maxLabels)
    (.tooManyLabels rec.id rec.labels.length bounds.maxLabels)
  let versions ← loadVersions bounds rec
  checkLabels rec versions
  let variants ← loadVariants rec versions
  let latest ← loadLatest rec versions
  return { id := rec.id, name := rec.name, description := rec.description, latestVersion := latest,
           labels := rec.labels, variants, versions }

/-- Add a record's prompt to those of its tenant. -/
def loadRecord (bounds : Bounds) (tenants : Assoc String (Assoc String StoredPrompt))
    (rec : PromptRecord) : Except PromptLoadError (Assoc String (Assoc String StoredPrompt)) := do
  let prompt ← loadPrompt bounds rec
  let entry := (tenants.get rec.tenantId).getD []
  ensure (entry.get rec.id).isNone (.duplicatePrompt rec.tenantId rec.id)
  ensure (entry.length < bounds.maxPromptsPerTenant)
    (.tooManyPrompts rec.tenantId bounds.maxPromptsPerTenant)
  return tenants.insert rec.tenantId (entry.insert rec.id prompt)

namespace PromptRegistry

section

-- `serde_json::from_str` and `std::fs::read_to_string`
variable (fromStr : String → Except String PromptFile) (readToString : String → Except String String)

def loadFromJson (content origin : String) (bounds : Bounds) :
    Except PromptLoadError PromptRegistry := do
  let file ← (fromStr content).mapError (.parse origin)
  let tenants ← file.prompts.foldlM (loadRecord bounds) []
  return { tenants }

def loadFromFile (path : String) (bounds : Bounds) : Except PromptLoadError PromptRegistry := do
  let content ← (readToString path).mapError (.read path)
  loadFromJson fromStr content path bounds

end

end PromptRegistry

end Routeplane.Prompts
