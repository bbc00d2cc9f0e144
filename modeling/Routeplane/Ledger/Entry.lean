import Routeplane.Lib.Assoc
import Routeplane.Residency.Classification
import Routeplane.Types.Text

/-!
# Entries of the audit ledger

A draft is a decision with the labels, versions and extensions that are recorded beside it. Labels
and extension keys are validated, the values of extensions are flags, counts and short codes.

The draft of an audit entry: which provider and model served a request, under which
residency requirement, with which outcome. Client-supplied text enters through the lossy
`CodeStr` and `BoundedText` alphabets only.

* `CodeStr`, `BoundedText`: strings of a closed alphabet and bounded length.
* `decisionDraft`: the draft of a decision.
* `Label`, `ExtKey`, `ExtValue`: the vocabulary.
* `Ledger.decisionDraft`: the draft of a routing decision.
* `SecurityEvent.toDraft`: the draft of a security event.
-/

namespace Routeplane

def maxCodeLen : ℕ := 16

def maxBoundedLen : ℕ := 64

def isCodeChar (c : Char) : Bool := c.isAlphanum || c == '_' || c == '-'

def isBoundedChar (c : Char) : Bool := c.isAlphanum || ['.', '_', '-', ':', '/', '+'].contains c

/-- Keep the allowed characters, truncate, and fall back when nothing is left. -/
def sanitizeText (ok : Char → Bool) (maxLen : ℕ) (fallback input : String) : String :=
  let cleaned := (input.toList.filter ok).take maxLen
  if cleaned.isEmpty then fallback else String.ofList cleaned

theorem sanitizeText_chars {ok : Char → Bool} {maxLen : ℕ} {fallback : String} (input : String)
    (hf : ∀ c ∈ fallback.toList, ok c = true) :
    ∀ c ∈ (sanitizeText ok maxLen fallback input).toList, ok c = true := by
  intro c hc
  simp only [sanitizeText] at hc
  split at hc
  · exact hf c hc
  · rw [String.toList_ofList] at hc
    exact (List.mem_filter.1 (List.mem_of_mem_take hc)).2

theorem sanitizeText_length {ok : Char → Bool} {maxLen : ℕ} {fallback : String} (input : String)
    (hf : fallback.toList.length ≤ maxLen) :
    (sanitizeText ok maxLen fallback input).toList.length ≤ maxLen := by
  simp only [sanitizeText]
  split
  · exact hf
  · rw [String.toList_ofList]
    exact List.length_take_le _ _

/-- A short code of `[A-Za-z0-9_-]`. -/
structure CodeStr where
  text : String
  chars : ∀ c ∈ text.toList, isCodeChar c = true
  length : text.toList.length ≤ maxCodeLen

def CodeStr.sanitized (input : String) : CodeStr where
  text := sanitizeText isCodeChar maxCodeLen "invalid" input
  chars := sanitizeText_chars input (by simp [isCodeChar])
  length := sanitizeText_length input (by decide)

/-- Bounded technical text: no whitespace, no `@`, no control character. -/
structure BoundedText where
  text : String
  chars : ∀ c ∈ text.toList, isBoundedChar c = true
  length : text.toList.length ≤ maxBoundedLen

def BoundedText.sanitized (input : String) : BoundedText where
  text := sanitizeText isBoundedChar maxBoundedLen "unknown" input
  chars := sanitizeText_chars input (by simp [isBoundedChar])
  length := sanitizeText_length input (by decide)

inductive Outcome
  | ok
  | residencyBlocked
  | allFailed
  | streamTruncated
  deriving DecidableEq, Repr, Inhabited

structure UsageTotals where
  promptTokens : UInt32
  completionTokens : UInt32
  totalTokens : UInt32
  deriving DecidableEq, Repr, Inhabited

structure DecisionDraft where
  tenantId : String
  requestId : String
  provider : Option CodeStr
  model : BoundedText
  region : Option CodeStr
  containsRegulatedData : Bool
  dataClasses : List String
  residencyRequired : Bool
  requiredRegions : List CodeStr
  sovereignRouted : Bool
  clientOverrideApplied : Bool
  outcome : Outcome
  usage : UsageTotals

def decisionDraft (tenantId requestId model : String) (provider routeRegion : Option String)
    (classification : Classification) (requiredRegion : Option String)
    (sovereignRouted clientProviderRequested : Bool) (outcome : Outcome) (usage : UsageTotals) :
    DecisionDraft where
  tenantId := tenantId
  requestId := requestId
  provider := provider.map CodeStr.sanitized
  model := BoundedText.sanitized model
  region := routeRegion.map CodeStr.sanitized
  containsRegulatedData := classification.containsPersonalData
  dataClasses := classification.entities.map EntityType.label
  residencyRequired := requiredRegion.isSome
  requiredRegions := (requiredRegion.map fun r => [CodeStr.sanitized r]).getD []
  sovereignRouted := sovereignRouted
  clientOverrideApplied := sovereignRouted && clientProviderRequested
  outcome := outcome
  usage := usage

end Routeplane

/-! ## Entries of the audit ledger -/

namespace Routeplane.Ledger

/-- Why a text is no label. -/
structure LabelError where
  reason : String
  deriving DecidableEq, Repr

def isLabelChar (c : Char) : Bool := c.isLower || c.isDigit || c == '_'

def validLabelSegment (s : String) (max : ℕ) : Except LabelError Unit :=
  match s.toList.head? with
  | none => .error ⟨"empty"⟩
  | some first =>
    if max < s.utf8ByteSize then .error ⟨"too long"⟩
    else if !first.isLower then .error ⟨"must start with a lowercase ascii letter"⟩
    else if !s.toList.all isLabelChar then .error ⟨"only [a-z0-9_] allowed"⟩
    else .ok ()

def maxLabelLen : ℕ := 32

def validLabel (label : String) : Except LabelError Unit := validLabelSegment label maxLabelLen

/-- An identifier of a closed vocabulary: a data class, a profile. -/
structure Label where
  text : String
  valid : validLabel text = .ok ()
  deriving DecidableEq, Repr

def Label.new (label : String) : Except LabelError Label :=
  match h : validLabel label with
  | .error e => .error e
  | .ok () => .ok ⟨label, h⟩

/-- A label that is known to be one. -/
def Label.known (label : String) : Label :=
  if h : validLabel label = .ok () then ⟨label, h⟩ else ⟨"invalid", by decide⟩

def maxExtKeyLen : ℕ := 64

def validExtKey (key : String) : Except LabelError Unit :=
  if maxExtKeyLen < key.utf8ByteSize then .error ⟨"too long"⟩
  else
    let segments := splitText '.' key
    if segments.length < 2 then
      .error ⟨"extension keys must be profile-namespaced (e.g. dpdp.x)"⟩
    else segments.forM fun segment => validLabelSegment segment maxLabelLen

/-- The key of an extension, in the namespace of its profile. -/
structure ExtKey where
  text : String
  valid : validExtKey text = .ok ()
  deriving DecidableEq, Repr

def ExtKey.known (key : String) : ExtKey :=
  if h : validExtKey key = .ok () then ⟨key, h⟩ else ⟨"invalid.invalid", by decide⟩

inductive ExtValue
  | bool (b : Bool)
  | count (n : UInt64)
  | code (c : CodeStr)

/-- What the ledger is handed, and chains into an entry. -/
structure Draft extends DecisionDraft where
  labelled : ∀ label ∈ dataClasses, validLabel label = .ok ()
  timestamp : String
  profileId : Label
  profileVersion : UInt32
  classifierVersion : BoundedText
  ext : Assoc ExtKey ExtValue

/-! ## Routing decisions -/

def profile0Id : String := "dpdp_rbi"

def profile0Version : UInt32 := 1

def classifierVersion : String := "routeplane-residency/0.4.2"

/-- What is known of a decision when it is recorded. -/
structure Decision where
  tenantId : String
  requestId : String
  model : String
  provider : Option String
  routeRegion : Option String
  classification : Classification
  requiredRegion : Option String
  sovereignRouted : Bool
  clientProviderRequested : Bool
  outcome : Outcome
  usage : UsageTotals

theorem validLabel_entity (e : EntityType) : validLabel e.label = .ok () := by
  cases e <;> decide

/-- The draft of a decision; it is recorded at `now`. -/
def decisionDraft (now : String) (d : Decision) : Draft where
  toDecisionDraft := Routeplane.decisionDraft d.tenantId d.requestId d.model d.provider
    d.routeRegion d.classification d.requiredRegion d.sovereignRouted d.clientProviderRequested
    d.outcome d.usage
  labelled := by
    intro label hlabel
    obtain ⟨e, -, rfl⟩ := List.mem_map.1 hlabel
    exact validLabel_entity e
  timestamp := now
  profileId := .known profile0Id
  profileVersion := profile0Version
  classifierVersion := .sanitized classifierVersion
  ext := [(.known "dpdp.personal_data_present", .bool d.classification.containsPersonalData),
    (.known "rbi.localization_relevant", .bool (d.requiredRegion == some "IN"))]

/-! ## Security events -/

inductive SecurityCategory
  | authFailure
  | authThrottle
  | guardrailDeny
  | residencyBlock
  | rateLimit
  | budgetBreach
  | mcpAuthorizeDeny
  | mcpAnomalyFlag
  | mcpEgressDeny
  | mcpQuotaExceeded
  | mcpResultTooLarge
  | systemPromptLeak
  | toolCallDenied
  | complianceBlock
  deriving DecidableEq, Repr, Inhabited

def SecurityCategory.label : SecurityCategory → String
  | authFailure => "auth_failure"
  | authThrottle => "auth_throttle"
  | guardrailDeny => "guardrail_deny"
  | residencyBlock => "residency_block"
  | rateLimit => "rate_limit"
  | budgetBreach => "budget_breach"
  | mcpAuthorizeDeny => "mcp_authorize_deny"
  | mcpAnomalyFlag => "mcp_anomaly_flag"
  | mcpEgressDeny => "mcp_egress_deny"
  | mcpQuotaExceeded => "mcp_quota_exceeded"
  | mcpResultTooLarge => "mcp_result_too_large"
  | systemPromptLeak => "system_prompt_leak"
  | toolCallDenied => "tool_call_denied"
  | complianceBlock => "compliance_block"

inductive SecurityOutcome
  | allow
  | deny
  | throttle
  deriving DecidableEq, Repr, Inhabited

def SecurityOutcome.code : SecurityOutcome → String
  | allow => "allow"
  | deny => "deny"
  | throttle => "throttle"

/-- A throttled request is recorded as a blocked one. -/
def SecurityOutcome.toOutcome : SecurityOutcome → Outcome
  | allow => .ok
  | deny | throttle => .residencyBlocked

structure SecurityEvent where
  eventId : String
  timestamp : String
  category : SecurityCategory
  outcome : SecurityOutcome
  count : Option UInt64 := none
  detailCode : Option String := none
  tenantId : Option String := none

def securityProfileId : String := "security"

def securityProfileVersion : UInt32 := 1

/-- The tenant of an event that belongs to none. -/
def securityGlobalScope : String := "_global"

/-- `CodeStr::new`. -/
def newCode (code : String) : Except LabelError CodeStr :=
  if code.isEmpty then .error ⟨"empty"⟩
  else if maxCodeLen < code.utf8ByteSize then .error ⟨"too long"⟩
  -- a code character is one byte, so the length is no test of its own
  else if h : code.toList.all isCodeChar = true ∧ code.toList.length ≤ maxCodeLen then
    .ok ⟨code, List.all_eq_true.1 h.1, h.2⟩
  else .error ⟨"only [A-Za-z0-9_-] allowed"⟩

def SecurityEvent.toDraft (e : SecurityEvent) : Except LabelError Draft := do
  let category ← Label.new e.category.label
  let outcome ← newCode e.outcome.code
  return {
    tenantId := e.tenantId.getD securityGlobalScope
    requestId := e.eventId
    provider := none
    model := .sanitized "security-event"
    region := none
    containsRegulatedData := false
    dataClasses := [category.text]
    residencyRequired := false
    requiredRegions := []
    sovereignRouted := false
    clientOverrideApplied := false
    outcome := e.outcome.toOutcome
    usage := ⟨0, 0, 0⟩
    labelled := by simpa using category.valid
    timestamp := e.timestamp
    profileId := .known securityProfileId
    profileVersion := securityProfileVersion
    classifierVersion := .sanitized "routeplane-security/1"
    ext := e.count.elim [] (fun n => [(.known "sec.count", .count n)]) ++
      e.detailCode.elim [] (fun detail => [(.known "sec.detail", .code (.sanitized detail))]) ++
      [(.known "sec.outcome", .code outcome)] }

end Routeplane.Ledger
