import Routeplane.Guardrails.Redact

/-!
# The identifiers that are masked in a text

Redaction masks the secrets first and then runs one pass a kind of personal identifier. What the
passes take is what is identified.

* `personalPasses`, `redact_of_working`: the masker as a fold of its passes.
* `maskedIdentifiers`: the personal identifiers that are masked in a text, as they are read.
* `exists_not_quiet`: none of them is written in small letters, dots and underscores only.
-/

namespace Routeplane.Guardrails

open Pattern

/-- A pass for one kind of identifier: the matches it takes, in the text it reads. -/
structure Pass where
  pattern : Pattern
  takes : List Char → Hit → Bool
  token : String

namespace Pass

def run (p : Pass) (text : List Char) : List Char :=
  p.pattern.replaceAll (fun m => if p.takes text m then p.token.toList else m.text) text

/-- What the pass takes of a text. -/
def taken (p : Pass) (text : List Char) : List (List Char) :=
  ((p.pattern.findIter text).filter (p.takes text)).map Hit.text

/-- A pass that looks at the matches alone. -/
def of (pattern : Pattern) (valid : List Char → Bool) (token : String) : Pass :=
  ⟨pattern, fun _ m => valid m.text, token⟩

theorem run_of (pattern : Pattern) (valid : List Char → Bool) (token : String)
    (text : List Char) : (of pattern valid token).run text = maskValid pattern valid token text := rfl

theorem run_all (pattern : Pattern) (token : String) (text : List Char) :
    (of pattern (fun _ => true) token).run text = maskAll pattern token text := rfl

theorem run_isolated (pattern : Pattern) (valid : List Char → Bool) (token : String)
    (text : List Char) :
    (⟨pattern, isolated valid, token⟩ : Pass).run text =
      maskIsolated pattern valid token text := rfl

end Pass

section

variable (U : UnicodeTables)

/-- The passes before the ones for personal identifiers. -/
def maskSecrets (working : List Char) : List Char :=
  let out := maskAll Recognizer.privateKey "[PRIVATE_KEY_MASKED]" working
  let out := maskJsonSecrets out
  let out := maskValid (Recognizer.connectionString U) isConnectionString
    "[CONNECTION_STRING_MASKED]" out
  let out := maskAll (Recognizer.cloudResourceId U) "[CLOUD_RESOURCE_ID_MASKED]" out
  let out := maskValid Recognizer.schemaDump isSchemaDump "[SCHEMA_DUMP_MASKED]" out
  let out := maskAll (Recognizer.jwt U) "[JWT_MASKED]" out
  let out := maskAll (Recognizer.openaiKey U) "[OPENAI_KEY_MASKED]" out
  let out := maskAll (Recognizer.awsKey U) "[AWS_KEY_MASKED]" out
  let out := maskAll (Recognizer.githubToken U) "[GITHUB_TOKEN_MASKED]" out
  let out := maskAll (Recognizer.slackToken U) "[SLACK_TOKEN_MASKED]" out
  let out := maskAll (Recognizer.stripeKey U) "[STRIPE_KEY_MASKED]" out
  let out := maskAll (Recognizer.googleApiKey U) "[GOOGLE_API_KEY_MASKED]" out
  maskAll (Recognizer.routeplaneKey U) "[ROUTEPLANE_KEY_MASKED]" out

def personalPasses : List Pass :=
  [.of (Recognizer.aadhaar U) isAadhaar "[AADHAAR_MASKED]",
    .of (Recognizer.card U) isCard "[CARD_MASKED]", .of (Recognizer.iban U) isIban "[IBAN_MASKED]",
    .of (Recognizer.cpf U) isCpf "[CPF_MASKED]", .of (Recognizer.nric U) isNric "[NRIC_MASKED]",
    .of (Recognizer.gstin U) isGstin "[GSTIN_MASKED]",
    .of (Recognizer.ifsc U) isIfsc "[IFSC_MASKED]",
    .of (Recognizer.emiratesId U) isEmiratesId "[EMIRATES_ID_MASKED]",
    ⟨Recognizer.myNumber U, isolated isMyNumber, "[MY_NUMBER_MASKED]"⟩,
    .of (Recognizer.saudiId U) isSaudiId "[SAUDI_ID_MASKED]",
    ⟨Recognizer.tfn U, isolated isTfn, "[TFN_MASKED]"⟩,
    .of (Recognizer.ssn U) (fun _ => true) "[SSN_MASKED]",
    ⟨Recognizer.pan U, fun text m => acceptPan ((Recognizer.panCue U).isMatch text) m.text,
      "[PAN_MASKED]"⟩,
    .of (Recognizer.ipv4 U) isIpv4 "[IP_MASKED]",
    .of Recognizer.email (fun _ => true) "[EMAIL_MASKED]",
    .of (Recognizer.phone U) (fun _ => true) "[PHONE_MASKED]"]

/-- **The masker is a fold of its passes.** -/
theorem redact_of_working {text working : List Char}
    (hw : maskInvisibleSmuggled U text = some working) (hany : anyPiiOrSecret U working = true) :
    redact U text =
      some ((personalPasses U).foldl (fun out p => p.run out) (maskSecrets U working)) := by
  unfold redact
  rw [hw]
  show (if (!anyPiiOrSecret U working) = true then _ else _) = _
  have hpan : ∀ out, (⟨Recognizer.pan U, fun text m => acceptPan
      ((Recognizer.panCue U).isMatch text) m.text, "[PAN_MASKED]"⟩ : Pass).run out =
      maskPan U out := fun out => rfl
  rw [hany]
  simp only [personalPasses, List.foldl_cons, List.foldl_nil, hpan, Pass.run_all,
    Pass.run_isolated]
  simp only [Pass.run_of]
  rfl

/-! ## What is identified -/

/-- What the passes take, one after the other. -/
def takenBy : List Pass → List Char → List (List Char)
  | [], _ => []
  | p :: ps, out => p.taken out ++ takenBy ps (p.run out)

/-- The identifiers that the passes take in a text. -/
def plainIdentifiers (text : List Char) : List (List Char) :=
  match maskInvisibleSmuggled U text with
  | none => []
  | some working =>
    if anyPiiOrSecret U working then takenBy (personalPasses U) (maskSecrets U working) else []

/-- The recognizers of the pass over what is smuggled that are for personal identifiers. -/
def personalRows : List Row := (smuggledRows U).drop 9

/-- A match that is claimed under its token. -/
def isClaimed (map : List ℕ) (claims : List Claim) (row : Row) (m : Hit) : Bool :=
  claims.any fun c => map[byteLen m.start.before]? == some c.start &&
    map[byteLen m.stop.place.before]? == some c.stop && c.token == row.2.2

/-- The identifiers that are masked where they are hidden, as they are read. -/
def hiddenIdentifiers (text : List Char) : List (List Char) :=
  if !containsInvisibleUnicode text && !containsConfusable text then []
  else
    let (stripped, map) := stripInvisibleWithMap text
    let claims := (smuggledClaims U text).getD []
    (personalRows U).flatMap fun row =>
      ((row.1.findIter stripped).filter (isClaimed map claims row)).map Hit.text

/-- The personal identifiers that `redact` masks in a text. -/
def maskedIdentifiers (text : List Char) : List (List Char) :=
  hiddenIdentifiers U text ++ plainIdentifiers U text

/-- Small letters, the dot and the underscore. -/
def quietChars : List Char := "abcdefghijklmnopqrstuvwxyz_.".toList

variable {U}

theorem passes_alien : ∀ p ∈ personalPasses U, p.pattern.alien quietChars = true := by
  unfold personalPasses
  simp only [List.forall_mem_cons, List.not_mem_nil, false_imp_iff, implies_true, and_true]
  exact ⟨rfl, rfl, rfl, rfl, rfl, rfl, rfl, rfl, rfl, rfl, rfl, rfl, rfl, rfl, rfl, rfl⟩

theorem rows_alien : ∀ row ∈ personalRows U, row.1.alien quietChars = true := by
  unfold personalRows smuggledRows
  simp only [List.drop_succ_cons, List.drop_zero, List.forall_mem_cons, List.not_mem_nil,
    false_imp_iff, implies_true, and_true]
  exact ⟨rfl, rfl, rfl, rfl, rfl, rfl, rfl, rfl, rfl, rfl, rfl, rfl, rfl, rfl, rfl, rfl⟩

theorem exists_of_mem_takenBy {ps : List Pass} {out id : List Char} (h : id ∈ takenBy ps out) :
    ∃ p ∈ ps, ∃ m, IsHit p.pattern m ∧ id = m.text := by
  induction ps generalizing out with
  | nil => cases h
  | cons p ps ih =>
    rcases List.mem_append.1 h with h | h
    · obtain ⟨m, hm, rfl⟩ := List.mem_map.1 h
      have hscan := mem_findIter.1 (List.mem_filter.1 hm).1
      exact ⟨p, List.mem_cons_self, m, isHit_of_mem_scan hscan, rfl⟩
    · obtain ⟨q, hq, hrest⟩ := ih h
      exact ⟨q, List.mem_cons_of_mem p hq, hrest⟩

/-- **An identifier is not written in quiet characters only.** -/
theorem exists_not_quiet {text id : List Char} (h : id ∈ maskedIdentifiers U text) :
    ∃ c ∈ id, c ∉ quietChars := by
  rcases List.mem_append.1 h with h | h
  · unfold hiddenIdentifiers at h
    split at h
    · cases h
    · obtain ⟨row, hrow, hid⟩ := List.mem_flatMap.1 h
      obtain ⟨m, hm, rfl⟩ := List.mem_map.1 hid
      have hscan := mem_findIter.1 (List.mem_filter.1 hm).1
      exact exists_alien_of_isHit (isHit_of_mem_scan hscan) (rows_alien row hrow)
  · unfold plainIdentifiers at h
    split at h
    · cases h
    · split at h
      · obtain ⟨p, hp, m, hm, rfl⟩ := exists_of_mem_takenBy h
        exact exists_alien_of_isHit hm (passes_alien p hp)
      · cases h

end

end Routeplane.Guardrails
