import Routeplane.Guardrails.Recognizers
import Mathlib.Data.List.Sort

/-!
# Redaction

A text is masked pattern by pattern, each over what the one before it left. What is hidden between
invisible or lookalike characters is masked before, at the place it was found at in a copy without
them.

A stream is masked chunk by chunk with the last bytes held back. What is before them is emitted where
its mask alone is what the mask of all that is held starts with.

* `maskInvisibleSmuggled`: the pass over what is hidden.
* `redact`: the masker.
* `redactWithPiiTokens`: the masker that asks a hook for a surrogate first.
* `scanPii`: the kinds of identifier in a text.
* `StreamMasker.push`, `flush`: the masker of a stream.
* `StreamMasker.stream`: all that is emitted for a text in chunks.
-/

namespace Routeplane.Guardrails

open Pattern

/-! ## Slices -/

/-- A text without its first `n` bytes, if these end at a character. -/
def dropBytes : ℕ → List Char → Option (List Char)
  | n, [] => if n = 0 then some [] else none
  | n, c :: cs =>
    if n = 0 then some (c :: cs)
    else if c.utf8Size ≤ n then dropBytes (n - c.utf8Size) cs else none

/-- The first `n` bytes of a text, if these end at a character. -/
def takeBytes : ℕ → List Char → Option (List Char)
  | n, [] => if n = 0 then some [] else none
  | n, c :: cs =>
    if n = 0 then some []
    else if c.utf8Size ≤ n then (takeBytes (n - c.utf8Size) cs).map (c :: ·) else none

/-- `&text[start..stop]`; there is none where that panics. -/
def slice (text : List Char) (start stop : ℕ) : Option (List Char) :=
  if stop < start then none else (dropBytes start text).bind (takeBytes (stop - start))

/-! ## What is smuggled -/

/-- The text a recognizer reads, from the character at the offset `ob` on, and for each of its bytes
the offset of the character that the byte comes from. -/
def stripFrom : ℕ → List Char → List Char × List ℕ
  | ob, [] => ([], [ob])
  | ob, ch :: rest =>
    let tail := stripFrom (ob + ch.utf8Size) rest
    if isInvisible ch then tail
    else
      (foldConfusable ch :: tail.1, List.replicate (foldConfusable ch).utf8Size ob ++ tail.2)

def stripInvisibleWithMap (text : List Char) : List Char × List ℕ := stripFrom 0 text

/-- The bytes of a text that a token takes the place of. -/
structure Claim where
  start : ℕ
  stop : ℕ
  token : String
  deriving DecidableEq, Repr

/-- A pattern, the test of its matches if there is one and the token of a match. -/
abbrev Row := Pattern × Option (List Char → Bool) × String

/-- The recognizers of the pass, in the order they claim. -/
def smuggledRows (U : UnicodeTables) : List Row :=
  [(Recognizer.privateKey, none, "[PRIVATE_KEY_MASKED]"), (Recognizer.jwt U, none, "[JWT_MASKED]"),
    (Recognizer.openaiKey U, none, "[OPENAI_KEY_MASKED]"),
    (Recognizer.awsKey U, none, "[AWS_KEY_MASKED]"),
    (Recognizer.githubToken U, none, "[GITHUB_TOKEN_MASKED]"),
    (Recognizer.slackToken U, none, "[SLACK_TOKEN_MASKED]"),
    (Recognizer.stripeKey U, none, "[STRIPE_KEY_MASKED]"),
    (Recognizer.googleApiKey U, none, "[GOOGLE_API_KEY_MASKED]"),
    (Recognizer.routeplaneKey U, none, "[ROUTEPLANE_KEY_MASKED]"),
    (Recognizer.aadhaar U, some isAadhaar, "[AADHAAR_MASKED]"),
    (Recognizer.card U, some isCard, "[CARD_MASKED]"),
    (Recognizer.iban U, some isIban, "[IBAN_MASKED]"),
    (Recognizer.cpf U, some isCpf, "[CPF_MASKED]"),
    (Recognizer.nric U, some isNric, "[NRIC_MASKED]"),
    (Recognizer.emiratesId U, some isEmiratesId, "[EMIRATES_ID_MASKED]"),
    (Recognizer.myNumber U, some isMyNumber, "[MY_NUMBER_MASKED]"),
    (Recognizer.saudiId U, some isSaudiId, "[SAUDI_ID_MASKED]"),
    (Recognizer.tfn U, some isTfn, "[TFN_MASKED]"), (Recognizer.ssn U, none, "[SSN_MASKED]"),
    (Recognizer.gstin U, some isGstin, "[GSTIN_MASKED]"),
    (Recognizer.ifsc U, some isIfsc, "[IFSC_MASKED]"), (Recognizer.pan U, none, "[PAN_MASKED]"),
    (Recognizer.ipv4 U, some isIpv4, "[IP_MASKED]"), (Recognizer.email, none, "[EMAIL_MASKED]"),
    (Recognizer.phone U, none, "[PHONE_MASKED]")]

/-- A span that has an invisible or a lookalike character. -/
def obfuscated (span : List Char) : Bool :=
  span.any isInvisible || span.any fun c => foldConfusable c != c

def Claim.overlaps (c : Claim) (start stop : ℕ) : Bool := start < c.stop && c.start < stop

/-- One match of a recognizer, which may be claimed. -/
def claimHit (text : List Char) (map : List ℕ) (row : Row) (claims : List Claim) (m : Hit) :
    Option (List Claim) :=
  if row.2.1.any fun valid => !valid m.text then some claims
  else do
    let os ← map[byteLen m.start.before]?
    let oe ← map[byteLen m.stop.place.before]?
    let span ← slice text os oe
    if !obfuscated span then some claims
    else if claims.any fun c => c.overlaps os oe then some claims
    else some (claims ++ [⟨os, oe, row.2.2⟩])

def claimRow (text stripped : List Char) (map : List ℕ) (claims : List Claim) (row : Row) :
    Option (List Claim) :=
  (row.1.findIter stripped).foldlM (claimHit text map row) claims

def smuggledClaims (U : UnicodeTables) (text : List Char) : Option (List Claim) :=
  let (stripped, map) := stripInvisibleWithMap text
  (smuggledRows U).foldlM (claimRow text stripped map) []

/-- The text from an offset on, with each claim replaced by its token. -/
def splice (text : List Char) : ℕ → List Claim → Option (List Char)
  | cursor, [] => slice text cursor (byteLen text)
  | cursor, c :: claims => do
    let before ← slice text cursor c.start
    let rest ← splice text c.stop claims
    return before ++ c.token.toList ++ rest

def maskInvisibleSmuggled (U : UnicodeTables) (text : List Char) : Option (List Char) :=
  if !containsInvisibleUnicode text && !containsConfusable text then some text
  else do
    let claims ← smuggledClaims U text
    if claims = [] then some text
    else splice text 0 (claims.insertionSort fun a b => a.start ≤ b.start)

/-! ## The passes -/

/-- A pass that masks every match. -/
def maskAll (p : Pattern) (token : String) : List Char → List Char :=
  p.replaceAll fun _ => token.toList

def maskIf (valid : List Char → Bool) (token : String) (m : Hit) : List Char :=
  if valid m.text then token.toList else m.text

/-- A pass that masks the matches that are valid. -/
def maskValid (p : Pattern) (valid : List Char → Bool) (token : String) : List Char → List Char :=
  p.replaceAll (maskIf valid token)

/-- `str::replacen` of one occurrence. -/
def replaceFirst (piece new : List Char) : List Char → List Char
  | [] => if piece = [] then new else []
  | c :: cs =>
    if piece.isPrefixOf (c :: cs) then new ++ (c :: cs).drop piece.length
    else c :: replaceFirst piece new cs

/-- The value of a secret masked, for its key is kept. -/
def maskJsonSecret (m : Hit) : List Char :=
  let val := m.captured.getD []
  if isJsonSecretValue val then replaceFirst val "[JSON_SECRET_MASKED]".toList m.text else m.text

def maskJsonSecrets : List Char → List Char := Recognizer.jsonSecret.replaceAll maskJsonSecret

/-- Whether the digits from `start` to `stop` are not part of a longer grouped number. -/
def isMaximalGroup (bytes : List UInt8) (start stop : ℕ) : Bool :=
  let extendsLeft := match start with
    | 0 => false
    | 1 => isAsciiDigit (byteAt bytes 0)
    | n + 2 =>
      let b := byteAt bytes (n + 1)
      isAsciiDigit b || ((b == 45 || b == 32) && isAsciiDigit (byteAt bytes n))
  let extendsRight := match bytes[stop]? with
    | none => false
    | some b =>
      if isAsciiDigit b then true
      else if b == 45 || b == 32 then bytes[stop + 1]?.any isAsciiDigit else false
  !extendsLeft && !extendsRight

/-- A match that is valid and a number of its own. -/
def isolated (valid : List Char → Bool) (text : List Char) (m : Hit) : Bool :=
  valid m.text &&
    isMaximalGroup (asBytes text) (byteLen m.start.before) (byteLen m.stop.place.before)

def maskIsolated (p : Pattern) (valid : List Char → Bool) (token : String) (text : List Char) :
    List Char :=
  p.replaceAll (fun m => if isolated valid text m then token.toList else m.text) text

/-- A PAN in capitals stands alone; one in small letters needs the word next to it. -/
def acceptPan (cue : Bool) (hit : List Char) : Bool := isPan hit && (!hit.any Char.isLower || cue)

def maskPan (U : UnicodeTables) (text : List Char) : List Char :=
  maskValid (Recognizer.pan U) (acceptPan ((Recognizer.panCue U).isMatch text)) "[PAN_MASKED]" text

section

variable (U : UnicodeTables)

/-- The masker. -/
def redact (text : List Char) : Option (List Char) := do
  let working ← maskInvisibleSmuggled U text
  if !anyPiiOrSecret U working then return working
  let out := maskAll Recognizer.privateKey "[PRIVATE_KEY_MASKED]" working
  let out := maskJsonSecrets out
  let out := maskValid (Recognizer.connectionString U) isConnectionString
    "[CONNECTION_STRING_MASKED]" out
  let out := maskAll (Recognizer.cloudResourceId U) "[CLOUD_RESOURCE_ID_MASKED]" out
  let out := maskValid Recognizer.schemaDump isSchemaDump "[SCHEMA_DUMP_MASKED]" out
  let out := maskAll (Recognizer.jwt U) "[JWT_MASKED]" out
  let out := maskAll (Recognizer.openaiKey U) "[OPENAI_KEY_MASKED]" out
  let out := maskAll (Recognizer.awsKey U) "[AWS_KEY_MASKED]" out
  let out := maskAll (Recognizer.githubToken U) "[GITHUB_TOKEN_MASKED]" out
  let out := maskAll (Recognizer.slackToken U) "[SLACK_TOKEN_MASKED]" out
  let out := maskAll (Recognizer.stripeKey U) "[STRIPE_KEY_MASKED]" out
  let out := maskAll (Recognizer.googleApiKey U) "[GOOGLE_API_KEY_MASKED]" out
  let out := maskAll (Recognizer.routeplaneKey U) "[ROUTEPLANE_KEY_MASKED]" out
  let out := maskValid (Recognizer.aadhaar U) isAadhaar "[AADHAAR_MASKED]" out
  let out := maskValid (Recognizer.card U) isCard "[CARD_MASKED]" out
  let out := maskValid (Recognizer.iban U) isIban "[IBAN_MASKED]" out
  let out := maskValid (Recognizer.cpf U) isCpf "[CPF_MASKED]" out
  let out := maskValid (Recognizer.nric U) isNric "[NRIC_MASKED]" out
  -- a GSTIN has a PAN in it, and an IFSC no check digit
  let out := maskValid (Recognizer.gstin U) isGstin "[GSTIN_MASKED]" out
  let out := maskValid (Recognizer.ifsc U) isIfsc "[IFSC_MASKED]" out
  let out := maskValid (Recognizer.emiratesId U) isEmiratesId "[EMIRATES_ID_MASKED]" out
  let out := maskIsolated (Recognizer.myNumber U) isMyNumber "[MY_NUMBER_MASKED]" out
  let out := maskValid (Recognizer.saudiId U) isSaudiId "[SAUDI_ID_MASKED]" out
  let out := maskIsolated (Recognizer.tfn U) isTfn "[TFN_MASKED]" out
  let out := maskAll (Recognizer.ssn U) "[SSN_MASKED]" out
  let out := maskPan U out
  let out := maskValid (Recognizer.ipv4 U) isIpv4 "[IP_MASKED]" out
  let out := maskAll Recognizer.email "[EMAIL_MASKED]" out
  return maskAll (Recognizer.phone U) "[PHONE_MASKED]" out

/-! ## The passes with a hook -/

/-- The hook: a surrogate for an identifier of a category, if it gives one, and its next state. -/
abbrev Hook (σ : Type) := String → List Char → StateM σ (Option (List Char))

variable {σ : Type} (tokenize : Hook σ)

def tokOrMask (candidate : List Char) (valid : List Char → Bool) (category mask : String) :
    StateM σ (List Char) := do
  if !valid candidate then return candidate
  match ← tokenize category candidate with
  | some surrogate => return surrogate
  | none => return mask.toList

/-- A pass that asks the hook for a surrogate of each valid match. -/
def tokenizeValid (p : Pattern) (valid : List Char → Bool) (category mask : String) :
    List Char → StateM σ (List Char) :=
  p.replaceAllM fun m => tokOrMask tokenize m.text valid category mask

def tokenizeIsolated (p : Pattern) (valid : List Char → Bool) (category mask : String)
    (text : List Char) : StateM σ (List Char) :=
  p.replaceAllM (fun m => do
    if !isolated valid text m then return m.text
    match ← tokenize category m.text with
    | some surrogate => return surrogate
    | none => return mask.toList) text

/-- The masker that asks for a surrogate of what can be restored. -/
def redactWithPiiTokens (text : List Char) : StateM σ (Option (List Char)) := do
  let some working := maskInvisibleSmuggled U text | return none
  if !anyPiiOrSecret U working then return some working
  let out := maskAll Recognizer.privateKey "[PRIVATE_KEY_MASKED]" working
  let out := maskJsonSecrets out
  let out := maskValid (Recognizer.connectionString U) isConnectionString
    "[CONNECTION_STRING_MASKED]" out
  let out := maskAll (Recognizer.cloudResourceId U) "[CLOUD_RESOURCE_ID_MASKED]" out
  let out := maskValid Recognizer.schemaDump isSchemaDump "[SCHEMA_DUMP_MASKED]" out
  let out := maskAll (Recognizer.jwt U) "[JWT_MASKED]" out
  let out := maskAll (Recognizer.openaiKey U) "[OPENAI_KEY_MASKED]" out
  let out := maskAll (Recognizer.awsKey U) "[AWS_KEY_MASKED]" out
  let out := maskAll (Recognizer.githubToken U) "[GITHUB_TOKEN_MASKED]" out
  let out := maskAll (Recognizer.slackToken U) "[SLACK_TOKEN_MASKED]" out
  let out := maskAll (Recognizer.stripeKey U) "[STRIPE_KEY_MASKED]" out
  let out := maskAll (Recognizer.googleApiKey U) "[GOOGLE_API_KEY_MASKED]" out
  let out := maskAll (Recognizer.routeplaneKey U) "[ROUTEPLANE_KEY_MASKED]" out
  let out ← tokenizeValid tokenize (Recognizer.aadhaar U) isAadhaar "aadhaar" "[AADHAAR_MASKED]" out
  let out ← tokenizeValid tokenize (Recognizer.card U) isCard "credit_card" "[CARD_MASKED]" out
  let out := maskValid (Recognizer.iban U) isIban "[IBAN_MASKED]" out
  let out := maskValid (Recognizer.cpf U) isCpf "[CPF_MASKED]" out
  let out := maskValid (Recognizer.nric U) isNric "[NRIC_MASKED]" out
  let out ← tokenizeValid tokenize (Recognizer.emiratesId U) isEmiratesId "emirates_id"
    "[EMIRATES_ID_MASKED]" out
  let out ← tokenizeIsolated tokenize (Recognizer.myNumber U) isMyNumber "my_number"
    "[MY_NUMBER_MASKED]" out
  let out ← tokenizeValid tokenize (Recognizer.saudiId U) isSaudiId "saudi_id"
    "[SAUDI_ID_MASKED]" out
  let out ← tokenizeIsolated tokenize (Recognizer.tfn U) isTfn "tfn" "[TFN_MASKED]" out
  let out ← tokenizeValid tokenize (Recognizer.ssn U) (fun _ => true) "ssn" "[SSN_MASKED]" out
  let out := maskPan U out
  let out := maskValid (Recognizer.ipv4 U) isIpv4 "[IP_MASKED]" out
  let out := maskAll Recognizer.email "[EMAIL_MASKED]" out
  let out ← tokenizeValid tokenize (Recognizer.phone U) (fun _ => true) "phone" "[PHONE_MASKED]" out
  return some out

/-! ## Scanning -/

/-- The kinds of identifier in a text. -/
def scanPii (text : List Char) : List String :=
  let found (p : Pattern) (valid : List Char → Bool) := (p.findIter text).any fun m => valid m.text
  let foundIsolated (p : Pattern) (valid : List Char → Bool) :=
    (p.findIter text).any (isolated valid text)
  ([(Recognizer.email.isMatch text, "email"), ((Recognizer.phone U).isMatch text, "phone"),
    ((Recognizer.ssn U).isMatch text, "ssn"),
    (found (Recognizer.pan U) (acceptPan ((Recognizer.panCue U).isMatch text)), "pan"),
    (found (Recognizer.aadhaar U) isAadhaar, "aadhaar"),
    (found (Recognizer.gstin U) isGstin, "gstin"), (found (Recognizer.ifsc U) isIfsc, "ifsc"),
    (found (Recognizer.card U) isCard, "credit_card"), (found (Recognizer.ipv4 U) isIpv4, "ipv4"),
    (found (Recognizer.iban U) isIban, "iban"), (found (Recognizer.cpf U) isCpf, "cpf"),
    (found (Recognizer.nric U) isNric, "nric"),
    (found (Recognizer.emiratesId U) isEmiratesId, "emirates_id"),
    (found (Recognizer.saudiId U) isSaudiId, "saudi_id"),
    (foundIsolated (Recognizer.tfn U) isTfn, "tfn"),
    (foundIsolated (Recognizer.myNumber U) isMyNumber, "my_number")].filter (·.1)).map (·.2)

end

/-! ## Masking a stream -/

/-- `STREAM_MASK_WINDOW_BYTES` -/
def streamMaskWindowBytes : ℕ := 256

/-- `STREAM_MASK_MAX_CARRY_BYTES` -/
def streamMaskMaxCarryBytes : ℕ := streamMaskWindowBytes * 4

def isCharBoundary (s : List Char) (i : ℕ) : Bool := (takeBytes i s).isSome

/-- `while i > 0 && !s.is_char_boundary(i) { i -= 1 }` -/
def walkToBoundary (s : List Char) : ℕ → ℕ
  | 0 => 0
  | i + 1 => if isCharBoundary s (i + 1) then i + 1 else walkToBoundary s i

def floorCharBoundary (s : List Char) (idx : ℕ) : ℕ := walkToBoundary s (min idx (byteLen s))

structure StreamMasker where
  /-- Raw text, held until it is settled. -/
  carry : List Char
  deriving DecidableEq, Repr

namespace StreamMasker

def new : StreamMasker := ⟨[]⟩

/-- The masking function of the caller; there is no answer where it panics. -/
abbrev Mask := List Char → Option (List Char)

variable (mask : Mask)

def flush (m : StreamMasker) : Option (List Char × StreamMasker) :=
  if m.carry = [] then some ([], m)
  else do
    let out ← mask m.carry
    return (out, ⟨[]⟩)

def push (m : StreamMasker) (chunk : List Char) : Option (List Char × StreamMasker) :=
  let carry := m.carry ++ chunk
  if byteLen carry ≤ streamMaskWindowBytes then some ([], ⟨carry⟩)
  -- progress is forced before the carry grows without a bound
  else if streamMaskMaxCarryBytes < byteLen carry then flush mask ⟨carry⟩
  else
    let split := floorCharBoundary carry (byteLen carry - streamMaskWindowBytes)
    if split = 0 then some ([], ⟨carry⟩)
    else do
      let settled ← takeBytes split carry
      let maskedSettled ← mask settled
      let maskedFull ← mask carry
      if maskedSettled.isPrefixOf maskedFull then
        let rest ← dropBytes split carry
        return (maskedSettled, ⟨rest⟩)
      else return ([], ⟨carry⟩)

/-- What each chunk makes the masker emit. -/
def pushAll (m : StreamMasker) : List (List Char) → Option (List (List Char) × StreamMasker)
  | [] => some ([], m)
  | chunk :: chunks => do
    let (out, m) ← push mask m chunk
    let (outs, m) ← pushAll m chunks
    return (out :: outs, m)

/-- All that is emitted for a text in chunks. -/
def stream (chunks : List (List Char)) : Option (List Char) := do
  let (outs, m) ← pushAll mask .new chunks
  let (out, _) ← flush mask m
  return outs.flatten ++ out

end StreamMasker

end Routeplane.Guardrails
