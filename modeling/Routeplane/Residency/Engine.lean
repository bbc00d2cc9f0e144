import Routeplane.Guardrails.Recognizers
import Routeplane.Residency.Classification

/-!
# The residency engine

The classifier that decides whether a text carries regulated personal data. It has patterns and tests
of its own beside those of the masker: it reads the same kinds of identifier and no secrets, and
answers with the kinds it found.

* `phone`, `ssn` and so on: the patterns.
* `isValidAadhaar` and so on: the tests of the matches.
* `classify`: the kinds of identifier in a text.
-/

namespace Routeplane.ResidencyEngine

open Pattern Guardrails
open Guardrails.Recognizer (caseless cls bounded upper upperOrDigit digit)

section

variable (U : UnicodeTables)

/-! ## Patterns -/

def email : Pattern :=
  seq [atLeast 1 (cls [('a', 'z'), ('A', 'Z'), ('0', '9')] "._%+-"), lit "@",
    atLeast 1 (cls [('a', 'z'), ('A', 'Z'), ('0', '9')] ".-"), lit ".",
    atLeast 2 (cls [('a', 'z'), ('A', 'Z')] "")]

/-- A grouped number needs its separators here. -/
def phone : Pattern :=
  alts [
    seq [lit "+", digit U, range 6 18 (.one fun c => U.isDigit c || within [] " -." c), digit U],
    bounded U [exactly 3 (digit U), oneOf "-. ", exactly 3 (digit U), oneOf "-. ",
      exactly 4 (digit U)],
    bounded U [cls [('6', '9')] "", exactly 4 (digit U), oneOf " -", exactly 5 (digit U)]]

def aadhaar : Pattern :=
  let sep := range 0 2 (.one fun c => isTrimmed c || within [] ".-" c)
  bounded U [cls [('2', '9')] "", exactly 3 (digit U), sep, exactly 4 (digit U), sep,
    exactly 4 (digit U)]

def pan : Pattern :=
  caseless (bounded U [exactly 5 (cls [('a', 'z')] ""), exactly 4 (cls [('0', '9')] ""),
    cls [('a', 'z')] ""])

def panCue : Pattern := caseless (bounded U [lit "pan"])

def ssn : Pattern :=
  bounded U [exactly 3 (digit U), lit "-", exactly 2 (digit U), lit "-", exactly 4 (digit U)]

def iban : Pattern :=
  bounded U [exactly 2 upper, exactly 2 (digit U),
    range 3 8 (seq [opt (lit " "), range 1 4 upperOrDigit])]

def cpf : Pattern :=
  bounded U [exactly 3 (digit U), lit ".", exactly 3 (digit U), lit ".", exactly 3 (digit U),
    lit "-", exactly 2 (digit U)]

def nric : Pattern := bounded U [oneOf "STFGM", exactly 7 (digit U), upper]

def emiratesId : Pattern :=
  bounded U [lit "784", opt (oneOf "- "), exactly 4 (digit U), opt (oneOf "- "),
    exactly 7 (digit U), opt (oneOf "- "), digit U]

def saudiId : Pattern := bounded U [oneOf "12", exactly 9 (digit U)]

def ifsc : Pattern := bounded U [exactly 4 upper, lit "0", exactly 6 upperOrDigit]

def gstin : Pattern :=
  bounded U [exactly 2 (digit U), exactly 5 upper, exactly 4 (digit U), upper, upperOrDigit,
    lit "Z", upperOrDigit]

def tfn : Pattern :=
  bounded U [exactly 3 (digit U), opt (oneOf "- "), exactly 3 (digit U), opt (oneOf "- "),
    exactly 3 (digit U)]

def myNumber : Pattern :=
  bounded U [exactly 4 (digit U), opt (oneOf "- "), exactly 4 (digit U), opt (oneOf "- "),
    exactly 4 (digit U)]

end

/-! ## Tests -/

/-- `candidate.chars().filter(is_ascii_digit).map(|c| c as u8 - b'0')` -/
def asciiDigits (candidate : List Char) : List ℕ :=
  (candidate.filter (codeIn 48 57)).map fun c => c.toNat - 48

/-- `verhoeff::validate`; the tables are those of the masker. -/
def validate (digits : List ℕ) : Bool :=
  if digits = [] then false
  else
    digits.reverse.zipIdx.foldlM (fun c d =>
      if 9 < d.1 then none else some (cell verhoeffD c (cell verhoeffP (d.2 % 8) d.1))) 0 == some 0

def isValidAadhaar (candidate : List Char) : Bool :=
  let digits := asciiDigits candidate
  if digits.length ≠ 12 then false else validate digits

def isValidPan (candidate : List Char) : Bool :=
  let b := asBytes candidate
  if b.length ≠ 10 then false
  else
    let holder := byteAt b 3
    validEntity.contains (if isAsciiLower holder then holder - 32 else holder)

/-- Capitals stand alone; small letters need the cue somewhere in the text. -/
def panInContext (U : UnicodeTables) (candidate text : List Char) : Bool :=
  if !isValidPan candidate then false
  else if !candidate.any Char.isLower then true
  else (panCue U).isMatch text

/-- The numbers that can be issued. -/
def isValidSsn (candidate : List Char) : Bool :=
  let d := asciiDigits candidate
  if d.length ≠ 9 then false
  else
    let area := d.getD 0 0 * 100 + d.getD 1 0 * 10 + d.getD 2 0
    let group := d.getD 3 0 * 10 + d.getD 4 0
    let serial := (d.drop 5).foldl (fun a x => a * 10 + x) 0
    area != 0 && area != 666 && decide (area < 900) && group != 0 && serial != 0

/-- One more character, in the remainder by 97. -/
def ibanRemainder (remainder : ℕ) (c : UInt8) : Option ℕ :=
  if isAsciiDigit c then some ((remainder * 10 + (c.toNat - 48)) % 97)
  else if isAsciiUpper c then
    let v := c.toNat - 65 + 10
    some ((remainder * 100 + v) % 97)
  else none

/-- Only the spaces between groups are dropped. -/
def isValidIban (candidate : List Char) : Bool :=
  let compact := (asBytes candidate).filter (· != 32)
  if compact.length < 15 || 34 < compact.length then false
  else (compact.drop 4 ++ compact.take 4).foldlM ibanRemainder 0 == some 1

def isValidCpf (candidate : List Char) : Bool :=
  let d := asciiDigits candidate
  if d.length ≠ 11 || d.all (· == d.headD 0) then false
  else cpfCheck d 9 == d.getD 9 0 && cpfCheck d 10 == d.getD 10 0

def isValidEmiratesId (candidate : List Char) : Bool :=
  let d := asciiDigits candidate
  if d.length ≠ 15 then false
  else if d.take 3 ≠ [7, 8, 4] then false
  else
    let year := d.getD 3 0 * 1000 + d.getD 4 0 * 100 + d.getD 5 0 * 10 + d.getD 6 0
    1900 ≤ year && year ≤ 2099

def isValidTfn (candidate : List Char) : Bool :=
  let d := asciiDigits candidate
  d.length == 9 && (d.zipWith (· * ·) [1, 4, 3, 7, 5, 8, 6, 9, 10]).sum % 11 == 0

/-- Any twelve digits with the check digit, those of an Aadhaar too. -/
def isValidMyNumber (candidate : List Char) : Bool :=
  let d := asciiDigits candidate
  if d.length ≠ 12 then false
  else
    -- the first eleven digits, from the right
    let sum := ((d.take 11).reverse.zipWith (· * ·) [2, 3, 4, 5, 6, 7, 2, 3, 4, 5, 6]).sum
    let r := sum % 11
    (if r ≤ 1 then 0 else 11 - r) == d.getD 11 0

/-! The code of these four is the masker's, step by step. -/

def isValidNric : List Char → Bool := isNric

def isValidSaudiId : List Char → Bool := isSaudiId

def isValidGstin : List Char → Bool := isGstin

def isValidIfsc : List Char → Bool := isIfsc

/-! ## Classification -/

/-- A kind of identifier, its pattern and the test of a match in a text. -/
structure Kind where
  entity : EntityType
  pattern : Pattern
  accepts : List Char → List Char → Bool

/-- Some match in the text passes its test. -/
def Kind.found (k : Kind) (text : List Char) : Bool :=
  (k.pattern.findIter text).any fun m => k.accepts text m.text

section

variable (U : UnicodeTables)

/-- The kinds, in the order they are reported. -/
def kinds : List Kind :=
  [⟨.aadhaar, aadhaar U, fun _ => isValidAadhaar⟩,
    ⟨.pan, pan U, fun text candidate => panInContext U candidate text⟩,
    ⟨.ssn, ssn U, fun _ => isValidSsn⟩, ⟨.iban, iban U, fun _ => isValidIban⟩,
    ⟨.cpf, cpf U, fun _ => isValidCpf⟩, ⟨.nric, nric U, fun _ => isValidNric⟩,
    ⟨.emiratesId, emiratesId U, fun _ => isValidEmiratesId⟩,
    ⟨.saudiId, saudiId U, fun _ => isValidSaudiId⟩, ⟨.ifsc, ifsc U, fun _ => isValidIfsc⟩,
    ⟨.gstin, gstin U, fun _ => isValidGstin⟩, ⟨.tfn, tfn U, fun _ => isValidTfn⟩,
    ⟨.myNumber, myNumber U, fun _ => isValidMyNumber⟩, ⟨.email, email, fun _ _ => true⟩,
    ⟨.phone, phone U, fun _ _ => true⟩]

/-- What the engine finds in a text, read without invisible and lookalike characters. -/
def classify (text : List Char) : Classification :=
  let text := normalizeForRecognition text
  let entities := ((kinds U).filter fun k => k.found text).map Kind.entity
  ⟨!entities.isEmpty, entities⟩

end

end Routeplane.ResidencyEngine
