import Routeplane.Guardrails.Unicode
import Routeplane.Lib.Pattern

/-!
# Recognizers and validators

The patterns of the identifiers and secrets that are masked, as they are written for a regular
expression engine: `\d`, `\w` and `\b` are about all of Unicode, whose tables are a parameter.

A text with the shape of an identifier is one only if its checksum or structure holds.

* `Recognizer.email` and so on: one pattern a kind of identifier or secret.
* `anyPiiOrSecret`: whether one of them matches.
* `isPan`, `isAadhaar` and so on: the test of each kind.
* `isJsonSecretValue`, `isConnectionString`, `isSchemaDump`: the tests of structured data.
-/

namespace Routeplane.Guardrails

open Pattern

/-- The decimal digits and the word characters beyond ASCII. -/
structure UnicodeTables where
  digit : Char → Bool
  word : Char → Bool

/-- Tables without a digit or a word character beyond ASCII. -/
def asciiTables : UnicodeTables := ⟨fun _ => false, fun _ => false⟩

/-- `\d` -/
def UnicodeTables.isDigit (U : UnicodeTables) (c : Char) : Bool :=
  if c.toNat < 128 then within [('0', '9')] "" c else U.digit c

/-- `\w` -/
def UnicodeTables.isWord (U : UnicodeTables) (c : Char) : Bool :=
  if c.toNat < 128 then within [('a', 'z'), ('A', 'Z'), ('0', '9')] "_" c else U.word c

/-- A test made case-insensitive: the long s and the Kelvin sign fold to `s` and `k`. -/
def eitherCase (p : Char → Bool) (c : Char) : Bool :=
  p c || p c.toLower || p c.toUpper || (c.toNat == 0x17F && (p 's' || p 'S')) ||
    (c.toNat == 0x212A && (p 'k' || p 'K'))

namespace Recognizer

/-- `(?i)` -/
def caseless (p : Pattern) : Pattern := p.mapTests eitherCase

def cls (ranges : List (Char × Char)) (cs : String) : Pattern := .one (within ranges cs)

/-- The characters that are none of `cs`. -/
def noneOf (cs : String) : Pattern := .one fun c => !within [] cs c

def upper : Pattern := cls [('A', 'Z')] ""

def upperOrDigit : Pattern := cls [('A', 'Z'), ('0', '9')] ""

def alnum : Pattern := cls [('a', 'z'), ('A', 'Z'), ('0', '9')] ""

/-- `\s` -/
def space : Pattern := .one isTrimmed

/-- The characters that are neither white space nor one of `cs`. -/
def solid (cs : String) : Pattern := .one fun c => !isTrimmed c && !within [] cs c

section

variable (U : UnicodeTables)

def digit : Pattern := .one U.isDigit

/-- `\b` -/
def edge : Pattern := .look fun before after => before.any U.isWord != after.any U.isWord

/-- A word that stands alone. -/
def bounded (ps : List Pattern) : Pattern := seq ([edge U] ++ ps ++ [edge U])

/-! ## Personal identifiers -/

def email : Pattern :=
  seq [atLeast 1 (cls [('a', 'z'), ('A', 'Z'), ('0', '9')] "._%+-"), lit "@",
    atLeast 1 (cls [('a', 'z'), ('A', 'Z'), ('0', '9')] ".-"), lit ".",
    atLeast 2 (cls [('a', 'z'), ('A', 'Z')] "")]

def phone : Pattern :=
  alts [
    seq [lit "+", digit U, range 6 18 (.one fun c => U.isDigit c || within [] " -." c), digit U],
    bounded U [exactly 3 (digit U), opt (oneOf "-. "), exactly 3 (digit U), opt (oneOf "-. "),
      exactly 4 (digit U)],
    bounded U [cls [('6', '9')] "", exactly 4 (digit U), oneOf " -", exactly 5 (digit U)]]

def ssn : Pattern :=
  bounded U [exactly 3 (digit U), oneOf "- ", exactly 2 (digit U), oneOf "- ", exactly 4 (digit U)]

def ipv4 : Pattern :=
  bounded U [exactly 3 (seq [range 1 3 (digit U), lit "."]), range 1 3 (digit U)]

def pan : Pattern :=
  caseless (bounded U [exactly 5 (cls [('a', 'z')] ""), exactly 4 (cls [('0', '9')] ""),
    cls [('a', 'z')] ""])

/-- `(?i)\bpan\b` -/
def panCue : Pattern := caseless (bounded U [lit "pan"])

def aadhaar : Pattern :=
  let sep := range 0 2 (.one fun c => isTrimmed c || within [] ".-" c)
  bounded U [cls [('2', '9')] "", exactly 3 (digit U), sep, exactly 4 (digit U), sep,
    exactly 4 (digit U)]

def card : Pattern :=
  bounded U [range 12 18 (seq [digit U, opt (oneOf " -")]), digit U]

def ifsc : Pattern := bounded U [exactly 4 upper, lit "0", exactly 6 upperOrDigit]

def gstin : Pattern :=
  bounded U [exactly 2 (digit U), exactly 5 upper, exactly 4 (digit U), upper, upperOrDigit,
    lit "Z", upperOrDigit]

def iban : Pattern :=
  bounded U [exactly 2 upper, exactly 2 (digit U),
    range 3 8 (seq [opt (lit " "), range 1 4 upperOrDigit])]

def cpf : Pattern :=
  bounded U [exactly 3 (digit U), lit ".", exactly 3 (digit U), lit ".", exactly 3 (digit U),
    lit "-", exactly 2 (digit U)]

def nric : Pattern := bounded U [oneOf "STFGM", exactly 7 (digit U), upper]

def emiratesId : Pattern :=
  bounded U [lit "784", opt (oneOf "- "), exactly 4 (digit U), opt (oneOf "- "),
    exactly 7 (digit U), opt (oneOf "- "), digit U]

def saudiId : Pattern := bounded U [oneOf "12", exactly 9 (digit U)]

def tfn : Pattern :=
  bounded U [exactly 3 (digit U), opt (oneOf "- "), exactly 3 (digit U), opt (oneOf "- "),
    exactly 3 (digit U)]

def myNumber : Pattern :=
  bounded U [exactly 4 (digit U), opt (oneOf "- "), exactly 4 (digit U), opt (oneOf "- "),
    exactly 4 (digit U)]

/-! ## Secrets -/

def token : Pattern := cls [('a', 'z'), ('A', 'Z'), ('0', '9')] "_-"

def openaiKey : Pattern := bounded U [lit "sk-", opt (lit "proj-"), atLeast 16 token]

def awsKey : Pattern :=
  bounded U [lit "A", alts [lit "KIA", lit "SIA"], exactly 16 upperOrDigit]

def githubToken : Pattern := bounded U [lit "gh", oneOf "pousr", lit "_", atLeast 36 alnum]

def slackToken : Pattern :=
  bounded U [lit "xox", oneOf "baprs", lit "-",
    atLeast 10 (cls [('a', 'z'), ('A', 'Z'), ('0', '9')] "-")]

def stripeKey : Pattern := bounded U [oneOf "rs", lit "k_live_", atLeast 16 alnum]

def googleApiKey : Pattern := bounded U [lit "AIza", exactly 35 token]

def jwt : Pattern :=
  bounded U [lit "eyJ", atLeast 10 token, lit ".", atLeast 10 token, lit ".", atLeast 10 token]

def privateKey : Pattern :=
  let words := star (cls [('A', 'Z')] " ")
  seq [lit "-----BEGIN ", words, lit "PRIVATE KEY-----", lazyStar (.one fun _ => true),
    lit "-----END ", words, lit "PRIVATE KEY-----"]

def routeplaneKey : Pattern :=
  bounded U [lit "rp_", alts [lit "sk", lit "live", lit "test"], lit "_", atLeast 16 alnum]

/-! ## Structured data -/

/-- The key of a secret, what separates it from the value and the quote before the value. -/
def jsonKey : Pattern :=
  caseless (seq [opt (oneOf "\"'"),
    alts [seq [lit "api", opt (oneOf "_-"), lit "key"],
      seq [lit "secret", opt (seq [opt (oneOf "_-"), lit "key"])],
      seq [lit "access", opt (oneOf "_-"), lit "token"],
      seq [lit "auth", opt (oneOf "_-"), lit "token"],
      seq [lit "client", opt (oneOf "_-"), lit "secret"],
      seq [lit "private", opt (oneOf "_-"), lit "key"],
      lit "passwd", lit "password", lit "pwd", lit "bearer"],
    opt (oneOf "\"'"), star space, oneOf ":=", star space, oneOf "\"'"])

def jsonValue : Pattern := caseless (atLeast 6 (noneOf "\"'"))

def jsonSecret : Pattern := .cat jsonKey (.cat (.group jsonValue) (oneOf "\"'"))

def connectionString : Pattern :=
  caseless (seq [edge U,
    alts [seq [lit "postgres", opt (lit "ql")], lit "mysql", seq [lit "mongodb", opt (lit "+srv")],
      lit "redis", lit "rediss", lit "amqp", lit "amqps", lit "mssql", lit "sqlserver",
      seq [lit "jdbc:", atLeast 1 (cls [('a', 'z'), ('0', '9')] "")]],
    lit "://", atLeast 1 (solid "\"'<>")])

def cloudResourceId : Pattern :=
  let name := cls [('a', 'z'), ('0', '9')] "-"
  let hex := cls [('0', '9'), ('a', 'f')] ""
  caseless (alts [
    seq [edge U, lit "arn:aws", star (cls [('a', 'z')] "-"), lit ":", star name, lit ":", star name,
      lit ":", range 0 12 (digit U), lit ":", atLeast 1 (solid "\"'")],
    seq [lit "/subscriptions/", exactly 8 hex, lit "-", exactly 4 hex, lit "-", exactly 4 hex,
      lit "-", exactly 4 hex, lit "-", exactly 12 hex, lit "/resource", oneOf "Gg", lit "roups/",
      atLeast 1 (solid "\"'")],
    seq [edge U, lit "projects/", atLeast 1 name, lit "/",
      alts [lit "locations", lit "secrets", lit "serviceAccounts", lit "topics", lit "instances",
        lit "buckets"],
      lit "/", atLeast 1 (solid "\"'")]])

def schemaDump : Pattern :=
  let name := cls [('a', 'z'), ('0', '9')] "_"
  caseless (alts [
    seq [alts [seq [lit "create", atLeast 1 space, lit "table"],
        seq [lit "insert", atLeast 1 space, lit "into"],
        seq [lit "alter", atLeast 1 space, lit "table"]],
      atLeast 1 space, opt (oneOf "`\"'["), cls [('a', 'z')] "_", star name, opt (oneOf "`\"']")],
    seq [alts [.look fun before _ => before.isNone, lit "\n"], star space,
      atLeast 1 (seq [atLeast 1 name, star space, oneOf ",|", star space]), star name,
      alts [lit "password", lit "passwd", lit "secret", lit "token",
        seq [lit "api", opt (oneOf "_-"), lit "key"], lit "ssn",
        seq [lit "credit", opt (oneOf "_-"), lit "card"]],
      star name]])

/-- The patterns of the pre-scan. -/
def all : List Pattern :=
  [email, phone U, ssn U, ipv4 U, pan U, aadhaar U, ifsc U, gstin U, card U, iban U, cpf U, nric U,
    emiratesId U, saudiId U, tfn U, myNumber U, openaiKey U, awsKey U, githubToken U, slackToken U,
    stripeKey U, googleApiKey U, jwt U, privateKey, routeplaneKey U, jsonSecret, connectionString U,
    cloudResourceId U, schemaDump]

end

end Recognizer

/-- `ANY_PII_OR_SECRET.is_match` -/
def anyPiiOrSecret (U : UnicodeTables) (text : List Char) : Bool :=
  (Recognizer.all U).any fun p => p.isMatch text

/-! ## Validators -/

def isAsciiDigit (b : UInt8) : Bool := 48 ≤ b && b ≤ 57

def isAsciiUpper (b : UInt8) : Bool := 65 ≤ b && b ≤ 90

def isAsciiLower (b : UInt8) : Bool := 97 ≤ b && b ≤ 122

/-- The ASCII digits of a text, as numbers. -/
def digits (s : List Char) : List ℕ :=
  ((asBytes s).filter isAsciiDigit).map fun b => b.toNat - 48

def byteAt (bytes : List UInt8) (i : ℕ) : UInt8 := bytes.getD i 0

/-! ## Personal identifiers -/

/-- The holder types of a PAN, in its fourth character. -/
def validEntity : List UInt8 := asBytes "PCHFATBLJGEDK".toList

def isPan (s : List Char) : Bool :=
  let b := asBytes s
  if b.length ≠ 10 then false
  else
    let holder := byteAt b 3
    validEntity.contains (if isAsciiLower holder then holder - 32 else holder)

/-- The multiplication of Verhoeff's checksum. -/
def verhoeffD : List (List ℕ) :=
  [[0, 1, 2, 3, 4, 5, 6, 7, 8, 9], [1, 2, 3, 4, 0, 6, 7, 8, 9, 5], [2, 3, 4, 0, 1, 7, 8, 9, 5, 6],
    [3, 4, 0, 1, 2, 8, 9, 5, 6, 7], [4, 0, 1, 2, 3, 9, 5, 6, 7, 8], [5, 9, 8, 7, 6, 0, 4, 3, 2, 1],
    [6, 5, 9, 8, 7, 1, 0, 4, 3, 2], [7, 6, 5, 9, 8, 2, 1, 0, 4, 3], [8, 7, 6, 5, 9, 3, 2, 1, 0, 4],
    [9, 8, 7, 6, 5, 4, 3, 2, 1, 0]]

/-- Its permutations. -/
def verhoeffP : List (List ℕ) :=
  [[0, 1, 2, 3, 4, 5, 6, 7, 8, 9], [1, 5, 7, 6, 2, 8, 3, 0, 9, 4], [5, 8, 0, 3, 7, 9, 6, 1, 4, 2],
    [8, 9, 1, 6, 0, 4, 3, 5, 2, 7], [9, 4, 5, 3, 1, 2, 6, 8, 7, 0], [4, 2, 8, 6, 5, 7, 3, 9, 0, 1],
    [2, 7, 9, 3, 8, 0, 6, 4, 1, 5], [7, 0, 4, 6, 9, 1, 3, 2, 5, 8]]

def cell (table : List (List ℕ)) (row column : ℕ) : ℕ := (table.getD row []).getD column 0

def isAadhaar (s : List Char) : Bool :=
  let ds := digits s
  if ds.length ≠ 12 then false
  else
    ds.reverse.zipIdx.foldl (fun c d => cell verhoeffD c (cell verhoeffP (d.2 % 8) d.1)) 0 == 0

/-- A character of the base-36 alphabet, as its value. -/
def base36 (b : UInt8) : Option ℕ :=
  if isAsciiDigit b then some (b.toNat - 48)
  else if isAsciiUpper b then some (b.toNat - 65 + 10) else none

/-- The check character of a value. -/
def base36Char (n : ℕ) : UInt8 := byteAt (asBytes "0123456789ABCDEFGHIJKLMNOPQRSTUVWXYZ".toList) n

def isGstin (s : List Char) : Bool :=
  let b := asBytes s
  if b.length ≠ 15 then false
  else
    match (b.take 14).mapM base36 with
    | none => false
    | some values =>
      let sum := (values.zipIdx.map fun v =>
        let product := v.1 * if v.2 % 2 = 0 then 1 else 2
        product / 36 + product % 36).sum
      byteAt b 14 == base36Char ((36 - sum % 36) % 36)

def isIfsc (s : List Char) : Bool :=
  let b := asBytes s
  b.length == 11 && (b.take 4).all isAsciiUpper && byteAt b 4 == 48 &&
    (b.drop 5).all fun c => isAsciiDigit c || isAsciiUpper c || isAsciiLower c

/-- Luhn's checksum. -/
def isCard (s : List Char) : Bool :=
  let ds := digits s
  if ds.length < 13 || 19 < ds.length then false
  else
    let sum := (ds.reverse.zipIdx.map fun d =>
      if d.2 % 2 = 1 then if 9 < d.1 * 2 then d.1 * 2 - 9 else d.1 * 2 else d.1).sum
    sum % 10 == 0

/-- `str::parse::<u16>` of an octet, which may have a plus sign. -/
def parseOctet (part : List Char) : Option ℕ :=
  let body := match part with
    | '+' :: rest => rest
    | part => part
  if body = [] || !body.all fun c => codeIn 48 57 c then none
  else
    let n := body.foldl (fun n c => n * 10 + (c.toNat - 48)) 0
    if n < 65536 then some n else none

def isIpv4 (s : List Char) : Bool :=
  let parts := s.splitOn '.'
  parts.length == 4 && parts.all fun p => (parseOctet p).any fun n => decide (n ≤ 255)

/-- One more character of an IBAN, in the remainder by 97. -/
def ibanStep (rem : ℕ) (b : UInt8) : Option ℕ :=
  if isAsciiDigit b then some ((rem * 10 + (b.toNat - 48)) % 97)
  else if isAsciiUpper b then some ((rem * 100 + (b.toNat - 65) + 10) % 97) else none

/-- `u8::is_ascii_whitespace` -/
def isAsciiSpace (b : UInt8) : Bool := b == 32 || b == 9 || b == 10 || b == 12 || b == 13

def isIban (s : List Char) : Bool :=
  let compact := (asBytes s).filter fun b => !isAsciiSpace b
  if compact.length < 15 || 34 < compact.length then false
  else (compact.drop 4 ++ compact.take 4).foldlM ibanStep 0 == some 1

/-- The check digit of the first `n` digits of a CPF. -/
def cpfCheck (d : List ℕ) (n : ℕ) : ℕ :=
  let sum := ((d.take n).zipIdx.map fun x => x.1 * (n + 1 - x.2)).sum
  let r := sum * 10 % 11
  if r = 10 then 0 else r

def isCpf (s : List Char) : Bool :=
  let d := digits s
  if d.length ≠ 11 || d.all (· == d.headD 0) then false
  else cpfCheck d 9 == d.getD 9 0 && cpfCheck d 10 == d.getD 10 0

def isNric (s : List Char) : Bool :=
  let b := asBytes s
  if b.length ≠ 9 then false
  else
    let weighted := (((b.drop 1).take 7).zipWith (fun c w => (c.toNat - 48) * w)
      [2, 7, 6, 5, 4, 3, 2]).sum
    let first := Char.ofNat (byteAt b 0).toNat
    let sum := weighted +
      if first = 'T' || first = 'G' then 4 else if first = 'M' then 3 else 0
    let letters :=
      if first = 'S' || first = 'T' then some "JZIHGFEDCBA"
      else if first = 'F' || first = 'G' then some "XWUTRQPNMLK"
      else if first = 'M' then some "XWUTRQPNJLK" else none
    letters.any fun table => byteAt b 8 == byteAt (asBytes table.toList) (sum % 11)

def isEmiratesId (s : List Char) : Bool :=
  let d := digits s
  if d.length ≠ 15 then false
  else if d.take 3 ≠ [7, 8, 4] then false
  else
    let year := d.getD 3 0 * 1000 + d.getD 4 0 * 100 + d.getD 5 0 * 10 + d.getD 6 0
    1900 ≤ year && year ≤ 2099

def isSaudiId (s : List Char) : Bool :=
  let b := asBytes s
  if b.length ≠ 10 || (byteAt b 0 ≠ 49 && byteAt b 0 ≠ 50) then false
  else if !b.all isAsciiDigit then false
  else
    let sum := (b.zipIdx.map fun c =>
      let digit := c.1.toNat - 48
      if c.2 % 2 = 0 then digit * 2 / 10 + digit * 2 % 10 else digit).sum
    sum % 10 == 0

def isTfn (s : List Char) : Bool :=
  let d := digits s
  d.length == 9 && (d.zipWith (· * ·) [1, 4, 3, 7, 5, 8, 6, 9, 10]).sum % 11 == 0

def isMyNumber (s : List Char) : Bool :=
  if isAadhaar s then false
  else
    let d := digits s
    if d.length ≠ 12 then false
    else
      -- the first eleven digits, from the right
      let sum := ((d.take 11).reverse.zipWith (· * ·) [2, 3, 4, 5, 6, 7, 2, 3, 4, 5, 6]).sum
      let r := sum % 11
      (if r ≤ 1 then 0 else 11 - r) == d.getD 11 0

/-! ## Structured data -/

def startsWith (pre : String) (s : List Char) : Bool := pre.toList.isPrefixOf s

def lowerText (s : List Char) : List Char := s.map Char.toLower

/-- The values that stand for a secret. -/
def secretPlaceholders : List String :=
  ["changeme", "password", "your_password", "your-password", "example", "redacted", "masked",
    "xxxxxx", "placeholder", "todo", "null", "none"]

def isJsonSecretValue (v : List Char) : Bool :=
  let t := trimChars v
  if byteLen t < 6 then false
  else if startsWith "$\x7b" t || startsWith "\x7b\x7b" t || startsWith "<%" t ||
      (startsWith "<" t && t.getLast? == some '>') then false
  else if (secretPlaceholders.map String.toList).contains (lowerText t) then false
  else 6 ≤ (t.filter Char.isAlphanum).length

/-- What follows the first `piece` of a text. -/
def afterPiece (piece : String) : List Char → Option (List Char)
  | [] => if piece.toList = [] then some [] else none
  | c :: cs => if startsWith piece (c :: cs) then some ((c :: cs).drop piece.length)
    else afterPiece piece cs

def isConnectionString (s : List Char) : Bool :=
  match afterPiece "://" s with
  | none => false
  | some rest =>
    let authority := rest.takeWhile fun c => !(c == '/' || c == '?' || c == '#')
    authority.contains '@' && authority.head? != some '@'

def sensitiveColumns : List String :=
  ["password", "passwd", "secret", "token", "api_key", "apikey", "api-key", "ssn", "credit_card",
    "credit-card", "creditcard", "private_key"]

def isSchemaDump (s : List Char) : Bool :=
  sensitiveColumns.any fun column => containsText (String.ofList (lowerText s)) column

end Routeplane.Guardrails
