import Routeplane.Lib.Assoc
import Routeplane.Lib.FirstMatch
import Routeplane.Storage.Persist
import Routeplane.Types.Text
import Mathlib.Data.List.Sort
import Mathlib.Data.String.Basic

/-!
# Console accounts

The accounts of the console, one for each lowercase email. A sign-up creates one, a log-out bumps its
session version. They are persisted as the custom providers are.

A login mints a signed token with the session version it read of the account. A token is good while
its signature and its expiry are, and the account still has that version: a log-out bumps it.

* `Accounts.build`: the checks of a snapshot.
* `accountRegistry`: the accounts as a persisted registry.
* `issue`: a token for an account that is authenticated.
* `verify`: the session of a token, on the accounts of the live snapshot.
-/

namespace Routeplane.Storage

open FirstMatch

/-- One account, as persisted. -/
structure ConsoleAccount where
  email : String
  passwordHash : String
  createdAt : Option String := none
  sessionVersion : UInt64 := 0
  deriving DecidableEq, Inhabited

/-- An immutable snapshot, swapped whole. -/
structure Accounts where
  byEmail : Assoc String ConsoleAccount := []
  deriving DecidableEq, Inhabited

namespace Accounts

def addAccount (byEmail : Assoc String ConsoleAccount) (account : ConsoleAccount) :
    Except String (Assoc String ConsoleAccount) :=
  if account.email.isEmpty || account.email != asciiLower account.email then
    .error ("invalid account email '" ++ account.email ++ "' (must be non-empty and lowercase)")
  else if account.passwordHash.isEmpty then
    .error ("account '" ++ account.email ++ "' has an empty password hash")
  else if (byEmail.get account.email).isSome then
    .error ("duplicate account email '" ++ account.email ++ "'")
  else .ok (byEmail.insert account.email account)

def build (accounts : List ConsoleAccount) : Except String Accounts := do
  let byEmail ← accounts.foldlM addAccount []
  return ⟨byEmail⟩

def sorted (s : Accounts) : List ConsoleAccount :=
  (s.byEmail.map (·.2)).insertionSort fun a b => a.email ≤ b.email

def find (s : Accounts) (email : String) : Option ConsoleAccount := s.byEmail.get email

end Accounts

inductive AccountCall
  | create (email passwordHash now : String)
  | bumpSessionVersion (email : String)
  deriving DecidableEq

def AccountCall.email : AccountCall → String
  | create email _ _ | bumpSessionVersion email => email

/-- The next snapshot and its accounts; none for a duplicate or an unknown email. -/
def AccountCall.plan (call : AccountCall) (s : Accounts) : Option (Accounts × List ConsoleAccount) :=
  match call with
  | create email passwordHash now =>
    if (s.find email).isSome then none
    else
      let account : ConsoleAccount := ⟨email, passwordHash, some now, 0⟩
      let accounts := (s.sorted ++ [account]).insertionSort fun a b => a.email ≤ b.email
      (Accounts.build accounts).toOption.map fun next => (next, accounts)
  | bumpSessionVersion email =>
    (s.sorted.find? fun account => account.email = email).bind fun account =>
      let bumped := { account with sessionVersion := account.sessionVersion + 1 }
      let accounts := replaceFirst (fun account => account.email = email) bumped s.sorted
      (Accounts.build accounts).toOption.map fun next => (next, accounts)

/-- `serde_json`: `to_vec_pretty` of the persisted shape, and the entries of a file's text, none when
it is blank. -/
structure Json (F : Type) where
  toVecPretty : F → Bytes
  fromFile : Bytes → Except String F

/-- What is written is read back. -/
def Json.Sound {F : Type} (json : Json F) : Prop :=
  ∀ file file', json.fromFile (json.toVecPretty file) = .ok file' → file' = file

/-- A start: an absent file has no accounts, an invalid one is refused. -/
def loadAccounts (json : Json (List ConsoleAccount)) (target : Option Bytes) : Option Accounts :=
  target.elim (some {}) fun bytes =>
    (json.fromFile bytes >>= Accounts.build).toOption

def accountRegistry (json : Json (List ConsoleAccount)) :
    Registry Accounts (List ConsoleAccount) String AccountCall Unit where
  key := AccountCall.email
  plan := AccountCall.plan
  encode := json.toVecPretty
  load := fun _ => loadAccounts json

end Routeplane.Storage

/-! ## Console sessions -/

namespace Routeplane.Console

open Storage

def sessionTtlSecs : ℕ := 12 * 60 * 60

/-- The signed claims: the account, the times, and the session version at mint time. -/
structure ConsoleClaims where
  sub : String
  iat : ℕ
  exp : ℕ
  sv : UInt64
  deriving DecidableEq

/-- The identity of a request. -/
structure ConsoleSession where
  email : String
  createdAt : Option String
  deriving DecidableEq

/-- `jsonwebtoken` with the keys of one secret, HS256 only, with `exp` required and validated. -/
structure Jwt where
  encode : ConsoleClaims → Option String
  decode : ℕ → String → Option ConsoleClaims

/-- A minted token decodes to its own claims, until it expires. -/
structure Jwt.Exact (jwt : Jwt) : Prop where
  own : ∀ claims token now claims', jwt.encode claims = some token →
    jwt.decode now token = some claims' → claims' = claims
  unexpired : ∀ claims token now, jwt.encode claims = some token → now ≤ claims.exp →
    jwt.decode now token = some claims

/-- `now.saturating_add(SESSION_TTL_SECS)`. -/
def expiry (now : ℕ) : ℕ := min (now + sessionTtlSecs) (2 ^ 64 - 1)

/-- The time is `Utc::now().timestamp()`, in seconds. -/
def issue (jwt : Jwt) (timestamp : ℤ) (email : String) (sessionVersion : UInt64) :
    Except String String :=
  let now := (max timestamp 0).toNat
  (jwt.encode ⟨email, now, expiry now, sessionVersion⟩).elim
    (.error "failed to sign session token") .ok

def verify (jwt : Jwt) (accounts : Accounts) (now : ℕ) (token : String) : Option ConsoleSession :=
  (jwt.decode now token).bind fun claims =>
    (accounts.find claims.sub).bind fun account =>
      if account.sessionVersion ≠ claims.sv then none
      else some ⟨account.email, account.createdAt⟩

end Routeplane.Console
