import Routeplane.Cache.Idempotency
import Routeplane.Types.Text

/-!
# Chat requests under an idempotency key

The part of `chat_completions_core` that lets a request with an idempotency key run the pipeline
at most once: the key is reserved, the pipeline runs, and its response is stored under the key or
the key is released. The handler may be dropped at any await in between.

* `finish`: what becomes of the reservation when the pipeline has answered.
* `Gateway.apply`: requests arrive, are answered or are dropped, in any order.
-/

namespace Routeplane.Idempotent

open Cache (IdempotencyKey IdempotencyStore StoreConfig StoredResponse ReserveOutcome)

/-- What the layer reads of a request: its headers (absent, not text, or text), whether it streams,
and the fingerprint of its body. -/
structure Ask (F : Type) where
  tenantId : String
  idempotencyKey : Option (Option String) := none
  brandedKey : Option (Option String) := none
  stream : Option Bool := none
  fingerprint : F
  deriving DecidableEq, Repr

/-- The key a request is bound to, if it takes part. -/
def Ask.key {F : Type} (a : Ask F) : Option IdempotencyKey :=
  if a.stream.getD false then none
  else
    ((((a.idempotencyKey <|> a.brandedKey).bind id).map trimText).filter fun s => !s.isEmpty).map
      fun s => ⟨a.tenantId, s⟩

/-- A response of the pipeline; the body is what collecting it gives, if it can be collected. -/
structure Reply where
  status : ℕ
  contentType : Option String := none
  provider : Option String := none
  requestId : Option String := none
  body : Option (List UInt8) := none
  deriving DecidableEq, Repr, Inhabited

def Reply.isSuccess (r : Reply) : Bool := 200 ≤ r.status && r.status < 300

structure ErrorBody where
  status : ℕ
  message : String
  type : String
  param : Option String
  code : String
  deriving DecidableEq, Repr

def mismatchResponse : ErrorBody :=
  ⟨422, "Idempotency key reused with a different request body. Use a new idempotency key for a " ++
    "different request.", "invalid_request_error", some "Idempotency-Key",
    "routeplane_idempotency_key_reused"⟩

def inFlightResponse : ErrorBody :=
  ⟨409, "A request with this idempotency key is already in progress. Retry after it completes.",
    "invalid_request_error", some "Idempotency-Key", "routeplane_idempotency_in_progress"⟩

def internalError : ErrorBody :=
  ⟨500, "The gateway encountered an internal error.", "api_error", none, "internal_error"⟩

/-- How a request was answered: from the store, by an error of this layer, or by the pipeline. -/
inductive Answer (F : Type)
  | replay (r : StoredResponse F)
  | error (e : ErrorBody)
  | reply (r : Reply)
  deriving DecidableEq, Repr

/-- `IDEMP_STORE_BODY_LIMIT`. -/
def storeBodyLimit : ℕ := 8 * 1024 * 1024

section Finish

variable {F : Type} (cfg : StoreConfig) (key : IdempotencyKey) (fingerprint : F)

/-- The end of a request whose pipeline has answered. -/
def finish (reply : Reply) (now : ℕ) (s : IdempotencyStore F) : IdempotencyStore F × Answer F :=
  if reply.isSuccess then
    match reply.body.filter fun b => b.length ≤ storeBodyLimit with
    | some bytes =>
      ((s.store cfg key
        { status := reply.status
          contentType := reply.contentType.getD "application/json"
          body := bytes
          fingerprint := fingerprint
          provider := reply.provider
          requestId := reply.requestId
          createdAtMs := now
          ttlMs := cfg.ttlMs } now).1, .reply { reply with body := some bytes })
    | none => (s.release cfg key, .error internalError)
  else (s.release cfg key, .reply reply)

end Finish

/-- How far a request is; `since` is when it reserved its key, if it has one. -/
inductive Phase (F : Type)
  | idle
  | running (since : Option ℕ)
  | dropped (since : Option ℕ)
  | ended (a : Answer F)
  deriving DecidableEq, Repr

structure Gateway (ι F : Type) where
  store : IdempotencyStore F
  call : ι → Phase F

inductive Event (ι : Type)
  | arrive (i : ι) (now : ℕ)
  /-- The pipeline answers. -/
  | respond (i : ι) (reply : Reply) (now : ℕ)
  /-- The client goes away, at an await of the pipeline or while its answer is collected. -/
  | drop (i : ι)
  deriving DecidableEq, Repr

namespace Gateway

variable {ι F : Type} [DecidableEq ι] [DecidableEq F] (cfg : StoreConfig) (asks : ι → Ask F)
  (g : Gateway ι F)

def start : Gateway ι F := ⟨fun _ => [], fun _ => .idle⟩

omit [DecidableEq F] in
def set (i : ι) (ph : Phase F) : Gateway ι F := { g with call := Function.update g.call i ph }

/-- How a request is answered on arrival, or that it runs. -/
def admitted (now : ℕ) : ReserveOutcome F → Phase F
  | .reserved => .running (some now)
  | .replay r => .ended (.replay r)
  | .fingerprintMismatch => .ended (.error mismatchResponse)
  | .inFlight => .ended (.error inFlightResponse)

def arrive (i : ι) (now : ℕ) : Gateway ι F :=
  match (asks i).key with
  | none => g.set i (.running none)
  | some key =>
    let (s, outcome) := g.store.reserve cfg key (asks i).fingerprint now
    { g.set i (admitted now outcome) with store := s }

omit [DecidableEq F] in
def respond (i : ι) (reply : Reply) (now : ℕ) : Gateway ι F :=
  match (asks i).key with
  | none => g.set i (.ended (.reply reply))
  | some key =>
    let (s, a) := finish cfg key (asks i).fingerprint reply now g.store
    { g.set i (.ended a) with store := s }

/-- One event; a request arrives once, and ends or is dropped while it runs. -/
def apply : Event ι → Gateway ι F
  | .arrive i now =>
    match g.call i with
    | .idle => g.arrive cfg asks i now
    | _ => g
  | .respond i reply now =>
    match g.call i with
    | .running _ => g.respond cfg asks i reply now
    | _ => g
  | .drop i =>
    match g.call i with
    | .running since => g.set i (.dropped since)
    | _ => g

def run (events : List (Event ι)) : Gateway ι F := events.foldl (apply cfg asks) start

end Gateway

end Routeplane.Idempotent
