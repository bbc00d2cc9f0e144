import Routeplane.Lib.Assoc
import Routeplane.Limits.Window
import Mathlib.Data.List.Basic
import Mathlib.Logic.Function.Basic

/-!
# The idempotency store

What a client's idempotency key is bound to: a request in flight, or the response of a completed
one. Each operation is a compare-and-swap loop on the map of one shard.

* `reserveEntry`: the decision for a request, and the reservation where there is none.
* `storeEntry`, `releaseEntry`: the two ends of a reservation.
* `evictIfNeeded`: room for one more, at the cost of the tenant that holds the most.
-/

namespace Routeplane.Cache

open Limits (satAdd)

structure IdempotencyKey where
  tenantId : String
  key : String
  deriving DecidableEq, Repr

/-- A completed response; `F` is the type of fingerprints. -/
structure StoredResponse (F : Type) where
  status : ℕ
  contentType : String
  body : List UInt8
  fingerprint : F
  provider : Option String
  requestId : Option String
  createdAtMs : ℕ
  ttlMs : ℕ
  deriving DecidableEq, Repr

inductive Entry (F : Type)
  | inFlight (createdAtMs ttlMs : ℕ)
  | done (r : StoredResponse F)
  deriving DecidableEq, Repr

namespace Entry

variable {F : Type}

def createdAtMs : Entry F → ℕ
  | inFlight created _ => created
  | done r => r.createdAtMs

def expired (now : ℕ) : Entry F → Bool
  | inFlight created ttl => satAdd created ttl ≤ now
  | done r => satAdd r.createdAtMs r.ttlMs ≤ now

end Entry

inductive ReserveOutcome (F : Type)
  | reserved
  | replay (r : StoredResponse F)
  | fingerprintMismatch
  | inFlight
  deriving DecidableEq, Repr

/-- The entries of a shard, in the order its map is walked. -/
abbrev ShardMap (F : Type) := List (IdempotencyKey × Entry F)

namespace ShardMap

variable {F : Type} (m : ShardMap F)

def get (key : IdempotencyKey) : Option (Entry F) := (m.find? fun e => e.1 = key).map (·.2)

def remove (key : IdempotencyKey) : ShardMap F := m.filter fun e => e.1 ≠ key

def insert (key : IdempotencyKey) (entry : Entry F) : ShardMap F := (key, entry) :: m.remove key

/-- How many entries a tenant holds. -/
def held (tenantId : String) : ℕ := m.countP fun e => e.1.tenantId = tenantId

end ShardMap

section Evict

variable {F : Type}

/-- Whether the tenant `b` pays before `a`: the larger holder, then the one inserting, then the
later name. -/
def paysBefore (m : ShardMap F) (inserting a b : String) : Bool :=
  m.held a < m.held b ||
    (m.held a == m.held b &&
      ((a != inserting && b == inserting) ||
        ((a == inserting) == (b == inserting) && a < b)))

def evictionVictim (m : ShardMap F) (inserting : String) : Option String :=
  m.foldl (fun best e =>
    match best with
    | none => some e.1.tenantId
    | some a => if paysBefore m inserting a e.1.tenantId then some e.1.tenantId else some a) none

/-- The oldest entry of a tenant, the first of several. -/
def oldestOf (m : ShardMap F) (tenantId : String) : Option IdempotencyKey :=
  ((m.filter fun e => e.1.tenantId = tenantId).foldl (fun best e =>
    match best with
    | none => some e
    | some o => if e.2.createdAtMs < o.2.createdAtMs then some e else some o) none).map (·.1)

/-- One entry at a time, while the shard is full; each round removes one, so there are no more
rounds than entries. -/
def evictFair (cap : ℕ) (inserting : String) : ℕ → ShardMap F → ShardMap F
  | 0, m => m
  | rounds + 1, m =>
    if m.length < cap then m
    else
      match (evictionVictim m inserting).bind (oldestOf m) with
      | some key => evictFair cap inserting rounds (m.remove key)
      | none => m

def evictIfNeeded (cap : ℕ) (m : ShardMap F) (now : ℕ) (inserting : String) : ShardMap F :=
  if m.length < cap then m
  else
    let m := m.filter fun e => !e.2.expired now
    if m.length < cap then m else evictFair cap inserting m.length m

end Evict

/-- `IDEMP_MAX_BODY_BYTES`. -/
def maxBodyBytes : ℕ := 256 * 1024

/-- `IDEMP_SHARD_COUNT`. -/
abbrev shardCount : ℕ := 64

/-- The settings of a store, and the shard of each key (the top bits of its hash). -/
structure StoreConfig where
  ttlMs : ℕ
  maxEntriesPerShard : ℕ
  shard : IdempotencyKey → Fin shardCount

/-- `IdempotencyStore::with_clock`. -/
def StoreConfig.withClock (ttlSeconds maxEntriesPerShard : ℕ)
    (shard : IdempotencyKey → Fin shardCount) : StoreConfig where
  ttlMs := Limits.satMul ttlSeconds 1000
  maxEntriesPerShard := max maxEntriesPerShard 1
  shard := shard

section Ops

variable {F : Type} [DecidableEq F] (cfg : StoreConfig)

/-- The body of the loop of `reserve`: what to swap in, and the answer. -/
def reserveEntry (key : IdempotencyKey) (fingerprint : F) (now : ℕ) (m : ShardMap F) :
    Option (ShardMap F) × ReserveOutcome F :=
  let reclaim :=
    (some ((evictIfNeeded cfg.maxEntriesPerShard (m.remove key) now key.tenantId).insert key
      (.inFlight now cfg.ttlMs)), .reserved)
  match m.get key with
  | none => reclaim
  | some entry =>
    if entry.expired now then reclaim
    else
      match entry with
      | .done r => (none, if r.fingerprint = fingerprint then .replay r else .fingerprintMismatch)
      | .inFlight _ _ => (none, .inFlight)

omit [DecidableEq F] in
/-- The body of the loop of `release`. -/
def releaseEntry (key : IdempotencyKey) (m : ShardMap F) : Option (ShardMap F) × Bool :=
  match m.get key with
  | some (.inFlight _ _) => (some (m.remove key), true)
  | _ => (none, false)

omit [DecidableEq F] in
/-- The body of the loop of `store`; a body over the limit releases the key instead. -/
def storeEntry (key : IdempotencyKey) (r : StoredResponse F) (now : ℕ) (m : ShardMap F) :
    Option (ShardMap F) × Bool :=
  if maxBodyBytes < r.body.length then ((releaseEntry key m).1, false)
  else
    match m.get key with
    | some (.inFlight _ _) =>
      (some (m.insert key (.done { r with createdAtMs := now, ttlMs := cfg.ttlMs })), true)
    | _ => (none, false)

end Ops

/-- The shards of a store. -/
abbrev IdempotencyStore (F : Type) := Fin shardCount → ShardMap F

namespace IdempotencyStore

variable {F : Type} (cfg : StoreConfig) (s : IdempotencyStore F)

def get (key : IdempotencyKey) : Option (Entry F) := (s (cfg.shard key)).get key

/-- An operation of a key, as its loop leaves the shard of the key. -/
def on {ρ : Type} (key : IdempotencyKey) (op : ShardMap F → Option (ShardMap F) × ρ) :
    IdempotencyStore F × ρ :=
  (Function.update s (cfg.shard key) ((op (s (cfg.shard key))).1.getD (s (cfg.shard key))),
    (op (s (cfg.shard key))).2)

def reserve [DecidableEq F] (key : IdempotencyKey) (fingerprint : F) (now : ℕ) :
    IdempotencyStore F × ReserveOutcome F :=
  s.on cfg key (reserveEntry cfg key fingerprint now)

def store (key : IdempotencyKey) (r : StoredResponse F) (now : ℕ) : IdempotencyStore F × Bool :=
  s.on cfg key (storeEntry cfg key r now)

def release (key : IdempotencyKey) : IdempotencyStore F :=
  (s.on cfg key (releaseEntry key)).1

end IdempotencyStore

/-! ## A shard as a map -/

namespace ShardMap

variable {F : Type} {m m' : ShardMap F} {key key' : IdempotencyKey} {entry : Entry F}
  {x : IdempotencyKey × Entry F}

/-- One entry for each key. -/
def Distinct (m : ShardMap F) : Prop := (m.map (·.1)).Nodup

theorem mem_of_get (h : m.get key = some entry) : (key, entry) ∈ m := Assoc.mem_of_get h

theorem get_of_mem (hd : m.Distinct) (h : (key, entry) ∈ m) : m.get key = some entry :=
  Assoc.get_of_mem hd h

theorem Distinct.sublist (hd : m.Distinct) (hs : m'.Sublist m) : m'.Distinct :=
  Assoc.Distinct.sublist hd hs

theorem Distinct.perm (hd : m.Distinct) (hp : m'.Perm m) : m'.Distinct := Assoc.Distinct.perm hd hp

theorem Distinct.insert (hd : m.Distinct) (key : IdempotencyKey) (entry : Entry F) :
    (m.insert key entry).Distinct := Assoc.Distinct.insert hd key entry

theorem remove_sublist (m : ShardMap F) (key : IdempotencyKey) : (m.remove key).Sublist m :=
  List.filter_sublist

theorem mem_remove : x ∈ m.remove key ↔ x ∈ m ∧ x.1 ≠ key := Assoc.mem_remove

theorem get_remove (m : ShardMap F) (key key' : IdempotencyKey) :
    (m.remove key).get key' = if key = key' then none else m.get key' := Assoc.get_remove m key key'

theorem get_insert (m : ShardMap F) (key key' : IdempotencyKey) (entry : Entry F) :
    (m.insert key entry).get key' = if key = key' then some entry else m.get key' :=
  Assoc.get_insert m key key' entry

theorem get_perm (hd : m.Distinct) (hp : m'.Perm m) (key : IdempotencyKey) : m'.get key = m.get key :=
  Assoc.get_perm hd hp key

theorem get_of_sublist (hd : m.Distinct) (hs : m'.Sublist m) (h : m'.get key = some entry) :
    m.get key = some entry := Assoc.get_of_sublist hd hs h

theorem length_insert_le (m : ShardMap F) (key : IdempotencyKey) (entry : Entry F) :
    (m.insert key entry).length ≤ m.length + if (m.get key).isNone then 1 else 0 :=
  Assoc.length_insert_le m key entry

end ShardMap

/-! ## What the operations do -/

section Cases

variable {F : Type} {cap now : ℕ} {inserting : String}

/-- Eviction removes entries only. -/
theorem evictFair_sublist (rounds : ℕ) (m : ShardMap F) :
    (evictFair cap inserting rounds m).Sublist m := by
  induction rounds generalizing m with
  | zero => exact List.Sublist.refl m
  | succ rounds ih =>
    unfold evictFair
    split
    · exact List.Sublist.refl m
    · split
      · exact (ih _).trans (m.remove_sublist _)
      · exact List.Sublist.refl m

theorem evictIfNeeded_sublist (m : ShardMap F) :
    (evictIfNeeded cap m now inserting).Sublist m := by
  unfold evictIfNeeded
  split
  · exact List.Sublist.refl m
  · simp only
    split
    · exact List.filter_sublist
    · exact (evictFair_sublist _ _).trans List.filter_sublist

/-- The shard a reservation puts its marker into. -/
def roomFor (cfg : StoreConfig) (key : IdempotencyKey) (now : ℕ) (m : ShardMap F) : ShardMap F :=
  evictIfNeeded cfg.maxEntriesPerShard (m.remove key) now key.tenantId

theorem roomFor_sublist (cfg : StoreConfig) (key : IdempotencyKey) (m : ShardMap F) :
    (roomFor cfg key now m).Sublist m :=
  (evictIfNeeded_sublist _).trans (m.remove_sublist key)

/-- **The answers of a reservation**: the key is free, or its entry answers. -/
theorem reserveEntry_cases [DecidableEq F] (cfg : StoreConfig) (key : IdempotencyKey)
    (fingerprint : F) (now : ℕ) (m : ShardMap F) :
    ((∀ entry, m.get key = some entry → entry.expired now = true) ∧
        reserveEntry cfg key fingerprint now m =
          (some ((roomFor cfg key now m).insert key (.inFlight now cfg.ttlMs)), .reserved)) ∨
      (∃ r, m.get key = some (.done r) ∧ (Entry.done r).expired now = false ∧
        reserveEntry cfg key fingerprint now m =
          (none, if r.fingerprint = fingerprint then .replay r else .fingerprintMismatch)) ∨
      ∃ created ttl, m.get key = some (.inFlight created ttl) ∧
        (Entry.inFlight created ttl : Entry F).expired now = false ∧
        reserveEntry cfg key fingerprint now m = (none, .inFlight) := by
  unfold reserveEntry
  cases hget : m.get key with
  | none => exact Or.inl ⟨fun entry h => (by cases h), rfl⟩
  | some entry =>
    simp only
    by_cases hexp : entry.expired now = true
    · rw [if_pos hexp]
      refine Or.inl ⟨fun entry' h => ?_, rfl⟩
      cases h
      exact hexp
    · rw [if_neg hexp]
      have hlive : entry.expired now = false := by simpa using hexp
      cases entry with
      | done r => exact Or.inr (Or.inl ⟨r, rfl, hlive, rfl⟩)
      | inFlight created ttl => exact Or.inr (Or.inr ⟨created, ttl, rfl, hlive, rfl⟩)

/-- **A release** takes the entry in flight, whoever reserved it. -/
theorem releaseEntry_cases (key : IdempotencyKey) (m : ShardMap F) :
    (∃ created ttl, m.get key = some (.inFlight created ttl) ∧
        releaseEntry key m = (some (m.remove key), true)) ∨
      (∀ created ttl, m.get key ≠ some (.inFlight created ttl)) ∧
        releaseEntry key m = (none, false) := by
  unfold releaseEntry
  split
  · rename_i created ttl hget
    exact Or.inl ⟨created, ttl, hget, rfl⟩
  · rename_i hno
    exact Or.inr ⟨hno, rfl⟩

/-- **A store** promotes the entry in flight, whoever reserved it, or takes it if the body is over
the limit. -/
theorem storeEntry_cases (cfg : StoreConfig) (key : IdempotencyKey) (r : StoredResponse F) (now : ℕ)
    (m : ShardMap F) :
    (∃ created ttl, m.get key = some (.inFlight created ttl) ∧
        ((maxBodyBytes < r.body.length ∧ storeEntry cfg key r now m = (some (m.remove key), false)) ∨
          r.body.length ≤ maxBodyBytes ∧ storeEntry cfg key r now m =
            (some (m.insert key (.done { r with createdAtMs := now, ttlMs := cfg.ttlMs })), true))) ∨
      (∀ created ttl, m.get key ≠ some (.inFlight created ttl)) ∧
        storeEntry cfg key r now m = (none, false) := by
  unfold storeEntry
  split
  · rename_i hlong
    rcases releaseEntry_cases key m with ⟨created, ttl, hget, heq⟩ | ⟨hno, heq⟩
    · rw [heq]
      exact Or.inl ⟨created, ttl, hget, Or.inl ⟨hlong, rfl⟩⟩
    · rw [heq]
      exact Or.inr ⟨hno, rfl⟩
  · rename_i hshort
    split
    · rename_i created ttl hget
      exact Or.inl ⟨created, ttl, hget, Or.inr ⟨by omega, rfl⟩⟩
    · rename_i hno
      exact Or.inr ⟨hno, rfl⟩

end Cases

end Routeplane.Cache
