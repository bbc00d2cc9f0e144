import Routeplane.Cache.Idempotency

/-!
# What an operation does to every key of the store

An operation decides on the entry of its own key and on no other. What it does to the entries of
other keys is to evict them.

* `StoreOp.ownEntry`: the entry of an operation's own key afterwards.
* `get_apply_self`, `get_apply_of_ne`: every key's entry after an operation.
* `reserve_outcome`: an answer is read off the entry of the key.
-/

namespace Routeplane.Cache

/-- An order the map of a shard is walked in. -/
structure Walk (F : Type) where
  order : ShardMap F → ShardMap F
  perm : ∀ m, (order m).Perm m

/-- A response a pipeline answers with success. -/
abbrev Success (F : Type) := { r : StoredResponse F // 200 ≤ r.status ∧ r.status < 300 }

/-- An operation of a caller. Only a success is ever stored. -/
inductive StoreOp (F : Type)
  | reserve (key : IdempotencyKey) (fingerprint : F) (now : ℕ)
  | store (key : IdempotencyKey) (r : Success F) (now : ℕ)
  | release (key : IdempotencyKey)

namespace StoreOp

variable {F : Type}

def key : StoreOp F → IdempotencyKey
  | reserve key _ _ => key
  | store key _ _ => key
  | release key => key

/-- A stored response, stamped when it is stored. -/
def stamped (cfg : StoreConfig) (r : StoredResponse F) (now : ℕ) : StoredResponse F :=
  { r with createdAtMs := now, ttlMs := cfg.ttlMs }

/-- The entry of the operation's key after it. -/
def ownEntry (cfg : StoreConfig) : StoreOp F → Option (Entry F) → Option (Entry F)
  | reserve _ _ now, none => some (.inFlight now cfg.ttlMs)
  | reserve _ _ now, some entry =>
    if entry.expired now then some (.inFlight now cfg.ttlMs) else some entry
  | store _ r now, some (.inFlight _ _) =>
    if maxBodyBytes < r.1.body.length then none else some (.done (stamped cfg r.1 now))
  | store _ _ _, entry => entry
  | release _, some (.inFlight _ _) => none
  | release _, entry => entry

end StoreOp

namespace IdempotencyStore

variable {F : Type} [DecidableEq F] (cfg : StoreConfig)

def apply (s : IdempotencyStore F) : StoreOp F → IdempotencyStore F
  | .reserve key fingerprint now => (s.reserve cfg key fingerprint now).1
  | .store key r now => (s.store cfg key r.1 now).1
  | .release key => s.release cfg key

omit [DecidableEq F] in
def walk (s : IdempotencyStore F) (idx : Fin shardCount) (w : Walk F) : IdempotencyStore F :=
  Function.update s idx (w.order (s idx))

/-- One entry for each key, in every shard. -/
def Distinct (s : IdempotencyStore F) : Prop := ∀ idx, (s idx).Distinct

variable {cfg} {s : IdempotencyStore F} {op : StoreOp F} {key : IdempotencyKey}

/-! ## One shard -/

omit [DecidableEq F] in
/-- The entry of a key after an operation on the shard of another. -/
theorem get_on {ρ : Type} {key' : IdempotencyKey} {out : ShardMap F → Option (ShardMap F) × ρ} :
    (s.on cfg key' out).1.get cfg key =
      if cfg.shard key = cfg.shard key' then
        ((out (s (cfg.shard key'))).1.getD (s (cfg.shard key'))).get key
      else s.get cfg key := by
  unfold on get
  simp only
  by_cases h : cfg.shard key = cfg.shard key'
  · rw [if_pos h, h, Function.update_self]
  · rw [if_neg h, Function.update_of_ne h]

/-- What a reservation leaves of its shard holds the key's own entry, and of the other keys' what
was there or nothing. -/
theorem reserveEntry_get (m : ShardMap F) (hd : m.Distinct) (key' : IdempotencyKey)
    (fingerprint : F) (now : ℕ) :
    ((reserveEntry cfg key' fingerprint now m).1.getD m).get key' =
        (StoreOp.reserve key' fingerprint now).ownEntry cfg (m.get key') ∧
      ∀ key ≠ key', ((reserveEntry cfg key' fingerprint now m).1.getD m).get key = m.get key ∨
        ((reserveEntry cfg key' fingerprint now m).1.getD m).get key = none := by
  rcases reserveEntry_cases cfg key' fingerprint now m with
    ⟨hfree, heq⟩ | ⟨r, hget, hlive, heq⟩ | ⟨created, ttl, hget, hlive, heq⟩
  · rw [heq]
    simp only [Option.getD_some]
    constructor
    · rw [ShardMap.get_insert, if_pos rfl]
      cases hget : m.get key' with
      | none => rfl
      | some entry =>
        unfold StoreOp.ownEntry
        simp only
        rw [if_pos (hfree entry hget)]
    · intro key hne
      rw [ShardMap.get_insert, if_neg (Ne.symm hne)]
      cases hroom : (roomFor cfg key' now m).get key with
      | none => exact Or.inr rfl
      | some entry =>
        exact Or.inl (ShardMap.get_of_sublist hd (roomFor_sublist cfg key' m) hroom).symm
  · rw [heq, hget]
    refine ⟨?_, fun _ _ => Or.inl rfl⟩
    unfold StoreOp.ownEntry
    simp only [Option.getD_none]
    rw [if_neg (by rw [hlive]; exact Bool.false_ne_true), hget]
  · rw [heq, hget]
    refine ⟨?_, fun _ _ => Or.inl rfl⟩
    unfold StoreOp.ownEntry
    simp only [Option.getD_none]
    rw [if_neg (by rw [hlive]; exact Bool.false_ne_true), hget]

variable (cfg) in
omit [DecidableEq F] in
/-- A release leaves the other keys' entries. -/
theorem releaseEntry_get (m : ShardMap F) (key' : IdempotencyKey) :
    ((releaseEntry key' m).1.getD m).get key' =
        (StoreOp.release key').ownEntry cfg (m.get key') ∧
      ∀ key ≠ key', ((releaseEntry key' m).1.getD m).get key = m.get key := by
  rcases releaseEntry_cases key' m with ⟨created, ttl, hget, heq⟩ | ⟨hno, heq⟩
  · rw [heq, hget]
    simp only [Option.getD_some]
    refine ⟨?_, fun key hne => ?_⟩
    · rw [ShardMap.get_remove, if_pos rfl]
      rfl
    · rw [ShardMap.get_remove, if_neg (Ne.symm hne)]
  · rw [heq]
    refine ⟨?_, fun _ _ => rfl⟩
    simp only [Option.getD_none]
    cases hget : m.get key' with
    | none => rfl
    | some entry =>
      cases entry with
      | inFlight created ttl => exact absurd hget (hno created ttl)
      | done r => rfl

variable (cfg) in
omit [DecidableEq F] in
/-- A store leaves the other keys' entries. -/
theorem storeEntry_get (m : ShardMap F) (key' : IdempotencyKey) (r : Success F) (now : ℕ) :
    ((storeEntry cfg key' r.1 now m).1.getD m).get key' =
        (StoreOp.store key' r now).ownEntry cfg (m.get key') ∧
      ∀ key ≠ key', ((storeEntry cfg key' r.1 now m).1.getD m).get key = m.get key := by
  rcases storeEntry_cases cfg key' r.1 now m with
    ⟨created, ttl, hget, ⟨hlong, heq⟩ | ⟨hshort, heq⟩⟩ | ⟨hno, heq⟩
  · rw [heq, hget]
    simp only [Option.getD_some]
    refine ⟨?_, fun key hne => ?_⟩
    · rw [ShardMap.get_remove, if_pos rfl]
      exact (if_pos hlong).symm
    · rw [ShardMap.get_remove, if_neg (Ne.symm hne)]
  · rw [heq, hget]
    simp only [Option.getD_some]
    refine ⟨?_, fun key hne => ?_⟩
    · rw [ShardMap.get_insert, if_pos rfl]
      exact (if_neg (Nat.not_lt.2 hshort)).symm
    · rw [ShardMap.get_insert, if_neg (Ne.symm hne)]
  · rw [heq]
    refine ⟨?_, fun _ _ => rfl⟩
    simp only [Option.getD_none]
    cases hget : m.get key' with
    | none => rfl
    | some entry =>
      cases entry with
      | inFlight created ttl => exact absurd hget (hno created ttl)
      | done r => rfl

/-! ## The store -/

omit [DecidableEq F] in
/-- The shard of a key after an operation of it. -/
theorem get_on_self {ρ : Type} {out : ShardMap F → Option (ShardMap F) × ρ} :
    (s.on cfg key out).1.get cfg key =
      ((out (s (cfg.shard key))).1.getD (s (cfg.shard key))).get key := by
  rw [get_on, if_pos rfl]

variable (cfg) in
/-- **The entry of an operation's own key.** -/
theorem get_apply_self (hd : s.Distinct) (op : StoreOp F) :
    (s.apply cfg op).get cfg op.key = op.ownEntry cfg (s.get cfg op.key) := by
  cases op with
  | reserve key fingerprint now =>
    exact get_on_self.trans (reserveEntry_get _ (hd _) key fingerprint now).1
  | store key r now => exact get_on_self.trans (storeEntry_get cfg _ key r now).1
  | release key => exact get_on_self.trans (releaseEntry_get cfg _ key).1

variable (cfg) in
/-- **The entry of another key** is as it was; only a reservation may evict it. -/
theorem get_apply_of_ne (hd : s.Distinct) (hne : key ≠ op.key) :
    (s.apply cfg op).get cfg key = s.get cfg key ∨
      (s.apply cfg op).get cfg key = none ∧
        ∃ fingerprint now, op = .reserve op.key fingerprint now := by
  have hother : ∀ key', cfg.shard key = cfg.shard key' →
      (s (cfg.shard key')).get key = s.get cfg key := by
    intro key' h
    unfold get
    rw [h]
  cases op with
  | reserve key' fingerprint now =>
    unfold apply reserve
    rw [get_on]
    split
    · rename_i h
      rw [← hother key' h]
      rcases (reserveEntry_get _ (hd _) key' fingerprint now).2 key hne with heq | heq
      · exact Or.inl heq
      · exact Or.inr ⟨heq, fingerprint, now, rfl⟩
    · exact Or.inl rfl
  | store key' r now =>
    unfold apply store
    rw [get_on]
    split
    · rename_i h
      rw [← hother key' h]
      exact Or.inl ((storeEntry_get cfg _ key' r now).2 key hne)
    · exact Or.inl rfl
  | release key' =>
    unfold apply release
    rw [get_on]
    split
    · rename_i h
      rw [← hother key' h]
      exact Or.inl ((releaseEntry_get cfg _ key').2 key hne)
    · exact Or.inl rfl

/-- A store keeps one entry for each key. -/
theorem Distinct.apply (hd : s.Distinct) (op : StoreOp F) : (s.apply cfg op).Distinct := by
  have hon : ∀ {ρ : Type} (key : IdempotencyKey) (out : ShardMap F → Option (ShardMap F) × ρ),
      ((out (s (cfg.shard key))).1.getD (s (cfg.shard key))).Distinct →
        (s.on cfg key out).1.Distinct := by
    intro ρ key out h idx
    unfold on
    by_cases hidx : idx = cfg.shard key
    · subst hidx
      simp only [Function.update_self]
      exact h
    · simp only [Function.update_of_ne hidx]
      exact hd idx
  cases op with
  | reserve key fingerprint now =>
    refine hon key _ ?_
    rcases reserveEntry_cases cfg key fingerprint now (s (cfg.shard key)) with
      ⟨-, heq⟩ | ⟨r, -, -, heq⟩ | ⟨created, ttl, -, -, heq⟩
    · rw [heq]
      exact ((hd _).sublist (roomFor_sublist cfg key _)).insert key _
    · rw [heq]
      exact hd _
    · rw [heq]
      exact hd _
  | store key r now =>
    refine hon key _ ?_
    rcases storeEntry_cases cfg key r.1 now (s (cfg.shard key)) with
      ⟨_, _, -, ⟨-, heq⟩ | ⟨-, heq⟩⟩ | ⟨-, heq⟩
    · rw [heq]
      exact (hd _).sublist (ShardMap.remove_sublist _ key)
    · rw [heq]
      exact (hd _).insert key _
    · rw [heq]
      exact hd _
  | release key =>
    refine hon key _ ?_
    rcases releaseEntry_cases key (s (cfg.shard key)) with ⟨_, _, -, heq⟩ | ⟨-, heq⟩
    · rw [heq]
      exact (hd _).sublist (ShardMap.remove_sublist _ key)
    · rw [heq]
      exact hd _

omit [DecidableEq F] in
theorem Distinct.walk (hd : s.Distinct) (idx : Fin shardCount) (w : Walk F) :
    (s.walk idx w).Distinct := by
  intro idx'
  unfold IdempotencyStore.walk
  by_cases h : idx' = idx
  · subst h
    rw [Function.update_self]
    exact (hd _).perm (w.perm _)
  · rw [Function.update_of_ne h]
    exact hd idx'

omit [DecidableEq F] in
/-- **The order of the walk changes no entry.** -/
theorem get_walk (hd : s.Distinct) (idx : Fin shardCount) (w : Walk F) (key : IdempotencyKey) :
    (s.walk idx w).get cfg key = s.get cfg key := by
  unfold IdempotencyStore.walk get
  by_cases h : cfg.shard key = idx
  · rw [h, Function.update_self]
    exact ShardMap.get_perm (hd _) (w.perm _) key
  · rw [Function.update_of_ne h]

/-! ## Answers -/

/-- A reservation that is granted leaves its marker. -/
theorem get_reserve_granted {fingerprint : F} {now : ℕ}
    (h : (s.reserve cfg key fingerprint now).2 = .reserved) :
    (s.reserve cfg key fingerprint now).1.get cfg key = some (.inFlight now cfg.ttlMs) := by
  unfold reserve at h ⊢
  rw [get_on_self]
  unfold on at h
  simp only at h
  rcases reserveEntry_cases cfg key fingerprint now (s (cfg.shard key)) with
    ⟨-, heq⟩ | ⟨r, -, -, heq⟩ | ⟨created, ttl, -, -, heq⟩
  · rw [heq]
    simp only [Option.getD_some]
    rw [ShardMap.get_insert, if_pos rfl]
  · rw [heq] at h
    simp only at h
    split at h <;> cases h
  · rw [heq] at h
    cases h

/-- **The answers of a reservation**, by the entry of its key. -/
theorem reserve_outcome (s : IdempotencyStore F) (key : IdempotencyKey) (fingerprint : F) (now : ℕ) :
    (s.reserve cfg key fingerprint now).2 =
      match s.get cfg key with
      | none => .reserved
      | some entry =>
        if entry.expired now then .reserved
        else
          match entry with
          | .done r => if r.fingerprint = fingerprint then .replay r else .fingerprintMismatch
          | .inFlight _ _ => .inFlight := by
  unfold reserve on get
  simp only
  rcases reserveEntry_cases cfg key fingerprint now (s (cfg.shard key)) with
    ⟨hfree, heq⟩ | ⟨r, hget, hlive, heq⟩ | ⟨created, ttl, hget, hlive, heq⟩
  · rw [heq]
    cases hget : (s (cfg.shard key)).get key with
    | none => rfl
    | some entry =>
      simp only
      rw [if_pos (hfree entry hget)]
  · have hnot : ¬(Entry.done r).expired now = true := by
      rw [hlive]
      exact Bool.false_ne_true
    rw [heq, hget]
    simp only
    rw [if_neg hnot]
  · have hnot : ¬(Entry.inFlight created ttl : Entry F).expired now = true := by
      rw [hlive]
      exact Bool.false_ne_true
    rw [heq, hget]
    simp only
    rw [if_neg hnot]

end IdempotencyStore

end Routeplane.Cache
