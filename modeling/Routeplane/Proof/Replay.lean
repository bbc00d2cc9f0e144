import Routeplane.Lib.Run
import Routeplane.Cache.StoreRuns
import Mathlib.Data.Finset.Union
import Mathlib.Data.Fintype.Basic
import Mathlib.Data.List.Induction

/-!
# Replays are sound and conflicts are exact

* `get_run_done`: a completed entry was stored under its key.
* `get_run`: what a tenant's keys hold is what its own operations and the evictions of its entries
  make of them.
* `replays_sound`: what a reservation is answered, in every run.
-/

namespace Routeplane.Cache

open IdempotencyStore

/-- Operations of any tenants, and the maps walked in any order between them. -/
inductive StoreEvent (F : Type)
  | op (o : StoreOp F)
  | walk (idx : Fin shardCount) (w : Walk F)

section Replay

variable {F : Type} [DecidableEq F] (cfg : StoreConfig)

def StoreEvent.apply (s : IdempotencyStore F) : StoreEvent F → IdempotencyStore F
  | op o => s.apply cfg o
  | walk idx w => s.walk idx w

omit [DecidableEq F] in
def IdempotencyStore.start : IdempotencyStore F := fun _ => []

/-- The store after a run. -/
def storeAfter (events : List (StoreEvent F)) : IdempotencyStore F :=
  Run.run (StoreEvent.apply cfg) IdempotencyStore.start events

variable {cfg} {s : IdempotencyStore F} {key : IdempotencyKey} {e : StoreEvent F}
  {events : List (StoreEvent F)} {tenantId : String}

theorem IdempotencyStore.Distinct.event (hd : s.Distinct) (e : StoreEvent F) :
    (e.apply cfg s).Distinct := by
  cases e with
  | op o => exact hd.apply o
  | walk idx w => exact hd.walk idx w

omit [DecidableEq F] in
theorem distinct_start : (IdempotencyStore.start (F := F)).Distinct := fun _ => List.nodup_nil

theorem distinct_storeAfter (events : List (StoreEvent F)) : (storeAfter cfg events).Distinct := by
  unfold storeAfter Run.run
  induction events using List.reverseRecOn with
  | nil => exact distinct_start
  | append_singleton events e ih =>
    rw [List.foldl_append]
    exact ih.event e

/-! ## Where a completed entry comes from -/

omit [DecidableEq F] in
/-- The operation's own entry is completed if it was, or by the operation. -/
theorem ownEntry_done {o : StoreOp F} {entry : Option (Entry F)} {r : StoredResponse F}
    (h : o.ownEntry cfg entry = some (.done r)) : entry = some (.done r) ∨
      ∃ r0 now, o = .store o.key r0 now ∧ r = StoreOp.stamped cfg r0.1 now := by
  cases o with
  | reserve key fingerprint now =>
    cases entry with
    | none => cases h
    | some entry =>
      unfold StoreOp.ownEntry at h
      simp only at h
      split at h
      · cases h
      · exact Or.inl h
  | store key r0 now =>
    cases entry with
    | none => cases h
    | some entry =>
      cases entry with
      | done r' => exact Or.inl h
      | inFlight created ttl =>
        unfold StoreOp.ownEntry at h
        simp only at h
        split at h
        · cases h
        · exact Or.inr ⟨r0, now, rfl, (Entry.done.inj (Option.some.inj h)).symm⟩
  | release key =>
    cases entry with
    | none => cases h
    | some entry =>
      cases entry with
      | done r' => exact Or.inl h
      | inFlight created ttl => cases h

/-- **A completed entry was stored under its key**, by an operation of the run. -/
theorem get_run_done {r : StoredResponse F}
    (h : (storeAfter cfg events).get cfg key = some (.done r)) :
    ∃ r0 now, StoreEvent.op (.store key r0 now) ∈ events ∧ r = StoreOp.stamped cfg r0.1 now := by
  induction events using List.reverseRecOn with
  | nil => cases h
  | append_singleton events e ih =>
    have hd : (storeAfter cfg events).Distinct := distinct_storeAfter events
    have hearlier : (storeAfter cfg events).get cfg key = some (.done r) →
        ∃ r0 now, StoreEvent.op (.store key r0 now) ∈ events ++ [e] ∧
          r = StoreOp.stamped cfg r0.1 now := by
      intro h
      obtain ⟨r0, now, hmem, heq⟩ := ih h
      exact ⟨r0, now, List.mem_append_left _ hmem, heq⟩
    have hlast : storeAfter cfg (events ++ [e]) = e.apply cfg (storeAfter cfg events) :=
      Run.run_snoc
    rw [hlast] at h
    cases e with
    | walk idx w => exact hearlier ((get_walk hd idx w key).symm.trans h)
    | op o =>
      have happly : (StoreEvent.op o).apply cfg (storeAfter cfg events) =
        (storeAfter cfg events).apply cfg o := rfl
      rw [happly] at h
      by_cases hkey : key = o.key
      · rw [hkey, get_apply_self cfg hd] at h
        rcases ownEntry_done h with hbefore | ⟨r0, now, ho, heq⟩
        · exact hearlier (hkey ▸ hbefore)
        · refine ⟨r0, now, List.mem_append_right _ (List.mem_singleton.2 ?_), heq⟩
          rw [hkey, ← ho]
      · rcases get_apply_of_ne cfg hd hkey with hsame | ⟨hnone, -⟩
        · exact hearlier (hsame.symm.trans h)
        · rw [hnone] at h
          cases h

/-! ## What a tenant sees of a run -/

-- sealed, so that no goal about its members unfolds the union over all shards
omit [DecidableEq F] in
@[irreducible] def storedKeys (s : IdempotencyStore F) : Finset IdempotencyKey :=
  Finset.univ.biUnion fun idx => ((s idx).map (·.1)).toFinset

variable (cfg) in
/-- The tenant's keys whose entries an operation evicts. -/
def evictedKeys (tenantId : String) (s : IdempotencyStore F) (o : StoreOp F) :
    Finset IdempotencyKey :=
  (storedKeys s).filter fun key =>
    key.tenantId = tenantId ∧ key ≠ o.key ∧ ((s.apply cfg o).get cfg key).isNone

variable (cfg) in
/-- What a tenant sees of an event: the operation if it is its own, and which of its entries are
evicted. -/
def seen (tenantId : String) (s : IdempotencyStore F) :
    StoreEvent F → Option (StoreOp F) × Finset IdempotencyKey
  | .op o => (if o.key.tenantId = tenantId then some o else none, evictedKeys cfg tenantId s o)
  | .walk _ _ => (none, ∅)

variable (cfg) in
/-- What a tenant sees of a run: its own operations and the evictions of its entries. -/
def tenantTrace (tenantId : String) :
    IdempotencyStore F → List (StoreEvent F) → List (Option (StoreOp F) × Finset IdempotencyKey)
  | _, [] => []
  | s, e :: events =>
    if (seen cfg tenantId s e).1.isNone ∧ (seen cfg tenantId s e).2 = ∅ then
      tenantTrace tenantId (e.apply cfg s) events
    else seen cfg tenantId s e :: tenantTrace tenantId (e.apply cfg s) events

variable (cfg) in
omit [DecidableEq F] in
/-- The entry of a key after what its tenant sees. -/
def entryAfter (key : IdempotencyKey) (entry : Option (Entry F))
    (x : Option (StoreOp F) × Finset IdempotencyKey) : Option (Entry F) :=
  match x.1 with
  | some o =>
    if key = o.key then o.ownEntry cfg entry else if key ∈ x.2 then none else entry
  | none => if key ∈ x.2 then none else entry

theorem mem_evictedKeys {o : StoreOp F} : key ∈ evictedKeys cfg tenantId s o ↔
    key ∈ storedKeys s ∧ key.tenantId = tenantId ∧ key ≠ o.key ∧
      (s.apply cfg o).get cfg key = none := by
  unfold evictedKeys
  rw [Finset.mem_filter, Option.isNone_iff_eq_none]

omit [DecidableEq F] in
theorem mem_storedKeys {entry : Entry F} (h : s.get cfg key = some entry) : key ∈ storedKeys s := by
  unfold storedKeys
  rw [Finset.mem_biUnion]
  exact ⟨cfg.shard key, Finset.mem_univ _,
    List.mem_toFinset.2 (List.mem_map_of_mem (f := (·.1)) (ShardMap.mem_of_get h))⟩

/-- An entry that is gone and not evicted was never there. -/
theorem get_apply_other (hd : s.Distinct) {o : StoreOp F} (howner : key.tenantId = tenantId)
    (hne : key ≠ o.key) : (s.apply cfg o).get cfg key =
      if key ∈ evictedKeys cfg tenantId s o then none else s.get cfg key := by
  have hcases := get_apply_of_ne cfg hd hne
  have hmem : key ∈ evictedKeys cfg tenantId s o ↔ _ := mem_evictedKeys
  by_cases hgone : (s.apply cfg o).get cfg key = none
  · by_cases hheld : s.get cfg key = none
    · rw [hheld, ite_self, hgone]
    · obtain ⟨entry, hentry⟩ := Option.ne_none_iff_exists'.1 hheld
      have hevicted : key ∈ evictedKeys cfg tenantId s o :=
        hmem.2 ⟨mem_storedKeys hentry, howner, hne, hgone⟩
      exact hgone.trans (if_pos hevicted).symm
  · have hkept : key ∉ evictedKeys cfg tenantId s o := fun h => hgone (hmem.1 h).2.2.2
    have hsame := hcases.resolve_right fun h => hgone h.1
    exact hsame.trans (if_neg hkept).symm

/-- **One event**, as the tenant of a key sees it. -/
theorem get_event (hd : s.Distinct) (howner : key.tenantId = tenantId) (e : StoreEvent F) :
    (e.apply cfg s).get cfg key = entryAfter cfg key (s.get cfg key) (seen cfg tenantId s e) := by
  cases e with
  | walk idx w =>
    have hnot : entryAfter cfg key (s.get cfg key) (none, ∅) = s.get cfg key := by
      unfold entryAfter
      exact if_neg (Finset.notMem_empty key)
    exact (get_walk hd idx w key).trans hnot.symm
  | op o =>
    have happly : (StoreEvent.op o).apply cfg s = s.apply cfg o := rfl
    rw [happly]
    unfold entryAfter seen
    by_cases hown : o.key.tenantId = tenantId
    · simp only [if_pos hown]
      by_cases hkey : key = o.key
      · rw [if_pos hkey, hkey, get_apply_self cfg hd]
      · rw [if_neg hkey]
        exact get_apply_other hd howner hkey
    · simp only [if_neg hown]
      have hkey : key ≠ o.key := fun heq => hown (heq ▸ howner)
      exact get_apply_other hd howner hkey

/-- **A run, as the tenant of a key sees it.** By induction on the events; those it does not see
leave the entry as it is. -/
theorem get_run (hd : s.Distinct) (howner : key.tenantId = tenantId) (events : List (StoreEvent F)) :
    (Run.run (StoreEvent.apply cfg) s events).get cfg key =
      (tenantTrace cfg tenantId s events).foldl (entryAfter cfg key) (s.get cfg key) := by
  induction events generalizing s with
  | nil => rfl
  | cons e events ih =>
    have hrun : Run.run (StoreEvent.apply cfg) s (e :: events) =
      Run.run (StoreEvent.apply cfg) (e.apply cfg s) events := rfl
    have hevent : (e.apply cfg s).get cfg key = _ := get_event hd howner e
    rw [hrun, ih (hd.event e), tenantTrace]
    split
    · rename_i hsilent
      obtain ⟨hnone, hempty⟩ := hsilent
      have hsame : (e.apply cfg s).get cfg key = s.get cfg key := by
        rw [hevent]
        unfold entryAfter
        rw [Option.isNone_iff_eq_none.1 hnone, hempty]
        exact if_neg (Finset.notMem_empty key)
      rw [hsame]
    · rw [List.foldl_cons, hevent]

/-- **Replays are sound and conflicts are exact.** In every run a reservation is answered with a
response only if a success was stored under the key and the fingerprint and has not expired, and
with a mismatch just when an entry that has not expired was stored under another fingerprint. Two
runs in which a tenant sees the same operations of its own and the same evictions give it the same
answers, whatever the other tenants do. -/
theorem replays_sound (cfg : StoreConfig) (events : List (StoreEvent F)) :
    (∀ key fingerprint now r,
      ((storeAfter cfg events).reserve cfg key fingerprint now).2 = .replay r →
      ∃ r0 stored, StoreEvent.op (.store key r0 stored) ∈ events ∧
        r = StoreOp.stamped cfg r0.1 stored ∧ (200 ≤ r.status ∧ r.status < 300) ∧
        r0.1.fingerprint = fingerprint ∧ (Entry.done r).expired now = false) ∧
      (∀ key fingerprint now,
        ((storeAfter cfg events).reserve cfg key fingerprint now).2 = .fingerprintMismatch ↔
          ∃ r, (storeAfter cfg events).get cfg key = some (.done r) ∧
            (Entry.done r).expired now = false ∧ r.fingerprint ≠ fingerprint) ∧
      ∀ tenantId events', tenantTrace cfg tenantId IdempotencyStore.start events =
          tenantTrace cfg tenantId IdempotencyStore.start events' →
        ∀ key fingerprint now, key.tenantId = tenantId →
          ((storeAfter cfg events).reserve cfg key fingerprint now).2 =
            ((storeAfter cfg events').reserve cfg key fingerprint now).2 := by
  refine ⟨fun key fingerprint now r h => ?_, fun key fingerprint now => ?_, ?_⟩
  · rw [reserve_outcome] at h
    split at h
    · cases h
    · split at h
      · cases h
      · rename_i hlive
        split at h
        · rename_i r' hget
          split at h
          · rename_i hsame
            cases h
            -- an answer that is in the store was put there by a call
            obtain ⟨r0, stored, hmem, rfl⟩ := get_run_done hget
            exact ⟨r0, stored, hmem, rfl, r0.2, hsame, by simpa using hlive⟩
          · cases h
        · cases h
  · rw [reserve_outcome]
    constructor
    · intro h
      split at h
      · cases h
      · split at h
        · cases h
        · rename_i hlive
          split at h
          · rename_i r' hget
            split at h
            · cases h
            · rename_i hother
              exact ⟨r', hget, by simpa using hlive, hother⟩
          · cases h
    · rintro ⟨r, hget, hlive, hother⟩
      have hnot : ¬(Entry.done r).expired now = true := by
        rw [hlive]
        exact Bool.false_ne_true
      rw [hget]
      simp only
      rw [if_neg hnot, if_neg hother]
  · intro tenantId events' htrace key fingerprint now howner
    -- the entries of a tenant's keys are decided by its own trace
    have hget : (storeAfter cfg events).get cfg key = (storeAfter cfg events').get cfg key := by
      unfold storeAfter
      rw [get_run distinct_start howner, get_run distinct_start howner, htrace]
    rw [reserve_outcome, reserve_outcome, hget]

end Replay

def answer : Success ℕ :=
  ⟨{ status := 200, contentType := "application/json", body := [123, 125], fingerprint := 7,
     provider := some "openai", requestId := none, createdAtMs := 0, ttlMs := 0 }, by decide⟩

/-- One request, completed. -/
def oneRequest : List (StoreEvent ℕ) :=
  [.op (.reserve ⟨"t1", "k"⟩ 7 0), .op (.store ⟨"t1", "k"⟩ answer 5)]

/-- Its retry is answered with the response that was stored for it. -/
theorem replays_sound_retry : ∃ r0 stored,
    StoreEvent.op (.store ⟨"t1", "k"⟩ r0 stored) ∈ oneRequest ∧ r0.1.fingerprint = 7 ∧
      200 ≤ r0.1.status := by
  have hreplay : ((storeAfter (StoreConfig.withClock 86400 4 fun _ => 0) oneRequest).reserve
      (StoreConfig.withClock 86400 4 fun _ => 0) ⟨"t1", "k"⟩ 7 10).2 =
        .replay (StoreOp.stamped (StoreConfig.withClock 86400 4 fun _ => 0) answer.1 5) := by decide
  obtain ⟨r0, stored, hmem, -, -, hfingerprint, -⟩ :=
    (replays_sound (StoreConfig.withClock 86400 4 fun _ => 0) oneRequest).1 _ _ _ _ hreplay
  exact ⟨r0, stored, hmem, hfingerprint, r0.2.1⟩

end Routeplane.Cache
