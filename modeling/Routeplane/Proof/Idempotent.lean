import Routeplane.Proof.Replay
import Routeplane.Proxy.Idempotent

/-!
# Reservations end with their request

A marker in the store belongs to a request that still runs or was dropped. A request that is
answered takes its marker with it; a dropped one leaves it until the time to live is over.

* `Inv.apply`: every event keeps the markers with their requests.
* `reservation_ends`: what the end of a request leaves, and when a retry is answered 409.
* `dropped_request_pins_key`: a retry refused because of a request that is gone.
* `Gateway.store_run`: the store of a gateway is one that operations lead to.
-/

namespace Routeplane.Cache

section Ends

variable {F : Type} {m : ShardMap F} {key : IdempotencyKey} {x : IdempotencyKey × Entry F}
  {entry : Entry F} {cap now : ℕ} {inserting : String}

/-- What a reservation leaves in a shard: its marker, and entries that were there. -/
theorem reserveEntry_leaves [DecidableEq F] (cfg : StoreConfig) (key : IdempotencyKey)
    (fingerprint : F) (now : ℕ) (m : ShardMap F) :
    ((reserveEntry cfg key fingerprint now m).2 = .reserved ∧
        ∃ rest : ShardMap F, rest.Sublist m ∧
          (reserveEntry cfg key fingerprint now m).1 =
            some (rest.insert key (.inFlight now cfg.ttlMs))) ∨
      (reserveEntry cfg key fingerprint now m).1 = none ∧
        (reserveEntry cfg key fingerprint now m).2 ≠ .reserved ∧
        ((reserveEntry cfg key fingerprint now m).2 = .inFlight →
          ∃ created ttl, m.get key = some (.inFlight created ttl) ∧ now < created + ttl) := by
  rcases reserveEntry_cases cfg key fingerprint now m with
    ⟨-, heq⟩ | ⟨r, -, -, heq⟩ | ⟨created, ttl, hget, hlive, heq⟩
  · rw [heq]
    exact Or.inl ⟨rfl, _, roomFor_sublist cfg key m, rfl⟩
  · rw [heq]
    refine Or.inr ⟨rfl, ?_, ?_⟩
    · simp only
      split <;> simp
    · simp only
      split <;> simp
  · rw [heq]
    refine Or.inr ⟨rfl, by simp, fun _ => ⟨created, ttl, hget, ?_⟩⟩
    unfold Entry.expired Limits.satAdd at hlive
    simp only [decide_eq_false_iff_not, Nat.not_le] at hlive
    exact lt_of_lt_of_le hlive (min_le_left _ _)

/-- After the end of a request its key has no marker: what is left was there and is not one, or is
a stored response. -/
def Ended (key : IdempotencyKey) (m m' : ShardMap F) : Prop :=
  m'.Distinct ∧ ∀ x ∈ m', (x ∈ m ∧ ∀ c t, x ≠ (key, .inFlight c t)) ∨
    ∃ r, x = (key, .done r) ∧ 200 ≤ r.status ∧ r.status < 300

theorem ended_remove (hd : m.Distinct) : Ended key m (m.remove key) := by
  refine ⟨hd.sublist (m.remove_sublist key), fun x hx => Or.inl ?_⟩
  obtain ⟨hmem, hne⟩ := ShardMap.mem_remove.1 hx
  refine ⟨hmem, ?_⟩
  rintro c t rfl
  exact hne rfl

theorem ended_unmarked (hd : m.Distinct) (hno : ∀ c t, m.get key ≠ some (.inFlight c t)) :
    Ended key m m := by
  refine ⟨hd, fun x hx => Or.inl ⟨hx, ?_⟩⟩
  rintro c t rfl
  exact hno c t (ShardMap.get_of_mem hd hx)

theorem ended_release (hd : m.Distinct) : Ended key m ((releaseEntry key m).1.getD m) := by
  rcases releaseEntry_cases key m with ⟨_, _, -, heq⟩ | ⟨hno, heq⟩
  · rw [heq]
    exact ended_remove hd
  · rw [heq]
    exact ended_unmarked hd hno

theorem ended_store (cfg : StoreConfig) (hd : m.Distinct) {r : StoredResponse F}
    (hr : 200 ≤ r.status ∧ r.status < 300) (now : ℕ) :
    Ended key m ((storeEntry cfg key r now m).1.getD m) := by
  rcases storeEntry_cases cfg key r now m with ⟨_, _, -, ⟨-, heq⟩ | ⟨-, heq⟩⟩ | ⟨hno, heq⟩
  · rw [heq]
    exact ended_remove hd
  · rw [heq]
    refine ⟨hd.insert key _, fun x hx => ?_⟩
    rcases List.mem_cons.1 hx with rfl | hx
    · exact Or.inr ⟨_, rfl, hr⟩
    · exact (ended_remove hd).2 x hx
  · rw [heq]
    exact ended_unmarked hd hno

end Ends

end Routeplane.Cache

namespace Routeplane.Idempotent

open Cache

theorem status_of_isSuccess {reply : Reply} (hok : reply.isSuccess = true) :
    200 ≤ reply.status ∧ reply.status < 300 := by
  unfold Reply.isSuccess at hok
  simpa using hok

/-- The pipeline's answer ends the reservation, whatever becomes of its body. -/
theorem finish_ended {F : Type} (cfg : StoreConfig) (key : IdempotencyKey) (fingerprint : F)
    (reply : Reply) (now : ℕ) (s : IdempotencyStore F) (hd : (s (cfg.shard key)).Distinct) :
    ∃ m, (finish cfg key fingerprint reply now s).1 = Function.update s (cfg.shard key) m ∧
      Cache.Ended key (s (cfg.shard key)) m := by
  have hrelease : ∃ m, s.release cfg key = Function.update s (cfg.shard key) m ∧
      Cache.Ended key (s (cfg.shard key)) m := ⟨_, rfl, ended_release hd⟩
  unfold finish
  split
  · rename_i hok
    split
    · exact ⟨_, rfl, ended_store cfg hd (status_of_isSuccess hok) now⟩
    · exact hrelease
  · exact hrelease

namespace Gateway

variable {ι F : Type} [DecidableEq ι] [DecidableEq F]

/-- The request holds its key since `c`, running or dropped. -/
def Holds (asks : ι → Ask F) (g : Gateway ι F) (key : IdempotencyKey) (c : ℕ) (i : ι) : Prop :=
  (asks i).key = some key ∧ (g.call i = .running (some c) ∨ g.call i = .dropped (some c))

/-- Markers belong to requests that run or were dropped, and stored responses are successes. -/
structure Inv (cfg : StoreConfig) (asks : ι → Ask F) (g : Gateway ι F) : Prop where
  distinct : ∀ idx, (g.store idx).Distinct
  placed : ∀ idx, ∀ x ∈ g.store idx, cfg.shard x.1 = idx
  owned : ∀ idx key c t, (key, .inFlight c t) ∈ g.store idx →
    t = cfg.ttlMs ∧ ∃ i, Holds asks g key c i
  stored : ∀ idx key r, (key, .done r) ∈ g.store idx → 200 ≤ r.status ∧ r.status < 300

section Run

variable {cfg : StoreConfig} {asks : ι → Ask F} {g : Gateway ι F} {i j : ι} {key : IdempotencyKey}
  {c now : ℕ} {since : Option ℕ} {ph : Phase F} {events : List (Event ι)}

omit [DecidableEq F] in
theorem Holds.set (h : Holds asks g key c j) (hne : j ≠ i) : Holds asks (g.set i ph) key c j := by
  obtain ⟨hkey, hphase⟩ := h
  refine ⟨hkey, ?_⟩
  unfold Gateway.set
  simp only [Function.update_of_ne hne]
  exact hphase

omit [DecidableEq F] in
/-- A request that changes its phase without holding anything. -/
theorem Inv.set (hi : Inv cfg asks g)
    (hi' : ∀ key c, Holds asks g key c i → Holds asks (g.set i ph) key c i) :
    Inv cfg asks (g.set i ph) where
  distinct := hi.distinct
  placed := hi.placed
  owned idx key c t hx := by
    obtain ⟨ht, j, hj⟩ := hi.owned idx key c t hx
    refine ⟨ht, j, ?_⟩
    by_cases hji : j = i
    · subst hji
      exact hi' key c hj
    · exact hj.set hji
  stored := hi.stored

omit [DecidableEq F] [DecidableEq ι] in
theorem Inv.start : Inv cfg asks (Gateway.start : Gateway ι F) where
  distinct _ := List.nodup_nil
  placed _ _ hx := absurd hx List.not_mem_nil
  owned _ _ _ _ hx := absurd hx List.not_mem_nil
  stored _ _ _ hx := absurd hx List.not_mem_nil

/-- An arrival reserves the key, or is answered from the store. -/
theorem Inv.arrive (hi : Inv cfg asks g) (hidle : g.call i = .idle) (now : ℕ) :
    Inv cfg asks (g.arrive cfg asks i now) := by
  have hnone : ∀ key c, ¬Holds asks g key c i := by
    rintro key c ⟨-, hph | hph⟩
    · rw [hidle] at hph
      cases hph
    · rw [hidle] at hph
      cases hph
  unfold Gateway.arrive
  cases hkey : (asks i).key with
  | none => exact hi.set fun key c h => absurd h (hnone key c)
  | some key =>
    unfold IdempotencyStore.reserve IdempotencyStore.on
    simp only
    rcases reserveEntry_leaves cfg key (asks i).fingerprint now (g.store (cfg.shard key)) with
      ⟨hout, rest, hrest, hmap⟩ | ⟨hmap, hout, -⟩
    · rw [hmap, hout]
      simp only [Option.getD_some]
      -- the marker is the request's own; the other entries were there
      have hmem : ∀ idx, ∀ x ∈ Function.update g.store (cfg.shard key)
          (rest.insert key (.inFlight now cfg.ttlMs)) idx,
          (idx = cfg.shard key ∧ x = (key, .inFlight now cfg.ttlMs)) ∨ x ∈ g.store idx := by
        intro idx x hx
        by_cases hidx : idx = cfg.shard key
        · subst hidx
          rw [Function.update_self] at hx
          rcases List.mem_cons.1 hx with rfl | hx
          · exact Or.inl ⟨rfl, rfl⟩
          · exact Or.inr (hrest.subset (ShardMap.mem_remove.1 hx).1)
        · rw [Function.update_of_ne hidx] at hx
          exact Or.inr hx
      constructor
      · intro idx
        by_cases hidx : idx = cfg.shard key
        · subst hidx
          simp only [Function.update_self]
          exact ((hi.distinct _).sublist hrest).insert key _
        · simp only [Function.update_of_ne hidx]
          exact hi.distinct idx
      · intro idx x hx
        rcases hmem idx x hx with ⟨hidx, rfl⟩ | hx
        · exact hidx.symm
        · exact hi.placed idx x hx
      · intro idx key' c t hx
        rcases hmem idx _ hx with ⟨-, heq⟩ | hx
        · obtain ⟨rfl, hentry⟩ := Prod.mk.inj heq
          obtain ⟨rfl, rfl⟩ := Entry.inFlight.inj hentry
          refine ⟨rfl, i, hkey, Or.inl ?_⟩
          show Function.update g.call i _ i = _
          rw [Function.update_self]
          rfl
        · obtain ⟨ht, j, hj⟩ := hi.owned idx key' c t hx
          have hne : j ≠ i := by
            rintro rfl
            exact hnone _ _ hj
          exact ⟨ht, j, hj.set hne⟩
      · intro idx key' r hx
        rcases hmem idx _ hx with ⟨-, heq⟩ | hx
        · cases heq
        · exact hi.stored idx key' r hx
    · rw [hmap]
      simp only [Option.getD_none, Function.update_eq_self]
      exact hi.set fun key c h => absurd h (hnone key c)

omit [DecidableEq F] in
/-- An answer takes the marker of its key with it. -/
theorem Inv.respond (hi : Inv cfg asks g) (reply : Reply) (now : ℕ) :
    Inv cfg asks (g.respond cfg asks i reply now) ∧
      ∀ key, (asks i).key = some key → ∀ c t,
        (key, .inFlight c t) ∉ (g.respond cfg asks i reply now).store (cfg.shard key) := by
  unfold Gateway.respond
  cases hkey : (asks i).key with
  | none =>
    refine ⟨hi.set fun key c h => ?_, fun key h => by cases h⟩
    obtain ⟨hkey', -⟩ := h
    rw [hkey] at hkey'
    cases hkey'
  | some key =>
    obtain ⟨m, hstore, hdistinct, hmem⟩ :=
      finish_ended cfg key (asks i).fingerprint reply now g.store (hi.distinct _)
    simp only [hstore]
    have hgone : ∀ c t, (key, .inFlight c t) ∉ m := by
      intro c t hx
      rcases hmem _ hx with ⟨-, hno⟩ | ⟨r, heq, -⟩
      · exact hno c t rfl
      · cases heq
    -- only the shard of the key is written, so each part asks which shard is meant
    refine ⟨⟨?_, ?_, ?_, ?_⟩, ?_⟩
    · intro idx
      by_cases hidx : idx = cfg.shard key
      · subst hidx
        simp only [Function.update_self]
        exact hdistinct
      · simp only [Function.update_of_ne hidx]
        exact hi.distinct idx
    · intro idx x hx
      by_cases hidx : idx = cfg.shard key
      · subst hidx
        simp only [Function.update_self] at hx
        rcases hmem x hx with ⟨hx, -⟩ | ⟨r, rfl, -⟩
        · exact hi.placed _ x hx
        · rfl
      · simp only [Function.update_of_ne hidx] at hx
        exact hi.placed idx x hx
    · intro idx key' c t hx
      -- a marker that is left is of another key, so another caller owns it
      have hold : (key', .inFlight c t) ∈ g.store idx ∧ key' ≠ key := by
        by_cases hidx : idx = cfg.shard key
        · subst hidx
          simp only [Function.update_self] at hx
          refine ⟨?_, ?_⟩
          · rcases hmem _ hx with ⟨hx, -⟩ | ⟨r, heq, -⟩
            · exact hx
            · cases heq
          · rintro rfl
            exact hgone c t hx
        · simp only [Function.update_of_ne hidx] at hx
          refine ⟨hx, ?_⟩
          rintro rfl
          exact hidx (hi.placed idx _ hx).symm
      obtain ⟨hx, hne⟩ := hold
      obtain ⟨ht, j, hj⟩ := hi.owned idx key' c t hx
      have hji : j ≠ i := by
        rintro rfl
        exact hne (Option.some.inj (hj.1.symm.trans hkey))
      exact ⟨ht, j, hj.set hji⟩
    · intro idx key' r hx
      by_cases hidx : idx = cfg.shard key
      · subst hidx
        simp only [Function.update_self] at hx
        rcases hmem _ hx with ⟨hx, -⟩ | ⟨r', heq, hr⟩
        · exact hi.stored _ key' r hx
        · obtain ⟨-, hentry⟩ := Prod.mk.inj heq
          obtain rfl := Entry.done.inj hentry
          exact hr
      · simp only [Function.update_of_ne hidx] at hx
        exact hi.stored idx key' r hx
    · rintro key' rfl' c t
      obtain rfl := Option.some.inj rfl'
      simp only [Function.update_self]
      exact hgone c t

/-- **One event.** -/
theorem Inv.apply (hi : Inv cfg asks g) (e : Event ι) : Inv cfg asks (g.apply cfg asks e) := by
  cases e with
  | arrive i now =>
    simp only [Gateway.apply]
    split
    · rename_i hidle
      exact hi.arrive hidle now
    · exact hi
  | respond i reply now =>
    simp only [Gateway.apply]
    split
    · exact (hi.respond reply now).1
    · exact hi
  | drop i =>
    simp only [Gateway.apply]
    split
    · rename_i since hrun
      refine hi.set fun key c h => ?_
      obtain ⟨hkey, hph | hph⟩ := h
      · rw [hrun] at hph
        obtain rfl := Phase.running.inj hph
        refine ⟨hkey, Or.inr ?_⟩
        exact Function.update_self _ _ _
      · rw [hrun] at hph
        cases hph
    · exact hi

/-- Any run, event by event. -/
theorem Inv.run (cfg : StoreConfig) (asks : ι → Ask F) (events : List (Event ι)) :
    Inv cfg asks (Gateway.run cfg asks events) := by
  have hfold : ∀ (events : List (Event ι)) (g : Gateway ι F), Inv cfg asks g →
      Inv cfg asks (events.foldl (Gateway.apply cfg asks) g) := by
    intro events
    induction events with
    | nil => exact fun g hi => hi
    | cons e events ih => exact fun g hi => ih _ (hi.apply e)
  exact hfold events _ Inv.start

/-- A retry refused with 409 met a marker that is not over. -/
theorem Inv.conflict (hi : Inv cfg asks g) (hidle : g.call j = .idle)
    (h : (g.apply cfg asks (.arrive j now)).call j = .ended (.error inFlightResponse)) :
    ∃ key i c, (asks j).key = some key ∧ Holds asks g key c i ∧ now < c + cfg.ttlMs := by
  simp only [Gateway.apply, hidle, Gateway.arrive] at h
  cases hkey : (asks j).key with
  | none =>
    simp only [hkey, Gateway.set, Function.update_self] at h
    cases h
  | some key =>
    simp only [hkey, IdempotencyStore.reserve, IdempotencyStore.on, Gateway.set,
      Function.update_self] at h
    rcases reserveEntry_leaves cfg key (asks j).fingerprint now (g.store (cfg.shard key)) with
      ⟨hout, -⟩ | ⟨-, -, hflight⟩
    · rw [hout] at h
      cases h
    · have hout : (reserveEntry cfg key (asks j).fingerprint now (g.store (cfg.shard key))).2 =
          .inFlight := by
        generalize (reserveEntry cfg key (asks j).fingerprint now (g.store (cfg.shard key))).2 =
          outcome at h
        cases outcome with
        | inFlight => rfl
        | reserved => cases h
        | replay r => cases h
        | fingerprintMismatch =>
          simp [Gateway.admitted, mismatchResponse, inFlightResponse] at h
      obtain ⟨c, t, hget, hlt⟩ := hflight hout
      obtain ⟨rfl, i, hheld⟩ := hi.owned _ key c t (ShardMap.mem_of_get hget)
      exact ⟨key, i, c, rfl, hheld, hlt⟩

end Run

end Gateway

/-- **Reservations.** In every run of keyed requests: an answered request leaves under its key a
stored success or nothing; a dropped one leaves the store as it is; and a retry is refused with 409
only for a request of its key that still runs or was dropped, and only while the time to live of
that request's reservation lasts. -/
theorem reservation_ends {ι F : Type} [DecidableEq ι] [DecidableEq F] (cfg : StoreConfig)
    (asks : ι → Ask F) (events : List (Event ι)) :
    let g := Gateway.run cfg asks events
    (∀ i since reply now key, g.call i = .running since → (asks i).key = some key →
      let s := (g.apply cfg asks (.respond i reply now)).store
      s.get cfg key = none ∨
        ∃ r, s.get cfg key = some (.done r) ∧ 200 ≤ r.status ∧ r.status < 300) ∧
    (∀ i, (g.apply cfg asks (.drop i)).store = g.store) ∧
    ∀ j now, g.call j = .idle →
      (g.apply cfg asks (.arrive j now)).call j = .ended (.error inFlightResponse) →
      ∃ key i since, (asks j).key = some key ∧ (asks i).key = some key ∧
        (g.call i = .running (some since) ∨ g.call i = .dropped (some since)) ∧
        now < since + cfg.ttlMs := by
  have hi := Gateway.Inv.run cfg asks events
  refine ⟨?_, ?_, ?_⟩
  · intro i since reply now key hrun hkey
    have happly : (Gateway.run cfg asks events).apply cfg asks (.respond i reply now) =
        (Gateway.run cfg asks events).respond cfg asks i reply now := by
      simp only [Gateway.apply, hrun]
    obtain ⟨hi', hgone⟩ := hi.respond (i := i) reply now
    rw [happly]
    simp only
    unfold IdempotencyStore.get
    cases hget : ShardMap.get _ key with
    | none => exact Or.inl rfl
    | some entry =>
      have hmem := ShardMap.mem_of_get hget
      cases entry with
      | inFlight c t => exact absurd hmem (hgone key hkey c t)
      | done r => exact Or.inr ⟨r, rfl, hi'.stored _ key r hmem⟩
  · intro i
    simp only [Gateway.apply]
    split <;> rfl
  · intro j now hidle h
    obtain ⟨key, i, c, hj, hheld, hlt⟩ := hi.conflict hidle h
    exact ⟨key, i, c, hj, hheld.1, hheld.2, hlt⟩

/-- A request is dropped, and its client's retry a moment later is refused although nothing runs
under the key. -/
theorem dropped_request_pins_key :
    ¬∀ (cfg : StoreConfig) (asks : Bool → Ask ℕ) (events : List (Event Bool)) (j : Bool) (now : ℕ),
      let g := Gateway.run cfg asks events
      g.call j = .idle →
      (g.apply cfg asks (.arrive j now)).call j = .ended (.error inFlightResponse) →
      ∃ i since, (asks i).key = (asks j).key ∧ g.call i = .running since := by
  intro h
  have hrunning := h (.withClock 86400 4096 fun _ => 0)
    (fun _ => { tenantId := "t", idempotencyKey := some (some "retry-1"), fingerprint := 7 })
    [.arrive false 0, .drop false] true 1 rfl (by decide)
  obtain ⟨i, since, -, hrun⟩ := hrunning
  cases i <;> cases hrun

/-! ## The operations of a gateway -/

section Operations

variable {ι F : Type} [DecidableEq ι] [DecidableEq F]

/-- The pipeline's answer is one operation: a success is stored, or the key is released. -/
theorem finish_op (cfg : StoreConfig) (key : IdempotencyKey) (fingerprint : F) (reply : Reply)
    (now : ℕ) (s : IdempotencyStore F) :
    ∃ op : StoreOp F, (finish cfg key fingerprint reply now s).1 = s.apply cfg op := by
  unfold finish
  split
  · rename_i hok
    split
    · exact ⟨.store key ⟨_, status_of_isSuccess hok⟩ now, rfl⟩
    · exact ⟨.release key, rfl⟩
  · exact ⟨.release key, rfl⟩

/-- **One event** is one operation of the store or none. -/
theorem Gateway.store_apply (cfg : StoreConfig) (asks : ι → Ask F) (g : Gateway ι F)
    (e : Event ι) : ∃ ops : List (StoreOp F),
      (g.apply cfg asks e).store = Run.run (IdempotencyStore.apply cfg) g.store ops := by
  have hone : ∀ {s : IdempotencyStore F}, (∃ op : StoreOp F, s = g.store.apply cfg op) →
      ∃ ops : List (StoreOp F), s = Run.run (IdempotencyStore.apply cfg) g.store ops := by
    rintro s ⟨op, rfl⟩
    exact ⟨[op], rfl⟩
  cases e with
  | arrive i now =>
    simp only [Gateway.apply]
    split
    · unfold Gateway.arrive
      cases (asks i).key with
      | none => exact ⟨[], rfl⟩
      | some key => exact hone ⟨.reserve key (asks i).fingerprint now, rfl⟩
    · exact ⟨[], rfl⟩
  | respond i reply now =>
    simp only [Gateway.apply]
    split
    · unfold Gateway.respond
      cases (asks i).key with
      | none => exact ⟨[], rfl⟩
      | some key => exact hone (finish_op cfg key (asks i).fingerprint reply now g.store)
    · exact ⟨[], rfl⟩
  | drop i =>
    simp only [Gateway.apply]
    split
    · exact ⟨[], rfl⟩
    · exact ⟨[], rfl⟩

/-- **The store of a gateway is one that operations lead to**, of which none stores anything but a
success. -/
theorem Gateway.store_run (cfg : StoreConfig) (asks : ι → Ask F) (events : List (Event ι)) :
    ∃ ops : List (StoreOp F), (Gateway.run cfg asks events).store =
      storeAfter cfg (ops.map StoreEvent.op) := by
  obtain ⟨ops, hops⟩ := Run.exists_run_of_simulates Gateway.store (Gateway.store_apply cfg asks)
    Gateway.start events
  refine ⟨ops, hops.trans ?_⟩
  unfold storeAfter Run.run
  rw [List.foldl_map]
  rfl

end Operations

end Routeplane.Idempotent
