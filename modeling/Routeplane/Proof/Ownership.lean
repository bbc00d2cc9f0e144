import Routeplane.Lib.Run
import Routeplane.Cache.StoreRuns

/-!
# Who owns a reservation

The store does not record who reserved a key, so a request that completes late completes whatever
reservation the key has by then. The run is followed with the requests and what they were granted.

* `Inv.apply`: an entry in flight is that of the last request granted its key.
* `reservation_owned_iff`: when reservations are owned.
* `late_release_frees_key`: a request that releases another's reservation.
-/

namespace Routeplane.Cache.Holders

open IdempotencyStore

/-- What a request was granted. It is displaced when its entry, run out, makes way for another
reservation of the key, or is evicted. -/
structure Grant where
  key : IdempotencyKey
  sinceMs : ℕ
  displaced : Bool
  deriving DecidableEq, Repr

/-- The store, what each request holds, and the request a key was last granted to. -/
structure State (ι F : Type) where
  store : IdempotencyStore F
  grant : ι → Option Grant
  owner : IdempotencyKey → Option ι

def start {ι F : Type} : State ι F := ⟨fun _ => [], fun _ => none, fun _ => none⟩

/-- Requests reserve keys and complete what they were granted, at any times. -/
inductive Event (ι F : Type)
  | reserve (i : ι) (key : IdempotencyKey) (fingerprint : F) (now : ℕ)
  | store (i : ι) (r : Success F) (now : ℕ)
  | release (i : ι)
  | walk (idx : Fin shardCount) (w : Walk F)

section Holders

variable {ι F : Type} [DecidableEq ι] [DecidableEq F] (cfg : StoreConfig)

omit [DecidableEq ι] [DecidableEq F] in
/-- What is left of a grant when another request is granted a key. -/
def displace (before after : IdempotencyStore F) (key : IdempotencyKey) (g : Grant) : Grant :=
  if (before.get cfg g.key).isSome ∧ (g.key = key ∨ (after.get cfg g.key).isNone) then
    { g with displaced := true }
  else g

/-- A request that holds nothing reserves; one that holds something completes it. -/
def apply (s : State ι F) : Event ι F → State ι F
  | .reserve i key fingerprint now =>
    let out := s.store.reserve cfg key fingerprint now
    if (s.grant i).isNone ∧ out.2 = .reserved then
      { store := out.1
        grant := Function.update (fun j => (s.grant j).map (displace cfg s.store out.1 key)) i
          (some ⟨key, now, false⟩)
        owner := Function.update s.owner key (some i) }
    else s
  | .store i r now =>
    match s.grant i with
    | none => s
    | some g =>
      { s with
        store := s.store.apply cfg (.store g.key r now)
        grant := Function.update s.grant i none }
  | .release i =>
    match s.grant i with
    | none => s
    | some g =>
      { s with
        store := s.store.apply cfg (.release g.key)
        grant := Function.update s.grant i none }
  | .walk idx w => { s with store := s.store.walk idx w }

/-- The request that completes in an event, and what it does to its key. -/
def Event.completes : Event ι F → Option (ι × (IdempotencyKey → StoreOp F))
  | .store i r now => some (i, fun key => .store key r now)
  | .release i => some (i, .release)
  | _ => none

/-! ## The property and its condition -/

/-- The request's reservation is live: neither displaced nor run out. -/
def Live (s : State ι F) (i : ι) (key : IdempotencyKey) (now : ℕ) : Prop :=
  ∃ sinceMs, s.grant i = some ⟨key, sinceMs, false⟩ ∧
    (Entry.inFlight sinceMs cfg.ttlMs : Entry F).expired now = false

/-- One request at most holds a key. -/
def Exclusive (s : State ι F) : Prop :=
  ∀ i j key now, Live cfg s i key now → Live cfg s j key now → i = j

/-- A request that completes after another was granted its key leaves the key's entry. -/
def Preserves (s : State ι F) (e : Event ι F) : Prop :=
  ∀ i op g, e.completes = some (i, op) → s.grant i = some g → s.owner g.key ≠ some i →
    (apply cfg s e).store.get cfg g.key = s.store.get cfg g.key

/-- No request is granted a key that another's live reservation holds. -/
def Refuses (s : State ι F) : Event ι F → Prop
  | .reserve _ key fingerprint now =>
    (∃ i, Live cfg s i key now) → (s.store.reserve cfg key fingerprint now).2 ≠ .reserved
  | _ => True

/-- A request that completes after another was granted its key finds it no longer in flight. -/
def Careful (s : State ι F) (e : Event ι F) : Prop :=
  ∀ i op g, e.completes = some (i, op) → s.grant i = some g → s.owner g.key ≠ some i →
    ∀ created ttl, s.store.get cfg g.key ≠ some (.inFlight created ttl)

/-! ## The invariant -/

/-- An entry in flight is that of the last request granted its key, and a request that is not
displaced has its entry. -/
structure Inv (s : State ι F) : Prop where
  distinct : s.store.Distinct
  flight : ∀ key created ttl, s.store.get cfg key = some (.inFlight created ttl) →
    ∃ i, s.owner key = some i ∧ s.grant i = some ⟨key, created, false⟩
  held : ∀ i g, s.grant i = some g → g.displaced = false →
    s.store.get cfg g.key = some (.inFlight g.sinceMs cfg.ttlMs) ∧ s.owner g.key = some i

variable {cfg} {s : State ι F} {e : Event ι F} {i : ι} {g : Grant} {key : IdempotencyKey} {now : ℕ}
  {fingerprint : F} {op : IdempotencyKey → StoreOp F}

omit [DecidableEq ι] [DecidableEq F] in
theorem Inv.start : Inv cfg (start : State ι F) where
  distinct _ := List.nodup_nil
  flight _ _ _ h := by cases h
  held _ _ h := by cases h

variable (cfg) in
omit [DecidableEq ι] [DecidableEq F] in
/-- What completes a key is no reservation of it, leaves no entry in flight, and any other entry as
it is. -/
theorem completes_spec (h : e.completes = some (i, op)) (key : IdempotencyKey) :
    (op key).key = key ∧ (∀ fingerprint now, op key ≠ .reserve (op key).key fingerprint now) ∧
      (∀ entry created ttl, (op key).ownEntry cfg entry ≠ some (.inFlight created ttl)) ∧
      ∀ entry, (∀ created ttl, entry ≠ some (.inFlight created ttl)) →
        (op key).ownEntry cfg entry = entry := by
  cases e with
  | reserve _ _ _ _ => cases h
  | walk _ _ => cases h
  | store _ r now =>
    cases h
    refine ⟨rfl, fun _ _ heq => (by cases heq), fun entry created ttl => ?_, fun entry hno => ?_⟩
    · rcases entry with - | ⟨- | -⟩
      · exact fun heq => by cases heq
      · unfold StoreOp.ownEntry
        simp only
        split <;> exact fun heq => by cases heq
      · exact fun heq => by cases heq
    · rcases entry with - | ⟨created, ttl⟩ | r
      · rfl
      · exact absurd rfl (hno created ttl)
      · rfl
  | release _ =>
    cases h
    refine ⟨rfl, fun _ _ heq => (by cases heq), fun entry created ttl => ?_, fun entry hno => ?_⟩
    · rcases entry with - | ⟨- | -⟩ <;> exact fun heq => by cases heq
    · rcases entry with - | ⟨created, ttl⟩ | r
      · rfl
      · exact absurd rfl (hno created ttl)
      · rfl

/-- A completion acts on the key that was granted, and ends the grant. -/
theorem apply_completes (h : e.completes = some (i, op)) (hg : s.grant i = some g) :
    apply cfg s e =
      { s with
        store := s.store.apply cfg (op g.key)
        grant := Function.update s.grant i none } := by
  cases e with
  | reserve _ _ _ _ => cases h
  | walk _ _ => cases h
  | store _ r now =>
    cases h
    unfold apply
    simp only [hg]
  | release _ =>
    cases h
    unfold apply
    simp only [hg]

/-- **A completion** keeps the invariant if it is careful. -/
theorem Inv.complete (h : Inv cfg s) (hc : e.completes = some (i, op)) (hg : s.grant i = some g)
    (hcareful : Careful cfg s e) : Inv cfg (apply cfg s e) := by
  obtain ⟨hkey, hnoReserve, hended, -⟩ := completes_spec cfg hc g.key
  have hself : (s.store.apply cfg (op g.key)).get cfg g.key =
      (op g.key).ownEntry cfg (s.store.get cfg g.key) := by
    have hown := get_apply_self cfg h.distinct (op g.key)
    rwa [hkey] at hown
  have hother : ∀ key, key ≠ g.key →
      (s.store.apply cfg (op g.key)).get cfg key = s.store.get cfg key := by
    intro key hne
    rw [← hkey] at hne
    rcases get_apply_of_ne cfg h.distinct hne with
      hsame | ⟨-, fingerprint, now, heq⟩
    · exact hsame
    · exact absurd heq (hnoReserve fingerprint now)
  rw [apply_completes hc hg]
  refine ⟨h.distinct.apply _, fun key created ttl hflight => ?_, fun j g' hj hlive => ?_⟩
  · simp only at hflight ⊢
    by_cases hne : key = g.key
    · rw [hne, hself] at hflight
      exact absurd hflight (hended _ _ _)
    · rw [hother key hne] at hflight
      obtain ⟨j, howner, hgrant⟩ := h.flight key created ttl hflight
      have hji : j ≠ i := by
        rintro rfl
        rw [hg] at hgrant
        exact hne (congrArg Grant.key (Option.some.inj hgrant)).symm
      exact ⟨j, howner, (Function.update_of_ne hji _ _).trans hgrant⟩
  · simp only at hj ⊢
    have hji : j ≠ i := by
      rintro rfl
      rw [Function.update_self] at hj
      cases hj
    rw [Function.update_of_ne hji] at hj
    obtain ⟨hentry, howner⟩ := h.held j g' hj hlive
    by_cases hne : g'.key = g.key
    · -- the key is another's by now, and was left in flight
      have hnot : s.owner g.key ≠ some i := by
        rw [← hne, howner]
        exact fun heq => hji (Option.some.inj heq)
      exact absurd (hne ▸ hentry) (hcareful i op g hc hg hnot _ _)
    · exact ⟨(hother _ hne).trans hentry, howner⟩

/-- **A reservation** keeps the invariant: who is displaced no longer counts. -/
theorem Inv.reserve (h : Inv cfg s) (i : ι) (key : IdempotencyKey) (fingerprint : F) (now : ℕ) :
    Inv cfg (apply cfg s (.reserve i key fingerprint now)) := by
  unfold apply
  simp only
  by_cases hgranted : (s.grant i).isNone ∧ (s.store.reserve cfg key fingerprint now).2 = .reserved
  · rw [if_pos hgranted]
    obtain ⟨hidle, hout⟩ := hgranted
    have hmarker := get_reserve_granted hout
    have hother : ∀ key', key' ≠ key →
        (s.store.reserve cfg key fingerprint now).1.get cfg key' = s.store.get cfg key' ∨
          (s.store.reserve cfg key fingerprint now).1.get cfg key' = none := by
      intro key' hne
      have hne' : key' ≠ (StoreOp.reserve key fingerprint now).key := hne
      rcases get_apply_of_ne cfg h.distinct hne' with
        hsame | ⟨hnone, -⟩
      · exact Or.inl hsame
      · exact Or.inr hnone
    refine ⟨h.distinct.apply (.reserve key fingerprint now), fun key' created ttl hflight => ?_,
      fun j g hj hlive => ?_⟩
    · simp only at hflight ⊢
      by_cases hne : key' = key
      · subst hne
        rw [hmarker] at hflight
        cases hflight
        exact ⟨i, Function.update_self _ _ _, Function.update_self _ _ _⟩
      · -- a marker of another key is an old one, and its owner is not displaced
        have hsame : (s.store.reserve cfg key fingerprint now).1.get cfg key' =
            s.store.get cfg key' := by
          refine (hother key' hne).resolve_right fun hnone => ?_
          rw [hnone] at hflight
          cases hflight
        obtain ⟨j, howner, hgrant⟩ := h.flight key' created ttl (hsame.symm.trans hflight)
        have hji : j ≠ i := by
          rintro rfl
          rw [hgrant] at hidle
          cases hidle
        refine ⟨j, (Function.update_of_ne hne _ _).trans howner, ?_⟩
        rw [Function.update_of_ne hji, hgrant, Option.map_some]
        unfold displace
        rw [if_neg]
        rintro ⟨-, hkey | hnone⟩
        · exact hne hkey
        · rw [hflight] at hnone
          cases hnone
    · simp only at hj ⊢
      by_cases hji : j = i
      · subst hji
        rw [Function.update_self] at hj
        cases hj
        exact ⟨hmarker, Function.update_self _ _ _⟩
      · rw [Function.update_of_ne hji] at hj
        obtain ⟨g', hg', hdisplaced⟩ := Option.map_eq_some_iff.1 hj
        unfold displace at hdisplaced
        split at hdisplaced
        · rw [← hdisplaced] at hlive
          cases hlive
        · -- a guard that still counts has its marker in the store
          rename_i hkept
          subst hdisplaced
          obtain ⟨hentry, howner⟩ := h.held j _ hg' hlive
          rw [hentry] at hkept
          have hne : g'.key ≠ key := fun heq => hkept ⟨rfl, Or.inl heq⟩
          have hsome : ¬((s.store.reserve cfg key fingerprint now).1.get cfg g'.key).isNone :=
            fun hnone => hkept ⟨rfl, Or.inr hnone⟩
          have hsame := (hother _ hne).resolve_right fun hnone => hsome (by rw [hnone]; rfl)
          exact ⟨hsame.trans hentry, (Function.update_of_ne hne _ _).trans howner⟩
  · rw [if_neg hgranted]
    exact h

/-- **Every event that is careful keeps the invariant.** -/
theorem Inv.apply (h : Inv cfg s) (hcareful : Careful cfg s e) : Inv cfg (apply cfg s e) := by
  cases e with
  | reserve i key fingerprint now => exact h.reserve i key fingerprint now
  | store i r now =>
    cases hg : s.grant i with
    | none =>
      unfold Holders.apply
      simp only [hg]
      exact h
    | some g => exact h.complete rfl hg hcareful
  | release i =>
    cases hg : s.grant i with
    | none =>
      unfold Holders.apply
      simp only [hg]
      exact h
    | some g => exact h.complete rfl hg hcareful
  | walk idx w =>
    refine ⟨h.distinct.walk idx w, fun key created ttl hflight => ?_, fun i g hg hlive => ?_⟩
    · exact h.flight key created ttl ((get_walk h.distinct idx w key).symm.trans hflight)
    · obtain ⟨hentry, howner⟩ := h.held i g hg hlive
      exact ⟨(get_walk h.distinct idx w g.key).trans hentry, howner⟩

/-! ## Every run -/

omit [DecidableEq ι] [DecidableEq F] in
theorem Inv.exclusive (h : Inv cfg s) : Exclusive cfg s := by
  rintro i j key now ⟨since, hi, -⟩ ⟨since', hj, -⟩
  have howner := (h.held i _ hi rfl).2
  rw [(h.held j _ hj rfl).2] at howner
  exact (Option.some.inj howner).symm

omit [DecidableEq ι] in
theorem Inv.refuses (h : Inv cfg s) (e : Event ι F) : Refuses cfg s e := by
  cases e with
  | reserve j key fingerprint now =>
    rintro ⟨i, since, hi, hlive⟩
    have hentry := (h.held i _ hi rfl).1
    simp only at hentry
    rw [reserve_outcome, hentry]
    simp only
    rw [if_neg (by rw [hlive]; exact Bool.false_ne_true)]
    exact fun heq => by cases heq
  | store _ _ _ => trivial
  | release _ => trivial
  | walk _ _ => trivial

/-- What a completion leaves in place, it did not find in flight. -/
theorem preserves_iff_careful (hd : s.store.Distinct) : Preserves cfg s e ↔ Careful cfg s e := by
  constructor
  · intro hpreserves i op g hc hg hne created ttl hflight
    obtain ⟨hkey, -, hended, -⟩ := completes_spec cfg hc g.key
    have hsame := hpreserves i op g hc hg hne
    have hown := get_apply_self cfg hd (op g.key)
    rw [apply_completes hc hg, hflight] at hsame
    rw [hkey] at hown
    exact hended _ created ttl (hown.symm.trans hsame)
  · intro hcareful i op g hc hg hne
    obtain ⟨hkey, -, -, hleft⟩ := completes_spec cfg hc g.key
    have hown := get_apply_self cfg hd (op g.key)
    have hno := hcareful i op g hc hg hne
    rw [hkey] at hown
    rw [apply_completes hc hg]
    simp only
    rw [hown, hleft _ hno]

theorem distinct_apply (hd : s.store.Distinct) (e : Event ι F) :
    (apply cfg s e).store.Distinct := by
  unfold apply
  cases e with
  | reserve i key fingerprint now =>
    simp only
    split
    · exact hd.apply (.reserve key fingerprint now)
    · exact hd
  | store i r now =>
    simp only
    split
    · exact hd
    · rename_i g _
      exact hd.apply (.store g.key r now)
  | release i =>
    simp only
    split
    · exact hd
    · rename_i g _
      exact hd.apply (.release g.key)
  | walk idx w => exact hd.walk idx w

/-- **When reservations are owned.** In every run, late completions leave the entries of later
reservations, a key has one live reservation at most and no other request is granted it, just when
each request that completes after its key was granted to another finds it no longer in flight. -/
theorem reservation_owned_iff (cfg : StoreConfig) (events : List (Event ι F)) :
    (Run.Steps (apply cfg) (Preserves cfg) start events ∧
        Run.Steps (apply cfg) (Refuses cfg) start events ∧
        Run.States (apply cfg) (Exclusive cfg) start events) ↔
      Run.Steps (apply cfg) (Careful cfg) start events := by
  have hdistinct : (start : State ι F).store.Distinct := fun _ => List.nodup_nil
  constructor
  · rintro ⟨hpreserves, -, -⟩
    exact hpreserves.imp (I := fun s => s.store.Distinct) (fun _ e hd _ => distinct_apply hd e)
      (fun _ _ hd h => (preserves_iff_careful hd).1 h) hdistinct
  · intro hcareful
    have hstep : ∀ (s : State ι F) e, Inv cfg s → Careful cfg s e → Inv cfg (apply cfg s e) :=
      fun _ _ h hc => h.apply hc
    refine ⟨?_, ?_, ?_⟩
    · exact hcareful.imp hstep (fun _ _ h hc => (preserves_iff_careful h.distinct).2 hc) Inv.start
    · exact hcareful.imp hstep (fun _ e h _ => h.refuses e) Inv.start
    · exact (hcareful.states hstep Inv.start).mono fun _ h => h.exclusive

/-- A request that completes before it is displaced. -/
def Prompt (s : State ι F) (e : Event ι F) : Prop :=
  ∀ i op g, e.completes = some (i, op) → s.grant i = some g → g.displaced = false

/-- **Prompt requests are careful**, in every run. -/
theorem careful_of_prompt (events : List (Event ι F))
    (h : Run.Steps (apply cfg) Prompt start events) :
    Run.Steps (apply cfg) (Careful cfg) start events := by
  have hcareful : ∀ (s : State ι F) e, Inv cfg s → Prompt s e → Careful cfg s e := by
    intro s e hinv hprompt i op g hc hg hne
    exact absurd (hinv.held i g hg (hprompt i op g hc hg)).2 hne
  exact h.imp (fun s e hinv hprompt => hinv.apply (hcareful s e hinv hprompt)) hcareful Inv.start

end Holders

/-- The request `0` runs out, `1` is granted its key, and `0` releases it. -/
def lateRelease : List (Event ℕ ℕ) :=
  [.reserve 0 ⟨"t1", "k"⟩ 7 0, .reserve 1 ⟨"t1", "k"⟩ 7 86400000, .release 0]

/-- Then a third request is granted the key that `1` holds. -/
theorem late_release_frees_key :
    Live (StoreConfig.withClock 86400 4 fun _ => 0)
        (Run.run (apply (StoreConfig.withClock 86400 4 fun _ => 0)) start lateRelease) 1
        ⟨"t1", "k"⟩ 86400001 ∧
      ((Run.run (apply (StoreConfig.withClock 86400 4 fun _ => 0)) start
        lateRelease).store.reserve (StoreConfig.withClock 86400 4 fun _ => 0) ⟨"t1", "k"⟩ 7
        86400001).2 = .reserved ∧
      ¬Run.Steps (apply (StoreConfig.withClock 86400 4 fun _ => 0))
        (Preserves (StoreConfig.withClock 86400 4 fun _ => 0)) start lateRelease := by
  refine ⟨⟨86400000, by decide, by decide⟩, by decide, ?_⟩
  rintro ⟨-, -, hrelease, -⟩
  exact absurd (hrelease 0 .release ⟨⟨"t1", "k"⟩, 0, true⟩ rfl (by decide) (by decide)) (by decide)

end Routeplane.Cache.Holders
