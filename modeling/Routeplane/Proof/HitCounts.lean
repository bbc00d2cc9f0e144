import Routeplane.Observability.Lanes

/-!
# Cache hits in two reports

The summary counts the hits of events with a provider, the savings the hits of every event, those of
the cache's own pseudo-providers included. A served hit is recorded under such a pseudo-provider, so
the summary sees none of the hits the savings count.

* `usageSummary_counts`, `cacheSavings_counts`: what the two count.
* `reports_agree_iff`: they agree iff no event of the cache's pseudo-providers is retained and none
  of another pseudo-provider has a cache verdict.
* `served_hit_missed`: a served hit, counted by one of them.
-/

namespace Routeplane.Usage

open Limits (satAdd u64Max)

/-- If every event of one kind is of another, the counts are equal iff the converse holds. -/
theorem countP_eq_iff {α : Type*} {p q : α → Bool} {l : List α} (h : ∀ a ∈ l, p a → q a) :
    l.countP p = l.countP q ↔ ∀ a ∈ l, q a → p a := by
  induction l with
  | nil => simp
  | cons a l ih =>
    have htail : ∀ a ∈ l, p a → q a := fun b hb => h b (List.mem_cons_of_mem _ hb)
    have hle := List.countP_mono_left htail
    have hhead := h a (List.mem_cons_self ..)
    rw [List.countP_cons, List.countP_cons, List.forall_mem_cons, ← ih htail]
    cases hp : p a with
    | true =>
      rw [hp] at hhead
      rw [hhead rfl]
      simp
    | false =>
      cases hq : q a with
      | true =>
        simp
        omega
      | false => simp

/-! ## What the two reports count -/

section Counts

variable (r : Rings)

theorem addCounts (s : UsageSummary) (e : UsageRecord) :
    (s.add e).cacheHitCount = s.cacheHitCount + (if !e.isPseudo && e.isHit then 1 else 0) ∧
      (s.add e).cacheParticipatingCount =
        s.cacheParticipatingCount + (if !e.isPseudo && e.participated then 1 else 0) := by
  have hblock : (s.addBlock e).cacheHitCount = s.cacheHitCount ∧
      (s.addBlock e).cacheParticipatingCount = s.cacheParticipatingCount := by
    unfold UsageSummary.addBlock
    split
    · exact ⟨rfl, rfl⟩
    · split <;> exact ⟨rfl, rfl⟩
  unfold UsageSummary.add
  cases e.isPseudo with
  | true => simpa using hblock
  | false =>
    simp only [UsageSummary.addCall, hblock.1, hblock.2, Bool.not_false, Bool.true_and,
      Bool.false_eq_true, if_false]
    exact ⟨by split <;> rfl, by split <;> rfl⟩

/-- The summary counts the calls of providers. -/
theorem usageSummary_counts :
    r.usageSummary.cacheHitCount = r.getRecentEvents.countP (fun e => !e.isPseudo && e.isHit) ∧
      r.usageSummary.cacheParticipatingCount =
        r.getRecentEvents.countP (fun e => !e.isPseudo && e.participated) := by
  have hfold : ∀ (es : List UsageRecord) (s : UsageSummary),
      (es.foldl UsageSummary.add s).cacheHitCount =
          s.cacheHitCount + es.countP (fun e => !e.isPseudo && e.isHit) ∧
        (es.foldl UsageSummary.add s).cacheParticipatingCount =
          s.cacheParticipatingCount + es.countP (fun e => !e.isPseudo && e.participated) := by
    intro es
    induction es with
    | nil => exact fun s => ⟨rfl, rfl⟩
    | cons e es ih =>
      intro s
      obtain ⟨hhits, hlookups⟩ := ih (s.add e)
      rw [List.foldl_cons, hhits, hlookups, (addCounts s e).1, (addCounts s e).2, List.countP_cons,
        List.countP_cons]
      omega
  obtain ⟨hhits, hlookups⟩ := hfold r.getRecentEvents { window := r.getRecentEvents.length }
  rw [Nat.zero_add] at hhits hlookups
  exact ⟨hhits, hlookups⟩

/-- The savings count, as long as the counters do not saturate. -/
theorem foldl_savings (es : List UsageRecord) (s : CacheSavingsReport)
    (hhits : s.cacheHits + es.length ≤ u64Max) (hlookups : s.cacheableLookups + es.length ≤ u64Max) :
    (es.foldl CacheSavingsReport.add s).cacheHits =
        s.cacheHits + es.countP UsageRecord.isServedHit ∧
      (es.foldl CacheSavingsReport.add s).cacheableLookups =
        s.cacheableLookups + es.countP UsageRecord.participated := by
  induction es generalizing s with
  | nil => exact ⟨rfl, rfl⟩
  | cons e es ih =>
    rw [List.length_cons] at hhits hlookups
    have hadd : (s.add e).cacheHits = s.cacheHits + (if e.isServedHit then 1 else 0) ∧
        (s.add e).cacheableLookups =
          s.cacheableLookups + (if e.participated then 1 else 0) := by
      have hsat : satAdd s.cacheHits 1 = s.cacheHits + 1 ∧
          satAdd s.cacheableLookups 1 = s.cacheableLookups + 1 := by
        unfold satAdd
        omega
      unfold CacheSavingsReport.add CacheSavingsReport.addHit
      cases e.isServedHit <;> cases e.participated <;> simp [hsat.1, hsat.2]
    obtain ⟨hhit, hlookup⟩ := ih (s.add e)
      (by rw [hadd.1]; split <;> omega) (by rw [hadd.2]; split <;> omega)
    rw [List.foldl_cons, hhit, hlookup, hadd.1, hadd.2, List.countP_cons, List.countP_cons]
    omega

end Counts

/-! ## The two compared -/

/-- The window covers every retained event. -/
def Rings.Covered (r : Rings) (now window : ℤ) : Prop :=
  ∀ e ∈ r.getRecentEvents, inWindow now window e

/-- The savings of each tenant. -/
def Rings.allSavings (r : Rings) (now window : ℤ) : List CacheSavingsReport :=
  r.rings.map fun ring => r.cacheSavings (some ring.tenantId) now window

/-- The cache counts of the summary are those of the retained events, and of the savings of all
tenants together. -/
structure ReportsAgree (r : Rings) (now window : ℤ) : Prop where
  hits : r.usageSummary.cacheHitCount = r.getRecentEvents.countP UsageRecord.isHit
  saved : r.getRecentEvents.countP UsageRecord.isHit =
    ((r.allSavings now window).map CacheSavingsReport.cacheHits).sum
  lookups : r.usageSummary.cacheParticipatingCount =
    ((r.allSavings now window).map CacheSavingsReport.cacheableLookups).sum
  rate : r.usageSummary.cacheHitRate = rate (r.getRecentEvents.countP UsageRecord.isHit)
    (r.getRecentEvents.countP UsageRecord.participated)

/-- No event is recorded under a cache's pseudo-provider, and none under another has a cache
verdict. -/
def Rings.HitsUnderProviders (r : Rings) : Prop :=
  ∀ e ∈ r.getRecentEvents, e.isCacheSentinel = false ∧ (e.isPseudo → e.cacheHit = none)

section Agreement

variable {r : Rings} {now window : ℤ}

/-- The events of all rings, in the order of the rings. -/
theorem recentEvents_perm (r : Rings) :
    r.getRecentEvents.Perm (r.rings.flatMap fun ring => ring.stored.map (·.2)) := by
  rw [← List.map_flatMap]
  exact (List.mergeSort_perm ..).map _

theorem find_ring {ring : Ring} (hring : ring ∈ r.rings) :
    r.rings.find? (fun other => other.tenantId = ring.tenantId) = some ring := by
  cases hfind : r.rings.find? fun other => other.tenantId = ring.tenantId with
  | none => exact absurd (by simp) (List.find?_eq_none.1 hfind ring hring)
  | some other =>
    have hsame : other.tenantId = ring.tenantId := by simpa using List.find?_some hfind
    rw [List.inj_on_of_nodup_map r.distinct (List.mem_of_find?_eq_some hfind) hring hsame]

/-- A tenant owns what is in its ring. -/
theorem recentEventsOwned_ring {ring : Ring} (hring : ring ∈ r.rings) :
    r.recentEventsOwned (some ring.tenantId) = ring.stored.map (·.2) := by
  simp only [Rings.recentEventsOwned, Option.bind_some, find_ring hring]
  rw [List.filter_eq_self]
  intro e he
  obtain ⟨entry, hentry, rfl⟩ := List.mem_map.1 he
  exact decide_eq_true (ring.stamped entry hentry)

/-- The savings of a tenant count its served hits, and every lookup with a verdict. -/
theorem cacheSavings_counts (hcovered : r.Covered now window) {ring : Ring} (hring : ring ∈ r.rings) :
    (r.cacheSavings (some ring.tenantId) now window).cacheHits =
        (ring.stored.map (·.2)).countP UsageRecord.isServedHit ∧
      (r.cacheSavings (some ring.tenantId) now window).cacheableLookups =
        (ring.stored.map (·.2)).countP UsageRecord.participated := by
  have hall : (ring.stored.map (·.2)).filter (inWindow now window) = ring.stored.map (·.2) := by
    rw [List.filter_eq_self]
    intro e he
    refine hcovered e ((recentEvents_perm r).mem_iff.2 ?_)
    exact List.mem_flatMap.2 ⟨ring, hring, he⟩
  have hlength : 0 + (ring.stored.map (·.2)).length ≤ u64Max := by
    have hbounded := ring.bounded
    rw [Nat.zero_add, List.length_map]
    unfold maxRetainedEvents at hbounded
    unfold u64Max
    omega
  rw [Rings.cacheSavings, recentEventsOwned_ring hring, hall]
  obtain ⟨hhits, hlookups⟩ := foldl_savings (ring.stored.map (·.2))
    { windowSecs := windowSeconds window } hlength hlength
  rw [Nat.zero_add] at hhits hlookups
  exact ⟨hhits, hlookups⟩

/-- The tenants together count what all retained events count. -/
theorem sum_over_rings (p : UsageRecord → Bool) {f : CacheSavingsReport → ℕ}
    (hf : ∀ ring ∈ r.rings, f (r.cacheSavings (some ring.tenantId) now window) =
      (ring.stored.map (·.2)).countP p) :
    ((r.allSavings now window).map f).sum = r.getRecentEvents.countP p := by
  rw [Rings.allSavings, List.map_map, (recentEvents_perm r).countP_eq, List.countP_flatMap]
  exact congrArg List.sum (List.map_congr_left hf)

theorem isPseudo_of_sentinel {e : UsageRecord} (h : e.isCacheSentinel = true) :
    e.isPseudo = true := by
  simp only [UsageRecord.isCacheSentinel, Bool.or_eq_true, decide_eq_true_eq] at h
  unfold UsageRecord.isPseudo
  obtain h | h := h <;> rw [h] <;> decide

/-- **The reports agree iff every cache verdict is recorded under a provider.** -/
theorem reports_agree_iff (hcovered : r.Covered now window) :
    ReportsAgree r now window ↔ r.HitsUnderProviders := by
  obtain ⟨hsummaryHits, hsummaryLookups⟩ := usageSummary_counts r
  have hsaved := sum_over_rings UsageRecord.isServedHit
    fun ring hring => (cacheSavings_counts hcovered hring).1
  have hlooked := sum_over_rings UsageRecord.participated
    fun ring hring => (cacheSavings_counts hcovered hring).2
  -- each of the three counts is that of a kind within another
  have hhits : r.usageSummary.cacheHitCount = r.getRecentEvents.countP UsageRecord.isHit ↔
      ∀ e ∈ r.getRecentEvents, e.isHit → (!e.isPseudo && e.isHit) := by
    rw [hsummaryHits]
    exact countP_eq_iff fun e _ he => (Bool.and_eq_true_iff.1 he).2
  have hserved : r.getRecentEvents.countP UsageRecord.isHit =
      ((r.allSavings now window).map CacheSavingsReport.cacheHits).sum ↔
        ∀ e ∈ r.getRecentEvents, e.isServedHit → e.isHit := by
    rw [hsaved]
    exact countP_eq_iff fun e _ he => Bool.or_eq_true_iff.2 (.inl he)
  have hlookups : r.usageSummary.cacheParticipatingCount =
      ((r.allSavings now window).map CacheSavingsReport.cacheableLookups).sum ↔
        ∀ e ∈ r.getRecentEvents, e.participated → (!e.isPseudo && e.participated) := by
    rw [hsummaryLookups, hlooked]
    exact countP_eq_iff fun e _ he => (Bool.and_eq_true_iff.1 he).2
  constructor
  · intro h e he
    have hsentinel : e.isCacheSentinel = false := by
      rw [Bool.eq_false_iff]
      intro hs
      have hhit := hserved.1 h.saved e he (Bool.or_eq_true_iff.2 (.inr hs))
      have hreal := (Bool.and_eq_true_iff.1 (hhits.1 h.hits e he hhit)).1
      rw [isPseudo_of_sentinel hs] at hreal
      cases hreal
    refine ⟨hsentinel, fun hpseudo => ?_⟩
    cases hverdict : e.cacheHit with
    | none => rfl
    | some hit =>
      have hparticipated : e.participated = true := by rw [UsageRecord.participated, hverdict]; rfl
      have hreal := (Bool.and_eq_true_iff.1 (hlookups.1 h.lookups e he hparticipated)).1
      rw [hpseudo] at hreal
      cases hreal
  · intro h
    have hreal : ∀ e ∈ r.getRecentEvents, e.participated → e.isPseudo = false := by
      intro e he hparticipated
      rw [Bool.eq_false_iff]
      intro hpseudo
      rw [UsageRecord.participated, (h e he).2 hpseudo] at hparticipated
      cases hparticipated
    have hhit : ∀ e : UsageRecord, e.isHit → e.participated := by
      intro e hhit
      rw [UsageRecord.isHit, decide_eq_true_eq] at hhit
      rw [UsageRecord.participated, hhit]
      rfl
    have hitsAgree := hhits.2 fun e he hh => by rw [hreal e he (hhit e hh), hh]; rfl
    have lookupsAgree := hlookups.2 fun e he hp => by rw [hreal e he hp, hp]; rfl
    refine ⟨hitsAgree, hserved.2 fun e he hh => ?_, lookupsAgree, ?_⟩
    · rw [UsageRecord.isServedHit, (h e he).1, Bool.or_false] at hh
      exact hh
    · show rate r.usageSummary.cacheHitCount r.usageSummary.cacheParticipatingCount = _
      rw [hitsAgree, lookupsAgree, hlooked]

end Agreement

/-! ## A served hit -/

/-- The event of a cache hit, as the proxy records it. -/
def servedHit : UsageRecord :=
  { toUsageEvent := .ofSuccess "acme" "prod" "(cache)" "gpt-4o" 8 4 12 none false : UsageRecord
    }.withCacheHit none 70

/-- A miss under a provider. -/
def providerMiss (tenantId : String) : UsageRecord :=
  { toUsageEvent := .ofSuccess tenantId "prod" "openai" "gpt-4o" 8 4 12 none false
    cacheHit := some false }

/-- A hit under one. -/
def providerHit : UsageRecord :=
  { toUsageEvent := .ofSuccess "acme" "prod" "openai" "gpt-4o" 8 4 12 none false : UsageRecord
    }.withCacheHit none 70

/-- One tenant with one event. -/
def ringOf (e : UsageRecord) : Rings where
  rings := [⟨e.tenantId, [(1, e)], fun entry hentry => by rw [List.mem_singleton.1 hentry],
    (by decide : 1 ≤ maxRetainedEvents)⟩]
  distinct := List.nodup_singleton _

/-- Two tenants; the hit is between the misses. -/
def twoTenants : Rings where
  rings := [⟨"acme", [(1, providerMiss "acme"), (2, providerHit)], by decide,
      (by decide : 2 ≤ maxRetainedEvents)⟩,
    ⟨"globex", [(3, providerMiss "globex")], by decide, (by decide : 1 ≤ maxRetainedEvents)⟩]
  distinct := by decide

theorem recentEvents_ringOf (e : UsageRecord) : (ringOf e).getRecentEvents = [e] := by
  simp [ringOf, Rings.getRecentEvents]

theorem mem_twoTenants {e : UsageRecord} (he : e ∈ twoTenants.getRecentEvents) :
    e ∈ [providerMiss "acme", providerHit, providerMiss "globex"] :=
  (recentEvents_perm twoTenants).mem_iff.1 he

theorem two_tenants_agree : ReportsAgree twoTenants 1 nanosPerSec := by
  refine (reports_agree_iff fun e he => ?_).2 fun e he => ?_
  · have hall : ∀ e ∈ [providerMiss "acme", providerHit, providerMiss "globex"],
        inWindow 1 nanosPerSec e := by decide
    exact hall e (mem_twoTenants he)
  · have hall : ∀ e ∈ [providerMiss "acme", providerHit, providerMiss "globex"],
        e.isCacheSentinel = false ∧ (e.isPseudo → e.cacheHit = none) := by decide
    exact hall e (mem_twoTenants he)

/-- **A served hit is not in the summary**, which counts no lookup, and is one of the savings. -/
theorem served_hit_missed :
    (ringOf servedHit).Covered 1 nanosPerSec ∧
      (ringOf servedHit).usageSummary.cacheHitCount = 0 ∧
      (ringOf servedHit).usageSummary.cacheParticipatingCount = 0 ∧
      ((ringOf servedHit).cacheSavings (some "acme") 1 nanosPerSec).cacheHits = 1 ∧
      ¬ ReportsAgree (ringOf servedHit) 1 nanosPerSec := by
  have hnone : (ringOf servedHit).usageSummary.cacheHitCount = 0 := by decide +kernel
  have hone : (ringOf servedHit).getRecentEvents.countP UsageRecord.isHit = 1 := by
    decide +kernel
  refine ⟨?_, hnone, by decide +kernel, by decide +kernel, fun h => ?_⟩
  · intro e he
    rw [recentEvents_ringOf] at he
    rw [List.mem_singleton.1 he]
    decide
  · have hagree := h.hits
    rw [hnone, hone] at hagree
    cases hagree

end Routeplane.Usage
