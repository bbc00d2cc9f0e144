import Routeplane.Lib.Best
import Routeplane.Cache.Idempotency
import Mathlib.Algebra.Order.BigOperators.Group.Finset
import Mathlib.Algebra.Ring.Nat
import Mathlib.Algebra.Group.Action.Defs
import Mathlib.Data.String.Basic

/-!
# A full shard is shared fairly

A shard never holds more than its cap. When one is full, the tenant that holds the most of it pays
for a new entry with its oldest one, and never for the entry of a tenant that holds as much.

* `evictIfNeeded_cases`: what eviction removes.
* `ShardReached.inv`: the cap, in every run.
* `shard_shared_fairly`: whose entry goes, and what every tenant can keep.
-/

namespace Routeplane.Cache

section Fair

variable {F : Type} {m : ShardMap F} {key : IdempotencyKey} {entry : Entry F} {cap now : ℕ}
  {inserting victim : String}

/-! ## Who pays -/

theorem paysBefore_iff {a b : String} : paysBefore m inserting a b = true ↔
    m.held a < m.held b ∨ m.held a = m.held b ∧
      ((a ≠ inserting ∧ b = inserting) ∨ ((a = inserting ↔ b = inserting) ∧ a < b)) := by
  unfold paysBefore
  simp only [Bool.or_eq_true, Bool.and_eq_true, decide_eq_true_eq, bne_iff_ne, ne_eq,
    Bool.beq_eq_decide_eq, decide_eq_decide]

theorem paysBefore_irrefl (a : String) : paysBefore m inserting a a = false := by
  rw [← Bool.not_eq_true, paysBefore_iff]
  rintro (hlt | ⟨-, ⟨hne, heq⟩ | ⟨-, hlt⟩⟩)
  · exact Nat.lt_irrefl _ hlt
  · exact hne heq
  · exact lt_irrefl a hlt

theorem paysBefore_trans {a b c : String} (hab : paysBefore m inserting a b = true)
    (hbc : paysBefore m inserting b c = true) : paysBefore m inserting a c = true := by
  rw [paysBefore_iff] at hab hbc ⊢
  rcases hab with hab | ⟨hab, hab'⟩
  · rcases hbc with hbc | ⟨hbc, -⟩
    · exact Or.inl (Nat.lt_trans hab hbc)
    · exact Or.inl (by omega)
  · rcases hbc with hbc | ⟨hbc, hbc'⟩
    · exact Or.inl (by omega)
    · refine Or.inr ⟨hab.trans hbc, ?_⟩
      rcases hab' with ⟨hna, hb⟩ | ⟨hiff, hlt⟩
      · rcases hbc' with ⟨hnb, -⟩ | ⟨hiff', -⟩
        · exact absurd hb hnb
        · exact Or.inl ⟨hna, hiff'.1 hb⟩
      · rcases hbc' with ⟨hnb, hc⟩ | ⟨hiff', hlt'⟩
        · exact Or.inl ⟨fun ha => hnb (hiff.1 ha), hc⟩
        · exact Or.inr ⟨hiff.trans hiff', hlt.trans hlt'⟩

theorem evictionVictim_eq (m : ShardMap F) (inserting : String) :
    evictionVictim m inserting = Best.best (paysBefore m inserting) (m.map (·.1.tenantId)) := by
  unfold evictionVictim Best.best
  rw [List.foldl_map]
  congr 1
  funext best e
  cases best <;> rfl

theorem oldestOf_eq (m : ShardMap F) (tenantId : String) :
    oldestOf m tenantId = (Best.best (fun o e => decide (e.2.createdAtMs < o.2.createdAtMs))
      (m.filter fun e => e.1.tenantId = tenantId)).map (·.1) := by
  unfold oldestOf Best.best
  congr 2
  funext best e
  cases best with
  | none => rfl
  | some o => simp only [decide_eq_true_eq]

/-- A tenant holds something iff it is one of the shard's. -/
theorem held_pos_iff {tenantId : String} :
    0 < m.held tenantId ↔ tenantId ∈ m.map (·.1.tenantId) := by
  unfold ShardMap.held
  rw [List.countP_pos_iff, List.mem_map]
  simp only [decide_eq_true_eq]

/-- **The victim holds the most**, and more than the tenant inserting if it is another. -/
theorem evictionVictim_spec (h : evictionVictim m inserting = some victim) :
    (∀ tenantId, m.held tenantId ≤ m.held victim) ∧
      (victim ≠ inserting → m.held inserting < m.held victim) := by
  rw [evictionVictim_eq] at h
  obtain ⟨hmem, hbest⟩ := Best.best_spec paysBefore_irrefl (fun _ _ _ => paysBefore_trans) h
  have hpos := held_pos_iff.2 hmem
  have hcompare : ∀ tenantId, 0 < m.held tenantId → paysBefore m inserting victim tenantId = false :=
    fun tenantId ht => hbest tenantId (held_pos_iff.1 ht)
  have hmost : ∀ tenantId, m.held tenantId ≤ m.held victim := by
    intro tenantId
    by_contra hlt
    have hpays := hcompare tenantId (by omega)
    rw [← Bool.not_eq_true, paysBefore_iff] at hpays
    exact hpays (Or.inl (by omega))
  refine ⟨hmost, fun hne => ?_⟩
  rcases Nat.eq_zero_or_pos (m.held inserting) with hnone | hsome
  · omega
  · -- at equal counts the tenant inserting pays
    by_contra hge
    have hle := hmost inserting
    have hpays := hcompare inserting hsome
    rw [← Bool.not_eq_true, paysBefore_iff] at hpays
    exact hpays (Or.inr ⟨by omega, Or.inl ⟨hne, rfl⟩⟩)

/-- **The oldest entry of a tenant** is its own, and none of its entries is older. -/
theorem oldestOf_spec (h : oldestOf m victim = some key) : ∃ entry, (key, entry) ∈ m ∧
    key.tenantId = victim ∧
      ∀ e ∈ m, e.1.tenantId = victim → entry.createdAtMs ≤ e.2.createdAtMs := by
  rw [oldestOf_eq] at h
  obtain ⟨e, he, rfl⟩ := Option.map_eq_some_iff.1 h
  obtain ⟨hmem, hbest⟩ := Best.best_spec (fun e => by simp)
    (fun a b c hab hbc => by
      simp only [decide_eq_true_eq] at hab hbc ⊢
      omega) he
  obtain ⟨hin, howner⟩ := List.mem_filter.1 hmem
  refine ⟨e.2, hin, by simpa using howner, fun e' he' howner' => ?_⟩
  have hnot := hbest e' (List.mem_filter.2 ⟨he', by simpa using howner'⟩)
  simp only [decide_eq_false_iff_not, Nat.not_lt] at hnot
  exact hnot

/-! ## Who goes -/

/-- **What eviction removes from a shard within its cap**: nothing, the expired entries, or, from a
full shard without any, the oldest entry of the victim. -/
theorem evictIfNeeded_cases (hcap : 0 < cap) (hlen : m.length ≤ cap) (now : ℕ) (inserting : String) :
    (m.length < cap ∧ evictIfNeeded cap m now inserting = m) ∨
      ((m.filter fun e => !e.2.expired now).length < cap ∧
        evictIfNeeded cap m now inserting = m.filter fun e => !e.2.expired now) ∨
      m.length = cap ∧ ∃ victim key, evictionVictim m inserting = some victim ∧
        oldestOf m victim = some key ∧ evictIfNeeded cap m now inserting = m.remove key := by
  unfold evictIfNeeded
  by_cases hroom : m.length < cap
  · rw [if_pos hroom]
    exact Or.inl ⟨hroom, rfl⟩
  · rw [if_neg hroom]
    simp only
    by_cases hswept : (m.filter fun e => !e.2.expired now).length < cap
    · rw [if_pos hswept]
      exact Or.inr (Or.inl ⟨hswept, rfl⟩)
    · rw [if_neg hswept]
      -- nothing has expired, and one round makes room
      have hfull : m.length = cap := by omega
      have hsame : (m.filter fun e => !e.2.expired now) = m := by
        refine List.filter_sublist.eq_of_length_le ?_
        omega
      rw [hsame]
      refine Or.inr (Or.inr ⟨hfull, ?_⟩)
      obtain ⟨rounds, hrounds⟩ : ∃ rounds, m.length = rounds + 1 := ⟨m.length - 1, by omega⟩
      have hsome : evictionVictim m inserting ≠ none := by
        rw [evictionVictim_eq, ne_eq, Best.best_eq_none_iff, List.map_eq_nil_iff]
        rintro rfl
        exact absurd hrounds (by simp)
      obtain ⟨victim, hvictim⟩ := Option.ne_none_iff_exists'.1 hsome
      have hheld : 0 < m.held victim := by
        rw [evictionVictim_eq] at hvictim
        exact held_pos_iff.2 (Best.best_spec paysBefore_irrefl (fun _ _ _ => paysBefore_trans)
          hvictim).1
      have hany : oldestOf m victim ≠ none := by
        rw [oldestOf_eq, ne_eq, Option.map_eq_none_iff, Best.best_eq_none_iff,
          List.filter_eq_nil_iff]
        intro hnone
        obtain ⟨e, he, howner⟩ := List.mem_map.1 (held_pos_iff.1 hheld)
        exact hnone e he (by simpa using howner)
      obtain ⟨key, hkey⟩ := Option.ne_none_iff_exists'.1 hany
      refine ⟨victim, key, hvictim, hkey, ?_⟩
      obtain ⟨entry, hmem, -⟩ := oldestOf_spec hkey
      have hless : (m.remove key).length < cap := by
        rw [← hfull]
        unfold ShardMap.remove
        rw [List.length_filter_lt_length_iff_exists]
        exact ⟨_, hmem, by simp⟩
      rw [hrounds, evictFair, if_neg hroom, hvictim, Option.bind_some, hkey]
      simp only
      cases rounds with
      | zero => rfl
      | succ rounds => rw [evictFair, if_pos hless]

/-- A reservation of a shard within its cap finds a slot. -/
theorem length_roomFor_lt {cfg : StoreConfig} (hcap : 0 < cfg.maxEntriesPerShard)
    (hlen : m.length ≤ cfg.maxEntriesPerShard) (key : IdempotencyKey) (now : ℕ) :
    (roomFor cfg key now m).length < cfg.maxEntriesPerShard := by
  have hremove := (m.remove_sublist key).length_le
  unfold roomFor
  rcases evictIfNeeded_cases hcap (Nat.le_trans hremove hlen) now key.tenantId with
    ⟨hlt, heq⟩ | ⟨hlt, heq⟩ | ⟨hfull, victim, gone, -, hgone, heq⟩
  · rwa [heq]
  · rwa [heq]
  · obtain ⟨entry, hmem, -⟩ := oldestOf_spec hgone
    have hless : ((m.remove key).remove gone).length < (m.remove key).length := by
      unfold ShardMap.remove
      rw [List.length_filter_lt_length_iff_exists]
      exact ⟨_, hmem, by simp⟩
    rw [heq]
    omega

end Fair

/-! ## Runs -/

/-- What an operation leaves in its shard. -/
def after {F ρ : Type} (m : ShardMap F) (out : Option (ShardMap F) × ρ) : ShardMap F :=
  out.1.getD m

/-- The shards of a run: operations at any times, the map walked in any order. -/
inductive ShardReached {F : Type} [DecidableEq F] (cfg : StoreConfig) : ShardMap F → Prop
  | start : ShardReached cfg []
  | reserve {m : ShardMap F} (h : ShardReached cfg m) (key : IdempotencyKey) (fingerprint : F)
      (now : ℕ) : ShardReached cfg (after m (reserveEntry cfg key fingerprint now m))
  | store {m : ShardMap F} (h : ShardReached cfg m) (key : IdempotencyKey) (r : StoredResponse F)
      (now : ℕ) : ShardReached cfg (after m (storeEntry cfg key r now m))
  | release {m : ShardMap F} (h : ShardReached cfg m) (key : IdempotencyKey) :
      ShardReached cfg (after m (releaseEntry key m))
  | walk {m m' : ShardMap F} (h : ShardReached cfg m) (hp : m'.Perm m) : ShardReached cfg m'

section Runs

variable {F : Type} [DecidableEq F] {cfg : StoreConfig} {m : ShardMap F}

/-- **A shard holds no more than its cap**, and one entry for each key. -/
theorem ShardReached.inv (hcap : 0 < cfg.maxEntriesPerShard) (h : ShardReached cfg m) :
    m.Distinct ∧ m.length ≤ cfg.maxEntriesPerShard := by
  induction h with
  | start => exact ⟨List.nodup_nil, Nat.zero_le _⟩
  | reserve _ key fingerprint now ih =>
    rename_i m _
    obtain ⟨hd, hlen⟩ := ih
    unfold after
    rcases reserveEntry_cases cfg key fingerprint now m with
      ⟨-, heq⟩ | ⟨r, -, -, heq⟩ | ⟨created, ttl, -, -, heq⟩
    · rw [heq]
      have hroom := length_roomFor_lt hcap hlen key now
      have hgrown := (roomFor cfg key now m).length_insert_le key (.inFlight now cfg.ttlMs)
      simp only [Option.getD_some]
      refine ⟨(hd.sublist (roomFor_sublist cfg key m)).insert key _, ?_⟩
      split at hgrown <;> omega
    · rw [heq]
      exact ⟨hd, hlen⟩
    · rw [heq]
      exact ⟨hd, hlen⟩
  | store _ key r now ih =>
    rename_i m _
    obtain ⟨hd, hlen⟩ := ih
    unfold after
    rcases storeEntry_cases cfg key r now m with ⟨_, _, hget, ⟨-, heq⟩ | ⟨-, heq⟩⟩ | ⟨-, heq⟩
    · rw [heq]
      exact ⟨hd.sublist (m.remove_sublist key), (m.remove_sublist key).length_le.trans hlen⟩
    · rw [heq]
      have hgrown := m.length_insert_le key (.done { r with createdAtMs := now, ttlMs := cfg.ttlMs })
      rw [hget] at hgrown
      exact ⟨hd.insert key _, hgrown.trans hlen⟩
    · rw [heq]
      exact ⟨hd, hlen⟩
  | release _ key ih =>
    rename_i m _
    obtain ⟨hd, hlen⟩ := ih
    unfold after
    rcases releaseEntry_cases key m with ⟨_, _, -, heq⟩ | ⟨-, heq⟩
    · rw [heq]
      exact ⟨hd.sublist (m.remove_sublist key), (m.remove_sublist key).length_le.trans hlen⟩
    · rw [heq]
      exact ⟨hd, hlen⟩
  | walk _ hp ih => exact ⟨ih.1.perm hp, hp.length_eq.trans_le ih.2⟩

omit [DecidableEq F] in
/-- The tenants of a shard, the one inserting among them. -/
def tenants (m : ShardMap F) (inserting : String) : Finset String :=
  insert inserting (m.map (·.1.tenantId)).toFinset

omit [DecidableEq F] in
/-- **Every entry is some tenant's.** -/
theorem length_eq_sum_held (m : ShardMap F) (inserting : String) :
    m.length = ∑ tenantId ∈ tenants m inserting, m.held tenantId := by
  have hcount : ∀ tenantId, m.held tenantId = (m.map (·.1.tenantId)).count tenantId := by
    intro tenantId
    unfold ShardMap.held
    rw [List.count_eq_countP, List.countP_map]
    refine List.countP_congr fun e _ => ?_
    simp
  have hnone : inserting ∉ (m.map (·.1.tenantId)).toFinset → m.held inserting = 0 := by
    intro hnot
    rw [hcount, List.count_eq_zero]
    exact fun hmem => hnot (List.mem_toFinset.2 hmem)
  unfold tenants
  rw [Finset.sum_insert_of_eq_zero_if_notMem hnone, Finset.sum_congr rfl fun t _ => hcount t,
    List.sum_toFinset_count_eq_length, List.length_map]

omit [DecidableEq F] in
/-- **An equal part is kept**: who holds the most, and more than the one inserting, holds more than
an equal part of the shard. -/
theorem equal_part_lt {inserting victim : String}
    (hmost : ∀ tenantId, m.held tenantId ≤ m.held victim)
    (hmore : m.held inserting < m.held victim) :
    m.length / (tenants m inserting).card < m.held victim := by
  have hmem : inserting ∈ tenants m inserting := Finset.mem_insert_self _ _
  have hless : m.length < (tenants m inserting).card * m.held victim := by
    rw [length_eq_sum_held m inserting, ← smul_eq_mul, ← Finset.sum_const]
    exact Finset.sum_lt_sum (fun t _ => hmost t) ⟨inserting, hmem, hmore⟩
  exact Nat.div_lt_of_lt_mul hless

/-- The entry of another tenant that a reservation takes before its time is the victim's oldest. -/
theorem reserve_takes_oldest (hcap : 0 < cfg.maxEntriesPerShard) (hd : m.Distinct)
    (hlen : m.length ≤ cfg.maxEntriesPerShard) {key k : IdempotencyKey} {fingerprint : F} {now : ℕ}
    {e : Entry F} (hmem : (k, e) ∈ m) (hne : k.tenantId ≠ key.tenantId)
    (hlive : e.expired now = false)
    (hgone : (after m (reserveEntry cfg key fingerprint now m)).get k = none) :
    m.length = cfg.maxEntriesPerShard ∧ evictionVictim m key.tenantId = some k.tenantId ∧
      oldestOf m k.tenantId = some k := by
  have hget := ShardMap.get_of_mem hd hmem
  have hkey : key ≠ k := fun heq => hne (heq ▸ rfl)
  unfold after at hgone
  rcases reserveEntry_cases cfg key fingerprint now m with
    ⟨-, heq⟩ | ⟨r, -, -, heq⟩ | ⟨created, ttl, -, -, heq⟩
  · rw [heq] at hgone
    simp only [Option.getD_some] at hgone
    rw [ShardMap.get_insert, if_neg hkey] at hgone
    have hstays : (m.remove key).get k = some e := by
      rw [ShardMap.get_remove, if_neg hkey, hget]
    have hremove := (m.remove_sublist key).length_le
    unfold roomFor at hgone
    rcases evictIfNeeded_cases hcap (Nat.le_trans hremove hlen) now key.tenantId with
      ⟨-, heq⟩ | ⟨-, heq⟩ | ⟨hfull, victim, gone, hvictim, holdest, heq⟩
    · rw [heq, hstays] at hgone
      cases hgone
    · -- an entry that has not expired is not swept
      have hkept : (k, e) ∈ (m.remove key).filter fun e => !e.2.expired now :=
        List.mem_filter.2 ⟨ShardMap.mem_of_get hstays, by simpa using hlive⟩
      have hd' : ShardMap.Distinct ((m.remove key).filter fun e => !e.2.expired now) :=
        hd.sublist (List.filter_sublist.trans (m.remove_sublist key))
      rw [heq, ShardMap.get_of_mem hd' hkept] at hgone
      cases hgone
    · -- the key was not in the shard, which was full
      have hsame : m.remove key = m :=
        (m.remove_sublist key).eq_of_length_le (by omega)
      rw [hsame] at hfull hvictim holdest heq
      have hk : gone = k := by
        by_contra hnot
        rw [hsame, heq, ShardMap.get_remove, if_neg hnot, hget] at hgone
        cases hgone
      subst hk
      obtain ⟨entry, -, howner, -⟩ := oldestOf_spec holdest
      subst howner
      exact ⟨hfull, hvictim, holdest⟩
  · rw [heq] at hgone
    simp only [Option.getD_none] at hgone
    rw [hget] at hgone
    cases hgone
  · rw [heq] at hgone
    simp only [Option.getD_none] at hgone
    rw [hget] at hgone
    cases hgone

/-- **A full shard is shared fairly.** In every run a shard holds no more than its cap. A
reservation that takes an entry of another tenant before its time takes the oldest of a tenant that
holds more than the one inserting, as much as any, and more than an equal part of the shard. -/
theorem shard_shared_fairly (ttlSeconds cap : ℕ) (shard : IdempotencyKey → Fin shardCount)
    (h : ShardReached (StoreConfig.withClock ttlSeconds cap shard) m) :
    m.length ≤ max cap 1 ∧
      ∀ key fingerprint now k e, (k, e) ∈ m → k.tenantId ≠ key.tenantId → e.expired now = false →
        (after m (reserveEntry (StoreConfig.withClock ttlSeconds cap shard) key fingerprint now
          m)).get k = none →
        m.held key.tenantId < m.held k.tenantId ∧
          (∀ tenantId, m.held tenantId ≤ m.held k.tenantId) ∧
          (∀ e' ∈ m, e'.1.tenantId = k.tenantId → e.createdAtMs ≤ e'.2.createdAtMs) ∧
          max cap 1 / (tenants m key.tenantId).card < m.held k.tenantId := by
  have hcap : 0 < (StoreConfig.withClock ttlSeconds cap shard).maxEntriesPerShard :=
    Nat.lt_of_lt_of_le Nat.zero_lt_one (Nat.le_max_right cap 1)
  obtain ⟨hd, hlen⟩ := h.inv hcap
  refine ⟨hlen, fun key fingerprint now k e hmem hne hlive hgone => ?_⟩
  obtain ⟨hfull, hvictim, holdest⟩ := reserve_takes_oldest hcap hd hlen hmem hne hlive hgone
  obtain ⟨hmost, hmore⟩ := evictionVictim_spec hvictim
  have hpart := equal_part_lt hmost (hmore hne)
  rw [hfull] at hpart
  refine ⟨hmore hne, hmost, ?_, hpart⟩
  obtain ⟨entry, hentry, -, hleast⟩ := oldestOf_spec holdest
  have hsame : entry = e := by
    have hget := ShardMap.get_of_mem hd hentry
    rw [ShardMap.get_of_mem hd hmem] at hget
    exact (Option.some.inj hget).symm
  rw [← hsame]
  exact hleast

/-- Two keys of one tenant fill a shard of two. -/
def fullOfTwo : ShardMap ℕ :=
  [(⟨"t1", "b"⟩, .inFlight 1 86400000), (⟨"t1", "a"⟩, .inFlight 0 86400000)]

/-- Another tenant comes, and the older of the two keys goes. -/
theorem shard_shared_fairly_two : fullOfTwo.held "t2" < fullOfTwo.held "t1" ∧
    2 / (tenants fullOfTwo "t2").card < fullOfTwo.held "t1" := by
  have hrun : ShardReached (StoreConfig.withClock 86400 2 fun _ => 0) fullOfTwo :=
    .reserve (.reserve .start ⟨"t1", "a"⟩ 7 0) ⟨"t1", "b"⟩ 7 1
  have hfair := (shard_shared_fairly 86400 2 (fun _ => 0) hrun).2 ⟨"t2", "a"⟩ 7 2 ⟨"t1", "a"⟩
    (.inFlight 0 86400000) (by decide) (by decide) (by decide) (by decide)
  exact ⟨hfair.1, hfair.2.2.2⟩

end Runs

end Routeplane.Cache
