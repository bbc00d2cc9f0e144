import Routeplane.Cache.Capacity
import Mathlib.Algebra.BigOperators.Group.Finset.Piecewise
import Mathlib.Algebra.BigOperators.Intervals
import Mathlib.Algebra.Order.BigOperators.Group.Finset

/-!
# Capacity is partitioned and accounted exactly

* `sum_partition`: the shares are what there is to share.
* `evictions_spec`: what goes and what stays of one tenant's entries.
* `Inv.applyInsert`: the writer's totals are exact and within the shares.
* `capacity_partitioned`: in every run of the writer.
-/

namespace Routeplane.Cache

open Limits (satAdd u64Max)

/-! ## Shares -/

/-- **The shares are what there is to share.** -/
theorem sum_partition (total : ℕ) {count : ℕ} (hcount : 0 < count) :
    ∑ index, partition total count index = total := by
  have hones : ∀ n r : ℕ, ∑ i ∈ Finset.range n, (if i < r then 1 else 0) = min n r := by
    intro n r
    induction n with
    | zero => rw [Finset.sum_range_zero, Nat.zero_min]
    | succ n ih =>
      rw [Finset.sum_range_succ, ih]
      split <;> omega
  unfold partition
  rw [Fin.sum_univ_eq_sum_range (fun i => total / count + if i < total % count then 1 else 0) count,
    Finset.sum_add_distrib, hones, Finset.sum_const, Finset.card_range, smul_eq_mul,
    Nat.min_eq_right (Nat.mod_lt total hcount).le, Nat.div_add_mod]

namespace TenantCapacityPlan

variable (plan : TenantCapacityPlan)

def tenantId (index : Fin plan.tenantCount) : String := plan.tenantIds.get index

theorem tenantIndex_eq_some_iff {tenantId : String} {index : Fin plan.tenantCount} :
    plan.tenantIndex tenantId = some index ↔ plan.tenantId index = tenantId := by
  unfold tenantIndex TenantCapacityPlan.tenantId
  rw [List.finIdxOf?_eq_some_iff]
  constructor
  · exact fun h => h.1
  · intro h
    refine ⟨h, fun j hj heq => ?_⟩
    have hsame : j = index := plan.sorted.nodup.injective_get (heq.trans h.symm)
    exact absurd hj (hsame ▸ Nat.lt_irrefl _)

/-- Just the tenants that were configured have a share. -/
theorem tenantIndex_new (budgetBytes : ℕ) (bounded : budgetBytes ≤ Limits.u64Max)
    (tenantIds : List String) (tenantId : String) :
    ((new budgetBytes bounded tenantIds).tenantIndex tenantId).isSome ↔ tenantId ∈ tenantIds := by
  unfold tenantIndex
  rw [List.isSome_finIdxOf?, List.contains_iff_mem]
  exact (Finset.mem_sort _).trans List.mem_toFinset

theorem tenantId_injective : Function.Injective plan.tenantId := plan.sorted.nodup.injective_get

theorem sum_storageBudgets_le : ∑ index, plan.storageBudgets index ≤ plan.storageBudgetBytes := by
  rcases Nat.eq_zero_or_pos plan.tenantCount with hnone | hpos
  · have hempty : IsEmpty (Fin plan.tenantCount) := by
      rw [hnone]
      exact Fin.isEmpty
    rw [Finset.univ_eq_empty, Finset.sum_empty]
    exact Nat.zero_le _
  · exact (sum_partition _ hpos).le

end TenantCapacityPlan

/-! ## What goes -/

/-- What entries cost together. -/
def bytes (entries : CacheMap) : ℕ := (entries.map fun e => e.2.cost).sum

theorem bytes_append (es es' : CacheMap) : bytes (es ++ es') = bytes es + bytes es' := by
  unfold bytes
  rw [List.map_append, List.sum_append]

theorem bytes_perm {es es' : CacheMap} (hp : es.Perm es') : bytes es = bytes es' :=
  (hp.map _).sum_eq

theorem foldl_satAdd_cost (es : CacheMap) (total : ℕ) (h : total + bytes es ≤ u64Max) :
    es.foldl (fun total e => satAdd total e.2.cost) total = total + bytes es := by
  induction es generalizing total with
  | nil => rfl
  | cons e es ih =>
    have hbytes : bytes (e :: es) = e.2.cost + bytes es := rfl
    have hadd : satAdd total e.2.cost = total + e.2.cost := by
      unfold satAdd
      omega
    rw [List.foldl_cons, hadd, ih _ (by omega), hbytes, Nat.add_assoc]

theorem foldl_sub_cost (es : CacheMap) (total : ℕ) :
    es.foldl (fun total e => total - e.2.cost) total = total - bytes es := by
  induction es generalizing total with
  | nil => rfl
  | cons e es ih =>
    have hbytes : bytes (e :: es) = e.2.cost + bytes es := rfl
    rw [List.foldl_cons, ih, hbytes, Nat.sub_sub]

/-- The loop takes entries from the front until the rest fits, or none is left. -/
theorem evictByAge_spec (budget : ℕ) (es : CacheMap) (total : ℕ) : ∃ front back,
    es = front ++ back ∧ (evictByAge budget es total).1 = front.map (·.1) ∧
      (evictByAge budget es total).2 = total - bytes front ∧
      (total - bytes front ≤ budget ∨ back = []) := by
  induction es generalizing total with
  | nil => exact ⟨[], [], rfl, rfl, rfl, Or.inr rfl⟩
  | cons e es ih =>
    rw [evictByAge]
    by_cases hfits : total ≤ budget
    · rw [if_pos hfits]
      exact ⟨[], e :: es, rfl, rfl, rfl, Or.inl hfits⟩
    · rw [if_neg hfits]
      obtain ⟨front, back, hsplit, hkeys, htotal, hend⟩ := ih (total - e.2.cost)
      have hbytes : bytes (e :: front) = e.2.cost + bytes front := rfl
      refine ⟨e :: front, back, by rw [hsplit, List.cons_append], ?_, ?_, ?_⟩
      · simp only
        rw [hkeys, List.map_cons]
      · simp only
        rw [htotal, hbytes, Nat.sub_sub]
      · rwa [hbytes, ← Nat.sub_sub]

/-- What goes and what stays of a tenant's entries: the total is that of what stays and within the
budget, and an entry that has not expired goes only when no expired one stays and none that is
older. -/
structure Evicts (budget now : ℕ) (candidates gone kept : CacheMap) (out : List CacheKey × ℕ) :
    Prop where
  split : candidates.Perm (gone ++ kept)
  keys : out.1 = gone.map (·.1)
  total : out.2 = bytes kept
  fits : out.2 ≤ budget
  ordered : ∀ e ∈ gone, e.2.expired now = false → ∀ e' ∈ kept,
    e'.2.expired now = false ∧ e.2.insertedAtMs ≤ e'.2.insertedAtMs

theorem filter_split (es : CacheMap) (p : CacheKey × CacheEntry → Bool) :
    es.Perm (es.filter p ++ es.filter fun e => !p e) :=
  (List.filter_append_perm p es).symm

theorem evictions_spec (budget now : ℕ) {candidates : CacheMap} (h : bytes candidates ≤ u64Max) :
    ∃ gone kept, Evicts budget now candidates gone kept (evictions budget now candidates) := by
  have hall : candidates.foldl (fun total e => satAdd total e.2.cost) 0 = bytes candidates := by
    rw [foldl_satAdd_cost _ _ (by omega), Nat.zero_add]
  unfold evictions
  simp only [hall, foldl_sub_cost]
  by_cases hfits : bytes candidates ≤ budget
  · rw [if_pos hfits]
    exact ⟨[], candidates, List.Perm.refl _, rfl, rfl, hfits, fun e he => by cases he⟩
  · rw [if_neg hfits]
    -- the expired entries go first
    have hsplit := filter_split candidates fun e => e.2.expired now
    have hbytes := bytes_perm hsplit
    rw [bytes_append] at hbytes
    set expired := candidates.filter fun e => e.2.expired now with hexpired
    set fresh := candidates.filter fun e => !e.2.expired now with hfresh
    have hleft : bytes candidates - bytes expired = bytes fresh := by omega
    have hold : ∀ e ∈ expired, e.2.expired now = true := fun e he => (List.mem_filter.1 he).2
    rw [hleft]
    by_cases hswept : bytes fresh ≤ budget
    · rw [if_pos hswept]
      refine ⟨expired, fresh, hsplit, rfl, rfl, hswept, fun e he hnot => ?_⟩
      rw [hold e he] at hnot
      cases hnot
    · rw [if_neg hswept]
      -- then the others, the oldest first
      set byAge := fresh.mergeSort fun a b => decide (a.2.insertedAtMs ≤ b.2.insertedAtMs)
        with hbyAge
      obtain ⟨front, back, hparts, hkeys, htotal, hend⟩ := evictByAge_spec budget byAge (bytes fresh)
      have hperm : fresh.Perm (front ++ back) := by
        rw [← hparts]
        exact (List.mergeSort_perm _ _).symm
      have hfront := bytes_perm hperm
      rw [bytes_append] at hfront
      have hsorted : (front ++ back).Pairwise fun a b =>
          decide (a.2.insertedAtMs ≤ b.2.insertedAtMs) := by
        rw [← hparts]
        refine List.pairwise_mergeSort (fun a b c hab hbc => ?_) (fun a b => ?_) _
        · simp only [decide_eq_true_eq] at hab hbc ⊢
          omega
        · simp only [Bool.or_eq_true, decide_eq_true_eq]
          omega
      refine ⟨expired ++ front, back, ?_, ?_, ?_, ?_, fun e he hnot e' he' => ?_⟩
      · rw [List.append_assoc]
        exact hsplit.trans (hperm.append_left _)
      · simp only
        rw [hkeys, List.map_append]
      · simp only
        rw [htotal]
        omega
      · simp only
        rw [htotal]
        rcases hend with hle | rfl
        · exact hle
        · have hnil : bytes ([] : CacheMap) = 0 := rfl
          omega
      · have hyoung : e'.2.expired now = false := by
          have hmem := (List.mem_filter.1 (hperm.symm.subset (List.mem_append_right _ he'))).2
          simpa using hmem
        rcases List.mem_append.1 he with hexp | hfr
        · rw [hold e hexp] at hnot
          cases hnot
        · exact ⟨hyoung, by simpa using (List.pairwise_append.1 hsorted).2.2 e hfr e' he'⟩

/-- What stays are the entries whose keys are not listed. -/
theorem Evicts.perm_kept {budget now : ℕ} {candidates gone kept : CacheMap}
    {out : List CacheKey × ℕ} (h : Evicts budget now candidates gone kept out)
    (hd : candidates.Distinct) : (candidates.filter fun e => e.1 ∉ out.1).Perm kept := by
  have hboth : Assoc.Distinct (gone ++ kept) := hd.perm h.split.symm
  unfold Assoc.Distinct at hboth
  rw [List.map_append, List.nodup_append] at hboth
  have hnone : gone.filter (fun e => decide (e.1 ∉ out.1)) = [] := by
    rw [List.filter_eq_nil_iff]
    intro e he hnot
    rw [h.keys, decide_eq_true_eq] at hnot
    exact hnot (List.mem_map_of_mem he)
  have hall : kept.filter (fun e => decide (e.1 ∉ out.1)) = kept := by
    rw [List.filter_eq_self]
    intro e he
    rw [h.keys, decide_eq_true_eq]
    exact fun hmem => hboth.2.2 _ hmem _ (List.mem_map_of_mem he) rfl
  have hperm := h.split.filter fun e => decide (e.1 ∉ out.1)
  rwa [List.filter_append, hnone, hall, List.nil_append] at hperm

/-! ## The shards -/

section Shards

variable {shards : Fin cacheShardCount → CacheMap} {shard : CacheKey → Fin cacheShardCount}
  {tenantId : String} {key : CacheKey} {entry : CacheEntry}

theorem mem_tenantEntries {e : CacheKey × CacheEntry} :
    e ∈ tenantEntries shards tenantId ↔ (∃ i, e ∈ shards i) ∧ e.1.tenantId = tenantId := by
  unfold tenantEntries
  simp only [List.mem_flatMap, List.mem_finRange, true_and, List.mem_filter, decide_eq_true_eq,
    exists_and_right]

/-- What an entry costs a tenant. -/
def tenantCost (tenantId : String) (e : CacheKey × CacheEntry) : ℕ :=
  if e.1.tenantId = tenantId then e.2.cost else 0

theorem bytes_filter_tenant (m : CacheMap) (tenantId : String) :
    bytes (m.filter fun e => e.1.tenantId = tenantId) = (m.map (tenantCost tenantId)).sum := by
  induction m with
  | nil => rfl
  | cons e m ih =>
    rw [List.map_cons, List.sum_cons, ← ih]
    unfold tenantCost
    by_cases he : e.1.tenantId = tenantId
    · rw [if_pos he, List.filter_cons_of_pos (by simpa using he)]
      rfl
    · rw [if_neg he, List.filter_cons_of_neg (by simpa using he), Nat.zero_add]

/-- A tenant's bytes, shard by shard. -/
theorem bytes_tenantEntries (shards : Fin cacheShardCount → CacheMap) (tenantId : String) :
    bytes (tenantEntries shards tenantId) = ∑ i, ((shards i).map (tenantCost tenantId)).sum := by
  have hsum : ∀ l : List (Fin cacheShardCount),
      bytes (l.flatMap fun i => (shards i).filter fun e => e.1.tenantId = tenantId) =
        (l.map fun i => ((shards i).map (tenantCost tenantId)).sum).sum := by
    intro l
    induction l with
    | nil => rfl
    | cons i l ih =>
      rw [List.flatMap_cons, bytes_append, ih, bytes_filter_tenant, List.map_cons, List.sum_cons]
  rw [Fin.sum_univ_def]
  exact hsum _

/-- The shards with a new entry. -/
def written (shard : CacheKey → Fin cacheShardCount) (shards : Fin cacheShardCount → CacheMap)
    (key : CacheKey) (entry : CacheEntry) : Fin cacheShardCount → CacheMap :=
  Function.update shards (shard key) ((shards (shard key)).insert key entry)

/-- What a new entry adds to a tenant's bytes. -/
theorem bytes_written (tenantId : String) (hd : (shards (shard key)).Distinct) (entry : CacheEntry) :
    bytes (tenantEntries (written shard shards key entry) tenantId) +
        (((shards (shard key)).get key).elim 0 fun old => tenantCost tenantId (key, old)) =
      bytes (tenantEntries shards tenantId) + tenantCost tenantId (key, entry) := by
  have hinsert := Assoc.sum_insert hd key entry (tenantCost tenantId)
  have hupdate : (fun i => ((written shard shards key entry i).map (tenantCost tenantId)).sum) =
      Function.update (fun i => ((shards i).map (tenantCost tenantId)).sum) (shard key)
        (((shards (shard key)).insert key entry).map (tenantCost tenantId)).sum :=
    Function.comp_update (fun m : CacheMap => (m.map (tenantCost tenantId)).sum) shards (shard key) _
  rw [bytes_tenantEntries, bytes_tenantEntries, hupdate,
    Finset.sum_update_of_mem (Finset.mem_univ _),
    Finset.sum_eq_add_sum_sdiff_singleton_of_mem (Finset.mem_univ (shard key)) fun i =>
      ((shards i).map (tenantCost tenantId)).sum]
  omega

/-- The shards without the entries of some keys. -/
def swept (shard : CacheKey → Fin cacheShardCount) (removals : List CacheKey)
    (shards : Fin cacheShardCount → CacheMap) : Fin cacheShardCount → CacheMap :=
  fun i => (CacheCore.removalsOf shard removals i).foldl Assoc.remove (shards i)

theorem get_written (key' : CacheKey) :
    (written shard shards key entry (shard key')).get key' =
      if key = key' then some entry else (shards (shard key')).get key' := by
  unfold written
  by_cases hshard : shard key' = shard key
  · rw [hshard, Function.update_self, Assoc.get_insert]
  · have hne : key ≠ key' := by
      rintro rfl
      exact hshard rfl
    rw [Function.update_of_ne hshard, if_neg hne]

theorem get_swept (removals : List CacheKey) (key' : CacheKey) :
    (swept shard removals shards (shard key')).get key' =
      if key' ∈ removals then none else (shards (shard key')).get key' := by
  have hmem : key' ∈ CacheCore.removalsOf shard removals (shard key') ↔ key' ∈ removals := by
    unfold CacheCore.removalsOf
    rw [List.mem_filter]
    simp
  unfold swept
  rw [Assoc.get_foldl_remove]
  simp only [hmem]

/-- Every entry is in the shard of its key, and there once. -/
structure Placed (shard : CacheKey → Fin cacheShardCount)
    (shards : Fin cacheShardCount → CacheMap) : Prop where
  distinct : ∀ i, (shards i).Distinct
  inShard : ∀ i, ∀ e ∈ shards i, shard e.1 = i

theorem Placed.written (h : Placed shard shards) (key : CacheKey) (entry : CacheEntry) :
    Placed shard (written shard shards key entry) := by
  constructor
  · intro i
    unfold Cache.written
    by_cases hi : i = shard key
    · subst hi
      rw [Function.update_self]
      exact (h.distinct _).insert key entry
    · rw [Function.update_of_ne hi]
      exact h.distinct i
  · intro i e he
    unfold Cache.written at he
    by_cases hi : i = shard key
    · subst hi
      rw [Function.update_self] at he
      rcases List.mem_cons.1 he with rfl | he
      · rfl
      · exact h.inShard _ e (Assoc.mem_remove.1 he).1
    · rw [Function.update_of_ne hi] at he
      exact h.inShard i e he

theorem swept_sublist (removals : List CacheKey) (i : Fin cacheShardCount) :
    (swept shard removals shards i).Sublist (shards i) := by
  unfold swept
  rw [Assoc.foldl_remove]
  exact List.filter_sublist

theorem Placed.swept (h : Placed shard shards) (removals : List CacheKey) :
    Placed shard (swept shard removals shards) where
  distinct i := (h.distinct i).sublist (swept_sublist removals i)
  inShard i e he := h.inShard i e ((swept_sublist removals i).subset he)

theorem Placed.walk (h : Placed shard shards) {shards' : Fin cacheShardCount → CacheMap}
    (hperm : ∀ i, (shards' i).Perm (shards i)) : Placed shard shards' where
  distinct i := (h.distinct i).perm (hperm i)
  inShard i e he := h.inShard i e ((hperm i).subset he)

/-- What a key holds is the entry it has in its tenant's entries. -/
theorem Placed.get_eq_some_iff (h : Placed shard shards) :
    (shards (shard key)).get key = some entry ↔ (key, entry) ∈ tenantEntries shards key.tenantId := by
  rw [Assoc.get_eq_some_iff (h.distinct _), mem_tenantEntries]
  constructor
  · exact fun hmem => ⟨⟨_, hmem⟩, rfl⟩
  · rintro ⟨⟨i, hmem⟩, -⟩
    have hi := h.inShard i _ hmem
    rwa [← hi] at hmem

/-- A tenant's entries are distinct, over all shards. -/
theorem Placed.distinct_tenantEntries (h : Placed shard shards) (tenantId : String) :
    (tenantEntries shards tenantId).Distinct := by
  unfold Assoc.Distinct tenantEntries
  rw [List.map_flatMap, List.nodup_flatMap]
  constructor
  · intro i _
    exact (h.distinct i).sublist List.filter_sublist
  · refine (List.nodup_finRange _).pairwise_of_forall_ne fun i _ j _ hne => ?_
    intro key hi hj
    obtain ⟨e, he, rfl⟩ := List.mem_map.1 hi
    obtain ⟨e', he', heq⟩ := List.mem_map.1 hj
    have hshard := h.inShard i e (List.mem_of_mem_filter he)
    have hshard' := h.inShard j e' (List.mem_of_mem_filter he')
    exact hne (by rw [← hshard, ← hshard', heq])

/-- Sweeping the shards is sweeping the tenant's entries. -/
theorem Placed.tenantEntries_swept (h : Placed shard shards) (removals : List CacheKey)
    (tenantId : String) : tenantEntries (Cache.swept shard removals shards) tenantId =
      (tenantEntries shards tenantId).filter fun e => e.1 ∉ removals := by
  unfold tenantEntries
  rw [List.filter_flatMap]
  congr 1
  funext i
  unfold Cache.swept
  rw [Assoc.foldl_remove, List.filter_filter, List.filter_filter]
  refine List.filter_congr fun e he => ?_
  have hmem : e.1 ∈ CacheCore.removalsOf shard removals i ↔ e.1 ∈ removals := by
    unfold CacheCore.removalsOf
    rw [List.mem_filter]
    simp [h.inShard i e he]
  simp only [hmem]
  exact Bool.and_comm _ _

/-- The entries of the other tenants are as they were. -/
theorem tenantEntries_written_of_ne (hne : key.tenantId ≠ tenantId) (entry : CacheEntry) :
    tenantEntries (written shard shards key entry) tenantId = tenantEntries shards tenantId := by
  unfold tenantEntries
  congr 1
  funext i
  unfold written
  by_cases hi : i = shard key
  · subst hi
    rw [Function.update_self]
    unfold Assoc.insert Assoc.remove
    rw [List.filter_cons_of_neg (by simpa using hne), List.filter_filter]
    refine List.filter_congr fun e _ => ?_
    by_cases he : e.1.tenantId = tenantId
    · have hkey : e.1 ≠ key := by
        intro heq
        exact hne (heq ▸ he)
      simp [he, hkey]
    · simp [he]
  · rw [Function.update_of_ne hi]

end Shards

/-! ## The writer -/

/-- A write that a tenant's bytes can be added up with in 64 bits. -/
def TenantCapacityPlan.Fits (plan : TenantCapacityPlan) (tenantId : String) (entry : CacheEntry) :
    Prop :=
  ∀ index, plan.tenantIndex tenantId = some index →
    plan.storageBudgets index + entry.cost ≤ u64Max

/-- A write the core stores: of a registered tenant, within the cap of a body and the share. -/
def TenantCapacityPlan.Accepts (plan : TenantCapacityPlan) (tenantId : String)
    (entry : CacheEntry) : Prop :=
  ∃ index, plan.tenantIndex tenantId = some index ∧ entry.body.length ≤ maxEntryBytes ∧
    entry.cost ≤ plan.storageBudgets index

/-- **What try_insert admits can be added up**: it refuses what is over the writer's share. -/
theorem TenantCapacityPlan.fits_of_admitted (plan : TenantCapacityPlan) {tenantId : String}
    {entry : CacheEntry} (h : ∀ index, plan.tenantIndex tenantId = some index →
      entry.cost ≤ min (plan.storageBudgets index) (plan.writerBudgets index)) :
    plan.Fits tenantId entry := by
  intro index hindex
  have hcost := h index hindex
  have hcount : 0 < plan.tenantCount := by
    have := index.isLt
    omega
  have hstored : plan.storageBudgets index ≤ plan.storageBudgetBytes := by
    rw [← sum_partition plan.storageBudgetBytes hcount]
    exact Finset.single_le_sum (fun _ _ => Nat.zero_le _) (Finset.mem_univ index)
  have hqueued : plan.writerBudgets index ≤ plan.writerBudgetBytes := by
    rw [← sum_partition plan.writerBudgetBytes hcount]
    exact Finset.single_le_sum (fun _ _ => Nat.zero_le _) (Finset.mem_univ index)
  have hhalf : plan.writerBudgetBytes ≤ plan.budgetBytes / 2 := Nat.min_le_left _ _
  have hbounded := plan.bounded
  unfold storageBudgetBytes at hstored
  omega

/-- A body that is not longer than the tenant may store with its model is admitted. -/
theorem TenantCapacityPlan.admitted_of_maxResponse (plan : TenantCapacityPlan) {tenantId : String}
    {entry : CacheEntry} (hbody : 0 < entry.body.length) (h : entry.body.length ≤
      plan.maxResponseBytesForTenant tenantId (utf8 entry.model).length)
    {index : Fin plan.tenantCount} (hindex : plan.tenantIndex tenantId = some index) :
    entry.body.length ≤ maxEntryBytes ∧
      entry.cost ≤ min (plan.storageBudgets index) (plan.writerBudgets index) := by
  unfold maxResponseBytesForTenant at h
  rw [hindex] at h
  unfold effectivePayloadBudgetBytes at h
  unfold CacheEntry.cost
  simp only at h
  omega

section Writer

variable {plan : TenantCapacityPlan} {shard : CacheKey → Fin cacheShardCount} {c : CacheCore plan}
  {key : CacheKey} {entry : CacheEntry} {now : ℕ}

/-- **The totals are exact and within the shares.** -/
structure CacheCore.Inv (shard : CacheKey → Fin cacheShardCount) (c : CacheCore plan) : Prop where
  placed : Placed shard c.shards
  counted : ∀ index, c.tenantBytes index = bytes (tenantEntries c.shards (plan.tenantId index))
  within : ∀ index, c.tenantBytes index ≤ plan.storageBudgets index

/-- What an insertion that is stored does: the new entry is written, some of its tenant's entries
go, and the total of what stays is recorded. -/
structure CacheCore.Stores (shard : CacheKey → Fin cacheShardCount) (key : CacheKey)
    (entry : CacheEntry) (now : ℕ) (c c' : CacheCore plan) (index : Fin plan.tenantCount)
    (gone kept : CacheMap) (out : List CacheKey × ℕ) : Prop where
  owner : plan.tenantId index = key.tenantId
  evicts : Evicts (plan.storageBudgets index) now
    (tenantEntries (written shard c.shards key entry) key.tenantId) gone kept out
  shards : c'.shards = swept shard out.1 (written shard c.shards key entry)
  tenantBytes : c'.tenantBytes = Function.update c.tenantBytes index out.2

/-- The bytes of the tenant with the new entry, as the writer projects them. -/
theorem CacheCore.Inv.projected (h : c.Inv shard) {index : Fin plan.tenantCount}
    (howner : plan.tenantId index = key.tenantId) (entry : CacheEntry) :
    bytes (tenantEntries (written shard c.shards key entry) key.tenantId) =
      c.tenantBytes index - ((c.shards (shard key)).get key).elim 0 CacheEntry.cost +
        entry.cost := by
  have hwritten := bytes_written key.tenantId (h.placed.distinct (shard key)) entry
  have hcount := h.counted index
  rw [howner] at hcount
  unfold tenantCost at hwritten
  simp only [if_true] at hwritten
  -- the entry replaced is one of those counted
  have hreplaced : ((c.shards (shard key)).get key).elim 0 CacheEntry.cost ≤
      bytes (tenantEntries c.shards key.tenantId) := by
    cases hget : (c.shards (shard key)).get key with
    | none => exact Nat.zero_le _
    | some old =>
      have hmem := h.placed.get_eq_some_iff.1 hget
      exact List.le_sum_of_mem (List.mem_map_of_mem (f := fun e => e.2.cost) hmem)
  have hsame : (((c.shards (shard key)).get key).elim 0 fun old => old.cost) =
      ((c.shards (shard key)).get key).elim 0 CacheEntry.cost := rfl
  omega

/-- **The two outcomes of an insertion.** -/
theorem CacheCore.Inv.applyInsert_cases (h : c.Inv shard) (now : ℕ)
    (hfits : plan.Fits key.tenantId entry) :
    (¬plan.Accepts key.tenantId entry ∧ (c.applyInsert shard key entry now).shards = c.shards ∧
        (c.applyInsert shard key entry now).tenantBytes = c.tenantBytes) ∨
      plan.Accepts key.tenantId entry ∧ ∃ index gone kept out,
        CacheCore.Stores shard key entry now c (c.applyInsert shard key entry now) index gone kept
          out := by
  unfold CacheCore.applyInsert
  cases hindex : plan.tenantIndex key.tenantId with
  | none =>
    refine Or.inl ⟨?_, rfl, rfl⟩
    rintro ⟨index, hsome, -⟩
    rw [hindex] at hsome
    cases hsome
  | some index =>
    have howner := plan.tenantIndex_eq_some_iff.1 hindex
    have hprojected := h.projected howner entry
    have hwithin := h.within index
    have hsum := hfits index hindex
    simp only
    by_cases hover : maxEntryBytes < entry.body.length ∨ plan.storageBudgets index < entry.cost
    · rw [if_pos hover]
      refine Or.inl ⟨?_, rfl, rfl⟩
      rintro ⟨index', hsome, hbody, hcost⟩
      rw [hindex] at hsome
      cases hsome
      omega
    · rw [if_neg hover]
      have haccepts : plan.Accepts key.tenantId entry := ⟨index, hindex, by omega, by omega⟩
      refine Or.inr ⟨haccepts, index, ?_⟩
      have hbytes : bytes (tenantEntries (written shard c.shards key entry) key.tenantId) ≤
          u64Max := by omega
      have htotal : satAdd (c.tenantBytes index -
            ((c.shards (shard key)).get key).elim 0 CacheEntry.cost) entry.cost =
          bytes (tenantEntries (written shard c.shards key entry) key.tenantId) := by
        unfold satAdd
        omega
      rw [htotal]
      by_cases hfast : bytes (tenantEntries (written shard c.shards key entry) key.tenantId) ≤
          plan.storageBudgets index
      · rw [if_pos hfast]
        exact ⟨[], _, ([], _), howner,
          ⟨List.Perm.refl _, rfl, rfl, hfast, fun e he => by cases he⟩, rfl, rfl⟩
      · rw [if_neg hfast]
        obtain ⟨gone, kept, hevicts⟩ := evictions_spec (plan.storageBudgets index) now hbytes
        exact ⟨gone, kept, _, howner, hevicts, rfl, rfl⟩

section Stored

variable {c' : CacheCore plan} {index : Fin plan.tenantCount} {gone kept : CacheMap}
  {out : List CacheKey × ℕ}

/-- Only the tenant's own keys are swept. -/
theorem CacheCore.Stores.removal_owner
    (h : CacheCore.Stores shard key entry now c c' index gone kept out) {key' : CacheKey}
    (hmem : key' ∈ out.1) : key'.tenantId = key.tenantId := by
  rw [h.evicts.keys] at hmem
  obtain ⟨e, he, rfl⟩ := List.mem_map.1 hmem
  have hcandidate := h.evicts.split.symm.subset (List.mem_append_left _ he)
  exact (mem_tenantEntries.1 hcandidate).2

/-- **The entries of the other tenants are untouched.** -/
theorem CacheCore.Stores.other_entries
    (h : CacheCore.Stores shard key entry now c c' index gone kept out)
    (hplaced : Placed shard c.shards) {tenantId : String} (hne : key.tenantId ≠ tenantId) :
    tenantEntries c'.shards tenantId = tenantEntries c.shards tenantId := by
  rw [h.shards, (hplaced.written key entry).tenantEntries_swept, tenantEntries_written_of_ne hne,
    List.filter_eq_self]
  intro e he
  rw [decide_eq_true_eq]
  intro hmem
  exact hne ((h.removal_owner hmem).symm.trans (mem_tenantEntries.1 he).2)

/-- What is left of the tenant's own entries. -/
theorem CacheCore.Stores.own_entries
    (h : CacheCore.Stores shard key entry now c c' index gone kept out)
    (hplaced : Placed shard c.shards) : (tenantEntries c'.shards key.tenantId).Perm kept := by
  have hwritten := hplaced.written key entry
  rw [h.shards, hwritten.tenantEntries_swept]
  exact h.evicts.perm_kept (hwritten.distinct_tenantEntries _)

/-- **An insertion keeps the totals exact.** -/
theorem CacheCore.Stores.inv (h : CacheCore.Stores shard key entry now c c' index gone kept out)
    (hinv : c.Inv shard) : c'.Inv shard where
  placed := by
    rw [h.shards]
    exact (hinv.placed.written key entry).swept _
  counted j := by
    rw [h.tenantBytes]
    by_cases hj : j = index
    · subst hj
      rw [Function.update_self, h.owner, h.evicts.total]
      exact (bytes_perm (h.own_entries hinv.placed)).symm
    · have hne : key.tenantId ≠ plan.tenantId j := by
        intro heq
        exact hj (plan.tenantId_injective (heq.symm.trans h.owner.symm))
      rw [Function.update_of_ne hj, h.other_entries hinv.placed hne]
      exact hinv.counted j
  within j := by
    rw [h.tenantBytes]
    by_cases hj : j = index
    · subst hj
      rw [Function.update_self]
      exact h.evicts.fits
    · rw [Function.update_of_ne hj]
      exact hinv.within j

end Stored

theorem CacheCore.Inv.applyInsert (h : c.Inv shard) (hfits : plan.Fits key.tenantId entry) :
    (c.applyInsert shard key entry now).Inv shard := by
  rcases h.applyInsert_cases now hfits with ⟨-, hshards, hbytes⟩ | ⟨-, _, _, _, _, hstores⟩
  · refine ⟨?_, ?_, ?_⟩
    · rw [hshards]
      exact h.placed
    · rw [hshards, hbytes]
      exact h.counted
    · rw [hbytes]
      exact h.within
  · exact hstores.inv h

/-! ## Runs -/

/-- The entry of a key. -/
def CacheCore.get (shard : CacheKey → Fin cacheShardCount) (c : CacheCore plan) (key : CacheKey) :
    Option CacheEntry :=
  Assoc.get (c.shards (shard key)) key

/-- The states of a run: insertions at any times, the maps walked in any order. -/
inductive CacheCore.Reached (shard : CacheKey → Fin cacheShardCount) : CacheCore plan → Prop
  | start : Reached shard (withCapacity plan)
  | insert {c : CacheCore plan} (h : Reached shard c) (key : CacheKey) (entry : CacheEntry) (now : ℕ)
      (hfits : plan.Fits key.tenantId entry) : Reached shard (c.applyInsert shard key entry now)
  | walk {c : CacheCore plan} (h : Reached shard c) (shards : Fin cacheShardCount → CacheMap)
      (hperm : ∀ i, (shards i).Perm (c.shards i)) : Reached shard { c with shards := shards }

theorem CacheCore.Reached.inv (h : CacheCore.Reached shard c) : c.Inv shard := by
  induction h with
  | start =>
    refine ⟨⟨fun _ => Assoc.Distinct.nil, fun _ e he => by cases he⟩, fun index => ?_, fun _ => ?_⟩
    · have hnil : tenantEntries (CacheCore.withCapacity plan).shards (plan.tenantId index) = [] := by
        unfold tenantEntries
        rw [List.flatMap_eq_nil_iff]
        exact fun _ _ => rfl
      rw [hnil]
      rfl
    · exact Nat.zero_le _
  | insert _ key entry now hfits ih => exact ih.applyInsert hfits
  | walk _ shards hperm ih =>
    refine ⟨ih.placed.walk hperm, fun index => ?_, ih.within⟩
    have hsame : (tenantEntries shards (plan.tenantId index)).Perm (tenantEntries _ _) :=
      List.Perm.flatMap_left _ fun i _ => (hperm i).filter _
    rw [bytes_perm hsame]
    exact ih.counted index

/-- The entries an insertion has to choose from: those that are there, the new one in the place of
its key. -/
def CacheCore.Offered (shard : CacheKey → Fin cacheShardCount) (c : CacheCore plan) (key : CacheKey)
    (entry : CacheEntry) (key' : CacheKey) (e : CacheEntry) : Prop :=
  if key = key' then plan.Accepts key.tenantId entry ∧ e = entry else c.get shard key' = some e

/-- **An insertion leaves the other tenants alone.** -/
theorem CacheCore.Inv.get_other (h : c.Inv shard) (hfits : plan.Fits key.tenantId entry)
    {key' : CacheKey} (hne : key'.tenantId ≠ key.tenantId) :
    (c.applyInsert shard key entry now).get shard key' = c.get shard key' := by
  unfold CacheCore.get
  rcases h.applyInsert_cases now hfits with ⟨-, hshards, -⟩ | ⟨-, _, _, _, _, hstores⟩
  · rw [hshards]
  · have hkept : key' ∉ _ := fun hmem => hne (hstores.removal_owner hmem)
    have hkey : key ≠ key' := fun heq => hne (heq ▸ rfl)
    rw [hstores.shards, get_swept, if_neg hkept, get_written, if_neg hkey]

theorem CacheCore.Inv.tenantBytes_other (h : c.Inv shard) (hfits : plan.Fits key.tenantId entry)
    {index : Fin plan.tenantCount} (hne : plan.tenantId index ≠ key.tenantId) :
    (c.applyInsert shard key entry now).tenantBytes index = c.tenantBytes index := by
  rcases h.applyInsert_cases now hfits with ⟨-, -, hbytes⟩ | ⟨-, own, _, _, _, hstores⟩
  · rw [hbytes]
  · have hindex : index ≠ own := by
      rintro rfl
      exact hne hstores.owner
    rw [hstores.tenantBytes, Function.update_of_ne hindex]

/-- **Expired entries go first, then the oldest.** -/
theorem CacheCore.Inv.oldest_first (h : c.Inv shard) (hfits : plan.Fits key.tenantId entry)
    {key' : CacheKey} {e : CacheEntry} (hoffered : c.Offered shard key entry key' e)
    (hgone : (c.applyInsert shard key entry now).get shard key' = none)
    (hfresh : e.expired now = false) {key'' : CacheKey} {e'' : CacheEntry}
    (hown : key''.tenantId = key.tenantId)
    (hstays : (c.applyInsert shard key entry now).get shard key'' = some e'') :
    e''.expired now = false ∧ e.insertedAtMs ≤ e''.insertedAtMs := by
  unfold CacheCore.get at hgone hstays
  unfold CacheCore.Offered at hoffered
  rcases h.applyInsert_cases now hfits with
    ⟨hrefused, hshards, -⟩ | ⟨-, index, gone, kept, out, hstores⟩
  · -- nothing was stored, so nothing went
    rw [hshards] at hgone
    split at hoffered
    · exact absurd hoffered.1 hrefused
    · unfold CacheCore.get at hoffered
      rw [hgone] at hoffered
      cases hoffered
  · have hwritten := h.placed.written key entry
    have hheld : (written shard c.shards key entry (shard key')).get key' = some e := by
      rw [get_written]
      split at hoffered
      · rename_i hkey
        rw [if_pos hkey, hoffered.2]
      · rename_i hkey
        rw [if_neg hkey]
        exact hoffered
    rw [hstores.shards, get_swept] at hgone
    have hlisted : key' ∈ out.1 := by
      by_contra hnot
      rw [if_neg hnot, hheld] at hgone
      cases hgone
    -- the entry that went is the one the key had
    have hlisted' := hlisted
    rw [hstores.evicts.keys] at hlisted'
    obtain ⟨x, hx, hxkey⟩ := List.mem_map.1 hlisted'
    have hxmem := hstores.evicts.split.symm.subset (List.mem_append_left _ hx)
    have hxget : (written shard c.shards key entry (shard key')).get key' = some x.2 := by
      rw [hwritten.get_eq_some_iff, hstores.removal_owner hlisted, ← hxkey]
      exact hxmem
    have hsame : x.2 = e := Option.some.inj (hxget.symm.trans hheld)
    have hplaced : Placed shard (c.applyInsert shard key entry now).shards :=
      (h.applyInsert hfits).placed
    rw [hplaced.get_eq_some_iff, hown] at hstays
    have hkept := (hstores.own_entries h.placed).subset hstays
    rw [← hsame] at hfresh ⊢
    exact hstores.evicts.ordered x hx hfresh _ hkept

/-- **Capacity is partitioned and accounted exactly.** In every run each tenant's total is what its
entries cost and within its share, and the shares are within the configured bytes. An insertion
leaves the other tenants' entries and totals as they are, and makes an entry that has not expired
go only when no expired one of the tenant stays, and none that is older. -/
theorem capacity_partitioned (h : CacheCore.Reached shard c) (hfits : plan.Fits key.tenantId entry) :
    (∀ index, c.tenantBytes index = bytes (tenantEntries c.shards (plan.tenantId index)) ∧
        c.tenantBytes index ≤ plan.storageBudgets index) ∧
      ∑ index, plan.storageBudgets index ≤ plan.budgetBytes ∧
      (∀ key', key'.tenantId ≠ key.tenantId →
        (c.applyInsert shard key entry now).get shard key' = c.get shard key') ∧
      (∀ index, plan.tenantId index ≠ key.tenantId →
        (c.applyInsert shard key entry now).tenantBytes index = c.tenantBytes index) ∧
      ∀ key' e, c.Offered shard key entry key' e →
        (c.applyInsert shard key entry now).get shard key' = none → e.expired now = false →
        ∀ key'' e'', key''.tenantId = key.tenantId →
          (c.applyInsert shard key entry now).get shard key'' = some e'' →
          e''.expired now = false ∧ e.insertedAtMs ≤ e''.insertedAtMs := by
  have hinv := h.inv
  refine ⟨fun index => ⟨hinv.counted index, hinv.within index⟩, ?_, ?_⟩
  · exact plan.sum_storageBudgets_le.trans (Nat.sub_le _ _)
  exact ⟨fun _ hne => hinv.get_other hfits hne, fun _ hne => hinv.tenantBytes_other hfits hne,
    fun _ _ hoffered hgone hfresh _ _ hown hstays =>
      hinv.oldest_first hfits hoffered hgone hfresh hown hstays⟩

end Writer

def pairPlan : TenantCapacityPlan where
  budgetBytes := 1600
  tenantIds := ["t1", "t2"]
  bounded := by decide
  sorted := List.Pairwise.sortedLT (by decide)

def note : CacheEntry where
  body := [1, 2, 3]
  model := "gpt-4o"
  promptTokens := 1
  completionTokens := 2
  totalTokens := 3
  insertedAtMs := 0
  ttlMs := 5

/-- The one entry of a tenant, expired, stays when another tenant writes. -/
theorem capacity_partitioned_pair :
    (((CacheCore.withCapacity pairPlan).applyInsert (fun _ => 0) ⟨"t2", "default", [7]⟩ note
        0).applyInsert (fun _ => 0) ⟨"t1", "default", [7]⟩ note 10).get (fun _ => 0)
      ⟨"t2", "default", [7]⟩ = some note := by
  have hfits : ∀ tenantId, pairPlan.Fits tenantId note := by
    have hshares : ∀ index, pairPlan.storageBudgets index + note.cost ≤ u64Max := by decide
    exact fun _ index _ => hshares index
  have hfirst : CacheCore.Reached (fun _ => 0) ((CacheCore.withCapacity pairPlan).applyInsert
      (fun _ => 0) ⟨"t2", "default", [7]⟩ note 0) := .insert .start _ _ _ (hfits _)
  exact ((capacity_partitioned hfirst (hfits _)).2.2.1 _ (by decide)).trans (by decide)

end Routeplane.Cache
