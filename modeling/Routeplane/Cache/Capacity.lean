import Routeplane.Lib.Assoc
import Routeplane.Limits.Window
import Routeplane.Cache.Key
import Mathlib.Algebra.BigOperators.Fin
import Mathlib.Data.Finset.Sort
import Mathlib.Data.String.Basic

/-!
# The exact cache and its capacity

The bytes of the cache are split once between the registered tenants. The store has 64 shards; its
one writer keeps each tenant within its own share, at the cost of that tenant's entries only.

* `TenantCapacityPlan`: the shares.
* `evictions`: which entries of a tenant have to go.
* `CacheCore.applyInsert`: the writer's insertion.
-/

namespace Routeplane.Cache

open Limits (satAdd u64Max)

/-- `MAX_ENTRY_BYTES`. -/
def maxEntryBytes : ℕ := 256 * 1024

/-- `KEY_OVERHEAD_BYTES`. -/
def keyOverheadBytes : ℕ := 160

/-- `MAX_WRITE_RETENTION_BYTES`. -/
def maxWriteRetentionBytes : ℕ := 16 * 1024 * 1024

/-- `SHARD_COUNT`. -/
abbrev cacheShardCount : ℕ := 64

structure CacheEntry where
  body : List UInt8
  model : String
  promptTokens : UInt32
  completionTokens : UInt32
  totalTokens : UInt32
  insertedAtMs : ℕ
  ttlMs : ℕ
  deriving DecidableEq, Repr

def CacheEntry.cost (entry : CacheEntry) : ℕ :=
  entry.body.length + (utf8 entry.model).length + keyOverheadBytes

def CacheEntry.expired (entry : CacheEntry) (now : ℕ) : Bool :=
  decide (satAdd entry.insertedAtMs entry.ttlMs ≤ now)

/-! ## The plan -/

/-- Equal parts, the first ones greater by one. -/
def partition (total count : ℕ) (index : Fin count) : ℕ :=
  total / count + if index < total % count then 1 else 0

/-- The configured bytes, a 64-bit number, and the tenants in order, each once. -/
structure TenantCapacityPlan where
  budgetBytes : ℕ
  tenantIds : List String
  bounded : budgetBytes ≤ u64Max
  sorted : tenantIds.SortedLT

/-- `sort` and `dedup`. -/
def sortedIds (tenantIds : List String) : List String := tenantIds.toFinset.sort

theorem sortedLT_sortedIds (tenantIds : List String) : (sortedIds tenantIds).SortedLT :=
  Finset.sortedLT_sort _

namespace TenantCapacityPlan

/-- `TenantCapacityPlan::new`. -/
def new (budgetBytes : ℕ) (bounded : budgetBytes ≤ u64Max) (tenantIds : List String) :
    TenantCapacityPlan where
  budgetBytes := budgetBytes
  tenantIds := sortedIds tenantIds
  bounded := bounded
  sorted := sortedLT_sortedIds tenantIds

variable (plan : TenantCapacityPlan)

abbrev tenantCount : ℕ := plan.tenantIds.length

def tenantIndex (tenantId : String) : Option (Fin plan.tenantCount) :=
  plan.tenantIds.finIdxOf? tenantId

def writerBudgetBytes : ℕ := min (plan.budgetBytes / 2) maxWriteRetentionBytes

def storageBudgetBytes : ℕ := plan.budgetBytes - plan.writerBudgetBytes

def storageBudgets : Fin plan.tenantCount → ℕ := partition plan.storageBudgetBytes plan.tenantCount

def writerBudgets : Fin plan.tenantCount → ℕ := partition plan.writerBudgetBytes plan.tenantCount

def effectivePayloadBudgetBytes (index : Fin plan.tenantCount) : ℕ :=
  min (plan.storageBudgets index) (plan.writerBudgets index) - keyOverheadBytes

def maxResponseBytesForTenant (tenantId : String) (modelLen : ℕ) : ℕ :=
  match plan.tenantIndex tenantId with
  | none => 0
  | some index => min (plan.effectivePayloadBudgetBytes index - modelLen) maxEntryBytes

end TenantCapacityPlan

/-! ## The writer -/

/-- The entries of a shard, in the order its map is walked. -/
abbrev CacheMap := Assoc CacheKey CacheEntry

/-- The entries of a tenant in all shards. -/
def tenantEntries (shards : Fin cacheShardCount → CacheMap) (tenantId : String) : CacheMap :=
  (List.finRange cacheShardCount).flatMap fun i =>
    (shards i).filter fun e => e.1.tenantId = tenantId

/-- The loop over the entries by age: which go, and the bytes that are left. -/
def evictByAge (budget : ℕ) : CacheMap → ℕ → List CacheKey × ℕ
  | [], total => ([], total)
  | e :: rest, total =>
    if total ≤ budget then ([], total)
    else
      let later := evictByAge budget rest (total - e.2.cost)
      (e.1 :: later.1, later.2)

/-- Which of a tenant's entries go: the expired ones, then the oldest until the rest fits. -/
def evictions (budget now : ℕ) (candidates : CacheMap) : List CacheKey × ℕ :=
  let total := candidates.foldl (fun total e => satAdd total e.2.cost) 0
  if total ≤ budget then ([], total)
  else
    let expired := candidates.filter fun e => e.2.expired now
    let total := expired.foldl (fun total e => total - e.2.cost) total
    if total ≤ budget then (expired.map (·.1), total)
    else
      let byAge := (candidates.filter fun e => !e.2.expired now).mergeSort fun a b =>
        decide (a.2.insertedAtMs ≤ b.2.insertedAtMs)
      let oldest := evictByAge budget byAge total
      (expired.map (·.1) ++ oldest.1, oldest.2)

/-- The store: its shards, each tenant's bytes as the writer counts them, and what it refused. -/
@[ext] structure CacheCore (plan : TenantCapacityPlan) where
  shards : Fin cacheShardCount → CacheMap
  tenantBytes : Fin plan.tenantCount → ℕ
  oversizeDrops : ℕ
  writeDrops : ℕ

namespace CacheCore

variable {plan : TenantCapacityPlan}

/-- `CacheCore::with_capacity`. -/
def withCapacity (plan : TenantCapacityPlan) : CacheCore plan where
  shards _ := []
  tenantBytes _ := 0
  oversizeDrops := 0
  writeDrops := 0

/-- The keys of a list that are in a shard. -/
def removalsOf (shard : CacheKey → Fin cacheShardCount) (removals : List CacheKey)
    (i : Fin cacheShardCount) : List CacheKey :=
  removals.filter fun key => shard key = i

/-- Clone, insert, evict, publish. `shard` is the top bits of a key's digest. -/
def applyInsert (shard : CacheKey → Fin cacheShardCount) (key : CacheKey) (entry : CacheEntry)
    (now : ℕ) (c : CacheCore plan) : CacheCore plan :=
  match plan.tenantIndex key.tenantId with
  | none => { c with writeDrops := c.writeDrops + 1 }
  | some index =>
    let tenantBudget := plan.storageBudgets index
    if maxEntryBytes < entry.body.length ∨ tenantBudget < entry.cost then
      { c with oversizeDrops := c.oversizeDrops + 1 }
    else
      let current := c.shards (shard key)
      let replacedCost := (current.get key).elim 0 CacheEntry.cost
      let shards := Function.update c.shards (shard key) (current.insert key entry)
      let projectedTotal := satAdd (c.tenantBytes index - replacedCost) entry.cost
      if projectedTotal ≤ tenantBudget then
        { c with
          shards := shards
          tenantBytes := Function.update c.tenantBytes index projectedTotal }
      else
        let evicted := evictions tenantBudget now (tenantEntries shards key.tenantId)
        { c with
          shards := fun i => (removalsOf shard evicted.1 i).foldl Assoc.remove (shards i)
          tenantBytes := Function.update c.tenantBytes index evicted.2 }

end CacheCore

end Routeplane.Cache
