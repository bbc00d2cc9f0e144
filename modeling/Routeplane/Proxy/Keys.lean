import Routeplane.Adapters.Provider
import Routeplane.Auth.Registry
import Routeplane.Lib.Weighted
import Routeplane.Policy.Config
import Routeplane.Router.Health
import Mathlib.Data.List.Enum
import Mathlib.Data.List.Sort

/-!
# Adapters and keys of a request

A provider name resolves to a built-in adapter first and to a custom one second, the
tenant's own before the operator's. A `provider_keys` value with a comma is a pool of
keys, walked in an order that depends on which of them are cooling.

* `orderPoolKeys_perm`: ordering a pool neither adds nor drops a key.
* `targetKeys_isPool`: the keys of a target are all pool keys or all single ones.
* `orderPoolKeys_congr`: the order depends on the health tracker through the pool's own
  cooldowns only.
-/

namespace Routeplane

open SplitMix

/-- A provider registered at runtime, with the key it was registered with. -/
structure CustomProviderEntry where
  apiKey : String
  adapter : Provider
  deriving DecidableEq, Repr, Inhabited

/-- The runtime registry; the owner is a tenant or `globalOwner`. -/
structure CustomProviders where
  byName : List ((String × String) × CustomProviderEntry) := []
  /-- `(owner, model)` to provider name, for requests that name no provider. -/
  modelIndex : List ((String × String) × String) := []
  deriving Inhabited

namespace CustomProviders

variable (c : CustomProviders) (tenant name : String)

/-- The tenant's own entry wins over the operator's. -/
def entryFor : Option CustomProviderEntry :=
  (c.byName.lookup (tenant, name)).or (c.byName.lookup (globalOwner, name))

def adapter : Option Provider := (c.entryFor tenant name).map (·.adapter)

def apiKey : Option String := (c.entryFor tenant name).map (·.apiKey)

def contains : Bool := (c.entryFor tenant name).isSome

def providerForModel (model : String) : Option String :=
  (c.modelIndex.lookup (tenant, model)).or (c.modelIndex.lookup (globalOwner, model))

end CustomProviders

/-- How long a pool key is cooled, by class of failure; read once at startup. -/
structure CooldownWindows where
  rateLimitedMs : ℕ := 20000
  authMs : ℕ := 600000
  transientMs : ℕ := 2000
  deriving DecidableEq, Repr, Inhabited

/-- The gateway's state that does not change while requests run. -/
structure AppState where
  /-- The built-in adapters. -/
  providers : List (String × Provider)
  customProviders : CustomProviders := {}
  /-- `std::env::var`, the empty string when unset. -/
  envVar : String → String := fun _ => ""
  cooldownWindows : CooldownWindows := {}
  deriving Inhabited

def AppState.resolveProvider (st : AppState) (tenant name : String) : Option Provider :=
  (st.providers.lookup name).or (st.customProviders.adapter tenant name)

/-- Is `name` an adapter the tenant may use? -/
def AppState.knows (st : AppState) (tenant name : String) : Bool :=
  (st.providers.lookup name).isSome || st.customProviders.contains tenant name

theorem AppState.knows_eq (st : AppState) (tenant name : String) :
    st.knows tenant name = (st.resolveProvider tenant name).isSome := by
  simp [knows, resolveProvider, CustomProviders.contains, CustomProviders.adapter]

/-- A key with its place in the pool, or none when the value is a single key. -/
abbrev PoolKey := Option ℕ × String

def isKeyPool (value : String) : Bool := value.toList.contains ','

/-- Expand `env:` indirection. -/
def AppState.expandEnv (st : AppState) (value : String) : String :=
  match dropHead? "env:" value with
  | some var => st.envVar var
  | none => value

/-- The keys of a pool with their declared places; blank ones are dropped. -/
def AppState.resolvePool (st : AppState) (value : String) : List (ℕ × String) :=
  (splitText ',' value).zipIdx.filterMap fun (raw, idx) =>
    let resolved := st.expandEnv (trimText raw)
    if resolved.isEmpty then none else some (idx, resolved)

def AppState.resolveApiKey (st : AppState) (k : VirtualKey) (provider : String) :
    Option String :=
  (k.providerKeys.lookup provider).bind fun value =>
    if isKeyPool value then (st.resolvePool value).head?.map Prod.snd
    else
      let apiKey := st.expandEnv value
      if apiKey.isEmpty then none else some apiKey

section Order

variable {α : Type*}

/-- Exchange two positions of a list. -/
def swapAt (l : List α) (i j : ℕ) : List α :=
  match l[i]?, l[j]? with
  | some a, some b => (l.set i b).set j a
  | _, _ => l

/-- Fisher–Yates from position `i` down to position one. -/
def shuffleFrom : ℕ → List α → Rng → List α
  | 0, l, _ => l
  | i + 1, l, rng =>
    let (j, rng) := rng.nextBelow (i + 2)
    shuffleFrom i (swapAt l (i + 1) j) rng

def shuffle (l : List α) (rng : Rng) : List α := shuffleFrom (l.length - 1) l rng

theorem swapAt_perm (l : List α) (i j : ℕ) : (swapAt l i j).Perm l := by
  unfold swapAt
  split
  · rename_i a b hi hj
    obtain ⟨hi', rfl⟩ := List.getElem?_eq_some_iff.1 hi
    obtain ⟨hj', rfl⟩ := List.getElem?_eq_some_iff.1 hj
    exact List.set_set_perm hi' hj'
  · exact .refl l

theorem shuffleFrom_perm (i : ℕ) (l : List α) (rng : Rng) : (shuffleFrom i l rng).Perm l := by
  induction i generalizing l rng with
  | zero => exact .refl l
  | succ i ih =>
    unfold shuffleFrom
    exact (ih _ _).trans (swapAt_perm l _ _)

theorem shuffle_perm (l : List α) (rng : Rng) : (shuffle l rng).Perm l := shuffleFrom_perm _ l rng

end Order

/-- A sort reads its comparison at members of the list only. -/
theorem mergeSort_congr {α : Type*} {le le' : α → α → Bool} {l : List α}
    (h : ∀ a ∈ l, ∀ b ∈ l, le a b = le' a b) : l.mergeSort le = l.mergeSort le' := by
  have hmap := List.map_mergeSort (f := id) (r := le) (s := le') (l := l) h
  simpa using hmap

/-- Order a pool for the walk: the available keys shuffled, then the cooled ones by soonest
recovery. -/
def orderPoolKeys (resolved : List (ℕ × String)) (tenant provider : String) (health : HealthTracker)
    (now : ℕ) (rng : Rng) : List (ℕ × String) :=
  let (available, cooled) :=
    resolved.partition fun k => health.keyAvailable tenant provider k.1 now
  shuffle available rng ++
    cooled.mergeSort fun a b =>
      decide (health.keyCooledUntil tenant provider a.1 ≤ health.keyCooledUntil tenant provider b.1)

/-- A stream of draws of its own for each target. -/
def targetRngSeed (base : BitVec 64) (idx : ℕ) : BitVec 64 :=
  base ^^^ (BitVec.ofNat 64 idx * 0x9E3779B97F4A7C15#64)

section

variable (st : AppState) (k : VirtualKey) (tenant provider : String) (health : HealthTracker)
  (now : ℕ) (seed : BitVec 64)

/-- The keys to try for a provider, in order. -/
def targetKeys : List PoolKey :=
  match (k.providerKeys.lookup provider).filter isKeyPool with
  | some value =>
    (orderPoolKeys (st.resolvePool value) tenant provider health now (Rng.seeded seed)).map
      fun (i, key) => (some i, key)
  | none =>
    match (st.resolveApiKey k provider).or (st.customProviders.apiKey tenant provider) with
    | some key => [(none, key)]
    | none => []

/-- The value of a provider's keys declares a pool. -/
def targetIsPool : Bool := ((k.providerKeys.lookup provider).filter isKeyPool).isSome

end

/-! ## Cooling a key after a failure -/

def keyCooldownMs (w : CooldownWindows) (status retryAfterSecs : Option ℕ) : ℕ :=
  match status with
  | some 429 =>
    match retryAfterSecs with
    | some s => min (s * 1000) (2 ^ 64 - 1)
    | none => w.rateLimitedMs
  | some 401 | some 403 => w.authMs
  | _ => w.transientMs

/-- The window to cool a key for; none when the failure is not the key's fault. -/
def keyCooldownForError (w : CooldownWindows) : ProviderError → Option ℕ
  | .rateLimited _ retryAfterMs _ =>
    some (keyCooldownMs w (some 429) (retryAfterMs.map fun ms => ms / 1000))
  | .auth _ status _ => some (keyCooldownMs w (some status) none)
  | .upstream5xx .. | .timeout .. | .network .. => some (keyCooldownMs w (some 500) none)
  | .badRequest .. | .translation .. => none

section Lemmas

variable {st : AppState} {k : VirtualKey} {tenant provider : String}
  {health health' : HealthTracker} {now : ℕ} {seed : BitVec 64} {resolved : List (ℕ × String)}

/-- **Ordering a pool neither adds nor drops a key.** -/
theorem orderPoolKeys_perm (rng : Rng) :
    (orderPoolKeys resolved tenant provider health now rng).Perm resolved := by
  unfold orderPoolKeys
  simp only [List.partition_eq_filter_filter]
  have hshuffle := shuffle_perm
    (resolved.filter fun k => health.keyAvailable tenant provider k.1 now) rng
  refine (hshuffle.append (List.mergeSort_perm _ _)).trans ?_
  exact List.filter_append_perm _ _

/-- **The order depends on the tracker through the pool's own cooldowns only.** -/
theorem orderPoolKeys_congr (rng : Rng)
    (h : ∀ key ∈ resolved, health.keyCooledUntil tenant provider key.1 =
      health'.keyCooledUntil tenant provider key.1) :
    orderPoolKeys resolved tenant provider health now rng =
      orderPoolKeys resolved tenant provider health' now rng := by
  unfold orderPoolKeys
  have havail : ∀ key ∈ resolved, health.keyAvailable tenant provider key.1 now =
      health'.keyAvailable tenant provider key.1 now := by
    intro key hk
    rw [HealthTracker.keyAvailable, HealthTracker.keyAvailable, h key hk]
  have hpart : resolved.partition (fun k => health.keyAvailable tenant provider k.1 now) =
      resolved.partition (fun k => health'.keyAvailable tenant provider k.1 now) := by
    rw [List.partition_eq_filter_filter, List.partition_eq_filter_filter]
    congr 1
    · exact List.filter_congr havail
    · exact List.filter_congr fun key hk => by simp [havail key hk]
  simp only [hpart]
  congr 1
  -- the comparison reads the cooldowns of keys of the pool only
  have hsub : ∀ key ∈ (resolved.partition
      (fun k => health'.keyAvailable tenant provider k.1 now)).2, key ∈ resolved := by
    intro key hk
    rw [List.partition_eq_filter_filter] at hk
    exact List.mem_of_mem_filter hk
  refine mergeSort_congr fun a ha b hb => ?_
  rw [h a (hsub a ha), h b (hsub b hb)]

/-- Which keys a target has does not depend on the health state. -/
theorem targetKeys_perm :
    (targetKeys st k tenant provider health now seed).Perm
      (targetKeys st k tenant provider health' now seed) := by
  unfold targetKeys
  split
  · exact ((orderPoolKeys_perm _).trans (orderPoolKeys_perm _).symm).map _
  · exact .refl _

/-- **Their order depends on the cooldowns of these keys only.** -/
theorem targetKeys_congr
    (h : ∀ key ∈ targetKeys st k tenant provider health now seed, ∀ i, key.1 = some i →
      health'.keyCooledUntil tenant provider i = health.keyCooledUntil tenant provider i) :
    targetKeys st k tenant provider health' now seed =
      targetKeys st k tenant provider health now seed := by
  unfold targetKeys at h ⊢
  split at h
  · rename_i value hv
    simp only
    congr 1
    refine orderPoolKeys_congr _ fun key hk => ?_
    have hmem : key ∈ orderPoolKeys (st.resolvePool value) tenant provider health now
        (Rng.seeded seed) := (orderPoolKeys_perm _).symm.subset hk
    exact h (some key.1, key.2) (List.mem_map.2 ⟨key, hmem, rfl⟩) key.1 rfl
  · simp only

/-- **The keys of a target are all pool keys or all single ones.** -/
theorem targetKeys_isPool {key : PoolKey}
    (hk : key ∈ targetKeys st k tenant provider health now seed) :
    key.1.isSome = targetIsPool k provider := by
  unfold targetKeys at hk
  unfold targetIsPool
  split at hk
  · rename_i value hv
    obtain ⟨⟨i, s⟩, -, rfl⟩ := List.mem_map.1 hk
    rw [hv]
    rfl
  · rename_i hv
    rw [hv]
    split at hk
    · obtain rfl := List.mem_singleton.1 hk
      rfl
    · simp at hk

/-- The declared places of a pool's keys are distinct. -/
theorem resolvePool_nodup (value : String) : ((st.resolvePool value).map Prod.fst).Nodup := by
  have hidx : ((splitText ',' value).zipIdx.map Prod.snd).Nodup := by
    rw [List.zipIdx_map_snd]
    exact List.nodup_range'
  refine List.Nodup.sublist ?_ hidx
  unfold AppState.resolvePool
  -- an element keeps its place or is dropped
  generalize (splitText ',' value).zipIdx = elems
  induction elems with
  | nil => exact List.Sublist.refl _
  | cons e elems ih =>
    obtain ⟨raw, idx⟩ := e
    rw [List.filterMap_cons]
    simp only
    split
    · exact ih.cons _
    · rename_i key hkey
      split at hkey
      · simp at hkey
      · obtain rfl := Option.some.inj hkey
        exact ih.cons_cons _

/-- **No key is tried twice for one target.** -/
theorem targetKeys_nodup : (targetKeys st k tenant provider health now seed).Nodup := by
  unfold targetKeys
  split
  · refine List.Nodup.map ?_ ((orderPoolKeys_perm _).nodup_iff.2 (.of_map _ (resolvePool_nodup _)))
    rintro ⟨i, _⟩ ⟨j, _⟩ h
    simp only [Prod.mk.injEq, Option.some.injEq] at h
    rw [h.1, h.2]
  · split <;> simp

end Lemmas

/-- Distinct keys, all of a pool or all single ones. -/
structure KeyList where
  keys : List PoolKey
  nodup : keys.Nodup
  uniform : ∀ a ∈ keys, ∀ b ∈ keys, a.1.isSome = b.1.isSome

theorem KeyList.ext {a b : KeyList} (h : a.keys = b.keys) : a = b := by
  cases a
  cases b
  simp only at h
  subst h
  rfl

/-- The keys of a target are such a list. -/
def targetKeyList (st : AppState) (k : VirtualKey) (tenant provider : String)
    (health : HealthTracker) (now : ℕ) (seed : BitVec 64) : KeyList where
  keys := targetKeys st k tenant provider health now seed
  nodup := targetKeys_nodup
  uniform _ ha _ hb := (targetKeys_isPool ha).trans (targetKeys_isPool hb).symm

end Routeplane
