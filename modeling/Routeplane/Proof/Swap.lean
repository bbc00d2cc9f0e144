import Routeplane.Limits.Live
import Mathlib.Data.List.Perm.Basic

/-!
# Counters over a swap

Every counter belongs to one scope for good: a swap makes new counters at fresh addresses and gives
a scope its previous ones back when its policy is the same.

* `Inv.apply`: each event keeps the table of which scope owns which counters.
* `keeps_iff_aligned`: when a swap keeps the counters of every unchanged scope.
* `swap_keeps_counters`: the three promises of a swap, and the limit that holds across swaps.
-/

namespace Routeplane.Limits

/-- Which scope owns the counters at an address, and the slot they were made for. -/
abbrev Owners := ℕ → Option (ScopeId × ScopeSlot)

/-- The limit of a slot is one its counter can reach. -/
def ScopeSlot.Compiled (s : ScopeSlot) : Prop := ∀ l ∈ s.policy.requestsPerMin, l ≤ countMask

/-- The table knows every counter there is, and none is used past the end of the heap. -/
structure Owners.Cover (own : Owners) (h : Heap) : Prop where
  fresh : ∀ k a, h.next ≤ a → h.cells k a = {}
  below : ∀ a, h.next ≤ a → own a = none
  compiled : ∀ a id s, own a = some (id, s) → s.Compiled

/-- Counters are only added, and only fresh ones. -/
structure Owners.Grows (own : Owners) (h : Heap) (own' : Owners) (h' : Heap) : Prop where
  cover : own'.Cover h'
  old : ∀ a, a < h.next → own' a = own a
  cells : h'.cells = h.cells
  next_le : h.next ≤ h'.next

section Build

variable {own own' own'' : Owners} {h h' h'' : Heap} {id : ScopeId} {s : ScopeSlot} {a : ℕ}

theorem Owners.Grows.refl (hc : own.Cover h) : own.Grows h own h :=
  ⟨hc, fun _ _ => rfl, rfl, le_refl _⟩

theorem Owners.Grows.trans (hg : own.Grows h own' h') (hg' : own'.Grows h' own'' h'') :
    own.Grows h own'' h'' where
  cover := hg'.cover
  old a ha := (hg'.old a (lt_of_lt_of_le ha hg.next_le)).trans (hg.old a ha)
  cells := hg'.cells.trans hg.cells
  next_le := hg.next_le.trans hg'.next_le

theorem Owners.Cover.lt (hc : own.Cover h) (hs : own a = some (id, s)) : a < h.next := by
  by_contra hge
  rw [hc.below a (Nat.le_of_not_lt hge)] at hs
  cases hs

/-- What is owned stays owned by the same. -/
theorem Owners.Grows.owned (hc : own.Cover h) (hg : own.Grows h own' h')
    (hs : own a = some (id, s)) : own' a = some (id, s) := by
  rw [hg.old a (hc.lt hs)]
  exact hs

/-- A new slot is at the end of the heap, or the policy limits nothing. -/
theorem newSlot_grows (hc : own.Cover h) (id : ScopeId) (k : LimitScope) (policy : LimitPolicy)
    (fallback : String) (maxReplicas : ℕ) :
    newSlot k policy fallback maxReplicas h = (none, h) ∨
      ∃ sc h' own', newSlot k policy fallback maxReplicas h = (some sc, h') ∧
        own.Grows h own' h' ∧ own' sc.1.addr = some (id, sc.1) ∧ h.next ≤ sc.1.addr := by
  unfold newSlot
  split
  · exact Or.inl rfl
  · rename_i p hp
    right
    have hfresh : h.cells p.scope h.next = {} := hc.fresh _ _ (le_refl _)
    have hset : h.set ⟨p, h.next⟩ {} = h := by
      have hget : h.get ⟨p, h.next⟩ = {} := hfresh
      rw [← hget]
      exact h.set_get
    refine ⟨_, _, Function.update own h.next (some (id, ⟨p, h.next⟩)), rfl, ⟨⟨?_, ?_, ?_⟩, ?_, ?_, ?_⟩,
      Function.update_self _ _ _, le_refl _⟩
    · intro k a ha
      rw [hset]
      exact hc.fresh k a (Nat.le_of_succ_le ha)
    · intro a ha
      rw [Function.update_of_ne (by simp only at ha; omega)]
      exact hc.below a (Nat.le_of_succ_le ha)
    · intro a id' s hs
      by_cases heq : a = h.next
      · subst heq
        rw [Function.update_self] at hs
        obtain ⟨-, rfl⟩ := Prod.mk.inj (Option.some.inj hs)
        exact ScopePolicy.fromPolicy_compiled hp
      · rw [Function.update_of_ne heq] at hs
        exact hc.compiled a id' s hs
    · intro a ha
      exact Function.update_of_ne (Nat.ne_of_lt ha) _ _
    · rw [hset]
    · exact Nat.le_succ _

/-- Every slot of a snapshot is owned by its scope, and not older than `lo`. -/
def Owners.Names (own : Owners) (lo : ℕ) (snap : RegistrySnapshot) : Prop :=
  ∀ id, ∀ s ∈ snap.rows id, own s.addr = some (id, s) ∧ lo ≤ s.addr

variable {lo : ℕ} {snap : RegistrySnapshot}

theorem Owners.Names.grow (hn : own.Names lo snap) (hc : own.Cover h)
    (hg : own.Grows h own' h') : own'.Names lo snap := fun id s hs =>
  ⟨hg.owned hc (hn id s hs).1, (hn id s hs).2⟩

/-- The snapshot of a step of the build is named by a grown table. -/
def Builds (own : Owners) (lo : ℕ) (h : Heap) (x : RegistrySnapshot × Heap) : Prop :=
  ∃ own', own.Grows h own' x.2 ∧ own'.Names lo x.1

theorem Builds.same (hc : own.Cover h) (hn : own.Names lo snap) : Builds own lo h (snap, h) :=
  ⟨own, .refl hc, hn⟩

variable (maxReplicas : ℕ) (e : KeyLimitsInput)

theorem addKey_builds (hc : own.Cover h) (hn : own.Names lo snap) (hlo : lo ≤ h.next) :
    Builds own lo h (snap.addKey maxReplicas e h) := by
  unfold RegistrySnapshot.addKey
  cases e.limits.key with
  | none => exact .same hc hn
  | some p =>
    rcases newSlot_grows hc (.key e.routeplaneKey) .key p ("key:" ++ e.routeplaneKey) maxReplicas with
      heq | ⟨sc, h', own', heq, hg, hown, hle⟩
    · simp only [heq]
      exact .same hc hn
    · simp only [heq]
      refine ⟨own', hg, fun id s hs => ?_⟩
      by_cases hid : id = .key e.routeplaneKey
      · subst hid
        simp only [RegistrySnapshot.rows, Function.update_self, Option.toList_some, List.map_cons,
          List.map_nil, List.mem_singleton] at hs
        subst hs
        exact ⟨hown, hlo.trans hle⟩
      · refine hn.grow hc hg id s ?_
        cases id with
        | key k =>
          have hk : k ≠ e.routeplaneKey := fun heq => hid (congrArg ScopeId.key heq)
          simpa only [RegistrySnapshot.rows, Function.update_of_ne hk] using hs
        | tenant t => exact hs
        | model k pattern => exact hs

theorem addTenant_builds (hc : own.Cover h) (hn : own.Names lo snap) (hlo : lo ≤ h.next) :
    Builds own lo h (snap.addTenant maxReplicas e h) := by
  unfold RegistrySnapshot.addTenant
  cases e.limits.tenant with
  | none => exact .same hc hn
  | some p =>
    simp only
    split
    · exact .same hc hn
    · rcases newSlot_grows hc (.tenant e.tenantId) .tenant p ("tenant:" ++ e.tenantId) maxReplicas with
        heq | ⟨sc, h', own', heq, hg, hown, hle⟩
      · simp only [heq]
        exact .same hc hn
      · simp only [heq]
        refine ⟨own', hg, fun id s hs => ?_⟩
        by_cases hid : id = .tenant e.tenantId
        · subst hid
          simp only [RegistrySnapshot.rows, Function.update_self, Option.toList_some,
            List.map_cons, List.map_nil, List.mem_singleton] at hs
          subst hs
          exact ⟨hown, hlo.trans hle⟩
        · refine hn.grow hc hg id s ?_
          cases id with
          | key k => exact hs
          | tenant t =>
            have ht : t ≠ e.tenantId := fun heq => hid (congrArg ScopeId.tenant heq)
            simpa only [RegistrySnapshot.rows, Function.update_of_ne ht] using hs
          | model k pattern => exact hs

/-- The rows of a key, by induction on its patterns. -/
theorem modelRows_grows (hc : own.Cover h) (k : String) (patterns : List (String × LimitPolicy)) :
    ∃ own', own.Grows h own' (modelRows k maxReplicas patterns h).2 ∧
      ∀ row ∈ (modelRows k maxReplicas patterns h).1,
        own' row.2.1.addr = some (.model k row.1, row.2.1) ∧ h.next ≤ row.2.1.addr := by
  induction patterns generalizing own h with
  | nil => exact ⟨own, .refl hc, fun row hrow => absurd hrow List.not_mem_nil⟩
  | cons entry rest ih =>
    obtain ⟨pattern, policy⟩ := entry
    simp only [modelRows]
    split
    · exact ih hc
    · rcases newSlot_grows hc (.model k (trimText pattern)) .model policy
        ("model:" ++ k ++ ":" ++ trimText pattern) maxReplicas with
        heq | ⟨sc, h', own', heq, hg, hown, hle⟩
      · simp only [heq]
        exact ih hc
      · obtain ⟨own'', hg', hrows⟩ := ih hg.cover
        simp only [heq]
        refine ⟨own'', hg.trans hg', fun row hrow => ?_⟩
        rcases List.mem_cons.1 hrow with rfl | hrow
        · exact ⟨hg'.owned hg.cover hown, hle⟩
        · obtain ⟨howned, hnext⟩ := hrows row hrow
          exact ⟨howned, hg.next_le.trans hnext⟩

theorem addModels_builds (hc : own.Cover h) (hn : own.Names lo snap) (hlo : lo ≤ h.next) :
    Builds own lo h (snap.addModels maxReplicas e h) := by
  unfold RegistrySnapshot.addModels
  split
  · exact .same hc hn
  · obtain ⟨own', hg, hrows⟩ :=
      modelRows_grows maxReplicas hc e.routeplaneKey e.limits.modelLimits
    generalize modelRows e.routeplaneKey maxReplicas e.limits.modelLimits h = built at hg hrows
    obtain ⟨rows, h'⟩ := built
    cases rows with
    | nil => exact ⟨own', hg, hn.grow hc hg⟩
    | cons first rest =>
      refine ⟨own', hg, fun id s hs => ?_⟩
      by_cases hid : ∃ pattern, id = .model e.routeplaneKey pattern
      · obtain ⟨pattern, rfl⟩ := hid
        simp only [RegistrySnapshot.rows, Function.update_self, Option.getD_some,
          List.mem_filterMap, List.mem_insertionSort] at hs
        obtain ⟨row, hrow, hpat⟩ := hs
        obtain ⟨howned, hnext⟩ := hrows row hrow
        split at hpat
        · rename_i heq
          obtain rfl := Option.some.inj hpat
          subst heq
          exact ⟨howned, hlo.trans hnext⟩
        · cases hpat
      · refine hn.grow hc hg id s ?_
        cases id with
        | key k => exact hs
        | tenant t => exact hs
        | model k pattern =>
          have hk : k ≠ e.routeplaneKey := fun heq => hid ⟨pattern, heq ▸ rfl⟩
          simpa only [RegistrySnapshot.rows, Function.update_of_ne hk] using hs

variable {maxReplicas e}

/-- A further step of the build. -/
theorem Builds.then {x y : RegistrySnapshot × Heap} (hx : Builds own lo h x) (hlo : lo ≤ h.next)
    (hy : ∀ own', own'.Cover x.2 → own'.Names lo x.1 → lo ≤ x.2.next → Builds own' lo x.2 y) :
    Builds own lo h y := by
  obtain ⟨own', hg, hn⟩ := hx
  obtain ⟨own'', hg', hn'⟩ := hy own' hg.cover hn (hlo.trans hg.next_le)
  exact ⟨own'', hg.trans hg', hn'⟩

theorem addEntry_builds {x : RegistrySnapshot × Heap} (hc : own.Cover x.2)
    (hn : own.Names lo x.1) (hlo : lo ≤ x.2.next) :
    Builds own lo x.2 (RegistrySnapshot.addEntry maxReplicas e x) := by
  unfold RegistrySnapshot.addEntry
  split
  · exact .same hc hn
  · have hkey := addKey_builds maxReplicas e hc hn hlo
    have htenant := hkey.then hlo fun own' hc' hn' hlo' =>
      addTenant_builds maxReplicas e hc' hn' hlo'
    exact htenant.then hlo fun own' hc' hn' hlo' => addModels_builds maxReplicas e hc' hn' hlo'

/-- **A build makes new counters for every slot**, entry by entry. -/
theorem build_grows (hc : own.Cover h) (entries : List KeyLimitsInput) (maxReplicas : ℕ) :
    ∃ own', own.Grows h own' (LimitRegistry.buildWithReplicas entries maxReplicas h).2 ∧
      own'.Names h.next (LimitRegistry.buildWithReplicas entries maxReplicas h).1.inner := by
  have hfold : ∀ (entries : List KeyLimitsInput) (x : RegistrySnapshot × Heap),
      Builds own h.next h x →
      Builds own h.next h (entries.foldl (fun acc e => RegistrySnapshot.addEntry maxReplicas e acc)
        x) := by
    intro entries
    induction entries with
    | nil => exact fun x hx => hx
    | cons e entries ih =>
      intro x hx
      exact ih _ (hx.then (le_refl _) fun own' hc' hn' hlo' => addEntry_builds hc' hn' hlo')
  have hempty : own.Names h.next {} := by
    intro id s hs
    cases id <;> simp [RegistrySnapshot.rows] at hs
  exact hfold entries ({}, h) (.same hc hempty)

end Build

/-! ## What a swap gives a scope -/

/-- The slot of a scope after a swap: the first previous one, if its policy is the same. -/
def keepFirst (first : Option ScopeSlot) (s : ScopeSlot) : ScopeSlot :=
  match first with
  | some f => if s.policy.samePolicy f.policy then f else s
  | none => s

theorem preserveSlot_val {k : LimitScope} (sc prev : Scoped k) :
    (preserveSlot sc prev).1 = keepFirst (some prev.1) sc.1 := by
  unfold preserveSlot keepFirst
  simp only
  split <;> rfl

/-- The first slot of a pattern. -/
theorem head_rows (rows : ModelCounterList) (pattern : String) :
    (rows.filterMap fun row => if row.1 = pattern then some row.2.1 else none).head? =
      (rows.find? fun r => r.1 == pattern).map (·.2.1) := by
  induction rows with
  | nil => rfl
  | cons row rows ih =>
    by_cases hp : row.1 = pattern
    · simp [hp]
    · have hb : (row.1 == pattern) = false := beq_eq_false_iff_ne.2 hp
      rw [List.filterMap_cons_none (by simp [hp]), ih, List.find?_cons_of_neg (by simp [hb])]

theorem preserveRow_pattern (prevRows : ModelCounterList) (row : String × Scoped .model) :
    (preserveRow prevRows row).1 = row.1 := by
  unfold preserveRow
  split <;> rfl

theorem preserveRow_val (prevRows : ModelCounterList) (row : String × Scoped .model) :
    (preserveRow prevRows row).2.1 =
      keepFirst ((prevRows.find? fun r => r.1 == row.1).map (·.2.1)) row.2.1 := by
  unfold preserveRow
  cases prevRows.find? fun r => r.1 == row.1 with
  | none => rfl
  | some prev => exact preserveSlot_val row.2 prev.2

/-- **The swap, scope by scope.** -/
theorem rows_preserve (next prev : RegistrySnapshot) (id : ScopeId) :
    (LimitRegistry.preserve next prev).rows id =
      (next.rows id).map (keepFirst (prev.rows id).head?) := by
  cases id with
  | key k =>
    simp only [RegistrySnapshot.rows, LimitRegistry.preserve]
    cases next.keyCounters k with
    | none => rfl
    | some sc =>
      cases prev.keyCounters k with
      | none => rfl
      | some prevSc => simp [preserveSlot_val]
  | tenant t =>
    simp only [RegistrySnapshot.rows, LimitRegistry.preserve]
    cases next.tenantCounters t with
    | none => rfl
    | some sc =>
      cases prev.tenantCounters t with
      | none => rfl
      | some prevSc => simp [preserveSlot_val]
  | model k pattern =>
    simp only [RegistrySnapshot.rows, LimitRegistry.preserve]
    cases next.modelCounters k with
    | none => rfl
    | some rows =>
      cases prev.modelCounters k with
      | none =>
        simp only [Option.map_some, Option.getD_some, Option.getD_none, List.filterMap_nil,
          List.head?_nil]
        exact (List.map_id _).symm
      | some prevRows =>
        simp only [Option.map_some, Option.getD_some, head_rows, List.filterMap_map,
          List.map_filterMap]
        refine List.filterMap_congr fun row _ => ?_
        simp only [Function.comp_apply, preserveRow_pattern]
        by_cases hp : row.1 = pattern
        · rw [if_pos hp, if_pos hp, ← hp, preserveRow_val]
          rfl
        · rw [if_neg hp, if_neg hp]
          rfl

namespace Live

/-- The slots a configuration compiles to beside those in service. -/
def built (σ : Live) (entries : List KeyLimitsInput) : RegistrySnapshot :=
  (LimitRegistry.buildWithReplicas entries σ.registry.maxReplicas σ.heap).1.inner

/-- Every unchanged scope is counted by the same counters after the swap, which it leaves as they
were. -/
def Keeps (σ : Live) (entries : List KeyLimitsInput) : Prop :=
  ∀ id policy p s, σ.slotFor id policy = some p → (σ.swap entries).slotFor id policy = some s →
    s = p ∧ (σ.swap entries).heap.get s = σ.heap.get p

/-- A policy that a scope has before and after is the policy of the scope's first slot before. -/
def Aligned (σ : Live) (entries : List KeyLimitsInput) : Prop :=
  ∀ id, ∀ b ∈ (σ.built entries).rows id, ∀ p ∈ σ.rows id, b.policy.samePolicy p.policy →
    ∀ f ∈ (σ.rows id).head?, b.policy.samePolicy f.policy

/-- The table covers the heap and names every slot in the registry or held by a request. -/
structure Inv (own : Owners) (σ : Live) : Prop where
  cover : own.Cover σ.heap
  names : own.Names 0 σ.registry.inner
  held : ∀ s ∈ σ.held, ∃ id, own s.addr = some (id, s)

section Swap

variable {own : Owners} {σ : Live} {id : ScopeId} {policy : ScopePolicy} {p s t : ScopeSlot}
  {entries : List KeyLimitsInput}

theorem swap_rows (σ : Live) (entries : List KeyLimitsInput) (id : ScopeId) :
    (σ.swap entries).rows id =
      ((σ.built entries).rows id).map (keepFirst (σ.rows id).head?) :=
  rows_preserve _ _ id

/-- The table a swap grows. -/
theorem Inv.build (hi : Inv own σ) (entries : List KeyLimitsInput) :
    ∃ own', own.Grows σ.heap own' (σ.swap entries).heap ∧
      own'.Names σ.heap.next (σ.built entries) :=
  build_grows hi.cover entries σ.registry.maxReplicas

theorem Inv.lt (hi : Inv own σ) (hs : s ∈ σ.rows id) : s.addr < σ.heap.next :=
  hi.cover.lt (hi.names id s hs).1

/-- A swap counts nothing. -/
theorem Inv.swap_get (hi : Inv own σ) (entries : List KeyLimitsInput) (s : ScopeSlot) :
    (σ.swap entries).heap.get s = σ.heap.get s := by
  obtain ⟨own', hg, -⟩ := hi.build entries
  unfold Heap.get
  rw [hg.cells]

theorem find_policy (h : σ.slotFor id policy = some p) :
    p ∈ σ.rows id ∧ p.policy.samePolicy policy = true := by
  have hpol := List.find?_some (p := fun s : ScopeSlot => s.policy.samePolicy policy) h
  exact ⟨List.mem_of_find?_eq_some h, hpol⟩

/-- A slot after the swap is the first one before, or newly built. -/
theorem Inv.swap_slot (hi : Inv own σ) (hs : s ∈ (σ.swap entries).rows id) :
    s ∈ (σ.rows id).head? ∨ s ∈ (σ.built entries).rows id ∧ σ.heap.next ≤ s.addr ∧
      ∀ f ∈ (σ.rows id).head?, ¬s.policy.samePolicy f.policy = true := by
  obtain ⟨own', -, hn⟩ := hi.build entries
  rw [swap_rows, List.mem_map] at hs
  obtain ⟨b, hb, rfl⟩ := hs
  unfold keepFirst
  cases hf : (σ.rows id).head? with
  | none => exact Or.inr ⟨hb, (hn id b hb).2, fun f hf => by cases hf⟩
  | some f =>
    simp only
    by_cases hsame : b.policy.samePolicy f.policy = true
    · rw [if_pos hsame]
      exact Or.inl rfl
    · rw [if_neg hsame]
      refine Or.inr ⟨hb, (hn id b hb).2, fun f' hf' => ?_⟩
      obtain rfl := Option.some.inj hf'
      exact hsame

/-- **Which swaps keep the counters of every unchanged scope.** -/
theorem Inv.keeps_iff_aligned (hi : Inv own σ) (entries : List KeyLimitsInput) :
    σ.Keeps entries ↔ σ.Aligned entries := by
  constructor
  · intro hk id b hb p hp hsame f hf
    by_contra hne
    -- the built slot stays; the previous one of its policy has other counters
    have hbefore : ∃ p', σ.slotFor id b.policy = some p' := by
      refine Option.isSome_iff_exists.1 (List.find?_isSome.2 ⟨p, hp, ?_⟩)
      exact ScopePolicy.samePolicy_symm hsame
    have hafter : ∃ s', (σ.swap entries).slotFor id b.policy = some s' := by
      have hstays : keepFirst (σ.rows id).head? b = b := by
        unfold keepFirst
        rw [Option.mem_def.1 hf]
        exact if_neg hne
      have hmem : b ∈ (σ.swap entries).rows id := by
        rw [swap_rows, List.mem_map]
        exact ⟨b, hb, hstays⟩
      exact Option.isSome_iff_exists.1
        (List.find?_isSome.2 ⟨b, hmem, ScopePolicy.samePolicy_refl _⟩)
    obtain ⟨p', hp'⟩ := hbefore
    obtain ⟨s', hs'⟩ := hafter
    obtain ⟨hmem', hpol'⟩ := find_policy hs'
    obtain ⟨hpmem, -⟩ := find_policy hp'
    have heq := (hk id b.policy p' s' hp' hs').1
    have hlt := hi.lt hpmem
    rcases hi.swap_slot hmem' with hfirst | ⟨-, hnew, -⟩
    · rw [Option.mem_def.1 hf] at hfirst
      obtain rfl := Option.some.inj hfirst
      exact hne (ScopePolicy.samePolicy_symm hpol')
    · rw [heq] at hnew
      omega
  · intro ha id policy p s hp hs
    obtain ⟨hpmem, hppol⟩ := find_policy hp
    obtain ⟨hsmem, hspol⟩ := find_policy hs
    have heq : s = p := by
      rcases hi.swap_slot hsmem with hfirst | ⟨hbuilt, -, hnone⟩
      · -- the first slot before has the policy, so it is the one found
        have hfind := hp
        unfold Live.slotFor RegistrySnapshot.slotFor at hfind
        obtain ⟨rest, hrest⟩ := List.head?_eq_some_iff.1 (Option.mem_def.1 hfirst)
        have hrows : σ.registry.inner.rows id = s :: rest := hrest
        rw [hrows, List.find?_cons_of_pos (by exact hspol)] at hfind
        exact Option.some.inj hfind
      · obtain ⟨f, hf⟩ : ∃ f, f ∈ (σ.rows id).head? := by
          cases hrows : σ.rows id with
          | nil => rw [hrows] at hpmem; cases hpmem
          | cons f rest => exact ⟨f, rfl⟩
        have hsame := ScopePolicy.samePolicy_trans hspol (ScopePolicy.samePolicy_symm hppol)
        exact absurd (ha id s hbuilt p hpmem hsame f hf) (hnone f hf)
    exact ⟨heq, by rw [heq]; exact hi.swap_get entries p⟩

/-- **A scope whose policy has changed starts at zero.** -/
theorem Inv.changed_fresh (hi : Inv own σ) (hp : σ.slotFor id policy = none)
    (hs : (σ.swap entries).slotFor id policy = some s) :
    (σ.swap entries).heap.get s = {} := by
  obtain ⟨hsmem, hspol⟩ := find_policy hs
  rw [hi.swap_get]
  rcases hi.swap_slot hsmem with hfirst | ⟨-, hnew, -⟩
  · exact absurd hspol (by simpa using List.find?_eq_none.1 hp s (List.mem_of_mem_head? hfirst))
  · exact hi.cover.fresh _ _ hnew

/-- The table after a swap. -/
theorem Inv.swap (hi : Inv own σ) (entries : List KeyLimitsInput) :
    ∃ own', own.Grows σ.heap own' (σ.swap entries).heap ∧ Inv own' (σ.swap entries) := by
  obtain ⟨own', hg, hn⟩ := hi.build entries
  refine ⟨own', hg, hg.cover, fun id s hs => ⟨?_, Nat.zero_le _⟩, fun s hs => ?_⟩
  · rcases hi.swap_slot hs with hfirst | ⟨hbuilt, -, -⟩
    · exact hg.owned hi.cover (hi.names id s (List.mem_of_mem_head? hfirst)).1
    · exact (hn id s hbuilt).1
  · obtain ⟨id, howned⟩ := hi.held s hs
    exact ⟨id, hg.owned hi.cover howned⟩

end Swap

/-! ## Runs -/

section Runs

variable {own : Owners} {σ : Live} {id : ScopeId} {policy : ScopePolicy} {s t : ScopeSlot}
  {e : Event} {events : List Event} {w limit : ℕ}

/-- Guards are slots of the registry. -/
theorem guardsOf_mem {k tenant : String} {m : Option String}
    (hs : s ∈ (σ.guardsOf k tenant m).scopes) : ∃ id, s ∈ σ.rows id := by
  have hcases : ∀ {g : LimitGuards}, s ∈ g.scopes →
      (∃ sc, g.key = some sc ∧ sc.1 = s) ∨ (∃ sc, g.tenant = some sc ∧ sc.1 = s) ∨
        ∃ sc, g.model = some sc ∧ sc.1 = s := by
    intro g hg
    simpa only [LimitGuards.scopes, List.mem_append, List.mem_map, Option.mem_toList,
      Option.mem_def, or_assoc] using hg
  have hkey : ∀ {sc : Scoped .key}, σ.registry.inner.keyCounters k = some sc →
      sc.1 ∈ σ.rows (.key k) := by
    intro sc hsc
    simp [rows, RegistrySnapshot.rows, hsc]
  have htenant : ∀ {sc : Scoped .tenant}, σ.registry.inner.tenantCounters tenant = some sc →
      sc.1 ∈ σ.rows (.tenant tenant) := by
    intro sc hsc
    simp [rows, RegistrySnapshot.rows, hsc]
  cases m with
  | none =>
    rcases hcases hs with ⟨sc, hsc, rfl⟩ | ⟨sc, hsc, rfl⟩ | ⟨sc, hsc, rfl⟩
    · exact ⟨_, hkey hsc⟩
    · exact ⟨_, htenant hsc⟩
    · cases hsc
  | some m =>
    rcases hcases hs with ⟨sc, hsc, rfl⟩ | ⟨sc, hsc, rfl⟩ | ⟨sc, hsc, rfl⟩
    · exact ⟨_, hkey hsc⟩
    · exact ⟨_, htenant hsc⟩
    · obtain ⟨row, hrow, rfl⟩ := Option.map_eq_some_iff.1 hsc
      obtain ⟨rows', hrows, hfind⟩ := Option.bind_eq_some_iff.1 hrow
      refine ⟨.model k row.1, ?_⟩
      have hmem := List.mem_of_find?_eq_some hfind
      simp only [rows, RegistrySnapshot.rows, hrows, Option.getD_some, List.mem_filterMap]
      exact ⟨row, hmem, if_pos rfl⟩

/-- Counting at a scope touches no free address. -/
theorem Inv.set (hi : Inv own σ) (hs : s ∈ σ.held) (c : Counters) :
    Inv own { σ with heap := σ.heap.set s c } := by
  obtain ⟨id, howned⟩ := hi.held s hs
  have hlt := hi.cover.lt howned
  refine ⟨⟨fun k a ha => ?_, hi.cover.below, hi.cover.compiled⟩, hi.names, hi.held⟩
  have hne : a ≠ s.addr := by
    have hge : σ.heap.next ≤ a := ha
    omega
  have hold := hi.cover.fresh k a ha
  unfold Heap.set
  simp only
  by_cases hk : k = s.policy.scope
  · subst hk
    rw [Function.update_self, Function.update_of_ne hne]
    exact hold
  · rw [Function.update_of_ne hk]
    exact hold

/-- **One event** adds to the table at most. -/
theorem Inv.apply (hi : Inv own σ) (he : σ.Enabled e) :
    ∃ own', (∀ a x, own a = some x → own' a = some x) ∧ Inv own' (σ.apply e) := by
  cases e with
  | resolve k tenant m =>
    refine ⟨own, fun _ _ h => h, hi.cover, hi.names, fun s hs => ?_⟩
    rcases List.mem_append.1 hs with hs | hs
    · obtain ⟨id, hrow⟩ := guardsOf_mem hs
      exact ⟨id, (hi.names id s hrow).1⟩
    · exact hi.held s hs
  | take s nowMs => exact ⟨own, fun _ _ h => h, hi.set he _⟩
  | settle s nowMs totalTokens costMicroUsd => exact ⟨own, fun _ _ h => h, hi.set he _⟩
  | swap entries =>
    obtain ⟨own', hg, hi'⟩ := hi.swap entries
    exact ⟨own', fun a x h => hg.owned hi.cover h, hi'⟩

/-- Any run, event by event. -/
theorem Inv.run (hi : Inv own σ) (hr : σ.Runs events) :
    ∃ own', (∀ a x, own a = some x → own' a = some x) ∧ Inv own' (σ.run events) := by
  induction events generalizing σ own with
  | nil => exact ⟨own, fun _ _ h => h, hi⟩
  | cons e events ih =>
    obtain ⟨own', hmore, hi'⟩ := hi.apply hr.1
    obtain ⟨own'', hmore', hi''⟩ := ih hi' hr.2
    exact ⟨own'', fun a x h => hmore' a x (hmore a x h), hi''⟩

theorem Inv.start (entries : List KeyLimitsInput) (maxReplicas : ℕ) :
    ∃ own, Inv own (Live.start entries maxReplicas) := by
  have hempty : Owners.Cover (fun _ => none) ({} : Heap) :=
    ⟨fun _ _ _ => rfl, fun _ _ => rfl, fun a id s hs => by cases hs⟩
  obtain ⟨own, hg, hn⟩ := build_grows hempty entries maxReplicas
  exact ⟨own, hg.cover, hn, fun s hs => absurd hs List.not_mem_nil⟩

/-- **No counters pass from one scope to another**, then or later. -/
theorem Inv.never_carried (hi : Inv own σ) (hr : σ.Runs events) {id' : ScopeId}
    (hs : s ∈ σ.rows id) (ht : t ∈ (σ.run events).rows id') (ha : s.Aliases t) : id = id' := by
  obtain ⟨own', hmore, hi'⟩ := hi.run hr
  have howned := hmore _ _ (hi.names id s hs).1
  have howned' := (hi'.names id' t ht).1
  rw [← ha.2, howned] at howned'
  exact (Prod.mk.inj (Option.some.inj howned')).1

/-- An event in which a request is given a slot of `s`. -/
def Grants (σ : Live) (s : ScopeSlot) : Event → Prop
  | .take t nowMs => t.Aliases s ∧ (t.policy.consumeRequest (σ.heap.get t) nowMs).1 = none
  | _ => False

instance (σ : Live) (s : ScopeSlot) : DecidablePred (σ.Grants s)
  | .take _ _ => inferInstanceAs (Decidable (_ ∧ _))
  | .swap _ | .resolve _ _ _ | .settle _ _ _ _ => inferInstanceAs (Decidable False)

def grants (s : ScopeSlot) : Live → List Event → ℕ
  | _, [] => 0
  | σ, e :: events => (if σ.Grants s e then 1 else 0) + grants s (σ.apply e) events

/-- Every swap of a run keeps the counters of unchanged scopes and still has the scope. -/
def Spared (id : ScopeId) (policy : ScopePolicy) : Live → List Event → Prop
  | _, [] => True
  | σ, e :: events =>
    (match e with
      | .swap entries => σ.Aligned entries ∧ ((σ.swap entries).slotFor id policy).isSome
      | _ => True) ∧ Spared id policy (σ.apply e) events

/-- The requests of a slot are all stamped with one minute. -/
def Within (w : ℕ) (s : ScopeSlot) (events : List Event) : Prop :=
  ∀ t nowMs, Event.take t nowMs ∈ events → t.Aliases s → minuteEpoch nowMs = w

/-- One event at a spared scope: the scope has the same slot after it. -/
theorem Inv.spared_apply (hi : Inv own σ) (hsp : Spared id policy σ (e :: events))
    (hs : σ.slotFor id policy = some s) : (σ.apply e).slotFor id policy = some s := by
  cases e with
  | swap entries =>
    obtain ⟨⟨ha, hsome⟩, -⟩ := hsp
    obtain ⟨s', hs'⟩ := Option.isSome_iff_exists.1 hsome
    obtain ⟨heq, -⟩ := (hi.keeps_iff_aligned entries).2 ha id policy s s' hs hs'
    rw [← heq]
    exact hs'
  | resolve k tenant m => exact hs
  | take t nowMs => exact hs
  | settle t nowMs totalTokens costMicroUsd => exact hs

/-- One event, seen from the request window of a slot: a grant below the limit counts one, and
nothing else changes the count. -/
theorem Inv.peek_apply (hi : Inv own σ) (he : σ.Enabled e) (howned : own s.addr = some (id, s))
    (hmode : s.policy.rateMode = .hard) (hl : s.policy.requestsPerMin = some limit)
    (hw : Within w s (e :: events)) :
    if σ.Grants s e then
      peek w (σ.heap.get s).req < limit ∧
        peek w ((σ.apply e).heap.get s).req = peek w (σ.heap.get s).req + 1
    else peek w ((σ.apply e).heap.get s).req = peek w (σ.heap.get s).req := by
  cases e with
  | resolve k tenant m => exact rfl
  | swap entries =>
    show peek w ((σ.swap entries).heap.get s).req = _
    rw [hi.swap_get]
  | settle t nowMs totalTokens costMicroUsd =>
    show peek w ((σ.heap.set t _).get s).req = _
    by_cases ha : t.Aliases s
    · have hget : σ.heap.get s = σ.heap.get t := by
        unfold Heap.get
        rw [ha.1, ha.2]
      rw [Heap.get_set_of_aliases _ _ ha, ScopePolicy.settle_req, hget]
    · rw [Heap.get_set_of_not_aliases _ _ ha]
  | take t nowMs =>
    show if _ then _ ∧ peek w ((σ.heap.set t _).get s).req = _ else
      peek w ((σ.heap.set t _).get s).req = _
    by_cases ha : t.Aliases s
    · -- the address is the scope's own, so the slot is
      obtain ⟨id', howned'⟩ := hi.held t he
      rw [ha.2, howned] at howned'
      obtain ⟨-, rfl⟩ := Prod.mk.inj (Option.some.inj howned')
      have hminute : minuteEpoch nowMs = w := hw s nowMs List.mem_cons_self ha
      have hmask := hi.cover.compiled _ _ _ howned limit hl
      rw [Heap.get_set_self]
      by_cases hfull : s.policy.Full (σ.heap.get s) nowMs
      · obtain ⟨_, _, heq⟩ := ScopePolicy.consumeRequest_full hfull
        have hno : ¬σ.Grants s (.take s nowMs) := by
          rintro ⟨-, hnone⟩
          rw [heq] at hnone
          cases hnone
        rw [if_neg hno, heq]
      · -- a request is granted below the limit only, and counted
        have heq := ScopePolicy.consumeRequest_some hl hfull
        have hyes : σ.Grants s (.take s nowMs) := ⟨ha, by rw [heq]⟩
        have hlt : peek w (σ.heap.get s).req < limit := by
          by_contra hge
          refine hfull ⟨hmode, limit, hl, ?_⟩
          rw [hminute]
          omega
        have hsame : SameEpoch w w := rfl
        rw [if_pos hyes, heq]
        refine ⟨hlt, ?_⟩
        rw [hminute, peek_pack (min_le_right _ _), if_pos hsame]
        omega
    · have hno : ¬σ.Grants s (.take t nowMs) := fun hg => ha hg.1
      rw [if_neg hno, Heap.get_set_of_not_aliases _ _ ha]

/-- **A spared scope keeps its slot through a run**, and the requests granted in a minute fit in
what was left of its limit. -/
theorem Inv.spared_run (hi : Inv own σ) (hr : σ.Runs events) (hsp : Spared id policy σ events)
    (hs : σ.slotFor id policy = some s) (hmode : s.policy.rateMode = .hard)
    (hl : s.policy.requestsPerMin = some limit) (hw : Within w s events) :
    (σ.run events).slotFor id policy = some s ∧
      (grants s σ events = 0 ∨ peek w (σ.heap.get s).req + grants s σ events ≤ limit) := by
  induction events generalizing σ own with
  | nil => exact ⟨hs, Or.inl rfl⟩
  | cons e events ih =>
    obtain ⟨own', -, hi'⟩ := hi.apply hr.1
    have howned := (hi.names id s (find_policy hs).1).1
    have hpeek := hi.peek_apply hr.1 howned hmode hl hw
    have hw' : Within w s events := fun t nowMs ht => hw t nowMs (List.mem_cons_of_mem _ ht)
    obtain ⟨hslot, hcount⟩ := ih hi' hr.2 hsp.2 (hi.spared_apply hsp hs) hw'
    refine ⟨hslot, ?_⟩
    unfold grants
    by_cases hg : σ.Grants s e
    · rw [if_pos hg] at hpeek ⊢
      obtain ⟨hlt, hone⟩ := hpeek
      rw [hone] at hcount
      omega
    · rw [if_neg hg] at hpeek ⊢
      rw [hpeek] at hcount
      omega

end Runs

end Live

/-- **Counters over swaps.** In service, from any start: a swap keeps the counters of every unchanged
scope iff it is aligned; a scope with a changed policy starts at zero; no counters pass to another
scope; and through any run whose swaps are aligned, a scope that stays configured keeps its
counters, so a hard limit is not exceeded by the requests of one minute before and after. -/
theorem swap_keeps_counters (entries : List KeyLimitsInput) (maxReplicas : ℕ) (past : List Event)
    (hpast : (Live.start entries maxReplicas).Runs past) :
    let σ := (Live.start entries maxReplicas).run past
    (∀ entries, σ.Keeps entries ↔ σ.Aligned entries) ∧
    (∀ entries id policy s, σ.slotFor id policy = none →
      (σ.swap entries).slotFor id policy = some s → (σ.swap entries).heap.get s = {}) ∧
    (∀ events id id' s t, σ.Runs events → s ∈ σ.rows id → t ∈ (σ.run events).rows id' →
      s.Aliases t → id = id') ∧
    ∀ events id policy s w limit, σ.Runs events → Live.Spared id policy σ events →
      σ.slotFor id policy = some s → s.policy.rateMode = .hard →
      s.policy.requestsPerMin = some limit → Live.Within w s events →
      (σ.run events).slotFor id policy = some s ∧ Live.grants s σ events ≤ limit := by
  obtain ⟨own, hstart⟩ := Live.Inv.start entries maxReplicas
  obtain ⟨own', -, hi⟩ := hstart.run hpast
  refine ⟨hi.keeps_iff_aligned, fun _ _ _ _ hp hs => hi.changed_fresh hp hs,
    fun _ _ _ _ _ hr hs ht ha => hi.never_carried hr hs ht ha, ?_⟩
  intro events id policy s w limit hr hsp hs hmode hl hw
  obtain ⟨hslot, hcount⟩ := hi.spared_run hr hsp hs hmode hl hw
  exact ⟨hslot, by omega⟩

/-- Two patterns of a key that trim to one text, in the order the table of patterns is walked. -/
def twoPatterns (one other : String × ℕ) : List KeyLimitsInput :=
  [⟨"k", "t", ⟨none, none, [one, other].map fun p =>
    (p.1, ⟨none, some { requestsPerMin := some p.2 }, none⟩)⟩⟩]

/-- The slot of the first of them. -/
def firstPattern : ScopeSlot :=
  ⟨⟨.model, "model:k:gpt", "model:k:gpt", some 5, some 5, none, .hard, none, none, none, none, 0,
    .hard, none⟩, 0⟩

/-- A new limit for the first pattern starts at zero, while the old one had counted a request. -/
theorem changed_pattern_starts_at_zero :
    (((Live.start (twoPatterns ("gpt", 5) ("claude", 7)) 1).run
      [.resolve "k" "t" (some "gpt-4"), .take firstPattern 0]).swap
        (twoPatterns ("gpt", 6) ("claude", 7))).heap.get
          ⟨{ firstPattern.policy with requestsPerMin := some 6, reqPerMinGlobal := some 6 }, 2⟩ = {} :=
  (swap_keeps_counters (twoPatterns ("gpt", 5) ("claude", 7)) 1
    [.resolve "k" "t" (some "gpt-4"), .take firstPattern 0] (by decide)).2.1
    (twoPatterns ("gpt", 6) ("claude", 7)) (.model "k" "gpt")
    { firstPattern.policy with requestsPerMin := some 6, reqPerMinGlobal := some 6 } _
    (by decide) (by decide)

/-- The same configuration twice more, its two patterns met in the other order the first time: the
first pattern's count is gone. -/
theorem two_patterns_lose_count :
    ¬∀ (entries : List KeyLimitsInput) (maxReplicas : ℕ) (past : List Event),
      (Live.start entries maxReplicas).Runs past →
      let σ := (Live.start entries maxReplicas).run past
      ∀ entries id policy p s, σ.slotFor id policy = some p →
        (σ.swap entries).slotFor id policy = some s →
        (σ.swap entries).heap.get s = σ.heap.get p := by
  intro h
  have hsame := h (twoPatterns ("gpt", 5) (" gpt", 7)) 1
    [.resolve "k" "t" (some "gpt-4"), .take firstPattern 0,
      .swap (twoPatterns (" gpt", 7) ("gpt", 5))] (by decide)
    (twoPatterns ("gpt", 5) (" gpt", 7)) (.model "k" "gpt") firstPattern.policy firstPattern
    ⟨firstPattern.policy, 4⟩
  revert hsame
  decide

end Routeplane.Limits
